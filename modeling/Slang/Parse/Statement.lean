import Slang.Parse.Expression

/-!
# Parsing statements and programs

Statements are told apart by their first token. A statement that could not be read is dropped from
the list it stands in, after its problem was recorded, so that one parse reports every problem.
-/

namespace Slang

namespace Parser

/-- Ends a statement. Behind a broken expression the semicolon may be missing, since that problem
has been reported. -/
def terminate (value : Expr) (statement : Terminated) : Parser Unit :=
  if value.isBroken then optional (.mark .semicolon)
  else require (.mark .semicolon) (.unterminated statement)

/-- An expression and the end of its statement. -/
def terminated (limit : Nat) (statement : Terminated) : Parser Expr := do
  let value ← expressionWithin limit .lowest
  terminate value statement
  return value

/-- A declaration, from its keyword on. -/
def declaration (limit : Nat) : Parser Stmt := do
  modify ParseState.shift
  let token ← advance
  match token.kind with
  | .identifier name =>
    if ← sees (.mark .semicolon) then
      modify ParseState.shift
      return .declare name none
    else
      require (.keyword .become) .declarationWithoutBecome
      return .declare name (some (← terminated limit .definition))
  | _ =>
    report .declarationWithoutName token.span
    synchronize
    return .broken

/-- The one statement behind a condition. -/
def branch (statement : Bool → Parser Stmt) : Parser Stmt := do
  skipSemicolons
  let token ← current
  if token.kind = .eof then report .missingStatement token.span else pure ()
  statement false

/-- A condition in parentheses and the statement behind it. -/
def guarded (statement : Bool → Parser Stmt) (limit : Nat) : Parser (Expr × Stmt) := do
  require (.mark .openParen) .unopenedCondition
  let condition ← expressionWithin limit .lowest
  require (.mark .closeParen) .unclosedCondition
  return (condition, ← branch statement)

/-- What follows the first branch of a conditional statement, at most `links` branches long. -/
def alternative (statement : Bool → Parser Stmt) (limit : Nat) : Nat → Parser Alternative
  | 0 => return .none
  | links + 1 => do
    let token ← current
    match token.kind with
    | .keyword .elseWhen =>
      modify ParseState.shift
      let (condition, body) ← guarded statement limit
      return .elseWhen condition body (← alternative statement limit links)
    | .keyword .otherwise =>
      modify ParseState.shift
      return .otherwise (← branch statement)
    | _ => return .none

/-- Statements up to a token that ends their list, without the broken ones. -/
def statements (statement : Parser Stmt) (ends : TokenKind → Bool) (limit : Nat) :
    Parser (List Stmt) :=
  iterate (fun parsed ↦ do
    let token ← current
    if ends token.kind then return .done parsed
    else
      let next ← statement
      return .yield (if next.isBroken then parsed else parsed ++ [next])) limit []

def endsBody : TokenKind → Bool
  | .eof | .mark .closeBrace => true
  | _ => false

/-- Statements in braces. Whatever stands in place of the opening brace is taken for it. -/
def body (statement : Bool → Parser Stmt) (limit : Nat) : Parser (List Stmt) := do
  expect (.mark .openBrace) .unopenedBody
  let parsed ← statements (statement true) endsBody limit
  require (.mark .closeBrace) .unclosedBody
  return parsed

def isLabel : TokenKind → Bool
  | .keyword .caseLabel | .keyword .defaultLabel => true
  | _ => false

/-- The labels read for an arm, and whether this or an earlier arm of the switch has the default
label. -/
structure Labels where
  cases : List Expr
  isDefault : Bool
  defaultSeen : Bool

/-- One more label, from its keyword on. -/
def label (limit : Nat) (labels : Labels) : Parser Labels := do
  let token ← advance
  if token.kind = .keyword .defaultLabel then
    if labels.defaultSeen then report .repeatedDefault token.span else pure ()
    require (.mark .colon) .defaultWithoutColon
    return ⟨labels.cases, true, true⟩
  else
    let value ← expressionWithin limit .lowest
    require (.mark .colon) .caseWithoutColon
    return ⟨labels.cases ++ [value], labels.isDefault, labels.defaultSeen⟩

/-- The labels in front of the statements of an arm. -/
def labels (limit : Nat) (defaultSeen : Bool) : Parser Labels :=
  iterate (fun parsed ↦ do
    let token ← current
    if isLabel token.kind then return .yield (← label limit parsed)
    else return .done parsed) limit ⟨[], false, defaultSeen⟩

/-- A statement of an arm. Declarations are reported where they start, and kept. -/
def armStatement (statement : Bool → Parser Stmt) : Parser Stmt := do
  let start ← current
  let parsed ← statement true
  if parsed.isDeclaration then report .declarationInArm start.span else pure ()
  return parsed

def endsArm (kind : TokenKind) : Bool :=
  endsBody kind || isLabel kind

/-- The arms of a switch. -/
def arms (statement : Bool → Parser Stmt) (limit : Nat) : Parser (List (Arm Stmt)) := do
  let parsed ← iterate (fun (parsed : List (Arm Stmt) × Bool) ↦ do
    let token ← current
    if isLabel token.kind then
      let front ← labels limit parsed.2
      let behind ← statements (armStatement statement) endsArm limit
      return .yield (parsed.1 ++ [⟨front.cases, front.isDefault, behind⟩], front.defaultSeen)
    else return .done parsed) limit ([], false)
  return parsed.1

/-- A switch, behind its keyword. -/
def switch (statement : Bool → Parser Stmt) (limit : Nat) : Parser Stmt := do
  let subject ← expressionWithin limit .lowest
  require (.mark .openBrace) .unopenedSwitch
  let parsed ← arms statement limit
  require (.mark .closeBrace) .unclosedSwitch
  return .switch subject parsed

/-- The name that a handler gives to what it catches. -/
def binding : Parser String := do
  let token ← advance
  match token.kind with
  | .identifier name => return name
  | _ =>
    report .malformedRescue token.span
    return ""

/-- An attempt and its handler, behind the first keyword. -/
def attempt (statement : Bool → Parser Stmt) (limit : Nat) : Parser Stmt := do
  let attempted ← body statement limit
  expect (.keyword .rescue) .malformedRescue
  require (.mark .openParen) .malformedRescue
  let name ← binding
  require (.mark .closeParen) .malformedRescue
  return .attempt attempted name (← body statement limit)

/-- The statement that begins with a token in view, given the parser for the statements inside
it. -/
def statementAt (statement : Bool → Parser Stmt) (limit : Nat) (mayDeclare : Bool) (token : Token) :
    Parser Stmt :=
  match token.kind with
  | .eof => return .broken
  | .keyword .declare => do
    if mayDeclare then pure () else report .declarationInBranch token.span
    declaration limit
  | .keyword .when => do
    modify ParseState.shift
    let (condition, body) ← guarded statement limit
    return .when condition body (← alternative statement limit limit)
  | .keyword .loop => do
    modify ParseState.shift
    let (condition, body) ← guarded statement limit
    return .loop condition body
  | .keyword .print => do
    modify ParseState.shift
    return .print (← terminated limit .print)
  | .keyword .switch => do
    modify ParseState.shift
    switch statement limit
  | .keyword .attempt => do
    modify ParseState.shift
    attempt statement limit
  | .keyword .throw => do
    modify ParseState.shift
    return .throw (← terminated limit .throw)
  | .keyword .leave => do
    modify ParseState.shift
    require (.mark .semicolon) (.unterminated .leave)
    return .leave
  | .mark .openBrace => return .block (← body statement limit)
  | _ => return .expression (← terminated limit .expression)

/-- A statement of at most the given depth, declarations being reported unless they are allowed.
It is broken if the text ends first. -/
def statementWithin : Nat → Bool → Parser Stmt
  | 0, _ => return .broken
  | limit + 1, mayDeclare => do
    skipSemicolons
    statementAt (statementWithin limit) (limit + 1) mayDeclare (← current)

/-- A statement. Each level of depth takes a token, so the tokens left bound the depth. -/
def statement (mayDeclare : Bool) : Parser Stmt := do
  statementWithin ((← get).remaining + 1) mayDeclare

end Parser

/-- A program and all that was reported while it was read. -/
structure Parsed where
  body : List Stmt
  diagnostics : List Diagnostic
  /-- The diagnostics as they are shown, if there are any. -/
  report : Option String

/-- Whether nothing was reported. -/
def Parsed.isClean (parsed : Parsed) : Bool :=
  parsed.diagnostics.isEmpty

/-- Reads statements to the end of the text and hands over what was recorded so far. -/
def Parser.program : Parser Parsed := do
  let limit := (← get).remaining + 1
  let body ← statements (statementWithin limit true) (· = .eof) limit
  modifyGet fun state ↦ (⟨body, state.diagnostics, state.report?⟩, state.handedOver)

theorem Parser.program_apply (state : ParseState) :
    program state =
      let read := statements (statementWithin (state.remaining + 1) true) (· = .eof)
        (state.remaining + 1) state
      (⟨read.1, read.2.diagnostics, read.2.report?⟩, read.2.handedOver) := rfl

/-- Reads a source text. -/
def parse (colors : Option Painter) (source : String) : Parsed :=
  (Parser.program (.ofSource colors source)).1

end Slang
