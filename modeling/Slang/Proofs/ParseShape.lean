import Slang.Proofs.Progress
import Slang.Proofs.Recognition

/-!
# The shape of parsed programs

Whatever the text, no statement that could not be read stands in a statement list. If nothing was
reported, nothing in the tree is broken and the whole program is well formed; its names are words
that are not reserved, and no string ends in a backslash, since that would have taken in the quote.
-/

namespace Slang

open Parser

/-! ## Names and strings -/

/-- What the leaves of a program look like that was read without reports. -/
def TokenKind.isReadable : TokenKind → Bool
  | .identifier name => isName name
  | .string contents => contents.toList.getLast? != some '\\'
  | _ => true

/-- The contents of a closed literal are empty only if the quote follows at once, and they do not
end in a backslash. -/
theorem Quoted.ofText_closed {quote : Char} (hquote : quote ≠ '\\') {text : List Char}
    (hclosed : (Quoted.ofText quote text).closed = true) :
    (Quoted.ofText quote text).contents.getLast? ≠ some '\\' ∧
      ((Quoted.ofText quote text).contents = [] → text.head? = some quote) := by
  fun_induction Quoted.ofText quote text with
  | case1 => cases hclosed
  | case2 => exact ⟨by simp, fun _ ↦ rfl⟩
  | case3 => cases hclosed
  | case4 => exact ⟨by simp, fun _ ↦ rfl⟩
  | case5 character next text _ hescape ih =>
    obtain ⟨hlast, -⟩ := ih hclosed
    refine ⟨?_, fun hnil ↦ by cases hnil⟩
    cases hcontents : (Quoted.ofText quote text).contents with
    | nil => simpa [push, hcontents] using hquote
    | cons first rest => simpa [push, hcontents] using hlast
  | case6 character next text hne hescape ih =>
    obtain ⟨hlast, hnext⟩ := ih hclosed
    refine ⟨?_, fun hnil ↦ by cases hnil⟩
    cases hcontents : (Quoted.ofText quote (next :: text)).contents with
    | nil =>
      -- A backslash in front of the closing quote would have been the other case.
      obtain rfl : next = quote := by simpa using hnext hcontents
      simpa [push, hcontents] using hescape
    | cons first rest => simpa [push, hcontents] using hlast

theorem TokenKind.isReadable_ofWord {first : Char} {rest : List Char}
    (h : first.isAlpha = true ∨ first = '_') (hrest : rest.all isWordCharacter = true) :
    (ofWord (String.ofList (first :: rest))).isReadable = true := by
  unfold ofWord
  cases hword : Keyword.ofWord? (String.ofList (first :: rest)) with
  | some keyword => rfl
  | none =>
    change isName (String.ofList (first :: rest)) = true
    rw [isName, String.toList_ofList]
    dsimp only
    rw [hrest, hword]
    simpa using h

theorem Shape.isReadable_ofText (first : Char) (rest : List Char) :
    (Shape.ofText first rest).missingQuote = none →
      (Shape.ofText first rest).kind.isReadable = true := by
  unfold Shape.ofText
  dsimp only
  split
  · exact fun _ ↦ rfl
  split
  · exact fun _ ↦ rfl
  split
  · rename_i hquote
    intro hmissing
    have hclosed := Shape.closed_of_missingQuote hmissing
    have hfirst : first ≠ '\\' := by
      rcases hquote with rfl | rfl <;> decide
    have hlast := (Quoted.ofText_closed hfirst hclosed).1
    simpa [Shape.ofQuoted, TokenKind.isReadable] using hlast
  split
  · exact fun _ ↦ rfl
  split
  · rename_i hword
    intro _
    rw [List.takeWhile_cons_of_pos (isWordCharacter_of_begins hword)]
    exact TokenKind.isReadable_ofWord hword List.all_takeWhile
  split <;> exact fun _ ↦ rfl

namespace Cursor

theorem isReadable_readRaw (cursor : Cursor) :
    cursor.readRaw.reports = [] → cursor.readRaw.token.kind.isReadable = true := by
  unfold readRaw
  dsimp only
  split
  · exact fun _ ↦ rfl
  · exact fun _ ↦ rfl
  · exact fun h ↦ Shape.isReadable_ofText _ _ (problems_eq_nil h).1

theorem isReadable_read (cursor : Cursor) (h : cursor.read.reports = []) :
    cursor.read.token.kind.isReadable = true := by
  induction cursor using read_induction with
  | good cursor hgood =>
    rw [read_of_ne_bad hgood] at h ⊢
    exact cursor.isReadable_readRaw h
  | bad cursor hbad ih =>
    rw [read_of_bad hbad] at h ⊢
    exact ih (List.append_eq_nil_iff.1 h).2

/-- Tokens that nothing was reported about have leaves as they should be. -/
theorem isReadable_of_mem_lexemeList {cursor : Cursor} {lexeme : Lexeme}
    (hmem : lexeme ∈ cursor.lexemeList) (h : lexeme.reports = []) :
    lexeme.token.kind.isReadable = true := by
  induction cursor using lexeme_induction with
  | last cursor heof =>
    rw [lexemeList_of_eof heof, List.mem_singleton] at hmem
    subst hmem
    exact cursor.isReadable_read h
  | more cursor hmore ih =>
    rw [lexemeList_of_more hmore, List.mem_cons] at hmem
    rcases hmem with rfl | hmem
    · exact cursor.isReadable_read h
    · exact ih hmem

theorem isReadable_of_reportsOf {source : String} (h : reportsOf source = []) :
    ∀ token ∈ tokensOf source, token.kind.isReadable = true := by
  intro token hmem
  obtain ⟨lexeme, hlexeme, rfl⟩ := List.mem_map.1 hmem
  exact isReadable_of_mem_lexemeList hlexeme (List.flatMap_eq_nil_iff.1 h lexeme hlexeme)

end Cursor

/-! ## Statement lists -/

mutual

/-- Whether no broken statement stands in a list inside a statement. -/
def Stmt.hasIntactLists : Stmt → Bool
  | .block inside => Stmt.areIntact inside
  | .when _ body rest => Stmt.hasIntactLists body && Alternative.hasIntactLists rest
  | .loop _ body => Stmt.hasIntactLists body
  | .switch _ arms => armsAreIntact arms
  | .attempt body _ handler => Stmt.areIntact body && Stmt.areIntact handler
  | .expression _ | .declare _ _ | .leave | .throw _ | .print _ => true

def Alternative.hasIntactLists : Alternative → Bool
  | .none => true
  | .otherwise body => Stmt.hasIntactLists body
  | .elseWhen _ body rest => Stmt.hasIntactLists body && Alternative.hasIntactLists rest

/-- Whether a statement list and all lists inside it are without broken statements. -/
def Stmt.areIntact : List Stmt → Bool
  | [] => true
  | first :: rest => !first.isBroken && Stmt.hasIntactLists first && Stmt.areIntact rest

def armsAreIntact : List (Arm Stmt) → Bool
  | [] => true
  | ⟨_, _, inside⟩ :: arms => Stmt.areIntact inside && armsAreIntact arms

end

theorem Stmt.areIntact_concat {list : List Stmt} {last : Stmt} :
    Stmt.areIntact (list ++ [last]) = true ↔
      Stmt.areIntact list = true ∧ last.isBroken = false ∧ last.hasIntactLists = true := by
  induction list with
  | nil => simp [areIntact]
  | cons first list ih => simp [areIntact, ih, and_assoc]

theorem armsAreIntact_concat {arms : List (Arm Stmt)} {last : Arm Stmt} :
    armsAreIntact (arms ++ [last]) = true ↔
      armsAreIntact arms = true ∧ Stmt.areIntact last.statements = true := by
  induction arms with
  | nil => simp [armsAreIntact]
  | cons arm arms ih => simp [armsAreIntact, ih, and_assoc]

namespace Parser

variable {Result Next : Type}

/-- Whatever the state, the result satisfies the condition. -/
def Yields (parser : Parser Result) (condition : Result → Prop) : Prop :=
  ∀ state, condition (parser state).1

namespace Yields

theorem pure {result : Result} {condition : Result → Prop} (h : condition result) :
    Yields (Pure.pure result) condition :=
  fun _ ↦ h

theorem bind {first : Parser Result} {next : Result → Parser Next} {condition : Result → Prop}
    {final : Next → Prop} (hfirst : Yields first condition)
    (hnext : ∀ result, condition result → Yields (next result) final) :
    Yields (first >>= next) final :=
  fun state ↦ hnext _ (hfirst state) _

/-- A step whose result does not matter. -/
theorem andThen {first : Parser Result} {next : Result → Parser Next} {final : Next → Prop}
    (hnext : ∀ result, Yields (next result) final) : Yields (first >>= next) final :=
  fun state ↦ hnext (first state).1 (first state).2

theorem iterate {invariant : Result → Prop} {step : Result → Parser (ForInStep Result)}
    (hstep : ∀ result, invariant result → Yields (step result) fun outcome ↦
      invariant outcome.value) (limit : Nat) {result : Result} (h : invariant result) :
    Yields (Parser.iterate step limit result) invariant := by
  induction limit generalizing result with
  | zero => exact .pure h
  | succ limit ih =>
    refine (hstep result h).bind fun outcome houtcome ↦ ?_
    cases outcome with
    | done final => exact .pure houtcome
    | yield next => exact ih houtcome

end Yields

theorem statements_yields {element : Parser Stmt} {ends : TokenKind → Bool}
    (helement : Yields element fun parsed ↦ parsed.hasIntactLists = true) (limit : Nat) :
    Yields (statements element ends limit) fun parsed ↦ Stmt.areIntact parsed = true := by
  refine Yields.iterate (fun parsed hparsed ↦ .andThen fun token ↦ ?_) limit rfl
  split
  · exact .pure hparsed
  · refine helement.bind fun next hnext ↦ .pure ?_
    change Stmt.areIntact (if next.isBroken = true then parsed else parsed ++ [next]) = true
    split
    · exact hparsed
    · rename_i hbroken
      exact Stmt.areIntact_concat.2 ⟨hparsed, eq_false_of_ne_true hbroken, hnext⟩

theorem declaration_yields (limit : Nat) :
    Yields (declaration limit) fun parsed ↦ parsed.hasIntactLists = true := by
  refine .andThen fun _ ↦ .andThen fun token ↦ ?_
  split
  · refine .andThen fun atEnd ↦ ?_
    split
    · exact .andThen fun _ ↦ .pure rfl
    · exact .andThen fun _ ↦ .andThen fun _ ↦ .pure rfl
  · exact .andThen fun _ ↦ .andThen fun _ ↦ .pure rfl

section Inside

variable {statement : Bool → Parser Stmt}
  (hstatement : ∀ mayDeclare, Yields (statement mayDeclare) fun parsed ↦
    parsed.hasIntactLists = true)
include hstatement

theorem branch_yields : Yields (branch statement) fun parsed ↦ parsed.hasIntactLists = true := by
  refine .andThen fun _ ↦ .andThen fun token ↦ ?_
  dsimp only
  split
  · exact .andThen fun _ ↦ hstatement false
  · exact hstatement false

theorem guarded_yields (limit : Nat) :
    Yields (guarded statement limit) fun parsed ↦ parsed.2.hasIntactLists = true :=
  .andThen fun _ ↦ .andThen fun _ ↦ .andThen fun _ ↦
    (branch_yields hstatement).bind fun _ hbody ↦ .pure hbody

theorem alternative_yields (limit links : Nat) :
    Yields (alternative statement limit links) fun rest ↦ rest.hasIntactLists = true := by
  induction links with
  | zero => exact .pure rfl
  | succ links ih =>
    refine .andThen fun token ↦ ?_
    dsimp only
    split
    · refine .andThen fun _ ↦ (guarded_yields hstatement limit).bind fun parsed hbody ↦
        ih.bind fun rest hrest ↦ .pure ?_
      rw [Alternative.hasIntactLists, hbody, hrest]
      rfl
    · exact .andThen fun _ ↦ (branch_yields hstatement).bind fun _ hbody ↦ .pure hbody
    · exact .pure rfl

theorem body_yields (limit : Nat) :
    Yields (body statement limit) fun parsed ↦ Stmt.areIntact parsed = true :=
  .andThen fun _ ↦ (statements_yields (hstatement true) limit).bind fun _ hparsed ↦
    .andThen fun _ ↦ .pure hparsed

theorem armStatement_yields :
    Yields (armStatement statement) fun parsed ↦ parsed.hasIntactLists = true := by
  refine .andThen fun start ↦ (hstatement true).bind fun parsed hparsed ↦ ?_
  dsimp only
  split
  · exact .andThen fun _ ↦ .pure hparsed
  · exact .pure hparsed

theorem arms_yields (limit : Nat) :
    Yields (arms statement limit) fun parsed ↦ armsAreIntact parsed = true := by
  have hinside : Yields (statements (armStatement statement) endsArm limit) _ :=
    statements_yields (armStatement_yields hstatement) limit
  refine (Yields.iterate (fun parsed hparsed ↦ .andThen fun token ↦ ?_) limit rfl :
    Yields _ fun parsed : List (Arm Stmt) × Bool ↦ armsAreIntact parsed.1 = true).bind
      fun parsed hparsed ↦ .pure hparsed
  split
  · exact .andThen fun front ↦ hinside.bind fun behind hbehind ↦
      .pure (armsAreIntact_concat.2 ⟨hparsed, hbehind⟩)
  · exact .pure hparsed

theorem statementAt_yields (limit : Nat) (mayDeclare : Bool) (token : Token) :
    Yields (statementAt statement limit mayDeclare token) fun parsed ↦
      parsed.hasIntactLists = true := by
  have hguarded := guarded_yields hstatement limit
  have hbody := body_yields hstatement limit
  unfold statementAt
  split
  · exact .pure rfl
  · dsimp only
    split
    · exact declaration_yields limit
    · exact .andThen fun _ ↦ declaration_yields limit
  · refine .andThen fun _ ↦ hguarded.bind fun parsed hparsed ↦
      (alternative_yields hstatement limit limit).bind fun rest hrest ↦ .pure ?_
    rw [Stmt.hasIntactLists, hparsed, hrest]
    rfl
  · exact .andThen fun _ ↦ hguarded.bind fun parsed hparsed ↦ .pure hparsed
  · exact .andThen fun _ ↦ .andThen fun _ ↦ .pure rfl
  · exact .andThen fun _ ↦ .andThen fun _ ↦ .andThen fun _ ↦
      (arms_yields hstatement limit).bind fun arms harms ↦ .andThen fun _ ↦ .pure harms
  · refine .andThen fun _ ↦ hbody.bind fun attempted hattempted ↦ .andThen fun _ ↦
      .andThen fun _ ↦ .andThen fun _ ↦ .andThen fun _ ↦ hbody.bind fun handler hhandler ↦ .pure ?_
    rw [Stmt.hasIntactLists, hattempted, hhandler]
    rfl
  · exact .andThen fun _ ↦ .andThen fun _ ↦ .pure rfl
  · exact .andThen fun _ ↦ .andThen fun _ ↦ .pure rfl
  · exact hbody.bind fun inside hinside ↦ .pure hinside
  · exact .andThen fun _ ↦ .pure rfl

end Inside

theorem statementWithin_yields (limit : Nat) (mayDeclare : Bool) :
    Yields (statementWithin limit mayDeclare) fun parsed ↦ parsed.hasIntactLists = true := by
  induction limit generalizing mayDeclare with
  | zero => exact .pure rfl
  | succ limit ih =>
    exact .andThen fun _ ↦ .andThen fun token ↦ statementAt_yields ih _ mayDeclare token

theorem program_yields : Yields program fun parsed ↦ Stmt.areIntact parsed.body = true :=
  .andThen fun _ ↦ (statements_yields (statementWithin_yields _ true) _).bind
    fun _ hbody _ ↦ hbody

end Parser

/-! ## Programs -/

open ParseState

/-- A text that gives nothing to report is read as what its tokens spell. -/
theorem spells_of_parse {colors : Option Painter} {source : String}
    (hclean : (parse colors source).diagnostics = []) :
    Cursor.reportsOf source = [] ∧
      ∃ kinds, (Cursor.tokensOf source).map Token.kind = kinds ++ [.eof] ∧
        Spells (.statements .program [] (parse colors source).body) kinds .eof := by
  have hended := ofSource_ended colors source
  obtain ⟨-, taken, after, htakes, heof, hdiagnostics, -, -, hspells⟩ := program_takes hended
  have hafter : after.diagnostics = [] := hdiagnostics.symm.trans hclean
  have hremaining := (htakes.ended hended).current_eq_eof_iff.1 heof
  have hreports := htakes.reports_eq_nil hremaining hafter
  rw [reports_ofSource] at hreports
  refine ⟨hreports, taken.map Token.kind, ?_, hspells hafter⟩
  rw [← tokens_ofSource colors]
  refine htakes.kinds_eq.trans ?_
  rw [kinds_eq_cons, heof, List.eq_nil_of_length_eq_zero hremaining]
  rfl

/-- A text is read as its tokens spell it. -/
theorem parse_of_spells {source : String} {program : List Stmt} {kinds : List TokenKind}
    (hspells : Spells (.statements .program [] program) kinds .eof)
    (hreports : Cursor.reportsOf source = [])
    (hkinds : (Cursor.tokensOf source).map Token.kind = kinds ++ [.eof])
    (colors : Option Painter) : parse colors source = ⟨program, [], none⟩ := by
  have hkinds' : (ofSource colors source).kinds = kinds ++ [.eof] := by
    rw [ParseState.kinds, tokens_ofSource, hkinds]
  obtain ⟨after, hpasses, heof⟩ := exists_passes hkinds'
  have hafter : after.reports = [] := by
    rw [← hpasses.reports_eq, reports_ofSource, hreports]
  have hparse := parse_of_unbounded (hspells.reads hpasses heof)
  rw [(List.append_eq_nil_iff.1 hafter).1] at hparse
  rw [parse_of_clean (congrArg Parsed.diagnostics hparse), hparse]

/-- Broken statements are dropped from all lists of every parsed program, and a program without
reports is well formed. -/
theorem parse_shape (colors : Option Painter) (source : String) :
    Stmt.areIntact (parse colors source).body = true ∧
      ((parse colors source).diagnostics = [] →
        Stmt.areWellFormed TokenKind.isReadable (parse colors source).body = true) := by
  refine ⟨program_yields (.ofSource colors source), fun hclean ↦ ?_⟩
  obtain ⟨hreports, kinds, hkinds, hspells⟩ := spells_of_parse hclean
  have hleaf : ∀ kind ∈ kinds, kind.isReadable = true := by
    intro kind hmem
    have hmem : kind ∈ (Cursor.tokensOf source).map Token.kind :=
      hkinds ▸ List.mem_append_left _ hmem
    obtain ⟨token, htoken, rfl⟩ := List.mem_map.1 hmem
    exact Cursor.isReadable_of_reportsOf hreports token htoken
  obtain ⟨added, hbody, hadded, -⟩ := hspells.shaped hleaf
  rw [hbody]
  exact hadded

/-- A chain of branches behind a loop whose body could not be gone on with. -/
theorem closedLoop_wellFormed :
    (parse none
        "bet (x) vibe_check (y) dip; delulu (z) \x7b fanum_tax z be 'a'; \x7d").diagnostics =
        [] ∧
      Stmt.areWellFormed TokenKind.isReadable (parse none
        "bet (x) vibe_check (y) dip; delulu (z) \x7b fanum_tax z be 'a'; \x7d").body = true := by
  have hclean : (parse none
    "bet (x) vibe_check (y) dip; delulu (z) \x7b fanum_tax z be 'a'; \x7d").diagnostics = [] := rfl
  exact ⟨hclean, (parse_shape none _).2 hclean⟩

end Slang
