import Slang.Proofs.ParseShape
import Slang.Proofs.TreeInduction

/-!
# Printed programs parse back

A program is printed as a sequence of token kinds, with every compound operand, callee and target
of an assignment in parentheses. Where the language leaves a choice, a style makes it. Main
statement: a text with exactly these tokens, and nothing to report about them, parses to the
program, whatever the style.
-/

namespace Slang

open Parser

/-! ## Printing -/

/-- The symbol that spells a binary operator. -/
def BinaryOp.symbol : BinaryOp → Symbol
  | add => .operator .plus
  | subtract => .operator .minus
  | multiply => .operator .times
  | divide => .operator .divide
  | equal => .keyword .same
  | notEqual => .keyword .differ
  | less => .operator .less
  | greater => .operator .greater
  | lessOrEqual => .operator .lessOrEqual
  | greaterOrEqual => .operator .greaterOrEqual

@[simp] theorem BinaryOp.ofSymbol?_symbol (op : BinaryOp) : ofSymbol? op.symbol = some op := by
  cases op <;> rfl

/-- What printing is free to choose. -/
structure Style where
  /-- Whether compound outcomes of a choice stand in parentheses. -/
  enclosesOutcomes : Bool
  /-- Whether compound values of assignments stand in parentheses. -/
  enclosesValues : Bool
  /-- Whether compound arguments of calls stand in parentheses. -/
  enclosesArguments : Bool
  /-- How many of the other labels of an arm stand in front of its default label, as far as there
  are so many. -/
  labelsBeforeDefault : Nat
  deriving Repr, DecidableEq

namespace Style

def parenthesized (inside : List TokenKind) : List TokenKind :=
  .mark .openParen :: (inside ++ [.mark .closeParen])

def braced (inside : List TokenKind) : List TokenKind :=
  .mark .openBrace :: (inside ++ [.mark .closeBrace])

/-- Numbers, strings and names need no parentheses. -/
def isCompound : Expr → Bool
  | .number _ | .string _ | .identifier _ => false
  | _ => true

/-- A printed expression, in parentheses if it is compound and they are wanted. -/
def enclosed (wanted : Bool) (value : Expr) (inside : List TokenKind) : List TokenKind :=
  if wanted && isCompound value then parenthesized inside else inside

/-- Printed expressions with commas between them. -/
def separated : List (List TokenKind) → List TokenKind
  | [] => []
  | [last] => last
  | first :: rest => first ++ .mark .comma :: separated rest

variable (style : Style)

mutual

def expression : Expr → List TokenKind
  | .number value => [.number value]
  | .string contents => [.string contents]
  | .identifier name => [.identifier name]
  | .unary op operand => op.kind :: enclosed true operand (expression operand)
  | .binary op left right =>
    enclosed true left (expression left) ++
      .symbol op.symbol :: enclosed true right (expression right)
  | .choice condition whenTrue whenFalse =>
    enclosed true condition (expression condition) ++ .keyword .choose :: .operator .equals ::
      (enclosed style.enclosesOutcomes whenTrue (expression whenTrue) ++
        .mark .comma :: .keyword .orElse :: .operator .equals ::
          enclosed style.enclosesOutcomes whenFalse (expression whenFalse))
  | .call callee arguments =>
    enclosed true callee (expression callee) ++ parenthesized (separated (argumentList arguments))
  | .assign target value =>
    enclosed true target (expression target) ++
      .keyword .become :: enclosed style.enclosesValues value (expression value)
  | .broken => []

def argumentList : List Expr → List (List TokenKind)
  | [] => []
  | value :: values =>
    enclosed style.enclosesArguments value (expression value) :: argumentList values

end

/-- A condition in parentheses. -/
def condition (value : Expr) : List TokenKind :=
  parenthesized (style.expression value)

def caseLabels (values : List Expr) : List TokenKind :=
  values.flatMap fun value ↦ .keyword .caseLabel :: (style.expression value ++ [.mark .colon])

/-- The labels of an arm. -/
def labels (values : List Expr) (isDefault : Bool) : List TokenKind :=
  if isDefault then
    style.caseLabels (values.take style.labelsBeforeDefault) ++
      .keyword .defaultLabel :: .mark .colon ::
        style.caseLabels (values.drop style.labelsBeforeDefault)
  else style.caseLabels values

mutual

def statement : Stmt → List TokenKind
  | .expression value => style.expression value ++ [.mark .semicolon]
  | .declare name none => [.keyword .declare, .identifier name, .mark .semicolon]
  | .declare name (some value) =>
    .keyword .declare :: .identifier name :: .keyword .become ::
      (style.expression value ++ [.mark .semicolon])
  | .block inside => braced (statements inside)
  | .when value body rest =>
    .keyword .when :: (style.condition value ++ (statement body ++ alternative rest))
  | .loop value body => .keyword .loop :: (style.condition value ++ statement body)
  | .switch subject arms => .keyword .switch :: (style.expression subject ++ braced (armList arms))
  | .leave => [.keyword .leave, .mark .semicolon]
  | .attempt body binding handler =>
    .keyword .attempt :: (braced (statements body) ++
      .keyword .rescue :: (parenthesized [.identifier binding] ++ braced (statements handler)))
  | .throw value => .keyword .throw :: (style.expression value ++ [.mark .semicolon])
  | .print value => .keyword .print :: (style.expression value ++ [.mark .semicolon])

def alternative : Alternative → List TokenKind
  | .none => []
  | .otherwise body => .keyword .otherwise :: statement body
  | .elseWhen value body rest =>
    .keyword .elseWhen :: (style.condition value ++ (statement body ++ alternative rest))

def statements : List Stmt → List TokenKind
  | [] => []
  | first :: rest => statement first ++ statements rest

def armList : List (Arm Stmt) → List TokenKind
  | [] => []
  | ⟨values, isDefault, inside⟩ :: rest =>
    style.labels values isDefault ++ (statements inside ++ armList rest)

end

/-! ## Expressions -/

/-- Nothing goes on with an operand, if not even the loosest operator does. -/
theorem continues_of_lowest {kind : TokenKind} (h : continues .lowest kind = false)
    (minimum : Precedence) : continues minimum kind = false := by
  unfold continues at h ⊢
  split at h
  · cases h
  · cases h
  · cases h
  · rename_i symbol _ _ _
    cases hop : BinaryOp.ofSymbol? symbol with
    | none => rfl
    | some op =>
      rw [hop] at h
      cases h
  · rfl

/-- The kinds begin with a token that opens an operand, and the rest of them spell it whatever
follows. -/
def Enclosed (value : Expr) (kinds : List TokenKind) : Prop :=
  ∃ kind more, kinds = kind :: more ∧ opens kind = true ∧
    ∀ next, Spells (.operand kind value) more next

variable {style : Style} {value left whole : Expr} {kind next : TokenKind}
  {kinds more : List TokenKind}

theorem enclosed_true (h : Spells (.expression .lowest value) (style.expression value)
    (.mark .closeParen)) : Enclosed value (enclosed true value (style.expression value)) := by
  cases value with
  | number value => exact ⟨_, [], rfl, rfl, .number value⟩
  | string contents => exact ⟨_, [], rfl, rfl, .string contents⟩
  | identifier name => exact ⟨_, [], rfl, rfl, .identifier name⟩
  | _ => exact ⟨_, _, rfl, rfl, fun _ ↦ .group h⟩

theorem Enclosed.expression (h : Enclosed value kinds) {minimum : Precedence}
    (hnext : continues minimum next = false) : Spells (.expression minimum value) kinds next := by
  obtain ⟨kind, more, rfl, hopens, hoperand⟩ := h
  rw [← List.append_nil more]
  exact .expression hopens (hoperand _) (.operandEnd value hnext)

/-- An operand and what goes on with it. -/
theorem Enclosed.extended (h : Enclosed left kinds) (hgoes : continues .lowest kind = true)
    (hextension : Spells (.extension kind left whole) more next)
    (hnext : continues .lowest next = false) :
    Spells (.expression .lowest whole) (kinds ++ kind :: more) next := by
  obtain ⟨first, front, rfl, hopens, hoperand⟩ := h
  have hrest : Spells (.continuations .lowest left whole) (kind :: (more ++ [])) next :=
    .operator hgoes hextension (.operandEnd whole hnext)
  rw [List.append_nil] at hrest
  exact .expression hopens (hoperand _) hrest

theorem enclosed_spells (wanted : Bool)
    (h : ∀ next, continues .lowest next = false →
      Spells (.expression .lowest value) (style.expression value) next)
    (hnext : continues .lowest next = false) :
    Spells (.expression .lowest value) (enclosed wanted value (style.expression value)) next := by
  cases wanted with
  | true => exact (enclosed_true (h _ rfl)).expression hnext
  | false => exact h next hnext

theorem arguments_spells {arguments : List Expr}
    (h : ∀ argument ∈ arguments, ∀ next, continues .lowest next = false →
      Spells (.expression .lowest argument) (style.expression argument) next)
    (before : List Expr) :
    Spells (.arguments before (before ++ arguments)) (separated (style.argumentList arguments))
      (.mark .closeParen) := by
  induction arguments generalizing before with
  | nil =>
    rw [List.append_nil]
    exact .argumentsEnd before (.inl rfl)
  | cons argument arguments ih =>
    obtain ⟨hargument, harguments⟩ := List.forall_mem_cons.1 h
    cases arguments with
    | nil => exact .lastArgument before (enclosed_spells _ hargument rfl) (by decide)
    | cons second arguments =>
      have hrest := ih harguments (before ++ [argument])
      rw [List.append_assoc] at hrest
      exact .argument (enclosed_spells _ hargument rfl) hrest

theorem expression_spells {leaf : TokenKind → Bool} (hvalue : value.isWellFormed leaf = true)
    (hnext : continues .lowest next = false) :
    Spells (.expression .lowest value) (style.expression value) next := by
  induction value using Expr.induction generalizing next with
  | number value => exact .expression rfl (.number value _) (.operandEnd _ hnext)
  | string contents => exact .expression rfl (.string contents _) (.operandEnd _ hnext)
  | identifier name => exact .expression rfl (.identifier name _) (.operandEnd _ hnext)
  | unary op operand ih =>
    have hoperand := (enclosed_true (ih hvalue rfl)).expression (continues_of_lowest hnext .sign)
    rw [expression, ← List.append_nil (enclosed _ _ _)]
    exact .expression (by cases op <;> rfl) (.signed op hoperand) (.operandEnd _ hnext)
  | binary op left right ihleft ihright =>
    simp only [Expr.isWellFormed, Bool.and_eq_true] at hvalue
    have hright := (enclosed_true (ihright hvalue.2 rfl)).expression
      (continues_of_lowest hnext op.precedence.tighter)
    refine (enclosed_true (ihleft hvalue.1 rfl)).extended ?_
      (.binary op.ofSymbol?_symbol hright) hnext
    cases op <;> rfl
  | choice condition whenTrue whenFalse ihcondition ihtrue ihfalse =>
    simp only [Expr.isWellFormed, Bool.and_eq_true] at hvalue
    exact (enclosed_true (ihcondition hvalue.1.1 rfl)).extended rfl
      (.choice (enclosed_spells _ (fun _ ↦ ihtrue hvalue.1.2) rfl)
        (enclosed_spells _ (fun _ ↦ ihfalse hvalue.2) hnext)) hnext
  | call callee arguments ihcallee iharguments =>
    simp only [Expr.isWellFormed, Bool.and_eq_true, Expr.areWellFormed_iff] at hvalue
    refine (enclosed_true (ihcallee hvalue.1 rfl)).extended rfl (.call ?_) hnext
    exact arguments_spells (fun argument hmem _ ↦ iharguments argument hmem
      (hvalue.2 argument hmem)) []
  | assign target value ihtarget ihvalue =>
    simp only [Expr.isWellFormed, Bool.and_eq_true] at hvalue
    exact (enclosed_true (ihtarget hvalue.1.2 rfl)).extended rfl
      (.assign hvalue.1.1 (enclosed_spells _ (fun _ ↦ ihvalue hvalue.2) hnext)) hnext
  | broken => cases hvalue

/-! ## Statements -/

/-- A statement is spelled by its printed form, in front of any token that would not go on with
it. -/
def StatementSpells (style : Style) (parsed : Stmt) : Prop :=
  ∀ mayDeclare next, (mayDeclare = false → parsed.isDeclaration = false) →
    (parsed.isOpen = true → isAlternative next = false) →
    Spells (.statement mayDeclare parsed) (style.statement parsed) next

theorem isAlternative_of_ends {place : Place} (h : place.ends next = true) :
    isAlternative next = false := by
  have hends := Place.endsArm_of_ends h
  unfold isAlternative
  split <;> first | rfl | cases hends

section Statements

variable {leaf : TokenKind → Bool}

theorem guarded_spells {body : Stmt} (hvalue : value.isWellFormed leaf = true)
    (hdirect : body.isDeclaration = false) (hbody : style.StatementSpells body)
    (hopen : body.isOpen = true → isAlternative next = false) :
    Spells (.guarded value body) (style.condition value ++ style.statement body) next := by
  rw [condition, parenthesized, List.cons_append, List.append_assoc]
  exact .guarded (expression_spells hvalue rfl) (hbody false next (fun _ ↦ hdirect) hopen)

/-- A guarded statement in front of further branches: if there are any, it is not open. -/
theorem isAlternative_of_isOpen (style : Style) {body : Stmt} {rest : Alternative}
    (hrest : (rest.isNone || !body.isOpen) = true)
    (hopen : rest.isOpen = true → isAlternative next = false) (hbody : body.isOpen = true) :
    isAlternative ((style.alternative rest).headD next) = false := by
  cases rest with
  | none => exact hopen rfl
  | _ =>
    rw [hbody] at hrest
    cases hrest

theorem alternative_spells {rest : Alternative}
    (hbranches : ∀ branch ∈ rest.branches, branch.isWellFormed leaf = true →
      style.StatementSpells branch)
    (hrest : rest.isWellFormed leaf = true)
    (hopen : rest.isOpen = true → isAlternative next = false) :
    Spells (.alternative rest) (style.alternative rest) next := by
  induction rest using Alternative.induction with
  | none => exact .none (hopen rfl)
  | otherwise body =>
    simp only [Alternative.isWellFormed, Bool.and_eq_true, Bool.not_eq_true'] at hrest
    exact .otherwise (hbranches body (by simp [Alternative.branches]) hrest.2 false next
      (fun _ ↦ hrest.1) hopen)
  | elseWhen value body rest ih =>
    simp only [Alternative.isWellFormed, Bool.and_eq_true, Bool.not_eq_true'] at hrest
    obtain ⟨⟨⟨⟨hvalue, hdirect⟩, hbody⟩, hchain⟩, hothers⟩ := hrest
    rw [Alternative.branches, List.forall_mem_cons] at hbranches
    have hfirst := guarded_spells hvalue hdirect (hbranches.1 hbody)
      (isAlternative_of_isOpen style hchain hopen)
    have hmore := ih hbranches.2 hothers hopen
    rw [alternative, ← List.append_assoc]
    exact .elseWhen hfirst hmore

theorem statements_first {place : Place} {before after : List Stmt}
    (h : Spells (.statements place before after) kinds next) (hnext : place.ends next = true) :
    isAlternative (kinds.headD next) = false := by
  cases h with
  | statementsEnd _ stop => exact isAlternative_of_ends stop
  | semicolons _ _ count => rfl
  | statements first direct others =>
    obtain ⟨kind, more, rfl, -, hkind⟩ := first.statement_first
    exact hkind

theorem statements_spells {place : Place} {inside : List Stmt}
    (h : ∀ element ∈ inside, style.StatementSpells element)
    (hplace : place = .arm → ∀ element ∈ inside, element.isDeclaration = false)
    (hnext : place.ends next = true) (before : List Stmt) :
    Spells (.statements place before (before ++ inside)) (style.statements inside) next := by
  induction inside generalizing before with
  | nil =>
    rw [List.append_nil]
    exact .statementsEnd before hnext
  | cons element inside ih =>
    obtain ⟨helement, hinside⟩ := List.forall_mem_cons.1 h
    have hothers := ih hinside (fun harm ↦ (List.forall_mem_cons.1 (hplace harm)).2)
      (before ++ [element])
    rw [List.append_assoc] at hothers
    exact .statements (helement true _ Bool.noConfusion fun _ ↦ statements_first hothers hnext)
      (fun harm ↦ (List.forall_mem_cons.1 (hplace harm)).1) hothers

theorem body_spells {inside : List Stmt} (h : ∀ element ∈ inside, style.StatementSpells element)
    (next : TokenKind) : Spells (.body inside) (braced (style.statements inside)) next :=
  .body next (statements_spells h Place.noConfusion (rfl : Place.braces.ends _ = true) [])

theorem caseLabels_spells {values cases : List Expr} {isDefault defaultSeen : Bool}
    {after : Labels} (hvalues : ∀ value ∈ values, value.isWellFormed leaf = true)
    (h : Spells (.labels ⟨cases ++ values, isDefault, defaultSeen⟩ after) more next) :
    Spells (.labels ⟨cases, isDefault, defaultSeen⟩ after) (style.caseLabels values ++ more)
      next := by
  induction values generalizing cases with
  | nil =>
    rw [List.append_nil] at h
    exact h
  | cons value values ih =>
    obtain ⟨hvalue, hvalues⟩ := List.forall_mem_cons.1 hvalues
    rw [List.append_cons] at h
    rw [caseLabels, List.flatMap_cons, List.cons_append, List.cons_append, List.append_assoc,
      List.append_assoc]
    exact .caseLabel (expression_spells hvalue rfl) (ih hvalues h)

theorem labels_spells (style : Style) {values : List Expr} {isDefault defaultSeen : Bool}
    (hvalues : ∀ value ∈ values, value.isWellFormed leaf = true)
    (hdefault : isDefault = true → defaultSeen = false) (hnext : isLabel next = false) :
    Spells (.labels ⟨[], false, defaultSeen⟩ ⟨values, isDefault, defaultSeen || isDefault⟩)
      (style.labels values isDefault) next := by
  cases isDefault with
  | false =>
    rw [labels, Bool.or_false, if_neg Bool.noConfusion, ← List.append_nil (caseLabels _ _)]
    exact caseLabels_spells hvalues (.labelsEnd _ hnext)
  | true =>
    obtain rfl := hdefault rfl
    have htake value (hmem : value ∈ values.take style.labelsBeforeDefault) :=
      hvalues value (List.mem_of_mem_take hmem)
    have hdrop value (hmem : value ∈ values.drop style.labelsBeforeDefault) :=
      hvalues value (List.mem_of_mem_drop hmem)
    rw [labels, if_pos rfl]
    refine caseLabels_spells htake (.defaultLabel ?_)
    rw [← List.append_nil (caseLabels _ _)]
    refine caseLabels_spells hdrop ?_
    rw [List.nil_append, List.take_append_drop]
    exact .labelsEnd _ hnext

/-- The printed labels of an arm begin with a label, if there are any. -/
theorem labels_first (style : Style) {values : List Expr} {isDefault : Bool}
    (h : (isDefault || !values.isEmpty) = true) :
    ∃ kind more, style.labels values isDefault = kind :: more ∧ isLabel kind = true := by
  have hcases (values : List Expr) (hvalues : values ≠ []) :
      ∃ more, style.caseLabels values = .keyword .caseLabel :: more := by
    cases values with
    | nil => exact absurd rfl hvalues
    | cons value values => exact ⟨_, rfl⟩
  cases isDefault with
  | false =>
    obtain ⟨more, hmore⟩ := hcases values (by simpa using h)
    exact ⟨_, more, hmore, rfl⟩
  | true =>
    rw [labels, if_pos rfl]
    by_cases htake : values.take style.labelsBeforeDefault = []
    · rw [htake]
      exact ⟨_, _, rfl, rfl⟩
    · obtain ⟨more, hmore⟩ := hcases _ htake
      rw [hmore]
      exact ⟨_, _, rfl, rfl⟩

theorem armList_first (style : Style) {arms : List (Arm Stmt)}
    (harms : armsAreWellFormed leaf arms = true) :
    (style.armList arms = [] ∧ arms = []) ∨
      ∃ kind more, style.armList arms = kind :: more ∧ isLabel kind = true := by
  cases arms with
  | nil => exact .inl ⟨rfl, rfl⟩
  | cons arm arms =>
    simp only [armsAreWellFormed, Arm.isWellFormed, Bool.and_eq_true] at harms
    obtain ⟨kind, more, hlabels, hkind⟩ := labels_first style harms.1.1.1.1
    rw [armList, hlabels]
    exact .inr ⟨kind, _, rfl, hkind⟩

theorem arms_spells {arms : List (Arm Stmt)}
    (hstatements : ∀ arm ∈ arms, ∀ element ∈ arm.statements, element.isWellFormed leaf = true →
      style.StatementSpells element)
    (harms : armsAreWellFormed leaf arms = true)
    (hlast : ∀ arm ∈ arms.dropLast, arm.statements ≠ []) (before : List (Arm Stmt) × Bool)
    (hdefaults : arms.countP Arm.isDefault + before.2.toNat ≤ 1) :
    ∃ seen, Spells (.arms before (before.1 ++ arms, seen)) (style.armList arms)
      (.mark .closeBrace) := by
  induction arms generalizing before with
  | nil =>
    rw [List.append_nil]
    exact ⟨before.2, .armsEnd before rfl⟩
  | cons arm arms ih =>
    obtain ⟨values, isDefault, inside⟩ := arm
    simp only [armsAreWellFormed, Arm.isWellFormed, Bool.and_eq_true, Expr.areWellFormed_iff,
      Stmt.areWellFormed_iff, List.all_eq_true, Bool.not_eq_true'] at harms
    obtain ⟨⟨⟨⟨hlabelled, hvalues⟩, hdirect⟩, hinside⟩, hrest⟩ := harms
    obtain ⟨hfirst, hothers⟩ := List.forall_mem_cons.1 hstatements
    have hspells element (hmem : element ∈ inside) := hfirst element hmem (hinside element hmem)
    have hnext : Place.arm.ends ((style.armList arms).headD (.mark .closeBrace)) = true := by
      rcases armList_first style hrest with ⟨hnil, -⟩ | ⟨kind, more, hmore, hkind⟩
      · rw [hnil]
        rfl
      · rw [hmore]
        exact Bool.or_eq_true_iff.2 (.inr hkind)
    have hbehind := statements_spells hspells (fun _ ↦ hdirect) hnext []
    have hlabel : isLabel ((style.statements inside ++ style.armList arms).headD
        (.mark .closeBrace)) = false := by
      cases inside with
      | nil =>
        -- Only the last arm may be without statements.
        cases arms with
        | nil => rfl
        | cons second arms => exact absurd rfl (hlast _ List.mem_cons_self)
      | cons element inside =>
        have helement := hspells element List.mem_cons_self true .eof Bool.noConfusion fun _ ↦ rfl
        obtain ⟨kind, more, hmore, hkind, -⟩ := helement.statement_first
        rw [statements, hmore]
        exact (Bool.or_eq_false_iff.1 hkind).2
    have hseen : isDefault = true → before.2 = false := by
      rintro rfl
      simp only [List.countP_cons_of_pos] at hdefaults
      exact Bool.toNat_eq_zero.1 (by omega)
    have hdefaults' : arms.countP Arm.isDefault + (before.2 || isDefault).toNat ≤ 1 := by
      rw [List.countP_cons] at hdefaults
      cases isDefault <;> cases hbefore : before.2 <;> simp_all
    have hlast' : ∀ arm ∈ arms.dropLast, arm.statements ≠ [] := by
      cases arms with
      | nil => simp
      | cons second arms => exact fun arm hmem ↦ hlast arm (List.mem_cons_of_mem _ hmem)
    obtain ⟨seen, hmoreArms⟩ := ih hothers hrest hlast'
      (before.1 ++ [⟨values, isDefault, inside⟩], before.2 || isDefault) hdefaults'
    refine ⟨seen, ?_⟩
    rw [List.append_assoc] at hmoreArms
    have hlabels := labels_spells style hvalues hseen hlabel
    obtain ⟨kind, more, hmore, hkind⟩ := labels_first style hlabelled
    rw [hmore] at hlabels
    rw [armList, hmore]
    exact .arms hkind hlabels hbehind hmoreArms

theorem statement_spells {parsed : Stmt} (hparsed : parsed.isWellFormed leaf = true) :
    style.StatementSpells parsed := by
  induction parsed using Stmt.induction with
  | expression value =>
    exact fun mayDeclare next _ _ ↦ .evaluation mayDeclare next (expression_spells hparsed rfl)
  | declare name value =>
    intro mayDeclare next hmay _
    obtain rfl : mayDeclare = true := by
      cases mayDeclare with
      | true => rfl
      | false => cases hmay rfl
    cases value with
    | none => exact .declaration name next
    | some value =>
      simp only [Stmt.isWellFormed, Bool.and_eq_true] at hparsed
      exact .definition name next (expression_spells hparsed.2 rfl)
  | block inside ih =>
    rw [Stmt.isWellFormed, Stmt.areWellFormed_iff] at hparsed
    have hinside element (hmem : element ∈ inside) := ih element hmem (hparsed element hmem)
    exact fun mayDeclare next _ _ ↦ .block mayDeclare (body_spells hinside next)
  | when value body rest ihbody ihrest =>
    simp only [Stmt.isWellFormed, Bool.and_eq_true, Bool.not_eq_true'] at hparsed
    obtain ⟨⟨⟨⟨hvalue, hdirect⟩, hbody⟩, hchain⟩, hrest⟩ := hparsed
    intro mayDeclare next _ hopen
    rw [statement, ← List.append_assoc]
    exact .when mayDeclare (guarded_spells hvalue hdirect (ihbody hbody)
      (isAlternative_of_isOpen style hchain hopen)) (alternative_spells ihrest hrest hopen)
  | loop value body ih =>
    simp only [Stmt.isWellFormed, Bool.and_eq_true, Bool.not_eq_true'] at hparsed
    exact fun mayDeclare next _ hopen ↦
      .loop mayDeclare (guarded_spells hparsed.1.1 hparsed.1.2 (ih hparsed.2) hopen)
  | switch subject arms ih =>
    simp only [Stmt.isWellFormed, Bool.and_eq_true, decide_eq_true_eq] at hparsed
    obtain ⟨⟨⟨hsubject, harms⟩, hdefaults⟩, hlast⟩ := hparsed
    intro mayDeclare next _ _
    obtain ⟨seen, hinside⟩ := arms_spells ih harms (by simpa using hlast) ([], false) hdefaults
    exact .switch mayDeclare next (expression_spells hsubject rfl) hinside
  | leave => exact fun mayDeclare next _ _ ↦ .leave mayDeclare next
  | attempt body binding handler ihbody ihhandler =>
    simp only [Stmt.isWellFormed, Bool.and_eq_true, Stmt.areWellFormed_iff] at hparsed
    obtain ⟨⟨hbody, -⟩, hhandler⟩ := hparsed
    exact fun mayDeclare next _ _ ↦ .attempt mayDeclare binding
      (body_spells (fun element hmem ↦ ihbody element hmem (hbody element hmem)) _)
      (body_spells (fun element hmem ↦ ihhandler element hmem (hhandler element hmem)) next)
  | throw value =>
    exact fun mayDeclare next _ _ ↦ .throw mayDeclare next (expression_spells hparsed rfl)
  | print value =>
    exact fun mayDeclare next _ _ ↦ .print mayDeclare next (expression_spells hparsed rfl)

end Statements

end Style

/-! ## Programs -/

/-- The leaves of printed programs: names that are not reserved, and numbers with neither a sign
nor an undefined value. -/
def TokenKind.isPrintable : TokenKind → Bool
  | .number value => !value.isNaN && value.toBits < 0x8000000000000000
  | .identifier name => isName name
  | _ => true

open ParseState

/-- A well-formed program is what the parser makes of every text with its printed tokens. -/
theorem parse_of_printed (style : Style) {program : List Stmt}
    (hprogram : Stmt.areWellFormed TokenKind.isPrintable program = true) {source : String}
    (hreports : Cursor.reportsOf source = [])
    (hkinds : (Cursor.tokensOf source).map Token.kind = style.statements program ++ [.eof])
    (colors : Option Painter) : parse colors source = ⟨program, [], none⟩ := by
  rw [Stmt.areWellFormed_iff] at hprogram
  have helements element (hmem : element ∈ program) : style.StatementSpells element :=
    Style.statement_spells (hprogram element hmem)
  have hspells := Style.statements_spells helements Place.noConfusion
    (rfl : Place.program.ends .eof = true) []
  exact parse_of_spells hspells hreports hkinds colors

/-- A text with an arm that has both kinds of labels, behind a branch that is closed by braces. -/
theorem labelledArm_parse :
    parse none "fanum_tax x be 1.5; bet (x) \x7b alpha (-x) + 'a'; \x7d cap looksmaxxing x \x7b
      aura 1: what_the_sigma: dip; aura f(x, 2): \x7d" =
    ⟨[.declare "x" (some (.number 1.5)),
      .when (.identifier "x")
        (.block [.print (.binary .add (.unary .minus (.identifier "x")) (.string "a"))])
        (.otherwise (.switch (.identifier "x")
          [⟨[.number 1], true, [.leave]⟩,
            ⟨[.call (.identifier "f") [.identifier "x", .number 2]], false, []⟩]))], [], none⟩ :=
  parse_of_printed ⟨false, true, false, 1⟩ (by decide +kernel) (by decide +kernel)
    (by decide +kernel) none

end Slang
