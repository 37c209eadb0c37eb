import Slang.Proofs.Grammar

/-!
# Well-formed programs

A static check of trees: nothing is broken, only variables are assigned to, declarations stand
directly in lists that are in braces or make up a program, every arm of a switch is labelled, only
one is the default, and all but the last have statements. In a chain of conditional branches only
the last may be open, that is, end in a chain that a further branch would go on with. The check has
a parameter for the names, strings and numbers at the leaves. Whatever tokens spell is well formed,
if its leaves are.
-/

namespace Slang

open Parser

/-! ## The check -/

mutual

/-- Whether a further branch behind a statement would belong to it. -/
def Stmt.isOpen : Stmt → Bool
  | .when _ _ rest => Alternative.isOpen rest
  | .loop _ body => Stmt.isOpen body
  | _ => false

def Alternative.isOpen : Alternative → Bool
  | .none => true
  | .otherwise body => Stmt.isOpen body
  | .elseWhen _ _ rest => Alternative.isOpen rest

end

def Alternative.isNone : Alternative → Bool
  | none => true
  | _ => false

section Check

variable (leaf : TokenKind → Bool)

mutual

def Expr.isWellFormed : Expr → Bool
  | .number value => leaf (.number value)
  | .string contents => leaf (.string contents)
  | .identifier name => leaf (.identifier name)
  | .unary _ operand => operand.isWellFormed
  | .binary _ left right => left.isWellFormed && right.isWellFormed
  | .choice condition whenTrue whenFalse =>
    condition.isWellFormed && whenTrue.isWellFormed && whenFalse.isWellFormed
  | .call callee arguments => callee.isWellFormed && Expr.areWellFormed arguments
  | .assign target value => target.isTarget && target.isWellFormed && value.isWellFormed
  | .broken => false

def Expr.areWellFormed : List Expr → Bool
  | [] => true
  | value :: values => value.isWellFormed && Expr.areWellFormed values

end

/-- What holds of each arm of a switch on its own, given whether its statements are well formed. -/
def Arm.isWellFormed (arm : Arm Stmt) (statements : Bool) : Bool :=
  (arm.isDefault || !arm.labels.isEmpty) && Expr.areWellFormed leaf arm.labels &&
    arm.statements.all (!·.isDeclaration) && statements

mutual

def Stmt.isWellFormed : Stmt → Bool
  | .expression value => value.isWellFormed leaf
  | .declare name none => leaf (.identifier name)
  | .declare name (some value) => leaf (.identifier name) && value.isWellFormed leaf
  | .block statements => Stmt.areWellFormed statements
  | .when condition body rest =>
    condition.isWellFormed leaf && !body.isDeclaration && Stmt.isWellFormed body &&
      (rest.isNone || !body.isOpen) && Alternative.isWellFormed rest
  | .loop condition body =>
    condition.isWellFormed leaf && !body.isDeclaration && Stmt.isWellFormed body
  | .switch subject arms =>
    subject.isWellFormed leaf && armsAreWellFormed arms && arms.countP Arm.isDefault ≤ 1 &&
      arms.dropLast.all (!·.statements.isEmpty)
  | .leave => true
  | .attempt body binding handler =>
    Stmt.areWellFormed body && leaf (.identifier binding) && Stmt.areWellFormed handler
  | .throw value => value.isWellFormed leaf
  | .print value => value.isWellFormed leaf

def Alternative.isWellFormed : Alternative → Bool
  | .none => true
  | .otherwise body => !body.isDeclaration && Stmt.isWellFormed body
  | .elseWhen condition body rest =>
    condition.isWellFormed leaf && !body.isDeclaration && Stmt.isWellFormed body &&
      (rest.isNone || !body.isOpen) && Alternative.isWellFormed rest

def Stmt.areWellFormed : List Stmt → Bool
  | [] => true
  | statement :: statements => Stmt.isWellFormed statement && Stmt.areWellFormed statements

def armsAreWellFormed : List (Arm Stmt) → Bool
  | [] => true
  | ⟨labels, isDefault, statements⟩ :: arms =>
    Arm.isWellFormed leaf ⟨labels, isDefault, statements⟩ (Stmt.areWellFormed statements) &&
      armsAreWellFormed arms

end

end Check

/-- Whether a word is a name: a letter or an underscore, behind it those and digits, and all of it
not reserved. -/
def isName (word : String) : Bool :=
  match word.toList with
  | [] => false
  | first :: rest => (first.isAlpha || first == '_') && rest.all isWordCharacter &&
    (Keyword.ofWord? word).isNone

theorem Expr.areWellFormed_iff {leaf : TokenKind → Bool} {values : List Expr} :
    areWellFormed leaf values = true ↔ ∀ value ∈ values, value.isWellFormed leaf = true := by
  induction values with
  | nil => simp [areWellFormed]
  | cons value values ih => simp [areWellFormed, ih]

theorem Stmt.areWellFormed_iff {leaf : TokenKind → Bool} {statements : List Stmt} :
    areWellFormed leaf statements = true ↔
      ∀ statement ∈ statements, statement.isWellFormed leaf = true := by
  induction statements with
  | nil => simp [areWellFormed]
  | cons statement statements ih => simp [areWellFormed, ih]

theorem armsAreWellFormed_iff {leaf : TokenKind → Bool} {arms : List (Arm Stmt)} :
    armsAreWellFormed leaf arms = true ↔
      ∀ arm ∈ arms, arm.isWellFormed leaf (Stmt.areWellFormed leaf arm.statements) = true := by
  induction arms with
  | nil => simp [armsAreWellFormed]
  | cons arm arms ih => simp [armsAreWellFormed, ih]

/-! ## What tokens spell -/

/-- The labels of an arm count the default label once at most, if at all. -/
structure Parser.Labels.Extends (leaf : TokenKind → Bool) (before after : Labels) : Prop where
  cases : Expr.areWellFormed leaf before.cases = true → Expr.areWellFormed leaf after.cases = true
  labelled : (before.isDefault || !before.cases.isEmpty) = true →
    (after.isDefault || !after.cases.isEmpty) = true
  defaults : (before.isDefault = true → before.defaultSeen = true) →
    after.defaultSeen.toNat + before.isDefault.toNat =
      before.defaultSeen.toNat + after.isDefault.toNat

/-- The arms of a switch in front of a token of the given kind, and whether one of them is the
default. -/
structure ArmsSoFar (leaf : TokenKind → Bool) (arms : List (Arm Stmt) × Bool)
    (next : TokenKind) : Prop where
  wellFormed : armsAreWellFormed leaf arms.1 = true
  defaults : arms.1.countP Arm.isDefault = arms.2.toNat
  dropLast : ∀ arm ∈ arms.1.dropLast, arm.statements ≠ []
  /-- Labels that follow labels belong to the same arm. -/
  last : isLabel next = true → ∀ arm ∈ arms.1, arm.statements ≠ []

/-- What is well formed about the tree of a phrase, given the tokens it is spelled with and the one
behind them. -/
def Phrase.Shaped (leaf : TokenKind → Bool) (kinds : List TokenKind) (next : TokenKind) :
    Phrase → Prop
  | .expression _ value => value.isWellFormed leaf = true
  | .operand kind value => leaf kind = true → value.isWellFormed leaf = true
  | .extension _ left whole => left.isWellFormed leaf = true → whole.isWellFormed leaf = true
  | .continuations _ left whole => left.isWellFormed leaf = true → whole.isWellFormed leaf = true
  | .arguments before after =>
    Expr.areWellFormed leaf before = true → Expr.areWellFormed leaf after = true
  | .statement mayDeclare parsed =>
    parsed.isWellFormed leaf = true ∧ (mayDeclare = false → parsed.isDeclaration = false) ∧
      (parsed.isOpen = true → isAlternative next = false)
  | .guarded condition branch =>
    condition.isWellFormed leaf = true ∧ branch.isDeclaration = false ∧
      branch.isWellFormed leaf = true ∧ (branch.isOpen = true → isAlternative next = false)
  | .alternative rest =>
    rest.isWellFormed leaf = true ∧ (rest.isOpen = true → isAlternative next = false) ∧
      (rest.isNone = false → isAlternative (kinds.headD next) = true)
  | .statements place before after => ∃ added, after = before ++ added ∧
      Stmt.areWellFormed leaf added = true ∧
      (place = .arm → ∀ statement ∈ added, statement.isDeclaration = false) ∧
      (added = [] → kinds = [] ∨ next = .eof)
  | .body inside => Stmt.areWellFormed leaf inside = true
  | .labels before after => before.Extends leaf after ∧ isLabel next = false ∧
      (kinds ≠ [] → (after.isDefault || !after.cases.isEmpty) = true)
  | .arms before after => ArmsSoFar leaf before (kinds.headD next) → ArmsSoFar leaf after next

theorem Expr.areWellFormed_concat {leaf : TokenKind → Bool} {values : List Expr} {value : Expr} :
    areWellFormed leaf (values ++ [value]) = true ↔
      areWellFormed leaf values = true ∧ value.isWellFormed leaf = true := by
  simp only [areWellFormed_iff, List.forall_mem_append, List.forall_mem_singleton]

theorem ArmsSoFar.snoc {leaf : TokenKind → Bool} {before : List (Arm Stmt) × Bool}
    {front : Labels} {statements : List Stmt} {kind next : TokenKind}
    (h : ArmsSoFar leaf before kind) (hkind : isLabel kind = true)
    (hfront : Labels.Extends leaf ⟨[], false, before.2⟩ front)
    (hlabelled : (front.isDefault || !front.cases.isEmpty) = true)
    (hstatements : Stmt.areWellFormed leaf statements = true)
    (hdirect : ∀ statement ∈ statements, statement.isDeclaration = false)
    (hlast : isLabel next = true → statements ≠ []) :
    ArmsSoFar leaf (before.1 ++ [⟨front.cases, front.isDefault, statements⟩], front.defaultSeen)
      next := by
  have hdefaults := hfront.defaults Bool.noConfusion
  refine ⟨?_, ?_, ?_, fun hnext ↦ ?_⟩
  · rw [armsAreWellFormed_iff, List.forall_mem_append, List.forall_mem_singleton]
    refine ⟨armsAreWellFormed_iff.1 h.wellFormed, ?_⟩
    simp only [Arm.isWellFormed, hlabelled, hfront.cases rfl, hstatements]
    simpa using hdirect
  · rw [List.countP_append, h.defaults, List.countP_singleton]
    cases hisDefault : front.isDefault <;> rw [hisDefault] at hdefaults <;> exact hdefaults.symm
  · rw [List.dropLast_concat]
    exact h.last hkind
  · rw [List.forall_mem_append, List.forall_mem_singleton]
    exact ⟨h.last hkind, hlast hnext⟩

/-- Only the last branch of a chain may be open: the tokens of the next one would go on with it. -/
theorem isNone_or_not_isOpen {rest : Alternative} {body : Stmt} {next : TokenKind}
    (hopen : body.isOpen = true → isAlternative next = false)
    (hrest : rest.isNone = false → isAlternative next = true) :
    (rest.isNone || !body.isOpen) = true := by
  cases hnone : rest.isNone with
  | true => rfl
  | false =>
    cases hbody : body.isOpen with
    | false => rfl
    | true => exact absurd (hrest hnone) (Bool.eq_false_iff.1 (hopen hbody))

theorem Spells.shaped {leaf : TokenKind → Bool} {phrase : Phrase} {kinds : List TokenKind}
    {next : TokenKind} (h : Spells phrase kinds next) (hleaf : ∀ kind ∈ kinds, leaf kind = true) :
    phrase.Shaped leaf kinds next := by
  induction h with
  | expression first operand rest ihoperand ihrest =>
    simp only [List.forall_mem_cons, List.forall_mem_append] at hleaf
    exact ihrest hleaf.2.2 (ihoperand hleaf.2.1 hleaf.1)
  | number value next => exact id
  | string contents next => exact id
  | identifier name next => exact id
  | signed op inside ih => exact fun _ ↦ ih hleaf
  | group inside ih =>
    rw [List.forall_mem_append] at hleaf
    exact fun _ ↦ ih hleaf.1
  | call inside ih =>
    rw [List.forall_mem_append] at hleaf
    intro hcallee
    rw [Expr.isWellFormed, hcallee, Bool.true_and]
    exact ih hleaf.1 rfl
  | choice first second ihfirst ihsecond =>
    simp only [List.forall_mem_cons, List.forall_mem_append] at hleaf
    intro hcondition
    rw [Expr.isWellFormed, hcondition, ihfirst hleaf.2.1, ihsecond hleaf.2.2.2.2.2]
    rfl
  | assign assignable inside ih =>
    intro htarget
    rw [Expr.isWellFormed, assignable, htarget, ih hleaf]
    rfl
  | binary spelled inside ih =>
    intro hleft
    rw [Expr.isWellFormed, hleft, ih hleaf]
    rfl
  | operandEnd left stop => exact id
  | operator goes extension rest ihextension ihrest =>
    simp only [List.forall_mem_cons, List.forall_mem_append] at hleaf
    exact fun hleft ↦ ihrest hleaf.2.2 (ihextension hleaf.2.1 hleft)
  | argumentsEnd arguments stop => exact id
  | lastArgument before inside stop ih =>
    exact fun hbefore ↦ Expr.areWellFormed_concat.2 ⟨hbefore, ih hleaf⟩
  | argument inside rest ih ihrest =>
    simp only [List.forall_mem_cons, List.forall_mem_append] at hleaf
    exact fun hbefore ↦ ihrest hleaf.2.2 (Expr.areWellFormed_concat.2 ⟨hbefore, ih hleaf.1⟩)
  | semicolon behind ih =>
    rw [List.forall_mem_cons] at hleaf
    exact ih hleaf.2
  | evaluation mayDeclare next inside ih =>
    rw [List.forall_mem_append] at hleaf
    exact ⟨ih hleaf.1, fun _ ↦ rfl, Bool.noConfusion⟩
  | declaration name next =>
    simp only [List.forall_mem_cons] at hleaf
    exact ⟨hleaf.2.1, Bool.noConfusion, Bool.noConfusion⟩
  | definition name next inside ih =>
    simp only [List.forall_mem_cons, List.forall_mem_append] at hleaf
    refine ⟨?_, Bool.noConfusion, Bool.noConfusion⟩
    rw [Stmt.isWellFormed, hleaf.2.1, ih hleaf.2.2.2.1]
    rfl
  | print mayDeclare next inside ih =>
    simp only [List.forall_mem_cons, List.forall_mem_append] at hleaf
    exact ⟨ih hleaf.2.1, fun _ ↦ rfl, Bool.noConfusion⟩
  | throw mayDeclare next inside ih =>
    simp only [List.forall_mem_cons, List.forall_mem_append] at hleaf
    exact ⟨ih hleaf.2.1, fun _ ↦ rfl, Bool.noConfusion⟩
  | leave mayDeclare next => exact ⟨rfl, fun _ ↦ rfl, Bool.noConfusion⟩
  | block mayDeclare inside ih => exact ⟨ih hleaf, fun _ ↦ rfl, Bool.noConfusion⟩
  | when mayDeclare first others ihfirst ihothers =>
    simp only [List.forall_mem_cons, List.forall_mem_append] at hleaf
    obtain ⟨hcondition, hdirect, hbody, hopen⟩ := ihfirst hleaf.2.1
    obtain ⟨hrest, hrestOpen, hmore⟩ := ihothers hleaf.2.2
    refine ⟨?_, fun _ ↦ rfl, hrestOpen⟩
    rw [Stmt.isWellFormed, hcondition, hdirect, hbody, isNone_or_not_isOpen hopen hmore, hrest]
    rfl
  | loop mayDeclare inside ih =>
    rw [List.forall_mem_cons] at hleaf
    obtain ⟨hcondition, hdirect, hbody, hopen⟩ := ih hleaf.2
    refine ⟨?_, fun _ ↦ rfl, hopen⟩
    rw [Stmt.isWellFormed, hcondition, hdirect, hbody]
    rfl
  | switch mayDeclare next front inside ihfront ihinside =>
    simp only [List.forall_mem_cons, List.forall_mem_append] at hleaf
    obtain ⟨harms, hdefaults, hstatements, -⟩ :=
      ihinside hleaf.2.2.2.1 ⟨rfl, rfl, by simp, by simp⟩
    refine ⟨?_, fun _ ↦ rfl, Bool.noConfusion⟩
    rw [Stmt.isWellFormed, ihfront hleaf.2.1, harms, hdefaults]
    simpa [Bool.toNat_le] using hstatements
  | attempt mayDeclare binding inside rescue ihinside ihrescue =>
    simp only [List.forall_mem_cons, List.forall_mem_append] at hleaf
    refine ⟨?_, fun _ ↦ rfl, Bool.noConfusion⟩
    rw [Stmt.isWellFormed, ihinside hleaf.2.1, hleaf.2.2.2.2.1, ihrescue hleaf.2.2.2.2.2.2]
    rfl
  | guarded test branch ihtest ihbranch =>
    simp only [List.forall_mem_cons, List.forall_mem_append] at hleaf
    obtain ⟨hbody, hdirect, hopen⟩ := ihbranch hleaf.2.2.2
    exact ⟨ihtest hleaf.2.1, hdirect rfl, hbody, hopen⟩
  | none stop => exact ⟨rfl, fun _ ↦ stop, Bool.noConfusion⟩
  | otherwise branch ih =>
    rw [List.forall_mem_cons] at hleaf
    obtain ⟨hbody, hdirect, hopen⟩ := ih hleaf.2
    refine ⟨?_, hopen, fun _ ↦ rfl⟩
    rw [Alternative.isWellFormed, hdirect rfl, hbody]
    rfl
  | elseWhen first others ihfirst ihothers =>
    simp only [List.forall_mem_cons, List.forall_mem_append] at hleaf
    obtain ⟨hcondition, hdirect, hbody, hopen⟩ := ihfirst hleaf.2.1
    obtain ⟨hrest, hrestOpen, hmore⟩ := ihothers hleaf.2.2
    refine ⟨?_, hrestOpen, fun _ ↦ rfl⟩
    rw [Alternative.isWellFormed, hcondition, hdirect, hbody, isNone_or_not_isOpen hopen hmore,
      hrest]
    rfl
  | statementsEnd statements stop =>
    exact ⟨[], (List.append_nil _).symm, rfl, by simp, fun _ ↦ .inl rfl⟩
  | semicolons place statements count =>
    exact ⟨[], (List.append_nil _).symm, rfl, by simp, fun _ ↦ .inr rfl⟩
  | statements first direct others ihfirst ihothers =>
    simp only [List.forall_mem_append] at hleaf
    obtain ⟨hparsed, -⟩ := ihfirst hleaf.1
    obtain ⟨added, rfl, hadded, hdirect, -⟩ := ihothers hleaf.2
    refine ⟨_ :: added, List.append_assoc .., ?_, fun hplace ↦ ?_, by simp⟩
    · rw [Stmt.areWellFormed, hparsed, hadded]
      rfl
    · exact List.forall_mem_cons.2 ⟨direct hplace, hdirect hplace⟩
  | body next inside ih =>
    simp only [List.forall_mem_cons, List.forall_mem_append] at hleaf
    obtain ⟨added, rfl, hadded, -⟩ := ih hleaf.2.1
    exact hadded
  | labelsEnd labels stop => exact ⟨⟨id, id, fun _ ↦ rfl⟩, stop, fun hnil ↦ absurd rfl hnil⟩
  | caseLabel inside others ihinside ihothers =>
    simp only [List.forall_mem_cons, List.forall_mem_append] at hleaf
    obtain ⟨hextends, hnext, -⟩ := ihothers hleaf.2.2.2
    have hlabelled := hextends.labelled (by simp)
    refine ⟨⟨fun hcases ↦ ?_, fun _ ↦ hlabelled, hextends.defaults⟩, hnext, fun _ ↦ hlabelled⟩
    exact hextends.cases (Expr.areWellFormed_concat.2 ⟨hcases, ihinside hleaf.2.1⟩)
  | defaultLabel others ih =>
    simp only [List.forall_mem_cons] at hleaf
    obtain ⟨hextends, hnext, -⟩ := ih hleaf.2.2
    have hlabelled := hextends.labelled rfl
    refine ⟨⟨hextends.cases, fun _ ↦ hlabelled, fun hseen ↦ ?_⟩, hnext, fun _ ↦ hlabelled⟩
    have hdefaults := hextends.defaults fun _ ↦ rfl
    rename_i isDefault after more next
    cases isDefault with
    | true => cases hseen rfl
    | false =>
      change after.defaultSeen.toNat + 1 = 1 + after.isDefault.toNat at hdefaults
      change after.defaultSeen.toNat + 0 = 0 + after.isDefault.toNat
      omega
  | armsEnd arms stop => exact id
  | arms first labels behind rest ihlabels ihbehind ihrest =>
    simp only [List.forall_mem_cons, List.forall_mem_append] at hleaf
    obtain ⟨hextends, hlabel, hlabelled⟩ := ihlabels (List.forall_mem_cons.2 ⟨hleaf.1, hleaf.2.1⟩)
    obtain ⟨added, rfl, hadded, hdirect, hmore⟩ := ihbehind hleaf.2.2.1
    intro hbefore
    refine ihrest hleaf.2.2.2 (hbefore.snoc first hextends (hlabelled (by simp)) hadded
      (hdirect rfl) fun hnext hnil ↦ ?_)
    -- Without statements the labels would have gone on, or the text would have ended.
    rcases hmore hnil with rfl | heof
    · exact absurd hnext (Bool.eq_false_iff.1 hlabel)
    · rw [heof] at hnext
      cases hnext

theorem Spells.expression_not_broken {minimum : Precedence} {value : Expr}
    {kinds : List TokenKind} {next : TokenKind}
    (h : Spells (.expression minimum value) kinds next) : value.isBroken = false := by
  have hshaped : value.isWellFormed (fun _ ↦ true) = true := h.shaped fun _ _ ↦ rfl
  cases value with
  | broken => cases hshaped
  | _ => rfl

theorem Spells.statement_not_broken {mayDeclare : Bool} {parsed : Stmt} {kinds : List TokenKind}
    {next : TokenKind} (h : Spells (.statement mayDeclare parsed) kinds next) :
    parsed.isBroken = false := by
  have hshaped : (Phrase.statement mayDeclare parsed).Shaped (fun _ ↦ true) kinds next :=
    h.shaped fun _ _ ↦ rfl
  unfold Stmt.isBroken
  split
  · cases hshaped.1
  · rfl

end Slang
