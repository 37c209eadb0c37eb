import Slang.Proofs.Refinement

/-!
# Well-scoped programs

A static check of names and of `dip`: every variable that is used is declared earlier in the same or
an enclosing statement list or is what an enclosing handler caught, no list declares a name twice,
only variables are assigned to, and a `dip` has something around it that it can leave. Programs that
pass the check never raise a fault of scoping or control flow, caught or not. The proof goes through
the reference semantics, where the names of every scope are known from the text alone: a statement
never changes which names the scopes around it have, however it ends.
-/

namespace Slang

open Stateful Structured

/-! ## The check -/

/-- Whether an expression uses visible names only and assigns to variables only. The arguments of a
call are never evaluated and may use any names. -/
def Expr.isScoped (visible : List String) : Expr → Bool
  | number _ | string _ | broken => true
  | identifier name => decide (name ∈ visible)
  | unary _ operand => operand.isScoped visible
  | binary _ left right => left.isScoped visible && right.isScoped visible
  | choice condition whenTrue whenFalse =>
    condition.isScoped visible && whenTrue.isScoped visible && whenFalse.isScoped visible
  | call callee _ => callee.isScoped visible
  | assign (identifier name) value => decide (name ∈ visible) && value.isScoped visible
  | assign _ _ => false

/-- The names that a statement adds to the statement list it stands in. -/
def Stmt.declares : Stmt → List String
  | declare name _ => [name]
  | _ => []

mutual

/-- Whether a statement uses visible names only, and leaves only where it may. -/
def Stmt.isScoped (visible : List String) (mayLeave : Bool) : Stmt → Bool
  | .expression value => value.isScoped visible
  | .declare _ none => true
  | .declare _ (some value) => value.isScoped visible
  | .block statements => areScoped visible [] mayLeave statements
  | .when condition body rest =>
    condition.isScoped visible && Stmt.isScoped visible mayLeave body &&
      Alternative.isScoped visible mayLeave rest
  | .loop condition body => condition.isScoped visible && Stmt.isScoped visible true body
  | .switch subject arms => subject.isScoped visible && armsAreScoped visible arms
  | .leave => mayLeave
  | .attempt body binding handler =>
    areScoped visible [] true body && areScoped (binding :: visible) [] mayLeave handler
  | .throw value => value.isScoped visible
  | .print value => value.isScoped visible

def Alternative.isScoped (visible : List String) (mayLeave : Bool) : Alternative → Bool
  | .none => true
  | .otherwise body => Stmt.isScoped visible mayLeave body
  | .elseWhen condition body rest =>
    condition.isScoped visible && Stmt.isScoped visible mayLeave body &&
      Alternative.isScoped visible mayLeave rest

/-- Whether the rest of a statement list is scoped, given the visible names and those of them that
the list has declared itself. -/
def areScoped (visible own : List String) (mayLeave : Bool) : List Stmt → Bool
  | [] => true
  | statement :: statements =>
    Stmt.isScoped visible mayLeave statement && statement.declares.all (· ∉ own) &&
      areScoped (statement.declares ++ visible) (statement.declares ++ own) mayLeave statements

def armsAreScoped (visible : List String) : List (Arm Stmt) → Bool
  | [] => true
  | ⟨labels, _, statements⟩ :: arms =>
    labels.all (Expr.isScoped visible) && areScoped visible [] true statements &&
      armsAreScoped visible arms

end

/-- Whether a whole program is scoped. -/
def isScopedProgram (program : List Stmt) : Bool :=
  areScoped [] [] false program

/-! ## Names of stores -/

/-- Not a fault of scoping or control flow. -/
def Exit.IsHarmless : Exit → Prop
  | halt (.fault fault) => fault.toClass ≠ .runtime
  | _ => True

namespace Reference

/-- Which names a scope has. -/
def Scope.domain (scope : Scope) : String → Bool := fun name ↦
  (scope name).isSome

def domains (chain : Chain) : List (String → Bool) :=
  chain.map Scope.domain

/-- The scopes have these names, and no fault of scoping or control flow was caught. -/
structure WellNamed (names : List (String → Bool)) (store : Store) : Prop where
  names : domains store.chain = names
  caught : ∀ fault ∈ store.caught, fault.toClass ≠ .runtime

/-- Every visible name belongs to some scope. -/
def Covers (names : List (String → Bool)) (visible : List String) : Prop :=
  ∀ name ∈ visible, ∃ domain ∈ names, domain name = true

variable {names : List (String → Bool)} {visible : List String}

theorem Covers.cons (h : Covers names visible) (domain : String → Bool) :
    Covers (domain :: names) visible := by
  intro name hname
  obtain ⟨other, hmem, hother⟩ := h name hname
  exact ⟨other, List.mem_cons_of_mem _ hmem, hother⟩

theorem Covers.declare {domain : String → Bool} (h : Covers (domain :: names) visible)
    (name : String) : Covers (Function.update domain name true :: names) (name :: visible) := by
  intro other hother
  by_cases heq : other = name
  · exact ⟨_, List.mem_cons_self .., by rw [heq, Function.update_self]⟩
  · obtain ⟨found, hmem, hfound⟩ := h other (List.mem_of_ne_of_mem heq hother)
    rcases List.mem_cons.1 hmem with rfl | hmem
    · exact ⟨_, List.mem_cons_self .., by rw [Function.update_of_ne heq, hfound]⟩
    · exact ⟨found, List.mem_cons_of_mem _ hmem, hfound⟩

theorem exists_lookup (h : Covers names visible) {chain : Chain} (hchain : domains chain = names)
    {name : String} (hname : name ∈ visible) : ∃ value, lookup name chain = some value := by
  obtain ⟨domain, hmem, hdomain⟩ := h name hname
  rw [← hchain] at hmem
  obtain ⟨scope, hscope, rfl⟩ := List.mem_map.1 hmem
  rw [← Option.isSome_iff_exists, lookup, List.findSome?_isSome_iff]
  exact ⟨scope, hscope, hdomain⟩

theorem domain_update (scope : Scope) (name : String) (value : Value) :
    Scope.domain (Function.update scope name (some value)) =
      Function.update scope.domain name true := by
  funext other
  rw [Scope.domain, Function.update_apply, Function.update_apply, Scope.domain]
  split <;> rfl

theorem domain_update_of_isSome {scope : Scope} {name : String} (h : scope.domain name = true)
    (value : Value) : Scope.domain (Function.update scope name (some value)) = scope.domain := by
  rw [domain_update, ← h, Function.update_eq_self]

theorem exists_assign (value : Value) {chain : Chain} {name : String} {old : Value}
    (h : lookup name chain = some old) :
    ∃ after, assign name value chain = .ok after ∧ domains after = domains chain := by
  induction chain with
  | nil => cases h
  | cons scope outer ih =>
    rw [assign]
    by_cases hscope : (scope name).isSome = true
    · rw [if_pos hscope]
      refine ⟨_, rfl, ?_⟩
      rw [domains, List.map_cons, domain_update_of_isSome hscope]
      rfl
    · have hnone : scope name = none := by simpa using hscope
      rw [lookup, List.findSome?_cons, hnone] at h
      obtain ⟨after, hafter, hdomains⟩ := ih h
      rw [if_neg hscope, hafter]
      exact ⟨scope :: after, rfl, congrArg (scope.domain :: ·) hdomains⟩

/-! ## Sound computations -/

section Soundness

variable {Result Next : Type} {before after middle abrupt : Store → Prop}

/-- From a store with `before`, a computation ends with a value and in a store with `after`, or
without one, harmlessly, and in a store with `abrupt`. -/
def Sound (before : Store → Prop) (computation : Structured Store Result)
    (after abrupt : Store → Prop) : Prop :=
  ∀ store, before store →
    match computation store with
    | (.ok _, ending) => after ending
    | (.error exit, ending) => exit.IsHarmless ∧ abrupt ending

namespace Sound

theorem of_ok {computation : Structured Store Result}
    (h : ∀ store, before store →
      ∃ result ending, computation store = (.ok result, ending) ∧ after ending) :
    Sound before computation after abrupt := by
  intro store hbefore
  obtain ⟨result, ending, hrun, hafter⟩ := h store hbefore
  rw [hrun]
  exact hafter

theorem pure (result : Result) : Sound before (Pure.pure result) before abrupt :=
  fun _ hbefore ↦ hbefore

theorem fail {fault : Fault} (h : fault.toClass ≠ .runtime) :
    Sound before (Reference.fail fault : Structured Store Result) after before :=
  fun _ hbefore ↦ ⟨h, hbefore⟩

theorem bind {first : Structured Store Result} {next : Result → Structured Store Next}
    (hfirst : Sound before first middle abrupt)
    (hnext : ∀ result, Sound middle (next result) after abrupt) :
    Sound before (first >>= next) after abrupt := by
  intro store hbefore
  have hmiddle := hfirst store hbefore
  rcases hrun : first store with ⟨exit | result, ending⟩ <;> rw [hrun] at hmiddle
  · rw [bind_of_error hrun]
    exact hmiddle
  · rw [bind_of_ok hrun]
    exact hnext result ending hmiddle

theorem discard {computation : Structured Store Result}
    (h : Sound before computation after abrupt) :
    Sound before (Functor.discard computation) after abrupt := by
  rw [discard_eq_bind]
  exact h.bind fun _ ↦ .pure _

theorem weaken {computation : Structured Store Result} {after' abrupt' : Store → Prop}
    (h : Sound before computation after abrupt) (hafter : ∀ store, after store → after' store)
    (habrupt : ∀ store, abrupt store → abrupt' store) :
    Sound before computation after' abrupt' := by
  intro store hbefore
  have hending := h store hbefore
  rcases hrun : computation store with ⟨exit | result, ending⟩ <;> rw [hrun] at hending
  · exact ⟨hending.1, habrupt _ hending.2⟩
  · exact hafter _ hending

end Sound

/-- A sound computation that leaves the names of all scopes as they are. -/
def Safe (names : List (String → Bool)) (computation : Structured Store Result) : Prop :=
  Sound (WellNamed names) computation (WellNamed names) (WellNamed names)

theorem stopping_safe {body : Structured Store Unit} (h : Safe names body) :
    Safe names (stopping body) := by
  intro store hnamed
  have hending := h store hnamed
  rcases hrun : body store with ⟨(_ | reason) | _, ending⟩ <;> rw [hrun] at hending
  · rw [stopping_of_leave hrun]
    exact hending.2
  · rw [stopping_of_halt hrun]
    exact hending
  · rw [stopping_of_ok hrun]
    exact hending

theorem repeatWhile_safe {test : Structured Store Bool} {body : Structured Store Unit}
    (htest : Safe names test) (hbody : Safe names body) (rounds : Nat) :
    Safe names (repeatWhile test body rounds) := by
  induction rounds with
  | zero => exact fun store hnamed ↦ ⟨trivial, hnamed⟩
  | succ rounds ih =>
    refine htest.bind fun holds ↦ ?_
    split
    · refine (stopping_safe hbody).bind fun stopped ↦ ?_
      split
      · exact .pure _
      · exact ih
    · exact .pure _

theorem read_safe (h : Covers names visible) {name : String} (hname : name ∈ visible) :
    Safe names (read name) := by
  refine .of_ok fun store hnamed ↦ ?_
  obtain ⟨value, hvalue⟩ := exists_lookup h hnamed.names hname
  exact ⟨value, store, by rw [read, hvalue], hnamed⟩

theorem assign_safe (h : Covers names visible) {name : String} (hname : name ∈ visible)
    (value : Value) : Safe names (change (assign name value)) := by
  refine .of_ok fun store hnamed ↦ ?_
  obtain ⟨old, hold⟩ := exists_lookup h hnamed.names hname
  obtain ⟨chain, hchain, hdomains⟩ := exists_assign value hold
  exact ⟨(), ⟨chain, store.output, store.caught⟩, by rw [change, hchain],
    hdomains.trans hnamed.names, hnamed.caught⟩

theorem print_safe (line : String) : Safe names (print line) := by
  intro store hnamed
  rw [print]
  cases (store.output.print line).1.refusal with
  | none => exact ⟨hnamed.names, hnamed.caught⟩
  | some message => exact ⟨Fault.Class.noConfusion, hnamed.names, hnamed.caught⟩

/-- A body may add names to its own scope, which is dropped with it. -/
theorem under_safe {scope : Scope} {body : Structured Store Unit}
    (h : Sound (WellNamed (scope.domain :: names)) body
      (fun store ↦ ∃ own, WellNamed (own :: names) store)
      (fun store ↦ ∃ own, WellNamed (own :: names) store)) :
    Safe names (under scope body) := by
  intro store hnamed
  have hpushed : WellNamed (scope.domain :: names)
      ⟨scope :: store.chain, store.output, store.caught⟩ :=
    ⟨congrArg (scope.domain :: ·) hnamed.names, hnamed.caught⟩
  have hdropped {ending : Store} (hinside : ∃ own, WellNamed (own :: names) ending) :
      WellNamed names ⟨ending.chain.tail, ending.output, ending.caught⟩ := by
    obtain ⟨own, hown⟩ := hinside
    refine ⟨?_, hown.caught⟩
    rw [domains, List.map_tail, ← domains, hown.names, List.tail_cons]
  have hbody := h _ hpushed
  rw [under]
  rcases hrun : body ⟨scope :: store.chain, store.output, store.caught⟩ with ⟨exit | _, ending⟩ <;>
    rw [hrun] at hbody
  · exact ⟨hbody.1, hdropped hbody.2⟩
  · exact hdropped hbody

theorem ofExcept_safe {outcome : Except Fault Result}
    (h : ∀ fault, outcome = .error fault → fault.toClass ≠ .runtime) :
    Safe names (ofExcept outcome) := by
  cases outcome with
  | error fault => exact .fail (h fault rfl)
  | ok result => exact .pure result

/-- An operator without a rule for its operands is no fault of scoping. -/
theorem binary_safe (op : BinaryOp) (left right : Value) :
    Safe names (ofExcept (op.apply left right)) := by
  refine ofExcept_safe fun fault hfault ↦ ?_
  unfold BinaryOp.apply at hfault
  split at hfault <;> cases hfault
  exact Fault.Class.noConfusion

theorem unary_safe (op : UnaryOp) (operand : Value) :
    Safe names (ofExcept (op.apply operand)) := by
  refine ofExcept_safe fun fault hfault ↦ ?_
  unfold UnaryOp.apply at hfault
  split at hfault <;> cases hfault
  exact Fault.Class.noConfusion

theorem evaluate_safe (hcovers : Covers names visible) {expr : Expr}
    (h : expr.isScoped visible = true) : Safe names (evaluate expr) := by
  fun_induction evaluate with
  | case1 value => exact .pure _
  | case2 contents => exact .pure _
  | case3 name => exact read_safe hcovers (of_decide_eq_true h)
  | case4 op operand ih => exact (ih h).bind fun value ↦ unary_safe op value
  | case5 op left right ihleft ihright =>
    rw [Expr.isScoped, Bool.and_eq_true] at h
    exact (ihleft h.1).bind fun first ↦ (ihright h.2).bind fun second ↦ binary_safe op first second
  | case6 condition whenTrue whenFalse ihcondition ihtrue ihfalse =>
    rw [Expr.isScoped, Bool.and_eq_true, Bool.and_eq_true] at h
    refine (ihcondition h.1.1).bind fun value ↦ ?_
    split
    · exact ihtrue h.1.2
    · exact ihfalse h.2
  | case7 callee arguments ih => exact ih h
  | case8 name value ih =>
    rw [Expr.isScoped, Bool.and_eq_true] at h
    refine (ih h.2).bind fun result ↦ ?_
    exact (assign_safe hcovers (of_decide_eq_true h.1) result).bind fun _ ↦ .pure _
  | case9 target value hvariable =>
    rw [Expr.isScoped] at h
    · cases h
    · exact hvariable
  | case10 => exact .fail Fault.Class.noConfusion

theorem test_safe (hcovers : Covers names visible) {condition : Expr}
    (h : condition.isScoped visible = true) : Safe names (test condition) :=
  (evaluate_safe hcovers h).bind fun _ ↦ .pure _

theorem matchesLabel_safe (hcovers : Covers names visible) (subject : Value) {labels : List Expr}
    (h : ∀ label ∈ labels, label.isScoped visible = true) :
    Safe names (matchesLabel subject labels) := by
  induction labels with
  | nil => exact .pure _
  | cons label labels ih =>
    refine (evaluate_safe hcovers (h label (List.mem_cons_self ..))).bind fun value ↦ ?_
    split
    · exact .pure _
    · exact ih fun later hmem ↦ h later (List.mem_cons_of_mem _ hmem)

theorem select_safe (hcovers : Covers names visible) {subject : Expr} {arms : List (Arm Stmt)}
    (hsubject : subject.isScoped visible = true)
    (harms : ∀ arm ∈ arms, ∀ label ∈ arm.labels, label.isScoped visible = true) :
    Safe names (select subject arms) := by
  have hmatching (value : Value) : Safe names (matchingArm value arms) := by
    induction arms with
    | nil => exact .pure _
    | cons arm arms ih =>
      have hlater := ih fun later hmem ↦ harms later (List.mem_cons_of_mem _ hmem)
      have hlabels := harms arm (List.mem_cons_self ..)
      refine (matchesLabel_safe hcovers value hlabels).bind fun found ↦ ?_
      split
      · exact .pure _
      · exact hlater.bind fun _ ↦ .pure _
  exact (evaluate_safe hcovers hsubject).bind fun value ↦ (hmatching value).bind fun _ ↦ .pure _

theorem leave_safe {context : Context} (h : context ≠ .none) : Safe names (leave context) := by
  cases context with
  | none => exact absurd rfl h
  | attempt => exact fun _ hnamed ↦ ⟨trivial, hnamed⟩
  | breakable => exact fun _ hnamed ↦ ⟨trivial, hnamed⟩

theorem attempt_safe {context : Context} {body handler : Structured Store Unit} {binding : String}
    (hbody : Safe names body)
    (hhandler : ∀ value, Safe names
      (under (Function.update noVariables binding (some value)) handler)) :
    Safe names (attempt context body binding handler) := by
  intro store hnamed
  have hending := hbody store hnamed
  rw [attempt]
  rcases hrun : body store with ⟨(_ | fault | _) | _, ending⟩ <;> rw [hrun] at hending
  · by_cases hcontext : context = .breakable
    · simp only [hcontext, if_true]
      exact hending
    · simp only [hcontext, if_false]
      exact hending.2
  · refine hhandler (.text fault.message) _ ⟨hending.2.names, fun other hother ↦ ?_⟩
    rcases List.mem_cons.1 hother with rfl | hother
    · exact hending.1
    · exact hending.2.caught other hother
  · exact hending
  · exact hending

theorem declare_sound {own : String → Bool} {name : String} (h : own name = false)
    (value : Value) :
    Sound (WellNamed (own :: names)) (change (declare name value))
      (WellNamed (Function.update own name true :: names)) (WellNamed (own :: names)) := by
  refine .of_ok fun store hnamed ↦ ?_
  obtain ⟨chain, output, caught⟩ := store
  cases chain with
  | nil => cases hnamed.names
  | cons scope outer =>
    obtain ⟨hscope, houter⟩ := List.cons.inj hnamed.names
    have hnone : ¬ (scope name).isSome = true := by
      change ¬ scope.domain name = true
      rw [hscope, h]
      exact Bool.false_ne_true
    refine ⟨(), ⟨Function.update scope name (some value) :: outer, output, caught⟩, ?_, ?_,
      hnamed.caught⟩
    · simp only [change, declare, if_neg hnone]
    · rw [domains, List.map_cons, domain_update, hscope]
      exact congrArg (_ :: ·) houter

end Soundness

/-! ## Statements -/

section Statements

variable (rounds : Nat) {context : Context} {mayLeave : Bool}

/-- Wherever the statement is well-scoped it is sound, and leaves the names around it alone. -/
def IsSafe (context : Context) (mayLeave : Bool) (statement : Stmt) : Prop :=
  ∀ names visible, Covers names visible → statement.isScoped visible mayLeave = true →
    Safe names (runStmt rounds context statement)

theorem declaration_sound {own : String → Bool} {name : String} {value : Option Expr}
    (hcovers : Covers (own :: names) visible)
    (hscoped : Stmt.isScoped visible mayLeave (.declare name value) = true)
    (hnew : own name = false) :
    Sound (WellNamed (own :: names)) (runStmt rounds context (.declare name value))
      (WellNamed (Function.update own name true :: names)) (WellNamed (own :: names)) := by
  cases value with
  | none =>
    rw [runStmt]
    exact declare_sound hnew .null
  | some value =>
    rw [runStmt]
    exact (evaluate_safe hcovers hscoped).bind fun result ↦ declare_sound hnew result

theorem declares_eq_nil {statement : Stmt} (h : statement.isDeclaration = false) :
    statement.declares = [] := by
  unfold Stmt.declares
  split
  · cases h
  · rfl

theorem exists_eq_declare {statement : Stmt} (h : statement.isDeclaration = true) :
    ∃ name value, statement = .declare name value := by
  unfold Stmt.isDeclaration at h
  split at h
  · exact ⟨_, _, rfl⟩
  · cases h

/-- A statement list adds to its own scope the names it declares, and to no other. -/
theorem runAll_sound {statements : List Stmt}
    (h : ∀ statement ∈ statements, statement.isDeclaration = false →
      IsSafe rounds context mayLeave statement)
    {own : List String} {domain : String → Bool}
    (hcovers : Covers (domain :: names) visible)
    (hown : ∀ name, domain name = true → name ∈ own)
    (hscoped : areScoped visible own mayLeave statements = true) :
    Sound (WellNamed (domain :: names)) (runAll rounds context statements)
      (fun store ↦ ∃ final, WellNamed (final :: names) store)
      (fun store ↦ ∃ final, WellNamed (final :: names) store) := by
  induction statements generalizing visible own domain with
  | nil => exact fun _ hnamed ↦ ⟨domain, hnamed⟩
  | cons statement statements ih =>
    rw [areScoped, Bool.and_eq_true, Bool.and_eq_true] at hscoped
    obtain ⟨⟨hstatement, hnew⟩, hlater⟩ := hscoped
    have hothers : ∀ later ∈ statements, later.isDeclaration = false →
        IsSafe rounds context mayLeave later :=
      fun later hmem ↦ h later (List.mem_cons_of_mem _ hmem)
    rw [runAll]
    cases hdirect : statement.isDeclaration with
    | false =>
      have hfirst := h statement (List.mem_cons_self ..) hdirect _ _ hcovers hstatement
      rw [declares_eq_nil hdirect] at hlater
      refine (hfirst.weaken (fun _ hnamed ↦ hnamed) fun _ hnamed ↦ ⟨domain, hnamed⟩).bind ?_
      exact fun _ ↦ ih hothers hcovers hown hlater
    | true =>
      -- The initializer still runs under the old names; only the statements behind it see the new.
      obtain ⟨name, value, rfl⟩ := exists_eq_declare hdirect
      have hfresh : domain name = false := by
        by_contra htrue
        have hmem := hown name (eq_true_of_ne_false htrue)
        simp [Stmt.declares, hmem] at hnew
      have hfirst : Sound _ (runStmt rounds context (.declare name value)) _ _ :=
        declaration_sound rounds hcovers hstatement hfresh
      refine (hfirst.weaken (fun _ hnamed ↦ hnamed) fun _ hnamed ↦ ⟨domain, hnamed⟩).bind ?_
      refine fun _ ↦ ih hothers (hcovers.declare name) (fun other hother ↦ ?_) hlater
      by_cases heq : other = name
      · exact heq ▸ List.mem_cons_self ..
      · rw [Function.update_of_ne heq] at hother
        exact List.mem_cons_of_mem _ (hown other hother)

theorem body_safe {statements : List Stmt}
    (h : ∀ statement ∈ statements, statement.isDeclaration = false →
      IsSafe rounds context mayLeave statement)
    (hcovers : Covers names visible) (hscoped : areScoped visible [] mayLeave statements = true) :
    Safe names (under noVariables (runAll rounds context statements)) :=
  under_safe (runAll_sound rounds h (hcovers.cons _) (fun _ hname ↦ by cases hname) hscoped)

/-- Statements that declare nothing are all well-scoped if their list is. -/
theorem isScoped_of_mem {statements : List Stmt} {own : List String}
    (hdirect : ∀ statement ∈ statements, statement.isDeclaration = false)
    (hscoped : areScoped visible own mayLeave statements = true) :
    ∀ statement ∈ statements, statement.isScoped visible mayLeave = true := by
  induction statements with
  | nil => exact fun _ hmem ↦ absurd hmem List.not_mem_nil
  | cons first statements ih =>
    have hnone : first.declares = [] := declares_eq_nil (hdirect first (List.mem_cons_self ..))
    rw [areScoped, Bool.and_eq_true, Bool.and_eq_true, hnone] at hscoped
    intro statement hmem
    rcases List.mem_cons.1 hmem with rfl | hmem
    · exact hscoped.1.1
    · exact ih (fun later hlater ↦ hdirect later (List.mem_cons_of_mem _ hlater)) hscoped.2 _ hmem

theorem runAll_safe {statements : List Stmt}
    (h : ∀ statement ∈ statements, Safe names (runStmt rounds context statement)) :
    Safe names (runAll rounds context statements) := by
  induction statements with
  | nil => exact .pure _
  | cons statement statements ih =>
    rw [runAll]
    refine (h statement (List.mem_cons_self ..)).bind fun _ ↦ ?_
    exact ih fun later hmem ↦ h later (List.mem_cons_of_mem _ hmem)

theorem arms_isScoped {arms : List (Arm Stmt)} (h : armsAreScoped visible arms = true) :
    ∀ arm ∈ arms, (∀ label ∈ arm.labels, label.isScoped visible = true) ∧
      areScoped visible [] true arm.statements = true := by
  induction arms with
  | nil => exact fun _ hmem ↦ absurd hmem List.not_mem_nil
  | cons first arms ih =>
    rw [armsAreScoped, Bool.and_eq_true, Bool.and_eq_true] at h
    intro arm hmem
    rcases List.mem_cons.1 hmem with rfl | hmem
    · exact ⟨List.all_eq_true.1 h.1.1, h.1.2⟩
    · exact ih h.2 arm hmem

theorem runArms_safe {arms : List (Arm Stmt)}
    (h : ∀ arm ∈ arms, ∀ statement ∈ arm.statements,
      Safe names (runStmt rounds .breakable statement)) (skipped : Nat) :
    Safe names (runArms rounds skipped arms) := by
  induction arms generalizing skipped with
  | nil =>
    rw [runArms]
    exact .pure _
  | cons arm arms ih =>
    have hlater := ih fun later hmem ↦ h later (List.mem_cons_of_mem _ hmem)
    cases skipped with
    | succ skipped =>
      rw [runArms]
      exact hlater skipped
    | zero =>
      rw [runArms]
      exact (runAll_safe rounds (h arm (List.mem_cons_self ..))).bind fun _ ↦ hlater 0

theorem runAlternative_safe {alternative : Alternative}
    (h : ∀ statement ∈ alternative.branches, IsSafe rounds context mayLeave statement)
    (hcovers : Covers names visible)
    (hscoped : alternative.isScoped visible mayLeave = true) :
    Safe names (runAlternative rounds context alternative) := by
  induction alternative using Alternative.induction with
  | none =>
    rw [runAlternative]
    exact .pure _
  | otherwise body =>
    rw [runAlternative]
    exact h body (List.mem_cons_self ..) _ _ hcovers hscoped
  | elseWhen condition body rest ih =>
    rw [Alternative.isScoped, Bool.and_eq_true, Bool.and_eq_true] at hscoped
    rw [runAlternative]
    refine (test_safe hcovers hscoped.1.1).bind fun holds ↦ ?_
    split
    · exact h body (List.mem_cons_self ..) _ _ hcovers hscoped.1.2
    · exact ih (fun later hmem ↦ h later (List.mem_cons_of_mem _ hmem)) hscoped.2

/-- A well-scoped statement that declares nothing raises no fault of scoping or control flow, and
leaves the names of the scopes around it as they are. -/
theorem runStmt_safe {statement : Stmt} (hplaced : statement.Placed)
    (hdirect : statement.isDeclaration = false) {context : Context} {mayLeave : Bool}
    (hleave : mayLeave = true → context ≠ .none) : IsSafe rounds context mayLeave statement := by
  induction hplaced generalizing context mayLeave with
  | expression value =>
    intro names visible hcovers hscoped
    rw [runStmt]
    exact (evaluate_safe hcovers hscoped).discard
  | declare name value => cases hdirect
  | block inside ih =>
    intro names visible hcovers hscoped
    rw [runStmt]
    exact body_safe rounds (fun statement hmem hother ↦ ih statement hmem hother hleave) hcovers
      hscoped
  | when condition direct inside restDirect restInside ih ihrest =>
    intro names visible hcovers hscoped
    rw [Stmt.isScoped, Bool.and_eq_true, Bool.and_eq_true] at hscoped
    rw [runStmt]
    refine (test_safe hcovers hscoped.1.1).bind fun holds ↦ ?_
    split
    · exact ih direct hleave _ _ hcovers hscoped.1.2
    · exact runAlternative_safe rounds
        (fun statement hmem ↦ ihrest statement hmem (restDirect statement hmem) hleave) hcovers
        hscoped.2
  | loop condition direct inside ih =>
    intro names visible hcovers hscoped
    rw [Stmt.isScoped, Bool.and_eq_true] at hscoped
    rw [runStmt]
    have hbody : IsSafe rounds .breakable true _ := ih direct fun _ ↦ Context.noConfusion
    exact repeatWhile_safe (test_safe hcovers hscoped.1) (hbody _ _ hcovers hscoped.2) rounds
  | switch subject direct inside ih =>
    intro names visible hcovers hscoped
    rw [Stmt.isScoped, Bool.and_eq_true] at hscoped
    have harms := arms_isScoped hscoped.2
    rw [runStmt]
    refine Sound.discard (stopping_safe ?_)
    refine (select_safe hcovers hscoped.1 fun arm harm ↦ (harms arm harm).1).bind fun selected ↦ ?_
    cases selected with
    | none => exact .pure _
    | some place =>
      refine runArms_safe rounds (fun arm harm statement hmem ↦ ?_) place
      have hbody : IsSafe rounds .breakable true statement :=
        ih arm harm statement hmem (direct arm harm statement hmem) fun _ ↦
          Context.noConfusion
      exact hbody _ _ hcovers (isScoped_of_mem (direct arm harm) (harms arm harm).2 statement hmem)
  | leave =>
    intro names visible hcovers hscoped
    rw [runStmt]
    exact leave_safe (hleave hscoped)
  | attempt binding inside handlerInside ih ihhandler =>
    intro names visible hcovers hscoped
    rw [Stmt.isScoped, Bool.and_eq_true] at hscoped
    rw [runStmt]
    refine attempt_safe ?_ fun value ↦ under_safe ?_
    · refine body_safe rounds (fun statement hmem hother ↦ ?_) hcovers hscoped.1
      exact ih statement hmem hother fun _ ↦ context.inAttempt_ne_none
    · have hrescue : Covers
          (Scope.domain (Function.update noVariables binding (some value)) :: names)
          (binding :: visible) := by
        rw [domain_update]
        exact (hcovers.cons (Scope.domain noVariables)).declare binding
      have hhandler := body_safe rounds
        (fun statement hmem hother ↦ ihhandler statement hmem hother hleave) hrescue hscoped.2
      exact hhandler.weaken (fun _ hnamed ↦ ⟨_, hnamed⟩) fun _ hnamed ↦ ⟨_, hnamed⟩
  | throw value =>
    intro names visible hcovers hscoped
    rw [runStmt]
    exact (evaluate_safe hcovers hscoped).bind fun result ↦ .fail Fault.Class.noConfusion
  | print value =>
    intro names visible hcovers hscoped
    rw [runStmt]
    exact (evaluate_safe hcovers hscoped).bind fun result ↦ print_safe _

end Statements

end Reference

/-- A well-scoped program never raises a fault of scoping or control flow, however long it runs and
wherever it prints to: none ends the program, and none is caught on the way. -/
theorem isScopedProgram_no_runtimeFault {colors : Option Painter} {source : String}
    (hclean : (parse colors source).diagnostics = [])
    (hscoped : isScopedProgram (parse colors source).body = true) (rounds : Nat) (sink : Sink) :
    (∀ fault, (runProgram rounds (parse colors source).body (Machine.ofSink sink)).1 =
        .error (.fault fault) → fault.toClass ≠ .runtime) ∧
      ∀ fault ∈ (runProgram rounds (parse colors source).body (Machine.ofSink sink)).2.caught,
        fault.toClass ≠ .runtime := by
  have hplaced := parse_placed hclean
  have hsafe : Reference.Safe [] (Reference.runProgram rounds (parse colors source).body) := by
    refine Reference.body_safe rounds (fun statement hmem hdirect ↦ ?_) (fun _ hname ↦ ?_) hscoped
    · exact Reference.runStmt_safe rounds (hplaced statement hmem) hdirect Bool.noConfusion
    · cases hname
  obtain ⟨hending, -, hcaught⟩ :=
    Refinement.runProgram_refines rounds hplaced rfl (agrees_ofSink sink) rfl
  have hsound := hsafe ⟨[], .ofSink sink, []⟩ ⟨rfl, by simp⟩
  rcases hrun : Reference.runProgram rounds (parse colors source).body ⟨[], .ofSink sink, []⟩ with
    ⟨ending, after⟩
  rw [hrun] at hending hcaught hsound
  rw [hcaught, List.append_nil]
  cases ending with
  | error exit =>
    refine ⟨fun fault hfault ↦ ?_, hsound.2.caught⟩
    rw [hfault] at hending
    obtain rfl := Except.error.inj hending
    exact hsound.1
  | ok =>
    refine ⟨fun fault hfault ↦ ?_, hsound.caught⟩
    rw [hfault] at hending
    cases hending

/-- A loop around a throw whose handler leaves the loop. -/
def leavingHandler : String :=
  "fanum_tax a be 'x'; vibe_check (a) sus \x7b yeet a; \x7d cringe (e) \x7b dip; \x7d"

/-- All that the handler catches is what was thrown. -/
theorem leavingHandler_catches_thrown :
    let ending := runProgram 1 (parse none leavingHandler).body (Machine.ofSink .accepting)
    (parse none leavingHandler).diagnostics = [] ∧
      isScopedProgram (parse none leavingHandler).body = true ∧
      ending.1 = .ok () ∧ ending.2.caught = [.thrown "x"] ∧
      ∀ fault ∈ ending.2.caught, fault.toClass ≠ .runtime := by
  have hclean : (parse none leavingHandler).diagnostics = [] := by rfl
  have hbody : (parse none leavingHandler).body = [.declare "a" (some (.string "x")),
      .loop (.identifier "a") (.attempt [.throw (.identifier "a")] "e" [.leave])] := by rfl
  have hscoped : isScopedProgram (parse none leavingHandler).body = true := by
    rw [hbody]
    rfl
  have hsafe := (isScopedProgram_no_runtimeFault hclean hscoped 1 .accepting).2
  rw [hbody] at hsafe ⊢
  exact ⟨hclean, rfl, rfl, rfl, hsafe⟩

end Slang
