import Slang.Program

/-!
# Induction over programs

Statements hold lists of statements, alternatives and arms. The principle for statements has one
case for each constructor, with the hypothesis for every statement directly inside. An alternative
is a chain of branches, and the principle for alternatives follows that chain. The principle for
expressions has the hypothesis for every argument of a call.
-/

namespace Slang

@[elab_as_elim]
theorem Expr.induction {motive : Expr → Prop}
    (number : ∀ value, motive (.number value))
    (string : ∀ contents, motive (.string contents))
    (identifier : ∀ name, motive (.identifier name))
    (unary : ∀ op operand, motive operand → motive (.unary op operand))
    (binary : ∀ op left right, motive left → motive right → motive (.binary op left right))
    (choice : ∀ condition whenTrue whenFalse, motive condition → motive whenTrue →
      motive whenFalse → motive (.choice condition whenTrue whenFalse))
    (call : ∀ callee arguments, motive callee → (∀ argument ∈ arguments, motive argument) →
      motive (.call callee arguments))
    (assign : ∀ target value, motive target → motive value → motive (.assign target value))
    (broken : motive .broken) (value : Expr) : motive value := by
  refine @Expr.rec motive (fun arguments ↦ ∀ argument ∈ arguments, motive argument)
    number string identifier unary binary choice call assign broken ?_ ?_ value
  · simp
  · intro argument arguments hargument harguments
    simpa using ⟨hargument, harguments⟩

/-- The statements that an alternative may run. -/
def Alternative.branches : Alternative → List Stmt
  | .none => []
  | .otherwise body => [body]
  | .elseWhen _ body rest => body :: rest.branches

@[elab_as_elim]
theorem Alternative.induction {motive : Alternative → Prop}
    (none : motive .none)
    (otherwise : ∀ body, motive (.otherwise body))
    (elseWhen : ∀ condition body rest, motive rest → motive (.elseWhen condition body rest)) :
    ∀ alternative, motive alternative
  | .none => none
  | .otherwise body => otherwise body
  | .elseWhen condition body rest =>
    elseWhen condition body rest (Alternative.induction none otherwise elseWhen rest)

@[elab_as_elim]
theorem Stmt.induction {motive : Stmt → Prop}
    (expression : ∀ value, motive (.expression value))
    (declare : ∀ name value, motive (.declare name value))
    (block : ∀ statements, (∀ statement ∈ statements, motive statement) →
      motive (.block statements))
    (when : ∀ condition body rest, motive body →
      (∀ statement ∈ rest.branches, motive statement) → motive (.when condition body rest))
    (loop : ∀ condition body, motive body → motive (.loop condition body))
    (switch : ∀ subject arms, (∀ arm ∈ arms, ∀ statement ∈ arm.statements, motive statement) →
      motive (.switch subject arms))
    (leave : motive .leave)
    (attempt : ∀ body binding handler, (∀ statement ∈ body, motive statement) →
      (∀ statement ∈ handler, motive statement) → motive (.attempt body binding handler))
    (throw : ∀ value, motive (.throw value))
    (print : ∀ value, motive (.print value)) (statement : Stmt) : motive statement := by
  refine @Stmt.rec motive
    (fun alternative ↦ ∀ statement ∈ alternative.branches, motive statement)
    (fun statements ↦ ∀ statement ∈ statements, motive statement)
    (fun arms ↦ ∀ arm ∈ arms, ∀ statement ∈ arm.statements, motive statement)
    (fun arm ↦ ∀ statement ∈ arm.statements, motive statement)
    expression declare block when loop switch leave attempt throw print
    ?_ ?_ ?_ ?_ ?_ ?_ ?_ ?_ statement
  · simp [Alternative.branches]
  · intro body hbody
    simpa [Alternative.branches] using hbody
  · intro condition body rest hbody hrest
    simpa [Alternative.branches] using ⟨hbody, hrest⟩
  · simp
  · intro statement statements hstatement hstatements
    simpa using ⟨hstatement, hstatements⟩
  · simp
  · intro arm arms harm harms
    simpa using ⟨harm, harms⟩
  · intro labels isDefault statements hstatements
    exact hstatements

end Slang
