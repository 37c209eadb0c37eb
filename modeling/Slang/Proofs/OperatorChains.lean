import Slang.Proofs.Concatenation
import Slang.Proofs.Printing

/-!
# Chains of operators

A chain is a sequence of operands with a binary operator between each two. Reading an expression
takes a chain as far as its operators bind tightly enough, and makes a tree of that part. The tree
is the only one in which no operator has a looser one below it, nor an equally tight one on its
right.
-/

namespace Slang

open Parser ParseState

/-! ## Operands -/

/-- Tokens of these kinds can be read as an expression without any report. No operator stands behind
them. -/
def ReadsCleanly (value : Expr) (kinds : List TokenKind) : Prop :=
  ∃ state next rest, state.Ended ∧ state.kinds = kinds ++ next :: rest ∧
    (∀ inner limit, continuation? inner limit next = none) ∧
    (expression .lowest state).1 = value ∧ (expression .lowest state).2.kinds = next :: rest ∧
    (expression .lowest state).2.diagnostics = []

/-- Operands that need no operator: literals, names, expressions in parentheses, and such an operand
behind a sign. -/
inductive IsOperand : Expr → List TokenKind → Prop
  | number (value : Float) : IsOperand (.number value) [.number value]
  | string (contents : String) : IsOperand (.string contents) [.string contents]
  | identifier (name : String) : IsOperand (.identifier name) [.identifier name]
  | group {value : Expr} {inside : List TokenKind} (clean : ReadsCleanly value inside) :
    IsOperand value (.mark .openParen :: (inside ++ [.mark .closeParen]))
  | signed (op : UnaryOp) {value : Expr} {kinds : List TokenKind}
      (operand : IsOperand value kinds) : IsOperand (.unary op value) (op.kind :: kinds)

structure Operand where
  value : Expr
  kinds : List TokenKind
  isOperand : IsOperand value kinds

/-- No operator goes on with an operand at a token that has no rule for that. -/
theorem continues_of_continuation? {inner : Inner} {limit : Nat} {kind : TokenKind}
    (h : continuation? inner limit kind = none) (minimum : Precedence) :
    continues minimum kind = false := by
  unfold continues
  split
  · cases h
  · cases h
  · cases h
  · rename_i symbol _ _ _
    cases hop : BinaryOp.ofSymbol? symbol with
    | none => rfl
    | some op =>
      rw [continuation?_of_ofSymbol? hop] at h
      cases h
  · rfl

/-- Signs bind tighter than everything that can follow an operand. -/
theorem continues_sign (kind : TokenKind) : continues .sign kind = false := by
  unfold continues
  split
  · rfl
  · rfl
  · rfl
  · rename_i symbol _ _ _
    cases BinaryOp.ofSymbol? symbol with
    | none => rfl
    | some op => cases op <;> rfl
  · rfl

/-- The phrases that can go on to the end of an expression. -/
def Phrase.closesExpression : Phrase → Bool
  | .expression .. | .operand .. | .extension .. | .continuations .. => true
  | _ => false

/-- Expressions do not depend on the token behind them, unless it goes on with them. -/
theorem Spells.change_stop {phrase : Phrase} {kinds : List TokenKind} {next other : TokenKind}
    (h : Spells phrase kinds next) (hphrase : phrase.closesExpression = true)
    (hother : continues .lowest other = false) : Spells phrase kinds other := by
  induction h with
  | expression first operand rest ihoperand ihrest =>
    exact .expression first (operand.of_headD (ihoperand rfl)) (ihrest rfl)
  | number value next => exact .number value other
  | string contents next => exact .string contents other
  | identifier name next => exact .identifier name other
  | signed op inside ih => exact .signed op (ih rfl)
  | group inside => exact .group inside
  | call inside => exact .call inside
  | choice first second ihfirst ihsecond => exact .choice first (ihsecond rfl)
  | assign assignable inside ih => exact .assign assignable (ih rfl)
  | binary spelled inside ih => exact .binary spelled (ih rfl)
  | operandEnd left stop => exact .operandEnd left (Style.continues_of_lowest hother _)
  | operator goes extension rest ihextension ihrest =>
    exact .operator goes (extension.of_headD (ihextension rfl)) (ihrest rfl)
  | _ => cases hphrase

theorem ReadsCleanly.spells {value : Expr} {kinds : List TokenKind} (h : ReadsCleanly value kinds)
    {next : TokenKind} (hnext : continues .lowest next = false) :
    Spells (.expression .lowest value) kinds next := by
  obtain ⟨state, stop, rest, hended, hkinds, hstop, rfl, hafter, hclean⟩ := h
  obtain ⟨-, taken, -, htakes, hspells⟩ := expressionWithin_runs (state.remaining + 1) .lowest state
    hended (Nat.lt_succ_self state.remaining)
  have htaken := htakes.kinds_eq
  change state.kinds = taken.map Token.kind ++ (expression .lowest state).2.kinds at htaken
  rw [hkinds, hafter] at htaken
  rw [List.append_cancel_right htaken]
  exact (hspells hclean).change_stop rfl hnext

theorem IsOperand.enclosed {value : Expr} {kinds : List TokenKind} (h : IsOperand value kinds) :
    Style.Enclosed value kinds := by
  induction h with
  | number value => exact ⟨_, [], rfl, rfl, .number value⟩
  | string contents => exact ⟨_, [], rfl, rfl, .string contents⟩
  | identifier name => exact ⟨_, [], rfl, rfl, .identifier name⟩
  | group clean => exact ⟨_, _, rfl, rfl, fun _ ↦ .group (clean.spells rfl)⟩
  | signed op operand ih =>
    have hopens : opens op.kind = true := by cases op <;> rfl
    exact ⟨op.kind, _, rfl, hopens, fun next ↦ .signed op (ih.expression (continues_sign next))⟩

/-! ## Chains and trees -/

/-- Operators, each with the operand on its right. -/
abbrev Links := List (BinaryOp × Operand)

def Links.kinds : Links → List TokenKind
  | [] => []
  | (op, operand) :: links => .symbol op.symbol :: (operand.kinds ++ Links.kinds links)

@[ext]
structure Chain where
  first : Operand
  links : Links

namespace Chain

def kinds (chain : Chain) : List TokenKind :=
  chain.first.kinds ++ chain.links.kinds

/-- Whether an operator binds at least as tightly as asked. -/
def reaches (minimum : Precedence) (link : BinaryOp × Operand) : Bool :=
  minimum ≤ link.1.precedence

/-- The part in front of the first operator that does not bind tightly enough. -/
def upTo (minimum : Precedence) (chain : Chain) : Chain :=
  ⟨chain.first, chain.links.takeWhile (reaches minimum)⟩

end Chain

/-- The trees of chains. What is inside an operand is not part of the chain. -/
inductive Tree where
  | leaf (operand : Operand)
  | node (op : BinaryOp) (left right : Tree)

namespace Tree

/-- The operands and operators from left to right. -/
def reading : Tree → Chain
  | leaf operand => ⟨operand, []⟩
  | node op left right =>
    ⟨left.reading.first, left.reading.links ++ (op, right.reading.first) :: right.reading.links⟩

def operators (tree : Tree) : List BinaryOp :=
  tree.reading.links.map Prod.fst

def toExpr : Tree → Expr
  | leaf operand => operand.value
  | node op left right => .binary op left.toExpr right.toExpr

/-- At each node, the operators on the left bind at least as tightly as that of the node, and those
on the right bind tighter. -/
def Ordered : Tree → Prop
  | leaf _ => True
  | node op left right => left.Ordered ∧ right.Ordered ∧
    (∀ inner ∈ left.operators, op.precedence.rank ≤ inner.precedence.rank) ∧
    ∀ inner ∈ right.operators, op.precedence.rank < inner.precedence.rank

theorem operators_node (op : BinaryOp) (left right : Tree) :
    (node op left right).operators = left.operators ++ op :: right.operators := by
  rw [operators, reading, List.map_append, List.map_cons]
  rfl

/-- Of two ordered trees, the operator of the one cannot stand left of that of the other and that
right of it. -/
theorem not_mem_left_of_mem_right {op other : BinaryOp} {left right left' right' : Tree}
    (h : (node op left right).Ordered) (h' : (node other left' right').Ordered)
    (hright : other ∈ right.operators) : op ∉ left'.operators := by
  obtain ⟨-, -, -, htighter⟩ := h
  obtain ⟨-, -, hleast, -⟩ := h'
  intro hleft
  exact Nat.lt_irrefl _ (Nat.lt_of_lt_of_le (htighter other hright) (hleast op hleft))

/-- The operator of an ordered tree has a fixed place in the reading. -/
theorem links_eq_of_append_eq {op other : BinaryOp} {left right left' right' : Tree}
    (h : (node op left right).Ordered) (h' : (node other left' right').Ordered)
    (hlinks : left.reading.links ++ (op, right.reading.first) :: right.reading.links =
      left'.reading.links ++ (other, right'.reading.first) :: right'.reading.links) :
    left.reading.links = left'.reading.links := by
  -- If one operator stood in front of the other, each would be on the wrong side of the other.
  rcases List.append_eq_append_iff.1 hlinks with ⟨middle, hfront, hback⟩ | ⟨middle, hfront, hback⟩
  · cases middle with
    | nil => rw [hfront, List.append_nil]
    | cons link middle =>
      obtain ⟨rfl, hright⟩ := List.cons.inj hback
      have hother : other ∈ right.operators := by rw [operators, hright]; simp
      have hop : op ∈ left'.operators := by rw [operators, hfront]; simp
      exact absurd hop (not_mem_left_of_mem_right h h' hother)
  · cases middle with
    | nil => rw [hfront, List.append_nil]
    | cons link middle =>
      obtain ⟨rfl, hright⟩ := List.cons.inj hback
      have hop : op ∈ right'.operators := by rw [operators, hright]; simp
      have hother : other ∈ left.operators := by rw [operators, hfront]; simp
      exact absurd hother (not_mem_left_of_mem_right h' h hop)

/-- A chain has at most one ordered tree. -/
theorem eq_of_reading_eq {first second : Tree} (h : first.reading = second.reading)
    (hfirst : first.Ordered) (hsecond : second.Ordered) : first = second := by
  induction first generalizing second with
  | leaf operand =>
    cases second with
    | leaf other => exact congrArg (fun chain ↦ leaf chain.first) h
    | node op left right =>
      have hnil := congrArg Chain.links h
      exact absurd hnil.symm (List.append_ne_nil_of_right_ne_nil _ (List.cons_ne_nil _ _))
  | node op left right ihleft ihright =>
    cases second with
    | leaf other =>
      have hnil := congrArg Chain.links h
      exact absurd hnil (List.append_ne_nil_of_right_ne_nil _ (List.cons_ne_nil _ _))
    | node other left' right' =>
      obtain ⟨hstart, hlinks⟩ := Chain.mk.inj h
      have hfront := links_eq_of_append_eq hfirst hsecond hlinks
      rw [hfront] at hlinks
      obtain ⟨hlink, hback⟩ := List.cons.inj (List.append_cancel_left hlinks)
      obtain ⟨rfl, hmiddle⟩ := Prod.mk.inj hlink
      have hleft : left.reading = left'.reading := Chain.ext hstart hfront
      have hright : right.reading = right'.reading := Chain.ext hmiddle hback
      rw [ihleft hleft hfirst.1 hsecond.1, ihright hright hfirst.2.1 hsecond.2.1]

end Tree

/-! ## Reading a chain -/

theorem continues_symbol (minimum : Precedence) (op : BinaryOp) :
    continues minimum (.symbol op.symbol) = decide (minimum ≤ op.precedence) := by
  cases op <;> rfl

theorem BinaryOp.rank_tighter (op : BinaryOp) :
    op.precedence.tighter.rank = op.precedence.rank + 1 := by
  cases op <;> rfl

theorem Links.kinds_append (links more : Links) :
    Links.kinds (links ++ more) = links.kinds ++ more.kinds := by
  induction links with
  | nil => rfl
  | cons link links ih =>
    rw [List.cons_append, Links.kinds, Links.kinds, ih, List.cons_append, List.append_assoc]

/-- An operand and what goes on with it. -/
theorem Operand.spells (operand : Operand) {minimum : Precedence} {whole : Expr}
    {more : List TokenKind} {next : TokenKind}
    (h : Spells (.continuations minimum operand.value whole) more next) :
    Spells (.expression minimum whole) (operand.kinds ++ more) next := by
  obtain ⟨kind, kinds, hkinds, hopens, hoperand⟩ := operand.isOperand.enclosed
  rw [hkinds]
  exact .expression hopens (hoperand _) h

section Reading

variable {minimum inner : Precedence}

theorem rank_le_of_mem_takeWhile {links : Links} {link : BinaryOp × Operand}
    (h : link ∈ links.takeWhile (Chain.reaches minimum)) :
    minimum.rank ≤ link.1.precedence.rank := by
  have hreaches : Chain.reaches minimum link = true := List.all_eq_true.1 List.all_takeWhile link h
  exact of_decide_eq_true hreaches

theorem reaches_of_rank_le (hrank : minimum.rank ≤ inner.rank) {links : Links} :
    ∀ link ∈ links.takeWhile (Chain.reaches inner), Chain.reaches minimum link = true := by
  intro link hmem
  exact decide_eq_true (Nat.le_trans hrank (rank_le_of_mem_takeWhile hmem))

/-- What reaches a tighter bound is the first part of what reaches a looser one. -/
theorem takeWhile_reaches (hrank : minimum.rank ≤ inner.rank) (links : Links) :
    links.takeWhile (Chain.reaches minimum) = links.takeWhile (Chain.reaches inner) ++
      (links.dropWhile (Chain.reaches inner)).takeWhile (Chain.reaches minimum) := by
  calc links.takeWhile (Chain.reaches minimum)
      = (links.takeWhile (Chain.reaches inner) ++
          links.dropWhile (Chain.reaches inner)).takeWhile (Chain.reaches minimum) := by
        rw [List.takeWhile_append_dropWhile]
    _ = _ := List.takeWhile_append_of_pos (reaches_of_rank_le hrank)

theorem dropWhile_reaches (hrank : minimum.rank ≤ inner.rank) (links : Links) :
    links.dropWhile (Chain.reaches minimum) =
      (links.dropWhile (Chain.reaches inner)).dropWhile (Chain.reaches minimum) := by
  calc links.dropWhile (Chain.reaches minimum)
      = (links.takeWhile (Chain.reaches inner) ++
          links.dropWhile (Chain.reaches inner)).dropWhile (Chain.reaches minimum) := by
        rw [List.takeWhile_append_dropWhile]
    _ = _ := List.dropWhile_append_of_pos (reaches_of_rank_le hrank)

/-- No operator of the tree is looser than the one that follows it. -/
def Tree.Precedes (tree : Tree) (links : Links) : Prop :=
  ∀ link ∈ links.head?, ∀ op ∈ tree.operators, link.1.precedence.rank ≤ op.precedence.rank

theorem Operand.leaf_ordered (operand : Operand) : (Tree.leaf operand).Ordered :=
  trivial

theorem Operand.leaf_precedes (operand : Operand) (links : Links) :
    (Tree.leaf operand).Precedes links :=
  fun _ _ _ hmem ↦ absurd hmem List.not_mem_nil

/-- With the tighter operators behind it on the right, an operator goes on with an ordered tree that
has no looser one, and the same holds of what comes next. -/
theorem Tree.node_ordered {op : BinaryOp} {operand : Operand} {links : Links} {left right : Tree}
    (hleft : left.Ordered) (hprecedes : left.Precedes ((op, operand) :: links))
    (hright : right.Ordered)
    (hreading : right.reading =
      ⟨operand, links.takeWhile (Chain.reaches op.precedence.tighter)⟩) :
    (node op left right).Ordered ∧ (node op left right).Precedes
      (links.dropWhile (Chain.reaches op.precedence.tighter)) := by
  have hleast : ∀ inner ∈ left.operators, op.precedence.rank ≤ inner.precedence.rank :=
    hprecedes (op, operand) rfl
  have htighter : ∀ inner ∈ right.operators, op.precedence.rank < inner.precedence.rank := by
    intro inner hmem
    rw [operators, hreading] at hmem
    obtain ⟨link, hlink, rfl⟩ := List.mem_map.1 hmem
    have hrank := rank_le_of_mem_takeWhile hlink
    rwa [op.rank_tighter] at hrank
  refine ⟨⟨hleft, hright, hleast, htighter⟩, fun link hlink inner hmem ↦ ?_⟩
  have hstop := List.head?_dropWhile_not (Chain.reaches op.precedence.tighter) links
  rw [hlink] at hstop
  have hrank : ¬op.precedence.tighter.rank ≤ link.1.precedence.rank := of_decide_eq_false hstop
  rw [op.rank_tighter] at hrank
  have hloosest : op.precedence.rank ≤ inner.precedence.rank := by
    rw [operators_node] at hmem
    rcases List.mem_append.1 hmem with hmem | hmem
    · exact hleast inner hmem
    · rcases List.mem_cons.1 hmem with rfl | hmem
      · exact Nat.le_refl _
      · exact Nat.le_of_lt (htighter inner hmem)
  omega

/-- What the loop of the parser makes of links behind a tree: the links that bind tightly enough go
on with it. -/
theorem exists_tree_of_links (links : Links) (minimum : Precedence) {left : Tree}
    (hleft : left.Ordered) (hprecedes : left.Precedes links) {next : TokenKind}
    (hnext : continues .lowest next = false) :
    ∃ tree : Tree, tree.Ordered ∧
      tree.reading = ⟨left.reading.first,
        left.reading.links ++ links.takeWhile (Chain.reaches minimum)⟩ ∧
      Spells (.continuations minimum left.toExpr tree.toExpr)
        (Links.kinds (links.takeWhile (Chain.reaches minimum)))
        ((Links.kinds (links.dropWhile (Chain.reaches minimum))).headD next) := by
  generalize hlength : links.length = length
  induction length using Nat.strongRecOn generalizing links minimum left with
  | _ length ih =>
    match links with
    | [] =>
      refine ⟨left, hleft, ?_, .operandEnd _ (Style.continues_of_lowest hnext minimum)⟩
      rw [List.takeWhile_nil, List.append_nil]
    | (op, operand) :: links =>
      cases hreaches : Chain.reaches minimum (op, operand) with
      | false =>
        rw [List.takeWhile_cons_of_neg (by rw [hreaches]; decide),
          List.dropWhile_cons_of_neg (by rw [hreaches]; decide)]
        refine ⟨left, hleft, by rw [List.append_nil], .operandEnd _ ?_⟩
        exact (continues_symbol minimum op).trans hreaches
      | true =>
        have hrank : minimum.rank ≤ op.precedence.tighter.rank := by
          have hop : minimum.rank ≤ op.precedence.rank := of_decide_eq_true hreaches
          rw [op.rank_tighter]
          exact Nat.le_succ_of_le hop
        have hshorter : (links.dropWhile (Chain.reaches op.precedence.tighter)).length ≤
            links.length := (List.dropWhile_suffix _).length_le
        rw [List.length_cons] at hlength
        -- The right operand takes the tighter operators, and the loop goes on behind it.
        obtain ⟨right, hright, hrightReading, hrightSpells⟩ :=
          ih links.length (by omega) links op.precedence.tighter operand.leaf_ordered
            (operand.leaf_precedes links) rfl
        obtain ⟨hnode, hnodePrecedes⟩ := Tree.node_ordered hleft hprecedes hright hrightReading
        obtain ⟨tree, htree, htreeReading, htreeSpells⟩ :=
          ih _ (by omega) _ minimum hnode hnodePrecedes rfl
        refine ⟨tree, htree, ?_, ?_⟩
        · rw [htreeReading, Tree.reading, hrightReading, List.takeWhile_cons_of_pos hreaches,
            takeWhile_reaches hrank links, List.append_assoc]
          rfl
        · rw [List.takeWhile_cons_of_pos hreaches, List.dropWhile_cons_of_pos hreaches,
            takeWhile_reaches hrank links, dropWhile_reaches hrank links, Links.kinds,
            Links.kinds_append, ← List.append_assoc]
          refine .operator ((continues_symbol minimum op).trans hreaches) ?_ htreeSpells
          rw [← headD_append, ← Links.kinds_append, List.takeWhile_append_dropWhile]
          exact .binary op.ofSymbol?_symbol (operand.spells hrightSpells)

end Reading

theorem Chain.kinds_eq_upTo (chain : Chain) (minimum : Precedence) :
    chain.kinds = (chain.upTo minimum).kinds ++
      Links.kinds (chain.links.dropWhile (reaches minimum)) := by
  calc chain.kinds
      = chain.first.kinds ++ Links.kinds (chain.links.takeWhile (reaches minimum) ++
          chain.links.dropWhile (reaches minimum)) := by
        rw [List.takeWhile_append_dropWhile, kinds]
    _ = _ := by rw [Links.kinds_append, ← List.append_assoc, kinds, upTo]

/-- Tokens that others stand behind can be passed. What is reported on the way comes with the tokens
that come into view. -/
theorem ParseState.exists_passes_to {state : ParseState} {kinds more : List TokenKind}
    (h : state.kinds = kinds ++ more) (hmore : more ≠ []) :
    ∃ after, state.Passes kinds after ∧ after.kinds = more ∧
      after.diagnostics = state.diagnostics ++
        (state.upcoming.take kinds.length).flatMap Lexeme.reports := by
  induction kinds generalizing state with
  | nil => exact ⟨state, .nil state, h, (List.append_nil _).symm⟩
  | cons kind kinds ih =>
    rw [kinds_eq_cons, List.cons_append] at h
    obtain ⟨hcurrent, hbehind⟩ := List.cons.inj h
    cases hupcoming : state.upcoming with
    | nil =>
      rw [hupcoming] at hbehind
      exact absurd (List.append_eq_nil_iff.1 hbehind.symm).2 hmore
    | cons lexeme upcoming =>
      have hshift := shift_of_upcoming_cons hupcoming
      have hkinds : state.shift.kinds = kinds ++ more := by
        rw [← hbehind, kinds_eq_cons, hshift, hupcoming]
        rfl
      obtain ⟨after, hpasses, hafter, hdiagnostics⟩ := ih hkinds
      refine ⟨after, .cons hcurrent hpasses, hafter, ?_⟩
      rw [hdiagnostics, diagnostics_shift hupcoming, hshift, List.length_cons, List.take_succ_cons,
        List.flatMap_cons, List.append_assoc]

/-- A chain with nothing behind it that goes on with an operand is read up to the first operator
that is too loose, as the one ordered tree of that part. Nothing is reported but what comes with the
tokens. -/
theorem expression_of_chain (chain : Chain) (minimum : Precedence) {state : ParseState}
    {next : TokenKind} {rest : List TokenKind} (hended : state.Ended)
    (hkinds : state.kinds = chain.kinds ++ next :: rest)
    (hnext : ∀ inner limit, continuation? inner limit next = none) :
    ∃ (tree : Tree) (after : ParseState),
      expression minimum state = (tree.toExpr, after) ∧
      tree.Ordered ∧ tree.reading = chain.upTo minimum ∧
      (∀ other : Tree, other.Ordered → other.reading = chain.upTo minimum → other = tree) ∧
      state.Passes (chain.upTo minimum).kinds after ∧
      after.kinds =
        Links.kinds (chain.links.dropWhile (Chain.reaches minimum)) ++ next :: rest ∧
      after.diagnostics = state.diagnostics ++
        (state.upcoming.take (chain.upTo minimum).kinds.length).flatMap Lexeme.reports := by
  have hstop := continues_of_continuation? (hnext (fun _ ↦ pure .broken) 0) .lowest
  obtain ⟨tree, hordered, hreading, hspells⟩ := exists_tree_of_links chain.links minimum
    chain.first.leaf_ordered (chain.first.leaf_precedes _) hstop
  rw [chain.kinds_eq_upTo minimum, List.append_assoc] at hkinds
  obtain ⟨after, hpasses, hafter, hdiagnostics⟩ := exists_passes_to hkinds (by simp)
  have hcurrent : after.current.kind =
      (Links.kinds (chain.links.dropWhile (Chain.reaches minimum))).headD next := by
    have hhead := congrArg (List.headD · next) hafter
    rwa [kinds_eq_cons, headD_append] at hhead
  have hread := (chain.first.spells hspells).reads hpasses hcurrent
  have hends := (hended.endsWithin (Nat.lt_succ_self state.remaining)).expression minimum
  refine ⟨tree, after, ?_, hordered, hreading, ?_, hpasses, hafter, hdiagnostics⟩
  · exact Option.some.inj (hends.symm.trans hread)
  · intro other hother hsame
    exact Tree.eq_of_reading_eq (hsame.trans hreading.symm) hother hordered

/-- A chain of five operands, with a group and a sign among them. -/
def mixedChain : String :=
  "1 - x * (y + z) - -4 < 5;"

theorem sum_readsCleanly :
    ReadsCleanly (.binary .add (.identifier "y") (.identifier "z"))
      [.identifier "y", .operator .plus, .identifier "z"] :=
  ⟨ofSource none "y + z;", .mark .semicolon, [.eof], ofSource_ended _ _, by decide +kernel,
    fun _ _ ↦ rfl, rfl, by decide +kernel, by decide +kernel⟩

/-- The comparison is too loose for a sum, and the two subtractions group to the left. -/
theorem mixedChain_expression :
    (expression .sum (ofSource none mixedChain)).1 =
      .binary .subtract
        (.binary .subtract (.number 1) (.binary .multiply (.identifier "x")
          (.binary .add (.identifier "y") (.identifier "z"))))
        (.unary .minus (.number 4)) ∧
    (expression .sum (ofSource none mixedChain)).2.kinds =
      [.operator .less, .number 5, .mark .semicolon, .eof] ∧
    (expression .sum (ofSource none mixedChain)).2.diagnostics = [] := by
  let one : Operand := ⟨_, _, .number 1⟩
  let name : Operand := ⟨_, _, .identifier "x"⟩
  let sum : Operand := ⟨_, _, .group sum_readsCleanly⟩
  let four : Operand := ⟨_, _, .signed .minus (.number 4)⟩
  let five : Operand := ⟨_, _, .number 5⟩
  let chain : Chain :=
    ⟨one, [(.subtract, name), (.multiply, sum), (.subtract, four), (.less, five)]⟩
  let grouped : Tree :=
    .node .subtract (.node .subtract (.leaf one) (.node .multiply (.leaf name) (.leaf sum)))
      (.leaf four)
  have hkinds : (ofSource none mixedChain).kinds = chain.kinds ++ .mark .semicolon :: [.eof] := by
    decide +kernel
  obtain ⟨tree, after, hexpression, -, -, hunique, -, hafter, hdiagnostics⟩ :=
    expression_of_chain chain .sum (ofSource_ended none mixedChain) hkinds fun _ _ ↦ rfl
  have hgrouped : grouped = tree := by
    refine hunique grouped ?_ rfl
    simp only [grouped, Tree.Ordered, Tree.operators]
    decide
  have hreports :
      (ofSource none mixedChain).diagnostics ++
        ((ofSource none mixedChain).upcoming.take (chain.upTo .sum).kinds.length).flatMap
          Lexeme.reports = [] := by
    decide +kernel
  rw [hexpression, ← hgrouped]
  exact ⟨rfl, hafter, hdiagnostics.trans hreports⟩

end Slang
