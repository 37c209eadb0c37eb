import Slang.Proofs.Concatenation
import Slang.Proofs.ParseShape

/-!
# Stray semicolons

A statement may have semicolons in front of it, and so may the end of the text. Elsewhere they are
not neutral: behind the last statement in braces or of an arm, a semicolon more is taken for the
beginning of another statement. Main statement: at the edges of the statements of a list, semicolons
may be put in exactly where no closing brace and no label follows.
-/

namespace Slang

open Parser ParseState

/-! ## The edges of statements -/

/-- The phrase is spelled by the two lists together, and a statement of some list begins or ends
where they meet. The list is the phrase itself or stands anywhere in it. -/
inductive Edge : Phrase → List TokenKind → List TokenKind → TokenKind → Prop
  /-- In front of a statement, which may have semicolons in front of it already. -/
  | before {place : Place} {front after : List Stmt} {parsed : Stmt} (count : Nat)
      {kinds more : List TokenKind} {next : TokenKind}
      (first : Spells (.statement true parsed) kinds (more.headD next))
      (direct : place = .arm → parsed.isDeclaration = false)
      (others : Spells (.statements place (front ++ [parsed]) after) more next) :
    Edge (.statements place front after) (List.replicate count (.mark .semicolon)) (kinds ++ more)
      next
  | behind {place : Place} {front after : List Stmt} {parsed : Stmt}
      {kinds more : List TokenKind} {next : TokenKind}
      (first : Spells (.statement true parsed) kinds (more.headD next))
      (direct : place = .arm → parsed.isDeclaration = false)
      (others : Spells (.statements place (front ++ [parsed]) after) more next) :
    Edge (.statements place front after) kinds more next
  | inFirst {place : Place} {front after : List Stmt} {parsed : Stmt}
      {kinds more others : List TokenKind} {next : TokenKind}
      (first : Edge (.statement true parsed) kinds more (others.headD next))
      (direct : place = .arm → parsed.isDeclaration = false)
      (rest : Spells (.statements place (front ++ [parsed]) after) others next) :
    Edge (.statements place front after) kinds (more ++ others) next
  | inOthers {place : Place} {front after : List Stmt} {parsed : Stmt}
      {kinds more others : List TokenKind} {next : TokenKind}
      (first : Spells (.statement true parsed) kinds ((more ++ others).headD next))
      (direct : place = .arm → parsed.isDeclaration = false)
      (rest : Edge (.statements place (front ++ [parsed]) after) more others next) :
    Edge (.statements place front after) (kinds ++ more) others next
  | semicolon {mayDeclare : Bool} {parsed : Stmt} {kinds more : List TokenKind} {next : TokenKind}
      (behind : Edge (.statement mayDeclare parsed) kinds more next) :
    Edge (.statement mayDeclare parsed) (.mark .semicolon :: kinds) more next
  | block (mayDeclare : Bool) {statements : List Stmt} {kinds more : List TokenKind}
      {next : TokenKind} (inside : Edge (.body statements) kinds more next) :
    Edge (.statement mayDeclare (.block statements)) kinds more next
  | body {statements : List Stmt} {kinds more : List TokenKind} (next : TokenKind)
      (inside : Edge (.statements .braces [] statements) kinds more (.mark .closeBrace)) :
    Edge (.body statements) (.mark .openBrace :: kinds) (more ++ [.mark .closeBrace]) next
  | inBranch (mayDeclare : Bool) {condition : Expr} {body : Stmt} {rest : Alternative}
      {kinds more others : List TokenKind} {next : TokenKind}
      (first : Edge (.guarded condition body) kinds more (others.headD next))
      (behind : Spells (.alternative rest) others next) :
    Edge (.statement mayDeclare (.when condition body rest)) (.keyword .when :: kinds)
      (more ++ others) next
  | inAlternative (mayDeclare : Bool) {condition : Expr} {body : Stmt} {rest : Alternative}
      {kinds more others : List TokenKind} {next : TokenKind}
      (first : Spells (.guarded condition body) kinds ((more ++ others).headD next))
      (behind : Edge (.alternative rest) more others next) :
    Edge (.statement mayDeclare (.when condition body rest)) (.keyword .when :: (kinds ++ more))
      others next
  | loop (mayDeclare : Bool) {condition : Expr} {body : Stmt} {kinds more : List TokenKind}
      {next : TokenKind} (inside : Edge (.guarded condition body) kinds more next) :
    Edge (.statement mayDeclare (.loop condition body)) (.keyword .loop :: kinds) more next
  | switch (mayDeclare : Bool) {subject : Expr} {arms : List (Arm Stmt) × Bool}
      {kinds more others : List TokenKind} (next : TokenKind)
      (front : Spells (.expression .lowest subject) kinds (.mark .openBrace))
      (inside : Edge (.arms ([], false) arms) more others (.mark .closeBrace)) :
    Edge (.statement mayDeclare (.switch subject arms.1))
      (.keyword .switch :: (kinds ++ .mark .openBrace :: more)) (others ++ [.mark .closeBrace]) next
  | inAttempt (mayDeclare : Bool) {body handler : List Stmt} (binding : String)
      {kinds more others : List TokenKind} {next : TokenKind}
      (inside : Edge (.body body) kinds more (.keyword .rescue))
      (rescue : Spells (.body handler) others next) :
    Edge (.statement mayDeclare (.attempt body binding handler)) (.keyword .attempt :: kinds)
      (more ++ .keyword .rescue :: .mark .openParen :: .identifier binding :: .mark .closeParen ::
        others) next
  | inHandler (mayDeclare : Bool) {body handler : List Stmt} (binding : String)
      {kinds more others : List TokenKind} {next : TokenKind}
      (inside : Spells (.body body) kinds (.keyword .rescue))
      (rescue : Edge (.body handler) more others next) :
    Edge (.statement mayDeclare (.attempt body binding handler))
      (.keyword .attempt :: (kinds ++ .keyword .rescue :: .mark .openParen :: .identifier binding ::
        .mark .closeParen :: more)) others next
  | guarded {condition : Expr} {body : Stmt} {kinds more others : List TokenKind} {next : TokenKind}
      (test : Spells (.expression .lowest condition) kinds (.mark .closeParen))
      (branch : Edge (.statement false body) more others next) :
    Edge (.guarded condition body)
      (.mark .openParen :: (kinds ++ .mark .closeParen :: more)) others next
  | otherwise {body : Stmt} {kinds more : List TokenKind} {next : TokenKind}
      (branch : Edge (.statement false body) kinds more next) :
    Edge (.alternative (.otherwise body)) (.keyword .otherwise :: kinds) more next
  | inElseBranch {condition : Expr} {body : Stmt} {rest : Alternative}
      {kinds more others : List TokenKind} {next : TokenKind}
      (first : Edge (.guarded condition body) kinds more (others.headD next))
      (behind : Spells (.alternative rest) others next) :
    Edge (.alternative (.elseWhen condition body rest)) (.keyword .elseWhen :: kinds)
      (more ++ others) next
  | inElseAlternative {condition : Expr} {body : Stmt} {rest : Alternative}
      {kinds more others : List TokenKind} {next : TokenKind}
      (first : Spells (.guarded condition body) kinds ((more ++ others).headD next))
      (behind : Edge (.alternative rest) more others next) :
    Edge (.alternative (.elseWhen condition body rest)) (.keyword .elseWhen :: (kinds ++ more))
      others next
  | inArm {before after : List (Arm Stmt) × Bool} {labels : Labels} {statements : List Stmt}
      {kind next : TokenKind} {kinds front back others : List TokenKind}
      (first : isLabel kind = true)
      (labelled : Spells (.labels ⟨[], false, before.2⟩ labels) (kind :: kinds)
        ((front ++ back ++ others).headD next))
      (behind : Edge (.statements .arm [] statements) front back (others.headD next))
      (rest : Spells (.arms (before.1 ++ [⟨labels.cases, labels.isDefault, statements⟩],
        labels.defaultSeen) after) others next) :
    Edge (.arms before after) (kind :: (kinds ++ front)) (back ++ others) next
  | inLaterArm {before after : List (Arm Stmt) × Bool} {labels : Labels} {statements : List Stmt}
      {kind next : TokenKind} {kinds more front back : List TokenKind}
      (first : isLabel kind = true)
      (labelled : Spells (.labels ⟨[], false, before.2⟩ labels) (kind :: kinds)
        ((more ++ (front ++ back)).headD next))
      (behind : Spells (.statements .arm [] statements) more ((front ++ back).headD next))
      (rest : Edge (.arms (before.1 ++ [⟨labels.cases, labels.isDefault, statements⟩],
        labels.defaultSeen) after) front back next) :
    Edge (.arms before after) (kind :: (kinds ++ (more ++ front))) back next

/-- The tokens at which a list inside a statement ends. -/
def closesList (kind : TokenKind) : Bool :=
  kind = .mark .closeBrace || isLabel kind

def strays (count : Nat) : List TokenKind :=
  List.replicate count (.mark .semicolon)

/-! ## Where semicolons are neutral -/

theorem Parser.Place.eq_eof_of_ends {place : Place} {kind : TokenKind}
    (hends : place.ends kind = true) (hcloses : closesList kind = false) : kind = .eof := by
  have harm : endsArm kind = true := Place.endsArm_of_ends hends
  rw [closesList, Bool.or_eq_false_iff] at hcloses
  rw [endsArm, hcloses.2, Bool.or_false] at harm
  unfold endsBody at harm
  split at harm
  · rfl
  · cases hcloses.1
  · cases harm

theorem strays_append (count more : Nat) :
    strays count ++ strays more = strays (count + more) :=
  List.replicate_append_replicate

namespace Spells

variable {phrase : Phrase} {kinds front back : List TokenKind} {next : TokenKind}

/-- Semicolons in front of the rest of a list belong to its next statement or to the end of the
text. -/
theorem statements_strays {place : Place} {before after : List Stmt}
    (h : Spells (.statements place before after) kinds next) {count : Nat}
    (hcount : count = 0 ∨ closesList (kinds.headD next) = false) :
    Spells (.statements place before after) (strays count ++ kinds) next := by
  cases count with
  | zero => exact h
  | succ count =>
    have hcloses := hcount.resolve_left (Nat.succ_ne_zero count)
    cases h with
    | statementsEnd _ stop =>
      obtain rfl := Place.eq_eof_of_ends stop hcloses
      rw [List.append_nil]
      exact .semicolons place _ count
    | semicolons _ _ more =>
      have hsum : strays (count + 1) ++ strays (more + 1) = strays (count + 1 + more + 1) :=
        strays_append (count + 1) (more + 1)
      change Spells _ (strays (count + 1) ++ strays (more + 1)) _
      rw [hsum]
      exact .semicolons place _ (count + 1 + more)
    | statements first direct others =>
      rw [← List.append_assoc]
      exact .statements (first.semicolons_append fun _ ↦ List.eq_of_mem_replicate) direct others

/-- Labels do not depend on the token behind them, unless it is a label. -/
theorem labels_change_next {before after : Labels} (h : Spells (.labels before after) kinds next)
    {other : TokenKind} (hother : isLabel other = false) :
    Spells (.labels before after) kinds other := by
  generalize hphrase : Phrase.labels before after = phrase at h
  induction h generalizing before with
  | labelsEnd labels stop =>
    cases hphrase
    exact .labelsEnd _ hother
  | caseLabel inside others ih ihothers =>
    cases hphrase
    exact .caseLabel inside (ihothers rfl)
  | defaultLabel others ih =>
    cases hphrase
    exact .defaultLabel (ih rfl)
  | _ => cases hphrase

/-- What may have a semicolon behind it may have any number of them put in behind it. -/
theorem before_strays (h : Spells phrase kinds (back.headD next))
    (hsemicolon : Spells phrase kinds (.mark .semicolon)) (count : Nat) :
    Spells phrase kinds ((strays count ++ back).headD next) := by
  cases count with
  | zero => exact h
  | succ count => exact hsemicolon

theorem before_append_strays (h : Spells phrase kinds ((front ++ back).headD next))
    (hsemicolon : Spells phrase kinds (.mark .semicolon)) (count : Nat) :
    Spells phrase kinds ((front ++ (strays count ++ back)).headD next) := by
  cases front with
  | nil => exact h.before_strays hsemicolon count
  | cons => exact h

end Spells

theorem Edge.arms_front {before after : List (Arm Stmt) × Bool} {front back : List TokenKind}
    {next : TokenKind} (h : Edge (.arms before after) front back next) :
    ∃ kind more, front = kind :: more := by
  cases h <;> exact ⟨_, _, rfl⟩

/-- Semicolons may be put in at an edge, if no closing brace or label follows. -/
theorem Edge.spells_strays {phrase : Phrase} {front back : List TokenKind} {next : TokenKind}
    (h : Edge phrase front back next) {count : Nat}
    (hcount : count = 0 ∨ closesList (back.headD next) = false) :
    Spells phrase (front ++ (strays count ++ back)) next := by
  induction h with
  | before leading first direct others =>
    have hfirst : Spells _ (strays (leading + count) ++ _) _ :=
      first.semicolons_append fun _ ↦ List.eq_of_mem_replicate
    have hspells := Spells.statements hfirst direct others
    rwa [← strays_append, List.append_assoc, List.append_assoc] at hspells
  | behind first direct others =>
    -- The semicolons change the token behind the statement, and belong to what comes after it.
    have hfirst := first.before_strays (first.change_next rfl rfl) count
    exact .statements hfirst direct (others.statements_strays hcount)
  | inFirst first direct rest ih =>
    rw [headD_append] at hcount
    have hspells := Spells.statements (ih hcount) direct rest
    rwa [List.append_assoc, List.append_assoc] at hspells
  | inOthers first direct rest ih =>
    have hfirst := first.before_append_strays (first.change_next rfl rfl) count
    rw [List.append_assoc]
    exact .statements hfirst direct (ih hcount)
  | semicolon behind ih => exact .semicolon (ih hcount)
  | block mayDeclare inside ih => exact .block mayDeclare (ih hcount)
  | body next inside ih =>
    rw [headD_append] at hcount
    have hspells := Spells.body next (ih hcount)
    rwa [List.append_assoc, List.append_assoc] at hspells
  | inBranch mayDeclare first behind ih =>
    rw [headD_append] at hcount
    have hspells := Spells.when mayDeclare (ih hcount) behind
    rwa [List.append_assoc, List.append_assoc] at hspells
  | inAlternative mayDeclare first behind ih =>
    have hfirst := first.before_append_strays (first.change_next rfl rfl) count
    rw [List.cons_append, List.append_assoc]
    exact .when mayDeclare hfirst (ih hcount)
  | loop mayDeclare inside ih => exact .loop mayDeclare (ih hcount)
  | switch mayDeclare next front inside ih =>
    rw [headD_append] at hcount
    have hspells := Spells.switch mayDeclare next front (ih hcount)
    simp only [List.cons_append, List.append_assoc] at hspells ⊢
    exact hspells
  | inAttempt mayDeclare binding inside rescue ih =>
    rw [headD_append] at hcount
    have hspells := Spells.attempt mayDeclare binding (ih hcount) rescue
    rwa [List.append_assoc, List.append_assoc] at hspells
  | inHandler mayDeclare binding inside rescue ih =>
    have hspells := Spells.attempt mayDeclare binding inside (ih hcount)
    simp only [List.cons_append, List.append_assoc]
    exact hspells
  | guarded test branch ih =>
    have hspells := Spells.guarded test (ih hcount)
    simp only [List.cons_append, List.append_assoc]
    exact hspells
  | otherwise branch ih => exact .otherwise (ih hcount)
  | inElseBranch first behind ih =>
    rw [headD_append] at hcount
    have hspells := Spells.elseWhen (ih hcount) behind
    rwa [List.append_assoc, List.append_assoc] at hspells
  | inElseAlternative first behind ih =>
    have hfirst := first.before_append_strays (first.change_next rfl rfl) count
    rw [List.cons_append, List.append_assoc]
    exact .elseWhen hfirst (ih hcount)
  | inArm first labelled behind rest ih =>
    rw [List.append_assoc] at labelled
    rw [headD_append] at hcount
    have hlabels := labelled.before_append_strays (labelled.labels_change_next rfl) count
    rw [← List.append_assoc (strays count), ← List.append_assoc] at hlabels
    have hspells := Spells.arms first hlabels (ih hcount) rest
    simp only [List.cons_append, List.append_assoc] at hspells ⊢
    exact hspells
  | inLaterArm first labelled behind rest ih =>
    -- The label of a later arm stands in front of the edge, so what is in view stays the same.
    obtain ⟨kind, front, rfl⟩ := rest.arms_front
    simp only [List.cons_append, List.append_assoc]
    refine .arms first ?_ behind (ih hcount)
    rw [headD_append] at labelled ⊢
    exact labelled

/-! ## Where they are not -/

/-- What the tokens read so far end in. -/
inductive Trail where
  /-- Something that has no end yet, such as an expression, or no beginning, such as a list. -/
  | inside
  /-- The end of a statement. -/
  | ended
  /-- A semicolon that ends no statement. -/
  | stray
  deriving DecidableEq

namespace Trail

/-- Behind a semicolon that ends no statement, no list ends. -/
def step (trail : Trail) : TokenKind → Option Trail
  | .mark .semicolon => some (if trail = inside then ended else stray)
  | .mark .closeBrace => if trail = stray then none else some ended
  | .keyword .caseLabel | .keyword .defaultLabel => if trail = stray then none else some inside
  | _ => some inside

def along (kinds : List TokenKind) (trail : Trail) : Option Trail :=
  kinds.foldlM step trail

variable {trail middle last : Trail} {kind : TokenKind} {kinds more : List TokenKind}

theorem along_cons (hfirst : trail.step kind = some middle)
    (hothers : along kinds middle = some last) : along (kind :: kinds) trail = some last := by
  change (trail.step kind).bind (along kinds) = some last
  rw [hfirst]
  exact hothers

theorem along_append (hfirst : along kinds trail = some middle)
    (hothers : along more middle = some last) : along (kinds ++ more) trail = some last := by
  rw [along, List.foldlM_append]
  change (along kinds trail).bind (along more) = some last
  rw [hfirst]
  exact hothers

/-- What leads somewhere leads through the end of its first part. -/
theorem exists_along_of_append (h : along (kinds ++ more) trail = some last) :
    ∃ middle, along kinds trail = some middle ∧ along more middle = some last := by
  rw [along, List.foldlM_append] at h
  exact Option.bind_eq_some_iff.1 h

theorem step_of_opens (h : opens kind = true) (trail : Trail) : trail.step kind = some inside := by
  unfold opens at h
  split at h <;> first | rfl | cases h

theorem step_of_continues {minimum : Precedence} (h : continues minimum kind = true)
    (trail : Trail) : trail.step kind = some inside := by
  unfold continues at h
  split at h
  · rfl
  · rfl
  · rfl
  · rename_i symbol _ _ _
    unfold BinaryOp.ofSymbol? at h
    split at h <;> first | rfl | cases h
  · cases h

theorem step_of_isLabel (h : isLabel kind = true) (htrail : trail ≠ stray) :
    trail.step kind = some inside := by
  unfold isLabel at h
  split at h
  · exact if_neg htrail
  · exact if_neg htrail
  · cases h

theorem along_closeBrace (h : along kinds trail = some last) (hlast : last ≠ stray) :
    along (kinds ++ [.mark .closeBrace]) trail = some ended :=
  along_append h (along_cons (if_neg hlast) rfl)

theorem exists_along_strays (count : Nat) (trail : Trail) :
    ∃ last, along (strays count) trail = some last := by
  induction count generalizing trail with
  | zero => exact ⟨trail, rfl⟩
  | succ count ih =>
    obtain ⟨last, hlast⟩ := ih (if trail = inside then ended else stray)
    exact ⟨last, along_cons rfl hlast⟩

theorem along_strays (htrail : trail ≠ inside) (count : Nat) :
    along (strays (count + 1)) trail = some stray := by
  induction count generalizing trail with
  | zero => exact along_cons (congrArg some (if_neg htrail)) rfl
  | succ count ih => exact along_cons (congrArg some (if_neg htrail)) (ih (by decide))

/-- No list ends behind a stray semicolon. -/
theorem step_stray (h : closesList kind = true) : step stray kind = none := by
  rcases Bool.or_eq_true_iff.1 h with hbrace | hlabel
  · rw [of_decide_eq_true hbrace]
    rfl
  · unfold isLabel at hlabel
    split at hlabel
    · rfl
    · rfl
    · cases hlabel

end Trail

open Trail

/-- What a phrase leads to. Lists can end in stray semicolons only at the end of the text. -/
def Phrase.Leads (kinds : List TokenKind) (next : TokenKind) : Phrase → Prop
  | .expression .. => ∀ trail, along kinds trail = some .inside
  | .operand .. | .extension .. | .continuations .. | .arguments .. =>
    along kinds .inside = some .inside
  | .statement .. | .guarded .. | .body .. => ∀ trail, along kinds trail = some .ended
  | .alternative _ => along kinds .ended = some .ended
  | .labels .. => ∀ trail, trail ≠ .stray → ∃ last, along kinds trail = some last ∧ last ≠ .stray
  | .statements .. | .arms .. => ∀ trail, trail ≠ .stray →
    ∃ last, along kinds trail = some last ∧ (next = .eof ∨ last ≠ .stray)

theorem Spells.arms_first {before after : List (Arm Stmt) × Bool} {kinds : List TokenKind}
    {next : TokenKind} (h : Spells (.arms before after) kinds next) :
    kinds = [] ∨ kinds.headD next ≠ .eof := by
  cases h with
  | armsEnd _ stop => exact .inl rfl
  | arms first labels behind rest =>
    refine .inr fun heof ↦ ?_
    obtain rfl : _ = TokenKind.eof := heof
    cases first

/-- The only rule that puts semicolons behind the end of a statement is the one for the end of the
text. -/
theorem Spells.leads {phrase : Phrase} {kinds : List TokenKind} {next : TokenKind}
    (h : Spells phrase kinds next) : phrase.Leads kinds next := by
  induction h with
  | expression first operand rest ihoperand ihrest =>
    exact fun trail ↦ along_cons (step_of_opens first trail) (along_append ihoperand ihrest)
  | number value next => rfl
  | string contents next => rfl
  | identifier name next => rfl
  | signed op inside ih => exact ih .inside
  | group inside ih => exact along_append (ih .inside) rfl
  | call inside ih => exact along_append ih rfl
  | choice first second ihfirst ihsecond =>
    exact along_cons rfl (along_append (ihfirst .inside)
      (along_cons rfl (along_cons rfl (along_cons rfl (ihsecond .inside)))))
  | assign assignable inside ih => exact ih .inside
  | binary spelled inside ih => exact ih .inside
  | operandEnd left stop => rfl
  | operator goes extension rest ihextension ihrest =>
    exact along_cons (step_of_continues goes .inside) (along_append ihextension ihrest)
  | argumentsEnd arguments stop => rfl
  | lastArgument before inside stop ih => exact ih .inside
  | argument inside rest ihinside ihrest =>
    exact along_append (ihinside .inside) (along_cons rfl ihrest)
  | semicolon behind ih => exact fun trail ↦ along_cons rfl (ih _)
  | evaluation mayDeclare next inside ih => exact fun trail ↦ along_append (ih trail) rfl
  | declaration name next => exact fun trail ↦ rfl
  | definition name next inside ih =>
    exact fun trail ↦
      along_cons rfl (along_cons rfl (along_cons rfl (along_append (ih .inside) rfl)))
  | print mayDeclare next inside ih =>
    exact fun trail ↦ along_cons rfl (along_append (ih .inside) rfl)
  | throw mayDeclare next inside ih =>
    exact fun trail ↦ along_cons rfl (along_append (ih .inside) rfl)
  | leave mayDeclare next => exact fun trail ↦ rfl
  | block mayDeclare inside ih => exact ih
  | when mayDeclare first others ihfirst ihothers =>
    exact fun trail ↦ along_cons rfl (along_append (ihfirst .inside) ihothers)
  | loop mayDeclare inside ih => exact fun trail ↦ along_cons rfl (ih .inside)
  | switch mayDeclare next front inside ihfront ihinside =>
    obtain ⟨last, hlast, hstray⟩ := ihinside .inside (by decide)
    have hend := along_closeBrace hlast (hstray.resolve_left (by decide))
    exact fun trail ↦ along_cons rfl (along_append (ihfront .inside) (along_cons rfl hend))
  | attempt mayDeclare binding inside rescue ihinside ihrescue =>
    exact fun trail ↦ along_cons rfl (along_append (ihinside .inside)
      (along_cons rfl (along_cons rfl (along_cons rfl (along_cons rfl (ihrescue .inside))))))
  | guarded test branch ihtest ihbranch =>
    exact fun trail ↦ along_cons rfl (along_append (ihtest .inside)
      (along_cons rfl (ihbranch .inside)))
  | none stop => rfl
  | otherwise branch ih => exact along_cons rfl (ih .inside)
  | elseWhen first others ihfirst ihothers =>
    exact along_cons rfl (along_append (ihfirst .inside) ihothers)
  | statementsEnd statements stop => exact fun trail htrail ↦ ⟨trail, rfl, .inr htrail⟩
  | semicolons place statements count =>
    intro trail _
    obtain ⟨last, hlast⟩ := exists_along_strays (count + 1) trail
    exact ⟨last, hlast, .inl rfl⟩
  | statements first direct others ihfirst ihothers =>
    intro trail _
    obtain ⟨last, hlast, hstray⟩ := ihothers .ended (by decide)
    exact ⟨last, along_append (ihfirst trail) hlast, hstray⟩
  | body next inside ih =>
    obtain ⟨last, hlast, hstray⟩ := ih .inside (by decide)
    have hend := along_closeBrace hlast (hstray.resolve_left (by decide))
    exact fun trail ↦ along_cons rfl hend
  | labelsEnd labels stop => exact fun trail htrail ↦ ⟨trail, rfl, htrail⟩
  | caseLabel inside others ihinside ihothers =>
    intro trail htrail
    obtain ⟨last, hlast, hstray⟩ := ihothers .inside (by decide)
    exact ⟨last, along_cons (step_of_isLabel rfl htrail) (along_append (ihinside .inside)
      (along_cons rfl hlast)), hstray⟩
  | defaultLabel others ih =>
    intro trail htrail
    obtain ⟨last, hlast, hstray⟩ := ih .inside (by decide)
    exact ⟨last, along_cons (step_of_isLabel rfl htrail) (along_cons rfl hlast), hstray⟩
  | armsEnd arms stop => exact fun trail htrail ↦ ⟨trail, rfl, .inr htrail⟩
  | arms first labels behind rest ihlabels ihbehind ihrest =>
    intro trail htrail
    obtain ⟨middle, hmiddle, hlabelled⟩ := ihlabels trail htrail
    obtain ⟨last, hlast, hstray⟩ := ihbehind middle hlabelled
    rw [← List.cons_append]
    -- Only the last arm can end with the text.
    rcases rest.arms_first with rfl | hmore
    · rw [List.append_nil]
      exact ⟨last, along_append hmiddle hlast, hstray⟩
    · obtain ⟨final, hfinal, hend⟩ := ihrest last (hstray.resolve_left hmore)
      exact ⟨final, along_append hmiddle (along_append hlast hfinal), hend⟩

/-- The last of these tokens are those of a statement. -/
def EndsStatement (kinds : List TokenKind) : Prop :=
  ∃ lead tail parsed next, kinds = lead ++ tail ∧ Spells (.statement true parsed) tail next

namespace EndsStatement

variable {kinds : List TokenKind}

theorem append (h : EndsStatement kinds) (front : List TokenKind) :
    EndsStatement (front ++ kinds) := by
  obtain ⟨lead, tail, parsed, next, rfl, hspells⟩ := h
  exact ⟨front ++ lead, tail, parsed, next, (List.append_assoc ..).symm, hspells⟩

theorem cons (h : EndsStatement kinds) (kind : TokenKind) : EndsStatement (kind :: kinds) :=
  h.append [kind]

theorem along_eq (h : EndsStatement kinds) {trail last : Trail}
    (hlast : along kinds trail = some last) : last = .ended := by
  obtain ⟨lead, tail, parsed, next, rfl, hspells⟩ := h
  obtain ⟨middle, -, htail⟩ := exists_along_of_append hlast
  rw [hspells.leads middle] at htail
  exact (Option.some.inj htail).symm

end EndsStatement

theorem endsArm_of_closesList {kind : TokenKind} (h : closesList kind = true) :
    endsArm kind = true := by
  rcases Bool.or_eq_true_iff.1 h with hbrace | hlabel
  · rw [of_decide_eq_true hbrace]
    rfl
  · exact Bool.or_eq_true_iff.2 (.inr hlabel)

/-- In front of a closing brace or a label, an edge is the end of a statement. -/
theorem Edge.endsStatement {phrase : Phrase} {front back : List TokenKind} {next : TokenKind}
    (h : Edge phrase front back next) (hcloses : closesList (back.headD next) = true) :
    EndsStatement front := by
  induction h with
  | before count first direct others =>
    obtain ⟨kind, more, rfl, hkind, -⟩ := first.statement_first
    have hends : endsArm kind = true := endsArm_of_closesList hcloses
    rw [hkind] at hends
    cases hends
  | behind first direct others => exact ⟨[], _, _, _, rfl, first⟩
  | inFirst first direct rest ih =>
    rw [headD_append] at hcloses
    exact ih hcloses
  | inOthers first direct rest ih => exact (ih hcloses).append _
  | semicolon behind ih => exact (ih hcloses).cons _
  | block mayDeclare inside ih => exact ih hcloses
  | body next inside ih =>
    rw [headD_append] at hcloses
    exact (ih hcloses).cons _
  | inBranch mayDeclare first behind ih =>
    rw [headD_append] at hcloses
    exact (ih hcloses).cons _
  | inAlternative mayDeclare first behind ih => exact ((ih hcloses).append _).cons _
  | loop mayDeclare inside ih => exact (ih hcloses).cons _
  | switch mayDeclare next front inside ih =>
    rw [headD_append] at hcloses
    exact (((ih hcloses).cons _).append _).cons _
  | inAttempt mayDeclare binding inside rescue ih =>
    rw [headD_append] at hcloses
    exact (ih hcloses).cons _
  | inHandler mayDeclare binding inside rescue ih =>
    exact ((((((ih hcloses).cons _).cons _).cons _).cons _).append _).cons _
  | guarded test branch ih => exact (((ih hcloses).cons _).append _).cons _
  | otherwise branch ih => exact (ih hcloses).cons _
  | inElseBranch first behind ih =>
    rw [headD_append] at hcloses
    exact (ih hcloses).cons _
  | inElseAlternative first behind ih => exact ((ih hcloses).append _).cons _
  | inArm first labelled behind rest ih =>
    rw [headD_append] at hcloses
    exact ((ih hcloses).append _).cons _
  | inLaterArm first labelled behind rest ih => exact (((ih hcloses).append _).append _).cons _

/-- Semicolons put in between the end of a statement and a closing brace or a label cannot be
read. -/
theorem EndsStatement.not_spells_strays {front back : List TokenKind} {kind : TokenKind}
    (h : EndsStatement front) (hcloses : closesList kind = true) (count : Nat)
    (statements : List Stmt) :
    ¬Spells (.statements .program [] statements) (front ++ (strays (count + 1) ++ kind :: back))
      .eof := by
  intro hspells
  obtain ⟨last, hlast, -⟩ := hspells.leads .inside (by decide)
  obtain ⟨middle, hfront, hbehind⟩ := exists_along_of_append hlast
  obtain rfl := h.along_eq hfront
  obtain ⟨middle, hstrays, hback⟩ := exists_along_of_append hbehind
  rw [along_strays (by decide)] at hstrays
  cases hstrays
  obtain ⟨middle, hstep, -⟩ := Option.bind_eq_some_iff.1 hback
  rw [step_stray hcloses] at hstep
  cases hstep

/-! ## Texts -/

/-- The tokens of a text in two parts, where a statement of a list of its program begins or ends. -/
structure EdgeOf (colors : Option Painter) (source : String) (front back : List TokenKind) :
    Prop where
  kinds_eq : (Cursor.tokensOf source).map Token.kind = front ++ back ++ [.eof]
  edge : Edge (.statements .program [] (parse colors source).body) front back .eof

/-- Semicolons put into a text at an edge of its statements leave it free of reports exactly if no
closing brace and no label follows, and then the program is the same. -/
theorem parse_strays_iff {colors : Option Painter} {source other : String}
    {front back : List TokenKind} (count : Nat)
    (hclean : (parse colors source).diagnostics = []) (hedge : EdgeOf colors source front back)
    (hreports : Cursor.reportsOf other = [])
    (hother : (Cursor.tokensOf other).map Token.kind = front ++ (strays count ++ back) ++ [.eof]) :
    ((parse colors other).diagnostics = [] ↔
        count = 0 ∨ closesList (back.headD .eof) = false) ∧
      ((parse colors other).diagnostics = [] → parse colors other = parse colors source) := by
  have hsame (hcount : count = 0 ∨ closesList (back.headD .eof) = false) :
      parse colors other = parse colors source := by
    rw [parse_of_spells (hedge.edge.spells_strays hcount) hreports hother, ← parse_of_clean hclean]
  have hneutral (hnone : (parse colors other).diagnostics = []) :
      count = 0 ∨ closesList (back.headD .eof) = false := by
    obtain ⟨-, kinds, hkinds, hspells⟩ := spells_of_parse hnone
    rw [hother] at hkinds
    rw [← List.append_cancel_right hkinds] at hspells
    cases count with
    | zero => exact .inl rfl
    | succ count =>
      refine .inr (Bool.eq_false_iff.2 fun hcloses ↦ ?_)
      have hends := hedge.edge.endsStatement hcloses
      cases back with
      | nil => cases hcloses
      | cons kind back => exact hends.not_spells_strays hcloses count _ hspells
  refine ⟨⟨hneutral, fun hcount ↦ ?_⟩, fun hnone ↦ hsame (hneutral hnone)⟩
  rw [hsame hcount]
  exact hclean

/-- A block with one statement. -/
def closedBlock : String :=
  "\x7b alpha x; \x7d"

theorem closedBlock_body : (parse none closedBlock).body = [.block [.print (.identifier "x")]] := by
  rfl

theorem printed_spells (next : TokenKind) :
    Spells (.statement true (.print (.identifier "x")))
      [.keyword .print, .identifier "x", .mark .semicolon] next :=
  .print true next (.expression rfl (.identifier "x" _) (.operandEnd _ rfl))

/-- The block is the whole program. -/
theorem edgeOf_closedBlock {front back : List TokenKind}
    (h : Edge (.body [.print (.identifier "x")]) front back .eof)
    (hkinds : (Cursor.tokensOf closedBlock).map Token.kind = front ++ back ++ [.eof]) :
    EdgeOf none closedBlock front back := by
  let program : List Stmt := [.block [.print (.identifier "x")]]
  have hlast : Spells (.statements .program program program) [] .eof := .statementsEnd _ rfl
  have hedge : Edge (.statements .program [] program) front (back ++ []) .eof :=
    .inFirst (.block true h) Place.noConfusion hlast
  rw [List.append_nil] at hedge
  refine ⟨hkinds, ?_⟩
  rw [closedBlock_body]
  exact hedge

/-- In front of the statement of the block a semicolon is neutral, and behind it, where the brace
follows, it is reported. -/
theorem closedBlock_strays :
    (parse none closedBlock).diagnostics = [] ∧
      parse none "\x7b ; alpha x; \x7d" = parse none closedBlock ∧
      (parse none "\x7b alpha x;; \x7d").diagnostics ≠ [] := by
  have hclean : (parse none closedBlock).diagnostics = [] := by rfl
  have hbefore : EdgeOf none closedBlock [.mark .openBrace]
      [.keyword .print, .identifier "x", .mark .semicolon, .mark .closeBrace] :=
    edgeOf_closedBlock (.body _ (.before 0 (printed_spells _) Place.noConfusion
      (.statementsEnd _ rfl))) (by decide +kernel)
  have hbehind : EdgeOf none closedBlock
      [.mark .openBrace, .keyword .print, .identifier "x", .mark .semicolon] [.mark .closeBrace] :=
    edgeOf_closedBlock (.body _ (.behind (printed_spells _) Place.noConfusion
      (.statementsEnd _ rfl))) (by decide +kernel)
  have hreports : Cursor.reportsOf "\x7b ; alpha x; \x7d" = [] := by decide +kernel
  have hreports' : Cursor.reportsOf "\x7b alpha x;; \x7d" = [] := by decide +kernel
  have hneutral := parse_strays_iff 1 hclean hbefore hreports (by decide +kernel)
  have hreported := parse_strays_iff 1 hclean hbehind hreports' (by decide +kernel)
  refine ⟨hclean, hneutral.2 (hneutral.1.2 (.inr rfl)), fun hnone ↦ ?_⟩
  rcases hreported.1.1 hnone with hcount | hcloses
  · cases hcount
  · cases hcloses

end Slang
