import Slang.Proofs.Unwinding

/-!
# The discipline of the frame stack

What a statement does to the stack of frames it finds, told apart by how it ends. A statement that
settles puts every frame back. A pending `dip` leaves the frame that it will stop at and all frames
outside that one, with nothing but blocks on top. A failure takes no frame away. Whichever it is, a
frame that is still there has the names it had, and only the innermost may have more.
-/

namespace Slang

open Stateful

namespace Scopes

/-- The frame at a height, the outermost having height zero. -/
def frameAt? (scopes : Scopes) (height : Nat) : Option Frame :=
  scopes.frames.reverse[height]?

/-- The kinds of the frames, the innermost first. -/
def kinds (scopes : Scopes) : List FrameKind :=
  Frames.kinds scopes.frames

end Scopes

/-- What a statement may have done to the frames of a machine on which no `dip` was pending. -/
structure FrameDiscipline (before : Machine) (outcome : Except Halt Value) (after : Machine) :
    Prop where
  settled : ∀ value, outcome = .ok value → after.leaving = false →
    after.scopes.kinds = before.scopes.kinds
  /-- A pending `dip` has a target, the innermost frame that is not a block. -/
  pending : ∀ value, outcome = .ok value → after.leaving = true →
    ∃ blocks target outer extra, target ≠ .block ∧
      before.scopes.kinds = blocks ++ target :: outer ∧ (∀ kind ∈ blocks, kind = .block) ∧
      after.scopes.kinds = extra ++ target :: outer ∧ ∀ kind ∈ extra, kind = .block
  failed : ∀ reason, outcome = .error reason →
    after.leaving = false ∧ before.scopes.kinds <:+ after.scopes.kinds
  names : ∀ height frame frame', before.scopes.frameAt? height = some frame →
    after.scopes.frameAt? height = some frame' →
      frame.names ⊆ frame'.names ∧
        (height + 1 < before.scopes.depth → ∀ name, name ∈ frame'.names ↔ name ∈ frame.names)

namespace Frames

theorem exists_kinds_of_hasTarget {frames : List Frame} (h : HasTarget frames) :
    ∃ blocks target outer, kinds frames = blocks ++ target :: outer ∧ target ≠ .block ∧
      ∀ kind ∈ blocks, kind = .block := by
  induction frames with
  | nil =>
    obtain ⟨frame, hmem, -⟩ := h
    exact absurd hmem List.not_mem_nil
  | cons frame frames ih =>
    by_cases hblock : frame.kind = .block
    · obtain ⟨target, hmem, hkind⟩ := h
      have hmem : target ∈ frames := by
        rcases List.mem_cons.1 hmem with rfl | hmem
        · exact absurd hblock hkind
        · exact hmem
      obtain ⟨blocks, kind, outer, hkinds, htarget, hblocks⟩ := ih ⟨target, hmem, hkind⟩
      refine ⟨frame.kind :: blocks, kind, outer, by rw [kinds_cons, hkinds]; rfl, htarget, ?_⟩
      intro other hother
      exact (List.mem_cons.1 hother).elim (fun heq ↦ heq.trans hblock) (hblocks other)
    · exact ⟨[], frame.kind, kinds frames, rfl, hblock, by simp⟩

/-- The target of a `dip` and all that is outside it survive, and only blocks are left on top. -/
theorem Unwound.exists_kinds {held left : List Frame} (h : Unwound held left) :
    ∃ blocks target outer extra, target ≠ .block ∧ kinds held = blocks ++ target :: outer ∧
      (∀ kind ∈ blocks, kind = .block) ∧ kinds left = extra ++ target :: outer ∧
      ∀ kind ∈ extra, kind = .block := by
  obtain ⟨htarget, hstack⟩ := h
  rcases hstack with ⟨above, habove, rfl⟩ | ⟨popped, hpopped, rfl⟩
  · obtain ⟨blocks, target, outer, hkinds, hkind, hblocks⟩ := exists_kinds_of_hasTarget htarget
    refine ⟨blocks, target, outer, kinds above ++ blocks, hkind, hkinds, hblocks, by simp [hkinds],
      ?_⟩
    intro kind hmem
    rcases List.mem_append.1 hmem with hmem | hmem
    · obtain ⟨frame, hframe, rfl⟩ := List.mem_map.1 hmem
      exact habove frame hframe
    · exact hblocks kind hmem
  · have hleft : HasTarget left := by
      obtain ⟨target, hmem, hkind⟩ := htarget
      rcases List.mem_append.1 hmem with hmem | hmem
      · exact absurd (hpopped target hmem) hkind
      · exact ⟨target, hmem, hkind⟩
    obtain ⟨blocks, target, outer, hkinds, hkind, hblocks⟩ := exists_kinds_of_hasTarget hleft
    refine ⟨kinds popped ++ blocks, target, outer, blocks, hkind, by simp [hkinds], ?_, hkinds,
      hblocks⟩
    intro kind hmem
    rcases List.mem_append.1 hmem with hmem | hmem
    · obtain ⟨frame, hframe, rfl⟩ := List.mem_map.1 hmem
      exact hpopped frame hframe
    · exact hblocks kind hmem

/-- One stack stands on the other. -/
theorem Unwound.stacked {held left : List Frame} (h : Unwound held left) :
    held <:+ left ∨ left <:+ held := by
  rcases h.2 with ⟨extra, -, hleft⟩ | ⟨popped, -, hheld⟩
  · exact .inl ⟨extra, hleft.symm⟩
  · exact .inr ⟨popped, hheld.symm⟩

/-- Two stacks of which one stands on the other have the same frames at common heights. -/
theorem frameAt?_eq_of_stacked {held left : List Frame} (h : held <:+ left ∨ left <:+ held)
    {height : Nat} {frame frame' : Frame} (hheld : held.reverse[height]? = some frame)
    (hleft : left.reverse[height]? = some frame') : frame = frame' := by
  rcases h with ⟨extra, rfl⟩ | ⟨popped, rfl⟩
  · have hlt := (List.getElem?_eq_some_iff.1 hheld).1
    rw [List.reverse_append, List.getElem?_append_left hlt, hheld] at hleft
    exact Option.some.inj hleft
  · have hlt := (List.getElem?_eq_some_iff.1 hleft).1
    rw [List.reverse_append, List.getElem?_append_left hlt, hleft] at hheld
    exact (Option.some.inj hheld).symm

theorem Grows.names_at {before after : List Frame} (h : Grows before after) {height : Nat}
    {frame frame' : Frame} (hbefore : before.reverse[height]? = some frame)
    (hafter : after.reverse[height]? = some frame') :
    frame.names ⊆ frame'.names ∧ (height + 1 < before.length → frame'.names = frame.names) := by
  cases before with
  | nil => simp at hbefore
  | cons innermost outer =>
    obtain ⟨innermost', outer', rfl, -, hnames, houter⟩ := h
    have hlength := length_eq_of_shapes_eq houter
    rw [List.reverse_cons] at hbefore hafter
    by_cases hheight : height < outer.length
    · rw [List.getElem?_append_left (by simpa using hheight)] at hbefore
      rw [List.getElem?_append_left (by simpa [hlength] using hheight)] at hafter
      have hshape : frame'.shape = frame.shape := by
        have hreverse := congrArg List.reverse houter
        rw [shapes, shapes, ← List.map_reverse, ← List.map_reverse] at hreverse
        have hat := congrArg (·[height]?) hreverse
        simp only [List.getElem?_map, hbefore, hafter, Option.map_some] at hat
        exact Option.some.inj hat
      have hsame : frame'.names = frame.names := congrArg Prod.snd hshape
      exact ⟨by rw [hsame]; exact List.Subset.refl _, fun _ ↦ hsame⟩
    · have hlt := (List.getElem?_eq_some_iff.1 hbefore).1
      have heq : height = outer.length := by
        rw [List.length_append, List.length_reverse, List.length_singleton] at hlt
        omega
      have hinnermost : innermost = frame := by simpa [heq] using hbefore
      have hinnermost' : innermost' = frame' := by simpa [heq, ← hlength] using hafter
      rw [← hinnermost, ← hinnermost', heq]
      exact ⟨hnames, fun hinner ↦ absurd hinner (by simp)⟩

end Frames

/-- Every frame that a stack has in common with what a balanced run made of `before` has the names
it had there. -/
theorem names_of_stacked {before : Machine} {held left : List Frame}
    (hgrows : Frames.Grows before.scopes.frames held) (hstacked : held <:+ left ∨ left <:+ held)
    {height : Nat} {frame frame' : Frame} (hbefore : before.scopes.frameAt? height = some frame)
    (hleft : Scopes.frameAt? ⟨left⟩ height = some frame') :
    frame.names ⊆ frame'.names ∧
      (height + 1 < before.scopes.depth → ∀ name, name ∈ frame'.names ↔ name ∈ frame.names) := by
  have hheight : height < held.reverse.length := by
    have hlt := (List.getElem?_eq_some_iff.1 hbefore).1
    have hlength := congrArg List.length hgrows.kinds_eq
    rw [Frames.kinds, Frames.kinds, List.length_map, List.length_map] at hlength
    rwa [List.length_reverse, hlength, ← List.length_reverse]
  obtain ⟨kept, hkept⟩ : ∃ kept, held.reverse[height]? = some kept :=
    ⟨held.reverse[height], List.getElem?_eq_getElem hheight⟩
  have hnames := hgrows.names_at hbefore hkept
  rw [Frames.frameAt?_eq_of_stacked hstacked hkept hleft] at hnames
  refine ⟨hnames.1, fun hinner name ↦ ?_⟩
  rw [hnames.2 hinner]

/-- The ends that mirror a balanced run are disciplined. -/
theorem frameDiscipline_of_mirrors {before : Machine} {first : Except Halt Value × Machine}
    {balanced : Except Exit Value × Machine} (h : Unwinding.Mirrors true first balanced)
    (hkeeps : Machine.Keeps before balanced.2) : FrameDiscipline before first.1 first.2 := by
  have hkinds := hkeeps.frames.kinds_eq
  have hgrows := hkeeps.frames
  cases h with
  | settled result calm =>
    refine ⟨fun _ _ _ ↦ hkinds, ?_, ?_, ?_⟩
    · intro value _ hleaving
      rw [calm] at hleaving
      cases hleaving
    · intro reason herror
      cases herror
    · intro height frame frame' hbefore hafter
      exact names_of_stacked hgrows (.inl List.suffix_rfl) hbefore hafter
  | leaving result output caught unwound =>
    refine ⟨?_, ?_, ?_, ?_⟩
    · intro value _ hcalm
      cases hcalm
    · intro value _ _
      obtain ⟨blocks, target, outer, extra, htarget, hheld, hblocks, hleft, hextra⟩ :=
        unwound.exists_kinds
      exact ⟨blocks, target, outer, extra, htarget, hkinds.symm.trans hheld, hblocks, hleft, hextra⟩
    · intro reason herror
      cases herror
    · intro height frame frame' hbefore hafter
      exact names_of_stacked hgrows unwound.stacked hbefore hafter
  | halted reason extra held output caught =>
    have hsuffix : held <:+ extra ++ held := List.suffix_append extra held
    refine ⟨?_, ?_, ?_, ?_⟩
    · intro value hok
      cases hok
    · intro value hok
      cases hok
    · intro _ _
      refine ⟨rfl, ?_⟩
      rw [Scopes.kinds, Scopes.kinds, ← hkinds]
      exact hsuffix.map Frame.kind
    · intro height frame frame' hbefore hafter
      exact names_of_stacked hgrows (.inl hsuffix) hbefore hafter

/-- A program that runs to its end, on a machine whose frames are all blocks, leaves the frames as
they were and no `dip` pending. -/
theorem runProgram_settles {rounds : Nat} {program : List Stmt} {machine after : Machine}
    (hcalm : machine.leaving = false) (hblocks : ¬ Frames.HasTarget machine.scopes.frames)
    (hrun : runProgram rounds program machine = (.ok (), after)) :
    after.leaving = false ∧
      Frames.shapes after.scopes.frames = Frames.shapes machine.scopes.frames := by
  have hmirrors := Unwinding.runProgram_tracks rounds program machine hcalm
  have hshapes := Balanced.body_shapes rounds program machine
  generalize Balanced.within .block (Balanced.runAll rounds program) machine = ending at *
  rw [hrun] at hmirrors
  cases hmirrors with
  | settled result calm => exact ⟨calm, hshapes⟩
  | leaving result output caught unwound =>
    have hkinds := Frames.kinds_eq_of_shapes_eq hshapes
    exact absurd ((Frames.hasTarget_iff_of_kinds_eq hkinds).1 unwound.1) hblocks

/-- Every statement keeps to the discipline of the frame stack, from every machine on which no
`dip` is pending, whether it returns or runs out of rounds; and a program that a fresh machine runs
to its end leaves the outermost frame alone and no `dip` pending. -/
theorem run_keeps_frameDiscipline (rounds : Nat) :
    (∀ (statement : Stmt) (machine : Machine), machine.leaving = false →
      FrameDiscipline machine (statement.run rounds machine).1
        (statement.run rounds machine).2) ∧
    ∀ (program : List Stmt) (sink : Sink) (after : Machine),
      runProgram rounds program (Machine.ofSink sink) = (.ok (), after) →
        after.scopes.depth = 1 ∧ after.leaving = false := by
  constructor
  · intro statement machine hcalm
    exact frameDiscipline_of_mirrors (Unwinding.run_tracks rounds statement machine hcalm)
      (Balanced.runStmt_keeps rounds statement machine)
  · intro program sink after hrun
    have hblocks : ¬ Frames.HasTarget (Machine.ofSink sink).scopes.frames := by
      simp [Frames.HasTarget, Machine.ofSink, Scopes.initial]
    obtain ⟨hcalm, hshapes⟩ := runProgram_settles rfl hblocks hrun
    exact ⟨Frames.length_eq_of_shapes_eq hshapes, hcalm⟩

/-- A machine in the middle of a loop body that has one variable. -/
def inLoopBody : Machine :=
  ⟨⟨[⟨.block, [("x", .null)]⟩, ⟨.loop, []⟩, ⟨.block, []⟩]⟩, false, .ofSink .accepting, []⟩

/-- The handler of an attempt leaves the loop around it and takes the body's frame with it, while
an attempt that nothing encloses takes its own `dip` in. -/
theorem attempt_frameDiscipline :
    let rescued : Stmt := .attempt [.throw (.identifier "x")] "e" [.leave]
    let alone : Stmt := .attempt [.leave] "e" []
    let ending := rescued.run 1 inLoopBody
    inLoopBody.leaving = false ∧ FrameDiscipline inLoopBody ending.1 ending.2 ∧
      ending.2.leaving = true ∧ ending.2.scopes.kinds = [.loop, .block] ∧
      ∃ after, runProgram 1 [alone] (Machine.ofSink .accepting) = (.ok (), after) ∧
        after.scopes.depth = 1 ∧ after.leaving = false :=
  ⟨rfl, (run_keeps_frameDiscipline 1).1 _ inLoopBody rfl, rfl, rfl, _, rfl,
    (run_keeps_frameDiscipline 1).2 [.attempt [.leave] "e" []] .accepting _ rfl⟩

end Slang
