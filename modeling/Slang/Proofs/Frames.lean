import Mathlib.Data.List.TakeWhile
import Mathlib.Order.Defs.Unbundled
import Slang.Scopes

/-!
# How stacks of frames change

`Grows` is what one statement may do to a stack: give variables other values and add names to the
innermost frame. `Unwound` relates the frames that a pending `dip` has left standing to the frames
that the construct around it held.
-/

namespace Slang

/-- What assignments to the variables of a frame cannot change. -/
def Frame.shape (frame : Frame) : FrameKind × List String :=
  (frame.kind, frame.names)

@[simp] theorem Frame.shape_update (name : String) (value : Value) (frame : Frame) :
    (frame.update name value).shape = frame.shape := by
  rw [shape, names_update]
  rfl

namespace Frames

def shapes (frames : List Frame) : List (FrameKind × List String) :=
  frames.map Frame.shape

def kinds (frames : List Frame) : List FrameKind :=
  frames.map Frame.kind

@[simp] theorem shapes_cons (frame : Frame) (outer : List Frame) :
    shapes (frame :: outer) = frame.shape :: shapes outer := rfl

@[simp] theorem kinds_cons (frame : Frame) (outer : List Frame) :
    kinds (frame :: outer) = frame.kind :: kinds outer := rfl

@[simp] theorem kinds_append (inner outer : List Frame) :
    kinds (inner ++ outer) = kinds inner ++ kinds outer :=
  List.map_append

theorem length_eq_of_shapes_eq {before after : List Frame} (h : shapes after = shapes before) :
    after.length = before.length := by
  simpa [shapes] using congrArg List.length h

theorem kinds_eq_of_shapes_eq {before after : List Frame} (h : shapes after = shapes before) :
    kinds after = kinds before := by
  have hfirst := congrArg (List.map Prod.fst) h
  simpa [shapes, kinds, Function.comp_def, Frame.shape] using hfirst

theorem shapes_updateFirst? {name : String} {value : Value} {before after : List Frame}
    (h : Scopes.updateFirst? name value before = some after) : shapes after = shapes before := by
  induction before generalizing after with
  | nil => simp [Scopes.updateFirst?] at h
  | cons frame outer ih =>
    rw [Scopes.updateFirst?] at h
    split at h
    · obtain rfl := Option.some.inj h
      simp
    · obtain ⟨later, hlater, rfl⟩ := Option.map_eq_some_iff.1 h
      simp [ih hlater]

/-- The stack is as it was, but for the values of its variables and for names that are new in its
innermost frame. -/
def Grows : List Frame → List Frame → Prop
  | [], after => after = []
  | frame :: outer, after =>
    ∃ frame' outer', after = frame' :: outer' ∧ frame'.kind = frame.kind ∧
      frame.names ⊆ frame'.names ∧ shapes outer' = shapes outer

theorem grows_of_shapes_eq {before after : List Frame} (h : shapes after = shapes before) :
    Grows before after := by
  cases before with
  | nil => exact List.map_eq_nil_iff.1 h
  | cons frame outer =>
    cases after with
    | nil => simp [shapes] at h
    | cons frame' outer' =>
      simp only [shapes_cons, List.cons.injEq, Frame.shape, Prod.mk.injEq] at h
      obtain ⟨⟨hkind, hnames⟩, houter⟩ := h
      exact ⟨frame', outer', rfl, hkind, hnames ▸ List.Subset.refl _, houter⟩

instance : Std.Refl Grows :=
  ⟨fun _ ↦ grows_of_shapes_eq rfl⟩

instance : IsTrans (List Frame) Grows where
  trans first second third hfirst hsecond := by
    cases first with
    | nil =>
      obtain rfl := hfirst
      exact hsecond
    | cons frame outer =>
      obtain ⟨frame', outer', rfl, hkind, hnames, houter⟩ := hfirst
      obtain ⟨frame'', outer'', rfl, hkind', hnames', houter'⟩ := hsecond
      exact ⟨frame'', outer'', rfl, hkind'.trans hkind, List.Subset.trans hnames hnames',
        houter'.trans houter⟩

theorem Grows.kinds_eq {before after : List Frame} (h : Grows before after) :
    kinds after = kinds before := by
  cases before with
  | nil => rw [show after = [] from h]
  | cons frame outer =>
    obtain ⟨frame', outer', rfl, hkind, -, houter⟩ := h
    rw [kinds_cons, kinds_cons, hkind, kinds_eq_of_shapes_eq houter]

theorem truncate_append (inner outer : List Frame) :
    Scopes.truncate outer.length ⟨inner ++ outer⟩ = ⟨outer⟩ := by
  simp [Scopes.truncate, Scopes.depth]

theorem truncate_of_length_le {depth : Nat} {frames : List Frame} (h : frames.length ≤ depth) :
    Scopes.truncate depth ⟨frames⟩ = ⟨frames⟩ := by
  rw [Scopes.truncate, Scopes.depth, Nat.sub_eq_zero_of_le h, List.drop_zero]

/-- Whether a `dip` has a frame to stop at. -/
def HasTarget (frames : List Frame) : Prop :=
  ∃ frame ∈ frames, frame.kind ≠ .block

theorem hasTarget_iff_kinds (frames : List Frame) :
    HasTarget frames ↔ ∃ kind ∈ kinds frames, kind ≠ .block := by
  simp [HasTarget, kinds]

theorem hasTarget_iff_of_kinds_eq {before after : List Frame} (h : kinds after = kinds before) :
    HasTarget after ↔ HasTarget before := by
  rw [hasTarget_iff_kinds, hasTarget_iff_kinds, h]

theorem hasTarget_of_isBreakable {frames : List Frame}
    (h : Scopes.isBreakable ⟨frames⟩ = true) : HasTarget frames := by
  obtain ⟨frame, hmem, hkind⟩ := List.any_eq_true.1 h
  refine ⟨frame, hmem, ?_⟩
  intro hblock
  rw [hblock] at hkind
  exact Bool.false_ne_true hkind

theorem unwind?_of_not_hasTarget {frames : List Frame} (h : ¬ HasTarget frames) :
    Scopes.unwind? ⟨frames⟩ = none := by
  rw [Scopes.unwind?_eq_none_iff]
  intro frame hmem
  by_contra hkind
  exact h ⟨frame, hmem, hkind⟩

theorem unwind?_of_hasTarget {frames : List Frame} (h : HasTarget frames) :
    Scopes.unwind? ⟨frames⟩ = some ⟨frames.dropWhile (·.kind = .block)⟩ := by
  obtain ⟨frame, hmem, hkind⟩ := h
  have hsome : Scopes.unwind? ⟨frames⟩ ≠ none := by
    rw [ne_eq, Scopes.unwind?_eq_none_iff]
    intro hblocks
    exact hkind (hblocks frame hmem)
  unfold Scopes.unwind? at hsome ⊢
  split
  · rename_i hempty
    simp [hempty] at hsome
  · rfl

/-- A pending `dip` has left the frames `left` standing where the construct around it held the
frames `held`: it took block frames away from them, or left block frames on top of them. -/
def Unwound (held left : List Frame) : Prop :=
  HasTarget held ∧
    ((∃ extra, (∀ frame ∈ extra, frame.kind = .block) ∧ left = extra ++ held) ∨
      ∃ popped, (∀ frame ∈ popped, frame.kind = .block) ∧ held = popped ++ left)

theorem unwound_self {frames : List Frame} (h : HasTarget frames) : Unwound frames frames :=
  ⟨h, .inl ⟨[], by simp, rfl⟩⟩

theorem unwound_dropWhile {frames : List Frame} (h : HasTarget frames) :
    Unwound frames (frames.dropWhile (·.kind = .block)) := by
  refine ⟨h, .inr ⟨frames.takeWhile (·.kind = .block), ?_, (List.takeWhile_append_dropWhile).symm⟩⟩
  intro frame hmem
  simpa using List.mem_takeWhile_imp hmem

theorem Unwound.tail {frame : Frame} {outer left : List Frame} (h : Unwound (frame :: outer) left)
    (hblock : frame.kind = .block) : Unwound outer left := by
  obtain ⟨⟨target, hmem, hkind⟩, hstack⟩ := h
  have htarget : HasTarget outer := by
    rcases List.mem_cons.1 hmem with rfl | hmem
    · exact absurd hblock hkind
    · exact ⟨target, hmem, hkind⟩
  refine ⟨htarget, ?_⟩
  have hsingle : ∀ frame' ∈ [frame], frame'.kind = .block := by simpa using hblock
  rcases hstack with ⟨extra, hextra, rfl⟩ | ⟨popped, hpopped, hheld⟩
  · refine .inl ⟨extra ++ [frame], ?_, by simp⟩
    intro frame' hmem'
    exact (List.mem_append.1 hmem').elim (hextra frame') (hsingle frame')
  · cases popped with
    | nil => exact .inl ⟨[frame], hsingle, hheld.symm⟩
    | cons first popped =>
      obtain ⟨-, rfl⟩ := List.cons.inj hheld
      exact .inr ⟨popped, fun frame' hmem' ↦ hpopped frame' (List.mem_cons_of_mem _ hmem'), rfl⟩

/-- A `dip` never takes away the frame that it stops at. -/
theorem Unwound.exists_append {frame : Frame} {outer left : List Frame}
    (h : Unwound (frame :: outer) left) (hkind : frame.kind ≠ .block) :
    ∃ extra, left = extra ++ frame :: outer := by
  rcases h.2 with ⟨extra, -, hleft⟩ | ⟨popped, hpopped, hheld⟩
  · exact ⟨extra, hleft⟩
  · cases popped with
    | nil => exact ⟨[], hheld.symm⟩
    | cons first popped =>
      obtain ⟨rfl, -⟩ := List.cons.inj hheld
      exact absurd (hpopped frame (List.mem_cons_self ..)) hkind

theorem Unwound.truncate {held left : List Frame} (h : Unwound held left) :
    Unwound held (Scopes.truncate held.length ⟨left⟩).frames := by
  rcases h.2 with ⟨extra, -, rfl⟩ | ⟨popped, -, hheld⟩
  · rw [truncate_append]
    exact unwound_self h.1
  · rw [truncate_of_length_le (by simp [hheld])]
    exact h

end Frames

end Slang
