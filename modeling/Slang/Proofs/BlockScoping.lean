import Mathlib.Tactic.IntervalCases
import Slang.Proofs.Visibility

/-!
# Blocks leave the frames around them as they were

Whatever is done to a stack of frames on top of a new frame, as long as the frames below stay: when
the stack is cut back to them, they are of the same kinds and hold the same names. Only the values
of their variables may have changed, by assignments made while no frame on top held the name.
-/

namespace Slang

namespace Scopes

/-- What can be done to a stack of frames. -/
inductive Operation where
  | push (kind : FrameKind)
  | declare (name : String) (value : Value)
  | assign (name : String) (value : Value)
  | get (name : String)
  | truncate (depth : Nat)
  | unwind
  deriving Repr, DecidableEq

namespace Operation

/-- The stack behind an operation, if it succeeds. -/
def attempt? (scopes : Scopes) : Operation → Option Scopes
  | push kind => some (scopes.push kind)
  | declare name value => (scopes.declare name value).toOption
  | assign name value => (scopes.assign name value).toOption
  | get name => (scopes.get? name).map fun _ ↦ scopes
  | truncate depth => some (scopes.truncate depth)
  | unwind => scopes.unwind?

/-- An operation that fails leaves the stack as it is. -/
def apply (scopes : Scopes) (operation : Operation) : Scopes :=
  (operation.attempt? scopes).getD scopes

def applyAll (operations : List Operation) (scopes : Scopes) : Scopes :=
  operations.foldl apply scopes

/-- The operations, each with the stack that it is applied to. -/
def history : List Operation → Scopes → List (Scopes × Operation)
  | [], _ => []
  | operation :: operations, scopes =>
    (scopes, operation) :: history operations (operation.apply scopes)

/-- The value that an assignment gives to a variable, if it succeeds and none of the frames above
the given depth holds the name. -/
def assigned? (depth : Nat) (name : String) : Scopes × Operation → Option Value
  | (scopes, assign target value) =>
    if target = name ∧ (scopes.assign target value).isOk ∧
        ∀ frame ∈ scopes.frames.take (scopes.depth - depth), name ∉ frame.names then
      some value
    else none
  | _ => none

end Operation

/-- The stack consists of the given frames and at least one on top of them. -/
def Above (outer : List Frame) (scopes : Scopes) : Prop :=
  ∃ inner, inner ≠ [] ∧ scopes.frames = inner ++ outer

theorem above_push (kind : FrameKind) (scopes : Scopes) : Above scopes.frames (scopes.push kind) :=
  ⟨[⟨kind, []⟩], List.cons_ne_nil _ _, rfl⟩

/-- Frames can be dropped down to those on top. -/
theorem Above.of_suffix {outer : List Frame} {scopes dropped : Scopes} (h : Above outer scopes)
    (hsuffix : dropped.frames <:+ scopes.frames) (hdepth : outer.length < dropped.depth) :
    Above outer dropped := by
  obtain ⟨inner, -, hframes⟩ := h
  have houter : outer <:+ scopes.frames := ⟨inner, hframes.symm⟩
  obtain ⟨left, hleft⟩ := List.suffix_of_suffix_length_le houter hsuffix (Nat.le_of_lt hdepth)
  refine ⟨left, ?_, hleft.symm⟩
  rintro rfl
  rw [List.nil_append] at hleft
  rw [depth, ← hleft] at hdepth
  exact Nat.lt_irrefl _ hdepth

theorem unwind?_suffix {scopes after : Scopes} (h : scopes.unwind? = some after) :
    after.frames <:+ scopes.frames := by
  unfold unwind? at h
  split at h
  · cases h
  · obtain rfl := Option.some.inj h
    exact List.dropWhile_suffix _

/-- An assignment goes to the frames on top, if one of them holds the name. -/
theorem updateFirst?_append_of_held {name : String} {inner : List Frame}
    (h : ∃ frame ∈ inner, name ∈ frame.names) (value : Value) (outer : List Frame) :
    ∃ changed, changed ≠ [] ∧
      updateFirst? name value (inner ++ outer) = some (changed ++ outer) := by
  induction inner with
  | nil =>
    obtain ⟨frame, hmem, -⟩ := h
    cases hmem
  | cons frame inner ih =>
    rw [List.cons_append, updateFirst?]
    by_cases hheld : name ∈ frame.names
    · exact ⟨_ :: inner, List.cons_ne_nil _ _, if_pos hheld⟩
    · have hinner : ∃ frame ∈ inner, name ∈ frame.names := by simpa [hheld] using h
      obtain ⟨changed, -, hchanged⟩ := ih hinner
      rw [if_neg hheld, hchanged]
      exact ⟨frame :: changed, List.cons_ne_nil _ _, rfl⟩

/-- Else it goes to the frames below. -/
theorem updateFirst?_append_of_free {name : String} {inner : List Frame}
    (h : ∀ frame ∈ inner, name ∉ frame.names) (value : Value) (outer : List Frame) :
    updateFirst? name value (inner ++ outer) =
      (updateFirst? name value outer).map (inner ++ ·) := by
  induction inner with
  | nil => simp
  | cons frame inner ih =>
    obtain ⟨hframe, hinner⟩ := List.forall_mem_cons.1 h
    rw [List.cons_append, updateFirst?, if_neg hframe, ih hinner, Option.map_map]
    rfl

namespace Operation

/-- The operation leaves the frames below in place and their names as they are. It changes the value
of one variable, if it is an assignment that comes through to them. -/
structure Passes (operation : Operation) (scopes : Scopes) (outer outer' : List Frame) : Prop where
  above : Above outer' (operation.apply scopes)
  shapes_eq : Frames.shapes outer' = Frames.shapes outer
  get?_eq : ∀ name, get? name ⟨outer'⟩ =
    (assigned? outer.length name (scopes, operation)).or (get? name ⟨outer⟩)

variable {scopes : Scopes} {outer : List Frame}

theorem Passes.of_none {operation : Operation} (habove : Above outer (operation.apply scopes))
    (hnone : ∀ name, assigned? outer.length name (scopes, operation) = none) :
    Passes operation scopes outer outer :=
  ⟨habove, rfl, fun name ↦ by rw [hnone name, Option.none_or]⟩

theorem declare_above (h : Above outer scopes) (name : String) (value : Value) :
    Above outer ((declare name value).apply scopes) := by
  obtain ⟨inner, hinner, hframes⟩ := h
  obtain ⟨frame, inner, rfl⟩ := List.exists_cons_of_ne_nil hinner
  cases hdeclare : scopes.declare name value with
  | error fault =>
    rw [apply, attempt?, hdeclare]
    exact ⟨frame :: inner, hinner, hframes⟩
  | ok after =>
    obtain ⟨innermost, others, hothers, -, rfl⟩ := eq_of_declare_eq_ok hdeclare
    obtain ⟨rfl, rfl⟩ := List.cons.inj (hothers.symm.trans hframes)
    rw [apply, attempt?, hdeclare]
    exact ⟨innermost.insert name value :: inner, List.cons_ne_nil _ _, rfl⟩

theorem assigned?_assign {inner : List Frame} (hframes : scopes.frames = inner ++ outer)
    (other name : String) (value : Value) :
    assigned? outer.length other (scopes, assign name value) =
      if name = other ∧ (scopes.assign name value).isOk ∧ ∀ frame ∈ inner, other ∉ frame.names then
        some value
      else none := by
  have hdepth : scopes.depth - outer.length = inner.length := by
    rw [depth, hframes, List.length_append, Nat.add_sub_cancel]
  rw [assigned?, hdepth, hframes, List.take_left]

theorem apply_assign (name : String) (value : Value) :
    (assign name value).apply scopes =
      ((updateFirst? name value scopes.frames).map Scopes.mk).getD scopes := by
  rw [apply, attempt?, Scopes.assign]
  cases updateFirst? name value scopes.frames <;> rfl

theorem assign_passes (h : Above outer scopes) (name : String) (value : Value) :
    ∃ outer', Passes (assign name value) scopes outer outer' := by
  obtain ⟨inner, hinner, hframes⟩ := h
  have hassigned (other : String) := assigned?_assign hframes other name value
  by_cases hheld : ∃ frame ∈ inner, name ∈ frame.names
  · obtain ⟨changed, hchanged, hupdate⟩ := updateFirst?_append_of_held hheld value outer
    refine ⟨outer, .of_none ⟨changed, hchanged, ?_⟩ fun other ↦ ?_⟩
    · rw [apply_assign, hframes, hupdate]
      rfl
    · rw [hassigned, if_neg]
      rintro ⟨rfl, -, hfree⟩
      obtain ⟨frame, hmem, hname⟩ := hheld
      exact hfree frame hmem hname
  · have hfree : ∀ frame ∈ inner, name ∉ frame.names :=
      fun frame hmem hname ↦ hheld ⟨frame, hmem, hname⟩
    have happend := updateFirst?_append_of_free hfree value outer
    cases hupdate : updateFirst? name value outer with
    | none =>
      rw [hupdate] at happend
      refine ⟨outer, .of_none ⟨inner, hinner, ?_⟩ fun other ↦ ?_⟩
      · rw [apply_assign, hframes, happend]
        exact hframes
      · rw [hassigned, Scopes.assign, hframes, happend]
        exact if_neg fun hreaches ↦ Bool.noConfusion hreaches.2.1
    | some changed =>
      rw [hupdate] at happend
      refine ⟨changed, ⟨inner, hinner, ?_⟩, Frames.shapes_updateFirst? hupdate, fun other ↦ ?_⟩
      · rw [apply_assign, hframes, happend]
        rfl
      · have hget := congrFun (Frames.get?_updateFirst? hupdate) other
        have hok : (scopes.assign name value).isOk = true := by
          rw [Scopes.assign, hframes, happend]
          rfl
        rw [Function.update_apply] at hget
        rw [hget, hassigned]
        by_cases hother : other = name
        · subst hother
          rw [if_pos rfl, if_pos ⟨rfl, hok, hfree⟩]
          rfl
        · rw [if_neg hother, if_neg fun hreaches ↦ hother hreaches.1.symm]
          rfl

/-- No operation reaches the frames below but an assignment. -/
theorem exists_passes (h : Above outer scopes) {operation : Operation}
    (hdepth : outer.length < (operation.apply scopes).depth) :
    ∃ outer', Passes operation scopes outer outer' := by
  cases operation with
  | push kind =>
    obtain ⟨inner, -, hframes⟩ := h
    refine ⟨outer, .of_none ⟨⟨kind, []⟩ :: inner, List.cons_ne_nil _ _, ?_⟩ fun _ ↦ rfl⟩
    exact congrArg (_ :: ·) hframes
  | declare name value => exact ⟨outer, .of_none (declare_above h name value) fun _ ↦ rfl⟩
  | assign name value => exact assign_passes h name value
  | get name =>
    have hsame : (get name).apply scopes = scopes := by
      rw [apply, attempt?]
      cases scopes.get? name <;> rfl
    exact ⟨outer, .of_none (by rwa [hsame]) fun _ ↦ rfl⟩
  | truncate depth =>
    exact ⟨outer, .of_none (h.of_suffix (List.drop_suffix _ _) hdepth) fun _ ↦ rfl⟩
  | unwind =>
    refine ⟨outer, .of_none ?_ fun _ ↦ rfl⟩
    cases hunwind : scopes.unwind? with
    | none =>
      rw [apply, attempt?, hunwind]
      exact h
    | some after =>
      rw [apply, attempt?, hunwind] at hdepth ⊢
      exact h.of_suffix (unwind?_suffix hunwind) hdepth

/-- All operations together leave the frames below in place. Their variables have the values that
the last assignments give them that come through. -/
theorem exists_passes_all (h : Above outer scopes) {operations : List Operation}
    (hdepth : ∀ count, outer.length < (applyAll (operations.take count) scopes).depth) :
    ∃ outer', Above outer' (applyAll operations scopes) ∧
      Frames.shapes outer' = Frames.shapes outer ∧
      ∀ name, get? name ⟨outer'⟩ =
        ((history operations scopes).filterMap (assigned? outer.length name)).getLast?.or
          (get? name ⟨outer⟩) := by
  induction operations generalizing scopes outer with
  | nil => exact ⟨outer, h, rfl, fun _ ↦ rfl⟩
  | cons operation operations ih =>
    obtain ⟨middle, habove, hshapes, hget⟩ := exists_passes h (hdepth 1)
    have hlength := Frames.length_eq_of_shapes_eq hshapes
    have hlater : ∀ count,
        middle.length < (applyAll (operations.take count) (operation.apply scopes)).depth := by
      intro count
      rw [hlength]
      exact hdepth (count + 1)
    obtain ⟨outer', habove', hshapes', hget'⟩ := ih habove hlater
    refine ⟨outer', habove', hshapes'.trans hshapes, fun name ↦ ?_⟩
    rw [hget', hget, hlength, history, List.filterMap_cons]
    cases assigned? outer.length name (scopes, operation) with
    | none => rfl
    | some value =>
      rw [List.getLast?_cons]
      cases ((history operations (operation.apply scopes)).filterMap
        (assigned? outer.length name)).getLast? <;> rfl

end Operation

end Scopes

open Scopes Scopes.Operation

/-- After a block, whatever was done in it, the frames around it are of the same kinds with the same
names, and a variable has the value of the last assignment in the block that came through to these
frames, or the one it had before. -/
theorem block_keeps_outer (scopes : Scopes) (kind : FrameKind) (operations : List Operation)
    (hdepth : ∀ count,
      scopes.depth < (applyAll (operations.take count) (scopes.push kind)).depth) :
    let left := (applyAll operations (scopes.push kind)).truncate scopes.depth
    left.depth = scopes.depth ∧ left.frames.map Frame.kind = scopes.frames.map Frame.kind ∧
      left.frames.map Frame.names = scopes.frames.map Frame.names ∧
      ∀ name, left.get? name =
        ((history operations (scopes.push kind)).filterMap
          (assigned? scopes.depth name)).getLast?.or (scopes.get? name) := by
  obtain ⟨outer, ⟨inner, -, hframes⟩, hshapes, hget⟩ :=
    exists_passes_all (above_push kind scopes) hdepth
  have hlength : outer.length = scopes.depth := Frames.length_eq_of_shapes_eq hshapes
  have hleft : (applyAll operations (scopes.push kind)).truncate scopes.depth = ⟨outer⟩ := by
    rw [← hlength, ← Frames.truncate_append inner outer, ← hframes]
  intro left
  rw [show left = ⟨outer⟩ from hleft]
  refine ⟨hlength, Frames.kinds_eq_of_shapes_eq hshapes, ?_, hget⟩
  have hnames := congrArg (List.map Prod.snd) hshapes
  simpa [Frames.shapes, Frame.shape, Function.comp_def] using hnames

/-- Two frames for a block that hides a variable of the inner one. -/
def hiddenVariable : Scopes :=
  ⟨[⟨.loop, [("x", .text "before")]⟩, ⟨.block, [("y", .null)]⟩]⟩

/-- The variable is assigned, declared anew and assigned again, and the frames of a loop inside the
block come and go. -/
def hidingOperations : List Operation :=
  [.assign "x" (.text "outside"), .declare "x" .null, .assign "x" (.text "inside"), .push .loop,
    .push .block, .assign "z" .null, .unwind, .truncate 3, .get "y"]

/-- Only the assignment in front of the declaration is seen behind the block. -/
theorem hidingOperations_keep_outer :
    (∀ count, hiddenVariable.depth <
        (applyAll (hidingOperations.take count) (hiddenVariable.push .block)).depth) ∧
      ((applyAll hidingOperations (hiddenVariable.push .block)).truncate 2).get? "x" =
        some (.text "outside") := by
  have hdepth : ∀ count, hiddenVariable.depth <
      (applyAll (hidingOperations.take count) (hiddenVariable.push .block)).depth := by
    intro count
    by_cases hcount : count < 9
    · interval_cases count <;> decide
    · rw [List.take_of_length_le (Nat.le_of_not_lt hcount)]
      decide
  have hget := (block_keeps_outer hiddenVariable .block hidingOperations hdepth).2.2.2 "x"
  exact ⟨hdepth, hget.trans (by decide)⟩

end Slang
