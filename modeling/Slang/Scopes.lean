import Slang.Fault

/-!
# Scopes

Variables live in a stack of frames. A name is looked up from the innermost frame outwards and
declared in the innermost one. Each frame also says which construct opened it, which is where a
`dip` finds the frame it leaves.
-/

namespace Slang

/-- The construct that opened a frame. -/
inductive FrameKind where
  | block | loop | switch | attempt
  deriving Repr, DecidableEq

/-- Whether a `dip` always stops at a frame of this kind. -/
def FrameKind.isBreakable : FrameKind → Bool
  | loop | switch => true
  | block | attempt => false

structure Frame where
  kind : FrameKind
  bindings : List (String × Value)
  deriving Repr, DecidableEq

namespace Frame

def names (frame : Frame) : List String :=
  frame.bindings.map Prod.fst

def get? (name : String) (frame : Frame) : Option Value :=
  frame.bindings.lookup name

/-- Adds a variable that the frame does not have. -/
def insert (name : String) (value : Value) (frame : Frame) : Frame :=
  ⟨frame.kind, (name, value) :: frame.bindings⟩

/-- Gives a variable of the frame another value. -/
def update (name : String) (value : Value) (frame : Frame) : Frame :=
  ⟨frame.kind, frame.bindings.map fun entry ↦
    if entry.1 = name then (entry.1, value) else entry⟩

@[simp] theorem names_insert (name : String) (value : Value) (frame : Frame) :
    (frame.insert name value).names = name :: frame.names := rfl

@[simp] theorem names_update (name : String) (value : Value) (frame : Frame) :
    (frame.update name value).names = frame.names := by
  simp only [names, update, List.map_map]
  apply List.map_congr_left
  intro entry _
  by_cases h : entry.1 = name <;> simp [h]

end Frame

/-- A stack of frames, the innermost first. -/
structure Scopes where
  frames : List Frame
  deriving Repr, DecidableEq

namespace Scopes

/-- One empty frame for the outermost variables. -/
def initial : Scopes :=
  ⟨[⟨.block, []⟩]⟩

def depth (scopes : Scopes) : Nat :=
  scopes.frames.length

def push (kind : FrameKind) (scopes : Scopes) : Scopes :=
  ⟨⟨kind, []⟩ :: scopes.frames⟩

/-- Drops the innermost frames down to a depth. -/
def truncate (depth : Nat) (scopes : Scopes) : Scopes :=
  ⟨scopes.frames.drop (scopes.depth - depth)⟩

/-- Whether some frame is that of a loop or switch. -/
def isBreakable (scopes : Scopes) : Bool :=
  scopes.frames.any (·.kind.isBreakable)

/-- Drops block frames down to the innermost frame of another kind, if there is one. -/
def unwind? (scopes : Scopes) : Option Scopes :=
  match scopes.frames.dropWhile (·.kind = .block) with
  | [] => none
  | frames => some ⟨frames⟩

/-- The value of a variable, from the innermost frame that has it. -/
def get? (name : String) (scopes : Scopes) : Option Value :=
  scopes.frames.findSome? (·.get? name)

/-- Adds a variable to the innermost frame. -/
def declare (name : String) (value : Value) (scopes : Scopes) : Except Fault Scopes :=
  match scopes.frames with
  | [] => .error .noFrame
  | frame :: outer =>
    if name ∈ frame.names then .error (.alreadyDefined name)
    else .ok ⟨frame.insert name value :: outer⟩

/-- Updates a variable in the first frame of a stack that has it. -/
def updateFirst? (name : String) (value : Value) : List Frame → Option (List Frame)
  | [] => none
  | frame :: outer =>
    if name ∈ frame.names then some (frame.update name value :: outer)
    else (updateFirst? name value outer).map (frame :: ·)

/-- Gives a variable another value in the innermost frame that has it. -/
def assign (name : String) (value : Value) (scopes : Scopes) : Except Fault Scopes :=
  match updateFirst? name value scopes.frames with
  | some frames => .ok ⟨frames⟩
  | none => .error (.undefinedVariable name)

@[simp] theorem depth_push (kind : FrameKind) (scopes : Scopes) :
    (scopes.push kind).depth = scopes.depth + 1 := rfl

@[simp] theorem depth_truncate (depth : Nat) (scopes : Scopes) :
    (scopes.truncate depth).depth = min depth scopes.depth := by
  simp only [truncate, Scopes.depth, List.length_drop]
  omega

@[simp] theorem get?_push (name : String) (kind : FrameKind) (scopes : Scopes) :
    (scopes.push kind).get? name = scopes.get? name := by
  simp only [get?, push, Frame.get?, List.findSome?_cons, List.lookup_nil]

theorem unwind?_eq_none_iff (scopes : Scopes) :
    scopes.unwind? = none ↔ ∀ frame ∈ scopes.frames, frame.kind = .block := by
  have hdrop : scopes.frames.dropWhile (·.kind = .block) = [] ↔
      ∀ frame ∈ scopes.frames, frame.kind = .block := by
    induction scopes.frames with
    | nil => simp
    | cons frame outer ih =>
      by_cases h : frame.kind = .block <;> simp [h, ih]
  rw [← hdrop]
  unfold unwind?
  split <;> simp_all

theorem truncate_push (kind : FrameKind) (scopes : Scopes) :
    (scopes.push kind).truncate scopes.depth = scopes := by
  have hlength : scopes.frames.length + 1 - scopes.frames.length = 1 := by omega
  simp [truncate, push, depth, hlength]

end Scopes

end Slang
