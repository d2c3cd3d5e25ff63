import ScriptEngine.Proofs.Evaluator.Step
import ScriptEngine.Proofs.Heap.Image

/-!
# Frames up to lines and numbers

The image of frames under a relabeling has the same frames, binding the same names to the relabeled
values. Every way to look up a name finds the same frame in the image, and the value there is the
relabeled one; where it fails, it fails for the same reason at the relabeled token.
-/

namespace ScriptEngine

namespace Relabeling

variable (r : Relabeling)

/-- A frame with relabeled values. -/
def frame (f : Frame) : Frame := { f with bindings := f.bindings.map r.binding }

/-- Frames with relabeled values. -/
def frames (fs : Frames) : Frames := ⟨fs.frames.map r.frame⟩

/-- A runtime error at its token's new line. -/
def error : RuntimeError → RuntimeError
  | .located cause token => .located cause (r.token token)
  | .internal fault => .internal fault

/-- A relabeled error has the same message. -/
@[simp] theorem error_message (e : RuntimeError) : (r.error e).message = e.message := by
  cases e <;> rfl

/-- A relabeled error is at the relabeled token. -/
@[simp] theorem error_token? (e : RuntimeError) : (r.error e).token? = e.token?.map r.token := by
  cases e <;> rfl

/-- A result whose value or error is relabeled. -/
def except {α β : Type} (f : α → β) : Except RuntimeError α → Except RuntimeError β
  | .ok a => .ok (f a)
  | .error e => .error (r.error e)

/-- What halted a computation, with its token on its new line. -/
def halt : Halt → Halt
  | .failed e => .failed (r.error e)
  | .thrown id => .thrown id
  | .exhausted => .exhausted

variable (fs : Frames)

@[simp] theorem frames_size : (r.frames fs).frames.size = fs.frames.size := Array.size_map

/-- A frame of relabeled frames is the relabeled frame. -/
@[simp] theorem frames_frame (f : FrameId) : (r.frames fs).frame f = r.frame (fs.frame f) :=
  Heap.getD_map r.frame fs.frames f default default rfl

/-- A name is bound in a relabeled frame to the relabeled value. -/
@[simp] theorem frames_local? (f : FrameId) (name : String) :
    (r.frames fs).local? f name = (fs.local? f name).map r.value := by
  rw [Frames.local?, frames_frame]
  exact r.lookup_binding name (fs.frame f).bindings

/-- A relabeled frame binds the same names. -/
@[simp] theorem frames_binds (f : FrameId) (name : String) :
    (r.frames fs).binds f name = fs.binds f name := by
  rw [Frames.binds, frames_local?, Option.isSome_map]
  rfl

/-- Putting a binding commutes with relabeling. -/
theorem putBinding_map (name : String) (v : Value) (bindings : List (String × Value)) :
    putBinding name (r.value v) (bindings.map r.binding) =
      (putBinding name v bindings).map r.binding := by
  induction bindings with
  | nil => rfl
  | cons b bindings ih =>
    obtain ⟨n, w⟩ := b
    simp only [List.map_cons, putBinding, binding]
    split
    · rfl
    · exact congrArg (_ :: ·) ih

/-- Binding a relabeled value in relabeled frames is binding the value before. -/
theorem frames_put (f : FrameId) (name : String) (v : Value) :
    (r.frames fs).put f name (r.value v) = r.frames (fs.put f name v) := by
  simp only [Frames.put, frames]
  rw [Heap.map_modify]
  intro frame
  exact congrArg (Frame.mk · frame.enclosing?) (r.putBinding_map name v frame.bindings)

/-- Putting bindings one after the other commutes with relabeling. -/
theorem putBindings_map (bindings acc : List (String × Value)) :
    (bindings.map r.binding).foldl (fun bs b => putBinding b.1 b.2 bs) (acc.map r.binding) =
      (bindings.foldl (fun bs b => putBinding b.1 b.2 bs) acc).map r.binding := by
  induction bindings generalizing acc with
  | nil => rfl
  | cons b bindings ih =>
    rw [List.map_cons, List.foldl_cons, List.foldl_cons, ← ih, ← r.putBinding_map]
    rfl

/-! ## Looking up names -/

/-- A new name is refused in relabeled frames exactly if it is refused before, at the relabeled
token. -/
theorem frames_newTarget (f : FrameId) (name : Token) :
    (r.frames fs).newTarget f (r.token name) = r.except (fun g => g) (fs.newTarget f name) := by
  unfold Frames.newTarget
  rw [token_lexeme, frames_binds]
  split <;> rfl

/-- The frame that holds a name is found by names only, which relabeling keeps. -/
theorem frames_holder? (f : FrameId) (name : String) :
    (r.frames fs).holder? f name = fs.holder? f name := by
  induction f using Nat.strongRecOn with
  | ind f ih =>
    rw [Frames.holder?, Frames.holder?, frames_binds, frames_frame]
    split
    · rfl
    · rw [show (r.frame (fs.frame f)).enclosing? = (fs.frame f).enclosing? from rfl]
      cases (fs.frame f).enclosing? with
      | none => rfl
      | some outer =>
        dsimp only
        split
        · next hlt => exact ih outer hlt
        · rfl

/-- Reading a name in relabeled frames gives the relabeled value, or fails at the relabeled
token. -/
theorem frames_get (f : FrameId) (name : Token) :
    (r.frames fs).get f (r.token name) = r.except r.value (fs.get f name) := by
  unfold Frames.get
  rw [token_lexeme, frames_holder?]
  cases fs.holder? f name.lexeme with
  | none => rfl
  | some holder =>
    rw [Option.bind_some, Option.bind_some, frames_local?]
    cases fs.local? holder name.lexeme <;> rfl

/-- The frame that an assignment writes to is the same. -/
theorem frames_target (f : FrameId) (name : Token) :
    (r.frames fs).target f (r.token name) = r.except (fun g => g) (fs.target f name) := by
  unfold Frames.target
  rw [token_lexeme, frames_holder?]
  cases fs.holder? f name.lexeme <;> rfl

/-- Relabeling keeps which frame encloses which. -/
theorem frames_hops? (f : FrameId) (n : Nat) : (r.frames fs).hops? f n = fs.hops? f n := by
  induction n generalizing f with
  | zero => rfl
  | succ n ih =>
    rw [Frames.hops?, Frames.hops?, frames_frame]
    exact congrArg _ (funext fun outer => ih outer)

theorem frames_ancestor (f : FrameId) (distance : Nat) :
    (r.frames fs).ancestor f distance = fs.ancestor f distance := by
  rw [Frames.ancestor, Frames.ancestor, frames_hops?]

/-- A fault of the walk names no place, so relabeling keeps it. -/
theorem except_ancestor (f : FrameId) (distance : Nat) :
    r.except (fun g => g) (fs.ancestor f distance) = fs.ancestor f distance := by
  unfold Frames.ancestor
  cases fs.hops? f distance <;> rfl

/-- Reading at a distance gives the relabeled value. -/
theorem frames_getAt (f : FrameId) (distance : Nat) (name : String) :
    (r.frames fs).getAt f distance name = r.except r.value (fs.getAt f distance name) := by
  unfold Frames.getAt Frames.ancestor
  rw [frames_hops?]
  cases fs.hops? f distance with
  | none => rfl
  | some g =>
    dsimp only [bind, Except.bind]
    rw [frames_local?]
    cases fs.local? g name <;> rfl

/-- An assignment at a distance writes to the same frame. -/
theorem frames_targetAt (f : FrameId) (distance : Nat) (name : Token) :
    (r.frames fs).targetAt f distance (r.token name) =
      r.except (fun g => g) (fs.targetAt f distance name) := by
  unfold Frames.targetAt Frames.ancestor
  rw [frames_hops?]
  cases fs.hops? f distance with
  | none => rfl
  | some g =>
    show (if (r.frames fs).binds g name.lexeme then Except.ok g else _) =
      r.except (fun g => g) (if fs.binds g name.lexeme then Except.ok g else _)
    rw [frames_binds]
    split <;> rfl

theorem frames_same (fs : Frames) : same.frames fs = fs := by
  have hframe : same.frame = id := by
    funext f
    rw [frame, map_same binding_same]
    rfl
  rw [frames, hframe, Array.map_id]

theorem halt_same (halt : Halt) : same.halt halt = halt := by
  cases halt with
  | failed e => cases e <;> rfl
  | _ => rfl

end Relabeling

end ScriptEngine
