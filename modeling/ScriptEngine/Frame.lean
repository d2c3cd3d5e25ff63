import ScriptEngine.Fault
import ScriptEngine.Value

/-!
# Frames

A frame binds names to values and may be enclosed by another frame. Frames are numbered as they
are made, so an enclosing frame always has a smaller number. A name is looked up in the nearest
frame that binds it; a name with a known distance is looked up exactly that many frames out.
-/

namespace ScriptEngine

/-- A frame: each name at most once, and the enclosing frame. -/
structure Frame where
  bindings : List (String × Value)
  enclosing? : Option FrameId

instance : Inhabited Frame := ⟨⟨[], none⟩⟩

/-- Replaces the value of a bound name, or adds a binding. -/
def putBinding (name : String) (value : Value) : List (String × Value) → List (String × Value)
  | [] => [(name, value)]
  | (n, v) :: rest => if n = name then (n, value) :: rest else (n, v) :: putBinding name value rest

/-- All frames, by number. -/
structure Frames where
  frames : Array Frame

namespace Frames

/-- A single frame without bindings. -/
def single : Frames := ⟨#[default]⟩

/-- The frame with a given number. -/
def frame (fs : Frames) (id : FrameId) : Frame := fs.frames.getD id default

/-- A new frame without bindings. -/
def create (fs : Frames) (enclosing? : Option FrameId) : FrameId × Frames :=
  (fs.frames.size, ⟨fs.frames.push ⟨[], enclosing?⟩⟩)

/-- A new frame with the given bindings. -/
def createWith (fs : Frames) (enclosing? : Option FrameId) (bindings : List (String × Value)) :
    FrameId × Frames :=
  (fs.frames.size,
    ⟨fs.frames.push ⟨bindings.foldl (fun bs b => putBinding b.1 b.2 bs) [], enclosing?⟩⟩)

/-- The value of a name in one frame alone. -/
def local? (fs : Frames) (id : FrameId) (name : String) : Option Value :=
  (fs.frame id).bindings.lookup name

/-- Whether one frame alone binds a name. -/
def binds (fs : Frames) (id : FrameId) (name : String) : Bool :=
  (fs.local? id name).isSome

/-- Binds a name in one frame, whether it is bound there or not. -/
def put (fs : Frames) (id : FrameId) (name : String) (value : Value) : Frames :=
  ⟨fs.frames.modify id fun f => { f with bindings := putBinding name value f.bindings }⟩

/-- The frame that a new binding goes to: the given one, unless it binds the name already. -/
def newTarget (fs : Frames) (id : FrameId) (name : Token) : Except RuntimeError FrameId :=
  if fs.binds id name.lexeme then .error (.located .duplicateBinding name) else .ok id

/-- Binds a new name in one frame. -/
def define (fs : Frames) (id : FrameId) (name : Token) (value : Value) :
    Except RuntimeError Frames :=
  (fs.newTarget id name).map fun target => fs.put target name.lexeme value

/-- The nearest frame from `id` outward that binds a name. -/
def holder? (fs : Frames) (id : FrameId) (name : String) : Option FrameId :=
  if fs.binds id name then some id
  else
    match (fs.frame id).enclosing? with
    | some outer => if outer < id then fs.holder? outer name else none
    | none => none
termination_by id

/-- The value of a name in the nearest frame that binds it. -/
def get (fs : Frames) (id : FrameId) (name : Token) : Except RuntimeError Value :=
  match (fs.holder? id name.lexeme).bind fun holder => fs.local? holder name.lexeme with
  | some value => .ok value
  | none => .error (.located .undefinedVariable name)

/-- The frame that an assignment to a name writes to: the nearest one that binds it. -/
def target (fs : Frames) (id : FrameId) (name : Token) : Except RuntimeError FrameId :=
  match fs.holder? id name.lexeme with
  | some holder => .ok holder
  | none => .error (.located .undefinedVariable name)

/-- Assigns to a name in the nearest frame that binds it. -/
def assign (fs : Frames) (id : FrameId) (name : Token) (value : Value) :
    Except RuntimeError Frames :=
  (fs.target id name).map fun target => fs.put target name.lexeme value

/-- The frame a number of hops out. -/
def hops? (fs : Frames) (id : FrameId) : Nat → Option FrameId
  | 0 => some id
  | n + 1 => (fs.frame id).enclosing?.bind fun outer => fs.hops? outer n

/-- The frame at a distance. -/
def ancestor (fs : Frames) (id : FrameId) (distance : Nat) : Except RuntimeError FrameId :=
  match fs.hops? id distance with
  | some frame => .ok frame
  | none => .error (.internal (.noEnclosingFrame distance))

/-- The value of a name at a distance. -/
def getAt (fs : Frames) (id : FrameId) (distance : Nat) (name : String) :
    Except RuntimeError Value := do
  let frame ← fs.ancestor id distance
  match fs.local? frame name with
  | some value => .ok value
  | none => .error (.internal (.unboundLocal name distance))

/-- The frame that an assignment at a distance writes to. The name must be bound there. -/
def targetAt (fs : Frames) (id : FrameId) (distance : Nat) (name : Token) :
    Except RuntimeError FrameId := do
  let frame ← fs.ancestor id distance
  if fs.binds frame name.lexeme then .ok frame else .error (.located .undefinedVariable name)

/-- Assigns to a name at a distance. -/
def assignAt (fs : Frames) (id : FrameId) (distance : Nat) (name : Token) (value : Value) :
    Except RuntimeError Frames :=
  (fs.targetAt id distance name).map fun target => fs.put target name.lexeme value

end Frames

end ScriptEngine
