import ScriptEngine.Builtin
import ScriptEngine.Frame
import ScriptEngine.ModuleTree
import ScriptEngine.FileSystem
import ScriptEngine.Reporter

/-!
# The machine

Everything a running program can see or change, and the computations on it. A computation ends
with a value, or it is halted by a runtime error, by a `throw`, or because its bound on depth is
used up. It leaves a machine behind in every case.
-/

namespace ScriptEngine

/-- The state of the engine. `active?` is the module whose code is running, `current` the frame
that it runs in. -/
structure Machine where
  store : Store
  frames : Frames
  modules : ModuleTree
  active? : Option ModuleId
  current : FrameId
  reporter : Reporter
  files : FileSystem
  nextExpr : ExprId

/-- Why a computation ended early. Only what is `thrown` can be caught. -/
inductive Halt where
  | failed (error : RuntimeError)
  | thrown (error : ErrorId)
  | exhausted

/-- A computation on the machine. -/
abbrev Run := EStateM Halt Machine

namespace Machine

/-- The number of the frame that holds the built-ins. -/
def builtins : FrameId := 0

/-- The names that every program starts with. -/
def builtinBindings (clockId : Identity) : List (String × Value) :=
  (BuiltinClass.all.map fun c => (c.name, Value.builtinClass c)) ++
    [("clock", .native ⟨clockId, "clock", 1, .clock⟩)]

/-- A machine that has run nothing, over some files and with the clock set. -/
def start (files : FileSystem) (clock : Nat) : Machine :=
  let (clockId, heap) := Heap.empty.fresh
  { store := ⟨heap, #[], clock⟩
    frames := ⟨#[⟨builtinBindings clockId, none⟩]⟩
    modules := .empty
    active? := none
    current := builtins
    reporter := .empty
    files := files
    nextExpr := 0 }

/-- A new module, whose globals are enclosed by the built-ins. -/
def createModule (m : Machine) (parent? : Option ModuleId) (path : Path) : ModuleId × Machine :=
  let (globals, frames) := m.frames.create (some builtins)
  let (exports, frames) := frames.create none
  let (id, modules) := m.modules.create parent? path globals exports
  (id, { m with frames := frames, modules := modules })

end Machine

namespace Run

/-- Stops with a runtime error. -/
def fail {α : Type} (error : RuntimeError) : Run α :=
  throw (.failed error)

/-- Stops with a runtime error at a token. -/
def failAt {α : Type} (token : Token) (cause : Cause) : Run α :=
  fail (.located cause token)

/-- Goes on with a result, or stops with its error. -/
def ofExcept {α : Type} : Except RuntimeError α → Run α
  | .ok a => pure a
  | .error e => fail e

/-- Runs a computation of a built-in function. A refusal is reported at the token. -/
def action {α : Type} (token : Token) (a : Action α) : Run α := fun m =>
  let store := m.store
  let m := { m with store := ⟨.empty, #[], 0⟩ }
  match a store with
  | .ok value store => .ok value { m with store := store }
  | .error fault store =>
    .error (.failed (.located (.builtin fault) token)) { m with store := store }

/-- Reads the heap. -/
def heap : Run Heap := do
  pure (← get).store.heap

/-- Changes the heap. -/
def modifyHeap (f : Heap → Heap) : Run Unit :=
  modify fun m => { m with store := { m.store with heap := f m.store.heap } }

/-- Changes the heap and answers with something. -/
def onHeap {α : Type} (f : Heap → α × Heap) : Run α :=
  modifyGet fun m =>
    let (a, h) := f m.store.heap
    (a, { m with store := { m.store with heap := h } })

/-- Writes a line of output. -/
def print (line : String) : Run Unit :=
  modify fun m => { m with store := { m.store with output := m.store.output.push line } }

/-- Changes the reporter. -/
def report (f : Reporter → Reporter) : Run Unit :=
  modify fun m => { m with reporter := f m.reporter }

/-- The module whose code is running. -/
def activeModule : Run ModuleId := do
  match (← get).active? with
  | some id => pure id
  | none => fail (.internal .noActiveModule)

/-- Runs a computation in another frame and comes back to the present one, however it ends. -/
def inFrame {α : Type} (frame : FrameId) (body : Run α) : Run α := fun m =>
  let saved := m.current
  match body { m with current := frame } with
  | .ok a m => .ok a { m with current := saved }
  | .error e m => .error e { m with current := saved }

/-- Runs a computation as code of another module and comes back, however it ends. -/
def inModule {α : Type} (id : ModuleId) (body : Run α) : Run α := fun m =>
  let saved := m.active?
  match body { m with active? := some id } with
  | .ok a m => .ok a { m with active? := saved }
  | .error e m => .error e { m with active? := saved }

/-- A new frame enclosed by another one. -/
def newFrame (enclosing : FrameId) (bindings : List (String × Value)) : Run FrameId :=
  modifyGet fun m =>
    let (id, frames) := m.frames.createWith (some enclosing) bindings
    (id, { m with frames := frames })

/-- A new frame enclosed by the current one. -/
def childFrame (bindings : List (String × Value)) : Run FrameId := do
  newFrame (← get).current bindings

/-- Writes a name in the frame that `target` chooses. -/
def write (target : Frames → Except RuntimeError FrameId) (name : Token) (value : Value) :
    Run Unit := do
  let frame ← ofExcept (target (← get).frames)
  modify fun m => { m with frames := m.frames.put frame name.lexeme value }

/-- Binds a new name in the current frame. -/
def define (name : Token) (value : Value) : Run Unit := do
  let frame := (← get).current
  write (·.newTarget frame name) name value

/-- The globals of the running module. -/
def globals : Run FrameId := do
  let id ← activeModule
  pure ((← get).modules.node id).globals

/-- The distance recorded for an expression of the running module. -/
def distance? (id : ExprId) : Run (Option Nat) := do
  let home ← activeModule
  pure ((← get).modules.node home).distances[id]?

/-- The value of a name: at its distance if it has one, else among the globals. -/
def lookUp (id : ExprId) (name : Token) : Run Value := do
  match ← distance? id with
  | some distance => do
    let m ← get
    ofExcept (m.frames.getAt m.current distance name.lexeme)
  | none => do
    let frame ← globals
    ofExcept ((← get).frames.get frame name)

/-- Assigns to a name: at its distance if it has one, else among the globals. -/
def assign (id : ExprId) (name : Token) (value : Value) : Run Unit := do
  match ← distance? id with
  | some distance => do
    let current := (← get).current
    write (·.targetAt current distance name) name value
  | none => do
    let frame ← globals
    write (·.target frame name) name value

/-! ## Import references -/

/-- The value that an import reference names now, which is also remembered as last seen. -/
def resolveImport (id : ImportId) : Run Value := do
  let m ← get
  let cell := m.store.heap.importCell id
  match m.frames.local? (m.modules.node cell.home).globals cell.name.lexeme with
  | some value => do
    modifyHeap fun h => h.refreshImport id value
    pure value
  | none => failAt cell.name .exportNotFound

/-- Follows import references for a number of steps. -/
def derefUpTo : Nat → Value → Run Value
  | 0, .imported id => do failAt ((← heap).importCell id).name .circularImport
  | steps + 1, .imported id => do derefUpTo steps (← resolveImport id)
  | _, value => pure value

/-- The longest chain of import references that is followed. -/
def maxImportSteps : Nat := 64

/-- The value behind a chain of import references. -/
def deref (value : Value) : Run Value :=
  derefUpTo maxImportSteps value

/-- Runs a computation on the value behind an import reference, as code of the module that the
reference points to, and remembers the result as last seen. -/
def throughImport (id : ImportId) (use : Value → Run Value) : Run Value := do
  let target ← deref (.imported id)
  let home := ((← heap).importCell id).home
  let result ← inModule home (use target)
  modifyHeap fun h => h.refreshImport id result
  pure result

end Run

end ScriptEngine
