import ScriptEngine.Evaluator

/-!
# Sessions

A session runs sources one after the other in one machine. Sources that come from no file run in
the same root module, so definitions persist from one step to the next; running a file makes it
the root module and its directory the directory of the session.
-/

namespace ScriptEngine

/-- How a step ended. -/
inductive Status where
  | ok
  | compileFailed
  | runtimeFailed
  | fileFailed (fault : FileFault)
  /-- The bound on the depth was used up. -/
  | unfinished
deriving DecidableEq

/-- A machine, the path of the root module and the directory of the session. -/
structure Session where
  machine : Machine
  root : Path
  directory : Path

namespace Session

/-- The file name assumed for a source that comes from no file. -/
def defaultRoot : Path := ⟨"index.sss"⟩

/-- A new session over some files, with the clock set. -/
def start (files : FileSystem) (clock : Nat) : Session :=
  { machine := Machine.start files clock
    root := files.workingPath.join defaultRoot
    directory := files.workingPath }

/-- Compiles and runs a source as the root module at a path. The answer tells whether it could
be compiled. -/
def runSource (depth : Nat) (root : Path) (source : String) : Run Bool := do
  Run.report Reporter.reset
  match ← Evaluator.compile? source with
  | none => pure false
  | some statements => do
    (evaluatorUpTo depth).runRoot root statements
    pure true

/-- The status that the marks of the reporter stand for. -/
def reportedStatus (r : Reporter) : Status :=
  if r.hadRuntimeError then .runtimeFailed
  else if r.hadError then .compileFailed
  else .ok

/-- Runs a source in the root module, with a bound on the depth. -/
def runUpTo (depth : Nat) (s : Session) (source : String) : Status × Session :=
  match runSource depth s.root source s.machine with
  | .ok true m => (reportedStatus m.reporter, { s with machine := m })
  | .ok false m => (.compileFailed, { s with machine := m })
  | .error _ m => (.unfinished, { s with machine := m })

/-- Runs a file, with a bound on the depth. It becomes the root module and its directory that of
the session, unless it cannot be read. -/
def runFileUpTo (depth : Nat) (s : Session) (path : Path) : Status × Session :=
  match s.machine.files.canonicalize path with
  | .error fault => (.fileFailed fault, s)
  | .ok path =>
    match s.machine.files.read path with
    | .error fault => (.fileFailed fault, s)
    | .ok source =>
      runUpTo depth { s with root := path, directory := path.parent?.getD s.directory } source

/-- The bound on the depth that sessions run with. No program that ends in practice reaches
it. -/
def depthLimit : Nat := Nat.pow 10 15

/-- Runs a source in the root module. -/
def run (s : Session) (source : String) : Status × Session :=
  s.runUpTo depthLimit source

/-- Runs a file. -/
def runFile (s : Session) (path : Path) : Status × Session :=
  s.runFileUpTo depthLimit path

end Session

end ScriptEngine
