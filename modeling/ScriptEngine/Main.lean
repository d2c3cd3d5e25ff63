import ScriptEngine.Console
import Std.Time.DateTime.Timestamp

/-!
# The program at work

The outer layer: collects the files that a source can import, runs it, writes what it printed and
reported, and carries a dialogue on with the person at the terminal.
-/

namespace ScriptEngine.Terminal

open ScriptEngine

/-- What stands at a place on disk. -/
def entryAt? (place : Place) : IO (Option Entry) := do
  try
    let path ← IO.FS.realPath (FileSystem.pathOf place).text
    if ← path.isDir then pure (some .directory)
    else pure (some (.ofBytes (← IO.FS.readBinFile path)))
  catch _ => pure none

/-- Adds what stands on the way along some names, as far as there is anything. -/
def addAlong (files : FileSystem) (place : Place) : List (List Char) → IO FileSystem
  | [] => pure files
  | segment :: rest => do
    if segment = [] ∨ segment = ['.'] then addAlong files place rest
    else if segment = ['.', '.'] then addAlong files place.dropLast rest
    else
      let place := place ++ [String.ofList segment]
      match ← entryAt? place with
      | none => pure files
      | some entry => addAlong { files with entries := (place, entry) :: files.entries } place rest

/-- Adds what a path leads to. -/
def addPath (files : FileSystem) (path : Path) : IO FileSystem :=
  addAlong files (if path.isAbsolute then [] else files.workingDirectory)
    (Path.segments path.text.toList)

/-- Adds the files that sources import, each source with the path of its module, and the files
that those import. -/
partial def addImports (files : FileSystem) (seen : List Path) :
    List (Path × String) → IO FileSystem
  | [] => pure files
  | (importer, source) :: rest => do
    let mut files := files
    let mut seen := seen
    let mut found := []
    for name in Console.importedFrom source do
      let path := Evaluator.importPath importer name
      files ← addPath files path
      match files.canonicalize path with
      | .error _ => pure ()
      | .ok path =>
        if !seen.contains path then
          seen := path :: seen
          match files.read path with
          | .ok text => found := (path, text) :: found
          | .error _ => pure ()
    addImports files seen (found ++ rest)

/-- The files with those that a source of the session can import. -/
def withImports (s : Session) (source : String) : IO Session := do
  let files ← addImports s.machine.files [] [(s.root, source)]
  pure { s with machine := { s.machine with files := files } }

/-- The files with one that is to be run and those that it can import. -/
def withFile (s : Session) (path : Path) : IO Session := do
  let files ← addPath s.machine.files path
  let files ←
    match files.canonicalize path with
    | .error _ => pure files
    | .ok path =>
      match files.read path with
      | .ok text => addImports files [path] [(path, text)]
      | .error _ => pure files
  pure { s with machine := { s.machine with files := files } }

/-- Writes an outcome to the two outputs. -/
def write (output diagnostics : String) : IO Unit := do
  (← IO.getStdout).putStr output
  (← IO.getStdout).flush
  (← IO.getStderr).putStr diagnostics
  (← IO.getStderr).flush

/-- Prompts for lines and enters them until one ends the dialogue or the input ends. -/
partial def converse (d : Dialogue) : IO Dialogue := do
  write Dialogue.prompt ""
  let line ← (← IO.getStdin).getLine
  if line.isEmpty then
    write "\n" ""
    return d
  let session ← withImports d.session line
  let printed := session.machine.store.output.size
  let reported := session.machine.reporter.lines.size
  match ({ d with session := session } : Dialogue).enter line with
  | none => return d
  | some next =>
    write (next.session.printedAfter printed) (next.session.reportedAfter reported)
    converse next

/-- The file that keeps the history of dialogues. -/
def historyFile : IO String := do
  match ← IO.getEnv "HOME" with
  | some home => pure ((Path.mk home).join ⟨".triples_history"⟩).text
  | none => pure ".triples_history"

/-- Reads the saved history, if there is one. -/
def savedHistory? (file : String) : IO (Option String) := do
  try
    pure (some (← IO.FS.readFile file))
  catch _ => pure none

/-- Carries on a dialogue and saves its history. -/
def runDialogue (s : Session) : IO Unit := do
  let file ← historyFile
  let d := Dialogue.start s (← savedHistory? file)
  write Dialogue.greeting ""
  let d ← converse d
  try
    IO.FS.writeFile file d.savedHistory
  catch _ => pure ()

/-- Writes an outcome and gives its exit code. -/
def conclude (outcome : Outcome) : IO UInt32 := do
  write outcome.output outcome.diagnostics
  pure outcome.exitCode.toUInt32

/-- Runs the program on its arguments. -/
def run (arguments : List String) : IO UInt32 := do
  let directory := FileSystem.placeOf (← IO.currentDir).toString
  let now ← Std.Time.Timestamp.now
  let session := Session.start ⟨[], directory⟩ now.toNanosecondsSinceUnixEpoch.val.toNat
  match CommandLine.read arguments with
  | .refused fault => conclude (Console.refuse fault)
  | .help => conclude Console.showHelp
  | .run (.file path) =>
    let (status, session) := (← withFile session ⟨path⟩).runFile ⟨path⟩
    conclude (Console.finish status session)
  | .run (.snippet code) =>
    let (status, session) := (← withImports session code).run code
    conclude (Console.finish status session)
  | .run .dialogue =>
    try
      runDialogue session
      pure 0
    catch _ => conclude Console.inputFailed

end ScriptEngine.Terminal

/-- Runs the program on its arguments. -/
def main (arguments : List String) : IO UInt32 :=
  ScriptEngine.Terminal.run arguments
