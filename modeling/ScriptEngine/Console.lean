import ScriptEngine.CommandLine
import ScriptEngine.Session
import ScriptEngine.Text.Lines

/-!
# The console program

The program as a function: from its arguments, its input, the files and the saved history to what
it writes and the code it exits with. A file or a snippet runs once; a dialogue runs the lines of
the input one after the other in one session and keeps a history of them.
-/

namespace ScriptEngine

/-- How the program ends: its exit code, what it wrote to its two outputs, and the history to be
saved, if it keeps one. -/
structure Outcome where
  exitCode : Nat
  output : String
  diagnostics : String
  history? : Option String
deriving DecidableEq

namespace Session

/-- What the session has printed, without a number of lines at the start. -/
def printedAfter (s : Session) (count : Nat) : String :=
  let lines := s.machine.store.output
  Text.unlines (lines.extract count lines.size)

/-- What the session has reported, without a number of lines at the start. -/
def reportedAfter (s : Session) (count : Nat) : String :=
  let lines := s.machine.reporter.lines
  Text.unlines (lines.extract count lines.size)

end Session

/-- A session that is fed line by line, and the lines entered in it and before it. -/
structure Dialogue where
  session : Session
  history : Array String

namespace Dialogue

/-- What a dialogue begins with. -/
def greeting : String := "TripleS REPL\nType exit to quit.\n\n"

/-- What invites a line. -/
def prompt : String := "> "

/-- The line that ends a dialogue. -/
def farewell : String := "exit"

/-- The lines of a saved history that are not blank. -/
def savedLines (saved : String) : Array String :=
  ((Text.lines saved).filter fun line => !(Text.trim line).isEmpty).toArray

/-- A new dialogue that goes on from a saved history, if there is one. -/
def start (session : Session) (saved? : Option String) : Dialogue :=
  ⟨session, (saved?.map savedLines).getD #[]⟩

/-- The dialogue after a line is entered; none if the line ends it. Blank lines are passed
over. -/
def enter (d : Dialogue) (line : String) : Option Dialogue :=
  let line := Text.trim line
  if line.isEmpty then some d
  else if line = farewell then none
  else some ⟨(d.session.run line).2, d.history.push line⟩

/-- The history as it is saved. -/
def savedHistory (d : Dialogue) : String :=
  "\n".intercalate d.history.toList

/-- Enters lines until one ends the dialogue or there are no more. Gives the dialogue then, and
what was written after `written`. -/
def converse (d : Dialogue) (written : String) : List String → Dialogue × String
  | [] => (d, written ++ prompt ++ "\n")
  | line :: rest =>
    let count := d.session.machine.store.output.size
    match d.enter line with
    | none => (d, written ++ prompt)
    | some next => next.converse (written ++ prompt ++ next.session.printedAfter count) rest

end Dialogue

namespace Console

/-- The exit code for arguments that cannot be used. -/
def usageCode : Nat := 64

/-- The exit code that a status stands for. -/
def exitCode : Status → Nat
  | .ok => 0
  | .compileFailed => 65
  | .fileFailed _ => 66
  | .runtimeFailed => 70
  | .unfinished => 70

/-- What is written about a status beyond what the session reports itself. -/
def remark : Status → String
  | .fileFailed fault => "Error: IO error: " ++ fault.message ++ "\n"
  | _ => ""

/-- The usage text as it is written. -/
def usageText : String :=
  Text.unlines CommandLine.usage.toArray

/-- The outcome for arguments that cannot be used. -/
def refuse (fault : ArgumentFault) : Outcome :=
  ⟨usageCode, "", fault.message ++ "\n" ++ usageText, none⟩

/-- The outcome of a request for help. -/
def showHelp : Outcome :=
  ⟨0, "", usageText, none⟩

/-- The outcome of a dialogue whose input cannot be read. -/
def inputFailed : Outcome :=
  ⟨74, "", "Error: " ++ FileFault.notText.message ++ "\n", none⟩

/-- The outcome of a session that has run its one step. -/
def finish (status : Status) (s : Session) : Outcome :=
  ⟨exitCode status, s.printedAfter 0, s.reportedAfter 0 ++ remark status, none⟩

/-- The outcome of a dialogue over an input. -/
def converse (s : Session) (input : String) (saved? : Option String) : Outcome :=
  let (d, written) := (Dialogue.start s saved?).converse Dialogue.greeting (Text.lines input)
  ⟨0, written, d.session.reportedAfter 0, some d.savedHistory⟩

/-- The paths that follow `from` in a list of tokens. -/
def pathsAfterFrom : List Token → List String
  | first :: second :: rest =>
    if first.kind = .fromWord ∧ second.kind = .string then
      second.stringValue :: pathsAfterFrom rest
    else pathsAfterFrom (second :: rest)
  | _ => []

/-- The paths that a source imports from, as they are written in it. -/
def importedFrom (source : String) : List String :=
  match Token.scan source with
  | .ok tokens => pathsAfterFrom tokens
  | .error _ => []

/-- The program: arguments, files, time, input and saved history to outcome. -/
def run (arguments : List String) (files : FileSystem) (clock : Nat) (input : String)
    (saved? : Option String) : Outcome :=
  let session := Session.start files clock
  match CommandLine.read arguments with
  | .refused fault => refuse fault
  | .help => showHelp
  | .run (.file path) =>
    let (status, session) := session.runFile ⟨path⟩
    finish status session
  | .run (.snippet code) =>
    let (status, session) := session.run code
    finish status session
  | .run .dialogue => converse session input saved?

end Console

end ScriptEngine
