import ScriptEngine.Token.Lexer
import ScriptEngine.Program.Parser.Basic
import ScriptEngine.Scope
import ScriptEngine.Fault

/-!
# Diagnostics

Errors of every kind as lines of text, and whether any arose since the last reset. A line names
the place of the error; errors without a place are written as they are.
-/

namespace ScriptEngine

/-- The lines written so far, their number, and two marks that a reset clears. -/
structure Reporter where
  lines : Array String
  count : Nat
  hadError : Bool
  hadRuntimeError : Bool

namespace Reporter

/-- Nothing reported. -/
def empty : Reporter := ⟨#[], 0, false, false⟩

/-- Clears the marks and keeps the lines. -/
def reset (r : Reporter) : Reporter :=
  { r with hadError := false, hadRuntimeError := false }

/-- Writes a line. -/
def write (r : Reporter) (line : String) : Reporter :=
  { r with lines := r.lines.push line, count := r.count + 1 }

/-- Reports an error at a place on a line of the source. -/
def report (r : Reporter) (line : Nat) (place message : String) : Reporter :=
  write { r with hadError := true }
    ("[line " ++ toString line ++ "] Error " ++ place ++ ": " ++ message)

/-- Reports an error at a token. -/
def atToken (r : Reporter) (token : Token) (message : String) : Reporter :=
  r.report token.line ("at " ++ token.display) message

/-- Reports a lexical error. -/
def lexical (r : Reporter) (e : LexicalError) : Reporter :=
  r.report e.line "" e.message

/-- Reports a syntax error. -/
def syntactic (r : Reporter) (e : SyntaxError) : Reporter :=
  r.atToken e.token e.message

/-- Reports a scope error. -/
def scope (r : Reporter) (e : ScopeError) : Reporter :=
  r.atToken e.token e.fault.message

/-- Reports what stopped a running program, at a token if it has one. -/
def stopped (r : Reporter) (token? : Option Token) (message : String) : Reporter :=
  let r :=
    match token? with
    | some token => r.atToken token message
    | none => r.write message
  { r with hadRuntimeError := true }

end Reporter

end ScriptEngine
