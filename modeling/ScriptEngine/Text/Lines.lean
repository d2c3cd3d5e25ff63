/-!
# Lines of text

Text cut into lines. A line is ended by a newline, with or without a carriage return before it;
what follows the last newline is a line of its own unless it is empty.
-/

namespace ScriptEngine.Text

/-- A line without the carriage return at its end, read from right to left. -/
def dropReturn : List Char → List Char
  | '\r' :: rest => rest
  | line => line

/-- The lines of a text after the part of its first line that is already read, which is given
from right to left. -/
def linesAfter (line : List Char) : List Char → List String
  | [] => if line.isEmpty then [] else [String.ofList line.reverse]
  | '\n' :: rest => String.ofList (dropReturn line).reverse :: linesAfter [] rest
  | c :: rest => linesAfter (c :: line) rest

/-- The lines of a text. -/
def lines (s : String) : List String :=
  linesAfter [] s.toList

/-- Lines as text, each ended by a newline. -/
def unlines (lines : Array String) : String :=
  lines.foldl (fun s line => s ++ line ++ "\n") ""

end ScriptEngine.Text
