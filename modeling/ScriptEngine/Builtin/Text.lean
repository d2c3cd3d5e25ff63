import ScriptEngine.Store
import ScriptEngine.Text.Case
import ScriptEngine.Text.Replace

/-!
# The classes `String` and `Boolean`

The methods of texts and truth values, and how they are made from arguments.
-/

namespace ScriptEngine.Builtin

open ScriptEngine

namespace Text

/-- An argument that must be a text. -/
def textArgument (args : List Value) (index : Nat) : Action String :=
  Action.orRefuse (args[index]?.bind Value.string?) .expectedString

/-- The text made from the arguments of the class. -/
def construct (args : List Value) : Action Datum :=
  return .string (← textArgument args 0)

/-- The methods of texts. -/
def call (s : String) (method : String) (args : List Value) : Action Value :=
  match method with
  | "length" => pure (.number (Float.ofNat s.length))
  | "toUpperCase" => pure (.string (Text.toUpper s))
  | "toLowerCase" => pure (.string (Text.toLower s))
  | "concat" | "__add__" => return .string (s ++ (← textArgument args 0))
  | "replace" => do
    let search ← textArgument args 0
    let replacement ← textArgument args 1
    let replaced := Text.replaceFirst search.toList replacement.toList s.toList
    pure (.string (String.ofList replaced))
  | method => throw (.undefinedMethod method)

end Text

namespace Boolean

/-- The truth value made from the arguments of the class: a number is true unless it is zero, a
text unless it is empty or says `false` or `0`. -/
def construct (args : List Value) : Action Datum :=
  match args.head? with
  | none => throw .expectedBoolean
  | some .null => pure (.boolean false)
  | some (.datum (.boolean b)) => pure (.boolean b)
  | some (.datum (.number x)) => pure (.boolean (x != 0))
  | some (.datum (.string s)) => pure (.boolean (s ∉ ["false", "0", ""]))
  | some _ => throw .expectedScalar

/-- The methods of truth values. -/
def call (b : Bool) (method : String) : Action Value :=
  match method with
  | "__not__" => pure (.boolean !b)
  | method => throw (.undefinedMethod method)

end Boolean

end ScriptEngine.Builtin
