import ScriptEngine.Heap
import ScriptEngine.Number
import ScriptEngine.Text.Quoted

/-!
# How values are shown

The text of a value as printed, the text of a value inside a container, where texts stand in
quotes, and the name of its type.
-/

namespace ScriptEngine

/-- The form of a value inside a container, given how values are printed. -/
def Value.reprWith (print : Value → String) : Value → String
  | .datum (.string s) => "'" ++ s ++ "'"
  | v => print v

namespace Heap

/-- The fields of an instance as they are shown. -/
def fieldsDisplay (print : Value → String) (i : Instance) : String :=
  let shown := (i.fields.filter (·.1 != "className")).map fun f => f.1 ++ ": " ++ print f.2
  if shown.isEmpty then "" else " " ++ ", ".intercalate shown

/-- The text of a value whose parts lie at most `depth` cells deep. -/
def displayUpTo (h : Heap) : Nat → Value → String
  | 0, _ => ""
  | depth + 1, v =>
    let print := h.displayUpTo depth
    match v with
    | .null => "null"
    | .cls c => c.display
    | .object id =>
      let i := h.object id
      "<" ++ i.cls.name ++ " instance>" ++ fieldsDisplay print i
    | .function f => f.display
    | .native f => "<" ++ f.name ++ " function>"
    | .builtinClass c => "<" ++ c.name ++ " class>"
    | .imported id =>
      match (h.importCell id).cache? with
      | some v => print v
      | none => "<imported " ++ (h.importCell id).name.lexeme ++ ">"
    | .datum (.number x) => Number.display x
    | .datum (.string s) => s
    | .datum (.boolean b) => if b then "true" else "false"
    | .datum (.array id) =>
      "[" ++ ", ".intercalate ((h.array id).items.toList.map (Value.reprWith print)) ++ "]"
    | .datum (.map id) =>
      let shown := (h.map id).entries.map fun e =>
        e.1.reprWith print ++ ": " ++ e.2.reprWith print
      "\x7b" ++ ", ".intercalate shown ++ "\x7d"
    | .datum (.error id) => print (h.error id).message
    | .datum .logger => "<Logger instance>"

/-- The text of a value as printed. -/
def display (h : Heap) (v : Value) : String :=
  h.displayUpTo h.depthBound v

/-- The text of a value inside a container. -/
def repr (h : Heap) (v : Value) : String :=
  v.reprWith h.display

/-- The name of a value's type. -/
def typeName (h : Heap) : Value → String
  | .null => "null"
  | .cls _ => "Class"
  | .builtinClass _ => "Class"
  | .object id => (h.object id).cls.name
  | .function _ => "Function"
  | .native _ => "Function"
  | .datum d => d.cls.name
  | .imported _ => "Import"

/-- The form of a value that names its type. -/
def describe (h : Heap) (v : Value) : String :=
  match v with
  | .datum (.string s) => "String(" ++ Text.quoted s ++ ")"
  | .datum (.number x) => "Number(" ++ Number.technical x ++ ")"
  | v => h.typeName v ++ "(" ++ h.display v ++ ")"

end Heap

end ScriptEngine
