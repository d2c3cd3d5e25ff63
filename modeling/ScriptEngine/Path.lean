/-!
# Paths

Paths as text and as components. Two paths are the same when their components are: doubled and
trailing slashes and inner dots make no difference, but a step up does.
-/

namespace ScriptEngine

/-- A part of a path. -/
inductive Component where
  | root
  | current
  | parent
  | name (text : String)
deriving DecidableEq

/-- A path as it is written. -/
structure Path where
  text : String

namespace Path

instance : Inhabited Path := ⟨⟨""⟩⟩

/-- The pieces of a text between slashes. There is always at least one. -/
def segments : List Char → List (List Char)
  | [] => [[]]
  | c :: rest =>
    if c = '/' then [] :: segments rest
    else
      match segments rest with
      | [] => [[c]]
      | s :: more => (c :: s) :: more

/-- Whether a path begins at the root. -/
def isAbsolute (p : Path) : Bool :=
  p.text.toList.head? = some '/'

/-- The component that a piece of a path stands for. -/
def componentOf (segment : List Char) : Component :=
  if segment = ['.'] then .current
  else if segment = ['.', '.'] then .parent
  else .name (String.ofList segment)

/-- The components of a path. A dot counts only at the very start of a relative path. -/
def components (p : Path) : List Component :=
  let parts := ((segments p.text.toList).filter (· ≠ [])).map componentOf
  if p.isAbsolute then .root :: parts.filter (· ≠ .current)
  else
    match parts with
    | first :: rest => first :: rest.filter (· ≠ .current)
    | [] => []

instance : BEq Path := ⟨fun a b => a.components == b.components⟩

/-- The text of a component. -/
def componentText : Component → String
  | .root => ""
  | .current => "."
  | .parent => ".."
  | .name text => text

/-- The path with the given components, written in the shortest way. -/
def ofComponents (cs : List Component) : Path :=
  if cs = [.root] then ⟨"/"⟩ else ⟨"/".intercalate (cs.map componentText)⟩

/-- The path without its last component. The root and the empty path have none. -/
def parent? (p : Path) : Option Path :=
  match p.components with
  | [] => none
  | [.root] => none
  | cs => some (ofComponents cs.dropLast)

/-- A path followed from another one. An absolute path stands by itself. -/
def join (base p : Path) : Path :=
  if p.isAbsolute || base.text.isEmpty then p
  else if base.text.toList.getLast? = some '/' then ⟨base.text ++ p.text⟩
  else ⟨base.text ++ "/" ++ p.text⟩

/-- What follows the last dot of a file name, unless the dot is its first character. -/
def extensionOf? (name : List Char) : Option (List Char) :=
  let tail := (name.reverse.takeWhile (· ≠ '.')).reverse
  if tail.length + 1 < name.length then some tail else none

/-- The extension of the last component. -/
def extension? (p : Path) : Option String :=
  match p.components.getLast? with
  | some (.name text) => (extensionOf? text.toList).map String.ofList
  | _ => none

end Path

end ScriptEngine
