import ScriptEngine.Path

/-!
# Files

A snapshot of the files a program can see: directories, and files that hold text or bytes that
are no text. A path is followed name by name; everything but the last name must be a directory,
and so must the last if anything follows it, even an empty name.
-/

namespace ScriptEngine

/-- What stands at a place in the file system. -/
inductive Entry where
  | directory
  | file (text? : Option String)

/-- A file with the given bytes. It holds text if they are valid UTF-8. -/
def Entry.ofBytes (bytes : ByteArray) : Entry :=
  .file (String.fromUTF8? bytes)

/-- Why a file cannot be used. -/
inductive FileFault where
  | notFound
  | notADirectory
  | isADirectory
  | notText
  | nulInName
  | nameTooLong
deriving DecidableEq

/-- The text of a file error. -/
def FileFault.message : FileFault → String
  | notFound => "No such file or directory (os error 2)"
  | notADirectory => "Not a directory (os error 20)"
  | isADirectory => "Is a directory (os error 21)"
  | notText => "stream did not contain valid UTF-8"
  | nulInName => "file name contained an unexpected NUL byte"
  | nameTooLong => "File name too long (os error 36)"

/-- A place in the file system: the names on the way from the root. -/
abbrev Place := List String

/-- The files, each under its place, and the working directory. The root and every directory on
the way to an entry or to the working directory exist without being listed. -/
structure FileSystem where
  entries : List (Place × Entry)
  workingDirectory : Place

namespace FileSystem

/-- Whether `place` lies on the way to `other` or is it. -/
def leadsTo (place other : Place) : Bool :=
  place.isPrefixOf other

/-- What stands at a place. -/
def entry? (fs : FileSystem) (place : Place) : Option Entry :=
  match fs.entries.lookup place with
  | some e => some e
  | none =>
    if leadsTo place fs.workingDirectory || fs.entries.any (fun e => leadsTo place e.1) then
      some .directory
    else none

/-- The place of the child `name` of a directory. -/
def child (fs : FileSystem) (place : Place) (name : String) : Except FileFault Place :=
  if name.utf8ByteSize > 255 then .error .nameTooLong
  else
    match fs.entry? (place ++ [name]) with
    | some _ => .ok (place ++ [name])
    | none => .error .notFound

/-- The place reached by one name from a place, which must be a directory. -/
def step (fs : FileSystem) (place : Place) (segment : List Char) : Except FileFault Place :=
  match fs.entry? place with
  | some .directory =>
    if segment = [] ∨ segment = ['.'] then .ok place
    else if segment = ['.', '.'] then .ok place.dropLast
    else fs.child place (String.ofList segment)
  | some (.file _) => .error .notADirectory
  | none => .error .notFound

/-- The place reached by following names from a place. -/
def follow (fs : FileSystem) (place : Place) : List (List Char) → Except FileFault Place
  | [] => .ok place
  | s :: rest =>
    match fs.step place s with
    | .ok place => fs.follow place rest
    | .error e => .error e

/-- The place that a path leads to. -/
def locate (fs : FileSystem) (p : Path) : Except FileFault Place :=
  if p.text.isEmpty then .error .notFound
  else if p.text.toList.any (·.toNat = 0) then .error .nulInName
  else if p.text.utf8ByteSize ≥ 4096 then .error .nameTooLong
  else fs.follow (if p.isAbsolute then [] else fs.workingDirectory) (Path.segments p.text.toList)

/-- The one spelling of the path to a place. -/
def pathOf (place : Place) : Path :=
  ⟨"/" ++ "/".intercalate place⟩

/-- The one spelling of a path that leads somewhere. -/
def canonicalize (fs : FileSystem) (p : Path) : Except FileFault Path :=
  (fs.locate p).map pathOf

/-- Whether a path leads to a file. -/
def isFile (fs : FileSystem) (p : Path) : Bool :=
  match (fs.locate p).toOption.bind fs.entry? with
  | some (.file _) => true
  | _ => false

/-- The text of the file that a path leads to. -/
def read (fs : FileSystem) (p : Path) : Except FileFault String :=
  match fs.locate p with
  | .error e => .error e
  | .ok place =>
    match fs.entry? place with
    | some (.file (some text)) => .ok text
    | some (.file none) => .error .notText
    | some .directory => .error .isADirectory
    | none => .error .notFound

/-- The names in a path that has no dots in it. -/
def placeOf (path : String) : Place :=
  ((Path.segments path.toList).filter (· ≠ [])).map String.ofList

/-- The files given by their paths below a directory, which is also the working directory. -/
def ofFiles (directory : Place) (files : List (String × Entry)) : FileSystem :=
  { entries := files.map fun f => (directory ++ placeOf f.1, f.2)
    workingDirectory := directory }

/-- The working directory as a path. -/
def workingPath (fs : FileSystem) : Path :=
  pathOf fs.workingDirectory

end FileSystem

end ScriptEngine
