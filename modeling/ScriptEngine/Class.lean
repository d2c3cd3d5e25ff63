import ScriptEngine.Value

/-!
# Classes and instances

Looking up methods in a class and its superclasses, and the instances of user classes: their
fields in order of creation, a slot of initialization progress for the class and each direct
superclass, and one backing instance for every built-in class among the ancestors.
-/

namespace ScriptEngine

/-- Where a method was found. -/
inductive Method where
  | user (f : Function)
  /-- Served by the backing instance of this built-in superclass. -/
  | builtin (c : BuiltinClass)

namespace Class

/-- The number that tells classes apart. -/
def id : Class → Identity
  | mk id _ _ _ => id

/-- The name of a class. -/
def name : Class → String
  | mk _ name _ _ => name

/-- The direct superclasses in order. -/
def superclasses : Class → List Superclass
  | mk _ _ superclasses _ => superclasses

/-- The methods that the class itself declares. -/
def methods : Class → List (String × Function)
  | mk _ _ _ methods => methods

/-- A method that the class itself declares. -/
def ownMethod? (c : Class) (method : String) : Option Function :=
  c.methods.lookup method

/-- The initializer that the class itself declares. -/
def ownInit? (c : Class) : Option Function :=
  c.ownMethod? "init"

/-- The number of parameters of the class's own initializer, or zero. -/
def arity (c : Class) : Nat :=
  (c.ownInit?.map (·.arity)).getD 0

/-- How a class is shown. -/
def display (c : Class) : String :=
  "<" ++ c.name ++ " class>"

mutual

/-- The method that an instance answers with: the class's own, else the first found in its
superclasses, each searched to its top before the next. -/
def findMethod? (method : String) : Class → Option Method
  | mk _ _ superclasses methods =>
    match methods.lookup method with
    | some f => some (.user f)
    | none => findInherited? method superclasses

/-- The first method found in a list of superclasses. -/
def findInherited? (method : String) : List Superclass → Option Method
  | [] => none
  | .user c :: rest =>
    match findMethod? method c with
    | some m => some m
    | none => findInherited? method rest
  | .builtin b :: rest =>
    if b.hasMethod method then some (.builtin b) else findInherited? method rest

end

mutual

/-- The built-in classes above a class that are not yet in `found`, appended to it in the order
in which they are met. -/
def addBuiltins (found : List BuiltinClass) : Class → List BuiltinClass
  | mk _ _ superclasses _ => addInherited found superclasses

/-- The same for a list of superclasses. -/
def addInherited (found : List BuiltinClass) : List Superclass → List BuiltinClass
  | [] => found
  | .user c :: rest => addInherited (addBuiltins found c) rest
  | .builtin b :: rest => addInherited (if b ∈ found then found else found ++ [b]) rest

end

/-- Every built-in class above a class, each once, in the order in which they are met. -/
def builtinAncestors (c : Class) : List BuiltinClass :=
  c.addBuiltins []

/-- Whether a built-in class is above a class. -/
def inheritsFrom (c : Class) (b : BuiltinClass) : Bool :=
  b ∈ c.builtinAncestors

end Class

namespace Superclass

/-- The name of a superclass. -/
def name : Superclass → String
  | user c => c.name
  | builtin b => b.name

/-- Whether a superclass declares an initializer. Built-in classes always do. -/
def hasOwnInit : Superclass → Bool
  | user c => c.ownInit?.isSome
  | builtin _ => true

/-- A superclass as a value. -/
def toValue : Superclass → Value
  | user c => .cls c
  | builtin b => .builtinClass b

end Superclass

/-- How far the initialization of one class in an instance has come. -/
inductive InitStatus where
  | notInitialized | initializing | initialized
deriving DecidableEq, Inhabited

/-- The progress of one class. -/
structure StatusSlot where
  className : String
  status : InitStatus
deriving DecidableEq

/-- Replaces the value of a key in place, or appends a new entry. -/
def putField (name : String) (value : Value) : List (String × Value) → List (String × Value)
  | [] => [(name, value)]
  | (n, v) :: rest => if n = name then (n, value) :: rest else (n, v) :: putField name value rest

/-- An instance of a user class. -/
structure Instance where
  cls : Class
  fields : List (String × Value)
  statuses : List StatusSlot
  natives : List (BuiltinClass × Datum)

namespace Instance

/-- The slots of a new instance: the class itself counts as initialized, its superclasses do
not. -/
def initialStatuses (c : Class) : List StatusSlot :=
  ⟨c.name, .initialized⟩ :: c.superclasses.map fun s => ⟨s.name, .notInitialized⟩

/-- A new instance with the given backing instances. -/
def create (c : Class) (natives : List (BuiltinClass × Datum)) : Instance :=
  { cls := c
    fields := [("className", .string c.name)]
    statuses := initialStatuses c
    natives := natives }

instance : Inhabited Instance := ⟨create (.mk 0 "" [] []) []⟩

/-- The progress of the first slot with a given class name. -/
def status? (i : Instance) (className : String) : Option InitStatus :=
  (i.statuses.find? (·.className == className)).map (·.status)

/-- Replaces the progress of the first slot with a given class name. -/
def updateSlot (className : String) (status : InitStatus) : List StatusSlot → List StatusSlot
  | [] => []
  | slot :: rest =>
    if slot.className == className then ⟨slot.className, status⟩ :: rest
    else slot :: updateSlot className status rest

/-- Records progress; a class without a slot leaves the instance as it is. -/
def setStatus (i : Instance) (className : String) (status : InitStatus) : Instance :=
  { i with statuses := updateSlot className status i.statuses }

/-- The class of the first slot that is not initialized. -/
def firstUninitialized? (i : Instance) : Option String :=
  (i.statuses.find? (·.status != .initialized)).map (·.className)

/-- The value of a field. -/
def field? (i : Instance) (name : String) : Option Value :=
  i.fields.lookup name

/-- Sets a field; a new one goes behind the others. -/
def setField (i : Instance) (name : String) (value : Value) : Instance :=
  { i with fields := putField name value i.fields }

/-- The backing instance of a built-in class. -/
def native? (i : Instance) (b : BuiltinClass) : Option Datum :=
  (i.natives.find? (·.1 == b)).map (·.2)

/-- Replaces the first backing instance of a built-in class, or appends one. -/
def putNative (b : BuiltinClass) (d : Datum) :
    List (BuiltinClass × Datum) → List (BuiltinClass × Datum)
  | [] => [(b, d)]
  | (c, e) :: rest => if c = b then (c, d) :: rest else (c, e) :: putNative b d rest

/-- Sets the backing instance of a built-in class. -/
def setNative (i : Instance) (b : BuiltinClass) (d : Datum) : Instance :=
  { i with natives := putNative b d i.natives }

end Instance

end ScriptEngine
