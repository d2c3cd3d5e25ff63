import ScriptEngine.Class

/-!
# The heap

The cells that values refer to: arrays, maps, errors, instances of user classes and import
references, one list for each kind. A new cell goes to the end of its list, so a reference is the
length of the list before. Looking up a reference that is in no list gives an empty cell.
-/

namespace ScriptEngine

/-- An array: its items and the greatest length it may grow to. -/
structure ArrayCell where
  items : Array Value
  maxSize : Option Nat

instance : Inhabited ArrayCell := ⟨⟨#[], none⟩⟩

namespace ArrayCell

/-- An array without a limit. -/
def ofItems (items : Array Value) : ArrayCell := ⟨items, none⟩

/-- Whether the array has reached its limit. -/
def isFull (cell : ArrayCell) : Bool :=
  cell.maxSize.any (cell.items.size ≥ ·)

end ArrayCell

/-- A map: its keys and values in the order of insertion. -/
structure MapCell where
  entries : List (Value × Value)

instance : Inhabited MapCell := ⟨⟨[]⟩⟩

/-- An error: its message, and the `throw` that raised it last. -/
structure ErrorCell where
  message : Value
  token? : Option Token

instance : Inhabited ErrorCell := ⟨⟨.null, none⟩⟩

/-- A reference to a name of another module. `cache?` is the value last seen through it. -/
structure ImportCell where
  name : Token
  home : ModuleId
  cache? : Option Value

instance : Inhabited ImportCell := ⟨⟨default, 0, none⟩⟩

/-- All cells, and the next free identity number. -/
structure Heap where
  arrays : Array ArrayCell
  maps : Array MapCell
  errors : Array ErrorCell
  objects : Array Instance
  imports : Array ImportCell
  nextIdentity : Identity

namespace Heap

/-- The heap without cells. -/
def empty : Heap := ⟨#[], #[], #[], #[], #[], 0⟩

instance : Inhabited Heap := ⟨empty⟩

/-- One more than the number of cells: no chain of references without a repetition is longer. -/
def depthBound (h : Heap) : Nat :=
  h.arrays.size + h.maps.size + h.errors.size + h.objects.size + h.imports.size + 1

/-! ## Looking up cells -/

/-- The array at a reference. -/
def array (h : Heap) (id : ArrayId) : ArrayCell := h.arrays.getD id default

/-- The map at a reference. -/
def map (h : Heap) (id : MapId) : MapCell := h.maps.getD id default

/-- The error at a reference. -/
def error (h : Heap) (id : ErrorId) : ErrorCell := h.errors.getD id default

/-- The instance at a reference. -/
def object (h : Heap) (id : ObjectId) : Instance := h.objects.getD id default

/-- The import reference at a reference. -/
def importCell (h : Heap) (id : ImportId) : ImportCell := h.imports.getD id default

/-! ## Making cells -/

/-- A new array. -/
def newArray (h : Heap) (cell : ArrayCell) : ArrayId × Heap :=
  (h.arrays.size, { h with arrays := h.arrays.push cell })

/-- A new map. -/
def newMap (h : Heap) (cell : MapCell) : MapId × Heap :=
  (h.maps.size, { h with maps := h.maps.push cell })

/-- A new error. -/
def newError (h : Heap) (cell : ErrorCell) : ErrorId × Heap :=
  (h.errors.size, { h with errors := h.errors.push cell })

/-- A new instance. -/
def newObject (h : Heap) (i : Instance) : ObjectId × Heap :=
  (h.objects.size, { h with objects := h.objects.push i })

/-- A new import reference. -/
def newImport (h : Heap) (cell : ImportCell) : ImportId × Heap :=
  (h.imports.size, { h with imports := h.imports.push cell })

/-- A new identity number. -/
def fresh (h : Heap) : Identity × Heap :=
  (h.nextIdentity, { h with nextIdentity := h.nextIdentity + 1 })

/-! ## Changing cells -/

/-- Changes an array. -/
def modifyArray (h : Heap) (id : ArrayId) (f : ArrayCell → ArrayCell) : Heap :=
  { h with arrays := h.arrays.modify id f }

/-- Changes a map. -/
def modifyMap (h : Heap) (id : MapId) (f : MapCell → MapCell) : Heap :=
  { h with maps := h.maps.modify id f }

/-- Changes an error. -/
def modifyError (h : Heap) (id : ErrorId) (f : ErrorCell → ErrorCell) : Heap :=
  { h with errors := h.errors.modify id f }

/-- Changes an instance. -/
def modifyObject (h : Heap) (id : ObjectId) (f : Instance → Instance) : Heap :=
  { h with objects := h.objects.modify id f }

/-- Replaces the value last seen through an import reference. -/
def refreshImport (h : Heap) (id : ImportId) (value : Value) : Heap :=
  { h with imports := h.imports.modify id fun cell => { cell with cache? := some value } }

end Heap

end ScriptEngine
