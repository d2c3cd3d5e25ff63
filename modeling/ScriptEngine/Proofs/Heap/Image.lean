import ScriptEngine.Builtin
import ScriptEngine.Frame
import ScriptEngine.Proofs.Heap.Fit
import ScriptEngine.Proofs.Program.Relabeling

/-!
# Images of the heap

A relabeling of programs carries over to everything that holds code: functions, classes and
instances, the cells of the heap and the frames. The image of a heap has relabeled code, and any
references in place of its own import references, so it tells apart neither lines nor what was
last seen through a reference.

No operation on values can see the difference, as long as no reference lies in the heap: values
are equal in an image exactly if they are equal (`equals_image`), they look the same
(`display_image`), and looking up and changing cells commute with taking the image.
-/

namespace ScriptEngine

namespace Relabeling

variable (r : Relabeling)

/-! ## Code in values -/

/-- A function with relabeled code. -/
def function (f : Function) : Function := { f with decl := r.decl f.decl }

@[simp] theorem function_id (f : Function) : (r.function f).id = f.id := rfl
@[simp] theorem function_decl (f : Function) : (r.function f).decl = r.decl f.decl := rfl
@[simp] theorem function_closure (f : Function) : (r.function f).closure = f.closure := rfl
@[simp] theorem function_home (f : Function) : (r.function f).home = f.home := rfl
@[simp] theorem function_owner? (f : Function) : (r.function f).owner? = f.owner? := rfl

@[simp] theorem function_isInitializer (f : Function) :
    (r.function f).isInitializer = f.isInitializer := rfl

/-- A relabeled function takes as many arguments. -/
@[simp] theorem function_arity (f : Function) : (r.function f).arity = f.arity := by
  simp [Function.arity]

/-- A relabeled function looks the same. -/
@[simp] theorem function_display (f : Function) : (r.function f).display = f.display := by
  simp [Function.display, Function.name]

end Relabeling

mutual

/-- A class with relabeled methods. -/
def Relabeling.cls (r : Relabeling) : Class → Class
  | .mk id name superclasses methods =>
    .mk id name (r.superclasses superclasses) (methods.map fun e => (e.1, r.function e.2))

/-- Superclasses with relabeled methods. -/
def Relabeling.superclasses (r : Relabeling) : List Superclass → List Superclass
  | [] => []
  | .user c :: rest => .user (r.cls c) :: r.superclasses rest
  | .builtin b :: rest => .builtin b :: r.superclasses rest

end

namespace Relabeling

variable (r : Relabeling)

/-- A superclass with relabeled methods. -/
def superclass : Superclass → Superclass
  | .user c => .user (r.cls c)
  | .builtin b => .builtin b

/-- Superclasses are relabeled one by one. -/
@[simp] theorem superclasses_eq_map (ss : List Superclass) :
    r.superclasses ss = ss.map r.superclass := by
  induction ss with
  | nil => rfl
  | cons s ss ih => cases s <;> simp [superclasses, superclass, ih]

/-- A method that was found, with relabeled code. -/
def method : Method → Method
  | .user f => .user (r.function f)
  | .builtin c => .builtin c

/-- A value with relabeled code. -/
def value : Value → Value
  | .cls c => .cls (r.cls c)
  | .function f => .function (r.function f)
  | v => v

/-- A binding with a relabeled value. -/
def binding (b : String × Value) : String × Value := (b.1, r.value b.2)

/-- A map entry with relabeled key and value. -/
def entry (e : Value × Value) : Value × Value := (r.value e.1, r.value e.2)

/-- An array with relabeled items. -/
def arrayCell (cell : ArrayCell) : ArrayCell := { cell with items := cell.items.map r.value }

/-- A map with relabeled entries. -/
def mapCell (cell : MapCell) : MapCell := ⟨cell.entries.map r.entry⟩

/-- An error with a relabeled message and the `throw` on its new line. -/
def errorCell (cell : ErrorCell) : ErrorCell := ⟨r.value cell.message, cell.token?.map r.token⟩

/-- An instance with relabeled code. -/
def object (i : Instance) : Instance :=
  { i with cls := r.cls i.cls, fields := i.fields.map r.binding }

/-- An import reference on its new line. -/
def importCell (cell : ImportCell) : ImportCell :=
  ⟨r.token cell.name, cell.home, cell.cache?.map r.value⟩

/-! ## Classes and instances -/

@[simp] theorem cls_id (c : Class) : (r.cls c).id = c.id := by cases c; rfl
@[simp] theorem cls_name (c : Class) : (r.cls c).name = c.name := by cases c; rfl
@[simp] theorem cls_display (c : Class) : (r.cls c).display = c.display := by simp [Class.display]

/-- The superclasses of a relabeled class are relabeled. -/
@[simp] theorem cls_superclasses (c : Class) :
    (r.cls c).superclasses = c.superclasses.map r.superclass := by
  cases c
  exact r.superclasses_eq_map _

@[simp] theorem superclass_name (s : Superclass) : (r.superclass s).name = s.name := by
  cases s with
  | user c => exact r.cls_name c
  | builtin b => rfl

/-- A relabeled superclass, as a value, is the relabeled value. -/
@[simp] theorem superclass_toValue (s : Superclass) :
    (r.superclass s).toValue = r.value s.toValue := by
  cases s <;> rfl

/-- Looking up a name among relabeled things. -/
theorem lookup_map {α β : Type} (f : α → β) (name : String) (l : List (String × α)) :
    (l.map fun e => (e.1, f e.2)).lookup name = (l.lookup name).map f := by
  induction l with
  | nil => rfl
  | cons e l ih =>
    obtain ⟨n, a⟩ := e
    simp only [List.map_cons, List.lookup_cons]
    cases name == n with
    | true => rfl
    | false => exact ih

/-- Looking a name up among relabeled bindings gives the relabeled value. -/
@[simp] theorem lookup_binding (name : String) (l : List (String × Value)) :
    (l.map r.binding).lookup name = (l.lookup name).map r.value :=
  lookup_map r.value name l

/-- A relabeled class has an initializer of its own exactly if the class has one. -/
@[simp] theorem cls_ownInit? (c : Class) : (r.cls c).ownInit? = c.ownInit?.map r.function := by
  cases c
  exact lookup_map r.function "init" _

/-- A relabeled class is called with as many arguments. -/
@[simp] theorem cls_arity (c : Class) : (r.cls c).arity = c.arity := by
  simp only [Class.arity, cls_ownInit?, Option.map_map]
  congr 2
  funext f
  exact r.function_arity f

/-- A relabeled superclass has an initializer of its own exactly if the superclass has one. -/
@[simp] theorem superclass_hasOwnInit (s : Superclass) :
    (r.superclass s).hasOwnInit = s.hasOwnInit := by
  cases s with
  | user c =>
    show (r.cls c).ownInit?.isSome = c.ownInit?.isSome
    rw [cls_ownInit?, Option.isSome_map]
  | builtin b => rfl

mutual

/-- The search for a method finds the relabeled method, in the class where it was found before. -/
theorem cls_findMethod? (name : String) :
    ∀ c : Class, (r.cls c).findMethod? name = (c.findMethod? name).map r.method
  | .mk id className superclasses methods => by
    have hown : (methods.map fun e => (e.1, r.function e.2)).lookup name =
      (methods.lookup name).map r.function := lookup_map r.function name methods
    rw [cls, Class.findMethod?, Class.findMethod?, hown]
    cases methods.lookup name with
    | some f => rfl
    | none => exact superclasses_findInherited? name superclasses

theorem superclasses_findInherited? (name : String) : ∀ ss : List Superclass,
    Class.findInherited? name (r.superclasses ss) = (Class.findInherited? name ss).map r.method
  | [] => rfl
  | .user c :: rest => by
    rw [superclasses, Class.findInherited?, Class.findInherited?, cls_findMethod? name c]
    cases Class.findMethod? name c with
    | some f => rfl
    | none => exact superclasses_findInherited? name rest
  | .builtin b :: rest => by
    rw [superclasses, Class.findInherited?, Class.findInherited?]
    split
    · rfl
    · exact superclasses_findInherited? name rest

end

mutual

/-- The built-in classes above a class do not depend on labels. -/
theorem cls_addBuiltins : ∀ (c : Class) (found : List BuiltinClass),
    (r.cls c).addBuiltins found = c.addBuiltins found
  | .mk id name superclasses methods, found => by
    rw [cls, Class.addBuiltins, Class.addBuiltins, superclasses_addInherited superclasses found]

theorem superclasses_addInherited : ∀ (ss : List Superclass) (found : List BuiltinClass),
    Class.addInherited found (r.superclasses ss) = Class.addInherited found ss
  | [], found => rfl
  | .user c :: rest, found => by
    rw [superclasses, Class.addInherited, Class.addInherited, cls_addBuiltins c found,
      superclasses_addInherited rest]
  | .builtin b :: rest, found => by
    rw [superclasses, Class.addInherited, Class.addInherited, superclasses_addInherited rest]

end

/-- A relabeled class has the same built-in ancestors, in the same order. -/
@[simp] theorem cls_builtinAncestors (c : Class) :
    (r.cls c).builtinAncestors = c.builtinAncestors :=
  r.cls_addBuiltins c []

@[simp] theorem object_cls (i : Instance) : (r.object i).cls = r.cls i.cls := rfl
@[simp] theorem object_natives (i : Instance) : (r.object i).natives = i.natives := rfl

@[simp] theorem object_native? (i : Instance) (b : BuiltinClass) :
    (r.object i).native? b = i.native? b := rfl

@[simp] theorem object_setStatus (i : Instance) (name : String) (status : InitStatus) :
    (r.object i).setStatus name status = r.object (i.setStatus name status) := rfl

@[simp] theorem object_setNative (i : Instance) (b : BuiltinClass) (d : Datum) :
    (r.object i).setNative b d = r.object (i.setNative b d) := rfl

@[simp] theorem object_firstUninitialized? (i : Instance) :
    (r.object i).firstUninitialized? = i.firstUninitialized? := rfl

/-- A field of a relabeled instance is the relabeled field. -/
@[simp] theorem object_field? (i : Instance) (name : String) :
    (r.object i).field? name = (i.field? name).map r.value :=
  r.lookup_binding name i.fields

/-- Setting a field commutes with relabeling. -/
theorem putField_map (name : String) (v : Value) (fields : List (String × Value)) :
    putField name (r.value v) (fields.map r.binding) = (putField name v fields).map r.binding := by
  induction fields with
  | nil => rfl
  | cons f fields ih =>
    simp only [List.map_cons, putField, binding]
    split
    · rfl
    · rw [List.map_cons, ← ih]
      rfl

/-- Setting a field of a relabeled instance is setting it before. -/
@[simp] theorem object_setField (i : Instance) (name : String) (v : Value) :
    (r.object i).setField name (r.value v) = r.object (i.setField name v) := by
  simp only [Instance.setField, object, putField_map]

/-- A new instance of a relabeled class is the relabeled new instance. -/
@[simp] theorem object_create (c : Class) (natives : List (BuiltinClass × Datum)) :
    Instance.create (r.cls c) natives = r.object (.create c natives) := by
  simp [Instance.create, object, Instance.initialStatuses, binding, value]

/-! ## Values -/

@[simp] theorem value_datum (d : Datum) : r.value (.datum d) = .datum d := rfl
@[simp] theorem value_null : r.value .null = .null := rfl
@[simp] theorem value_object (id : ObjectId) : r.value (.object id) = .object id := rfl
@[simp] theorem value_native (f : NativeFunction) : r.value (.native f) = .native f := rfl
@[simp] theorem value_imported (id : ImportId) : r.value (.imported id) = .imported id := rfl

/-- Whether a value counts as true does not depend on labels. -/
@[simp] theorem value_number? (v : Value) : (r.value v).number? = v.number? := by cases v <;> rfl
@[simp] theorem value_string? (v : Value) : (r.value v).string? = v.string? := by cases v <;> rfl
@[simp] theorem value_isNull (v : Value) : (r.value v).isNull = v.isNull := by cases v <;> rfl
@[simp] theorem value_isTruthy (v : Value) : (r.value v).isTruthy = v.isTruthy := by cases v <;> rfl

/-- Scalars have the same canonical form, and what is no scalar still has none. -/
@[simp] theorem value_scalarKey? (v : Value) : (r.value v).scalarKey? = v.scalarKey? := by
  cases v <;> rfl

/-! ## Cells -/

@[simp] theorem arrayCell_items (cell : ArrayCell) :
    (r.arrayCell cell).items = cell.items.map r.value := rfl

/-- A relabeled array is full exactly if the array is. -/
@[simp] theorem arrayCell_isFull (cell : ArrayCell) : (r.arrayCell cell).isFull = cell.isFull := by
  simp [ArrayCell.isFull, arrayCell]

@[simp] theorem mapCell_entries (cell : MapCell) :
    (r.mapCell cell).entries = cell.entries.map r.entry := rfl

@[simp] theorem errorCell_message (cell : ErrorCell) :
    (r.errorCell cell).message = r.value cell.message := rfl

@[simp] theorem errorCell_token? (cell : ErrorCell) :
    (r.errorCell cell).token? = cell.token?.map r.token := rfl

/-- Two ways to compare keys that agree on relabeled values. -/
def SameUnder (same same' : Value → Value → Bool) : Prop :=
  ∀ a b, same' (r.value a) (r.value b) = same a b

variable {r}

/-- A relabeled key matches a relabeled entry exactly if the key matches the entry. -/
theorem SameUnder.matchesKey {same same' : Value → Value → Bool} (h : r.SameUnder same same')
    (key stored : Value) :
    MapCell.matchesKey same' (r.value key) (r.value stored) =
      MapCell.matchesKey same key stored := by
  unfold MapCell.matchesKey
  rw [value_scalarKey?, value_scalarKey?, h]

/-- What a map has under a relabeled key is the relabeled value of the key. -/
theorem SameUnder.get? {same same' : Value → Value → Bool} (h : r.SameUnder same same')
    (cell : MapCell) (key : Value) :
    (r.mapCell cell).get? same' (r.value key) = (cell.get? same key).map r.value := by
  unfold MapCell.get?
  rw [mapCell_entries, List.find?_map, Option.map_map, Option.map_map]
  have hmatch : (fun e : Value × Value => MapCell.matchesKey same' (r.value key) e.1) ∘ r.entry =
      fun e => MapCell.matchesKey same key e.1 := by
    funext e
    exact h.matchesKey key e.1
  rw [hmatch]
  rfl

/-- Inserting into a relabeled map is inserting before, at the same place among the entries. -/
theorem SameUnder.insert {same same' : Value → Value → Bool} (h : r.SameUnder same same')
    (cell : MapCell) (key v : Value) :
    (r.mapCell cell).insert same' (r.value key) (r.value v) =
      r.mapCell (cell.insert same key v) := by
  have hput : ∀ entries, MapCell.putEntry same' (r.value key) (r.value v) (entries.map r.entry) =
      (MapCell.putEntry same key v entries).map r.entry := by
    intro entries
    induction entries with
    | nil => rfl
    | cons e entries ih =>
      obtain ⟨k, w⟩ := e
      simp only [List.map_cons, MapCell.putEntry, entry, h.matchesKey]
      split
      · rfl
      · rw [List.map_cons, ← ih]
        rfl
  simp only [MapCell.insert, mapCell, hput]

end Relabeling

/-! ## The image of a heap -/

/-- The heap with relabeled code and other import references. -/
def Heap.image (r : Relabeling) (imports : Array ImportCell) (h : Heap) : Heap where
  arrays := h.arrays.map r.arrayCell
  maps := h.maps.map r.mapCell
  errors := h.errors.map r.errorCell
  objects := h.objects.map r.object
  imports := imports
  nextIdentity := h.nextIdentity

namespace Heap

variable (r : Relabeling) (imports : Array ImportCell) (h : Heap)

/-- Reading a mapped array, with the default mapped too, is mapping what is read. -/
theorem getD_map {α β : Type} (f : α → β) (a : Array α) (i : Nat) (d : α) (d' : β)
    (hd : f d = d') : (a.map f).getD i d' = f (a.getD i d) := by
  rw [Array.getD_eq_getD_getElem?, Array.getD_eq_getD_getElem?, Array.getElem?_map]
  cases a[i]? with
  | none => exact hd.symm
  | some x => rfl

/-- What is added to a mapped array is the image of what is added to the array. -/
theorem map_push {α β : Type} (f : α → β) (a : Array α) (x : α) :
    (a.push x).map f = (a.map f).push (f x) := by
  simp

/-- Changing a mapped array is changing the array, if the two changes correspond. -/
theorem map_modify {α β : Type} {f : α → β} {g : α → α} {g' : β → β} (h : ∀ x, g' (f x) = f (g x))
    (a : Array α) (i : Nat) : (a.map f).modify i g' = (a.modify i g).map f := by
  apply Array.ext
  · simp
  · intro j hj hj'
    simp only [Array.getElem_modify, Array.getElem_map]
    split
    · exact h _
    · rfl

/-- The image has the relabeled array under the same number. -/
@[simp] theorem array_image (id : ArrayId) :
    (h.image r imports).array id = r.arrayCell (h.array id) :=
  getD_map r.arrayCell h.arrays id default default
    (congrArg (ArrayCell.mk · none) Array.map_empty)

/-- The image has the relabeled map under the same number. -/
@[simp] theorem map_image (id : MapId) : (h.image r imports).map id = r.mapCell (h.map id) :=
  getD_map r.mapCell h.maps id default default rfl

/-- The image has the relabeled error under the same number. -/
@[simp] theorem error_image (id : ErrorId) :
    (h.image r imports).error id = r.errorCell (h.error id) :=
  getD_map r.errorCell h.errors id default default rfl

/-- The image has the relabeled instance under the same number. -/
@[simp] theorem object_image (id : ObjectId) :
    (h.image r imports).object id = r.object (h.object id) :=
  getD_map r.object h.objects id default default rfl

@[simp] theorem nextIdentity_image : (h.image r imports).nextIdentity = h.nextIdentity := rfl

/-- A new array gets the same number in the image, and the image has it relabeled. -/
theorem newArray_image (cell : ArrayCell) :
    (h.image r imports).newArray (r.arrayCell cell) =
      ((h.newArray cell).1, (h.newArray cell).2.image r imports) := by
  simp [newArray, image]

/-- A new map gets the same number in the image. -/
theorem newMap_image (cell : MapCell) :
    (h.image r imports).newMap (r.mapCell cell) =
      ((h.newMap cell).1, (h.newMap cell).2.image r imports) := by
  simp [newMap, image]

/-- A new error gets the same number in the image. -/
theorem newError_image (cell : ErrorCell) :
    (h.image r imports).newError (r.errorCell cell) =
      ((h.newError cell).1, (h.newError cell).2.image r imports) := by
  simp [newError, image]

/-- A new instance gets the same number in the image. -/
theorem newObject_image (i : Instance) :
    (h.image r imports).newObject (r.object i) =
      ((h.newObject i).1, (h.newObject i).2.image r imports) := by
  simp [newObject, image]

variable {r}

/-- Changing an array in the image is taking the image of the change. -/
theorem modifyArray_image (id : ArrayId) {f f' : ArrayCell → ArrayCell}
    (hf : ∀ cell, f' (r.arrayCell cell) = r.arrayCell (f cell)) :
    (h.image r imports).modifyArray id f' = (h.modifyArray id f).image r imports := by
  simp only [modifyArray, image, map_modify hf]

/-- Changing an error in the image is taking the image of the change. -/
theorem modifyError_image (id : ErrorId) {f f' : ErrorCell → ErrorCell}
    (hf : ∀ cell, f' (r.errorCell cell) = r.errorCell (f cell)) :
    (h.image r imports).modifyError id f' = (h.modifyError id f).image r imports := by
  simp only [modifyError, image, map_modify hf]

/-- Changing a map in the image is taking the image of the change. -/
theorem modifyMap_image (id : MapId) {f f' : MapCell → MapCell}
    (hf : ∀ cell, f' (r.mapCell cell) = r.mapCell (f cell)) :
    (h.image r imports).modifyMap id f' = (h.modifyMap id f).image r imports := by
  simp only [modifyMap, image, map_modify hf]

/-- Changing an instance in the image is taking the image of the change. -/
theorem modifyObject_image (id : ObjectId) {f f' : Instance → Instance}
    (hf : ∀ i, f' (r.object i) = r.object (f i)) :
    (h.image r imports).modifyObject id f' = (h.modifyObject id f).image r imports := by
  simp only [modifyObject, image, map_modify hf]

/-- The image has as many cells, so the same depth is enough to look at its values. -/
theorem depthBound_image (hsize : imports.size = h.imports.size) :
    (h.image r imports).depthBound = h.depthBound := by
  simp [depthBound, image, hsize]

/-! ## Equality -/

/-- Two values are equal in the image exactly if they are in the heap, by induction on the depth. -/
theorem equalsUpTo_image (locked? : Option MapId) (depth : Nat) :
    r.SameUnder (h.equalsUpTo locked? depth) ((h.image r imports).equalsUpTo locked? depth) := by
  induction depth with
  | zero => exact fun _ _ => rfl
  | succ depth ih =>
    have hall : ∀ i j : ArrayId,
        (((h.image r imports).array i).items.toList.zip
          ((h.image r imports).array j).items.toList).all
            (fun p => (h.image r imports).equalsUpTo locked? depth p.1 p.2) =
        ((h.array i).items.toList.zip (h.array j).items.toList).all
          fun p => h.equalsUpTo locked? depth p.1 p.2 := by
      intro i j
      simp only [array_image, Relabeling.arrayCell_items, Array.toList_map, List.zip_map,
        List.all_map, Function.comp_def, Prod.map_fst, Prod.map_snd, ih _ _]
    have hentries : ∀ i j : MapId,
        ((h.image r imports).map i).entries.all (fun e =>
          (((h.image r imports).map j).get? ((h.image r imports).equalsUpTo locked? depth) e.1).any
            fun v => (h.image r imports).equalsUpTo locked? depth v e.2) =
        (h.map i).entries.all fun e =>
          ((h.map j).get? (h.equalsUpTo locked? depth) e.1).any
            fun v => h.equalsUpTo locked? depth v e.2 := by
      intro i j
      simp only [map_image, Relabeling.mapCell_entries, List.all_map, Function.comp_def,
        Relabeling.entry, ih.get?, Option.any_map, ih _ _]
    intro a b
    cases a with
    | datum d =>
      cases b with
      | datum e =>
        cases d with
        | array i =>
          cases e with
          | array j =>
            simp only [Relabeling.value_datum, equalsUpTo, hall]
            simp
          | _ => rfl
        | map i =>
          cases e with
          | map j =>
            simp only [Relabeling.value_datum, equalsUpTo, hentries]
            simp
          | _ => rfl
        | error i =>
          cases e with
          | error j =>
            simp only [Relabeling.value_datum, equalsUpTo, error_image,
              Relabeling.errorCell_message, ih _ _]
          | _ => rfl
        | _ => cases e <;> rfl
      | _ => cases d <;> rfl
    | cls c =>
      cases b with
      | cls d => simp [Relabeling.value, equalsUpTo]
      | _ => rfl
    | _ => cases b <;> rfl

/-- Values are equal in an image exactly if they are equal. -/
theorem equals_image (hsize : imports.size = h.imports.size) :
    r.SameUnder h.equals (h.image r imports).equals := by
  unfold equals
  rw [h.depthBound_image imports hsize]
  exact h.equalsUpTo_image imports none _

/-- Looking up a key in the image gives the relabeled value. -/
theorem mapGet?_image (hsize : imports.size = h.imports.size) (id : MapId) (key : Value) :
    (h.image r imports).mapGet? id (r.value key) = (h.mapGet? id key).map r.value := by
  rw [mapGet?, map_image]
  exact (h.equals_image imports hsize).get? _ _

/-- Inserting into a map of the image is taking the image of the insertion. -/
theorem mapInsert_image (hsize : imports.size = h.imports.size) (id : MapId) (key v : Value) :
    (h.image r imports).mapInsert id (r.value key) (r.value v) =
      (h.mapInsert id key v).image r imports := by
  unfold mapInsert
  rw [h.depthBound_image imports hsize, map_image]
  dsimp only
  rw [(h.equalsUpTo_image imports (some id) _).insert]
  exact h.modifyMap_image imports id fun _ => rfl

/-! ## How values look -/

variable {h}

/-- A value inside of another one looks the same if its display does. -/
theorem reprWith_image {print print' : Value → String} {v : Value}
    (hprint : print' (r.value v) = print v) :
    (r.value v).reprWith print' = v.reprWith print := by
  cases v with
  | datum d =>
    cases d with
    | string s => rfl
    | _ => exact hprint
  | _ => exact hprint

/-- Values that hold no import reference look the same in the image, by induction on the depth. -/
theorem displayUpTo_image {code : Value → Prop} (hcode : ∀ id, ¬ code (.imported id))
    (hfit : h.Fit code) (depth : Nat) : ∀ v, v.Fits code h →
      (h.image r imports).displayUpTo depth (r.value v) = h.displayUpTo depth v := by
  induction depth with
  | zero => exact fun _ _ => rfl
  | succ depth ih =>
    intro v hv
    cases v with
    | imported id => exact absurd hv (hcode id)
    | cls c => exact r.cls_display c
    | function f => exact r.function_display f
    | object id =>
      have hfields :
          fieldsDisplay ((h.image r imports).displayUpTo depth) (r.object (h.object id)) =
            fieldsDisplay (h.displayUpTo depth) (h.object id) := by
        have hshown : (((h.object id).fields.map r.binding).filter (·.1 != "className")).map
            (fun f => f.1 ++ ": " ++ (h.image r imports).displayUpTo depth f.2) =
            ((h.object id).fields.filter (·.1 != "className")).map
              fun f => f.1 ++ ": " ++ h.displayUpTo depth f.2 := by
          rw [List.filter_map, List.map_map]
          refine List.map_congr_left fun f hf => ?_
          have hmem := (List.mem_filter.mp hf).1
          exact congrArg (f.1 ++ ": " ++ ·) (ih f.2 (hfit.fields id f hmem))
        simp only [fieldsDisplay, Relabeling.object, hshown]
      simp only [Relabeling.value_object, displayUpTo, object_image, Relabeling.object_cls,
        Relabeling.cls_name, hfields]
    | datum d =>
      cases d with
      | array id =>
        have hitems : ((h.array id).items.map r.value).toList.map
            (Value.reprWith ((h.image r imports).displayUpTo depth)) =
            (h.array id).items.toList.map (Value.reprWith (h.displayUpTo depth)) := by
          rw [Array.toList_map, List.map_map]
          refine List.map_congr_left fun v hv => ?_
          exact reprWith_image (ih v (hfit.arrays id v (Array.mem_toList_iff.mp hv)))
        simp only [Relabeling.value_datum, displayUpTo, array_image, Relabeling.arrayCell_items,
          hitems]
      | map id =>
        have hentries : ((h.map id).entries.map r.entry).map
            (fun e => e.1.reprWith ((h.image r imports).displayUpTo depth) ++ ": " ++
              e.2.reprWith ((h.image r imports).displayUpTo depth)) =
            (h.map id).entries.map fun e =>
              e.1.reprWith (h.displayUpTo depth) ++ ": " ++ e.2.reprWith (h.displayUpTo depth) := by
          rw [List.map_map]
          refine List.map_congr_left fun e he => ?_
          obtain ⟨hkey, hvalue⟩ := hfit.maps id e he
          show (r.value e.1).reprWith _ ++ ": " ++ (r.value e.2).reprWith _ = _
          rw [reprWith_image (ih e.1 hkey), reprWith_image (ih e.2 hvalue)]
        simp only [Relabeling.value_datum, displayUpTo, map_image, Relabeling.mapCell_entries,
          hentries]
      | error id =>
        simp only [Relabeling.value_datum, displayUpTo, error_image, Relabeling.errorCell_message,
          ih _ (hfit.errors id)]
      | _ => rfl
    | _ => rfl

/-- A value that is no reference looks the same in an image of a heap without references. -/
theorem display_image {code : Value → Prop} (hcode : ∀ id, ¬ code (.imported id))
    (hfit : h.Fit code) (hsize : imports.size = h.imports.size) {v : Value} (hv : v.Fits code h) :
    (h.image r imports).display (r.value v) = h.display v := by
  unfold display
  rw [h.depthBound_image imports hsize]
  exact displayUpTo_image imports hcode hfit _ v hv

end Heap

/-! ## Changing nothing -/

namespace Relabeling

/-- A relabeling that changes nothing keeps functions. -/
@[simp] theorem function_same (f : Function) : same.function f = f := by
  rw [function, decl_same]

theorem methods_same (methods : List (String × Function)) :
    (methods.map fun e => (e.1, same.function e.2)) = methods :=
  map_same (fun e => by rw [function_same]) methods

mutual

theorem cls_same : ∀ c, same.cls c = c
  | .mk id name ss methods => by rw [cls, superclasses_same ss, methods_same]

theorem superclasses_same : ∀ ss, same.superclasses ss = ss
  | [] => rfl
  | .user c :: rest => by rw [superclasses, cls_same c, superclasses_same rest]
  | .builtin _ :: rest => by rw [superclasses, superclasses_same rest]

end

@[simp] theorem value_same (v : Value) : same.value v = v := by
  cases v with
  | cls c => rw [value, cls_same]
  | function f => rw [value, function_same]
  | _ => rfl

@[simp] theorem binding_same (b : String × Value) : same.binding b = b := by
  rw [binding, value_same]

@[simp] theorem entry_same (e : Value × Value) : same.entry e = e := by
  rw [entry, value_same, value_same]

end Relabeling

/-- Relabeling nothing leaves everything but the import references as it is. -/
theorem Heap.image_same (imports : Array ImportCell) (h : Heap) :
    h.image .same imports = { h with imports := imports } := by
  have harray : Relabeling.same.arrayCell = id := by
    funext cell
    have hvalue : Relabeling.same.value = id := funext Relabeling.value_same
    rw [Relabeling.arrayCell, hvalue, Array.map_id]
    rfl
  have hmap : Relabeling.same.mapCell = id := by
    funext cell
    rw [Relabeling.mapCell, Relabeling.map_same Relabeling.entry_same]
    rfl
  have herror : Relabeling.same.errorCell = id := by
    funext cell
    rw [Relabeling.errorCell, Relabeling.value_same,
      show cell.token?.map Relabeling.same.token = cell.token? from Option.map_id' ..]
    rfl
  have hobject : Relabeling.same.object = id := by
    funext i
    rw [Relabeling.object, Relabeling.cls_same, Relabeling.map_same Relabeling.binding_same]
    rfl
  rw [image, harray, hmap, herror, hobject, Array.map_id, Array.map_id, Array.map_id, Array.map_id]

end ScriptEngine
