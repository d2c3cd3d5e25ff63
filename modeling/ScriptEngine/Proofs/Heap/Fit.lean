import ScriptEngine.Builtin
import ScriptEngine.Proofs.Class.Backing

/-!
# What the heap holds

A value fits a heap if the cells that it needs are there and its code, where it is a function or a
class, is as it should be; what code should be like is left open here. A heap is fit if everything
in it fits. Cells are never removed, so a value that fits a heap fits every heap that grows from it
(`Heap.Grows`), and a built-in function that is given fitting values leaves a fit heap and answers
with a fitting value (`Action.Keeps`).
-/

namespace ScriptEngine

/-- The cells that a built-in instance needs are there. -/
def Datum.Fits (h : Heap) : Datum → Prop
  | .error id => id < h.errors.size
  | _ => True

/-- Some initializer that replaces the backing instance of an object for a built-in class is as it
should be. -/
def Vouched (code : Value → Prop) (object : ObjectId) (b : BuiltinClass) : Prop :=
  ∃ f : NativeFunction, f.action = .superInit object b ∧ code (.native f)

/-- The cells that a native function works on are there, and what it changes it may change. -/
def NativeAction.Fits (code : Value → Prop) (h : Heap) : NativeAction → Prop
  | .method receiver _ => receiver.Fits h
  | .superInit object b => object < h.objects.size ∧ Vouched code object b
  | _ => True

/-- The cells that a value needs are there, and its code is as it should be. -/
def Value.Fits (code : Value → Prop) (h : Heap) : Value → Prop
  | .function f => code (.function f)
  | .cls c => code (.cls c)
  | .imported id => code (.imported id)
  | .object id => id < h.objects.size
  | .native f => f.action.Fits code h
  | .datum d => d.Fits h
  | _ => True

namespace Heap

/-- The heap has grown: cells are still there, errors that have been thrown still have their
place, and instances are kept, those below the bound as settled ones. -/
structure Grows (settled : Nat) (h h' : Heap) : Prop where
  errors : h.errors.size ≤ h'.errors.size
  tokens : ∀ id, (h.error id).token?.isSome → (h'.error id).token?.isSome
  objects : h.objects.size ≤ h'.objects.size
  instances : ∀ id < h.objects.size,
    (h.object id).Keeps ((h.object id).Opens (id < settled)) (h'.object id)

/-- Everything in the heap fits it. -/
structure Fit (code : Value → Prop) (h : Heap) : Prop where
  arrays : ∀ id, ∀ v ∈ (h.array id).items, v.Fits code h
  maps : ∀ id, ∀ e ∈ (h.map id).entries, e.1.Fits code h ∧ e.2.Fits code h
  errors : ∀ id, (h.error id).message.Fits code h
  fields : ∀ id, ∀ f ∈ (h.object id).fields, f.2.Fits code h
  natives : ∀ id, ∀ n ∈ (h.object id).natives, n.2.Fits h
  backed : ∀ id, (h.object id).Backed (Vouched code id)
  classes : ∀ id < h.objects.size, code (.cls (h.object id).cls)

namespace Grows

variable {settled : Nat} {h h' h'' : Heap}

theorem refl (settled : Nat) (h : Heap) : Grows settled h h :=
  ⟨Nat.le_refl _, fun _ => id, Nat.le_refl _, fun _ _ => .refl _ _⟩

theorem trans (h₁ : Grows settled h h') (h₂ : Grows settled h' h'') : Grows settled h h'' where
  errors := Nat.le_trans h₁.errors h₂.errors
  tokens := fun id ht => h₂.tokens id (h₁.tokens id ht)
  objects := Nat.le_trans h₁.objects h₂.objects
  instances := fun id hid => by
    have hfirst := h₁.instances id hid
    have hsecond := h₂.instances id (Nat.lt_of_lt_of_le hid h₁.objects)
    -- Which slots may be opened depends on the class of the instance alone, and that is the same.
    refine hfirst.trans (hsecond.weaken fun name hopen hs => ?_)
    rw [← hfirst.cls]
    exact hopen hs

/-- A heap that has grown has grown with fewer instances settled. -/
theorem weaken {settled' : Nat} (hg : Grows settled h h') (hle : settled' ≤ settled) :
    Grows settled' h h' where
  errors := hg.errors
  tokens := hg.tokens
  objects := hg.objects
  instances := fun id hid =>
    (hg.instances id hid).weaken fun _ hopen hs => hopen (Nat.lt_of_lt_of_le hs hle)

/-- Nothing has happened to errors and instances. -/
theorem of_eq (settled : Nat) (he : h'.errors = h.errors) (ho : h'.objects = h.objects) :
    Grows settled h h' where
  errors := Nat.le_of_eq (congrArg _ he.symm)
  tokens := fun id ht => by rwa [error, he]
  objects := Nat.le_of_eq (congrArg _ ho.symm)
  instances := fun id _ => by
    have : h'.object id = h.object id := by rw [object, object, ho]
    exact this ▸ .refl _ _

end Grows

end Heap

section Monotone

variable {code code' : Value → Prop} {settled : Nat} {h h' : Heap}

/-- A cell that was there is there in a heap that has grown. -/
theorem Datum.Fits.mono {d : Datum} (hd : d.Fits h) (hg : h.Grows settled h') : d.Fits h' := by
  cases d with
  | error id => exact Nat.lt_of_lt_of_le hd hg.errors
  | _ => trivial

/-- An initializer that was vouched for is so where more code is accepted. -/
theorem Vouched.mono {object : ObjectId} {b : BuiltinClass} (h : Vouched code object b)
    (hcode : ∀ v, code v → code' v) : Vouched code' object b := by
  obtain ⟨f, hf, hc⟩ := h
  exact ⟨f, hf, hcode _ hc⟩

/-- A built-in function stays fit in a heap that has grown, where more code is accepted. -/
theorem NativeAction.Fits.mono {a : NativeAction} (ha : a.Fits code h) (hg : h.Grows settled h')
    (hcode : ∀ v, code v → code' v) : a.Fits code' h' := by
  cases a with
  | method receiver name => exact Datum.Fits.mono ha hg
  | superInit object b => exact ⟨Nat.lt_of_lt_of_le ha.1 hg.objects, ha.2.mono hcode⟩
  | _ => trivial

theorem Value.Fits.mono {v : Value} (hv : v.Fits code h) (hg : h.Grows settled h')
    (hcode : ∀ v, code v → code' v) : v.Fits code' h' := by
  cases v with
  | function f => exact hcode _ hv
  | cls c => exact hcode _ hv
  | imported id => exact hcode _ hv
  | object id => exact Nat.lt_of_lt_of_le hv hg.objects
  | native f => exact NativeAction.Fits.mono hv hg hcode
  | datum d => exact Datum.Fits.mono hv hg
  | _ => trivial

/-- A fit value stays fit in a heap that has grown. -/
theorem Value.Fits.grow {v : Value} (hv : v.Fits code h) (hg : h.Grows settled h') :
    v.Fits code h' :=
  hv.mono hg fun _ => id

end Monotone

/-! ## Looking up changed cells -/

/-- An added element is read at its index, and the others as before. -/
theorem getD_push {α : Type} (a : Array α) (x : α) (i : Nat) (d : α) :
    (a.push x).getD i d = if i = a.size then x else a.getD i d := by
  rw [Array.getD_eq_getD_getElem?, Array.getD_eq_getD_getElem?, Array.getElem?_push]
  split <;> rfl

/-- A changed element is read changed, if it is there, and the others as before. -/
theorem getD_modify {α : Type} (a : Array α) (f : α → α) (i j : Nat) (d : α) :
    (a.modify i f).getD j d = if j = i ∧ i < a.size then f (a.getD j d) else a.getD j d := by
  rw [Array.getD_eq_getD_getElem?, Array.getD_eq_getD_getElem?, Array.getElem?_modify]
  by_cases hij : i = j
  · subst hij
    by_cases hi : i < a.size
    · simp [hi]
    · simp [hi]
  · simp [hij, Ne.symm hij]

namespace Heap

variable {code : Value → Prop} {settled : Nat} {h : Heap}

/-! ## New cells and changed cells -/

/-- A new array is found under its number, and the others are as before. -/
theorem array_newArray (h : Heap) (cell : ArrayCell) (id : ArrayId) :
    (h.newArray cell).2.array id = if id = h.arrays.size then cell else h.array id :=
  getD_push _ _ _ _

/-- A new map is found under its number, and the others are as before. -/
theorem map_newMap (h : Heap) (cell : MapCell) (id : MapId) :
    (h.newMap cell).2.map id = if id = h.maps.size then cell else h.map id :=
  getD_push _ _ _ _

/-- Only the array that is changed is found changed, if it is there. -/
theorem array_modifyArray (h : Heap) (id : ArrayId) (f : ArrayCell → ArrayCell) (j : ArrayId) :
    (h.modifyArray id f).array j =
      if j = id ∧ id < h.arrays.size then f (h.array j) else h.array j :=
  getD_modify _ _ _ _ _

/-- Only the map that is changed is found changed, if it is there. -/
theorem map_modifyMap (h : Heap) (id : MapId) (f : MapCell → MapCell) (j : MapId) :
    (h.modifyMap id f).map j =
      if j = id ∧ id < h.maps.size then f (h.map j) else h.map j :=
  getD_modify _ _ _ _ _

theorem grows_newArray (settled : Nat) (h : Heap) (cell : ArrayCell) :
    h.Grows settled (h.newArray cell).2 :=
  .of_eq settled rfl rfl

theorem grows_newMap (settled : Nat) (h : Heap) (cell : MapCell) :
    h.Grows settled (h.newMap cell).2 :=
  .of_eq settled rfl rfl

theorem grows_newImport (settled : Nat) (h : Heap) (cell : ImportCell) :
    h.Grows settled (h.newImport cell).2 :=
  .of_eq settled rfl rfl

/-- Giving out a number adds and changes no cell. -/
theorem grows_fresh (settled : Nat) (h : Heap) : h.Grows settled h.fresh.2 :=
  .of_eq settled rfl rfl

/-- What an import reference remembers is no growth and no loss. -/
theorem grows_refreshImport (settled : Nat) (h : Heap) (id : ImportId) (value : Value) :
    h.Grows settled (h.refreshImport id value) :=
  .of_eq settled rfl rfl

theorem grows_modifyArray (settled : Nat) (h : Heap) (id : ArrayId) (f : ArrayCell → ArrayCell) :
    h.Grows settled (h.modifyArray id f) :=
  .of_eq settled rfl rfl

theorem grows_modifyMap (settled : Nat) (h : Heap) (id : MapId) (f : MapCell → MapCell) :
    h.Grows settled (h.modifyMap id f) :=
  .of_eq settled rfl rfl

/-- A new error is found under its number, and the others are as before. -/
theorem error_newError (h : Heap) (cell : ErrorCell) (id : ErrorId) :
    (h.newError cell).2.error id = if id = h.errors.size then cell else h.error id :=
  getD_push _ _ _ _

theorem grows_newError (settled : Nat) (h : Heap) (cell : ErrorCell) :
    h.Grows settled (h.newError cell).2 where
  errors := by simp [newError]
  tokens := fun id ht => by
    rw [error_newError]
    split
    -- There was no error under the new number, and so none with a place.
    · next heq =>
      subst heq
      simp [error, default] at ht
    · exact ht
  objects := Nat.le_refl _
  instances := fun _ _ => .refl _ _

/-- Only the error that is changed is found changed, if it is there. -/
theorem error_modifyError (h : Heap) (id : ErrorId) (f : ErrorCell → ErrorCell) (j : ErrorId) :
    (h.modifyError id f).error j =
      if j = id ∧ id < h.errors.size then f (h.error j) else h.error j :=
  getD_modify _ _ _ _ _

/-- A change of an error is growth if the error keeps its place. -/
theorem grows_modifyError (settled : Nat) (h : Heap) (id : ErrorId) {f : ErrorCell → ErrorCell}
    (hf : ∀ cell : ErrorCell, cell.token?.isSome → (f cell).token?.isSome) :
    h.Grows settled (h.modifyError id f) where
  errors := by simp [modifyError]
  tokens := fun j ht => by
    rw [error_modifyError]
    split
    · exact hf _ ht
    · exact ht
  objects := Nat.le_refl _
  instances := fun _ _ => .refl _ _

/-- A new instance is found under its number, and the others are as before. -/
theorem object_newObject (h : Heap) (i : Instance) (id : ObjectId) :
    (h.newObject i).2.object id = if id = h.objects.size then i else h.object id :=
  getD_push _ _ _ _

theorem grows_newObject (settled : Nat) (h : Heap) (i : Instance) :
    h.Grows settled (h.newObject i).2 where
  errors := Nat.le_refl _
  tokens := fun _ => id
  objects := by simp [newObject]
  instances := fun id hid => by
    rw [object_newObject, if_neg (Nat.ne_of_lt hid)]
    exact .refl _ _

/-- Only the instance that is changed is found changed, if it is there. -/
theorem object_modifyObject (h : Heap) (id : ObjectId) (f : Instance → Instance) (j : ObjectId) :
    (h.modifyObject id f).object j =
      if j = id ∧ id < h.objects.size then f (h.object j) else h.object j :=
  getD_modify _ _ _ _ _

/-- A change of an instance is growth if it keeps its class and what is settled about its slots. -/
theorem grows_modifyObject {settled : Nat} {h : Heap} {id : ObjectId} {f : Instance → Instance}
    (hf : (h.object id).Keeps ((h.object id).Opens (id < settled)) (f (h.object id))) :
    h.Grows settled (h.modifyObject id f) where
  errors := Nat.le_refl _
  tokens := fun _ ht => ht
  objects := by simp [modifyObject]
  instances := fun j _ => by
    rw [object_modifyObject]
    split
    · next heq => exact heq.1 ▸ hf
    · exact .refl _ _

/-- A field after setting one was there before or has the new value. -/
theorem mem_putField {name : String} {value : Value} {fields : List (String × Value)}
    {f : String × Value} (h : f ∈ putField name value fields) : f ∈ fields ∨ f.2 = value := by
  induction fields with
  | nil => exact Or.inr (by rw [List.mem_singleton.mp h])
  | cons field rest ih =>
    unfold putField at h
    split at h
    · rcases List.mem_cons.mp h with rfl | h
      · exact Or.inr rfl
      · exact Or.inl (List.mem_cons_of_mem _ h)
    · rcases List.mem_cons.mp h with rfl | h
      · exact Or.inl List.mem_cons_self
      · exact (ih h).imp_left (List.mem_cons_of_mem _)

namespace Fit

/-- There is nothing in an empty heap that could be amiss. -/
theorem empty (code : Value → Prop) : Heap.empty.Fit code where
  arrays := fun id v hv => absurd hv (Array.not_mem_empty v)
  maps := fun id e he => absurd he List.not_mem_nil
  errors := fun _ => trivial
  fields := fun id f hf => by
    rw [List.mem_singleton.mp hf]
    trivial
  natives := fun id n hn => absurd hn List.not_mem_nil
  backed := fun id => Instance.backed_create rfl fun n hn => absurd hn List.not_mem_nil
  classes := fun id hid => absurd hid (Nat.not_lt_zero id)

/-- A heap that is fit, seen after it has grown: only what has changed must be looked at. -/
theorem of_grows {h' : Heap} (hfit : h.Fit code) (hg : h.Grows settled h')
    (harrays : ∀ id, h'.array id = h.array id ∨ ∀ v ∈ (h'.array id).items, v.Fits code h')
    (hmaps : ∀ id, h'.map id = h.map id ∨
      ∀ e ∈ (h'.map id).entries, e.1.Fits code h' ∧ e.2.Fits code h')
    (herrors : ∀ id, h'.error id = h.error id ∨ (h'.error id).message.Fits code h')
    (hobjects : ∀ id, (id < h'.objects.size → id < h.objects.size) ∧ h'.object id = h.object id ∨
      (∀ f ∈ (h'.object id).fields, f.2.Fits code h') ∧
        (∀ n ∈ (h'.object id).natives, n.2.Fits h') ∧
          (h'.object id).Backed (Vouched code id) ∧ code (.cls (h'.object id).cls)) :
    h'.Fit code where
  arrays := fun id v hv => by
    rcases harrays id with heq | hnew
    · exact (hfit.arrays id v (heq ▸ hv)).grow hg
    · exact hnew v hv
  maps := fun id e he => by
    rcases hmaps id with heq | hnew
    · have := hfit.maps id e (heq ▸ he)
      exact ⟨this.1.grow hg, this.2.grow hg⟩
    · exact hnew e he
  errors := fun id => by
    rcases herrors id with heq | hnew
    · exact heq ▸ (hfit.errors id).grow hg
    · exact hnew
  fields := fun id f hf => by
    rcases hobjects id with ⟨_, heq⟩ | hnew
    · exact (hfit.fields id f (heq ▸ hf)).grow hg
    · exact hnew.1 f hf
  natives := fun id n hn => by
    rcases hobjects id with ⟨_, heq⟩ | hnew
    · exact (hfit.natives id n (heq ▸ hn)).mono hg
    · exact hnew.2.1 n hn
  backed := fun id => by
    rcases hobjects id with ⟨_, heq⟩ | hnew
    · exact heq ▸ hfit.backed id
    · exact hnew.2.2.1
  classes := fun id hid => by
    rcases hobjects id with ⟨hlt, heq⟩ | hnew
    · exact heq ▸ hfit.classes id (hlt hid)
    · exact hnew.2.2.2

/-- A new array of fit items keeps the heap fit. -/
theorem newArray (hfit : h.Fit code) {cell : ArrayCell} (hcell : ∀ v ∈ cell.items, v.Fits code h) :
    (h.newArray cell).2.Fit code := by
  have hg := grows_newArray 0 h cell
  refine hfit.of_grows hg (fun id => ?_) (fun _ => .inl rfl) (fun _ => .inl rfl)
    fun _ => .inl ⟨fun h => h, rfl⟩
  rw [array_newArray]
  split
  · exact Or.inr fun v hv => (hcell v hv).grow hg
  · exact Or.inl rfl

/-- A new map of fit entries keeps the heap fit. -/
theorem newMap (hfit : h.Fit code) {cell : MapCell}
    (hcell : ∀ e ∈ cell.entries, e.1.Fits code h ∧ e.2.Fits code h) :
    (h.newMap cell).2.Fit code := by
  have hg := grows_newMap 0 h cell
  refine hfit.of_grows hg (fun _ => .inl rfl) (fun id => ?_) (fun _ => .inl rfl)
    fun _ => .inl ⟨fun h => h, rfl⟩
  rw [map_newMap]
  split
  · exact Or.inr fun e he => ⟨(hcell e he).1.grow hg, (hcell e he).2.grow hg⟩
  · exact Or.inl rfl

/-- A new error with a fit message keeps the heap fit. -/
theorem newError (hfit : h.Fit code) {cell : ErrorCell} (hcell : cell.message.Fits code h) :
    (h.newError cell).2.Fit code := by
  have hg := grows_newError 0 h cell
  refine hfit.of_grows hg (fun _ => .inl rfl) (fun _ => .inl rfl) (fun id => ?_)
    fun _ => .inl ⟨fun h => h, rfl⟩
  rw [error_newError]
  split
  · exact Or.inr (hcell.grow hg)
  · exact Or.inl rfl

/-- A new instance of an accepted class keeps the heap fit, if what stands behind it is there. -/
theorem newObject (hfit : h.Fit code) {i : Instance} (hfields : ∀ f ∈ i.fields, f.2.Fits code h)
    (hnatives : ∀ n ∈ i.natives, n.2.Fits h) (hbacked : i.Backed (Vouched code h.objects.size))
    (hcls : code (.cls i.cls)) : (h.newObject i).2.Fit code := by
  have hg := grows_newObject 0 h i
  refine hfit.of_grows hg (fun _ => .inl rfl) (fun _ => .inl rfl) (fun _ => .inl rfl) fun id => ?_
  rw [object_newObject]
  split
  · next heq =>
    refine Or.inr
      ⟨fun f hf => (hfields f hf).grow hg, fun n hn => (hnatives n hn).mono hg, ?_, hcls⟩
    exact heq ▸ hbacked
  -- An instance that is not the new one was there before.
  · next hne =>
    refine Or.inl ⟨fun hlt => ?_, rfl⟩
    simp only [Heap.newObject, Array.size_push] at hlt
    exact Nat.lt_of_le_of_ne (Nat.le_of_lt_succ hlt) hne

/-- A change that leaves arrays, maps, errors and instances alone. -/
theorem of_eq {h' : Heap} (hfit : h.Fit code) (ha : h'.arrays = h.arrays) (hm : h'.maps = h.maps)
    (he : h'.errors = h.errors) (ho : h'.objects = h.objects) : h'.Fit code := by
  refine hfit.of_grows (.of_eq 0 he ho) (fun id => .inl ?_) (fun id => .inl ?_)
    (fun id => .inl ?_) fun id => .inl ⟨fun hlt => ho ▸ hlt, ?_⟩
  · rw [array, array, ha]
  · rw [map, map, hm]
  · rw [error, error, he]
  · rw [object, object, ho]

/-- A change of an array keeps the heap fit if the items fit afterwards. -/
theorem modifyArray (hfit : h.Fit code) (id : ArrayId) {f : ArrayCell → ArrayCell}
    (hf : ∀ v ∈ (f (h.array id)).items, v.Fits code h) : (h.modifyArray id f).Fit code := by
  have hg := grows_modifyArray 0 h id f
  refine hfit.of_grows hg (fun j => ?_) (fun _ => .inl rfl) (fun _ => .inl rfl)
    fun _ => .inl ⟨fun h => h, rfl⟩
  rw [array_modifyArray]
  split
  · next heq => exact Or.inr fun v hv => (hf v (heq.1 ▸ hv)).grow hg
  · exact Or.inl rfl

/-- A change of a map keeps the heap fit if the entries fit afterwards. -/
theorem modifyMap (hfit : h.Fit code) (id : MapId) {f : MapCell → MapCell}
    (hf : ∀ e ∈ (f (h.map id)).entries, e.1.Fits code h ∧ e.2.Fits code h) :
    (h.modifyMap id f).Fit code := by
  have hg := grows_modifyMap 0 h id f
  refine hfit.of_grows hg (fun _ => .inl rfl) (fun j => ?_) (fun _ => .inl rfl)
    fun _ => .inl ⟨fun h => h, rfl⟩
  rw [map_modifyMap]
  split
  · next heq =>
    refine Or.inr fun e he => ?_
    have := hf e (heq.1 ▸ he)
    exact ⟨this.1.grow hg, this.2.grow hg⟩
  · exact Or.inl rfl

/-- A change of an error that keeps its message and its place keeps the heap fit. -/
theorem modifyError (hfit : h.Fit code) (id : ErrorId) {f : ErrorCell → ErrorCell}
    (htoken : ∀ cell : ErrorCell, cell.token?.isSome → (f cell).token?.isSome)
    (hf : ∀ cell, (f cell).message = cell.message) : (h.modifyError id f).Fit code := by
  have hg := grows_modifyError 0 h id htoken
  refine hfit.of_grows hg (fun _ => .inl rfl) (fun _ => .inl rfl) (fun j => ?_)
    fun _ => .inl ⟨fun h => h, rfl⟩
  rw [error_modifyError]
  split
  · rw [hf]
    exact Or.inr ((hfit.errors j).grow hg)
  · exact Or.inl rfl

/-- A change of an instance keeps the heap fit if its fields and all that stands behind it fit
afterwards. -/
theorem modifyObject (hfit : h.Fit code) (id : ObjectId) {f : Instance → Instance}
    (hcls : (f (h.object id)).cls = (h.object id).cls)
    (hfields : ∀ e ∈ (f (h.object id)).fields, e.2.Fits code h)
    (hnatives : ∀ n ∈ (f (h.object id)).natives, n.2.Fits h)
    (hbacked : (f (h.object id)).Backed (Vouched code id))
    (hkeeps : (h.object id).Keeps ((h.object id).Opens (id < 0)) (f (h.object id))) :
    (h.modifyObject id f).Fit code := by
  have hg : h.Grows 0 (h.modifyObject id f) := grows_modifyObject hkeeps
  refine hfit.of_grows hg (fun _ => .inl rfl) (fun _ => .inl rfl) (fun _ => .inl rfl) fun j => ?_
  rw [object_modifyObject]
  split
  · next heq =>
    obtain ⟨rfl, hlt⟩ := heq
    refine Or.inr ⟨fun e he => (hfields e he).grow hg, fun n hn => (hnatives n hn).mono hg,
      hbacked, ?_⟩
    exact hcls ▸ hfit.classes j hlt
  · exact Or.inl ⟨fun hlt => by simpa [Heap.modifyObject] using hlt, rfl⟩

/-- Setting a field to a value that fits. -/
theorem setField (hfit : h.Fit code) (id : ObjectId) (name : String) {v : Value}
    (hv : v.Fits code h) : (h.modifyObject id fun i => i.setField name v).Fit code := by
  refine hfit.modifyObject id rfl (fun f hf => ?_) (hfit.natives id)
    ((hfit.backed id).of_natives rfl rfl) (.of_statuses rfl rfl)
  rcases mem_putField hf with hf | hf
  · exact hfit.fields id f hf
  · exact hf ▸ hv

/-- Recording progress. -/
theorem setStatus (hfit : h.Fit code) (id : ObjectId) (name : String) (status : InitStatus) :
    (h.modifyObject id fun i => i.setStatus name status).Fit code :=
  hfit.modifyObject id rfl (hfit.fields id) (hfit.natives id) ((hfit.backed id).of_natives rfl rfl)
    (Instance.keeps_setStatus _ _ _ (Or.inr fun hlt => absurd hlt (Nat.not_lt_zero id)))

end Fit

end Heap

end ScriptEngine
