import ScriptEngine.Proofs.Heap.Region

/-!
# What a copy is

A copy of a value is made of new cells only, down to the values that are no containers, and every
new cell is a copy of one that the value reaches (`CopyUpTo`, `makes_cloneUpTo`). A cell that the
value reaches along several paths is copied once for each path. A map is copied by inserting its
copied entries into an empty map, so its entries come together where copied keys are equal.
-/

namespace ScriptEngine

/-- Arrays, maps and errors. -/
def Value.IsContainer : Value → Prop
  | .datum (.array _) => True
  | .datum (.map _) => True
  | .datum (.error _) => True
  | _ => False

namespace Heap

/-- All cells of the first heap are in the second one, and hold there what they held. -/
structure ExtendsTo (h h' : Heap) : Prop where
  arrays : h.arrays.size ≤ h'.arrays.size
  maps : h.maps.size ≤ h'.maps.size
  errors : h.errors.size ≤ h'.errors.size
  array : ∀ i < h.arrays.size, h'.array i = h.array i
  map : ∀ i < h.maps.size, h'.map i = h.map i
  error : ∀ i < h.errors.size, h'.error i = h.error i

theorem ExtendsTo.refl (h : Heap) : h.ExtendsTo h :=
  ⟨Nat.le_refl _, Nat.le_refl _, Nat.le_refl _, fun _ _ => rfl, fun _ _ => rfl, fun _ _ => rfl⟩

/-- Cells that were added in two steps were added. -/
theorem ExtendsTo.trans {h h' h'' : Heap} (h₁ : h.ExtendsTo h') (h₂ : h'.ExtendsTo h'') :
    h.ExtendsTo h'' where
  arrays := h₁.arrays.trans h₂.arrays
  maps := h₁.maps.trans h₂.maps
  errors := h₁.errors.trans h₂.errors
  array := fun i hi => (h₂.array i (hi.trans_le h₁.arrays)).trans (h₁.array i hi)
  map := fun i hi => (h₂.map i (hi.trans_le h₁.maps)).trans (h₁.map i hi)
  error := fun i hi => (h₂.error i (hi.trans_le h₁.errors)).trans (h₁.error i hi)

theorem newArray_extends (h : Heap) (cell : ArrayCell) : h.ExtendsTo (h.newArray cell).2 :=
  { ExtendsTo.refl h with
    arrays := (h.newArray_retains cell).1
    array := (h.newArray_retains cell).2 }

theorem newMap_extends (h : Heap) (cell : MapCell) : h.ExtendsTo (h.newMap cell).2 :=
  { ExtendsTo.refl h with
    maps := by simp [newMap]
    map := fun i hi => by rw [map_newMap, if_neg (Nat.ne_of_lt hi)] }

theorem newError_extends (h : Heap) (cell : ErrorCell) : h.ExtendsTo (h.newError cell).2 :=
  { ExtendsTo.refl h with
    errors := by simp [newError]
    error := fun i hi => by rw [error_newError, if_neg (Nat.ne_of_lt hi)] }

/-! ## Copies -/

/-- A map with the entries of a list inserted one after the other. -/
def insertAll (same : Value → Value → Bool) (entries : List (Value × Value)) : MapCell :=
  entries.foldl (fun cell e => cell.insert same e.1 e.2) ⟨[]⟩

/-- In the second heap, a value is a copy of one in the first heap, where its cell is none of the
first heap and `Part` says which parts are copies of which. -/
inductive Copied (base h : Heap) (Part : Value → Value → Prop) : Value → Value → Prop where
  | same {v : Value} (hv : ¬ v.IsContainer) : Copied base h Part v v
  | array {i j : ArrayId} (hnew : base.arrays.size ≤ j) (hj : j < h.arrays.size)
      (hmax : (h.array j).maxSize = (base.array i).maxSize)
      (hitems : List.Forall₂ Part (base.array i).items.toList (h.array j).items.toList) :
      Copied base h Part (.datum (.array i)) (.datum (.array j))
  | map {i j : MapId} (hnew : base.maps.size ≤ j) (hj : j < h.maps.size)
      {same : Value → Value → Bool} {entries : List (Value × Value)}
      (hentries : List.Forall₂ (fun e f => Part e.1 f.1 ∧ Part e.2 f.2) (base.map i).entries
        entries)
      (hmap : h.map j = insertAll same entries) :
      Copied base h Part (.datum (.map i)) (.datum (.map j))
  | error {i j : ErrorId} (hnew : base.errors.size ≤ j) (hj : j < h.errors.size)
      (htoken : (h.error j).token? = (base.error i).token?)
      (hmessage : Part (base.error i).message (h.error j).message) :
      Copied base h Part (.datum (.error i)) (.datum (.error j))

/-- A copy of a value that is less than a number of cells deep. -/
def CopyUpTo (base h : Heap) : Nat → Value → Value → Prop
  | 0 => fun _ _ => False
  | depth + 1 => Copied base h (CopyUpTo base h depth)

variable {base h h' : Heap} {a b u w : Value} {depth : Nat}

/-- Copies stay what they are when cells are added. -/
theorem CopyUpTo.mono (hext : h.ExtendsTo h') : ∀ {depth : Nat} {a b : Value},
    CopyUpTo base h depth a b → CopyUpTo base h' depth a b := by
  intro depth
  induction depth with
  | zero => exact fun hcopy => hcopy.elim
  | succ depth ih =>
    intro a b hcopy
    cases hcopy with
    | same hv => exact .same hv
    | array hnew hj hmax hitems =>
      rw [← hext.array _ hj] at hmax hitems
      exact .array hnew (hj.trans_le hext.arrays) hmax (hitems.imp fun _ _ => ih)
    | map hnew hj hentries hmap =>
      rw [← hext.map _ hj] at hmap
      exact .map hnew (hj.trans_le hext.maps) (hentries.imp fun _ _ => And.imp ih ih) hmap
    | error hnew hj htoken hmessage =>
      rw [← hext.error _ hj] at htoken hmessage
      exact .error hnew (hj.trans_le hext.errors) htoken (ih hmessage)

/-- What stands on the right of a relation between lists has something on the left. -/
theorem exists_of_mem_right {α β : Type} {R : α → β → Prop} {l : List α} {l' : List β}
    (hall : List.Forall₂ R l l') {y : β} (hy : y ∈ l') : ∃ x ∈ l, R x y := by
  induction hall with
  | nil => cases hy
  | @cons x z l l' hxz _ ih =>
    rcases List.mem_cons.mp hy with rfl | hy
    · exact ⟨x, List.mem_cons_self, hxz⟩
    · obtain ⟨t, ht, hty⟩ := ih hy
      exact ⟨t, List.mem_cons_of_mem x ht, hty⟩

/-- A relation between lists may be weakened for the elements on the left. -/
theorem forall₂_imp_mem {α β : Type} {R S : α → β → Prop} {l : List α} {l' : List β}
    (himp : ∀ x ∈ l, ∀ y, R x y → S x y) (hall : List.Forall₂ R l l') : List.Forall₂ S l l' := by
  have hmem : List.Forall₂ (fun x y => x ∈ l ∧ R x y) l l' :=
    (List.forall₂_and_left l l').mpr ⟨fun _ hx => hx, hall⟩
  exact hmem.imp fun x y hxy => himp x hxy.1 y hxy.2

/-- What a copy holds is a copy of something that the value holds. -/
theorem CopyUpTo.held (hcopy : CopyUpTo base h (depth + 1) a b) (hu : h.Holds b u) :
    ∃ t, base.Holds a t ∧ CopyUpTo base h depth t u := by
  cases hcopy with
  | same hv => rcases hu.container with ⟨i, rfl⟩ | ⟨i, rfl⟩ | ⟨i, rfl⟩ <;> exact absurd trivial hv
  | array _ _ _ hitems =>
    cases hu with
    | item hmem =>
      obtain ⟨t, ht, htu⟩ := exists_of_mem_right hitems hmem
      exact ⟨t, .item ht, htu⟩
  | @map i j _ _ same entries hentries hmap =>
    let P : Value → Prop := fun u => ∃ t, base.Holds (.datum (.map i)) t ∧ CopyUpTo base h depth t u
    have hcopied : ∀ f ∈ entries, P f.1 ∧ P f.2 := by
      intro f hf
      obtain ⟨e, he, hkey, hvalue⟩ := exists_of_mem_right hentries hf
      exact ⟨⟨e.1, .key he, hkey⟩, e.2, .entry he, hvalue⟩
    have hall : ∀ e ∈ (h.map j).entries, P e.1 ∧ P e.2 :=
      hmap ▸ forall_insertAll hcopied ⟨[]⟩ (by simp)
    cases hu with
    | key he => exact (hall _ he).1
    | entry he => exact (hall _ he).2
  | error _ _ _ hmessage =>
    cases hu with
    | message j => exact ⟨_, .message _, hmessage⟩

/-- What is reached from a copy is a copy of something that is reached from the value. -/
theorem CopyUpTo.reached (hcopy : CopyUpTo base h depth a b) (hw : h.Reaches b w) :
    ∃ depth' t, base.Reaches a t ∧ CopyUpTo base h (depth' + 1) t w := by
  induction hw using Relation.ReflTransGen.head_induction_on generalizing depth a with
  | refl =>
    cases depth with
    | zero => exact hcopy.elim
    | succ depth => exact ⟨depth, a, .refl, hcopy⟩
  | head hbu _ ih =>
    cases depth with
    | zero => exact hcopy.elim
    | succ depth =>
      obtain ⟨t, hat, htu⟩ := hcopy.held hbu
      obtain ⟨depth', t', htt', hcopy'⟩ := ih htu
      exact ⟨depth', t', .head hat htt', hcopy'⟩

/-- The cell of a copy is a new one. -/
theorem CopyUpTo.fresh (hcopy : CopyUpTo base h (depth + 1) a b) (hb : b.IsContainer) :
    ¬ base.Owns b ∧ h.Owns b := by
  cases hcopy with
  | same hv => exact absurd hb hv
  | array hnew hj => exact ⟨Nat.not_lt.mpr hnew, hj⟩
  | map hnew hj => exact ⟨Nat.not_lt.mpr hnew, hj⟩
  | error hnew hj => exact ⟨Nat.not_lt.mpr hnew, hj⟩

/-- A copy is as shallow as the value that it was made of. -/
theorem CopyUpTo.shallow : ∀ {depth : Nat} {a b : Value}, CopyUpTo base h depth a b →
    h.Shallow depth b := by
  intro depth
  induction depth with
  | zero => exact fun hcopy => hcopy.elim
  | succ depth ih =>
    intro a b hcopy u hu
    obtain ⟨t, -, htu⟩ := hcopy.held hu
    exact ih htu

/-! ## Making a copy -/

/-- A new array with the copied items is a copy of the array. -/
theorem copy_newArray {id : ArrayId} {items : List Value} (hsize : base.arrays.size ≤ h.arrays.size)
    (hitems : List.Forall₂ (CopyUpTo base h depth) (base.array id).items.toList items) :
    h.ExtendsTo (h.newArray ⟨items.toArray, (base.array id).maxSize⟩).2 ∧
      CopyUpTo base (h.newArray ⟨items.toArray, (base.array id).maxSize⟩).2 (depth + 1)
        (.datum (.array id)) (.datum (.array h.arrays.size)) := by
  have hext := newArray_extends h ⟨items.toArray, (base.array id).maxSize⟩
  have hcell := (array_newArray h ⟨items.toArray, (base.array id).maxSize⟩ _).trans (if_pos rfl)
  refine ⟨hext, .array hsize (by simp [newArray]) (by rw [hcell]) ?_⟩
  rw [hcell, List.toList_toArray]
  exact hitems.imp fun _ _ hv => hv.mono hext

/-- A new map with the copied entries is a copy of the map, with its keys inserted one by one. -/
theorem copy_newMap {id : MapId} {entries : List (Value × Value)} (same : Value → Value → Bool)
    (hsize : base.maps.size ≤ h.maps.size)
    (hentries : List.Forall₂ (fun e f => CopyUpTo base h depth e.1 f.1 ∧
      CopyUpTo base h depth e.2 f.2) (base.map id).entries entries) :
    h.ExtendsTo (h.newMap (insertAll same entries)).2 ∧
      CopyUpTo base (h.newMap (insertAll same entries)).2 (depth + 1) (.datum (.map id))
        (.datum (.map h.maps.size)) := by
  have hext := newMap_extends h (insertAll same entries)
  have hcell := (map_newMap h (insertAll same entries) _).trans (if_pos rfl)
  refine ⟨hext, .map hsize (by simp [newMap]) ?_ hcell⟩
  exact hentries.imp fun _ _ => And.imp (fun hk => hk.mono hext) fun hv => hv.mono hext

/-- A new error with the copied message is a copy of the error, at the same place. -/
theorem copy_newError {id : ErrorId} {message : Value} (hsize : base.errors.size ≤ h.errors.size)
    (hmessage : CopyUpTo base h depth (base.error id).message message) :
    h.ExtendsTo (h.newError ⟨message, (base.error id).token?⟩).2 ∧
      CopyUpTo base (h.newError ⟨message, (base.error id).token?⟩).2 (depth + 1)
        (.datum (.error id)) (.datum (.error h.errors.size)) := by
  have hext := newError_extends h ⟨message, (base.error id).token?⟩
  have hcell := (error_newError h ⟨message, (base.error id).token?⟩ _).trans (if_pos rfl)
  refine ⟨hext, .error hsize (by simp [newError]) (by rw [hcell]) ?_⟩
  rw [hcell]
  exact hmessage.mono hext

/-- From a heap the computation comes to one to which cells have been added only, with a
property. -/
def Makes {α : Type} (h : Heap) (x : StateM Heap α) (Q : α → Heap → Prop) : Prop :=
  h.ExtendsTo (x h).2 ∧ Q (x h).1 (x h).2

section Making

variable {α β : Type}

theorem makes_pure {x : α} {Q : α → Heap → Prop} (hx : Q x h) : Makes h (pure x) Q :=
  ⟨.refl h, hx⟩

/-- One computation adds cells to those of another. -/
theorem makes_bind {x : StateM Heap α} {f : α → StateM Heap β} {Q : α → Heap → Prop}
    {R : β → Heap → Prop} (hx : Makes h x Q)
    (hf : ∀ y h', h.ExtendsTo h' → Q y h' → Makes h' (f y) R) : Makes h (x >>= f) R := by
  obtain ⟨hext, hq⟩ := hx
  obtain ⟨hext', hr⟩ := hf _ _ hext hq
  exact ⟨hext.trans hext', hr⟩

theorem makes_get : Makes h get fun y h' => y = h ∧ h' = h :=
  ⟨.refl h, rfl, rfl⟩

/-- Copying the elements of a list one by one copies the list, since later cells leave the earlier
ones alone. -/
theorem makes_mapM {f : α → StateM Heap β} {R : α → β → Heap → Prop}
    (hmono : ∀ x y h h', R x y h → h.ExtendsTo h' → R x y h') {l : List α}
    (hf : ∀ x ∈ l, ∀ h', h.ExtendsTo h' → Makes h' (f x) (R x)) :
    Makes h (l.mapM f) fun l' h' => List.Forall₂ (fun x y => R x y h') l l' := by
  induction l generalizing h with
  | nil => exact makes_pure .nil
  | cons x l ih =>
    obtain ⟨hx, hl⟩ := List.forall_mem_cons.mp hf
    rw [List.mapM_cons]
    refine makes_bind (hx h (.refl h)) fun y h₁ hext₁ hy => ?_
    refine makes_bind (ih fun z hz h' hext => hl z hz h' (hext₁.trans hext))
      fun l' h₂ hext₂ hl' => ?_
    exact makes_pure (.cons (hmono x y h₁ h₂ hy hext₂) hl')

end Making

/-- Copying comes to a copy, if the bound on the depth is not felt. -/
theorem makes_cloneUpTo (base : Heap) (depth : Nat) : ∀ (d : Datum) (h : Heap), base.ExtendsTo h →
    base.Shallow depth (.datum d) → (∀ w, base.Reaches (.datum d) w → base.Placed w) →
      Makes h (cloneUpTo depth d) fun d' h' => CopyUpTo base h' depth (.datum d) (.datum d') := by
  induction depth with
  | zero => exact fun d h _ hshallow => hshallow.elim
  | succ depth ih =>
    intro d h hext hshallow hplaced
    unfold cloneUpTo
    extract_lets copy
    have hcopy : ∀ v, base.Holds (.datum d) v → ∀ h', h.ExtendsTo h' →
        Makes h' (copy v) fun v' h'' => CopyUpTo base h'' depth v v' := by
      intro v hv h' hext'
      cases v with
      | datum d =>
        refine makes_bind (ih d h' (hext.trans hext') (hshallow _ hv)
          fun w hw => hplaced w (.head hv hw)) fun d' h'' _ hd' => makes_pure hd'
      | _ =>
        cases depth with
        | zero => exact (hshallow _ hv).elim
        | succ depth => exact makes_pure (.same id)
    have hmono : ∀ (v v' : Value) (h₁ h₂ : Heap), CopyUpTo base h₁ depth v v' → h₁.ExtendsTo h₂ →
        CopyUpTo base h₂ depth v v' := fun _ _ _ _ hv hext => hv.mono hext
    cases d with
    | array id =>
      have hid : id < base.arrays.size := hplaced _ .refl
      refine makes_bind makes_get fun h₁ h₁' hext₁ heq => ?_
      obtain ⟨rfl, rfl⟩ := heq
      rw [hext.array id hid]
      refine makes_bind (makes_mapM (R := fun v v' h => CopyUpTo base h depth v v') hmono
        fun v hv => hcopy v (.item hv)) fun items h₂ hext₂ hitems => ?_
      exact copy_newArray (hext.trans hext₂).arrays hitems
    | map id =>
      have hid : id < base.maps.size := hplaced _ .refl
      refine makes_bind makes_get fun h₁ h₁' hext₁ heq => ?_
      obtain ⟨rfl, rfl⟩ := heq
      rw [hext.map id hid]
      refine makes_bind (makes_mapM (R := fun e f h => CopyUpTo base h depth e.1 f.1 ∧
        CopyUpTo base h depth e.2 f.2) ?_ fun e he h' hext' => ?_)
          fun entries h₂ hext₂ hentries => ?_
      · exact fun e f h₁ h₂ hef hext => ⟨hef.1.mono hext, hef.2.mono hext⟩
      · refine makes_bind (hcopy e.1 (.key he) h' hext') fun key h₁ hext₁ hkey => ?_
        refine makes_bind (hcopy e.2 (.entry he) h₁ (hext'.trans hext₁))
          fun value h₂ hext₂ hvalue => ?_
        exact makes_pure ⟨hkey.mono hext₂, hvalue⟩
      · exact copy_newMap h₂.equals (hext.trans hext₂).maps hentries
    | error id =>
      have hid : id < base.errors.size := hplaced _ .refl
      refine makes_bind makes_get fun h₁ h₁' hext₁ heq => ?_
      obtain ⟨rfl, rfl⟩ := heq
      rw [hext.error id hid]
      refine makes_bind (hcopy _ (.message id) _ (.refl _)) fun message h₂ hext₂ hmessage => ?_
      exact copy_newError (hext.trans hext₂).errors hmessage
    | _ => exact makes_pure (.same id)

end Heap

end ScriptEngine
