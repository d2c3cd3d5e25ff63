import ScriptEngine.Proofs.Heap.Builtin
import ScriptEngine.Proofs.Heap.Comparable
import ScriptEngine.Proofs.Heap.Limit
import ScriptEngine.Proofs.Heap.Methods

/-!
# Regions of the heap

A built-in method changes nothing but its receiver, and puts into it, and into the cells that it
makes, only what it finds in its receiver, in its arguments and in what these hold. So if receiver
and arguments lie in a region, that is in a part of the heap that nothing held in it leads out of,
the method leaves all other cells as they are, and nothing leads out of the region afterwards either
(`worksWithin_callMethod`). Cells that are still to be made count as part of every region.
-/

namespace ScriptEngine

namespace Heap

/-- The value is an array, a map or an error whose cell is in the heap. -/
def Owns (h : Heap) : Value → Prop
  | .datum (.array i) => i < h.arrays.size
  | .datum (.map i) => i < h.maps.size
  | .datum (.error i) => i < h.errors.size
  | _ => False

/-- Every value without a cell in the heap lies in the region, as far as it is `null` or an instance
of a built-in class. -/
structure Surrounds (base : Heap) (inside : Value → Prop) : Prop where
  null : inside .null
  unowned : ∀ d : Datum, ¬ base.Owns (.datum d) → inside (.datum d)

/-- The heap has come from `base`: no cell outside of the region has changed, and no cell in the
region holds anything outside of it. -/
structure ChangedWithin (inside : Value → Prop) (base h : Heap) : Prop where
  arrays : base.arrays.size ≤ h.arrays.size
  maps : base.maps.size ≤ h.maps.size
  errors : base.errors.size ≤ h.errors.size
  array : ∀ i, ¬ inside (.datum (.array i)) → h.array i = base.array i
  map : ∀ i, ¬ inside (.datum (.map i)) → h.map i = base.map i
  error : ∀ i, ¬ inside (.datum (.error i)) → h.error i = base.error i
  items : ∀ i, inside (.datum (.array i)) → ∀ v ∈ (h.array i).items, inside v
  entries : ∀ i, inside (.datum (.map i)) → ∀ e ∈ (h.map i).entries, inside e.1 ∧ inside e.2
  message : ∀ i, inside (.datum (.error i)) → inside (h.error i).message

section

variable {inside : Value → Prop} {base h : Heap}

/-- Nothing has changed in a region that holds what is in it. -/
theorem ChangedWithin.refl (hheld : ∀ u w, inside u → base.Holds u w → inside w) :
    base.ChangedWithin inside base where
  arrays := Nat.le_refl _
  maps := Nat.le_refl _
  errors := Nat.le_refl _
  array := fun _ _ => rfl
  map := fun _ _ => rfl
  error := fun _ _ => rfl
  items := fun _ hi v hv => hheld _ v hi (.item (Array.mem_toList_iff.mpr hv))
  entries := fun _ hi _ he => ⟨hheld _ _ hi (.key he), hheld _ _ hi (.entry he)⟩
  message := fun i hi => hheld _ _ hi (.message i)

/-- A region still holds what is in it. -/
theorem ChangedWithin.held (hw : base.ChangedWithin inside h) {u w : Value} (hu : inside u)
    (huw : h.Holds u w) : inside w := by
  cases huw with
  | item hv => exact hw.items _ hu w (Array.mem_toList_iff.mp hv)
  | key he => exact (hw.entries _ hu _ he).1
  | entry he => exact (hw.entries _ hu _ he).2
  | message i => exact hw.message i hu

end

end Heap

open Heap

variable {inside : Value → Prop} {base h : Heap}

/-! ## Cells -/

namespace Heap.ChangedWithin

variable (hw : base.ChangedWithin inside h)
include hw

/-- An array of the region may be changed to hold values of the region. -/
theorem modifyArray {id : ArrayId} (hid : inside (.datum (.array id))) {f : ArrayCell → ArrayCell}
    (hf : ∀ v ∈ (f (h.array id)).items, inside v) :
    base.ChangedWithin inside (h.modifyArray id f) := by
  refine { hw with arrays := ?_, array := fun j hj => ?_, items := fun j hj => ?_ }
  · exact hw.arrays.trans (Nat.le_of_eq Array.size_modify.symm)
  · have hne : j ≠ id := fun heq => hj (heq ▸ hid)
    rw [array_modifyArray, if_neg (fun h => hne h.1)]
    exact hw.array j hj
  · rw [array_modifyArray]
    split
    · next heq => exact heq.1 ▸ hf
    · exact hw.items j hj

theorem modifyMap {id : MapId} (hid : inside (.datum (.map id))) {f : MapCell → MapCell}
    (hf : ∀ e ∈ (f (h.map id)).entries, inside e.1 ∧ inside e.2) :
    base.ChangedWithin inside (h.modifyMap id f) := by
  refine { hw with maps := ?_, map := fun j hj => ?_, entries := fun j hj => ?_ }
  · exact hw.maps.trans (Nat.le_of_eq Array.size_modify.symm)
  · have hne : j ≠ id := fun heq => hj (heq ▸ hid)
    rw [map_modifyMap, if_neg (fun h => hne h.1)]
    exact hw.map j hj
  · rw [map_modifyMap]
    split
    · next heq => exact heq.1 ▸ hf
    · exact hw.entries j hj

/-- A new cell has a number that no cell of `base` has. -/
theorem new_array (hs : base.Surrounds inside) : inside (.datum (.array h.arrays.size)) :=
  hs.unowned _ (Nat.not_lt.mpr hw.arrays)

/-- The number of a new map lies in the region. -/
theorem new_map (hs : base.Surrounds inside) : inside (.datum (.map h.maps.size)) :=
  hs.unowned _ (Nat.not_lt.mpr hw.maps)

theorem new_error (hs : base.Surrounds inside) : inside (.datum (.error h.errors.size)) :=
  hs.unowned _ (Nat.not_lt.mpr hw.errors)

/-- A new array of values of the region leaves the rest as it is. -/
theorem newArray (hs : base.Surrounds inside) {cell : ArrayCell}
    (hcell : ∀ v ∈ cell.items, inside v) : base.ChangedWithin inside (h.newArray cell).2 := by
  have hnew := hw.new_array hs
  refine { hw with arrays := ?_, array := fun j hj => ?_, items := fun j hj => ?_ }
  · exact hw.arrays.trans (h.newArray_retains cell).1
  · have hne : j ≠ h.arrays.size := fun heq => hj (heq ▸ hnew)
    rw [array_newArray, if_neg hne]
    exact hw.array j hj
  · rw [array_newArray]
    split
    · exact hcell
    · exact hw.items j hj

theorem newMap (hs : base.Surrounds inside) {cell : MapCell}
    (hcell : ∀ e ∈ cell.entries, inside e.1 ∧ inside e.2) :
    base.ChangedWithin inside (h.newMap cell).2 := by
  have hnew := hw.new_map hs
  refine { hw with maps := ?_, map := fun j hj => ?_, entries := fun j hj => ?_ }
  · exact hw.maps.trans (by simp [Heap.newMap])
  · have hne : j ≠ h.maps.size := fun heq => hj (heq ▸ hnew)
    rw [map_newMap, if_neg hne]
    exact hw.map j hj
  · rw [map_newMap]
    split
    · exact hcell
    · exact hw.entries j hj

theorem newError (hs : base.Surrounds inside) {cell : ErrorCell} (hcell : inside cell.message) :
    base.ChangedWithin inside (h.newError cell).2 := by
  have hnew := hw.new_error hs
  refine { hw with errors := ?_, error := fun j hj => ?_, message := fun j hj => ?_ }
  · exact hw.errors.trans (by simp [Heap.newError])
  · have hne : j ≠ h.errors.size := fun heq => hj (heq ▸ hnew)
    rw [error_newError, if_neg hne]
    exact hw.error j hj
  · rw [error_newError]
    split
    · exact hcell
    · exact hw.message j hj

end Heap.ChangedWithin

/-! ## Work in a region -/

/-- What values in the region can be taken to is in the region. -/
theorem Heap.ChangedWithin.ready (hw : base.ChangedWithin inside h) (hs : base.Surrounds inside)
    {hand : List Value} (hhand : ∀ v ∈ hand, inside v) {v : Value} (hv : h.Ready hand v) :
    inside v := by
  cases hv with
  | scalar hv =>
    cases v with
    | null => exact hs.null
    | datum d =>
      refine hs.unowned d fun howns => ?_
      cases d with
      | array id | map id | error id => exact hv
      | _ => exact howns
    | _ => exact hv.elim
  | given hv => exact hhand v hv
  | held hu huv => exact hw.held (hhand _ hu) huv

/-- Work with values of the region at hand, changing cells of the region, stays in it. -/
theorem Heap.ChangedWithin.works (hs : base.Surrounds inside) {changes : Value → Prop}
    (hchanges : ∀ v, changes v → inside v) {given hand : List Value} {h' : Heap}
    (work : h.Works changes given h' hand) (hw : base.ChangedWithin inside h)
    (hgiven : ∀ v ∈ given, inside v) :
    base.ChangedWithin inside h' ∧ ∀ v ∈ hand, inside v := by
  induction work with
  | start => exact ⟨hw, hgiven⟩
  | take _ hv ih =>
    obtain ⟨hw', hhand⟩ := ih
    exact ⟨hw', List.forall_mem_cons.mpr ⟨hw'.ready hs hhand hv, hhand⟩⟩
  | newArray _ hitems ih =>
    obtain ⟨hw', hhand⟩ := ih
    refine ⟨hw'.newArray hs fun v hv => hw'.ready hs hhand (hitems v hv), ?_⟩
    exact List.forall_mem_cons.mpr ⟨hw'.new_array hs, hhand⟩
  | newMap _ hentries ih =>
    obtain ⟨hw', hhand⟩ := ih
    refine ⟨hw'.newMap hs fun e he => ⟨?_, ?_⟩, List.forall_mem_cons.mpr ⟨hw'.new_map hs, hhand⟩⟩
    · exact hw'.ready hs hhand (hentries e he).1
    · exact hw'.ready hs hhand (hentries e he).2
  | newError _ hmessage ih =>
    obtain ⟨hw', hhand⟩ := ih
    refine ⟨hw'.newError hs (hw'.ready hs hhand hmessage), ?_⟩
    exact List.forall_mem_cons.mpr ⟨hw'.new_error hs, hhand⟩
  | modifyArray _ hid hitems ih =>
    obtain ⟨hw', hhand⟩ := ih
    exact ⟨hw'.modifyArray (hchanges _ hid) fun v hv => hw'.ready hs hhand (hitems v hv), hhand⟩
  | modifyMap _ hid hentries ih =>
    obtain ⟨hw', hhand⟩ := ih
    refine ⟨hw'.modifyMap (hchanges _ hid) fun e he => ⟨?_, ?_⟩, hhand⟩
    · exact hw'.ready hs hhand (hentries e he).1
    · exact hw'.ready hs hhand (hentries e he).2

namespace Action

/-- The store that an action leaves, whether it answers or refuses. -/
def left {α : Type} (a : Action α) (s : Store) : Store :=
  match a s with
  | .ok _ s' => s'
  | .error _ s' => s'

/-- From a heap that has changed within the region only, the action comes to another such heap. -/
def WorksWithin {α : Type} (inside : Value → Prop) (base : Heap) (a : Action α) : Prop :=
  ∀ s, base.ChangedWithin inside s.heap → base.ChangedWithin inside (a.left s).heap

end Action

namespace Builtin

open ScriptEngine.Action

/-- A method of a built-in instance stays in any region that its receiver and its arguments lie
in. -/
theorem worksWithin_callMethod (hs : base.Surrounds inside) {receiver : Datum}
    (hreceiver : inside (.datum receiver)) (method : String) {args : List Value}
    (hargs : ∀ v ∈ args, inside v) : WorksWithin inside base (callMethod receiver method args) := by
  intro s hw
  have hcomes := comes_callMethod receiver method args s
  unfold left
  cases hrun : callMethod receiver method args s with
  | error fault s' =>
    obtain ⟨rfl, -⟩ := hcomes.error hrun
    exact hw
  | ok v s' =>
    obtain ⟨hand, work, -⟩ := hcomes.ok hrun
    have hchanges : ∀ u : Value, u = .datum receiver → inside u := fun u hu => hu ▸ hreceiver
    exact (ChangedWithin.works hs hchanges work hw (List.forall_mem_cons.mpr ⟨hreceiver, hargs⟩)).1

end Builtin

end ScriptEngine
