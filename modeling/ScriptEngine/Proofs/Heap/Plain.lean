import ScriptEngine.Proofs.Heap.Copy

/-!
# What is displayed

How a value is displayed depends on nothing but the cells that it reaches, as long as it holds
built-in instances and `null` only. If another heap has these cells as they are, and no fewer cells,
the value is displayed there in the same way (`Preserves.display`): the bound on the depth is the
only other thing that displaying looks at, and a finite value is less deep in both heaps.
-/

namespace ScriptEngine

/-- `null` and the instances of built-in classes. -/
def Value.IsPlain : Value → Prop
  | .null => True
  | .datum _ => True
  | _ => False

namespace Heap

/-- A finite value of `null` and built-in instances: nothing that is reached holds itself,
references lead to cells, and there are no instances of user classes, functions or classes. -/
structure PlainData (h : Heap) (v : Value) : Prop extends Grounded h v where
  plain : ∀ u, h.Reaches v u → u.IsPlain

variable {h h' h'' : Heap} {u v w : Value}

theorem Owns.isContainer (hv : h.Owns v) : v.IsContainer := by
  cases v with
  | datum d =>
    cases d with
    | array i | map i | error i => trivial
    | _ => exact hv
  | _ => exact hv

/-- A container whose references lead to cells has one. -/
theorem Placed.owns (hv : h.Placed v) (hcontainer : v.IsContainer) : h.Owns v := by
  cases v with
  | datum d => cases d <;> first | exact hv | exact hcontainer
  | _ => exact hcontainer

/-- A value is placed if it has its cell, where it is a container. -/
theorem placed_of_owns (hv : v.IsContainer → h.Owns v) : h.Placed v := by
  cases v with
  | datum d =>
    cases d with
    | array i | map i | error i => exact hv trivial
    | _ => trivial
  | _ => trivial

/-- A plain value that is placed is plain data if all that it holds is. -/
theorem PlainData.of_held (hplaced : h.Placed v) (hplain : v.IsPlain)
    (hheld : ∀ u, h.Holds v u → h.PlainData u) : h.PlainData v where
  toGrounded := .of_held hplaced fun u hu => (hheld u hu).toGrounded
  plain := fun w hw => by
    rcases hw.cases_head with rfl | ⟨u, hu, huw⟩
    · exact hplain
    · exact (hheld u hu).plain w huw

/-! ## Cells that stay as they are -/

/-- The cell of a value, if it has one, is the same in both heaps. -/
structure SameCell (h h' : Heap) (v : Value) : Prop where
  array : ∀ i, v = .datum (.array i) → h'.array i = h.array i
  map : ∀ i, v = .datum (.map i) → h'.map i = h.map i
  error : ∀ i, v = .datum (.error i) → h'.error i = h.error i

/-- A value whose cell is the same holds the same. -/
theorem SameCell.held_iff (hsame : SameCell h h' u) : h'.Holds u w ↔ h.Holds u w := by
  constructor
  · intro huw
    cases huw with
    | item hmem => exact .item (hsame.array _ rfl ▸ hmem)
    | key he => exact .key (hsame.map _ rfl ▸ he)
    | entry he => exact .entry (hsame.map _ rfl ▸ he)
    | message i => exact hsame.error _ rfl ▸ .message i
  · intro huw
    cases huw with
    | item hmem => exact .item ((hsame.array _ rfl).symm ▸ hmem)
    | key he => exact .key ((hsame.map _ rfl).symm ▸ he)
    | entry he => exact .entry ((hsame.map _ rfl).symm ▸ he)
    | message i => exact hsame.error _ rfl ▸ .message i

/-- A cell that stayed the same twice is the same. -/
theorem SameCell.trans (hsame : SameCell h h' v) (hsame' : SameCell h' h'' v) :
    SameCell h h'' v where
  array := fun i hi => (hsame'.array i hi).trans (hsame.array i hi)
  map := fun i hi => (hsame'.map i hi).trans (hsame.map i hi)
  error := fun i hi => (hsame'.error i hi).trans (hsame.error i hi)

/-- A cell that is not there looks empty. -/
theorem array_unowned {i : ArrayId} (hi : ¬ h.Owns (.datum (.array i))) : h.array i = default :=
  dif_neg hi

theorem map_unowned {i : MapId} (hi : ¬ h.Owns (.datum (.map i))) : h.map i = default :=
  dif_neg hi

theorem error_unowned {i : ErrorId} (hi : ¬ h.Owns (.datum (.error i))) : h.error i = default :=
  dif_neg hi

/-- What is not a new cell is the same when cells are added. -/
theorem ExtendsTo.sameCell (hext : h.ExtendsTo h') (hv : h'.Owns v → h.Owns v) :
    SameCell h h' v where
  array := by
    rintro i rfl
    by_cases hi : h.Owns (.datum (.array i))
    · exact hext.array i hi
    · rw [array_unowned hi, array_unowned (mt hv hi)]
  map := by
    rintro i rfl
    by_cases hi : h.Owns (.datum (.map i))
    · exact hext.map i hi
    · rw [map_unowned hi, map_unowned (mt hv hi)]
  error := by
    rintro i rfl
    by_cases hi : h.Owns (.datum (.error i))
    · exact hext.error i hi
    · rw [error_unowned hi, error_unowned (mt hv hi)]

/-- A change within a region leaves the cells outside of it the same. -/
theorem ChangedWithin.sameCell {inside : Value → Prop} (hw : h.ChangedWithin inside h')
    (hv : v.IsContainer → ¬ inside v) : SameCell h h' v where
  array := by
    rintro i rfl
    exact hw.array i (hv trivial)
  map := by
    rintro i rfl
    exact hw.map i (hv trivial)
  error := by
    rintro i rfl
    exact hw.error i (hv trivial)

/-- A heap with no fewer cells, in which the cells that the value reaches are as they were. -/
structure Preserves (h h' : Heap) (v : Value) : Prop where
  arrays : h.arrays.size ≤ h'.arrays.size
  maps : h.maps.size ≤ h'.maps.size
  errors : h.errors.size ≤ h'.errors.size
  cells : ∀ u, h.Reaches v u → SameCell h h' u

namespace Preserves

/-- Nothing has happened to what a value reaches. -/
theorem refl (h : Heap) (v : Value) : Preserves h h v :=
  ⟨Nat.le_refl _, Nat.le_refl _, Nat.le_refl _, fun _ _ =>
    ⟨fun _ _ => rfl, fun _ _ => rfl, fun _ _ => rfl⟩⟩

/-- Added cells preserve every value whose references lead to old ones. -/
theorem of_extends (hext : h.ExtendsTo h') (hv : ∀ u, h.Reaches v u → h.Placed u) :
    Preserves h h' v where
  arrays := hext.arrays
  maps := hext.maps
  errors := hext.errors
  cells := fun u hu => hext.sameCell fun hown => (hv u hu).owns hown.isContainer

variable (hsame : Preserves h h' v)
include hsame

/-- A reached value holds the same in both heaps. -/
theorem held_iff (hu : h.Reaches v u) : h'.Holds u w ↔ h.Holds u w :=
  (hsame.cells u hu).held_iff

/-- A preserved value reaches the same in both heaps. -/
theorem reaches_iff : h'.Reaches v w ↔ h.Reaches v w := by
  constructor
  · intro hvw
    induction hvw with
    | refl => exact .refl
    | tail _ huw ih => exact .tail ih ((hsame.held_iff ih).mp huw)
  · intro hvw
    induction hvw with
    | refl => exact .refl
    | tail hvu huw ih => exact .tail ih ((hsame.held_iff hvu).mpr huw)

theorem placed (hu : h.Placed u) : h'.Placed u := by
  cases u with
  | datum d =>
    cases d with
    | array i => exact Nat.lt_of_lt_of_le hu hsame.arrays
    | map i => exact Nat.lt_of_lt_of_le hu hsame.maps
    | error i => exact Nat.lt_of_lt_of_le hu hsame.errors
    | _ => trivial
  | _ => trivial

/-- What a reached value leads to in the second heap it led to in the first. -/
theorem transGen (hu : h.Reaches v u) (huw : Relation.TransGen h'.Holds u w) :
    Relation.TransGen h.Holds u w := by
  induction huw with
  | single huw => exact .single ((hsame.held_iff hu).mp huw)
  | tail _ hxw ih => exact .tail ih ((hsame.held_iff (hu.trans ih.to_reflTransGen)).mp hxw)

/-- Plain data that are preserved are plain data. -/
theorem plainData (hv : h.PlainData v) : h'.PlainData v where
  acyclic := fun u hu hcycle =>
    hv.acyclic u (hsame.reaches_iff.mp hu) (hsame.transGen (hsame.reaches_iff.mp hu) hcycle)
  placed := fun u hu => hsame.placed (hv.placed u (hsame.reaches_iff.mp hu))
  plain := fun u hu => hv.plain u (hsame.reaches_iff.mp hu)

/-- What is preserved twice is preserved. -/
theorem trans (hsame' : Preserves h' h'' v) : Preserves h h'' v where
  arrays := hsame.arrays.trans hsame'.arrays
  maps := hsame.maps.trans hsame'.maps
  errors := hsame.errors.trans hsame'.errors
  cells := fun u hu => (hsame.cells u hu).trans (hsame'.cells u (hsame.reaches_iff.mpr hu))

end Preserves

/-! ## Displaying -/

/-- Values that are shown in the same way by themselves are so inside of a container. -/
theorem reprWith_congr {print print' : Value → String} (hprint : print u = print' u) :
    u.reprWith print = u.reprWith print' := by
  unfold Value.reprWith
  split
  · rfl
  · exact hprint

/-- Displaying a value looks at its cell and displays what it holds. -/
theorem displayUpTo_congr {n n' : Nat} (hv : v.IsPlain) (hsame : SameCell h h' v)
    (hheld : ∀ u, h.Holds v u → h'.displayUpTo n' u = h.displayUpTo n u) :
    h'.displayUpTo (n' + 1) v = h.displayUpTo (n + 1) v := by
  cases v with
  | null => rfl
  | datum d =>
    cases d with
    | array i =>
      have hshown : (h.array i).items.toList.map (Value.reprWith (h'.displayUpTo n')) =
          (h.array i).items.toList.map (Value.reprWith (h.displayUpTo n)) :=
        List.map_congr_left fun u hu => reprWith_congr (hheld u (.item hu))
      show "[" ++ ", ".intercalate ((h'.array i).items.toList.map _) ++ "]" = _
      rw [hsame.array i rfl, hshown]
      rfl
    | map i =>
      have hshown : (h.map i).entries.map (fun e => e.1.reprWith (h'.displayUpTo n') ++ ": " ++
            e.2.reprWith (h'.displayUpTo n')) =
          (h.map i).entries.map fun e => e.1.reprWith (h.displayUpTo n) ++ ": " ++
            e.2.reprWith (h.displayUpTo n) :=
        List.map_congr_left fun e he => by
          rw [reprWith_congr (hheld e.1 (.key he)), reprWith_congr (hheld e.2 (.entry he))]
      show "\x7b" ++ ", ".intercalate ((h'.map i).entries.map _) ++ "\x7d" = _
      rw [hsame.map i rfl, hshown]
      rfl
    | error i =>
      show h'.displayUpTo n' (h'.error i).message = _
      rw [hsame.error i rfl]
      exact hheld _ (.message i)
    | _ => rfl
  | _ => exact hv.elim

/-- Where a value is shallow, more depth makes no difference to how it is displayed. -/
theorem displayUpTo_shallow {depth : Nat} : ∀ {v : Value}, h.Shallow depth v →
    (∀ u, h.Reaches v u → u.IsPlain) →
      ∀ more, h.displayUpTo (depth + more) v = h.displayUpTo depth v := by
  induction depth with
  | zero => exact fun hv => hv.elim
  | succ depth ih =>
    intro v hshallow hplain more
    rw [Nat.add_right_comm]
    exact displayUpTo_congr (hplain v .refl) ⟨fun _ _ => rfl, fun _ _ => rfl, fun _ _ => rfl⟩
      fun u hu => ih (hshallow u hu) (fun w hw => hplain w (.head hu hw)) more

/-- All that a preserved value reaches looks the same, by induction on the depth. -/
theorem Preserves.displayUpTo (hsame : Preserves h h' v) (hplain : ∀ u, h.Reaches v u → u.IsPlain)
    (n : Nat) : ∀ {u : Value}, h.Reaches v u → h'.displayUpTo n u = h.displayUpTo n u := by
  induction n with
  | zero => exact fun _ => rfl
  | succ n ih =>
    intro u hu
    exact displayUpTo_congr (hplain u hu) (hsame.cells u hu) fun w hw => ih (hu.tail hw)

/-- The bound on the depth is not felt. -/
theorem PlainData.display_eq (hv : h.PlainData v) {n : Nat}
    (hn : h.arrays.size + h.maps.size + h.errors.size < n) : h.displayUpTo n v = h.display v := by
  -- One more than the number of arrays, maps and errors is enough for both.
  obtain ⟨more, rfl⟩ := Nat.exists_eq_add_of_lt hn
  obtain ⟨more', hmore'⟩ := Nat.exists_eq_add_of_lt h.lt_depthBound
  have hshallow := hv.shallow (Nat.lt_succ_self _)
  unfold display
  rw [hmore', Nat.add_right_comm _ more, Nat.add_right_comm _ more',
    displayUpTo_shallow hshallow hv.plain, displayUpTo_shallow hshallow hv.plain]

/-- A plain value is displayed as before, as long as its cells are as before. -/
theorem Preserves.display (hsame : Preserves h h' v) (hv : h.PlainData v) :
    h'.display v = h.display v := by
  have hbound : h.arrays.size + h.maps.size + h.errors.size < h'.depthBound := by
    have hlt := h'.lt_depthBound
    have harrays := hsame.arrays
    have hmaps := hsame.maps
    have herrors := hsame.errors
    omega
  calc h'.display v = h.displayUpTo h'.depthBound v := hsame.displayUpTo hv.plain _ .refl
    _ = h.display v := hv.display_eq hbound

end Heap

end ScriptEngine
