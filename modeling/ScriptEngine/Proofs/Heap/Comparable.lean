import Mathlib.Data.List.Forall2
import Mathlib.Data.List.Nodup
import Mathlib.Data.List.Pairwise
import Mathlib.Data.List.Perm.Subperm
import ScriptEngine.Proofs.Heap.Equality
import ScriptEngine.Proofs.Session.Play

/-!
# Equality as an equivalence

Equality looks for every entry of one map in the other one and compares the numbers of entries. That
is the same in both directions as long as no map has two equal keys. Inserting keeps it so, but keys
are containers that may change later, and then two keys of one map can become equal
(`equality_one_sided`).

For values that are finite trees, hold only numbers that are numbers, and hold no map with two equal
keys, equality is symmetric and transitive (`equals_symm_trans`). Such values are `Comparable`. They
are no deeper than the heap has cells, so that the bound on the depth of a comparison is never felt
(`equals_unfold`).
-/

namespace ScriptEngine.Heap

/-- References lead to cells. -/
def Placed (h : Heap) : Value → Prop
  | .datum (.array i) => i < h.arrays.size
  | .datum (.map i) => i < h.maps.size
  | .datum (.error i) => i < h.errors.size
  | _ => True

/-- Nothing that is reached from the value holds itself, and every reference leads to a cell. -/
structure Grounded (h : Heap) (v : Value) : Prop where
  acyclic : ∀ u, h.Reaches v u → ¬ Relation.TransGen h.Holds u u
  placed : ∀ u, h.Reaches v u → h.Placed u

/-- No two keys are equal. -/
def Apart (h : Heap) (entries : List (Value × Value)) : Prop :=
  entries.Pairwise fun e f => h.equals e.1 f.1 = false

/-- Nothing that is reached from the value holds itself, every reference leads to a cell, numbers
are numbers, and no two keys of a map are equal. -/
structure Comparable (h : Heap) (v : Value) : Prop where
  acyclic : ∀ u, h.Reaches v u → ¬ Relation.TransGen h.Holds u u
  placed : ∀ u, h.Reaches v u → h.Placed u
  numbers : ∀ x, h.Reaches v (.number x) → x.isNaN = false
  keys : ∀ i, h.Reaches v (.datum (.map i)) → h.Apart (h.map i).entries

variable {h : Heap} {a b c u v : Value}

/-- What a grounded value holds is grounded. -/
theorem Grounded.held (hv : h.Grounded v) (hu : h.Holds v u) : h.Grounded u where
  acyclic := fun w hw => hv.acyclic w (.head hu hw)
  placed := fun w hw => hv.placed w (.head hu hw)

theorem Comparable.grounded (hv : h.Comparable v) : h.Grounded v :=
  ⟨hv.acyclic, hv.placed⟩

/-- What a comparable value holds is comparable. -/
theorem Comparable.held (hv : h.Comparable v) (hu : h.Holds v u) : h.Comparable u where
  acyclic := fun w hw => hv.acyclic w (.head hu hw)
  placed := fun w hw => hv.placed w (.head hu hw)
  numbers := fun x hx => hv.numbers x (.head hu hx)
  keys := fun i hi => hv.keys i (.head hu hi)

/-- A value whose references lead to cells is grounded if all that it holds is. -/
theorem Grounded.of_held (hplaced : h.Placed v) (hheld : ∀ u, h.Holds v u → h.Grounded u) :
    h.Grounded v where
  acyclic := fun w hw => by
    rcases hw.cases_head with rfl | ⟨u, hu, huw⟩
    · intro hcycle
      obtain ⟨u, hu, huv⟩ := Relation.TransGen.head'_iff.mp hcycle
      exact (hheld u hu).acyclic v huv hcycle
    · exact (hheld u hu).acyclic w huw
  placed := fun w hw => by
    rcases hw.cases_head with rfl | ⟨u, hu, huw⟩
    · exact hplaced
    · exact (hheld u hu).placed w huw

/-- A value is comparable if everything that it holds is. -/
theorem Comparable.of_held (hplaced : h.Placed v) (hnumber : ∀ x, v = .number x → x.isNaN = false)
    (hkeys : ∀ i, v = .datum (.map i) → h.Apart (h.map i).entries)
    (hheld : ∀ u, h.Holds v u → h.Comparable u) : h.Comparable v where
  acyclic := (Grounded.of_held hplaced fun u hu => (hheld u hu).grounded).acyclic
  placed := (Grounded.of_held hplaced fun u hu => (hheld u hu).grounded).placed
  numbers := fun x hx => by
    rcases hx.cases_head with rfl | ⟨u, hu, hux⟩
    · exact hnumber x rfl
    · exact (hheld u hu).numbers x hux
  keys := fun i hi => by
    rcases hi.cases_head with rfl | ⟨u, hu, hui⟩
    · exact hkeys i rfl
    · exact (hheld u hu).keys i hui

/-! ## Depth -/

/-- The value is less than a number of cells deep. -/
def Shallow (h : Heap) : Nat → Value → Prop
  | 0, _ => False
  | depth + 1, v => ∀ u, h.Holds v u → Shallow h depth u

/-- A number for the cell of each container. -/
def cellNumber (h : Heap) : Value → Nat
  | .datum (.array i) => i
  | .datum (.map i) => h.arrays.size + i
  | .datum (.error i) => h.arrays.size + h.maps.size + i
  | _ => 0

/-- Only arrays, maps and errors hold something. -/
theorem Holds.container (hu : h.Holds v u) :
    (∃ i, v = .datum (.array i)) ∨ (∃ i, v = .datum (.map i)) ∨ ∃ i, v = .datum (.error i) := by
  cases hu with
  | item hv => exact Or.inl ⟨_, rfl⟩
  | key he => exact Or.inr (Or.inl ⟨_, rfl⟩)
  | entry he => exact Or.inr (Or.inl ⟨_, rfl⟩)
  | message i => exact Or.inr (Or.inr ⟨i, rfl⟩)

/-- The arrays have the first numbers, then come the maps, and then the errors. -/
theorem cellNumber_cases (hplaced : h.Placed v) (hu : h.Holds v u) :
    (h.cellNumber v < h.arrays.size ∧ v = .datum (.array (h.cellNumber v))) ∨
    (h.arrays.size ≤ h.cellNumber v ∧ h.cellNumber v < h.arrays.size + h.maps.size ∧
      v = .datum (.map (h.cellNumber v - h.arrays.size))) ∨
    (h.arrays.size + h.maps.size ≤ h.cellNumber v ∧
      h.cellNumber v < h.arrays.size + h.maps.size + h.errors.size ∧
      v = .datum (.error (h.cellNumber v - h.arrays.size - h.maps.size))) := by
  rcases hu.container with ⟨i, rfl⟩ | ⟨i, rfl⟩ | ⟨i, rfl⟩
  · exact Or.inl ⟨hplaced, rfl⟩
  · refine Or.inr (Or.inl ⟨Nat.le_add_right _ _, Nat.add_lt_add_left hplaced _, ?_⟩)
    rw [cellNumber, Nat.add_sub_cancel_left]
  · refine Or.inr (Or.inr ⟨Nat.le_add_right _ _, Nat.add_lt_add_left hplaced _, ?_⟩)
    rw [cellNumber, Nat.sub_sub, Nat.add_sub_cancel_left]

/-- The cells that hold something have numbers below the number of all cells. -/
theorem cellNumber_lt (hplaced : h.Placed v) (hu : h.Holds v u) :
    h.cellNumber v < h.arrays.size + h.maps.size + h.errors.size := by
  rcases cellNumber_cases hplaced hu with ⟨hlt, -⟩ | ⟨-, hlt, -⟩ | ⟨-, hlt, -⟩ <;> omega

/-- Different cells that hold something have different numbers. -/
theorem cellNumber_inj {w t : Value} (hv : h.Placed v) (hw : h.Placed w) (hu : h.Holds v u)
    (ht : h.Holds w t) (heq : h.cellNumber v = h.cellNumber w) : v = w := by
  rcases cellNumber_cases hv hu with ⟨hlt, hv⟩ | ⟨hle, hlt, hv⟩ | ⟨hle, hlt, hv⟩ <;>
    rcases cellNumber_cases hw ht with ⟨hlt', hw⟩ | ⟨hle', hlt', hw⟩ |
      ⟨hle', hlt', hw⟩ <;>
    first
      | omega
      | rw [hv, hw, heq]

/-- A chain of containers, each of which holds the next at some depth, has no repetition and is no
longer than the heap has cells. -/
theorem length_chain_le {chain : List Value} (hnodup : chain.Nodup)
    (hchain : ∀ w ∈ chain, h.Placed w ∧ Relation.TransGen h.Holds w v) :
    chain.length ≤ h.arrays.size + h.maps.size + h.errors.size := by
  have hheld : ∀ w ∈ chain, ∃ u, h.Holds w u := fun w hw =>
    (Relation.TransGen.head'_iff.mp (hchain w hw).2).imp fun _ => And.left
  have hnumbers : (chain.map h.cellNumber).Nodup := by
    refine List.Nodup.map_on (fun w hw t ht heq => ?_) hnodup
    obtain ⟨_, hwu⟩ := hheld w hw
    obtain ⟨_, htu⟩ := hheld t ht
    exact cellNumber_inj (hchain w hw).1 (hchain t ht).1 hwu htu heq
  have hsub : chain.map h.cellNumber ⊆
      List.range (h.arrays.size + h.maps.size + h.errors.size) := by
    intro n hn
    obtain ⟨w, hw, rfl⟩ := List.mem_map.mp hn
    obtain ⟨_, hwu⟩ := hheld w hw
    exact List.mem_range.mpr (cellNumber_lt (hchain w hw).1 hwu)
  have hle := (List.subperm_of_subset hnumbers hsub).length_le
  rwa [List.length_map, List.length_range] at hle

/-- What is below a chain of containers is less deep than there are cells left. -/
theorem Grounded.shallow_below {depth : Nat} : ∀ {chain : List Value} {v : Value},
    h.Grounded v → chain.Nodup →
    (∀ w ∈ chain, h.Placed w ∧ Relation.TransGen h.Holds w v) →
    h.arrays.size + h.maps.size + h.errors.size < depth + chain.length → h.Shallow depth v := by
  induction depth with
  | zero =>
    intro chain v hv hnodup hchain hlt
    have hle := length_chain_le hnodup hchain
    omega
  | succ depth ih =>
    intro chain v hv hnodup hchain hlt u hu
    have hfresh : v ∉ chain := fun hmem => hv.acyclic v .refl (hchain v hmem).2
    have hnodup' : (v :: chain).Nodup := List.nodup_cons.mpr ⟨hfresh, hnodup⟩
    refine ih (hv.held hu) hnodup' ?_ ?_
    · intro w hw
      rcases List.mem_cons.mp hw with rfl | hw
      · exact ⟨hv.placed w .refl, .single hu⟩
      · exact ⟨(hchain w hw).1, (hchain w hw).2.tail hu⟩
    · rw [List.length_cons]
      omega

/-- There are never more cells below one another than there are cells. -/
theorem Grounded.shallow (hv : h.Grounded v) {depth : Nat}
    (hdepth : h.arrays.size + h.maps.size + h.errors.size < depth) : h.Shallow depth v :=
  hv.shallow_below List.nodup_nil (fun _ hw => absurd hw List.not_mem_nil) hdepth

/-- The depth that equality is given is more than there are cells. -/
theorem lt_depthBound (h : Heap) :
    h.arrays.size + h.maps.size + h.errors.size < h.depthBound := by
  unfold depthBound
  omega

theorem Comparable.shallow (hv : h.Comparable v) : h.Shallow h.depthBound v :=
  hv.grounded.shallow h.lt_depthBound

/-- Where a value is shallow, more depth makes no difference to comparisons with it. -/
theorem equalsUpTo_shallow {depth : Nat} : ∀ {a : Value}, h.Shallow depth a →
    ∀ (more : Nat) (b : Value),
      h.equalsUpTo none (depth + more) a b = h.equalsUpTo none depth a b ∧
      h.equalsUpTo none (depth + more) b a = h.equalsUpTo none depth b a := by
  induction depth with
  | zero => exact fun ha => ha.elim
  | succ depth ih =>
    intro a ha more b
    rw [Nat.add_right_comm]
    exact ⟨equalsUpTo_congr (fun _ _ => rfl) fun u w hu _ => ih (ha u hu) more w,
      equalsUpTo_congr (fun _ _ => rfl) fun w u _ hu => (ih (ha u hu) more w).symm⟩

/-- A comparison with a value that is comparable has one level more than it needs. -/
theorem equals_unfold (ha : h.Comparable a) (b : Value) :
    h.equals a b = h.equalsUpTo none (h.depthBound + 1) a b :=
  (equalsUpTo_shallow ha.shallow 1 b).1.symm

/-- Arrays are equal if they are the same or have equal items at the same positions. -/
theorem equals_arrays {i j : ArrayId} (hi : h.Comparable (.datum (.array i))) :
    h.equals (.datum (.array i)) (.datum (.array j)) = true ↔
      i = j ∨ List.Forall₂ (fun u w => h.equals u w = true) (h.array i).items.toList
        (h.array j).items.toList := by
  rw [equals_unfold hi, equalsUpTo_array, List.forall₂_iff_zip]
  simp only [Bool.or_eq_true, Bool.and_eq_true, beq_iff_eq, List.all_eq_true, Prod.forall,
    Array.length_toList]
  rfl

/-- Errors are equal if they are the same or have equal messages. -/
theorem equals_errors {i j : ErrorId} (hi : h.Comparable (.datum (.error i))) :
    h.equals (.datum (.error i)) (.datum (.error j)) = true ↔
      i = j ∨ h.equals (h.error i).message (h.error j).message = true := by
  rw [equals_unfold hi, equalsUpTo_error, Bool.or_eq_true, beq_iff_eq]
  rfl

/-- Maps are equal if they are the same, or have as many entries and each key of the left one has an
equal value in the right one. -/
theorem equals_maps {i j : MapId} (hi : h.Comparable (.datum (.map i))) :
    h.equals (.datum (.map i)) (.datum (.map j)) = true ↔
      i = j ∨ (h.map i).entries.length = (h.map j).entries.length ∧
        ∀ e ∈ (h.map i).entries, ∃ v, (h.map j).get? h.equals e.1 = some v ∧
          h.equals v e.2 = true := by
  rw [equals_unfold hi, equalsUpTo_map]
  simp only [Bool.or_eq_true, Bool.and_eq_true, beq_iff_eq, List.all_eq_true, Option.any_eq_true,
    bne_iff_ne, ne_eq, reduceCtorEq, not_false_eq_true, true_and]
  rfl

/-! ## Values without cells -/

/-- A value that is no NaN is equal to itself. -/
theorem equalsUpTo_self {depth : Nat} (ha : ∀ x, a = .number x → x.isNaN = false) :
    h.equalsUpTo none (depth + 1) a a = true := by
  by_cases hkin : Kin a a
  · cases hkin with
    | arrays i => rw [equalsUpTo_array, beq_self_eq_true, Bool.true_or]
    | maps i => rw [equalsUpTo_map, beq_self_eq_true, Bool.true_or]
    | errors i => rw [equalsUpTo_error, beq_self_eq_true, Bool.true_or]
  · refine (equalsUpTo_iff_face hkin).mpr ⟨?_, rfl⟩
    cases a with
    | datum d =>
      cases d with
      | number x =>
        rw [Value.face?, Option.isSome_map]
        exact Number.isSome_value? (ha x rfl)
      | _ => first | rfl | exact absurd (by constructor) hkin
    | _ => rfl

/-- A value equals itself, unless it is not a number. -/
theorem equals_self (ha : ∀ x, a = .number x → x.isNaN = false) : h.equals a a = true :=
  equalsUpTo_self ha

/-- Values that are not two containers of a kind are equal if they have the same face. -/
theorem equals_iff_face (hkin : ¬ Kin a b) :
    h.equals a b = true ↔ a.face?.isSome ∧ a.face? = b.face? :=
  equalsUpTo_iff_face hkin

theorem Kin.symm (hkin : Kin a b) : Kin b a := by
  cases hkin <;> constructor

/-- What equals a container is a container of the same kind. -/
theorem Kin.next (hkin : Kin a b) (hbc : h.equals b c = true) : Kin b c := by
  by_contra hother
  have hface := ((equals_iff_face hother).mp hbc).1
  rw [hkin.face?.2] at hface
  cases hface

/-- For such values equality is symmetric. -/
theorem equals_symm_plain (hkin : ¬ Kin a b) (hab : h.equals a b = true) :
    h.equals b a = true := by
  obtain ⟨hsome, heq⟩ := (equals_iff_face hkin).mp hab
  exact (equals_iff_face fun hba => hkin hba.symm).mpr ⟨heq ▸ hsome, heq.symm⟩

/-- For such values it goes on from one to the next. -/
theorem equals_trans_plain (hkin : ¬ Kin a b) (hab : h.equals a b = true)
    (hbc : h.equals b c = true) : h.equals a c = true := by
  obtain ⟨hsome, heq⟩ := (equals_iff_face hkin).mp hab
  have hother : ∀ w, b.face? = w.face? → ∀ t, ¬ Kin w t := fun w hw t hwt => by
    rw [heq, hw, hwt.face?.1] at hsome
    cases hsome
  obtain ⟨-, heq'⟩ := (equals_iff_face (hother b rfl c)).mp hbc
  exact (equals_iff_face (hother a heq.symm c)).mpr ⟨hsome, heq.trans heq'⟩

/-! ## Maps without equal keys -/

/-- Some values are equated as in an equivalence. -/
structure Equates (h : Heap) (among : Value → Prop) : Prop where
  refl : ∀ a, among a → h.equals a a = true
  symm : ∀ a b, among a → among b → h.equals a b = true → h.equals b a = true
  trans : ∀ a b c, among a → among b → among c → h.equals a b = true → h.equals b c = true →
    h.equals a c = true

/-- Every entry of the first list has an equal one in the second. -/
def Covered (h : Heap) (entries entries' : List (Value × Value)) : Prop :=
  ∀ e ∈ entries, ∃ f ∈ entries', h.equals f.1 e.1 = true ∧ h.equals f.2 e.2 = true

section

variable {among : Value → Prop}

/-- If equality is symmetric among the items, it is so of lists of them. -/
theorem Equates.forall₂_symm (heq : h.Equates among) {us ws : List Value}
    (hus : ∀ u ∈ us, among u) (hws : ∀ w ∈ ws, among w)
    (hall : List.Forall₂ (fun u w => h.equals u w = true) us ws) :
    List.Forall₂ (fun u w => h.equals u w = true) ws us := by
  induction hall with
  | nil => exact .nil
  | cons huw _ ih =>
    obtain ⟨hu, hus⟩ := List.forall_mem_cons.mp hus
    obtain ⟨hw, hws⟩ := List.forall_mem_cons.mp hws
    exact .cons (heq.symm _ _ hu hw huw) (ih hus hws)

/-- If equality is transitive among the items, it is so of lists of them. -/
theorem Equates.forall₂_trans (heq : h.Equates among) {us ws ts : List Value}
    (hus : ∀ u ∈ us, among u) (hws : ∀ w ∈ ws, among w) (hts : ∀ t ∈ ts, among t)
    (hall : List.Forall₂ (fun u w => h.equals u w = true) us ws)
    (hall' : List.Forall₂ (fun u w => h.equals u w = true) ws ts) :
    List.Forall₂ (fun u w => h.equals u w = true) us ts := by
  induction hall generalizing ts with
  | nil => exact hall'
  | cons huw _ ih =>
    cases hall' with
    | cons hwt hrest =>
      obtain ⟨hu, hus⟩ := List.forall_mem_cons.mp hus
      obtain ⟨hw, hws⟩ := List.forall_mem_cons.mp hws
      obtain ⟨ht, hts⟩ := List.forall_mem_cons.mp hts
      exact .cons (heq.trans _ _ _ hu hw ht huw hwt) (ih hus hws hts hrest)

variable {entries entries' entries'' : List (Value × Value)}

/-- Entries with equal keys are the same. -/
theorem Apart.eq (hapart : h.Apart entries) (heq : h.Equates among)
    (hamong : ∀ e ∈ entries, among e.1) {e f : Value × Value} (he : e ∈ entries)
    (hf : f ∈ entries) (hkeys : h.equals e.1 f.1 = true) : e = f := by
  have hboth : entries.Pairwise fun e f =>
      h.equals e.1 f.1 = false ∧ h.equals f.1 e.1 = false := by
    refine hapart.imp_of_mem fun {e f} he hf hef => ⟨hef, Bool.eq_false_iff.mpr fun hfe => ?_⟩
    cases hef.symm.trans (heq.symm _ _ (hamong f hf) (hamong e he) hfe)
  have hsymm : Std.Symm fun e f : Value × Value =>
      h.equals e.1 f.1 = false ∧ h.equals f.1 e.1 = false := ⟨fun _ _ => And.symm⟩
  by_contra hne
  have hdiffer := hboth.forall he hf hne
  cases hdiffer.1.symm.trans hkeys

/-- Two lists of one length without equal keys cover each other or neither does: no two entries of
the first have the same entry of the second, so that none of the second is left over. -/
theorem Covered.symm (hcovered : h.Covered entries entries') (heq : h.Equates among)
    (hamong : ∀ e ∈ entries, among e.1 ∧ among e.2)
    (hamong' : ∀ e ∈ entries', among e.1 ∧ among e.2) (hapart : h.Apart entries)
    (hlength : entries.length = entries'.length) : h.Covered entries' entries := by
  choose! partner hpartner using hcovered
  have hnodup : (entries.map partner).Nodup := by
    refine List.pairwise_map.mpr (hapart.imp_of_mem fun {e f} he hf hdiffer hsame => ?_)
    obtain ⟨hmem, hkey, -⟩ := hpartner e he
    have hkey' := (hpartner f hf).2.1
    rw [← hsame] at hkey'
    have hkeys := heq.trans _ _ _ (hamong e he).1 (hamong' _ hmem).1 (hamong f hf).1
      (heq.symm _ _ (hamong' _ hmem).1 (hamong e he).1 hkey) hkey'
    cases hdiffer.symm.trans hkeys
  have hsub : entries.map partner ⊆ entries' := fun f hf => by
    obtain ⟨e, he, rfl⟩ := List.mem_map.mp hf
    exact (hpartner e he).1
  have hperm := (List.subperm_of_subset hnodup hsub).perm_of_length_le (by
    rw [List.length_map, hlength])
  intro f hf
  obtain ⟨e, he, rfl⟩ := List.mem_map.mp (hperm.mem_iff.mpr hf)
  obtain ⟨-, hkey, hvalue⟩ := hpartner e he
  exact ⟨e, he, heq.symm _ _ (hamong' _ hf).1 (hamong e he).1 hkey,
    heq.symm _ _ (hamong' _ hf).2 (hamong e he).2 hvalue⟩

/-- If every entry of a list has an equal one in a second list, and every entry of that in a third,
then the third covers the first. -/
theorem Covered.trans (hcovered : h.Covered entries entries')
    (hcovered' : h.Covered entries' entries'') (heq : h.Equates among)
    (hamong : ∀ e ∈ entries, among e.1 ∧ among e.2)
    (hamong' : ∀ e ∈ entries', among e.1 ∧ among e.2)
    (hamong'' : ∀ e ∈ entries'', among e.1 ∧ among e.2) : h.Covered entries entries'' := by
  intro e he
  obtain ⟨f, hf, hkey, hvalue⟩ := hcovered e he
  obtain ⟨g, hg, hkey', hvalue'⟩ := hcovered' f hf
  exact ⟨g, hg, heq.trans _ _ _ (hamong'' g hg).1 (hamong' f hf).1 (hamong e he).1 hkey' hkey,
    heq.trans _ _ _ (hamong'' g hg).2 (hamong' f hf).2 (hamong e he).2 hvalue' hvalue⟩

/-- In a list without equal keys, the first entry with a key is the only one. -/
theorem covered_iff (heq : h.Equates among) (hamong : ∀ e ∈ entries, among e.1)
    {cell : MapCell} (hcell : ∀ e ∈ cell.entries, among e.1) (hapart : h.Apart cell.entries) :
    (∀ e ∈ entries, ∃ v, cell.get? h.equals e.1 = some v ∧ h.equals v e.2 = true) ↔
      h.Covered entries cell.entries := by
  refine forall₂_congr fun e he => ?_
  rw [get?_equals]
  have hkey : ∀ {g}, (cell.entries.find? fun f => h.equals f.1 e.1) = some g →
      h.equals g.1 e.1 = true := List.find?_some (p := fun f : Value × Value => h.equals f.1 e.1)
  constructor
  · rintro ⟨v, hv, hvalue⟩
    obtain ⟨f, hfind, rfl⟩ := Option.map_eq_some_iff.mp hv
    exact ⟨f, List.mem_of_find?_eq_some hfind, hkey hfind, hvalue⟩
  · rintro ⟨f, hf, hfkey, hvalue⟩
    obtain ⟨g, hfind⟩ := Option.isSome_iff_exists.mp
      (List.find?_isSome.mpr ⟨f, hf, hfkey⟩ :
        (cell.entries.find? fun f => h.equals f.1 e.1).isSome = true)
    have hg := List.mem_of_find?_eq_some hfind
    have hsame : g = f := hapart.eq heq hcell hg hf (heq.trans _ _ _ (hcell g hg) (hamong e he)
      (hcell f hf) (hkey hfind) (heq.symm _ _ (hcell f hf) (hamong e he) hfkey))
    rw [hfind, hsame]
    exact ⟨f.2, rfl, hvalue⟩

end

/-! ## Equivalence -/

/-- The items of an array are one level less deep. -/
theorem items_among {depth : Nat} {i : ArrayId}
    (hi : h.Shallow (depth + 1) (.datum (.array i)) ∧ h.Comparable (.datum (.array i))) :
    ∀ v ∈ (h.array i).items.toList, h.Shallow depth v ∧ h.Comparable v :=
  fun v hv => ⟨hi.1 v (.item hv), hi.2.held (.item hv)⟩

/-- So are the keys and the values of a map. -/
theorem entries_among {depth : Nat} {i : MapId}
    (hi : h.Shallow (depth + 1) (.datum (.map i)) ∧ h.Comparable (.datum (.map i))) :
    ∀ e ∈ (h.map i).entries, (h.Shallow depth e.1 ∧ h.Comparable e.1) ∧
      h.Shallow depth e.2 ∧ h.Comparable e.2 :=
  fun e he => ⟨⟨hi.1 e.1 (.key he), hi.2.held (.key he)⟩,
    hi.1 e.2 (.entry he), hi.2.held (.entry he)⟩

/-- And so is the message of an error. -/
theorem message_among {depth : Nat} {i : ErrorId}
    (hi : h.Shallow (depth + 1) (.datum (.error i)) ∧ h.Comparable (.datum (.error i))) :
    h.Shallow depth (h.error i).message ∧ h.Comparable (h.error i).message :=
  ⟨hi.1 _ (.message i), hi.2.held (.message i)⟩

/-- Two shallow maps are equal if they are the same, or have as many entries and the second covers
the first. -/
theorem Equates.equals_maps {depth : Nat}
    (heq : h.Equates fun v => h.Shallow depth v ∧ h.Comparable v) {i j : MapId}
    (hi : h.Shallow (depth + 1) (.datum (.map i)) ∧ h.Comparable (.datum (.map i)))
    (hj : h.Shallow (depth + 1) (.datum (.map j)) ∧ h.Comparable (.datum (.map j))) :
    h.equals (.datum (.map i)) (.datum (.map j)) = true ↔
      i = j ∨ (h.map i).entries.length = (h.map j).entries.length ∧
        h.Covered (h.map i).entries (h.map j).entries := by
  rw [Heap.equals_maps hi.2, covered_iff heq (fun e he => (entries_among hi e he).1)
    (fun e he => (entries_among hj e he).1) (hj.2.keys j .refl)]

/-- Among the comparable values up to a depth, equality is an equivalence. By induction on the
depth: the values that two containers hold are less deep. -/
theorem equates_shallow (depth : Nat) :
    h.Equates fun v => h.Shallow depth v ∧ h.Comparable v := by
  induction depth with
  | zero => exact ⟨fun a ha => ha.1.elim, fun a b ha => ha.1.elim, fun a b c ha => ha.1.elim⟩
  | succ depth ih =>
    refine ⟨fun a ha => equals_self fun x hx => ha.2.numbers x (hx ▸ .refl), ?_, ?_⟩
    · intro a b ha hb hab
      by_cases hkin : Kin a b
      · cases hkin with
        | arrays i j =>
          refine (equals_arrays hb.2).mpr (((equals_arrays ha.2).mp hab).imp Eq.symm fun hall => ?_)
          exact ih.forall₂_symm (items_among ha) (items_among hb) hall
        | maps i j =>
          refine (ih.equals_maps hb ha).mpr (((ih.equals_maps ha hb).mp hab).imp Eq.symm ?_)
          rintro ⟨hlength, hcovered⟩
          exact ⟨hlength.symm, hcovered.symm ih (entries_among ha) (entries_among hb)
            (ha.2.keys i .refl) hlength⟩
        | errors i j =>
          refine (equals_errors hb.2).mpr
            (((equals_errors ha.2).mp hab).imp Eq.symm fun hsame => ?_)
          exact ih.symm _ _ (message_among ha) (message_among hb) hsame
      · exact equals_symm_plain hkin hab
    · intro a b c ha hb hc hab hbc
      by_cases hkin : Kin a b
      · have hkin' := hkin.next hbc
        cases hkin with
        | arrays i j =>
          cases hkin' with
          | arrays _ k =>
            rcases (equals_arrays ha.2).mp hab with rfl | hall
            · exact hbc
            rcases (equals_arrays hb.2).mp hbc with rfl | hall'
            · exact hab
            exact (equals_arrays ha.2).mpr (Or.inr (ih.forall₂_trans (items_among ha)
              (items_among hb) (items_among hc) hall hall'))
        | maps i j =>
          cases hkin' with
          | maps _ k =>
            rcases (ih.equals_maps ha hb).mp hab with rfl | ⟨hlength, hcovered⟩
            · exact hbc
            rcases (ih.equals_maps hb hc).mp hbc with rfl | ⟨hlength', hcovered'⟩
            · exact hab
            exact (ih.equals_maps ha hc).mpr (Or.inr ⟨hlength.trans hlength',
              hcovered.trans hcovered' ih (entries_among ha) (entries_among hb)
                (entries_among hc)⟩)
        | errors i j =>
          cases hkin' with
          | errors _ k =>
            rcases (equals_errors ha.2).mp hab with rfl | hsame
            · exact hbc
            rcases (equals_errors hb.2).mp hbc with rfl | hsame'
            · exact hab
            exact (equals_errors ha.2).mpr (Or.inr (ih.trans _ _ _ (message_among ha)
              (message_among hb) (message_among hc) hsame hsame'))
      · exact equals_trans_plain hkin hab hbc

/-- Among values that are comparable, equality is symmetric and transitive. -/
theorem equals_symm_trans (h : Heap) {a b c : Value} (ha : h.Comparable a) (hb : h.Comparable b)
    (hc : h.Comparable c) : h.equals a b = h.equals b a ∧
      (h.equals a b = true → h.equals b c = true → h.equals a c = true) := by
  have heq := h.equates_shallow h.depthBound
  refine ⟨?_, heq.trans a b c ⟨ha.shallow, ha⟩ ⟨hb.shallow, hb⟩ ⟨hc.shallow, hc⟩⟩
  rw [Bool.eq_iff_iff]
  exact ⟨heq.symm a b ⟨ha.shallow, ha⟩ ⟨hb.shallow, hb⟩,
    heq.symm b a ⟨hb.shallow, hb⟩ ⟨ha.shallow, ha⟩⟩

/-- Three maps with one entry each, whose keys are different arrays with the same item. -/
def threeMaps : Heap :=
  { Heap.empty with
    arrays := #[.ofItems #[.number 1], .ofItems #[.number 1], .ofItems #[.number 1]]
    maps := #[⟨[(.datum (.array 0), .string "v")]⟩, ⟨[(.datum (.array 1), .string "v")]⟩,
      ⟨[(.datum (.array 2), .string "v")]⟩] }

/-- Each of the maps has its own array with the one as its only key. -/
theorem cells_threeMaps {i : Nat} (hi : i < 3) :
    (threeMaps.array i).items.toList = [.number 1] ∧
      (threeMaps.map i).entries = [(.datum (.array i), .string "v")] := by
  obtain rfl | rfl | rfl : i = 0 ∨ i = 1 ∨ i = 2 := by omega
  · exact ⟨rfl, rfl⟩
  · exact ⟨rfl, rfl⟩
  · exact ⟨rfl, rfl⟩

/-- The maps have no equal keys, so they can be compared. -/
theorem comparable_threeMaps {i : Nat} (hi : i < 3) : threeMaps.Comparable (.datum (.map i)) := by
  obtain ⟨hitems, hentries⟩ := cells_threeMaps hi
  have hnumber : threeMaps.Comparable (.number 1) :=
    .of_held trivial (fun x hx => by cases hx; rfl) nofun nofun
  have hstring : threeMaps.Comparable (.string "v") := .of_held trivial nofun nofun nofun
  have harray : threeMaps.Comparable (.datum (.array i)) := by
    refine .of_held hi nofun nofun fun u hu => ?_
    cases hu with
    | item hv =>
      rw [hitems] at hv
      exact List.mem_singleton.mp hv ▸ hnumber
  refine .of_held hi nofun (fun j hj => ?_) fun u hu => ?_
  · cases hj
    rw [Apart, hentries]
    exact List.pairwise_singleton _ _
  · cases hu with
    | key he =>
      rw [hentries] at he
      exact List.mem_singleton.mp he ▸ harray
    | entry he =>
      rw [hentries] at he
      exact List.mem_singleton.mp he ▸ hstring

theorem equals_symm_trans_of_maps :
    threeMaps.Comparable (.datum (.map 0)) ∧ threeMaps.Comparable (.datum (.map 1)) ∧
    threeMaps.Comparable (.datum (.map 2)) ∧
    threeMaps.equals (.datum (.map 0)) (.datum (.map 1)) =
      threeMaps.equals (.datum (.map 1)) (.datum (.map 0)) ∧
    (threeMaps.equals (.datum (.map 0)) (.datum (.map 1)) = true →
      threeMaps.equals (.datum (.map 1)) (.datum (.map 2)) = true →
      threeMaps.equals (.datum (.map 0)) (.datum (.map 2)) = true) :=
  ⟨comparable_threeMaps (by decide), comparable_threeMaps (by decide),
    comparable_threeMaps (by decide),
    equals_symm_trans threeMaps (comparable_threeMaps (by decide))
      (comparable_threeMaps (by decide)) (comparable_threeMaps (by decide))⟩

/-- A map whose second key is changed to equal the first, and a map with another second key: the
entries of the first are all found in the second map, but not the other way round. -/
theorem equality_one_sided :
    (Session.play 30 (Session.start ⟨[], []⟩ 0) [.source
      "var key = [2]; var m = Map(); m[[1]] = 'v'; m[key] = 'v'; key[0] = 1;
       var n = Map(); n[[1]] = 'v'; n[[3]] = 'w'; print m == n; print n == m;"]).map
      (fun r => (r.1, r.2.machine.store.output)) = [(.ok, #["true", "false"])] := by
  decide +kernel

end ScriptEngine.Heap
