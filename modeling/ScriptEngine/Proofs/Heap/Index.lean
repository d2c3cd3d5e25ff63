import Mathlib
import ScriptEngine.Proofs.Heap.Limit
import ScriptEngine.Proofs.Number.Sign

/-!
# Indices of arrays

An index that is a whole number counts from the start of an array or, if it is negative, from its
end: `countsTo` says to which place. Reading, storing and inserting turn the index into a position
each on its own, against the length that the array has at the moment, and positions lie below
`2 ^ 24`.

`setItem_stores` says what storing comes to, as a function of the array alone: which calls are
refused and why, how long the array is afterwards and what is read at every place.
`insertAt_inserts` does so for insertion. An index that counts to a place past the end appends, but
only as long as there are positions: from `2 ^ 24` on the item goes to the front
(`far_insertion_in_front`).
-/

namespace ScriptEngine.Builtin.Array

open ScriptEngine.Action

/-! ## Places and positions -/

/-- Where a whole index counts to: from the start, or from the end if it is negative. The place may
lie outside of the array. -/
def countsTo (length : Nat) (i : Int) : Int :=
  if i < 0 then length + i else i

theorem countsTo_of_nonneg {length : Nat} {i : Int} (h : 0 ≤ i) : countsTo length i = i :=
  if_neg (by omega)

/-- A negative index is counted from the end. -/
theorem countsTo_of_neg {length : Nat} {i : Int} (h : i < 0) : countsTo length i = length + i :=
  if_pos h

/-- A whole index comes to the position that it counts to, if that is in range. -/
theorem relativeSlot?_whole {x : Float} {i : Int} (hx : Number.toInt? x = some i) (length : Nat) :
    relativeSlot? x length = position? (countsTo length i) := by
  unfold relativeSlot? countsTo
  rw [hx]

/-- A place from zero up to `2 ^ 24` is a position. -/
theorem position?_eq_some_iff {i : Int} {p : Nat} : position? i = some p ↔ i = p ∧ i < 2 ^ 24 := by
  unfold position?
  rw [show (maxLength : Int) = 2 ^ 24 from rfl]
  split
  · rw [Option.some_inj]
    omega
  · exact iff_of_false (by simp) (by omega)

/-- A place before the start or from `2 ^ 24` on is none. -/
theorem position?_eq_none_iff {i : Int} : position? i = none ↔ i < 0 ∨ 2 ^ 24 ≤ i := by
  unfold position?
  rw [show (maxLength : Int) = 2 ^ 24 from rfl]
  split
  · exact iff_of_false (by simp) (by omega)
  · exact iff_of_true rfl (by omega)

/-- An index that is not below zero counts from the start, whether it is a whole number or not. -/
theorem relativeSlot?_of_not_neg {x : Float} (hx : ¬x < 0) (length : Nat) :
    relativeSlot? x length = slot? x := by
  unfold relativeSlot? slot?
  cases hwhole : Number.toInt? x with
  | none =>
    dsimp only
    rw [if_neg hx]
    rfl
  | some i =>
    have hi : ¬i < 0 := fun hi => hx (Number.lt_zero_of_toInt? hwhole hi)
    dsimp only
    rw [if_neg hi]
    rfl

/-! ## Items -/

/-- After storing, the position holds the value, the items in front are as before, and a gap is
filled with `null`. -/
theorem getElem?_store (cell : ArrayCell) (position : Nat) (value : Value) (q : Nat) :
    (store cell position value).items[q]? =
      if q = position then some value
      else if q < cell.items.size then cell.items[q]?
      else if q < position then some .null
      else none := by
  unfold store
  split
  · next hin =>
    rw [Array.getElem?_setIfInBounds]
    by_cases hq : position = q
    · rw [if_pos hq, if_pos hq.symm, if_pos hin]
    · rw [if_neg hq, if_neg (Ne.symm hq)]
      split
      · rfl
      · next hout => rw [if_neg (by omega), Array.getElem?_eq_none (by omega)]
  · next hout =>
    have hsize : (cell.items ++ Array.replicate (position - cell.items.size) Value.null).size =
        position := by
      rw [Array.size_append, Array.size_replicate]
      omega
    rw [Array.getElem?_push, hsize, Array.getElem?_append, Array.getElem?_replicate]
    by_cases hq : q = position
    · rw [if_pos hq, if_pos hq]
    · rw [if_neg hq, if_neg hq]
      split
      · rfl
      · exact if_congr (by omega) rfl rfl

/-- Inserting into a list parts it at the position. -/
theorem insertIdx_eq_append {α : Type} {l : List α} {p : Nat} (h : p ≤ l.length) (a : α) :
    l.insertIdx p a = l.take p ++ a :: l.drop p := by
  induction p generalizing l with
  | zero => rfl
  | succ p ih =>
    cases l with
    | nil => exact absurd h (Nat.not_succ_le_zero p)
    | cons b l =>
      rw [List.insertIdx_succ_cons, ih (Nat.le_of_succ_le_succ h)]
      rfl

/-- Inserting within the length of an array is inserting into the list of its items. -/
theorem toList_insertAt {cell : ArrayCell} {position : Nat} (h : position ≤ cell.items.size)
    (value : Value) : (insertAt cell position value).items.toList =
      cell.items.toList.insertIdx position value := by
  have hdrop : (cell.items.toList.drop position).take (cell.items.size - position) =
      cell.items.toList.drop position := List.take_of_length_le (by simp)
  rw [insertIdx_eq_append (by simpa using h)]
  simp [insertAt, hdrop]

/-! ## What the methods come to -/

section Runs

variable {id : ArrayId} {s : Store} {x : Float} {v : Value}

/-- Reading at an index in brackets answers with the item at the position that it counts to. -/
theorem run_getItem (rest : List Value) :
    callMethod (.array id) "__getitem__" (.number x :: rest) s =
      .ok (itemAt (s.heap.array id) (relativeSlot? x (s.heap.array id).items.size)) s :=
  rfl

/-- The method `get` answers with the item at the index, which is not counted from the end. -/
theorem run_get (rest : List Value) :
    callMethod (.array id) "get" (.number x :: rest) s =
      .ok (itemAt (s.heap.array id) (slot? x)) s :=
  rfl

/-- What inserting at an index does to the array. -/
theorem run_insertAt (id : ArrayId) (s : Store) (x : Float) (v : Value) (rest : List Value) :
    callMethod (.array id) "insertAt" (.number x :: v :: rest) s =
      let length := (s.heap.array id).items.size
      let position := min ((relativeSlot? x length).getD 0) length
      .ok .null { s with heap := s.heap.modifyArray id fun cell => insertAt cell position v } :=
  rfl

/-- What writing at an index in brackets comes to. -/
theorem callMethod_setItem (args : List Value) :
    callMethod (.array id) "__setitem__" args = (do
      let index ← indexArgument args 0
      let length := ((← Action.heap).array id).items.size
      let position ← Action.orRefuse (relativeSlot? index length) .indexOutOfRange
      storeItem id position (args[1]?.getD .null)
      return .null) :=
  rfl

theorem callMethod_set (args : List Value) :
    callMethod (.array id) "set" args = (do
      let index ← indexArgument args 0
      let position ← Action.orRefuse (slot? index) .indexOutOfRange
      storeItem id position (args[1]?.getD .null)
      return .null) :=
  rfl

/-- An index that counts to no position is refused. -/
theorem run_setItem_none (rest : List Value)
    (hslot : relativeSlot? x (s.heap.array id).items.size = none) :
    callMethod (.array id) "__setitem__" (.number x :: rest) s = .error .indexOutOfRange s := by
  rw [callMethod_setItem]
  show (Action.orRefuse (relativeSlot? x (s.heap.array id).items.size) .indexOutOfRange >>= _) s = _
  rw [hslot]
  rfl

/-- An index that counts to a position is stored at, unless the limit of the array refuses it. -/
theorem run_setItem_some (rest : List Value) {position : Nat}
    (hslot : relativeSlot? x (s.heap.array id).items.size = some position) :
    callMethod (.array id) "__setitem__" (.number x :: v :: rest) s =
      match storeFault? (s.heap.array id) position with
      | some fault => .error fault s
      | none =>
        .ok .null { s with heap := s.heap.modifyArray id fun cell => store cell position v } := by
  rw [callMethod_setItem]
  show (Action.orRefuse (relativeSlot? x (s.heap.array id).items.size) .indexOutOfRange >>= _) s = _
  rw [hslot]
  show EStateM.bind (storeItem id position v) _ s = _
  unfold EStateM.bind
  cases hfault : storeFault? (s.heap.array id) position with
  | some fault => rw [storeItem_fault hfault]
  | none =>
    rw [storeItem_stores hfault]
    rfl

/-- With an index that is not below zero, `set` and `get` do the same as their counterparts that
count from both ends. -/
theorem counts_from_start (id : ArrayId) (hx : ¬x < 0) (rest : List Value) :
    callMethod (.array id) "set" (.number x :: rest) =
        callMethod (.array id) "__setitem__" (.number x :: rest) ∧
      callMethod (.array id) "get" (.number x :: rest) =
        callMethod (.array id) "__getitem__" (.number x :: rest) := by
  have hindex : indexArgument (.number x :: rest) 0 = pure x := rfl
  constructor
  · rw [callMethod_set, callMethod_setItem, hindex, pure_bind, pure_bind]
    simp only [relativeSlot?_of_not_neg hx]
    rfl
  · funext s
    rw [run_get, run_getItem, relativeSlot?_of_not_neg hx]

end Runs

/-! ## Storing -/

/-- The array has no room for an item at a place behind its end. -/
def Overfull (cell : ArrayCell) (target : Int) : Prop :=
  (cell.items.size : Int) ≤ target ∧ ∃ limit, cell.maxSize = some limit ∧ (limit : Int) < target + 1

/-- Storing is refused exactly if it would make the array longer than its limit. -/
theorem storeFault?_cases (cell : ArrayCell) (position : Nat) :
    storeFault? cell position = some .arrayFull ∧ Overfull cell position ∨
      storeFault? cell position = none ∧ ¬Overfull cell position := by
  unfold storeFault? Overfull
  by_cases hsize : cell.items.size ≤ position
  · cases cell.maxSize with
    | none =>
      refine Or.inr ⟨if_neg fun h => Bool.false_ne_true h.2, ?_⟩
      rintro ⟨-, limit, hlimit, -⟩
      cases hlimit
    | some limit =>
      by_cases hlimit : position + 1 > limit
      · exact Or.inl ⟨if_pos ⟨hsize, decide_eq_true hlimit⟩, by omega, limit, rfl, by omega⟩
      · refine Or.inr ⟨if_neg fun h => hlimit (of_decide_eq_true h.2), ?_⟩
        rintro ⟨-, limit', heq, hlt⟩
        cases heq
        omega
  · exact Or.inr ⟨if_neg fun h => hsize h.1, fun h => by have := h.1; omega⟩

/-- What a call that stores an item at an index comes to: the index counts to no position, or there
is no room at the position, or the item is stored there. -/
theorem setItem_cases {id : ArrayId} {s : Store} {x : Float} {i : Int} (v : Value)
    (hx : Number.toInt? x = some i) :
    let cell := s.heap.array id
    let target := countsTo cell.items.size i
    let call := callMethod (.array id) "__setitem__" [.number x, v] s
    ((target < 0 ∨ 2 ^ 24 ≤ target) ∧ call = .error .indexOutOfRange s) ∨
      ∃ p : Nat, target = p ∧ target < 2 ^ 24 ∧
        (Overfull cell target ∧ call = .error .arrayFull s ∨
          ¬Overfull cell target ∧ call = .ok .null
            { s with heap := s.heap.modifyArray id fun cell => store cell p v }) := by
  intro cell target call
  have hslot := relativeSlot?_whole hx cell.items.size
  cases hposition : position? target with
  | none =>
    exact Or.inl ⟨position?_eq_none_iff.mp hposition, run_setItem_none _ (hslot.trans hposition)⟩
  | some p =>
    obtain ⟨htarget, hlt⟩ := position?_eq_some_iff.mp hposition
    have hcall : call = _ := run_setItem_some [] (hslot.trans hposition)
    refine Or.inr ⟨p, htarget, hlt, ?_⟩
    rw [htarget]
    rcases storeFault?_cases cell p with ⟨hfault, hfull⟩ | ⟨hfault, hroom⟩
    · rw [hfault] at hcall
      exact Or.inl ⟨hfull, hcall⟩
    · rw [hfault] at hcall
      exact Or.inr ⟨hroom, hcall⟩

/-- From one store to another an item has been stored at the place that an index counts to: it is
read back at that index, the places between the old end and the new item hold `null`, and all other
places, and everything but the array, are as they were. -/
structure Stored (id : ArrayId) (x : Float) (v : Value) (target : Int) (s s' : Store) : Prop where
  length : ((s'.heap.array id).items.size : Int) =
    max ((s.heap.array id).items.size : Int) (target + 1)
  items : ∀ q : Nat, (s'.heap.array id).items[q]? =
    if (q : Int) = target then some v
    else if q < (s.heap.array id).items.size then (s.heap.array id).items[q]?
    else if (q : Int) < target then some .null
    else none
  back : callMethod (.array id) "__getitem__" [.number x] s' = .ok v s'
  padded : ∀ (y : Float) (q : Nat), Number.toInt? y = some q →
    (s.heap.array id).items.size ≤ q → q < target →
      callMethod (.array id) "__getitem__" [.number y] s' = .ok .null s'
  kept : ∀ (y : Float) (q : Nat), Number.toInt? y = some q → (q : Int) ≠ target →
    (q < (s.heap.array id).items.size ∨ target < q) →
      ∃ w, callMethod (.array id) "__getitem__" [.number y] s = .ok w s ∧
        callMethod (.array id) "__getitem__" [.number y] s' = .ok w s'
  limit : (s'.heap.array id).maxSize = (s.heap.array id).maxSize
  other : ∃ f, s' = { s with heap := s.heap.modifyArray id f }

/-- Every place of an array that is not too long can be read. -/
theorem run_getItem_place {id : ArrayId} {s : Store} {y : Float} {q : Nat}
    (hy : Number.toInt? y = some q) (hlength : (s.heap.array id).items.size ≤ 2 ^ 24) :
    callMethod (.array id) "__getitem__" [.number y] s =
      .ok ((s.heap.array id).items[q]?.getD .null) s := by
  rw [run_getItem, relativeSlot?_whole hy, countsTo_of_nonneg (Int.natCast_nonneg q)]
  by_cases hq : (q : Int) < 2 ^ 24
  · rw [position?_eq_some_iff.mpr ⟨rfl, hq⟩]
    rfl
  · rw [position?_eq_none_iff.mpr (Or.inr (by omega)), Array.getElem?_eq_none (by omega)]
    rfl

/-- Storing at a place in range is what the method promises, position by position. -/
theorem stored_store {id : ArrayId} {s : Store} {x : Float} {i : Int} {p : Nat} (v : Value)
    (hid : id < s.heap.arrays.size) (hlength : (s.heap.array id).items.size ≤ 2 ^ 24)
    (hx : Number.toInt? x = some i) (htarget : countsTo (s.heap.array id).items.size i = p)
    (hp : p < 2 ^ 24) :
    Stored id x v p s
      { s with heap := s.heap.modifyArray id fun cell => store cell p v } := by
  have hcell : (s.heap.modifyArray id fun cell => store cell p v).array id =
      store (s.heap.array id) p v := by
    rw [(Heap.leaves_modifyArray id _ s.heap).array id hid, if_pos rfl]
  have hsize : (store (s.heap.array id) p v).items.size =
      max (s.heap.array id).items.size (p + 1) := by
    rw [size_store, ArrayCell.padded?]
    split
    · rw [Option.getD_some]
      omega
    · rw [Option.getD_none]
      omega
  have hlength' : (store (s.heap.array id) p v).items.size ≤ 2 ^ 24 := by omega
  have hread : ∀ (y : Float) (q : Nat), Number.toInt? y = some q →
      callMethod (.array id) "__getitem__" [.number y]
          { s with heap := s.heap.modifyArray id fun cell => store cell p v } =
        .ok ((store (s.heap.array id) p v).items[q]?.getD .null)
          { s with heap := s.heap.modifyArray id fun cell => store cell p v } := fun y q hy => by
    rw [run_getItem_place hy (by rw [hcell]; exact hlength'), hcell]
  refine ⟨?_, fun q => ?_, ?_, fun y q hy hge hlt => ?_, fun y q hy hne hout => ?_, ?_, _, rfl⟩
  · rw [hcell, hsize]
    omega
  · rw [hcell, getElem?_store]
    exact if_congr (by omega) rfl (if_congr Iff.rfl rfl (if_congr (by omega) rfl rfl))
  -- The index counts to the same place as before, although the array may have become longer.
  · have hcounts : countsTo (store (s.heap.array id) p v).items.size i = p := by
      unfold countsTo at htarget ⊢
      split at htarget <;> omega
    rw [run_getItem, hcell, relativeSlot?_whole hx, hcounts,
      position?_eq_some_iff.mpr ⟨rfl, by omega⟩]
    show EStateM.Result.ok ((store (s.heap.array id) p v).items[p]?.getD .null) _ = _
    rw [getElem?_store, if_pos rfl]
    rfl
  · rw [hread y q hy, getElem?_store, if_neg (by omega), if_neg (by omega), if_pos (by omega)]
    rfl
  · refine ⟨_, run_getItem_place hy hlength, ?_⟩
    rw [hread y q hy, getElem?_store, if_neg (by omega)]
    split
    · rfl
    · rw [if_neg (by omega), Array.getElem?_eq_none (by omega)]
  · rw [hcell, maxSize_store]

/-- Storing an item at a whole index of an array that is not too long. The call is refused because
the index is out of range exactly if it lies more than the length before the start, or at `2 ^ 24`
or beyond; it is refused because the array is full exactly if the item would have a position behind
the end and the limit does not allow it; a call that is refused changes nothing. Otherwise the item
is stored. And with an index that is not below zero, be it a whole number or not, `set` and `get` do
the same as their counterparts that count from both ends. -/
theorem setItem_stores (s : Store) (id : ArrayId) (x : Float) (i : Int) (v : Value)
    (hid : id < s.heap.arrays.size) (hlength : (s.heap.array id).items.size ≤ 2 ^ 24)
    (hx : Number.toInt? x = some i) :
    let n : Int := (s.heap.array id).items.size
    let target := countsTo (s.heap.array id).items.size i
    let call := callMethod (.array id) "__setitem__" [.number x, v] s
    ((∃ fault s', call = .error fault s' ∧ fault.message = "Index out of range.") ↔
      i < -n ∨ 2 ^ 24 ≤ i) ∧
    ((∃ fault s', call = .error fault s' ∧ fault.message = "Array is full.") ↔
      target < 2 ^ 24 ∧ Overfull (s.heap.array id) target) ∧
    (∀ fault s', call = .error fault s' →
      s' = s ∧ (fault = .indexOutOfRange ∨ fault = .arrayFull)) ∧
    (∀ w s', call = .ok w s' → w = .null ∧ Stored id x v target s s') ∧
    ∀ y rest, ¬y < 0 →
      callMethod (.array id) "set" (.number y :: rest) =
          callMethod (.array id) "__setitem__" (.number y :: rest) ∧
        callMethod (.array id) "get" (.number y :: rest) =
          callMethod (.array id) "__getitem__" (.number y :: rest) := by
  intro n target call
  have hrange : (target < 0 ∨ 2 ^ 24 ≤ target) ↔ i < -n ∨ 2 ^ 24 ≤ i := by
    show (countsTo _ i < 0 ∨ 2 ^ 24 ≤ countsTo _ i) ↔ _
    unfold countsTo
    split <;> omega
  have hagree := fun y rest (hy : ¬y < 0) => counts_from_start id hy rest
  -- Which of the two texts a refusal has is decided by its fault.
  have hrefused : ∀ {fault : BuiltinFault} {text : String}, call = .error fault s →
      ((∃ fault s', call = .error fault s' ∧ fault.message = text) ↔ fault.message = text) := by
    intro fault text hcall
    refine ⟨fun ⟨fault', s', hcall', htext⟩ => ?_, fun htext => ⟨fault, s, hcall, htext⟩⟩
    cases hcall.symm.trans hcall'
    exact htext
  have hanswered : ∀ {s' : Store} {text : String}, call = .ok .null s' →
      ¬∃ fault s', call = .error fault s' ∧ fault.message = text := by
    rintro s' text hcall ⟨fault, s'', hcall', -⟩
    cases hcall.symm.trans hcall'
  rcases setItem_cases v hx with ⟨hout, hcall⟩ | ⟨p, hp, hlt, ⟨hfull, hcall⟩ | ⟨hroom, hcall⟩⟩
  · refine ⟨(hrefused hcall).trans (iff_of_true rfl (hrange.mp hout)),
      (hrefused hcall).trans (iff_of_false (by decide) fun h => ?_), ?_, ?_, hagree⟩
    · have hbefore : (0 : Int) ≤ target := by
        have := h.2.1
        omega
      omega
    · intro fault s' hcall'
      cases hcall.symm.trans hcall'
      exact ⟨rfl, Or.inl rfl⟩
    · intro w s' hcall'
      cases hcall.symm.trans hcall'
  · refine ⟨(hrefused hcall).trans (iff_of_false (by decide) (hrange.not.mp (by omega))),
      (hrefused hcall).trans (iff_of_true rfl ⟨hlt, hfull⟩), ?_, ?_, hagree⟩
    · intro fault s' hcall'
      cases hcall.symm.trans hcall'
      exact ⟨rfl, Or.inr rfl⟩
    · intro w s' hcall'
      cases hcall.symm.trans hcall'
  · refine ⟨iff_of_false (hanswered hcall) (hrange.not.mp (by omega)),
      iff_of_false (hanswered hcall) (fun h => hroom h.2), ?_, ?_, hagree⟩
    · intro fault s' hcall'
      cases hcall.symm.trans hcall'
    · intro w s' hcall'
      cases hcall.symm.trans hcall'
      refine ⟨rfl, ?_⟩
      rw [show target = (p : Int) from hp]
      exact stored_store v hid hlength hx hp (by omega)

/-- An item that is stored two places behind the end of an array with one item. -/
theorem setItem_stores_behind :
    let s : Store := ⟨{ Heap.empty with arrays := #[⟨#[.boolean true], none⟩] }, #[], 0⟩
    (0 < s.heap.arrays.size ∧ (s.heap.array 0).items.size ≤ 2 ^ 24 ∧
      Number.toInt? 2 = some 2) ∧
    ∃ s', callMethod (.array 0) "__setitem__" [.number 2, .boolean false] s = .ok .null s' ∧
      Stored 0 2 (.boolean false) 2 s s' := by
  intro s
  have hid : 0 < s.heap.arrays.size := by decide
  have hlength : (s.heap.array 0).items.size ≤ 2 ^ 24 := by decide
  have hx : Number.toInt? 2 = some 2 := by decide
  refine ⟨⟨hid, hlength, hx⟩, ?_⟩
  obtain ⟨-, -, -, hstored, -⟩ := setItem_stores s 0 2 2 (.boolean false) hid hlength hx
  exact ⟨_, rfl, (hstored .null _ rfl).2⟩

/-! ## Inserting -/

/-- Where an item that is inserted comes to stand: at the place that the index counts to or at the
end of the array that lies nearer. Beyond the positions that there are it is the front. -/
theorem run_insertAt_whole (s : Store) (id : ArrayId) {x : Float} {i : Int} (v : Value)
    (hid : id < s.heap.arrays.size) (hx : Number.toInt? x = some i) :
    let n := (s.heap.array id).items.size
    ∃ p s', callMethod (.array id) "insertAt" [.number x, v] s = .ok .null s' ∧
      (s'.heap.array id).items.toList = (s.heap.array id).items.toList.insertIdx p v ∧
      (s'.heap.array id).maxSize = (s.heap.array id).maxSize ∧
      (∃ f, s' = { s with heap := s.heap.modifyArray id f }) ∧
      (p : Int) = if countsTo n i < 2 ^ 24 then max 0 (min (countsTo n i) n) else 0 := by
  intro n
  have hrun := run_insertAt id s x v []
  obtain ⟨p, hp⟩ : ∃ p, p = min ((relativeSlot? x n).getD 0) n := ⟨_, rfl⟩
  have hcell : (s.heap.modifyArray id fun cell => insertAt cell p v).array id =
      insertAt (s.heap.array id) p v := by
    rw [(Heap.leaves_modifyArray id _ s.heap).array id hid, if_pos rfl]
  dsimp only at hrun
  rw [← hp] at hrun
  refine ⟨p, _, hrun, ?_, ?_, ⟨_, rfl⟩, ?_⟩
  · rw [hcell]
    exact toList_insertAt (by rw [hp]; exact Nat.min_le_right _ _) v
  · rw [hcell]
    rfl
  · rw [relativeSlot?_whole hx] at hp
    cases hposition : position? (countsTo n i) with
    | none =>
      rw [hposition] at hp
      rcases position?_eq_none_iff.mp hposition with hlt | hge
      · rw [if_pos (by omega)]
        simp only [Option.getD_none] at hp
        omega
      · rw [if_neg (by omega)]
        simp only [Option.getD_none] at hp
        omega
    | some q =>
      rw [hposition] at hp
      obtain ⟨heq, hlt⟩ := position?_eq_some_iff.mp hposition
      rw [if_pos hlt]
      simp only [Option.getD_some] at hp
      omega

/-- Inserting an item at a whole index of an array of length `n`, whatever its limit. If the index
is not negative and below `2 ^ 24`, the item stands at the index or, if that is smaller, at the end;
a negative index is counted from the end, and if it counts to a place before the start, the item
stands at the start. All other items keep their order, and nothing else changes. If the index counts
to `2 ^ 24` or beyond, the item goes to the front. -/
theorem insertAt_inserts (s : Store) (id : ArrayId) (x : Float) (i : Int) (v : Value)
    (hid : id < s.heap.arrays.size) (hx : Number.toInt? x = some i) :
    let n := (s.heap.array id).items.size
    ∃ p s', callMethod (.array id) "insertAt" [.number x, v] s = .ok .null s' ∧
      (s'.heap.array id).items.toList = (s.heap.array id).items.toList.insertIdx p v ∧
      (s'.heap.array id).maxSize = (s.heap.array id).maxSize ∧
      (∃ f, s' = { s with heap := s.heap.modifyArray id f }) ∧
      (0 ≤ i → i < 2 ^ 24 → (p : Int) = min i n) ∧
      (i < 0 → n + i < 2 ^ 24 → (p : Int) = max (n + i) 0) ∧
      (n ≤ i → i < 2 ^ 24 → (s'.heap.array id).items = (s.heap.array id).items.push v) ∧
      (2 ^ 24 ≤ countsTo n i → p = 0) := by
  intro n
  obtain ⟨p, s', hrun, hitems, hlimit, hother, hp⟩ := run_insertAt_whole s id v hid hx
  refine ⟨p, s', hrun, hitems, hlimit, hother, fun hi hlt => ?_, fun hi hlt => ?_,
    fun hi hlt => ?_, fun hge => ?_⟩
  · rw [countsTo_of_nonneg hi, if_pos hlt] at hp
    omega
  · rw [countsTo_of_neg hi, if_pos hlt] at hp
    omega
  · rw [countsTo_of_nonneg (by omega), if_pos hlt] at hp
    obtain rfl : p = n := by omega
    refine Array.toList_inj.mp ?_
    rw [hitems, Array.toList_push]
    exact List.insertIdx_length_self
  · rw [if_neg (Int.not_lt.mpr hge)] at hp
    exact Int.ofNat.inj hp

/-- An item that is inserted one place before the end. -/
theorem insertAt_inserts_before_last :
    let s : Store := ⟨{ Heap.empty with arrays := #[⟨#[.null, .boolean true], none⟩] }, #[], 0⟩
    (0 < s.heap.arrays.size ∧ Number.toInt? (-1) = some (-1)) ∧
    ∃ s', callMethod (.array 0) "insertAt" [.number (-1), .boolean false] s = .ok .null s' ∧
      (s'.heap.array 0).items.toList = [.null, .boolean false, .boolean true] := by
  intro s
  have hid : 0 < s.heap.arrays.size := by decide
  have hx : Number.toInt? (-1) = some (-1) := by decide
  refine ⟨⟨hid, hx⟩, ?_⟩
  obtain ⟨p, s', hrun, hitems, -, -, -, hp, -⟩ :=
    insertAt_inserts s 0 (-1) (-1) (.boolean false) hid hx
  obtain rfl : p = 1 := by
    have := hp (by decide) (by decide)
    exact Int.ofNat.inj this
  exact ⟨s', hrun, hitems⟩

/-- In an array with one item, an item that is inserted at `2 ^ 24`, far past the end, comes to
stand in front of it. -/
theorem far_insertion_in_front :
    let s : Store := ⟨{ Heap.empty with arrays := #[⟨#[.null], none⟩] }, #[], 0⟩
    (Number.toInt? 16777216 = some 16777216 ∧ (s.heap.array 0).maxSize = none) ∧
    ∃ s', callMethod (.array 0) "insertAt" [.number 16777216, .boolean true] s = .ok .null s' ∧
      (s'.heap.array 0).items.toList = [.boolean true, .null] ∧
      [Value.boolean true, .null] ≠ [Value.null].insertIdx (min 16777216 1) (.boolean true) := by
  intro s
  have hx : Number.toInt? 16777216 = some 16777216 := by decide
  refine ⟨⟨hx, rfl⟩, ?_⟩
  obtain ⟨p, s', hrun, hitems, -, -, hp⟩ :=
    run_insertAt_whole s 0 (.boolean true) (by decide) hx
  obtain rfl : p = 0 := Int.ofNat.inj hp
  exact ⟨s', hrun, hitems, by intro h; cases h⟩

end ScriptEngine.Builtin.Array
