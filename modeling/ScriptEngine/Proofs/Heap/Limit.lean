import ScriptEngine.Proofs.Heap.Fit
import ScriptEngine.Proofs.Heap.Methods

/-!
# The limit of an array

A method that makes an array longer asks for a length first: one more than now, or the position
it stores at and one. Where the limit of the array does not allow that length the array is full,
and the call leaves everything as it is. So an array that is within its limit stays within it
until `setMaxSize` is called (`arrays_outgrow_limit_only_by_insertion`).

`insertAt` is the exception. It asks for one more than now like `push`, but it never looks at the
limit.
-/

namespace ScriptEngine

/-! ## Lengths and limits -/

namespace ArrayCell

/-- The limit of the array, if it has one, allows a length. -/
def Allows (cell : ArrayCell) (length : Nat) : Prop :=
  ∀ limit, cell.maxSize = some limit → length ≤ limit

/-- The array is no longer than its limit. -/
def Within (cell : ArrayCell) : Prop :=
  cell.Allows cell.items.size

/-- The length with an item at a position, if no item is there yet. -/
def padded? (cell : ArrayCell) (position : Nat) : Option Nat :=
  if cell.items.size ≤ position then some (position + 1) else none

/-- A limit that allows a length allows any shorter one. -/
theorem Allows.mono {cell : ArrayCell} {m n : Nat} (h : cell.Allows n) (hle : m ≤ n) :
    cell.Allows m :=
  fun limit hlimit => Nat.le_trans hle (h limit hlimit)

/-- Whether a length is allowed depends on the limit only. -/
theorem Allows.congr {cell cell' : ArrayCell} {n : Nat} (h : cell.Allows n)
    (heq : cell'.maxSize = cell.maxSize) : cell'.Allows n :=
  fun limit hlimit => h limit (heq ▸ hlimit)

/-- An array is full when there is no room for one more. -/
theorem isFull_iff (cell : ArrayCell) :
    cell.isFull = true ↔ ¬cell.Allows (cell.items.size + 1) := by
  unfold isFull Allows
  cases cell.maxSize with
  | none => simp
  | some limit =>
    simp only [Option.any_some, decide_eq_true_eq, Option.some.injEq, forall_eq', Nat.not_le]
    omega

end ArrayCell

namespace Builtin.Array

/-- The length that a call of a method asks for, if it is to make the array longer. -/
def asked? (cell : ArrayCell) (method : String) (args : List Value) : Option Nat :=
  match method with
  | "enqueue" | "add" | "push" => args[0]?.map fun _ => cell.items.size + 1
  | "set" => ((index? args).bind slot?).bind cell.padded?
  | "__setitem__" => ((index? args).bind (relativeSlot? · cell.items.size)).bind cell.padded?
  | "insertAt" => (index? args).bind fun _ => args[1]?.map fun _ => cell.items.size + 1
  | _ => none

/-- Storing is not refused if the limit allows the length that it would lead to. -/
theorem storeFault?_eq_none_iff (cell : ArrayCell) (position : Nat) :
    storeFault? cell position = none ↔ ∀ n, cell.padded? position = some n → cell.Allows n := by
  unfold storeFault? ArrayCell.padded? ArrayCell.Allows
  by_cases hsize : cell.items.size ≤ position
  · cases cell.maxSize with
    | none => simp
    | some limit => simp [hsize]
  · simp [hsize]

/-- The only fault of storing is that the array is full. -/
theorem storeFault?_eq_some {cell : ArrayCell} {position : Nat} {fault : BuiltinFault}
    (h : storeFault? cell position = some fault) : fault = .arrayFull := by
  unfold storeFault? at h
  split at h
  · cases h
    rfl
  · cases h

/-- Storing makes an array as long as the position asks for, if at all. -/
theorem size_store (cell : ArrayCell) (position : Nat) (value : Value) :
    (store cell position value).items.size = (cell.padded? position).getD cell.items.size := by
  unfold store ArrayCell.padded?
  by_cases hsize : cell.items.size ≤ position
  · rw [if_neg (by omega), if_pos hsize]
    simp only [Array.size_push, Array.size_append, Array.size_replicate, Option.getD_some]
    omega
  · rw [if_pos (by omega), if_neg hsize]
    simp

theorem maxSize_store (cell : ArrayCell) (position : Nat) (value : Value) :
    (store cell position value).maxSize = cell.maxSize := by
  unfold store
  split <;> rfl

/-- Inserting within its length makes an array longer by one. -/
theorem size_insertAt {cell : ArrayCell} {position : Nat} (h : position ≤ cell.items.size)
    (value : Value) : (insertAt cell position value).items.size = cell.items.size + 1 := by
  simp only [insertAt, Array.size_append, Array.size_push, Array.size_extract]
  omega

/-- Removing an item makes no array longer. -/
theorem size_erase_le (items : Array Value) (i : Nat) :
    (items.eraseIdxIfInBounds i).size ≤ items.size := by
  unfold Array.eraseIdxIfInBounds
  split
  · simp
  · exact Nat.le_refl _

/-! ## What a call does -/

/-- A call may refuse like this: it is full if and only if the length that the call asks for is
not allowed, and `insertAt` does not refuse what it could insert. -/
structure Refuses (cell : ArrayCell) (method : String) (args : List Value)
    (fault : BuiltinFault) : Prop where
  full : ∀ n, asked? cell method args = some n →
    fault = .arrayFull ∧ ¬cell.Allows n ∧ method ≠ "insertAt"
  other : asked? cell method args = none → fault ≠ .arrayFull

/-- A call may answer like this and leave the array like that: the length that it asked for was
allowed, unless it inserted, and a call that asked for none has made the array no longer. -/
structure Answers (cell : ArrayCell) (method : String) (args : List Value) (answer : Value)
    (cell' : ArrayCell) : Prop where
  limit : method ≠ "setMaxSize" → cell'.maxSize = cell.maxSize
  longer : ∀ n, asked? cell method args = some n → answer = .null ∧ cell'.items.size = n
  allowed : ∀ n, asked? cell method args = some n → method ≠ "insertAt" → cell.Allows n
  other : asked? cell method args = none → cell'.items.size ≤ cell.items.size

/-- A call that asks for no length is not refused because the array is full. -/
theorem Refuses.of_none {cell : ArrayCell} {method : String} {args : List Value}
    {fault : BuiltinFault} (hnone : asked? cell method args = none) (hf : fault ≠ .arrayFull) :
    Refuses cell method args fault where
  full := fun n hn => by
    rw [hnone] at hn
    cases hn
  other := fun _ => hf

/-- A call that asks for no length makes no array longer, and sets the limit only if that is what it
is for. -/
theorem Answers.of_none {cell cell' : ArrayCell} {method : String} {args : List Value}
    {answer : Value} (hnone : asked? cell method args = none)
    (hlimit : method ≠ "setMaxSize" → cell'.maxSize = cell.maxSize)
    (hsize : cell'.items.size ≤ cell.items.size) : Answers cell method args answer cell' where
  limit := hlimit
  longer := fun n hn => by
    rw [hnone] at hn
    cases hn
  allowed := fun n hn => by
    rw [hnone] at hn
    cases hn
  other := fun _ => hsize

/-- A call that asks for a length leads to it within the limit, unless it is `insertAt`. -/
theorem Answers.of_some {cell cell' : ArrayCell} {method : String} {args : List Value} {n : Nat}
    (hsome : asked? cell method args = some n) (hlimit : cell'.maxSize = cell.maxSize)
    (hsize : cell'.items.size = n) (hallowed : method ≠ "insertAt" → cell.Allows n) :
    Answers cell method args .null cell' where
  limit := fun _ => hlimit
  longer := fun m hm => by
    cases hsome.symm.trans hm
    exact ⟨rfl, hsize⟩
  allowed := fun m hm => by
    cases hsome.symm.trans hm
    exact hallowed
  other := fun hnone => by
    rw [hsome] at hnone
    cases hnone

end Builtin.Array

/-! ## Calls that refuse before they change anything -/

/-- From one heap to another, an array has become a cell, and the others that there were are as
they were. -/
structure Heap.Leaves (id : ArrayId) (cell : ArrayCell) (h h' : Heap) : Prop where
  size : h.arrays.size ≤ h'.arrays.size
  array : ∀ j < h.arrays.size, h'.array j = if j = id then cell else h.array j

namespace Heap

variable {id : ArrayId} {h h' : Heap}

/-- No array that there was has changed. -/
theorem leaves_of_same (hsize : h.arrays.size ≤ h'.arrays.size)
    (hsame : ∀ j < h.arrays.size, h'.array j = h.array j) : Leaves id (h.array id) h h' where
  size := hsize
  array := fun j hj => by
    rw [hsame j hj]
    split
    · next heq => rw [heq]
    · rfl

/-- Nothing has happened to the other arrays. -/
theorem leaves_refl (id : ArrayId) (h : Heap) : Leaves id (h.array id) h h :=
  leaves_of_same (Nat.le_refl _) fun _ _ => rfl

/-- A change of one array leaves the others alone. -/
theorem leaves_modifyArray (id : ArrayId) (f : ArrayCell → ArrayCell) (h : Heap) :
    Leaves id (f (h.array id)) h (h.modifyArray id f) where
  size := by simp [modifyArray]
  array := fun j hj => by
    rw [array_modifyArray]
    by_cases heq : j = id
    · subst heq
      rw [if_pos ⟨rfl, hj⟩, if_pos rfl]
    · rw [if_neg (fun hboth => heq hboth.1), if_neg heq]

/-- A new array takes a number that no array has. -/
theorem newArray_retains (h : Heap) (cell : ArrayCell) :
    h.arrays.size ≤ (h.newArray cell).2.arrays.size ∧
      ∀ j < h.arrays.size, (h.newArray cell).2.array j = h.array j := by
  refine ⟨by simp [newArray], fun j hj => ?_⟩
  rw [array_newArray, if_neg (Nat.ne_of_lt hj)]

/-- Work that may not change an array leaves it as it is. -/
theorem Works.retains {changes : Value → Prop} {given hand : List Value} {h h' : Heap}
    (work : h.Works changes given h' hand) :
    h.arrays.size ≤ h'.arrays.size ∧
      ∀ j < h.arrays.size, ¬ changes (.datum (.array j)) → h'.array j = h.array j := by
  induction work with
  | start => exact ⟨Nat.le_refl _, fun _ _ _ => rfl⟩
  | take _ _ ih | newMap _ _ ih | newError _ _ ih | modifyMap _ _ _ ih => exact ih
  | @newArray h' hand _ cell _ ih =>
    obtain ⟨hsize, hsame⟩ := h'.newArray_retains cell
    refine ⟨ih.1.trans hsize, fun j hj hnot => ?_⟩
    exact (hsame j (Nat.lt_of_lt_of_le hj ih.1)).trans (ih.2 j hj hnot)
  | @modifyArray h' hand _ id f hid _ ih =>
    refine ⟨ih.1.trans (Nat.le_of_eq Array.size_modify.symm), fun j hj hnot => ?_⟩
    have hne : ¬(j = id ∧ id < h'.arrays.size) := fun heq => hnot (heq.1 ▸ hid)
    rw [array_modifyArray, if_neg hne]
    exact ih.2 j hj hnot

end Heap

namespace Builtin.Array

open ScriptEngine.Action

/-- What a call of a method comes to: it refuses and leaves everything as it is, or it changes no
other array than its own. -/
def Called (id : ArrayId) (method : String) (args : List Value) (s : Store) : Action Value → Prop :=
  Comes s (Refuses (s.heap.array id) method args) fun v s' =>
    ∃ cell, Heap.Leaves id cell s.heap s'.heap ∧ Answers (s.heap.array id) method args v cell

section Called

variable {id : ArrayId} {method : String} {args : List Value} {s : Store}

/-- A method that only looks. -/
theorem called_look (hnone : asked? (s.heap.array id) method args = none) (v : Value) :
    Called id method args s (pure v) :=
  comes_pure ⟨_, Heap.leaves_refl id s.heap, .of_none hnone (fun _ => rfl) (Nat.le_refl _)⟩

/-- A method that changes its array. -/
theorem called_modifyCell {f : ArrayCell → ArrayCell} {v : Value}
    (h : Answers (s.heap.array id) method args v (f (s.heap.array id))) :
    Called id method args s (do modifyCell id f; return v) :=
  ⟨_, Heap.leaves_modifyArray id f s.heap, h⟩

/-- Storing that is refused changes nothing. -/
theorem storeItem_fault {position : Nat} {value : Value} {fault : BuiltinFault}
    (h : storeFault? (s.heap.array id) position = some fault) :
    storeItem id position value s = .error fault s := by
  have hheap : ∀ f : Heap → Action Unit, (Action.heap >>= f) s = f s.heap s := fun _ => rfl
  rw [storeItem, hheap, h]
  rfl

/-- Storing that is not refused changes one cell. -/
theorem storeItem_stores {position : Nat} {value : Value}
    (h : storeFault? (s.heap.array id) position = none) :
    storeItem id position value s =
      modifyCell id (fun cell => store cell position value) s := by
  have hheap : ∀ f : Heap → Action Unit, (Action.heap >>= f) s = f s.heap s := fun _ => rfl
  rw [storeItem, hheap, h]

/-- A method that stores at a position asks for no length but the one the position needs. -/
theorem called_storeItem {position : Nat} {value : Value}
    (hasked : asked? (s.heap.array id) method args = (s.heap.array id).padded? position)
    (hmethod : method ≠ "insertAt") :
    Called id method args s (do storeItem id position value; return .null) := by
  have hiff := storeFault?_eq_none_iff (s.heap.array id) position
  refine comes_return (comes_heap ?_)
  split
  · next fault hfault =>
    have hnot : ¬∀ n, (s.heap.array id).padded? position = some n →
        (s.heap.array id).Allows n := fun hall => by
      rw [hiff.mpr hall] at hfault
      cases hfault
    refine comes_throw ⟨fun n hn => ?_, fun hnone => ?_⟩
    · rw [hasked] at hn
      refine ⟨storeFault?_eq_some hfault, fun hallows => hnot fun m hm => ?_, hmethod⟩
      cases hn.symm.trans hm
      exact hallows
    · refine absurd (fun n hn => ?_) hnot
      rw [← hasked, hnone] at hn
      cases hn
  · next hfault =>
    have hallowed := hiff.mp hfault
    have hsize := size_store (s.heap.array id) position value
    refine ⟨_, Heap.leaves_modifyArray id _ s.heap, ?_⟩
    cases hpadded : (s.heap.array id).padded? position with
    | none =>
      rw [hpadded] at hsize
      exact .of_none (hasked.trans hpadded) (fun _ => maxSize_store _ _ _) (Nat.le_of_eq hsize)
    | some n =>
      rw [hpadded] at hsize
      exact .of_some (hasked.trans hpadded) (maxSize_store _ _ _) hsize fun _ => hallowed n hpadded

/-- A method with an index, which asks for nothing without it. -/
theorem called_index {f : Float → Action Value}
    (hsome : ∀ x, index? args = some x → Called id method args s (f x))
    (hnone : index? args = none → asked? (s.heap.array id) method args = none) :
    Called id method args s (indexArgument args 0 >>= f) :=
  comes_indexArgument hsome fun hindex =>
    ⟨.of_none (hnone hindex) (by decide), .of_none (hnone hindex) (by decide)⟩

/-- A method that stores at the position of its index asks for what that position needs, if there is
one. -/
theorem called_store {position? : Float → Option Nat} {x : Float} {value : Value}
    (hasked : asked? (s.heap.array id) method args =
      ((index? args).bind position?).bind (s.heap.array id).padded?)
    (hmethod : method ≠ "insertAt") (hindex : index? args = some x) :
    Called id method args s (do
      let position ← Action.orRefuse (position? x) .indexOutOfRange
      storeItem id position value
      return .null) := by
  rw [hindex, Option.bind_some] at hasked
  refine comes_orRefuse (fun position hposition => ?_) fun hposition => ?_
  · rw [hposition, Option.bind_some] at hasked
    exact called_storeItem hasked hmethod
  · rw [hposition, Option.bind_none] at hasked
    exact .of_none hasked (by decide)

/-- A method that appends asks for one more. -/
theorem called_push
    (hasked : asked? (s.heap.array id) method args =
      args[0]?.map fun _ => (s.heap.array id).items.size + 1)
    (hmethod : method ≠ "insertAt") :
    Called id method args s (do
      let value ← valueArgument args 0
      if ((← Action.heap).array id).isFull then throw .arrayFull
      modifyCell id fun cell => { cell with items := cell.items.push value }
      return .null) := by
  refine comes_orRefuse (fun value hvalue => ?_) fun hnone => ?_
  · rw [hvalue] at hasked
    refine comes_heap ?_
    by_cases hfull : (s.heap.array id).isFull = true
    · rw [if_pos hfull]
      refine ⟨rfl, fun n hn => ?_, fun hnone => ?_⟩
      · cases hasked.symm.trans hn
        exact ⟨rfl, (ArrayCell.isFull_iff _).mp hfull, hmethod⟩
      · cases hasked.symm.trans hnone
    · rw [if_neg hfull]
      have hallowed : (s.heap.array id).Allows ((s.heap.array id).items.size + 1) := by
        by_contra hnot
        exact hfull ((ArrayCell.isFull_iff _).mpr hnot)
      exact called_modifyCell (.of_some hasked rfl (Array.size_push _) fun _ => hallowed)
  · rw [hnone] at hasked
    exact .of_none hasked (by decide)

end Called

/-- The methods that are particular to arrays. -/
theorem called_call (id : ArrayId) (method : String) (args : List Value) (s : Store) :
    Called id method args s (call id method args) := by
  unfold call
  split
  -- `contains` and `indexOf` only look.
  case h_1 => exact comes_heap (called_look rfl _)
  case h_2 =>
    refine comes_heap ?_
    split
    · exact called_look rfl _
    · exact called_look rfl _
  -- `remove` makes the array shorter, `setMaxSize` leaves the items alone.
  case h_3 =>
    refine comes_heap (comes_orRefuse (fun i _ => ?_) fun _ => .of_none rfl (by decide))
    exact called_modifyCell (.of_none rfl (fun _ => rfl) (size_erase_le _ _))
  case h_4 =>
    refine comes_sizeArgument (fun size => ?_) ⟨.of_none rfl (by decide), .of_none rfl (by decide)⟩
    exact called_modifyCell (.of_none rfl (fun h => absurd rfl h) (Nat.le_refl _))
  case h_5 | h_6 | h_7 => exact called_push rfl (by decide)
  -- Both ends: `dequeue`, `peek`, `front`, `pop` and `top`.
  case h_8 =>
    refine comes_heap (comes_orRefuse (fun first _ => ?_) fun _ => .of_none rfl (by decide))
    exact called_modifyCell (.of_none rfl (fun _ => rfl) (size_erase_le _ _))
  case h_9 | h_10 => exact comes_heap (called_look rfl _)
  case h_11 =>
    refine comes_heap (comes_orRefuse (fun last _ => ?_) fun _ => .of_none rfl (by decide))
    refine called_modifyCell (.of_none rfl (fun _ => rfl) ?_)
    simp
  case h_12 =>
    refine comes_heap ?_
    cases (s.heap.array id).items.back? with
    | none => exact comes_throw (.of_none rfl (by decide))
    | some last => exact called_look rfl last
  case h_13 | h_14 | h_15 | h_16 => exact comes_heap (called_look rfl _)
  case h_17 => exact called_index (fun index _ => comes_heap (called_look rfl _)) fun _ => rfl
  -- `set` and `__setitem__` ask for what their position needs, if they have one.
  case h_18 =>
    have hasked : asked? (s.heap.array id) "set" args =
        ((index? args).bind slot?).bind (s.heap.array id).padded? := rfl
    refine called_index (fun index hindex => ?_) fun hindex => ?_
    · exact called_store hasked (by decide) hindex
    · rw [hasked, hindex, Option.bind_none, Option.bind_none]
  case h_23 =>
    have hasked : asked? (s.heap.array id) "__setitem__" args =
        ((index? args).bind (relativeSlot? · (s.heap.array id).items.size)).bind
          (s.heap.array id).padded? := rfl
    refine called_index (fun index hindex => ?_) fun hindex => ?_
    · exact comes_heap (called_store hasked (by decide) hindex)
    · rw [hasked, hindex, Option.bind_none, Option.bind_none]
  -- `insertAt` asks for one more and gets it.
  case h_19 =>
    have hasked : asked? (s.heap.array id) "insertAt" args = (index? args).bind fun _ =>
        args[1]?.map fun _ => (s.heap.array id).items.size + 1 := rfl
    refine called_index (fun index hindex => ?_) fun hindex => ?_
    · rw [hindex, Option.bind_some] at hasked
      refine comes_orRefuse (fun value hvalue => comes_heap ?_) fun hvalue => ?_
      · rw [hvalue, Option.map_some] at hasked
        refine called_modifyCell (.of_some hasked rfl ?_ fun h => absurd rfl h)
        exact size_insertAt (Nat.min_le_right _ _) value
      · rw [hvalue, Option.map_none] at hasked
        exact .of_none hasked (by decide)
    · rw [hasked, hindex, Option.bind_none]
  -- `removeAt`, `clear` and reading with an index.
  case h_20 =>
    refine called_index (fun index _ => comes_heap ?_) fun _ => rfl
    dsimp only
    split
    · exact called_modifyCell (.of_none rfl (fun _ => rfl) (size_erase_le _ _))
    · exact called_look rfl _
  case h_21 => exact called_modifyCell (.of_none rfl (fun _ => rfl) (Nat.zero_le _))
  case h_22 => exact called_index (fun index _ => comes_heap (called_look rfl _)) fun _ => rfl
  case h_24 =>
    refine comes_throw (.of_none ?_ (by simp))
    unfold asked?
    split
    all_goals first
      | rfl
      | contradiction

/-- A method that arrays do not have asks for nothing. -/
theorem asked?_eq_none (cell : ArrayCell) {method : String} (args : List Value)
    (h : BuiltinClass.array.hasMethod method = false) : asked? cell method args = none := by
  unfold asked?
  split
  all_goals first
    | rfl
    | exact absurd h (by decide)

/-- Every call of an array method answers or refuses as the account of its lengths says. -/
theorem called_callMethod (id : ArrayId) (method : String) (args : List Value) (s : Store) :
    Called id method args s (callMethod (.array id) method args) := by
  -- An answer that leaves the arrays that there are as they are.
  have hbeside : ∀ (v : Value) (s' : Store), asked? (s.heap.array id) method args = none →
      (s.heap.arrays.size ≤ s'.heap.arrays.size ∧
        ∀ j < s.heap.arrays.size, s'.heap.array j = s.heap.array j) →
      ∃ cell, Heap.Leaves id cell s.heap s'.heap ∧
        Answers (s.heap.array id) method args v cell := fun v s' hnone hsame =>
    ⟨_, Heap.leaves_of_same hsame.1 hsame.2, .of_none hnone (fun _ => rfl) (Nat.le_refl _)⟩
  unfold callMethod
  dsimp only
  split
  · next hmethod =>
    have hnone := asked?_eq_none (s.heap.array id) args (Bool.not_eq_true' _ ▸ hmethod)
    exact comes_throw (.of_none hnone (by simp))
  · split
    -- `init` makes another array.
    · show Called id "init" args s (Array.construct args >>= fun d => pure (.datum d))
      unfold Array.construct
      split
      · exact hbeside _ _ rfl (s.heap.newArray_retains _)
      · exact hbeside _ _ rfl (s.heap.newArray_retains _)
      · split
        · exact comes_throw (.of_none rfl (by decide))
        · exact hbeside _ _ rfl (s.heap.newArray_retains _)
    · unfold equalsFirst
      rw [bind_assoc]
      exact comes_heap (called_look rfl _)
    · unfold equalsFirst
      rw [bind_assoc]
      exact comes_heap (called_look rfl _)
    -- `clone` works on the heap without changing any array.
    · have hcopy : Heap.WorksOn (fun _ => False) [.datum (.array id)] s.heap _ _ :=
        Heap.worksOn_cloneUpTo s.heap.depthBound (.array id) s.heap _ List.mem_cons_self
      obtain ⟨hand, work, -⟩ := hcopy
      exact hbeside _ _ rfl ⟨work.retains.1, fun j hj => work.retains.2 j hj not_false⟩
    · exact comes_heap (called_look rfl _)
    · exact called_call id _ args s

/-! ## Sequences of calls -/

/-- A call of a method of an array. -/
structure Call where
  array : ArrayId
  method : String
  args : List Value

namespace Call

/-- Runs the call. -/
def run (c : Call) : Action Value :=
  callMethod (.array c.array) c.method c.args

/-- The store after the call, whether it answers or refuses. -/
def leave (s : Store) (c : Call) : Store :=
  match c.run s with
  | .ok _ s' => s'
  | .error _ s' => s'

variable {s : Store} {c : Call}

/-- The array of a call that answers. -/
theorem answers_of_run {v : Value} {s' : Store} (hid : c.array < s.heap.arrays.size)
    (hrun : c.run s = .ok v s') :
    Answers (s.heap.array c.array) c.method c.args v (s'.heap.array c.array) := by
  obtain ⟨cell, hleaves, hanswers⟩ := (called_callMethod c.array c.method c.args s).ok hrun
  rw [hleaves.array c.array hid, if_pos rfl]
  exact hanswers

/-- A call that was refused has left the store as it was. -/
theorem refuses_of_run {fault : BuiltinFault} {s' : Store} (hrun : c.run s = .error fault s') :
    s' = s ∧ Refuses (s.heap.array c.array) c.method c.args fault :=
  (called_callMethod c.array c.method c.args s).error hrun

/-- A call leaves no array away, and the arrays of other calls as they are. -/
theorem leave_other (s : Store) (c : Call) :
    s.heap.arrays.size ≤ (leave s c).heap.arrays.size ∧
      ∀ id < s.heap.arrays.size, id ≠ c.array → (leave s c).heap.array id = s.heap.array id := by
  have hcalled := called_callMethod c.array c.method c.args s
  unfold leave run
  cases hrun : callMethod (.array c.array) c.method c.args s with
  | error fault s' =>
    obtain ⟨rfl, -⟩ := hcalled.error hrun
    exact ⟨Nat.le_refl _, fun _ _ _ => rfl⟩
  | ok v s' =>
    obtain ⟨cell, hleaves, -⟩ := hcalled.ok hrun
    refine ⟨hleaves.size, fun id hid hne => ?_⟩
    rw [hleaves.array id hid, if_neg hne]

/-- A call that neither inserts nor sets the limit keeps its array within its limit. -/
theorem leave_within (hid : c.array < s.heap.arrays.size) (hinsert : c.method ≠ "insertAt")
    (hset : c.method ≠ "setMaxSize") (hwithin : (s.heap.array c.array).Within) :
    ((leave s c).heap.array c.array).maxSize = (s.heap.array c.array).maxSize ∧
      ((leave s c).heap.array c.array).Within := by
  unfold leave
  cases hrun : c.run s with
  | error fault s' =>
    obtain ⟨rfl, -⟩ := refuses_of_run hrun
    exact ⟨rfl, hwithin⟩
  | ok v s' =>
    have hanswers := answers_of_run hid hrun
    have hlimit := hanswers.limit hset
    refine ⟨hlimit, ArrayCell.Allows.congr ?_ hlimit⟩
    cases hasked : asked? (s.heap.array c.array) c.method c.args with
    | none => exact hwithin.mono (hanswers.other hasked)
    | some n =>
      rw [(hanswers.longer n hasked).2]
      exact hanswers.allowed n hasked hinsert

/-- So does a whole sequence of calls, whatever arrays they are calls of. -/
theorem leaves_within {id : ArrayId} (calls : List Call) (s : Store) (hid : id < s.heap.arrays.size)
    (hcalls : ∀ c ∈ calls, c.array = id → c.method ≠ "insertAt" ∧ c.method ≠ "setMaxSize")
    (hwithin : (s.heap.array id).Within) :
    ((calls.foldl leave s).heap.array id).maxSize = (s.heap.array id).maxSize ∧
      ((calls.foldl leave s).heap.array id).Within := by
  induction calls generalizing s with
  | nil => exact ⟨rfl, hwithin⟩
  | cons c calls ih =>
    obtain ⟨hsize, hother⟩ := leave_other s c
    have hstep : ((leave s c).heap.array id).maxSize = (s.heap.array id).maxSize ∧
        ((leave s c).heap.array id).Within := by
      by_cases heq : c.array = id
      · obtain ⟨hinsert, hset⟩ := hcalls c List.mem_cons_self heq
        subst heq
        exact leave_within hid hinsert hset hwithin
      · rw [hother id hid (Ne.symm heq)]
        exact ⟨rfl, hwithin⟩
    have hrest := ih (leave s c) (Nat.lt_of_lt_of_le hid hsize)
      (fun c' hc' => hcalls c' (List.mem_cons_of_mem c hc')) hstep.2
    exact ⟨hrest.1.trans hstep.1, hrest.2⟩

end Call

/-- In every store, a call that asks for a length, and is not `insertAt`, gets it if the limit of
the array allows it; otherwise the array is full and nothing changes. A call that asks for none
makes the array no longer, is never refused because the array is full, and changes nothing when it
refuses. So an array that is within its limit stays within it as long as neither `insertAt` nor
`setMaxSize` is called on it. What `insertAt` asks for it gets, whatever the limit. -/
theorem arrays_outgrow_limit_only_by_insertion (s : Store) :
    (∀ (c : Call) (n : Nat), c.array < s.heap.arrays.size → c.method ≠ "insertAt" →
      asked? (s.heap.array c.array) c.method c.args = some n →
        ((s.heap.array c.array).Allows n → ∃ s', c.run s = .ok .null s' ∧
          (s'.heap.array c.array).items.size = n ∧
          (s'.heap.array c.array).maxSize = (s.heap.array c.array).maxSize) ∧
        (¬(s.heap.array c.array).Allows n → c.run s = .error .arrayFull s)) ∧
    (∀ c : Call, c.array < s.heap.arrays.size →
      asked? (s.heap.array c.array) c.method c.args = none →
        match c.run s with
        | .ok _ s' => (s'.heap.array c.array).items.size ≤ (s.heap.array c.array).items.size
        | .error fault s' => s' = s ∧ fault ≠ .arrayFull) ∧
    (∀ (id : ArrayId) (calls : List Call), id < s.heap.arrays.size →
      (∀ c ∈ calls, c.array = id → c.method ≠ "insertAt" ∧ c.method ≠ "setMaxSize") →
      (s.heap.array id).Within →
        ((calls.foldl Call.leave s).heap.array id).maxSize = (s.heap.array id).maxSize ∧
        ((calls.foldl Call.leave s).heap.array id).Within) ∧
    (∀ (c : Call) (n : Nat), c.array < s.heap.arrays.size → c.method = "insertAt" →
      asked? (s.heap.array c.array) c.method c.args = some n →
        n = (s.heap.array c.array).items.size + 1 ∧
        ∃ s', c.run s = .ok .null s' ∧ (s'.heap.array c.array).items.size = n ∧
          (s'.heap.array c.array).maxSize = (s.heap.array c.array).maxSize) := by
  refine ⟨fun c n hid hinsert hasked => ?_, fun c hid hasked => ?_,
    fun id calls hid hcalls hwithin => Call.leaves_within calls s hid hcalls hwithin,
    fun c n hid hinsert hasked => ?_⟩
  · cases hrun : c.run s with
    | error fault s' =>
      obtain ⟨rfl, hrefuses⟩ := Call.refuses_of_run hrun
      obtain ⟨rfl, hnot, -⟩ := hrefuses.full n hasked
      exact ⟨fun hallows => absurd hallows hnot, fun _ => rfl⟩
    | ok v s' =>
      have hanswers := Call.answers_of_run hid hrun
      obtain ⟨rfl, hsize⟩ := hanswers.longer n hasked
      have hlimit : c.method ≠ "setMaxSize" := by
        rintro hset
        rw [hset] at hasked
        cases hasked
      exact ⟨fun _ => ⟨s', rfl, hsize, hanswers.limit hlimit⟩,
        fun hnot => absurd (hanswers.allowed n hasked hinsert) hnot⟩
  · cases hrun : c.run s with
    | error fault s' =>
      obtain ⟨rfl, hrefuses⟩ := Call.refuses_of_run hrun
      exact ⟨rfl, hrefuses.other hasked⟩
    | ok v s' => exact (Call.answers_of_run hid hrun).other hasked
  · have hn : n = (s.heap.array c.array).items.size + 1 := by
      rw [hinsert] at hasked
      obtain ⟨index, -, hvalue⟩ := Option.bind_eq_some_iff.mp hasked
      obtain ⟨value, -, heq⟩ := Option.map_eq_some_iff.mp hvalue
      exact heq.symm
    refine ⟨hn, ?_⟩
    cases hrun : c.run s with
    | error fault s' =>
      obtain ⟨-, hrefuses⟩ := Call.refuses_of_run hrun
      exact absurd hinsert (hrefuses.full n hasked).2.2
    | ok v s' =>
      have hanswers := Call.answers_of_run hid hrun
      obtain ⟨rfl, hsize⟩ := hanswers.longer n hasked
      have hlimit : c.method ≠ "setMaxSize" := by
        rw [hinsert]
        decide
      exact ⟨s', rfl, hsize, hanswers.limit hlimit⟩

/-- An empty array with the limit zero, and an item that is inserted nevertheless. -/
theorem insertion_passes_limit :
    let s : Store := ⟨{ Heap.empty with arrays := #[⟨#[], some 0⟩] }, #[], 0⟩
    let c : Call := ⟨0, "insertAt", [.number 0, .null]⟩
    (s.heap.array 0).Within ∧
      ∃ s', c.run s = .ok .null s' ∧ (s'.heap.array 0).maxSize = some 0 ∧
        ¬(s'.heap.array 0).Within := by
  intro s c
  have hwithin : (s.heap.array 0).Within := fun limit _ => Nat.zero_le limit
  refine ⟨hwithin, ?_⟩
  cases hrun : c.run s with
  | error fault s' =>
    obtain ⟨-, hrefuses⟩ := Call.refuses_of_run hrun
    exact absurd rfl (hrefuses.full 1 rfl).2.2
  | ok v s' =>
    have hanswers := Call.answers_of_run (s := s) (c := c) (by decide) hrun
    obtain ⟨rfl, hsize⟩ := hanswers.longer 1 rfl
    have hlimit : (s'.heap.array 0).maxSize = some 0 := hanswers.limit (by decide)
    refine ⟨s', rfl, hlimit, fun hwithin' => ?_⟩
    have hle := hwithin' 0 hlimit
    rw [show (s'.heap.array 0).items.size = 1 from hsize] at hle
    omega

end Builtin.Array

end ScriptEngine
