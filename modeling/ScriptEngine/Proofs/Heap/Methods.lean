import ScriptEngine.Proofs.Heap.Working

/-!
# What built-in methods do

A method of a built-in instance has its receiver and its arguments at hand when it starts. It
changes no cell but the one of its receiver, and it answers with a value that it has at hand, or it
refuses, and then the store is as it was before (`comes_callMethod`). The classes make their
instances in the same way (`comes_construct`). This module goes through all classes and methods
once, and says everything about them that the single steps of the work can tell.
-/

namespace ScriptEngine

/-! ## Actions that refuse before they change anything -/

namespace Action

/-- From a store, the action answers with a property, or it refuses for a reason with a property
and leaves the store as it is. -/
def Comes {α : Type} (s : Store) (P : BuiltinFault → Prop) (Q : α → Store → Prop)
    (a : Action α) : Prop :=
  match a s with
  | .ok v s' => Q v s'
  | .error fault s' => s' = s ∧ P fault

/-- From a store, the action answers with a property, or it refuses and leaves the store as it
is. -/
abbrev Settles {α : Type} (s : Store) (Q : α → Store → Prop) (a : Action α) : Prop :=
  Comes s (fun _ => True) Q a

section Rules

variable {α β : Type} {s : Store} {P : BuiltinFault → Prop} {Q : α → Store → Prop}

theorem comes_pure {v : α} (h : Q v s) : Comes s P Q (pure v) :=
  h

theorem comes_throw {fault : BuiltinFault} (h : P fault) : Comes s P Q (throw fault) :=
  ⟨rfl, h⟩

theorem comes_heap {f : Heap → Action α} (h : Comes s P Q (f s.heap)) :
    Comes s P Q (Action.heap >>= f) :=
  h

/-- Going on with what is there, or refusing where nothing is. -/
theorem comes_orRefuse {a? : Option β} {fault : BuiltinFault} {f : β → Action α}
    (hsome : ∀ v, a? = some v → Comes s P Q (f v)) (hnone : a? = none → P fault) :
    Comes s P Q (orRefuse a? fault >>= f) := by
  cases a? with
  | none => exact comes_throw (hnone rfl)
  | some v => exact hsome v rfl

theorem Comes.ok {a : Action α} (ha : Comes s P Q a) {v : α} {s' : Store} (hrun : a s = .ok v s') :
    Q v s' := by
  unfold Comes at ha
  rw [hrun] at ha
  exact ha

/-- A refusal leaves the store as it was. -/
theorem Comes.error {a : Action α} (ha : Comes s P Q a) {fault : BuiltinFault} {s' : Store}
    (hrun : a s = .error fault s') : s' = s ∧ P fault := by
  unfold Comes at ha
  rw [hrun] at ha
  exact ha

theorem comes_mono {R : α → Store → Prop} {a : Action α} (ha : Comes s P Q a)
    (h : ∀ v s', Q v s' → R v s') : Comes s P R a := by
  unfold Comes
  cases hr : a s with
  | error fault s' => exact ha.error hr
  | ok v s' => exact h v s' (ha.ok hr)

/-- Behind the answer nothing happens any more. -/
theorem comes_return {a : Action β} {f : β → α} (ha : Comes s P (fun v s' => Q (f v) s') a) :
    Comes s P Q (do return f (← a)) := by
  show match EStateM.bind a _ s with | .ok v s' => Q v s' | .error fault s' => s' = s ∧ P fault
  unfold EStateM.bind
  cases hr : a s with
  | error fault s' => exact ha.error hr
  | ok v s' => exact ha.ok hr

end Rules

end Action

namespace Builtin

open ScriptEngine.Action

namespace Array

/-- The number that the first argument is. -/
def index? (args : List Value) : Option Float :=
  args[0]?.bind Value.number?

section

variable {α : Type} {s : Store} {P : BuiltinFault → Prop} {Q : α → Store → Prop}
  {args : List Value}

/-- An index is read off the arguments, or the call is refused. -/
theorem comes_indexArgument {f : Float → Action α}
    (hsome : ∀ x, index? args = some x → Comes s P Q (f x))
    (hnone : index? args = none → P .expectedIndex ∧ P .expectedNumericArgument) :
    Comes s P Q (indexArgument args 0 >>= f) := by
  unfold indexArgument
  unfold index? at hsome hnone
  split
  · next hargs =>
    rw [hargs] at hnone
    exact comes_throw (hnone rfl).1
  · next hargs =>
    rw [hargs] at hnone
    exact comes_throw (hnone rfl).1
  · next v _ hargs =>
    rw [hargs] at hsome hnone
    exact comes_orRefuse hsome fun hv => (hnone hv).2

/-- A size is read off the arguments, or the call is refused. -/
theorem comes_sizeArgument {f : Option Nat → Action α} (hsome : ∀ size, Comes s P Q (f size))
    (hnone : P .expectedSize ∧ P .expectedNumericArgument) :
    Comes s P Q (sizeArgument args >>= f) := by
  unfold sizeArgument
  split
  · exact comes_throw hnone.1
  · exact hsome none
  · next v _ _ =>
    cases v.number? with
    | none => exact comes_throw hnone.2
    | some x => exact hsome _

end

end Array

/-! ## Answers -/

/-- From a store, work on the heap has come to another one, and has the answer at hand. -/
def Worked (changes : Value → Prop) (given : List Value) (s : Store) (v : Value) (s' : Store) :
    Prop :=
  ∃ hand, s.heap.Works changes given s'.heap hand ∧ v ∈ hand

/-- The answer of a class is an instance of it. -/
def Made (changes : Value → Prop) (given : List Value) (c : BuiltinClass) (s : Store) (d : Datum)
    (s' : Store) : Prop :=
  d.cls = c ∧ Worked changes given s (.datum d) s'

section

variable {changes : Value → Prop} {given : List Value} {s : Store} {v : Value}

/-- Nothing but looking. -/
theorem worked_look (hv : s.heap.Ready given v) : Worked changes given s v s :=
  ⟨v :: given, .take .start hv, List.mem_cons_self⟩

/-- A value at hand may be answered without any work. -/
theorem comes_look (hv : s.heap.Ready given v) : Settles s (Worked changes given s) (pure v) :=
  comes_pure (worked_look hv)

theorem comes_scalar (hv : v.IsScalar) : Settles s (Worked changes given s) (pure v) :=
  comes_look (.scalar hv)

/-- Making an array of values at hand is work that has the array at hand. -/
theorem worked_newArray {cell : ArrayCell} (hitems : ∀ w ∈ cell.items, s.heap.Ready given w) :
    Worked changes given s (.datum (.array s.heap.arrays.size))
      { s with heap := (s.heap.newArray cell).2 } :=
  ⟨_, .newArray .start hitems, List.mem_cons_self⟩

/-- Making a map of values at hand is work that has the map at hand. -/
theorem worked_newMap {cell : MapCell}
    (hentries : ∀ e ∈ cell.entries, s.heap.Ready given e.1 ∧ s.heap.Ready given e.2) :
    Worked changes given s (.datum (.map s.heap.maps.size))
      { s with heap := (s.heap.newMap cell).2 } :=
  ⟨_, .newMap .start hentries, List.mem_cons_self⟩

/-- Making an error with a message at hand is work that has the error at hand. -/
theorem worked_newError {cell : ErrorCell} (hmessage : s.heap.Ready given cell.message) :
    Worked changes given s (.datum (.error s.heap.errors.size))
      { s with heap := (s.heap.newError cell).2 } :=
  ⟨_, .newError .start hmessage, List.mem_cons_self⟩

/-- The answer may be an item that the array holds no longer. -/
theorem worked_modifyArray {id : ArrayId} {f : ArrayCell → ArrayCell}
    (hid : changes (.datum (.array id)))
    (hitems : ∀ w ∈ (f (s.heap.array id)).items, s.heap.Ready given w)
    (hv : s.heap.Ready given v) :
    Worked changes given s v { s with heap := s.heap.modifyArray id f } :=
  ⟨v :: given, .modifyArray (.take .start hv) hid fun w hw =>
    (hitems w hw).mono (List.subset_cons_self v given), List.mem_cons_self⟩

/-- Changing the map that may be changed, by values at hand, is work. -/
theorem worked_modifyMap {id : MapId} {f : MapCell → MapCell} (hid : changes (.datum (.map id)))
    (hentries : ∀ e ∈ (f (s.heap.map id)).entries,
      s.heap.Ready given e.1 ∧ s.heap.Ready given e.2) :
    Worked changes given s .null { s with heap := s.heap.modifyMap id f } :=
  ⟨.null :: given, .take (.modifyMap .start hid hentries) (.scalar trivial), List.mem_cons_self⟩

end

/-! ## Scalars -/

section

variable {changes : Value → Prop} {given : List Value} {s : Store} {args : List Value}

/-- An instance without a cell. -/
theorem comes_made {d : Datum} (hd : (Value.datum d).IsScalar) :
    Settles s (Made changes given d.cls s) (pure d) :=
  comes_pure ⟨rfl, worked_look (.scalar hd)⟩

/-- Making a number is no work on the heap. -/
theorem comes_number_construct :
    Settles s (Made changes given .number s) (Number.construct args) := by
  unfold Number.construct
  split
  case h_5 text _ =>
    -- Which number the text spells does not matter, and it is not to be computed.
    generalize Number.ofText? text = value?
    exact comes_orRefuse (fun _ _ => comes_made trivial) fun _ => trivial
  all_goals first
    | exact comes_made trivial
    | exact comes_throw trivial

theorem comes_divisor {Q : Float → Store → Prop} (hQ : ∀ y, Q y s) :
    Settles s Q (Number.divisor args) := by
  refine comes_orRefuse (fun y _ => ?_) fun _ => trivial
  dsimp only
  split
  · exact ⟨rfl, trivial⟩
  · exact hQ y

/-- Every method of numbers works with its arguments alone. -/
theorem comes_number_call (x : Float) (method : String) :
    Settles s (Worked changes given s) (Number.call x method args) := by
  unfold Number.call
  split
  case h_1 => exact comes_scalar trivial
  -- Division and remainder refuse a zero.
  case h_6 | h_7 => exact comes_return (comes_divisor fun _ => worked_look (.scalar trivial))
  case h_14 => exact comes_throw trivial
  all_goals exact comes_orRefuse (fun _ _ => comes_scalar trivial) fun _ => trivial

/-- Making a text is no work on the heap. -/
theorem comes_text_construct :
    Settles s (Made changes given .string s) (Text.construct args) :=
  comes_orRefuse (fun _ _ => comes_made trivial) fun _ => trivial

/-- Every method of texts works with its arguments alone. -/
theorem comes_text_call (text method : String) :
    Settles s (Worked changes given s) (Text.call text method args) := by
  unfold Text.call
  split
  case h_1 | h_2 | h_3 => exact comes_scalar trivial
  case h_4 | h_5 =>
    exact comes_orRefuse (fun _ _ => comes_scalar trivial) fun _ => trivial
  case h_6 =>
    refine comes_orRefuse (fun search _ => ?_) fun _ => trivial
    exact comes_orRefuse (fun replacement _ => comes_scalar trivial) fun _ => trivial
  case h_7 => exact comes_throw trivial

/-- Making a truth value is no work on the heap. -/
theorem comes_boolean_construct :
    Settles s (Made changes given .boolean s) (Boolean.construct args) := by
  unfold Boolean.construct
  split
  all_goals first
    | exact comes_made trivial
    | exact comes_throw trivial

/-- Every method of truth values answers with a scalar. -/
theorem comes_boolean_call (b : Bool) (method : String) :
    Settles s (Worked changes given s) (Boolean.call b method) := by
  unfold Boolean.call
  split
  · exact comes_scalar trivial
  · exact comes_throw trivial

end

/-! ## Arrays -/

section

variable {changes : Value → Prop} {given : List Value} {s : Store} {args : List Value}

/-- An array of values at hand is an instance of its class. -/
theorem made_array {items : Array Value} (hitems : ∀ v ∈ items, s.heap.Ready given v) :
    Settles s (Made changes given .array s) (Array.ofItems items) :=
  ⟨rfl, worked_newArray hitems⟩

/-- Making an array takes a size, items or nothing from the arguments, or is refused. -/
theorem comes_array_construct (hargs : args ⊆ given) :
    Settles s (Made changes given .array s) (Array.construct args) := by
  unfold Array.construct
  split
  · exact made_array (by simp)
  · next id hhead =>
    have hid : .datum (.array id) ∈ given := hargs (List.mem_of_head? hhead)
    exact comes_heap (made_array fun v hv => .held hid (.item (Array.mem_toList_iff.mpr hv)))
  · split
    · exact comes_throw trivial
    · exact made_array (by simp)

/-- Storing puts only the value and `null` into an array. -/
theorem mem_store {cell : ArrayCell} {position : Nat} {value v : Value}
    (h : v ∈ (Array.store cell position value).items) :
    v ∈ cell.items ∨ v = .null ∨ v = value := by
  unfold Array.store at h
  split at h
  · rcases Array.mem_or_eq_of_mem_setIfInBounds h with h | h
    · exact Or.inl h
    · exact Or.inr (Or.inr h)
  · simp only [Array.mem_push, Array.mem_append, Array.mem_replicate] at h
    rcases h with (h | h) | h
    · exact Or.inl h
    · exact Or.inr (Or.inl h.2)
    · exact Or.inr (Or.inr h)

/-- A slice has no items but those of the array. -/
theorem mem_of_mem_extract {items : Array Value} {i j : Nat} {v : Value}
    (h : v ∈ items.extract i j) : v ∈ items := by
  obtain ⟨k, hk, rfl⟩ := Array.mem_extract_iff_getElem.mp h
  exact Array.getElem_mem _

theorem mem_of_mem_pop {items : Array Value} {v : Value} (h : v ∈ items.pop) : v ∈ items := by
  rw [← Array.mem_toList_iff, Array.toList_pop] at h
  exact Array.mem_toList_iff.mp (List.dropLast_subset _ h)

theorem mem_of_mem_erase {items : Array Value} {i : Nat} {v : Value}
    (h : v ∈ items.eraseIdxIfInBounds i) : v ∈ items := by
  unfold Array.eraseIdxIfInBounds at h
  split at h
  · exact Array.mem_of_mem_eraseIdx h
  · exact h

theorem mem_insertAt {cell : ArrayCell} {position : Nat} {value v : Value}
    (h : v ∈ (Array.insertAt cell position value).items) : v ∈ cell.items ∨ v = value := by
  simp only [Array.insertAt, Array.mem_append, Array.mem_push] at h
  rcases h with (h | h) | h
  · exact Or.inl (mem_of_mem_extract h)
  · exact Or.inr h
  · exact Or.inl (mem_of_mem_extract h)

/-- An argument that is not there counts as `null`. -/
theorem ready_argument {h : Heap} (hargs : args ⊆ given) (i : Nat) :
    h.Ready given (args[i]?.getD .null) := by
  cases ha : args[i]? with
  | none => exact .scalar trivial
  | some v => exact .given (hargs (List.mem_of_getElem? ha))

section

variable {id : ArrayId} (hid : .datum (.array id) ∈ given)
include hid

/-- The items of an array at hand are at hand. -/
theorem ready_item {h : Heap} {v : Value} (hv : v ∈ (h.array id).items) : h.Ready given v :=
  .held hid (.item (Array.mem_toList_iff.mpr hv))

theorem ready_itemAt {h : Heap} (position? : Option Nat) :
    h.Ready given (Array.itemAt (h.array id) position?) := by
  unfold Array.itemAt
  cases hitem : position?.bind fun i => (h.array id).items[i]? with
  | none => exact .scalar trivial
  | some v =>
    obtain ⟨i, -, hi⟩ := Option.bind_eq_some_iff.mp hitem
    exact ready_item hid (Array.mem_of_getElem? hi)

variable (hchanges : changes (.datum (.array id)))
include hchanges

/-- The array is changed to fewer of the items that it had. -/
theorem comes_shrink {f : ArrayCell → ArrayCell} {v : Value}
    (hf : ∀ w ∈ (f (s.heap.array id)).items, w ∈ (s.heap.array id).items)
    (hv : s.heap.Ready given v) :
    Settles s (Worked changes given s)
      (do Array.modifyCell id f; return v) :=
  worked_modifyArray hchanges (fun w hw => ready_item hid (hf w hw)) hv

/-- The array is changed to hold one more value. -/
theorem comes_extend {f : ArrayCell → ArrayCell} {value : Value}
    (hf : ∀ w ∈ (f (s.heap.array id)).items, w ∈ (s.heap.array id).items ∨ w = value)
    (hvalue : s.heap.Ready given value) :
    Settles s (Worked changes given s)
      (do Array.modifyCell id f; return .null) := by
  refine worked_modifyArray hchanges (fun w hw => ?_) (.scalar trivial)
  rcases hf w hw with hw | rfl
  · exact ready_item hid hw
  · exact hvalue

/-- Storing a value at hand is work, or refused because of the limit. -/
theorem comes_storeItem {position : Nat} {value : Value} (hvalue : s.heap.Ready given value) :
    Settles s (Worked changes given s)
      (do Array.storeItem id position value; return .null) := by
  refine comes_return (comes_heap ?_)
  split
  · exact comes_throw trivial
  · refine worked_modifyArray hchanges (fun w hw => ?_) (.scalar trivial)
    rcases mem_store hw with hw | rfl | rfl
    · exact ready_item hid hw
    · exact .scalar trivial
    · exact hvalue

/-- Every method of arrays works with its receiver and its arguments, and changes its receiver
only. -/
theorem comes_array_call (hargs : args ⊆ given) (method : String) :
    Settles s (Worked changes given s) (Array.call id method args) := by
  have hnull : s.heap.Ready given .null := .scalar trivial
  have hgiven : ∀ {i : Nat} {value : Value}, args[i]? = some value → s.heap.Ready given value :=
    fun h => .given (hargs (List.mem_of_getElem? h))
  have hindex : ∀ {f : Float → Action Value},
      (∀ x, Settles s (Worked changes given s) (f x)) →
        Settles s (Worked changes given s) (Array.indexArgument args 0 >>= f) :=
    fun hf => Array.comes_indexArgument (fun x _ => hf x) fun _ => ⟨trivial, trivial⟩
  unfold Array.call
  split
  -- `contains` and `indexOf` only look.
  case h_1 => exact comes_heap (comes_scalar trivial)
  case h_2 =>
    refine comes_heap ?_
    split
    · exact comes_scalar trivial
    · exact comes_scalar trivial
  -- `remove` and `setMaxSize`: no item is added.
  case h_3 =>
    refine comes_heap (comes_orRefuse (fun i _ => ?_) fun _ => trivial)
    exact comes_shrink hid hchanges (fun w => mem_of_mem_erase) hnull
  case h_4 =>
    refine Array.comes_sizeArgument (fun size => ?_) ⟨trivial, trivial⟩
    exact comes_shrink hid hchanges (fun w hw => hw) hnull
  -- `enqueue`, `add` and `push`: the argument is the one new item.
  case h_5 | h_6 | h_7 =>
    refine comes_orRefuse (fun value hvalue => comes_heap ?_) fun _ => trivial
    dsimp only
    split
    · exact ⟨rfl, trivial⟩
    · exact comes_extend hid hchanges (fun w hw => Array.mem_push.mp hw) (hgiven hvalue)
  -- `dequeue` answers with an item that it takes out, `peek` and `front` with one that stays.
  case h_8 =>
    refine comes_heap (comes_orRefuse (fun first hfirst => ?_) fun _ => trivial)
    exact comes_shrink hid hchanges (fun w => mem_of_mem_erase)
      (ready_item hid (Array.mem_of_getElem? hfirst))
  case h_9 | h_10 => exact comes_heap (comes_look (ready_itemAt hid _))
  -- The same at the other end: `pop` and `top`.
  case h_11 =>
    refine comes_heap (comes_orRefuse (fun last hlast => ?_) fun _ => trivial)
    exact comes_shrink hid hchanges (fun w => mem_of_mem_pop)
      (ready_item hid (Array.mem_of_back? hlast))
  case h_12 =>
    refine comes_heap ?_
    cases hlast : (s.heap.array id).items.back? with
    | none => exact comes_throw trivial
    | some last => exact worked_look (ready_item hid (Array.mem_of_back? hlast))
  case h_13 | h_14 | h_15 | h_16 => exact comes_heap (comes_scalar trivial)
  -- `get`, `set`, `insertAt`, `removeAt` and `clear`. A gap is filled with nulls.
  case h_17 => exact hindex fun index => comes_heap (comes_look (ready_itemAt hid _))
  case h_18 =>
    refine hindex fun index => comes_orRefuse (fun position _ => ?_) fun _ => trivial
    exact comes_storeItem hid hchanges (ready_argument hargs 1)
  case h_19 =>
    refine hindex fun index => comes_orRefuse (fun value hvalue => comes_heap ?_) fun _ => trivial
    exact comes_extend hid hchanges (fun w hw => mem_insertAt hw) (hgiven hvalue)
  case h_20 =>
    refine hindex fun index => comes_heap ?_
    dsimp only
    split
    · exact comes_shrink hid hchanges (fun w => mem_of_mem_erase) hnull
    · exact comes_scalar trivial
  case h_21 => exact comes_shrink hid hchanges (fun w hw => absurd hw (by simp)) hnull
  -- Reading and writing with an index.
  case h_22 => exact hindex fun index => comes_heap (comes_look (ready_itemAt hid _))
  case h_23 =>
    refine hindex fun index => comes_heap (comes_orRefuse (fun position _ => ?_) fun _ => trivial)
    exact comes_storeItem hid hchanges (ready_argument hargs 1)
  case h_24 => exact comes_throw trivial

end

/-! ## Maps, errors and loggers -/

/-- A map of values at hand is an instance of its class. -/
theorem made_map {cell : MapCell}
    (hentries : ∀ e ∈ cell.entries, s.heap.Ready given e.1 ∧ s.heap.Ready given e.2) :
    Settles s (Made changes given .map s) (Map.ofCell cell) :=
  ⟨rfl, worked_newMap hentries⟩

/-- The keys and values of a map at hand are at hand. -/
theorem ready_entries {h : Heap} {id : MapId} (hid : .datum (.map id) ∈ given) :
    ∀ e ∈ (h.map id).entries, h.Ready given e.1 ∧ h.Ready given e.2 :=
  fun _ he => ⟨.held hid (.key he), .held hid (.entry he)⟩

/-- Making a map takes its entries from a map among the arguments, or is refused. -/
theorem comes_map_construct (hargs : args ⊆ given) :
    Settles s (Made changes given .map s) (Map.construct args) := by
  unfold Map.construct
  split
  · exact made_map (by simp)
  · exact made_map (by simp)
  · next id hhead =>
    exact comes_heap (made_map (ready_entries (hargs (List.mem_of_head? hhead))))
  · exact comes_throw trivial

/-- Every method of maps works with its receiver and its arguments, and changes its receiver
only. -/
theorem comes_map_call {id : MapId} (hid : .datum (.map id) ∈ given)
    (hchanges : changes (.datum (.map id))) (hargs : args ⊆ given) (method : String) :
    Settles s (Worked changes given s) (Map.call id method args) := by
  unfold Map.call
  split
  · refine comes_orRefuse (fun key _ => comes_heap (comes_look ?_)) fun _ => trivial
    cases hvalue : s.heap.mapGet? id key with
    | none => exact .scalar trivial
    | some value =>
      obtain ⟨e, he, rfl⟩ := Heap.mem_of_get? hvalue
      exact (ready_entries hid e he).2
  · refine comes_orRefuse (fun key hkey => ?_) fun _ => trivial
    refine comes_orRefuse (fun value hvalue => ?_) fun _ => trivial
    refine worked_modifyMap hchanges (Heap.forall_putEntry ?_ ?_ (ready_entries hid))
    · exact .given (hargs (List.mem_of_getElem? hkey))
    · exact .given (hargs (List.mem_of_getElem? hvalue))
  · exact comes_throw trivial

/-- An error with a message at hand is an instance of its class. -/
theorem made_error {message : Value} (hmessage : s.heap.Ready given message) :
    Settles s (Made changes given .error s) (Error.withMessage message) :=
  ⟨rfl, worked_newError hmessage⟩

/-- Making an error takes its message from the arguments. -/
theorem comes_error_construct (hargs : args ⊆ given) :
    Settles s (Made changes given .error s) (Error.construct args) :=
  comes_orRefuse (fun _ hmessage => made_error (.given (hargs (List.mem_of_getElem? hmessage))))
    fun _ => trivial

/-- Every method of errors looks at the message only. -/
theorem comes_error_call {id : ErrorId} (hid : .datum (.error id) ∈ given) (method : String) :
    Settles s (Worked changes given s) (Error.call id method) := by
  unfold Error.call
  split
  · exact comes_heap (comes_look (.held hid (.message id)))
  · exact comes_throw trivial

/-- Every method of loggers writes a line and answers with a scalar. -/
theorem comes_logger_call (method : String) :
    Settles s (Worked changes given s) (Logger.call method args) := by
  unfold Logger.call
  split
  · have hnull : (Value.null).IsScalar := trivial
    exact ⟨_, .take .start (.scalar hnull), List.mem_cons_self⟩
  · exact comes_throw trivial

/-! ## Any built-in instance -/

/-- What a class is called for is an instance of it. -/
theorem comes_construct (c : BuiltinClass) (hargs : args ⊆ given) :
    Settles s (Made changes given c s) (construct c args) := by
  cases c with
  | number => exact comes_number_construct
  | string => exact comes_text_construct
  | boolean => exact comes_boolean_construct
  | array => exact comes_array_construct hargs
  | map => exact comes_map_construct hargs
  | error => exact comes_error_construct hargs
  | logger => exact comes_made trivial

/-- The instance behind a built-in superclass is made without arguments. -/
theorem comes_defaultInstance (c : BuiltinClass) :
    Settles s (Made changes given c s) (defaultInstance c) := by
  cases c with
  | array => exact made_array (by simp)
  | map => exact made_map (by simp)
  | error => exact made_error (.scalar trivial)
  | _ => exact comes_made trivial

/-- Every method that a built-in class has of its own works so. -/
theorem comes_callOwn {receiver : Datum} (hreceiver : .datum receiver ∈ given)
    (hchanges : changes (.datum receiver)) (hargs : args ⊆ given) (method : String) :
    Settles s (Worked changes given s) (callOwn receiver method args) := by
  cases receiver with
  | number x => exact comes_number_call x method
  | string text => exact comes_text_call text method
  | boolean b => exact comes_boolean_call b method
  | array id => exact comes_array_call hreceiver hchanges hargs method
  | map id => exact comes_map_call hreceiver hchanges hargs method
  | error id => exact comes_error_call hreceiver method
  | logger => exact comes_logger_call method

end

/-- A method of a built-in instance works with its receiver and its arguments, and changes no cell
but the one of its receiver. -/
theorem comes_callMethod (receiver : Datum) (method : String) (args : List Value) (s : Store) :
    Settles s (Worked (fun v => v = .datum receiver) (.datum receiver :: args) s)
      (callMethod receiver method args) := by
  have hreceiver : .datum receiver ∈ Value.datum receiver :: args := List.mem_cons_self
  have hargs : args ⊆ .datum receiver :: args := List.subset_cons_self _ _
  unfold callMethod
  dsimp only
  split
  · exact ⟨rfl, trivial⟩
  · split
    · exact comes_return (comes_mono (comes_construct _ hargs) fun _ _ h => h.2)
    · exact comes_return (comes_heap (comes_scalar trivial))
    · exact comes_return (comes_heap (comes_scalar trivial))
    · exact Heap.worksOn_cloneUpTo s.heap.depthBound receiver s.heap _ hreceiver
    · exact comes_heap (comes_scalar trivial)
    · refine comes_callOwn hreceiver ?_ hargs _
      rfl

end Builtin

end ScriptEngine
