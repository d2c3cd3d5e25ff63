import ScriptEngine.Proofs.Heap.Builtin
import ScriptEngine.Proofs.Heap.Image

/-!
# Built-in functions in an image

A built-in function does the same in the image of a heap: it answers with the image of the answer,
leaves the image of the store behind, or refuses for the same reason. `Action.Mirrors` says so of
an action and its counterpart, and there is one lemma for each built-in function. Import references
are neither made nor changed.
-/

namespace ScriptEngine

/-- The store with the image of its heap. -/
def Store.image (r : Relabeling) (imports : Array ImportCell) (s : Store) : Store :=
  { s with heap := s.heap.image r imports }

namespace Action

/-- In the image of a store the second action does what the first does in the store, and the import
references of the store are as before. -/
def Mirrors {α β : Type} (r : Relabeling) (imports : Array ImportCell) (s : Store) (a : Action α)
    (b : Action β) (f : α → β) : Prop :=
  match a s with
  | .ok v s' =>
    b (s.image r imports) = .ok (f v) (s'.image r imports) ∧ s'.heap.imports = s.heap.imports
  | .error e s' =>
    b (s.image r imports) = .error e (s'.image r imports) ∧ s'.heap.imports = s.heap.imports

section Rules

variable {α β γ δ : Type} {r : Relabeling} {imports : Array ImportCell} {s : Store}

/-- Answering at once is mirrored by answering with the image. -/
theorem mirrors_pure {v : α} {w : β} {f : α → β} (h : w = f v) :
    Mirrors r imports s (pure v) (pure w) f :=
  ⟨by rw [h]; rfl, rfl⟩

/-- A refusal is mirrored by the same refusal. -/
theorem mirrors_throw (fault : BuiltinFault) {f : α → β} :
    Mirrors r imports s (throw fault) (throw fault) f :=
  ⟨rfl, rfl⟩

/-- Two actions are mirrored one after the other, the second in whatever store the first leaves,
whose import references are those of before. -/
theorem mirrors_bind {a : Action α} {b : Action β} {f : α → β} {c : α → Action γ}
    {d : β → Action δ} {g : γ → δ} (ha : Mirrors r imports s a b f)
    (hc : ∀ v s', a s = .ok v s' → s'.heap.imports = s.heap.imports →
      Mirrors r imports s' (c v) (d (f v)) g) : Mirrors r imports s (a >>= c) (b >>= d) g := by
  unfold Mirrors at ha ⊢
  show match EStateM.bind a c s with | .ok v s' => _ | .error _ s' => _
  simp only [bind, EStateM.bind]
  cases hr : a s with
  | error e s' =>
    simp only [hr] at ha ⊢
    rw [ha.1]
    exact ⟨rfl, ha.2⟩
  | ok v s' =>
    simp only [hr] at ha ⊢
    rw [ha.1]
    have h := hc v s' hr ha.2
    unfold Mirrors at h
    cases hr' : c v s' with
    | error e s'' =>
      simp only [hr'] at h ⊢
      exact ⟨h.1, h.2.trans ha.2⟩
    | ok w s'' =>
      simp only [hr'] at h ⊢
      exact ⟨h.1, h.2.trans ha.2⟩

/-- What is read off the heap is the image of what is read off its counterpart. -/
theorem mirrors_heap_bind {c : Heap → Action γ} {d : Heap → Action δ} {g : γ → δ}
    (hc : Mirrors r imports s (c s.heap) (d (s.heap.image r imports)) g) :
    Mirrors r imports s (Action.heap >>= c) (Action.heap >>= d) g :=
  hc

/-- Going on with what is there, or refusing, depends only on whether something is there. -/
theorem mirrors_orRefuse {a? : Option α} {b? : Option β} {f : α → β} (h : b? = a?.map f)
    (fault : BuiltinFault) : Mirrors r imports s (orRefuse a? fault) (orRefuse b? fault) f := by
  subst h
  cases a? with
  | none => exact mirrors_throw fault
  | some a => exact mirrors_pure rfl

/-- Output is the same in the image, where the line is. -/
theorem mirrors_print {line line' : String} (h : line' = line) {f : Unit → Unit} :
    Mirrors r imports s (print line) (print line') f := by
  subst h
  exact ⟨rfl, rfl⟩

/-- The clock is no part of the heap, so both stores read the same time. -/
theorem mirrors_readClock : Mirrors r imports s readClock readClock id :=
  ⟨rfl, rfl⟩

/-- A change of the heap that commutes with taking the image is mirrored. -/
theorem mirrors_modifyHeap {g g' : Heap → Heap} {f : Unit → Unit}
    (h : g' (s.heap.image r imports) = (g s.heap).image r imports)
    (himports : (g s.heap).imports = s.heap.imports) :
    Mirrors r imports s (modifyHeap g) (modifyHeap g') f := by
  refine ⟨?_, himports⟩
  show EStateM.Result.ok () { s.image r imports with heap := g' (s.heap.image r imports) } = _
  rw [h]
  rfl

/-- A computation on the heap that commutes with taking the image is mirrored, answer and all. -/
theorem mirrors_onHeap {g : Heap → α × Heap} {g' : Heap → β × Heap} {f : α → β}
    (h : g' (s.heap.image r imports) = (f (g s.heap).1, (g s.heap).2.image r imports))
    (himports : (g s.heap).2.imports = s.heap.imports) :
    Mirrors r imports s (onHeap g) (onHeap g') f := by
  refine ⟨?_, himports⟩
  show EStateM.Result.ok (g' (s.heap.image r imports)).1
    { s.image r imports with heap := (g' (s.heap.image r imports)).2 } = _
  rw [h]
  rfl

end Rules

end Action

namespace Builtin

open Action

variable {r : Relabeling} {imports : Array ImportCell} {s : Store}

/-! ## Arguments -/

theorem head?_map (args : List Value) : (args.map r.value).head? = args.head?.map r.value :=
  List.head?_map

/-- An argument that is put to use as a number, a text or not at all. -/
theorem argument_bind {α : Type} {use : Value → Option α} (huse : ∀ v, use (r.value v) = use v)
    (args : List Value) (i : Nat) :
    (args.map r.value)[i]?.bind use = args[i]?.bind use := by
  rw [List.getElem?_map, Option.bind_map]
  congr 1
  funext v
  exact huse v

/-- A missing argument counts as `null` in both calls. -/
theorem argument_getD (args : List Value) (i : Nat) :
    (args.map r.value)[i]?.getD .null = r.value (args[i]?.getD .null) := by
  rw [List.getElem?_map]
  cases args[i]? <;> rfl

/-! ## Numbers, texts and truth values -/

/-- Making a number looks at scalars only, which are their own images. -/
theorem number_construct_map (args : List Value) :
    Number.construct (args.map r.value) = Number.construct args := by
  unfold Number.construct
  rw [head?_map]
  cases args.head? with
  | none => rfl
  | some v => cases v <;> rfl

/-- The operand of an arithmetic method is a scalar, so it is the same in the image. -/
theorem operand_map (args : List Value) :
    Number.operand (args.map r.value) = Number.operand args := by
  unfold Number.operand
  rw [argument_bind r.value_number?]

/-- No method of a number tells its arguments from their images. -/
theorem number_call_map (x : Float) (method : String) (args : List Value) :
    Number.call x method (args.map r.value) = Number.call x method args := by
  unfold Number.call Number.divisor
  rw [operand_map]

/-- The text of an argument is the same in the image. -/
theorem textArgument_map (args : List Value) (i : Nat) :
    Text.textArgument (args.map r.value) i = Text.textArgument args i := by
  unfold Text.textArgument
  rw [argument_bind r.value_string?]

theorem text_construct_map (args : List Value) :
    Text.construct (args.map r.value) = Text.construct args := by
  unfold Text.construct
  rw [textArgument_map]

/-- No method of a text tells its arguments from their images. -/
theorem text_call_map (t : String) (method : String) (args : List Value) :
    Text.call t method (args.map r.value) = Text.call t method args := by
  unfold Text.call
  simp only [textArgument_map]

theorem boolean_construct_map (args : List Value) :
    Boolean.construct (args.map r.value) = Boolean.construct args := by
  unfold Boolean.construct
  rw [head?_map]
  cases args.head? with
  | none => rfl
  | some v => cases v <;> rfl

/-- The action looks at no cell and answers with what holds no code. -/
def Plain {α : Type} (a : Action α) (f : α → α) : Prop :=
  ∀ r imports s, Mirrors r imports s a a f

/-- An answer that is its own image is plain. -/
theorem plain_pure {α : Type} {f : α → α} {v : α} (h : v = f v) : Plain (pure v) f :=
  fun _ _ _ => mirrors_pure h

theorem plain_throw {α : Type} {f : α → α} (fault : BuiltinFault) : Plain (throw fault) f :=
  fun _ _ _ => mirrors_throw fault

theorem plain_orRefuse {α : Type} (a? : Option α) (fault : BuiltinFault) :
    Plain (orRefuse a? fault) id :=
  fun _ _ _ => mirrors_orRefuse Option.map_id'.symm fault

/-- Actions that answer with scalars are plain one after the other. -/
theorem plain_bind {α β : Type} {a : Action α} {c : α → Action β} {f : β → β} (ha : Plain a id)
    (hc : ∀ v, Plain (c v) f) : Plain (a >>= c) f :=
  fun r imports s => mirrors_bind (ha r imports s) fun v s' _ _ => hc v r imports s'

theorem plain_number_construct (args : List Value) : Plain (Number.construct args) id := by
  unfold Number.construct
  split
  · exact plain_throw _
  · exact plain_pure rfl
  · exact plain_pure rfl
  · exact plain_pure rfl
  · next text _ =>
    -- Which number the text spells does not matter, and it is not to be computed.
    generalize Number.ofText? text = value?
    exact plain_bind (plain_orRefuse _ _) fun _ => plain_pure rfl
  · exact plain_throw _

theorem plain_operand (args : List Value) : Plain (Number.operand args) id :=
  plain_orRefuse _ _

/-- A divisor is looked up like any operand, and refused if it is zero. -/
theorem plain_divisor (args : List Value) : Plain (Number.divisor args) id := by
  refine plain_bind (plain_operand args) fun y => ?_
  dsimp only
  split
  · exact fun _ _ _ => ⟨rfl, rfl⟩
  · exact plain_pure rfl

/-- The methods of numbers neither read nor change the store, and answer with scalars. -/
theorem plain_number_call (x : Float) (method : String) (args : List Value) :
    Plain (Number.call x method args) r.value := by
  unfold Number.call
  split
  case h_1 => exact plain_pure rfl
  case h_6 | h_7 => exact plain_bind (plain_divisor args) fun _ => plain_pure rfl
  case h_14 => exact plain_throw _
  all_goals exact plain_bind (plain_operand args) fun _ => plain_pure rfl

theorem plain_text_construct (args : List Value) : Plain (Text.construct args) id :=
  plain_bind (plain_orRefuse _ _) fun _ => plain_pure rfl

/-- The methods of texts neither read nor change the store, and answer with scalars. -/
theorem plain_text_call (t : String) (method : String) (args : List Value) :
    Plain (Text.call t method args) r.value := by
  unfold Text.call
  split
  case h_1 | h_2 | h_3 => exact plain_pure rfl
  case h_4 | h_5 => exact plain_bind (plain_orRefuse _ _) fun _ => plain_pure rfl
  case h_6 =>
    refine plain_bind (plain_orRefuse _ _) fun search => ?_
    exact plain_bind (plain_orRefuse _ _) fun replacement => plain_pure rfl
  case h_7 => exact plain_throw _

theorem plain_boolean_construct (args : List Value) : Plain (Boolean.construct args) id := by
  unfold Boolean.construct
  split
  · exact plain_throw _
  · exact plain_pure rfl
  · exact plain_pure rfl
  · exact plain_pure rfl
  · exact plain_pure rfl
  · exact plain_throw _

/-- The methods of truth values neither read nor change the store, and answer with scalars. -/
theorem plain_boolean_call (b : Bool) (method : String) :
    Plain (Boolean.call b method) r.value := by
  unfold Boolean.call
  split
  · exact plain_pure rfl
  · exact plain_throw _

/-! ## Arrays -/

/-- A new array of images is the image of a new array. -/
theorem mirrors_ofItems (items : Array Value) :
    Mirrors r imports s (Array.ofItems items) (Array.ofItems (items.map r.value)) id := by
  refine mirrors_bind (f := id) (mirrors_onHeap ?_ rfl) fun _ _ _ _ => mirrors_pure rfl
  exact s.heap.newArray_image r imports (.ofItems items)

theorem mirrors_emptyArray : Mirrors r imports s (Array.ofItems #[]) (Array.ofItems #[]) id := by
  have h : Mirrors r imports s _ _ _ := mirrors_ofItems #[]
  rwa [Array.map_empty] at h

/-- Making an array is mirrored, whether a size, items or nothing is given. -/
theorem mirrors_array_construct (args : List Value) :
    Mirrors r imports s (Array.construct args) (Array.construct (args.map r.value)) id := by
  unfold Array.construct
  rw [head?_map]
  cases args.head? with
  | none => exact mirrors_emptyArray
  | some v =>
    have hother : Mirrors r imports s
        (if v.isTruthy then throw .expectedArray else Array.ofItems #[])
        (if (r.value v).isTruthy then throw .expectedArray else Array.ofItems #[]) id := by
      rw [Relabeling.value_isTruthy]
      split
      · exact mirrors_throw _
      · exact mirrors_emptyArray
    cases v with
    | datum d =>
      cases d with
      | array array =>
        refine mirrors_heap_bind ?_
        rw [Heap.array_image]
        exact mirrors_ofItems _
      | _ => exact hother
    | _ => exact hother

/-- The argument of an array method is taken as it is. -/
theorem mirrors_valueArgument (args : List Value) (i : Nat) :
    Mirrors r imports s (Array.valueArgument args i) (Array.valueArgument (args.map r.value) i)
      r.value :=
  mirrors_orRefuse List.getElem?_map _

/-- An index is a number, so it is read in the same way off the images. -/
theorem indexArgument_map (args : List Value) (i : Nat) :
    Array.indexArgument (args.map r.value) i = Array.indexArgument args i := by
  unfold Array.indexArgument
  rw [List.getElem?_map]
  cases args[i]? with
  | none => rfl
  | some v => cases v <;> rfl

theorem plain_indexArgument (args : List Value) (i : Nat) :
    Plain (Array.indexArgument args i) id := by
  unfold Array.indexArgument
  split
  · exact plain_throw _
  · exact plain_throw _
  · exact plain_orRefuse _ _

/-- A size is a number, so it is read in the same way off the images. -/
theorem sizeArgument_map (args : List Value) :
    Array.sizeArgument (args.map r.value) = Array.sizeArgument args := by
  unfold Array.sizeArgument
  rw [head?_map]
  cases args.head? with
  | none => rfl
  | some v => cases v <;> rfl

theorem plain_sizeArgument (args : List Value) : Plain (Array.sizeArgument args) id := by
  unfold Array.sizeArgument
  split
  · exact plain_throw _
  · exact plain_pure rfl
  · exact plain_bind (plain_orRefuse _ _) fun _ => plain_pure rfl

/-- The image of an item stands where the item stands, since equality is the same in both heaps. -/
theorem indexOf?_image (hsize : imports.size = s.heap.imports.size) (array : ArrayId) (v : Value) :
    Array.indexOf? (s.heap.image r imports) array (r.value v) = Array.indexOf? s.heap array v := by
  unfold Array.indexOf?
  rw [Heap.array_image, Relabeling.arrayCell_items, Array.findIdx?_map]
  congr 1
  funext item
  exact s.heap.equals_image imports hsize item v

/-- The item at a position of the image is the image of the item. -/
theorem itemAt_map (cell : ArrayCell) (position? : Option Nat) :
    Array.itemAt (r.arrayCell cell) position? = r.value (Array.itemAt cell position?) := by
  unfold Array.itemAt
  cases position? with
  | none => rfl
  | some i =>
    simp only [Option.bind_some, Relabeling.arrayCell_items, Array.getElem?_map]
    cases cell.items[i]? <;> rfl

/-- A change of an array that commutes with taking the image is mirrored. -/
theorem mirrors_modifyCell (array : ArrayId) {g g' : ArrayCell → ArrayCell} {f : Unit → Unit}
    (h : ∀ cell, g' (r.arrayCell cell) = r.arrayCell (g cell)) :
    Mirrors r imports s (Array.modifyCell array g) (Array.modifyCell array g') f :=
  mirrors_modifyHeap (s.heap.modifyArray_image imports array h) rfl

/-- A change of an array for which the method answers nothing. -/
theorem mirrors_change (array : ArrayId) {g g' : ArrayCell → ArrayCell}
    (h : ∀ cell, g' (r.arrayCell cell) = r.arrayCell (g cell)) :
    Mirrors r imports s (Array.modifyCell array g >>= fun _ => pure .null)
      (Array.modifyCell array g' >>= fun _ => pure .null) r.value :=
  mirrors_bind (f := id) (mirrors_modifyCell array h) fun _ _ _ _ => mirrors_pure rfl

/-- Storing an image in the image of an array is storing the item. -/
theorem store_map (cell : ArrayCell) (position : Nat) (v : Value) :
    Array.store (r.arrayCell cell) position (r.value v) =
      r.arrayCell (Array.store cell position v) := by
  unfold Array.store
  simp only [Relabeling.arrayCell, Array.size_map]
  split <;> simp

/-- Inserting an image into the image of an array is inserting the item. -/
theorem insertAt_map (cell : ArrayCell) (position : Nat) (v : Value) :
    Array.insertAt (r.arrayCell cell) position (r.value v) =
      r.arrayCell (Array.insertAt cell position v) := by
  simp [Array.insertAt, Relabeling.arrayCell]

theorem eraseIdx_map {α β : Type} (f : α → β) (i : Nat) (l : List α) :
    (l.map f).eraseIdx i = (l.eraseIdx i).map f := by
  induction l generalizing i with
  | nil => rfl
  | cons a l ih =>
    cases i with
    | zero => rfl
    | succ i => exact congrArg (f a :: ·) (ih i)

/-- Removing an item commutes with taking the image of the array. -/
theorem erase_map (cell : ArrayCell) (i : Nat) :
    ({ r.arrayCell cell with items := (r.arrayCell cell).items.eraseIdxIfInBounds i } : ArrayCell) =
      r.arrayCell { cell with items := cell.items.eraseIdxIfInBounds i } := by
  simp only [Relabeling.arrayCell, Array.eraseIdxIfInBounds_eq, Array.size_map]
  split
  · have h : ∀ hi hi', (cell.items.map r.value).eraseIdx i hi =
        (cell.items.eraseIdx i hi').map r.value := fun _ _ => by
      apply Array.ext'
      simp only [Array.toList_eraseIdx, Array.toList_map]
      exact eraseIdx_map r.value i cell.items.toList
    rw [h]
  · rfl

/-- Storing at a position is mirrored, also where the limit of the array refuses it. -/
theorem mirrors_storeItem (array : ArrayId) (position : Nat) (v : Value) {f : Unit → Unit} :
    Mirrors r imports s (Array.storeItem array position v)
      (Array.storeItem array position (r.value v)) f := by
  refine mirrors_heap_bind ?_
  have hfault : Array.storeFault? ((s.heap.image r imports).array array) position =
      Array.storeFault? (s.heap.array array) position := by
    simp [Array.storeFault?, Relabeling.arrayCell]
  rw [hfault]
  cases Array.storeFault? (s.heap.array array) position with
  | some fault => exact mirrors_throw fault
  | none => exact mirrors_modifyCell array fun cell => store_map cell position v

/-- Every method of arrays is mirrored. -/
theorem mirrors_array_call (hsize : imports.size = s.heap.imports.size) (array : ArrayId)
    (method : String) (args : List Value) :
    Mirrors r imports s (Array.call array method args) (Array.call array method (args.map r.value))
      r.value := by
  have hlength : ((s.heap.image r imports).array array).items.size =
      (s.heap.array array).items.size := by
    simp
  have hindex := fun s i => plain_indexArgument args i r imports s
  -- Both calls are for the same method, so one look at its name decides both.
  unfold Array.call
  simp only [indexArgument_map, sizeArgument_map, argument_getD]
  split
  -- `contains` and `indexOf` only look.
  case h_1 =>
    refine mirrors_heap_bind (mirrors_pure ?_)
    rw [indexOf?_image hsize]
    rfl
  case h_2 =>
    refine mirrors_heap_bind ?_
    rw [indexOf?_image hsize]
    split <;> exact mirrors_pure rfl
  -- `remove` and `setMaxSize`.
  case h_3 =>
    refine mirrors_heap_bind ?_
    rw [indexOf?_image hsize]
    refine mirrors_bind (plain_orRefuse _ _ r imports s) fun i s' _ _ => ?_
    exact mirrors_change array fun cell => erase_map cell i
  case h_4 =>
    refine mirrors_bind (plain_sizeArgument args r imports s) fun size s' _ _ => ?_
    exact mirrors_change array fun cell => rfl
  -- `enqueue`, `add` and `push`.
  case h_5 | h_6 | h_7 =>
    refine mirrors_bind (mirrors_valueArgument args 0) fun v s' _ _ => ?_
    refine mirrors_heap_bind ?_
    rw [Heap.array_image, Relabeling.arrayCell_isFull]
    split
    · exact ⟨rfl, rfl⟩
    · refine mirrors_change array fun cell => ?_
      simp [Relabeling.arrayCell]
  -- `dequeue`, `peek` and `front`.
  case h_8 =>
    refine mirrors_heap_bind ?_
    refine mirrors_bind (mirrors_orRefuse (f := r.value) (by simp) _) fun first s' _ _ => ?_
    refine mirrors_bind (f := id) (mirrors_modifyCell array fun cell => erase_map cell 0) ?_
    exact fun _ _ _ _ => mirrors_pure rfl
  case h_9 | h_10 =>
    refine mirrors_heap_bind (mirrors_pure ?_)
    rw [Heap.array_image, itemAt_map]
  -- `pop` and `top`.
  case h_11 =>
    refine mirrors_heap_bind ?_
    refine mirrors_bind (mirrors_orRefuse (f := r.value) (by simp) _) fun last s' _ _ => ?_
    refine mirrors_bind (f := id) (mirrors_modifyCell array fun cell => ?_) ?_
    · simp [Relabeling.arrayCell]
    · exact fun _ _ _ _ => mirrors_pure rfl
  case h_12 =>
    refine mirrors_heap_bind (mirrors_orRefuse ?_ _)
    simp
  case h_13 =>
    refine mirrors_heap_bind (mirrors_pure ?_)
    rw [Heap.array_image, Relabeling.arrayCell_isFull]
    rfl
  case h_14 =>
    refine mirrors_heap_bind (mirrors_pure ?_)
    simp [Array.isEmpty]
  case h_15 | h_16 =>
    refine mirrors_heap_bind (mirrors_pure ?_)
    simp
  -- `get`, `set`, `insertAt`, `removeAt` and `clear`.
  case h_17 =>
    refine mirrors_bind (hindex s 0) fun index s' _ _ => ?_
    refine mirrors_heap_bind (mirrors_pure ?_)
    rw [Heap.array_image, itemAt_map]
    rfl
  case h_18 =>
    refine mirrors_bind (hindex s 0) fun index s' _ _ => ?_
    refine mirrors_bind (plain_orRefuse _ _ r imports s') fun position s'' _ _ => ?_
    refine mirrors_bind (f := id) (mirrors_storeItem array position _) fun _ _ _ _ => ?_
    exact mirrors_pure rfl
  case h_19 =>
    refine mirrors_bind (hindex s 0) fun index s' _ _ => ?_
    refine mirrors_bind (mirrors_valueArgument args 1) fun v s'' _ _ => ?_
    refine mirrors_heap_bind ?_
    simp only [Heap.array_image, Relabeling.arrayCell_items, Array.size_map]
    exact mirrors_change array fun cell => insertAt_map cell _ v
  case h_20 =>
    refine mirrors_bind (hindex s 0) fun index s' _ _ => ?_
    refine mirrors_heap_bind ?_
    simp only [Heap.array_image, Relabeling.arrayCell_items, Array.size_map, id]
    cases Array.relativeSlot? index (s'.heap.array array).items.size with
    | some i => exact mirrors_change array fun cell => erase_map cell i
    | none => exact mirrors_pure rfl
  case h_21 =>
    refine mirrors_change array fun cell => ?_
    simp [Relabeling.arrayCell]
  -- Reading and writing with an index.
  case h_22 =>
    refine mirrors_bind (hindex s 0) fun index s' _ _ => ?_
    refine mirrors_heap_bind (mirrors_pure ?_)
    simp only [Heap.array_image, itemAt_map, Relabeling.arrayCell_items, Array.size_map, id]
  case h_23 =>
    refine mirrors_bind (hindex s 0) fun index s' _ _ => ?_
    refine mirrors_heap_bind ?_
    simp only [Heap.array_image, Relabeling.arrayCell_items, Array.size_map]
    refine mirrors_bind (plain_orRefuse _ _ r imports s') fun position s'' _ _ => ?_
    refine mirrors_bind (f := id) (mirrors_storeItem array position _) fun _ _ _ _ => ?_
    exact mirrors_pure rfl
  case h_24 => exact mirrors_throw _

/-! ## Maps, errors and loggers -/

theorem mirrors_ofCell (cell : MapCell) :
    Mirrors r imports s (Map.ofCell cell) (Map.ofCell (r.mapCell cell)) id := by
  refine mirrors_bind (f := id) (mirrors_onHeap ?_ rfl) fun _ _ _ _ => mirrors_pure rfl
  exact s.heap.newMap_image r imports cell

theorem mirrors_map_construct (args : List Value) :
    Mirrors r imports s (Map.construct args) (Map.construct (args.map r.value)) id := by
  unfold Map.construct
  rw [head?_map]
  cases args.head? with
  | none => exact mirrors_ofCell ⟨[]⟩
  | some v =>
    cases v with
    | null => exact mirrors_ofCell ⟨[]⟩
    | datum d =>
      cases d with
      | map id =>
        refine mirrors_heap_bind ?_
        rw [Heap.map_image]
        exact mirrors_ofCell _
      | _ => exact mirrors_throw _
    | _ => exact mirrors_throw _

theorem mirrors_map_call (hsize : imports.size = s.heap.imports.size) (map : MapId)
    (method : String) (args : List Value) :
    Mirrors r imports s (Map.call map method args) (Map.call map method (args.map r.value))
      r.value := by
  unfold Map.call
  split
  case h_1 =>
    refine mirrors_bind (mirrors_orRefuse List.getElem?_map _) fun key s' _ himports => ?_
    refine mirrors_heap_bind (mirrors_pure ?_)
    rw [Heap.mapGet?_image _ _ (hsize.trans (congrArg _ himports.symm))]
    cases s'.heap.mapGet? map key <;> rfl
  case h_2 =>
    refine mirrors_bind (mirrors_orRefuse List.getElem?_map _) fun key s₁ _ h₁ => ?_
    refine mirrors_bind (mirrors_orRefuse List.getElem?_map _) fun v s₂ _ h₂ => ?_
    have hsize₂ := hsize.trans (congrArg Array.size (h₂.trans h₁).symm)
    refine mirrors_bind (f := id) (mirrors_modifyHeap ?_ rfl) fun _ _ _ _ => mirrors_pure rfl
    exact s₂.heap.mapInsert_image imports hsize₂ map key v
  case h_3 => exact mirrors_throw _

/-- A new error with the image of a message is the image of the error. -/
theorem mirrors_withMessage (message : Value) :
    Mirrors r imports s (Error.withMessage message) (Error.withMessage (r.value message)) id := by
  refine mirrors_bind (f := id) (mirrors_onHeap ?_ rfl) fun _ _ _ _ => mirrors_pure rfl
  exact s.heap.newError_image r imports ⟨message, none⟩

theorem mirrors_error_construct (args : List Value) :
    Mirrors r imports s (Error.construct args) (Error.construct (args.map r.value)) id :=
  mirrors_bind (mirrors_orRefuse List.getElem?_map _) fun message _ _ _ =>
    mirrors_withMessage message

/-- Every method of errors is mirrored. -/
theorem mirrors_error_call (error : ErrorId) (method : String) :
    Mirrors r imports s (Error.call error method) (Error.call error method) r.value := by
  unfold Error.call
  split
  · refine mirrors_heap_bind (mirrors_pure ?_)
    rw [Heap.error_image, Relabeling.errorCell_message]
  · exact mirrors_throw _

variable {code : Value → Prop}

/-- Every method of loggers is mirrored: arguments that are no import references are displayed in
the same way in the image. -/
theorem mirrors_logger_call (hcode : ∀ id, ¬ code (.imported id)) (hfit : s.heap.Fit code)
    (hsize : imports.size = s.heap.imports.size) (method : String) {args : List Value}
    (hargs : ∀ v ∈ args, v.Fits code s.heap) :
    Mirrors r imports s (Logger.call method args) (Logger.call method (args.map r.value))
      r.value := by
  unfold Logger.call
  split
  · refine mirrors_heap_bind ?_
    rw [argument_getD, s.heap.display_image imports hcode hfit hsize (fits_argument hargs 0)]
    exact mirrors_bind (f := id) (mirrors_print rfl) fun _ _ _ _ => mirrors_pure rfl
  · exact mirrors_throw _

/-! ## Copies -/

end Builtin

namespace Heap

/-- In the image of a heap the second computation does what the first does in the heap, which
keeps its import references. -/
def Mirrors {α β : Type} (r : Relabeling) (imports : Array ImportCell) (h : Heap)
    (x : StateM Heap α) (y : StateM Heap β) (f : α → β) : Prop :=
  y (h.image r imports) = (f (x h).1, (x h).2.image r imports) ∧ (x h).2.imports = h.imports

section

variable {α β γ δ : Type} {r : Relabeling} {imports : Array ImportCell} {h : Heap}

theorem mirrors_pure {v : α} {w : β} {f : α → β} (heq : w = f v) :
    Mirrors r imports h (pure v) (pure w) f :=
  ⟨by rw [heq]; rfl, rfl⟩

/-- Two computations on heaps are mirrored one after the other. -/
theorem mirrors_bind {x : StateM Heap α} {y : StateM Heap β} {f : α → β} {c : α → StateM Heap γ}
    {d : β → StateM Heap δ} {g : γ → δ} (hx : Mirrors r imports h x y f)
    (hc : ∀ v h', h'.imports = h.imports → Mirrors r imports h' (c v) (d (f v)) g) :
    Mirrors r imports h (x >>= c) (y >>= d) g := by
  obtain ⟨hy, himports⟩ := hx
  obtain ⟨hd, himports'⟩ := hc _ _ himports
  refine ⟨?_, himports'.trans himports⟩
  show d (y (h.image r imports)).1 (y (h.image r imports)).2 = _
  rw [hy]
  exact hd

/-- What is read off the heap is the image of what is read off its counterpart. -/
theorem mirrors_get_bind {c : Heap → StateM Heap γ} {d : Heap → StateM Heap δ} {g : γ → δ}
    (hc : Mirrors r imports h (c h) (d (h.image r imports)) g) :
    Mirrors r imports h (get >>= c) (get >>= d) g :=
  hc

/-- What is mirrored for each element of a list is mirrored for the list. -/
theorem mirrors_mapM {x : α → StateM Heap γ} {y : β → StateM Heap δ} {f : α → β} {g : γ → δ}
    (l : List α) (hx : ∀ a ∈ l, ∀ h', h'.imports = h.imports →
      Mirrors r imports h' (x a) (y (f a)) g) :
    Mirrors r imports h (l.mapM x) ((l.map f).mapM y) (List.map g) := by
  induction l generalizing h with
  | nil => exact mirrors_pure rfl
  | cons a l ih =>
    rw [List.map_cons, List.mapM_cons, List.mapM_cons]
    refine mirrors_bind (hx a List.mem_cons_self h rfl) fun b h₁ h₁i => ?_
    refine mirrors_bind (ih fun a' ha' h' hi => ?_) fun bs h₂ _ => mirrors_pure rfl
    exact hx a' (List.mem_cons_of_mem a ha') h' (hi.trans h₁i)

/-- A map that is filled with entries one after the other. -/
theorem insertAll_image {same same' : Value → Value → Bool} (hsame : r.SameUnder same same')
    (entries : List (Value × Value)) (cell : MapCell) :
    (entries.map r.entry).foldl (fun cell e => cell.insert same' e.1 e.2) (r.mapCell cell) =
      r.mapCell (entries.foldl (fun cell e => cell.insert same e.1 e.2) cell) := by
  induction entries generalizing cell with
  | nil => rfl
  | cons e entries ih =>
    rw [List.map_cons, List.foldl_cons, List.foldl_cons, ← ih]
    congr 1
    exact hsame.insert cell e.1 e.2

/-- Copying is mirrored, by induction on the depth. -/
theorem mirrors_cloneUpTo (depth : Nat) : ∀ (d : Datum) (h : Heap),
    imports.size = h.imports.size →
      Mirrors r imports h (cloneUpTo depth d) (cloneUpTo depth d) id := by
  induction depth with
  | zero => exact fun d h _ => mirrors_pure rfl
  | succ depth ih =>
    intro d h hsize
    unfold cloneUpTo
    extract_lets copy
    have hcopy : ∀ v h, imports.size = h.imports.size →
        Mirrors r imports h (copy v) (copy (r.value v)) r.value := by
      intro v h hsize
      cases v with
      | datum d => exact mirrors_bind (ih d h hsize) fun _ _ _ => mirrors_pure rfl
      | _ => exact mirrors_pure rfl
    have hkept : ∀ {h' h'' : Heap}, imports.size = h'.imports.size → h''.imports = h'.imports →
        imports.size = h''.imports.size :=
      fun hs hi => hs.trans (congrArg Array.size hi.symm)
    cases d with
    | array array =>
      refine mirrors_get_bind ?_
      rw [array_image]
      show Mirrors r imports h _ (_ >>= fun items => _) id
      rw [Relabeling.arrayCell_items, Array.toList_map]
      refine mirrors_bind (mirrors_mapM _ fun v _ h' hi => hcopy v h' (hkept hsize hi)) ?_
      intro items h₁ _
      have hnew := h₁.newArray_image r imports ⟨items.toArray, (h.array array).maxSize⟩
      rw [Relabeling.arrayCell, List.map_toArray] at hnew
      refine mirrors_get_bind ⟨?_, rfl⟩
      exact congrArg (fun p => (Datum.array p.1, p.2)) hnew
    | map map =>
      refine mirrors_get_bind ?_
      rw [map_image, Relabeling.mapCell_entries]
      refine mirrors_bind (mirrors_mapM (f := r.entry) (g := r.entry) _ fun e _ h' hi => ?_) ?_
      · refine mirrors_bind (hcopy e.1 h' (hkept hsize hi)) fun key h₁ h₁i => ?_
        refine mirrors_bind (hcopy e.2 h₁ (hkept (hkept hsize hi) h₁i)) fun v h₂ _ => ?_
        exact mirrors_pure rfl
      intro entries h₁ h₁i
      have hsame : r.SameUnder h₁.equals (h₁.image r imports).equals :=
        h₁.equals_image imports (hkept hsize h₁i)
      have hnew := h₁.newMap_image r imports
        (entries.foldl (fun cell e => cell.insert h₁.equals e.1 e.2) ⟨[]⟩)
      rw [← insertAll_image hsame entries ⟨[]⟩] at hnew
      refine mirrors_get_bind ⟨?_, rfl⟩
      exact congrArg (fun p => (Datum.map p.1, p.2)) hnew
    | error error =>
      refine mirrors_get_bind ?_
      rw [error_image]
      refine mirrors_bind (hcopy _ h hsize) fun message h₁ _ => ?_
      have hnew := h₁.newError_image r imports ⟨message, (h.error error).token?⟩
      refine mirrors_get_bind ⟨?_, rfl⟩
      exact congrArg (fun p => (Datum.error p.1, p.2)) hnew
    | _ => exact mirrors_pure rfl

/-- The copy made in the image is the image of the copy, and copying makes no import reference. -/
theorem clone_image (hsize : imports.size = h.imports.size) (d : Datum) :
    (h.image r imports).clone d = ((h.clone d).1, (h.clone d).2.image r imports) ∧
      (h.clone d).2.imports = h.imports := by
  unfold clone
  rw [h.depthBound_image imports hsize]
  exact mirrors_cloneUpTo _ d h hsize

end

end Heap

namespace Builtin

open Action

variable {r : Relabeling} {imports : Array ImportCell} {s : Store} {code : Value → Prop}

/-! ## All built-in instances -/

/-- Making an instance of a built-in class is mirrored, whatever the class. -/
theorem mirrors_construct (c : BuiltinClass) (args : List Value) :
    Mirrors r imports s (construct c args) (construct c (args.map r.value)) id := by
  cases c with
  | number =>
    rw [construct, construct, number_construct_map]
    exact plain_number_construct args r imports s
  | string =>
    rw [construct, construct, text_construct_map]
    exact plain_text_construct args r imports s
  | boolean =>
    rw [construct, construct, boolean_construct_map]
    exact plain_boolean_construct args r imports s
  | array => exact mirrors_array_construct args
  | map => exact mirrors_map_construct args
  | error => exact mirrors_error_construct args
  | logger => exact mirrors_pure rfl

theorem mirrors_defaultInstance (c : BuiltinClass) :
    Mirrors r imports s (defaultInstance c) (defaultInstance c) id := by
  cases c with
  | array => exact mirrors_emptyArray
  | map => exact mirrors_ofCell ⟨[]⟩
  | error => exact mirrors_withMessage .null
  | _ => exact mirrors_pure rfl

/-- Every method that a built-in class has of its own is mirrored. -/
theorem mirrors_callOwn (hcode : ∀ id, ¬ code (.imported id)) (hfit : s.heap.Fit code)
    (hsize : imports.size = s.heap.imports.size) (receiver : Datum) (method : String)
    {args : List Value} (hargs : ∀ v ∈ args, v.Fits code s.heap) :
    Mirrors r imports s (callOwn receiver method args) (callOwn receiver method (args.map r.value))
      r.value := by
  cases receiver with
  | number x =>
    rw [callOwn, callOwn, number_call_map]
    exact plain_number_call x method args r imports s
  | string t =>
    rw [callOwn, callOwn, text_call_map]
    exact plain_text_call t method args r imports s
  | boolean b => exact plain_boolean_call b method r imports s
  | array id => exact mirrors_array_call hsize id method args
  | map id => exact mirrors_map_call hsize id method args
  | error id => exact mirrors_error_call id method
  | logger => exact mirrors_logger_call hcode hfit hsize method hargs

/-- Comparing with the first argument gives the same answer in the image. -/
theorem mirrors_equalsFirst (hsize : imports.size = s.heap.imports.size) (receiver : Datum)
    (args : List Value) :
    Mirrors r imports s (equalsFirst receiver args) (equalsFirst receiver (args.map r.value))
      id := by
  refine mirrors_heap_bind (mirrors_pure ?_)
  rw [List.getElem?_map, Option.any_map]
  congr 1
  funext other
  exact s.heap.equals_image imports hsize (.datum receiver) other

/-- Every method of built-in instances is mirrored, those that all of them share among them. -/
theorem mirrors_callMethod (hcode : ∀ id, ¬ code (.imported id)) (hfit : s.heap.Fit code)
    (hsize : imports.size = s.heap.imports.size) {receiver : Datum}
    (hreceiver : receiver.Fits s.heap) (method : String) {args : List Value}
    (hargs : ∀ v ∈ args, v.Fits code s.heap) :
    Mirrors r imports s (callMethod receiver method args)
      (callMethod receiver method (args.map r.value)) r.value := by
  unfold callMethod
  dsimp only
  split
  · exact ⟨rfl, rfl⟩
  split
  case h_1 =>
    exact mirrors_bind (mirrors_construct _ args) fun _ _ _ _ => mirrors_pure rfl
  case h_2 =>
    exact mirrors_bind (mirrors_equalsFirst hsize receiver args) fun _ _ _ _ => mirrors_pure rfl
  case h_3 =>
    exact mirrors_bind (mirrors_equalsFirst hsize receiver args) fun _ _ _ _ => mirrors_pure rfl
  case h_4 =>
    obtain ⟨hclone, himports⟩ := s.heap.clone_image (r := r) hsize receiver
    refine mirrors_bind (f := id) (mirrors_onHeap hclone himports) fun _ _ _ _ => ?_
    exact mirrors_pure rfl
  case h_5 =>
    refine mirrors_heap_bind (mirrors_pure ?_)
    have h := s.heap.display_image (r := r) (v := .datum receiver) imports hcode hfit hsize
      hreceiver
    exact congrArg Value.string h
  case h_6 => exact mirrors_callOwn hcode hfit hsize receiver method hargs

/-- Looking a method up depends on the kind of the receiver, and the function that is bound gets the
same number in both stores. -/
theorem mirrors_bindMethod? (receiver : Datum) (method : String) :
    Mirrors r imports s (bindMethod? receiver method) (bindMethod? receiver method)
      (Option.map r.value) := by
  unfold bindMethod?
  split
  · exact mirrors_pure rfl
  · refine mirrors_bind (f := id) (mirrors_onHeap rfl rfl) fun _ _ _ _ => mirrors_pure rfl

/-- A field of the image is the image of the field. -/
theorem field?_image (h : Heap) (receiver : Datum) (name : String) :
    field? (h.image r imports) receiver name = (field? h receiver name).map r.value := by
  cases receiver with
  | logger => rfl
  | error id =>
    unfold field?
    dsimp only
    rw [Heap.error_image]
    split
    · rfl
    · split <;> rfl
  | _ =>
    unfold field?
    dsimp only
    split <;> rfl

/-- Reading a property is mirrored: a field, else a method that is bound to the receiver. -/
theorem mirrors_property? (receiver : Datum) (name : String) :
    Mirrors r imports s (property? receiver name) (property? receiver name)
      (Option.map r.value) := by
  refine mirrors_heap_bind ?_
  rw [field?_image]
  cases field? s.heap receiver name with
  | some v => exact mirrors_pure rfl
  | none => exact mirrors_bindMethod? receiver name

/-- What the clock answers depends on the time and on the unit only. -/
theorem plain_readTime (unit : String) :
    Plain (do
      let nanos ← Action.readClock
      let time ←
        match unit with
        | "hour" => pure (nanos / 1000000000 / 3600)
        | "second" => pure (nanos / 1000000000)
        | "milli" => pure (nanos / 1000000)
        | "micro" => pure (nanos / 1000)
        | "nano" => pure nanos
        | _ => throw .invalidClockUnit
      return .number (Float.ofNat time)) r.value := by
  refine plain_bind (fun _ _ _ => mirrors_readClock) fun nanos => ?_
  dsimp only
  split
  all_goals exact fun _ _ _ => ⟨rfl, rfl⟩

/-- The clock function is mirrored, also where it refuses the unit. -/
theorem mirrors_clock (args : List Value) :
    Mirrors r imports s (clock args) (clock (args.map r.value)) r.value := by
  unfold clock
  rw [head?_map]
  cases args.head? with
  | none => exact plain_readTime "milli" r imports s
  | some v =>
    have htext : Mirrors r imports s (orRefuse v.string? .expectedString)
        (orRefuse (r.value v).string? .expectedString) id := by
      rw [Relabeling.value_string?]
      exact plain_orRefuse _ _ r imports s
    cases v with
    | null => exact plain_readTime "milli" r imports s
    | _ => exact mirrors_bind htext fun unit s₁ _ _ => plain_readTime unit r imports s₁

/-- Every built-in function is mirrored. -/
theorem mirrors_callNative (hcode : ∀ id, ¬ code (.imported id)) (hfit : s.heap.Fit code)
    (hsize : imports.size = s.heap.imports.size) {action : NativeAction}
    (haction : action.Fits code s.heap) {args : List Value}
    (hargs : ∀ v ∈ args, v.Fits code s.heap) :
    Mirrors r imports s (callNative action args) (callNative action (args.map r.value))
      r.value := by
  cases action with
  | clock => exact mirrors_clock args
  | method receiver name => exact mirrors_callMethod hcode hfit hsize haction name hargs
  | emptyInit => exact mirrors_pure rfl
  | superInit object c =>
    refine mirrors_bind (mirrors_construct c args) fun native s₁ _ _ => ?_
    refine mirrors_bind (f := id) (mirrors_modifyHeap ?_ rfl) fun _ _ _ _ => mirrors_pure rfl
    exact s₁.heap.modifyObject_image imports object fun i => rfl

/-- The instances behind the built-in superclasses of a class are made in the same order in both
stores. -/
theorem mirrors_natives (bs : List BuiltinClass) :
    Mirrors r imports s (bs.mapM fun b => do return (b, ← defaultInstance b))
      (bs.mapM fun b => do return (b, ← defaultInstance b)) id := by
  induction bs generalizing s with
  | nil => exact mirrors_pure rfl
  | cons b bs ih =>
    rw [List.mapM_cons]
    refine mirrors_bind (f := id) ?_ fun native s₁ _ _ => ?_
    · exact mirrors_bind (mirrors_defaultInstance b) fun _ _ _ _ => mirrors_pure rfl
    · exact mirrors_bind ih fun _ _ _ _ => mirrors_pure rfl

/-- Making an instance of a user class is mirrored. -/
theorem mirrors_newInstance (c : Class) :
    Mirrors r imports s (newInstance c) (newInstance (r.cls c)) id := by
  unfold newInstance
  rw [Relabeling.cls_builtinAncestors]
  refine mirrors_bind (mirrors_natives _) fun natives s₁ _ _ => mirrors_onHeap ?_ rfl
  rw [Relabeling.object_create]
  exact s₁.heap.newObject_image r imports _

end Builtin

end ScriptEngine
