import ScriptEngine.Proofs.Evaluator.Answer

/-!
# Chains of import references

The name of an import reference may be bound to another import reference, and so on through any
number of modules, or round in a circle. `Machine.Follows` is the chain itself: each reference on
it is replaced by what its name is bound to now in the globals of its module. A chain has one of
three ends within a number of hops: a value that is no reference, a reference whose name is
unbound, or a reference that is still there when the hops are used up (`exists_end`).

Following a reference writes, since it remembers what it saw. But it writes nothing that the chain
depends on, so the chain from the machine at the start is the one that is followed to the end
(`derefUpTo_follows`), and what is left behind is that machine with the references on the way
remembering what they stand for (`Machine.remember`).
-/

namespace ScriptEngine

namespace Machine

/-- The name that an import reference stands for, as it was written in the import. -/
def importName (m : Machine) (id : ImportId) : Token :=
  (m.store.heap.importCell id).name

/-- What the name of an import reference is bound to now in the globals of its module. -/
def binding? (m : Machine) (id : ImportId) : Option Value :=
  m.frames.local? (m.modules.node (m.store.heap.importCell id).home).globals
    (m.importName id).lexeme

/-- The chain from one value comes to another value by replacing the import references `ids`, one
after the other, by what their names are bound to. -/
inductive Follows (m : Machine) : Value → List ImportId → Value → Prop
  | here (v : Value) : m.Follows v [] v
  | hop {id : ImportId} {next v : Value} {ids : List ImportId} (hnext : m.binding? id = some next)
      (hrest : m.Follows next ids v) : m.Follows (.imported id) (id :: ids) v

/-- The chain from a value comes to one that is no import reference within a number of hops. -/
structure Ends (m : Machine) (limit : Nat) (v : Value) (ids : List ImportId) (w : Value) :
    Prop where
  follows : m.Follows v ids w
  value : w.isImported = false
  within : ids.length ≤ limit

/-- The chain from a value comes to a reference whose name is unbound while there are hops left. -/
structure Breaks (m : Machine) (limit : Nat) (v : Value) (ids : List ImportId) (id : ImportId) :
    Prop where
  follows : m.Follows v ids (.imported id)
  unbound : m.binding? id = none
  within : ids.length < limit

/-- The chain from a value is at a reference after a number of hops. -/
structure GoesOn (m : Machine) (limit : Nat) (v : Value) (ids : List ImportId) (id : ImportId) :
    Prop where
  follows : m.Follows v ids (.imported id)
  length : ids.length = limit

/-- The chain from a value comes back to a reference that it has been at. -/
def Cyclic (m : Machine) (v : Value) : Prop :=
  ∃ ids round id, m.Follows v ids (.imported id) ∧
    m.Follows (.imported id) round (.imported id) ∧ round ≠ []

/-- The machine in which some import references remember what their names are bound to. -/
def remember (m : Machine) (ids : List ImportId) : Machine :=
  { m with store := { m.store with heap := { m.store.heap with
    imports := m.store.heap.imports.mapIdx fun id cell =>
      if id ∈ ids then { cell with cache? := m.binding? id } else cell } } }

section

variable {m : Machine} {u v w : Value} {id : ImportId} {ids ids' : List ImportId} {limit : Nat}

/-! ## The chain -/

/-- A chain goes on where another has come to. -/
theorem Follows.append (h : m.Follows u ids v) (h' : m.Follows v ids' w) :
    m.Follows u (ids ++ ids') w := by
  induction h with
  | here v => exact h'
  | hop hnext _ ih => exact .hop hnext (ih h')

/-- There is one chain from a value: a longer part of it goes through where a shorter one ends. -/
theorem Follows.exists_rest (h : m.Follows u ids v) (h' : m.Follows u ids' w)
    (hle : ids.length ≤ ids'.length) : ∃ rest, ids' = ids ++ rest ∧ m.Follows v rest w := by
  induction h generalizing ids' with
  | here v => exact ⟨ids', rfl, h'⟩
  | hop hnext _ ih =>
    cases h' with
    | here => exact absurd hle (Nat.not_succ_le_zero _)
    | hop hnext' hrest' =>
      obtain rfl := Option.some.inj (hnext.symm.trans hnext')
      obtain ⟨rest, rfl, hrest⟩ := ih hrest' (Nat.le_of_succ_le_succ hle)
      exact ⟨rest, rfl, hrest⟩

/-- A cyclic chain has references on it at any distance. -/
theorem Cyclic.exists_follows (h : m.Cyclic v) (n : Nat) :
    ∃ ids id, m.Follows v ids (.imported id) ∧ n ≤ ids.length := by
  obtain ⟨start, round, id, hstart, hround, hne⟩ := h
  suffices ∃ ids, m.Follows v ids (.imported id) ∧ n ≤ ids.length by
    obtain ⟨ids, hids⟩ := this
    exact ⟨ids, id, hids⟩
  induction n with
  | zero => exact ⟨start, hstart, Nat.zero_le _⟩
  | succ n ih =>
    obtain ⟨ids, hfollows, hlength⟩ := ih
    have hpos := List.length_pos_iff.mpr hne
    exact ⟨ids ++ round, hfollows.append hround, by rw [List.length_append]; omega⟩

/-- A chain that is still at a reference when the hops are used up has not come to a value. -/
theorem Follows.not_ends (h : m.Follows v ids' (.imported id)) (hlimit : limit ≤ ids'.length) :
    ¬ ∃ ids w, m.Ends limit v ids w := by
  rintro ⟨ids, w, hends⟩
  obtain ⟨rest, -, hrest⟩ := hends.follows.exists_rest h (Nat.le_trans hends.within hlimit)
  have hw := hends.value
  cases hrest with
  | here => cases hw
  | hop => cases hw

/-- Nor has it come to an unbound name: all names on the way are bound. -/
theorem Follows.not_breaks (h : m.Follows v ids' w) (hlimit : limit ≤ ids'.length) :
    ¬ ∃ ids id, m.Breaks limit v ids id := by
  rintro ⟨ids, id, hbreaks⟩
  have hlt : ids.length < ids'.length := Nat.lt_of_lt_of_le hbreaks.within hlimit
  obtain ⟨rest, rfl, hrest⟩ := hbreaks.follows.exists_rest h (Nat.le_of_lt hlt)
  cases hrest with
  | here =>
    rw [List.append_nil] at hlt
    exact absurd hlt (Nat.lt_irrefl _)
  | hop hnext _ => exact Option.some_ne_none _ (hnext.symm.trans hbreaks.unbound)

/-- Within any number of hops, a chain has one of the three ends. -/
theorem exists_end (m : Machine) (limit : Nat) (v : Value) :
    (∃ ids w, m.Ends limit v ids w) ∨ (∃ ids id, m.Breaks limit v ids id) ∨
      ∃ ids id, m.GoesOn limit v ids id := by
  induction limit generalizing v with
  | zero =>
    cases v with
    | imported id => exact .inr (.inr ⟨[], id, .here _, rfl⟩)
    | _ => exact .inl ⟨[], _, .here _, rfl, Nat.zero_le _⟩
  | succ limit ih =>
    cases v with
    | imported id =>
      cases hnext : m.binding? id with
      | none => exact .inr (.inl ⟨[], id, .here _, hnext, Nat.succ_pos limit⟩)
      | some next =>
        rcases ih next with ⟨ids, w, h⟩ | ⟨ids, id', h⟩ | ⟨ids, id', h⟩
        · exact .inl ⟨id :: ids, w, .hop hnext h.follows, h.value, Nat.succ_le_succ h.within⟩
        · exact .inr (.inl ⟨id :: ids, id', .hop hnext h.follows, h.unbound,
            Nat.succ_lt_succ h.within⟩)
        · exact .inr (.inr ⟨id :: ids, id', .hop hnext h.follows, congrArg (· + 1) h.length⟩)
    | _ => exact .inl ⟨[], _, .here _, rfl, Nat.zero_le _⟩

/-! ## What is remembered -/

theorem remember_nil (m : Machine) : m.remember [] = m := by
  have himports : m.store.heap.imports.mapIdx (fun id cell =>
      if id ∈ [] then { cell with cache? := m.binding? id } else cell) = m.store.heap.imports :=
    Array.ext Array.size_mapIdx fun i _ _ => by
      rw [Array.getElem_mapIdx, if_neg List.not_mem_nil]
  rw [remember, himports]

/-- Remembering changes neither the name nor the home of a reference. -/
theorem importCell_remember (m : Machine) (ids : List ImportId) (id : ImportId) :
    ((m.remember ids).store.heap.importCell id).name = (m.store.heap.importCell id).name ∧
      ((m.remember ids).store.heap.importCell id).home = (m.store.heap.importCell id).home := by
  simp only [remember, Heap.importCell, Array.getD_eq_getD_getElem?, Array.getElem?_mapIdx]
  cases m.store.heap.imports[id]? with
  | none => exact ⟨rfl, rfl⟩
  | some cell =>
    simp only [Option.map_some, Option.getD_some]
    split <;> exact ⟨rfl, rfl⟩

/-- A reference that is remembered has the same name. -/
theorem importName_remember (m : Machine) (ids : List ImportId) (id : ImportId) :
    (m.remember ids).importName id = m.importName id :=
  (m.importCell_remember ids id).1

/-- What references remember decides nothing about what their names are bound to. -/
theorem binding?_remember (m : Machine) (ids : List ImportId) (id : ImportId) :
    (m.remember ids).binding? id = m.binding? id := by
  unfold binding?
  rw [importName_remember, (m.importCell_remember ids id).2]
  rfl

/-- Refreshing one more reference adds it to those that remember. -/
theorem refreshImport_remember (hnext : m.binding? id = some v) :
    (m.remember ids).withHeap ((m.remember ids).store.heap.refreshImport id v) =
      m.remember (ids ++ [id]) := by
  have himports : ((m.remember ids).store.heap.refreshImport id v).imports =
      (m.remember (ids ++ [id])).store.heap.imports := by
    refine Array.ext (by simp [remember, Heap.refreshImport]) fun i _ _ => ?_
    simp only [remember, Heap.refreshImport, Array.getElem_modify, Array.getElem_mapIdx,
      List.mem_append, List.mem_singleton]
    by_cases hi : id = i
    · subst hi
      -- A reference that has been followed before remembers the same again.
      rw [if_pos rfl, if_pos (Or.inr rfl), hnext]
      split <;> rfl
    · rw [if_neg hi]
      simp only [Ne.symm hi, or_false]
  exact congrArg (fun imports => m.withHeap { m.store.heap with imports := imports }) himports

end

end Machine

namespace Run

open Machine

variable {m : Machine} {v w : Value} {id : ImportId} {ids seen : List ImportId} {limit : Nat}

/-! ## Following the chain -/

/-- One step along a chain reads what the export is bound to and remembers it. -/
theorem resolveImport_of_bound (hnext : m.binding? id = some v) :
    resolveImport id m = .ok v (m.withHeap (m.store.heap.refreshImport id v)) := by
  unfold binding? importName at hnext
  unfold resolveImport
  refine (bind_of_ok rfl).trans ?_
  rw [hnext]
  rfl

/-- One step along a chain fails where the export is not bound. -/
theorem resolveImport_of_unbound (hnone : m.binding? id = none) :
    resolveImport id m = .error (.failed (.located .exportNotFound (m.importName id))) m := by
  unfold binding? importName at hnone
  unfold resolveImport
  refine (bind_of_ok rfl).trans ?_
  rw [hnone]
  rfl

/-- One hop: the reference is replaced by what its name is bound to, and remembers it. -/
theorem derefUpTo_hop (steps : Nat) (hnext : m.binding? id = some v) :
    derefUpTo (steps + 1) (.imported id) (m.remember seen) =
      derefUpTo steps v (m.remember (seen ++ [id])) := by
  have hseen : (m.remember seen).binding? id = some v :=
    (m.binding?_remember seen id).trans hnext
  rw [← refreshImport_remember hnext]
  exact bind_of_ok (resolveImport_of_bound hseen)

/-- Following goes along the chain and remembers each link. -/
theorem derefUpTo_follows_seen (h : m.Follows v ids w) (seen : List ImportId) (steps : Nat) :
    derefUpTo (ids.length + steps) v (m.remember seen) =
      derefUpTo steps w (m.remember (seen ++ ids)) := by
  induction h generalizing seen with
  | here v => rw [List.append_nil, List.length_nil, Nat.zero_add]
  | hop hnext _ ih =>
    rw [List.length_cons, Nat.add_right_comm, derefUpTo_hop _ hnext, ih, List.append_assoc]
    rfl

/-- As many hops as a chain has references lead to its other side, where the references on the way
remember what they stand for. -/
theorem derefUpTo_follows (h : m.Follows v ids w) (steps : Nat) :
    derefUpTo (ids.length + steps) v m = derefUpTo steps w (m.remember ids) := by
  have hseen := derefUpTo_follows_seen h [] steps
  rwa [remember_nil, List.nil_append] at hseen

/-- A chain that ends within the limit is followed to its end. -/
theorem derefUpTo_of_ends (h : m.Ends limit v ids w) :
    derefUpTo limit v m = .ok w (m.remember ids) := by
  have hvalue : ∀ steps n, derefUpTo steps w n = .ok w n := by
    intro steps n
    have hw := h.value
    cases w with
    | imported id => cases hw
    | _ => cases steps <;> rfl
  obtain ⟨steps, rfl⟩ := Nat.exists_eq_add_of_le h.within
  rw [derefUpTo_follows h.follows, hvalue]

/-- A chain that breaks within the limit fails at its last link. -/
theorem derefUpTo_of_breaks (h : m.Breaks limit v ids id) :
    derefUpTo limit v m =
      .error (.failed (.located .exportNotFound (m.importName id))) (m.remember ids) := by
  obtain ⟨steps, rfl⟩ := Nat.exists_eq_add_of_lt h.within
  have hnone : (m.remember ids).binding? id = none :=
    (m.binding?_remember ids id).trans h.unbound
  rw [Nat.add_assoc, derefUpTo_follows h.follows, ← m.importName_remember ids id]
  exact bind_of_error (resolveImport_of_unbound hnone)

/-- Without a hop left it does not matter whether the name of the next reference is bound. -/
theorem derefUpTo_of_goesOn (h : m.GoesOn limit v ids id) :
    derefUpTo limit v m =
      .error (.failed (.located .circularImport (m.importName id))) (m.remember ids) := by
  obtain ⟨hfollows, rfl⟩ := h
  have hsteps := derefUpTo_follows hfollows 0
  rw [Nat.add_zero] at hsteps
  rw [hsteps, ← m.importName_remember ids id]
  rfl

/-- Following a value goes along its chain for at most 64 hops. It comes to the value at the end of
the chain, or fails at the first reference whose name is unbound; a chain with neither of these on
its first 64 hops, and so every cyclic one, is taken for circular. In each case nothing is written
but what the references that were followed remember. -/
theorem deref_follows_chain (m : Machine) (v : Value) :
    (∀ ids w, m.Ends 64 v ids w → deref v m = .ok w (m.remember ids)) ∧
    (∀ ids id, m.Breaks 64 v ids id → deref v m =
      .error (.failed (.located .exportNotFound (m.importName id))) (m.remember ids)) ∧
    ((¬ ∃ ids w, m.Ends 64 v ids w) ∧ (¬ ∃ ids id, m.Breaks 64 v ids id) ∨ m.Cyclic v →
      ∃ ids id, m.GoesOn 64 v ids id ∧ deref v m =
        .error (.failed (.located .circularImport (m.importName id))) (m.remember ids)) ∧
    ∀ w n, deref v m = .ok w n → w.isImported = false := by
  refine ⟨fun ids w h => derefUpTo_of_ends h, fun ids id h => derefUpTo_of_breaks h,
    fun h => ?_, fun w n h => ?_⟩
  · have hneither : (¬ ∃ ids w, m.Ends 64 v ids w) ∧ ¬ ∃ ids id, m.Breaks 64 v ids id := by
      rcases h with hneither | hcyclic
      · exact hneither
      · obtain ⟨longer, _, hlonger, hlength⟩ := hcyclic.exists_follows 64
        exact ⟨hlonger.not_ends hlength, hlonger.not_breaks hlength⟩
    obtain ⟨ids, id, hon⟩ : ∃ ids id, m.GoesOn 64 v ids id :=
      ((m.exists_end 64 v).resolve_left hneither.1).resolve_left hneither.2
    exact ⟨ids, id, hon, derefUpTo_of_goesOn hon⟩
  · cases w with
    | imported id => exact absurd rfl (derefUpTo_ne_imported _ h id)
    | _ => rfl

/-! ## A line of modules -/

/-- What the `k`-th of `n` modules in a line binds `x` to: a reference to the `x` of the next one.
The module at the end binds it to some value, or does not bind it. -/
def relayed (n : Nat) (last? : Option Value) (k : Nat) : Option Value :=
  if k < n then some (.imported k) else last?

/-- Modules in a line, each of which imports `x` from the next. -/
def relay (n : Nat) (last? : Option Value) : Machine :=
  { Machine.start ⟨[], []⟩ 0 with
    store := ⟨{ Heap.empty with
      imports := (Array.range n).map fun k => ⟨.named "x" 1, k + 1, none⟩ }, #[], 0⟩
    frames := ⟨(Array.range (n + 1)).map fun k =>
      ⟨(relayed n last? k).toList.map fun v => ("x", v), none⟩⟩
    modules := ⟨(Array.range (n + 1)).map fun k => { (default : ModuleNode) with globals := k }⟩ }

/-- In a line of modules each one exports what the next one does. -/
theorem relay_binding? {n k : Nat} (last? : Option Value) (hk : k < n) :
    (relay n last?).binding? k = relayed n last? (k + 1) := by
  have hcell : (relay n last?).store.heap.importCell k = ⟨.named "x" 1, k + 1, none⟩ := by
    simp [relay, Heap.importCell, hk]
  have hnode : ((relay n last?).modules.node (k + 1)).globals = k + 1 := by
    simp [relay, ModuleTree.node, hk]
  rw [binding?, importName, hcell, hnode]
  cases h : relayed n last? (k + 1) <;>
    simp [relay, Frames.local?, Frames.frame, hk, Token.named, h]

/-- A line of modules is followed as far as it goes. -/
theorem relay_follows {n : Nat} (last? : Option Value) (count : Nat) {k : Nat}
    (hk : k + count < n) :
    (relay n last?).Follows (.imported k) (List.range' k count) (.imported (k + count)) := by
  induction count generalizing k with
  | zero => exact .here _
  | succ count ih =>
    have hnext : (relay n last?).binding? k = some (.imported (k + 1)) := by
      rw [relay_binding? last? (by omega), relayed, if_pos (by omega)]
    have hrest := ih (k := k + 1) (by omega)
    rw [show k + (count + 1) = k + 1 + count from by omega]
    exact .hop hnext hrest

/-- At the limit: 64 references lead to a value, and the name of the 64th may be found unbound;
whether that of the 65th is bound is not asked any more. Two references that lead to each other are
taken for circular. -/
theorem deref_follows_chain_of_relays :
    deref (.imported 0) (relay 64 (some .null)) =
      .ok .null ((relay 64 (some .null)).remember (List.range' 0 64)) ∧
    deref (.imported 0) (relay 64 none) =
      .error (.failed (.located .exportNotFound ((relay 64 none).importName 63)))
        ((relay 64 none).remember (List.range' 0 63)) ∧
    (∃ ids id, (relay 65 none).GoesOn 64 (.imported 0) ids id ∧
      deref (.imported 0) (relay 65 none) =
        .error (.failed (.located .circularImport ((relay 65 none).importName id)))
          ((relay 65 none).remember ids)) ∧
    (relay 2 (some (.imported 0))).Cyclic (.imported 0) ∧
    ∃ ids id, (relay 2 (some (.imported 0))).GoesOn 64 (.imported 0) ids id ∧
      deref (.imported 0) (relay 2 (some (.imported 0))) =
        .error (.failed (.located .circularImport
          ((relay 2 (some (.imported 0))).importName id)))
          ((relay 2 (some (.imported 0))).remember ids) := by
  have hends : (relay 64 (some .null)).Ends 64 (.imported 0) (List.range' 0 64) .null :=
    ⟨(relay_follows _ 63 (by decide)).append (.hop (relay_binding? _ (by decide)) (.here _)),
      rfl, by decide⟩
  have hbreaks : (relay 64 none).Breaks 64 (.imported 0) (List.range' 0 63) 63 :=
    ⟨relay_follows none 63 (by decide), relay_binding? none (by decide), by decide⟩
  have hon := relay_follows (n := 65) none 64 (k := 0) (by decide)
  have hcyclic : (relay 2 (some (.imported 0))).Cyclic (.imported 0) :=
    ⟨[], [0, 1], 0, .here _, .hop (relay_binding? _ (by decide))
      (.hop (relay_binding? _ (by decide)) (.here _)), by decide⟩
  exact ⟨(deref_follows_chain _ _).1 _ _ hends, (deref_follows_chain _ _).2.1 _ _ hbreaks,
    (deref_follows_chain _ _).2.2.1
      (.inl ⟨hon.not_ends (by decide), hon.not_breaks (by decide)⟩),
    hcyclic, (deref_follows_chain _ _).2.2.1 (.inr hcyclic)⟩

end Run

end ScriptEngine
