import Mathlib.Data.List.Nodup
import ScriptEngine.Proofs.Heap.Equality
import ScriptEngine.Proofs.Heap.Fit

/-!
# Maps as hashed tables and as lists

A map can be kept as a table that is searched by hashes: a scalar key hashes by its canonical form,
and any other key gets a number that only reserves its place. A key without a canonical form is then
found by comparing it with the stored keys that have numbers. `Table` is such a table.

The heap keeps its maps as lists of entries. After any insertions the two hold the same entries, no
hash is given out twice, and a look-up in either is a search of the list for the first key that is
equal (`map_is_association_list`). That does not depend on the keys: they may be of any kind and may
change after they were inserted, as long as they do not hold the map itself.
-/

namespace ScriptEngine

/-! ## Tables -/

/-- What an entry of a table is found by. -/
inductive HashKey where
  | scalar (form : ScalarKey)
  | structural (number : Nat)
deriving DecidableEq

/-- Whether the key has no canonical form. -/
def HashKey.isStructural : HashKey → Bool
  | structural _ => true
  | scalar _ => false

/-- Entries in the order of insertion, each with its hash, and the last number that was given
out. -/
structure Table where
  entries : List (HashKey × Value × Value)
  last : Nat

namespace Table

/-- A table without entries. -/
def empty : Table := ⟨[], 0⟩

/-- The hash that a key is found by: its own, or that of an equal key. -/
def findKey? (same : Value → Value → Bool) (t : Table) (key : Value) : Option HashKey :=
  match key.scalarKey? with
  | some form => some (.scalar form)
  | none => (t.entries.find? fun e => e.1.isStructural && same e.2.1 key).map (·.1)

/-- The value of a key. -/
def get? (same : Value → Value → Bool) (t : Table) (key : Value) : Option Value :=
  (t.findKey? same key).bind fun hashed =>
    (t.entries.find? fun e => e.1 = hashed).map (·.2.2)

/-- The table with the value at a hash replaced, or with a new entry. -/
def put (t : Table) (hashed : HashKey) (key value : Value) : List (HashKey × Value × Value) :=
  if t.entries.any fun e => e.1 = hashed then
    t.entries.map fun e => if e.1 = hashed then (e.1, e.2.1, value) else e
  else t.entries ++ [(hashed, key, value)]

/-- The table with the value of a key set. A key that is not found and has no canonical form gets
the next number. -/
def insert (same : Value → Value → Bool) (t : Table) (key value : Value) : Table :=
  match t.findKey? same key with
  | some hashed => ⟨t.put hashed key value, t.last⟩
  | none => ⟨t.put (.structural (t.last + 1)) key value, t.last + 1⟩

/-- The keys and values in order. -/
def contents (t : Table) : List (Value × Value) := t.entries.map (·.2)

/-- No two entries have one hash, scalars have those of their canonical forms, and all numbers have
been given out. -/
structure Valid (t : Table) : Prop where
  nodup : (t.entries.map (·.1)).Nodup
  scalar : ∀ e ∈ t.entries, ∀ form, e.2.1.scalarKey? = some form → e.1 = .scalar form
  structural : ∀ e ∈ t.entries, e.2.1.scalarKey? = none → ∃ n ≤ t.last, e.1 = .structural n

theorem valid_empty : Valid .empty :=
  ⟨List.nodup_nil, fun _ he => absurd he List.not_mem_nil, fun _ he => absurd he List.not_mem_nil⟩

variable {same : Value → Value → Bool} {t : Table} {key value : Value}

/-- The hash of an entry tells whether its key has a canonical form. -/
theorem Valid.isStructural (hv : t.Valid) {e : HashKey × Value × Value} (he : e ∈ t.entries) :
    e.1.isStructural = e.2.1.scalarKey?.isNone := by
  cases hk : e.2.1.scalarKey? with
  | some form =>
    rw [hv.scalar e he form hk]
    rfl
  | none =>
    obtain ⟨n, -, hn⟩ := hv.structural e he hk
    rw [hn]
    rfl

/-- An entry has the hash of a canonical form exactly if its key has that form. -/
theorem Valid.eq_scalar_iff (hv : t.Valid) {e : HashKey × Value × Value} (he : e ∈ t.entries)
    (form : ScalarKey) : e.1 = .scalar form ↔ e.2.1.scalarKey? = some form := by
  refine ⟨fun heq => ?_, hv.scalar e he form⟩
  cases hk : e.2.1.scalarKey? with
  | some form' =>
    rw [hv.scalar e he form' hk] at heq
    exact congrArg some (HashKey.scalar.inj heq)
  | none =>
    obtain ⟨n, -, hn⟩ := hv.structural e he hk
    cases hn.symm.trans heq

/-- No entry has a number that has not been given out. -/
theorem Valid.number_le (hv : t.Valid) {e : HashKey × Value × Value} (he : e ∈ t.entries) {n : Nat}
    (hn : e.1 = .structural n) : n ≤ t.last := by
  cases hk : e.2.1.scalarKey? with
  | some form => cases (hv.scalar e he form hk).symm.trans hn
  | none =>
    obtain ⟨m, hle, hm⟩ := hv.structural e he hk
    exact HashKey.structural.inj (hm.symm.trans hn) ▸ hle

/-- Entries with one hash are the same. -/
theorem Valid.eq_of_hash (hv : t.Valid) {e f : HashKey × Value × Value} (he : e ∈ t.entries)
    (hf : f ∈ t.entries) (heq : e.1 = f.1) : e = f :=
  List.inj_on_of_nodup_map hv.nodup he hf heq

/-! ## What a key finds -/

/-- The entry has the key that is looked for. -/
def Has (same : Value → Value → Bool) (key : Value) (e : HashKey × Value × Value) : Bool :=
  MapCell.matchesKey same key e.2.1

/-- For a key without a canonical form, an entry is found by equality among the entries with
numbers. -/
theorem Valid.has_of_none (hv : t.Valid) (hkey : key.scalarKey? = none)
    {e : HashKey × Value × Value} (he : e ∈ t.entries) :
    (e.1.isStructural && same e.2.1 key) = Has same key e := by
  rw [hv.isStructural he, Has, MapCell.matchesKey, hkey]
  cases e.2.1.scalarKey? with
  | none => rfl
  | some form => rfl

/-- For a key with a canonical form, an entry is found by its hash. -/
theorem Valid.has_of_some (hv : t.Valid) {form : ScalarKey} (hkey : key.scalarKey? = some form)
    {e : HashKey × Value × Value} (he : e ∈ t.entries) :
    e.1 = .scalar form ↔ Has same key e = true := by
  rw [hv.eq_scalar_iff he, Has, MapCell.matchesKey, hkey]
  cases e.2.1.scalarKey? with
  | none => simp
  | some form' => simp [eq_comm]

/-- The hash of the first entry with the key is found. -/
theorem Valid.findKey?_some (hv : t.Valid) {e : HashKey × Value × Value}
    (hfind : t.entries.find? (Has same key) = some e) : t.findKey? same key = some e.1 := by
  unfold findKey?
  cases hkey : key.scalarKey? with
  | some form =>
    have hmem := List.mem_of_find?_eq_some hfind
    exact congrArg some ((hv.has_of_some hkey hmem).mpr (List.find?_some hfind)).symm
  | none =>
    dsimp only
    rw [List.find?_congr fun e he => hv.has_of_none hkey he, hfind]
    rfl

/-- If no entry has the key, then none has the hash that is found. -/
theorem Valid.findKey?_none (hv : t.Valid) (hfind : t.entries.find? (Has same key) = none)
    {hashed : HashKey} (hhash : t.findKey? same key = some hashed) :
    ∀ e ∈ t.entries, e.1 ≠ hashed := by
  intro e he
  unfold findKey? at hhash
  cases hkey : key.scalarKey? with
  | some form =>
    rw [hkey] at hhash
    rw [← Option.some.inj hhash]
    exact fun heq => List.find?_eq_none.mp hfind e he ((hv.has_of_some hkey he).mp heq)
  | none =>
    rw [hkey] at hhash
    dsimp only at hhash
    rw [List.find?_congr fun e he => hv.has_of_none hkey he, hfind] at hhash
    cases hhash

/-- No two entries have the same hash, so an entry is what its hash finds. -/
theorem Valid.find?_hash (hv : t.Valid) {e : HashKey × Value × Value} (he : e ∈ t.entries) :
    (t.entries.find? fun f => f.1 = e.1) = some e := by
  obtain ⟨f, hfind⟩ := Option.isSome_iff_exists.mp
    (List.find?_isSome.mpr ⟨e, he, decide_eq_true rfl⟩ :
      (t.entries.find? fun f => f.1 = e.1).isSome = true)
  have hhash : f.1 = e.1 := of_decide_eq_true
    (List.find?_some (p := fun f : HashKey × Value × Value => f.1 = e.1) hfind)
  rw [hfind, hv.eq_of_hash (List.mem_of_find?_eq_some hfind) he hhash]

/-- A look-up finds the first entry with the key. -/
theorem Valid.get?_eq (hv : t.Valid) :
    t.get? same key = (t.entries.find? (Has same key)).map (·.2.2) := by
  unfold get?
  cases hfind : t.entries.find? (Has same key) with
  | some e =>
    rw [hv.findKey?_some hfind, Option.bind_some, hv.find?_hash (List.mem_of_find?_eq_some hfind)]
  | none =>
    cases hhash : t.findKey? same key with
    | none => rfl
    | some hashed =>
      rw [Option.bind_some, List.find?_eq_none.mpr fun e he => by
        simpa using hv.findKey?_none hfind hhash e he]

/-! ## Insertions -/

/-- Setting an entry that is there replaces its value, where it stands. -/
theorem put_present (hv : t.Valid) {before after : List (HashKey × Value × Value)}
    {e : HashKey × Value × Value} (hsplit : t.entries = before ++ e :: after) :
    t.put e.1 key value = before ++ (e.1, e.2.1, value) :: after := by
  have hkeep : ∀ l : List (HashKey × Value × Value), (∀ f ∈ l, f.1 ≠ e.1) →
      (l.map fun f => if f.1 = e.1 then (f.1, f.2.1, value) else f) = l := fun l hl =>
    (List.map_congr_left fun f hf => if_neg (hl f hf)).trans (List.map_id l)
  have hnodup := hv.nodup
  rw [hsplit, List.map_append, List.map_cons, List.nodup_append, List.nodup_cons] at hnodup
  obtain ⟨-, ⟨hafter, -⟩, hbefore⟩ := hnodup
  have hany : (t.entries.any fun f => f.1 = e.1) = true :=
    List.any_eq_true.mpr ⟨e, by simp [hsplit], decide_eq_true rfl⟩
  rw [put, if_pos hany, hsplit, List.map_append, List.map_cons, if_pos rfl, hkeep before,
    hkeep after]
  · exact fun f hf heq => hafter (heq ▸ List.mem_map_of_mem hf)
  · exact fun f hf => hbefore f.1 (List.mem_map_of_mem hf) e.1 List.mem_cons_self

/-- Setting an entry that is not there adds it at the end. -/
theorem put_absent {hashed : HashKey} (hnone : ∀ e ∈ t.entries, e.1 ≠ hashed) :
    t.put hashed key value = t.entries ++ [(hashed, key, value)] := by
  refine if_neg fun hany => ?_
  obtain ⟨e, he, hhash⟩ := List.any_eq_true.mp hany
  exact hnone e he (of_decide_eq_true hhash)

/-- An insertion replaces the value of the first entry with the key. -/
theorem Valid.insert_some (hv : t.Valid) {before after : List (HashKey × Value × Value)}
    {e : HashKey × Value × Value} (hsplit : t.entries = before ++ e :: after)
    (hfind : t.entries.find? (Has same key) = some e) :
    t.insert same key value = ⟨before ++ (e.1, e.2.1, value) :: after, t.last⟩ := by
  unfold insert
  rw [hv.findKey?_some hfind]
  dsimp only
  rw [put_present hv hsplit]

/-- If there is no such entry, it adds one at the end, with a hash that no entry has. -/
theorem Valid.insert_none (hv : t.Valid) (hfind : t.entries.find? (Has same key) = none)
    (value : Value) :
    ∃ hashed last, t.insert same key value = ⟨t.entries ++ [(hashed, key, value)], last⟩ ∧
      (∀ e ∈ t.entries, e.1 ≠ hashed) ∧ t.last ≤ last ∧
      (∀ form, key.scalarKey? = some form → hashed = .scalar form) ∧
      (key.scalarKey? = none → hashed = .structural last) := by
  unfold insert
  cases hhash : t.findKey? same key with
  | some hashed =>
    have habsent := hv.findKey?_none hfind hhash
    refine ⟨hashed, t.last, congrArg (Table.mk · t.last) (put_absent habsent), habsent,
      Nat.le_refl _, ?_, ?_⟩
    · intro form hkey
      rw [findKey?, hkey] at hhash
      exact (Option.some.inj hhash).symm
    · intro hkey
      rw [findKey?, hkey] at hhash
      dsimp only at hhash
      rw [List.find?_congr fun e he => hv.has_of_none hkey he, hfind] at hhash
      cases hhash
  | none =>
    -- The next number is greater than any that was given out.
    have habsent : ∀ e ∈ t.entries, e.1 ≠ .structural (t.last + 1) := fun e he heq =>
      Nat.not_succ_le_self _ (hv.number_le he heq)
    refine ⟨.structural (t.last + 1), t.last + 1, congrArg (Table.mk · _) (put_absent habsent),
      habsent, Nat.le_succ _, ?_, fun _ => rfl⟩
    intro form hkey
    rw [findKey?, hkey] at hhash
    cases hhash

/-- The values of a table do not matter to its being in order. -/
theorem Valid.of_keys (hv : t.Valid) {t' : Table} (hlast : t.last ≤ t'.last)
    (hkeys : t'.entries.map (fun e => (e.1, e.2.1)) = t.entries.map fun e => (e.1, e.2.1)) :
    t'.Valid := by
  have hmem : ∀ e ∈ t'.entries, ∃ f ∈ t.entries, f.1 = e.1 ∧ f.2.1 = e.2.1 := fun e he => by
    have he' := List.mem_map_of_mem (f := fun e => (e.1, e.2.1)) he
    rw [hkeys] at he'
    obtain ⟨f, hf, heq⟩ := List.mem_map.mp he'
    exact ⟨f, hf, (Prod.mk.inj heq).1, (Prod.mk.inj heq).2⟩
  refine ⟨?_, fun e he form hkey => ?_, fun e he hkey => ?_⟩
  · have hhashes := congrArg (List.map Prod.fst) hkeys
    rw [List.map_map, List.map_map] at hhashes
    exact (show t'.entries.map (·.1) = t.entries.map (·.1) from hhashes) ▸ hv.nodup
  · obtain ⟨f, hf, hhash, hfkey⟩ := hmem e he
    exact hhash ▸ hv.scalar f hf form (hfkey ▸ hkey)
  · obtain ⟨f, hf, hhash, hfkey⟩ := hmem e he
    obtain ⟨n, hle, hn⟩ := hv.structural f hf (hfkey ▸ hkey)
    exact ⟨n, Nat.le_trans hle hlast, hhash ▸ hn⟩

theorem valid_insert (hv : t.Valid) (same : Value → Value → Bool) (key value : Value) :
    (t.insert same key value).Valid := by
  cases hfind : t.entries.find? (Has same key) with
  | some e =>
    obtain ⟨-, before, after, hsplit, -⟩ := List.find?_eq_some_iff_append.mp hfind
    rw [hv.insert_some hsplit hfind]
    refine hv.of_keys (Nat.le_refl _) ?_
    rw [hsplit, List.map_append, List.map_append]
    rfl
  | none =>
    obtain ⟨hashed, last, hinsert, habsent, hle, hscalar, hstructural⟩ := hv.insert_none hfind
      value
    rw [hinsert]
    refine ⟨?_, fun e he form hkey => ?_, fun e he hkey => ?_⟩
    · rw [List.map_append, List.nodup_append]
      refine ⟨hv.nodup, List.nodup_singleton _, fun a ha b hb => ?_⟩
      obtain ⟨e, he, rfl⟩ := List.mem_map.mp ha
      exact List.mem_singleton.mp hb ▸ habsent e he
    · rcases List.mem_append.mp he with he | he
      · exact hv.scalar e he form hkey
      · rw [List.mem_singleton.mp he] at hkey ⊢
        exact hscalar form hkey
    · rcases List.mem_append.mp he with he | he
      · obtain ⟨n, hn, heq⟩ := hv.structural e he hkey
        exact ⟨n, Nat.le_trans hn hle, heq⟩
      · rw [List.mem_singleton.mp he] at hkey ⊢
        exact ⟨last, Nat.le_refl _, hstructural hkey⟩

end Table

/-! ## Lists of entries -/

section

variable {same : Value → Value → Bool} {key value : Value}

/-- In a list of entries, the first that matches gets the value. -/
theorem putEntry_found {before after : List (Value × Value)} {k v : Value}
    (hbefore : ∀ e ∈ before, MapCell.matchesKey same key e.1 = false)
    (hk : MapCell.matchesKey same key k = true) :
    MapCell.putEntry same key value (before ++ (k, v) :: after) =
      before ++ (k, value) :: after := by
  induction before with
  | nil => exact if_pos hk
  | cons e before ih =>
    obtain ⟨he, hbefore⟩ := List.forall_mem_cons.mp hbefore
    rw [List.cons_append, MapCell.putEntry, if_neg (by rw [he]; exact Bool.false_ne_true),
      ih hbefore]
    rfl

/-- If none matches, the entry is added at the end. -/
theorem putEntry_missing {entries : List (Value × Value)}
    (hnone : ∀ e ∈ entries, MapCell.matchesKey same key e.1 = false) :
    MapCell.putEntry same key value entries = entries ++ [(key, value)] := by
  induction entries with
  | nil => rfl
  | cons e entries ih =>
    obtain ⟨he, hnone⟩ := List.forall_mem_cons.mp hnone
    rw [List.cons_append, MapCell.putEntry, if_neg (by rw [he]; exact Bool.false_ne_true), ih hnone]

/-- What an insertion makes of a list of entries: the value of the first entry whose key is equal is
replaced in its place, and its key is kept; if there is none, a new entry is added at the end. -/
def Put (equal : Value → Bool) (key value : Value) (entries entries' : List (Value × Value)) :
    Prop :=
  (∃ before k v after, entries = before ++ (k, v) :: after ∧ (∀ e ∈ before, equal e.1 = false) ∧
    equal k = true ∧ entries' = before ++ (k, value) :: after) ∨
  (∀ e ∈ entries, equal e.1 = false) ∧ entries' = entries ++ [(key, value)]

/-- What setting a key does depends on which keys of the entries count as equal. -/
theorem Put.congr {equal equal' : Value → Bool} {entries entries' : List (Value × Value)}
    (hput : Put equal key value entries entries') (heq : ∀ e ∈ entries, equal e.1 = equal' e.1) :
    Put equal' key value entries entries' := by
  rcases hput with ⟨before, k, v, after, rfl, hbefore, hk, rfl⟩ | ⟨hnone, rfl⟩
  · rw [List.forall_mem_append, List.forall_mem_cons] at heq
    exact Or.inl ⟨before, k, v, after, rfl, fun e he => heq.1 e he ▸ hbefore e he,
      heq.2.1 ▸ hk, rfl⟩
  · exact Or.inr ⟨fun e he => heq e he ▸ hnone e he, rfl⟩

/-- The list of entries of a map is set in this way. -/
theorem put_putEntry (entries : List (Value × Value)) :
    Put (MapCell.matchesKey same key) key value entries
      (MapCell.putEntry same key value entries) := by
  cases hfind : entries.find? fun e => MapCell.matchesKey same key e.1 with
  | some e =>
    obtain ⟨hk, before, after, rfl, hbefore⟩ := List.find?_eq_some_iff_append.mp hfind
    have hbefore : ∀ f ∈ before, MapCell.matchesKey same key f.1 = false := by simpa using hbefore
    exact Or.inl ⟨before, e.1, e.2, after, rfl, hbefore, hk, putEntry_found hbefore hk⟩
  | none =>
    have hnone : ∀ e ∈ entries, MapCell.matchesKey same key e.1 = false := by
      simpa using List.find?_eq_none.mp hfind
    exact Or.inr ⟨hnone, putEntry_missing hnone⟩

end

/-! ## The two together -/

namespace Table

variable {same : Value → Value → Bool} {t : Table} {key value : Value}

/-- A valid table and the list of its entries find the same under every key. -/
theorem Valid.contents_get? (hv : t.Valid) :
    (MapCell.mk t.contents).get? same key = t.get? same key := by
  rw [hv.get?_eq]
  unfold MapCell.get? contents
  rw [List.find?_map, Option.map_map]
  rfl

theorem Valid.contents_insert (hv : t.Valid) :
    (t.insert same key value).contents = MapCell.putEntry same key value t.contents := by
  cases hfind : t.entries.find? (Has same key) with
  | some e =>
    obtain ⟨he, before, after, hsplit, hbefore⟩ := List.find?_eq_some_iff_append.mp hfind
    have hcontents : t.contents = before.map (·.2) ++ (e.2.1, e.2.2) :: after.map (·.2) := by
      rw [contents, hsplit, List.map_append]
      rfl
    rw [hv.insert_some hsplit hfind, hcontents, putEntry_found _ he, contents, List.map_append]
    · rfl
    · intro f hf
      obtain ⟨g, hg, rfl⟩ := List.mem_map.mp hf
      have hg := hbefore g hg
      rwa [Bool.not_eq_true'] at hg
  | none =>
    obtain ⟨hashed, last, hinsert, -⟩ := hv.insert_none hfind value
    rw [hinsert, putEntry_missing, contents, List.map_append]
    · rfl
    · intro f hf
      obtain ⟨g, hg, rfl⟩ := List.mem_map.mp hf
      exact Bool.eq_false_iff.mpr (List.find?_eq_none.mp hfind g hg)

end Table

/-! ## Maps of the heap -/

namespace Heap

/-- Neither the key nor any key of the map holds the map. -/
def Outside (h : Heap) (id : MapId) (key : Value) : Prop :=
  ¬ h.Reaches key (.datum (.map id)) ∧
    ∀ e ∈ (h.map id).entries, ¬ h.Reaches e.1 (.datum (.map id))

/-- The table has taken in what the map of the heap has, in the same order. In between, other cells
may have changed, those of keys among them, and a map may have been copied to another cell. -/
inductive Filled : Heap → MapId → Table → Prop where
  | new {h : Heap} {id : MapId} (hempty : (h.map id).entries = []) : Filled h id .empty
  | later {h h' : Heap} {id id' : MapId} {t : Table} (hfilled : Filled h id t)
      (hsame : h'.map id' = h.map id) : Filled h' id' t
  /-- A key is set in the map, which is locked while its keys are compared. -/
  | set {h : Heap} {id : MapId} {t : Table} (hfilled : Filled h id t) (hid : id < h.maps.size)
      (key value : Value) :
      Filled (h.mapInsert id key value) id
        (t.insert (h.equalsUpTo (some id) h.depthBound) key value)
  /-- An entry is added to a map that is being made, as a literal or a copy. -/
  | add {h h' : Heap} {id id' : MapId} {t : Table} (hfilled : Filled h id t) (key value : Value)
      (hmap : h'.map id' = (h.map id).insert h.equals key value) :
      Filled h' id' (t.insert h.equals key value)

variable {h : Heap} {id : MapId} {t : Table}

/-- An insertion into a map of the heap compares keys with that map locked. -/
theorem map_mapInsert (hid : id < h.maps.size) (key value : Value) :
    (h.mapInsert id key value).map id =
      (h.map id).insert (h.equalsUpTo (some id) h.depthBound) key value :=
  (getD_modify _ _ _ _ _).trans (if_pos ⟨rfl, hid⟩)

/-- A key that does not hold the map is found among its entries by equality, also while the map is
locked. -/
theorem Outside.matchesKey_eq {key : Value} (houtside : h.Outside id key) {e : Value × Value}
    (he : e ∈ (h.map id).entries) :
    MapCell.matchesKey (h.equalsUpTo (some id) h.depthBound) key e.1 = h.equals e.1 key :=
  (Heap.matchesKey_eq key e.1).trans (equalsUpTo_locked (houtside.2 e he) houtside.1)

/-- The table is in order and holds the entries of the map. -/
theorem Filled.contents (hfilled : h.Filled id t) :
    t.Valid ∧ t.contents = (h.map id).entries := by
  induction hfilled with
  | new hempty => exact ⟨Table.valid_empty, hempty.symm⟩
  | later _ hsame ih => exact ⟨ih.1, ih.2.trans (congrArg MapCell.entries hsame.symm)⟩
  | set _ hid key value ih =>
    refine ⟨Table.valid_insert ih.1 _ key value, ?_⟩
    rw [ih.1.contents_insert, ih.2, map_mapInsert hid]
    rfl
  | add _ key value hmap ih =>
    refine ⟨Table.valid_insert ih.1 _ key value, ?_⟩
    rw [ih.1.contents_insert, ih.2, hmap]
    rfl

/-- A map that is filled by insertions is a list of entries that is searched with equality. -/
theorem map_is_association_list (hfilled : h.Filled id t) :
    (t.contents = (h.map id).entries ∧ (t.entries.map (·.1)).Nodup ∧
      ∀ n, .structural n ∈ t.entries.map (·.1) → n ≤ t.last) ∧
    (∀ key, h.mapGet? id key = t.get? h.equals key ∧
      h.mapGet? id key = ((h.map id).entries.find? fun e => h.equals e.1 key).map (·.2)) ∧
    (∀ key value,
      ((h.map id).insert h.equals key value).entries = (t.insert h.equals key value).contents ∧
      Put (fun k => h.equals k key) key value (h.map id).entries
        ((h.map id).insert h.equals key value).entries) ∧
    ∀ key value, id < h.maps.size → h.Outside id key →
      ((h.mapInsert id key value).map id).entries =
        (t.insert (h.equalsUpTo (some id) h.depthBound) key value).contents ∧
      Put (fun k => h.equals k key) key value (h.map id).entries
        ((h.mapInsert id key value).map id).entries := by
  obtain ⟨hv, hcontents⟩ := hfilled.contents
  refine ⟨⟨hcontents, hv.nodup, ?numbers⟩, fun key => ⟨?get, get?_equals h (h.map id) key⟩,
    fun key value => ?add, fun key value hid houtside => ?set⟩
  case numbers =>
    intro n hn
    obtain ⟨e, he, heq⟩ := List.mem_map.mp hn
    exact hv.number_le he heq
  case get =>
    rw [← hv.contents_get?, hcontents]
    rfl
  case add =>
    rw [hv.contents_insert, hcontents]
    exact ⟨rfl, (put_putEntry _).congr fun e _ => matchesKey_eq key e.1⟩
  case set =>
    have hentries : ((h.mapInsert id key value).map id).entries =
        MapCell.putEntry (h.equalsUpTo (some id) h.depthBound) key value (h.map id).entries :=
      congrArg MapCell.entries (map_mapInsert hid key value)
    rw [hv.contents_insert, hcontents, hentries]
    exact ⟨rfl, (put_putEntry _).congr fun e he => houtside.matchesKey_eq he⟩

/-- An array with a number in it, and a map without entries. -/
def arrayAndMap : Heap :=
  { Heap.empty with arrays := #[.ofItems #[.number 1]], maps := #[⟨[]⟩] }

/-- The map has taken in the array as a key. -/
def arrayAsKey : Heap := arrayAndMap.mapInsert 0 (.datum (.array 0)) (.string "v")

/-- The table behind the map with an array as its key. -/
theorem filled_arrayAsKey :
    arrayAsKey.Filled 0 ⟨[(.structural 1, .datum (.array 0), .string "v")], 1⟩ :=
  Filled.set (.new rfl) (by decide) (.datum (.array 0)) (.string "v")

/-- A truth value does not hold the map. -/
theorem outside_arrayAsKey : arrayAsKey.Outside 0 (.boolean true) := by
  refine ⟨fun hreaches => ?_, fun e he hreaches => ?_⟩
  · obtain heq | ⟨u, hu, -⟩ := hreaches.cases_head
    · cases heq
    · cases hu
  · obtain rfl := List.mem_singleton.mp he
    obtain heq | ⟨u, hu, hreaches⟩ := hreaches.cases_head
    · cases heq
    cases hu with
    | item hv =>
      obtain rfl := List.mem_singleton.mp hv
      obtain heq | ⟨u, hu, -⟩ := hreaches.cases_head
      · cases heq
      · cases hu

theorem map_is_association_list_of_array :
    arrayAsKey.Filled 0 ⟨[(.structural 1, .datum (.array 0), .string "v")], 1⟩ ∧
    0 < arrayAsKey.maps.size ∧ arrayAsKey.Outside 0 (.boolean true) ∧
    Put (fun k => arrayAsKey.equals k (.boolean true)) (.boolean true) .null
      (arrayAsKey.map 0).entries ((arrayAsKey.mapInsert 0 (.boolean true) .null).map 0).entries :=
  ⟨filled_arrayAsKey, by decide, outside_arrayAsKey,
    ((map_is_association_list filled_arrayAsKey).2.2.2 (.boolean true) .null (by decide)
      outside_arrayAsKey).2⟩

end Heap

end ScriptEngine
