import Mathlib.Data.List.Find
import Mathlib.Logic.Relation
import ScriptEngine.Heap.Equality
import ScriptEngine.Proofs.Number.Equality

/-!
# Keys and equality

A map finds a key in two ways: a scalar by its canonical form, and anything else by comparing
values. Both come to the same thing, which is that the stored key equals the one that is looked for
(`matchesKey_eq`), so a map can be read as a list of entries that is searched with equality alone.

Equality looks into the cells that a value holds, directly or through others. A map that is locked
makes a difference only where one of the values holds it (`equalsUpTo_locked`).
-/

namespace ScriptEngine

/-! ## Canonical forms -/

/-- The canonical form of a number that is no NaN is its bits. -/
theorem Value.scalarKey?_number {x : Float} (h : x.isNaN = false) :
    (Value.number x).scalarKey? = some (.number (Number.canonicalBits x)) := by
  have hnot : ¬ x.isNaN = true := by
    rw [h]
    exact Bool.false_ne_true
  exact if_neg hnot

/-- A NaN has no canonical form, so as a key it is found by equality, which is to say never. -/
theorem Value.scalarKey?_nan {x : Float} (h : x.isNaN = true) :
    (Value.number x).scalarKey? = none :=
  if_pos h

/-- Only scalars have canonical forms. -/
theorem Value.scalarKey?_cases {v : Value} {k : ScalarKey} (h : v.scalarKey? = some k) :
    (v = .null ∧ k = .null) ∨
    (∃ x, v = .number x ∧ x.isNaN = false ∧ k = .number (Number.canonicalBits x)) ∨
    (∃ s, v = .string s ∧ k = .string s) ∨ ∃ b, v = .boolean b ∧ k = .boolean b := by
  cases v with
  | null => exact Or.inl ⟨rfl, (Option.some.inj h).symm⟩
  | datum d =>
    cases d with
    | number x =>
      cases hx : x.isNaN with
      | true => cases (Value.scalarKey?_nan hx).symm.trans h
      | false =>
        have hk := (Value.scalarKey?_number hx).symm.trans h
        exact Or.inr (Or.inl ⟨x, rfl, hx, (Option.some.inj hk).symm⟩)
    | string s => exact Or.inr (Or.inr (Or.inl ⟨s, rfl, (Option.some.inj h).symm⟩))
    | boolean b => exact Or.inr (Or.inr (Or.inr ⟨b, rfl, (Option.some.inj h).symm⟩))
    | _ => cases h
  | _ => cases h

/-! ## Values without cells -/

/-- What values are compared by if no cell is looked into. -/
inductive Face where
  | null
  | cls (id : Identity)
  | object (id : ObjectId)
  | function (id : Identity)
  | native (id : Identity)
  | builtinClass (c : BuiltinClass)
  | imported (id : ImportId)
  | number (value : Float.Model.UnpackedFloat)
  | string (text : String)
  | boolean (value : Bool)
  | logger

/-- The face of a value that is not a container. What is not a number has none. -/
def Value.face? : Value → Option Face
  | null => some .null
  | cls c => some (.cls c.id)
  | object i => some (.object i)
  | function f => some (.function f.id)
  | native f => some (.native f.id)
  | builtinClass c => some (.builtinClass c)
  | imported i => some (.imported i)
  | datum (.number x) => (Number.value? x.toModel.unpack).map .number
  | datum (.string s) => some (.string s)
  | datum (.boolean b) => some (.boolean b)
  | datum .logger => some .logger
  | _ => none

namespace Heap

variable {h : Heap} {locked? : Option MapId} {depth : Nat}

/-- A value with a canonical form is equal only to values with one. -/
theorem scalarKey?_of_equals {a b : Value} (heq : h.equalsUpTo locked? depth a b = true) :
    a.scalarKey?.isSome = b.scalarKey?.isSome := by
  cases depth with
  | zero => cases heq
  | succ depth =>
    cases a with
    | datum d =>
      cases d with
      | number x =>
        cases b with
        | datum e =>
          cases e with
          | number y =>
            have hxy : (x == y) = true := heq
            rw [Value.scalarKey?_number (Number.isNaN_of_beq hxy),
              Value.scalarKey?_number (Number.isNaN_of_beq (Number.beq_symm hxy))]
            rfl
          | _ => cases heq
        | _ => cases heq
      | _ =>
        cases b with
        | datum e => cases e <;> first | rfl | cases heq
        | _ => cases heq
    | _ =>
      cases b with
      | datum e => cases e <;> cases heq
      | _ => first | rfl | cases heq

/-- The two ways of finding a key come to the same: the stored key equals the one looked for. -/
theorem matchesKey_eq (key stored : Value) :
    MapCell.matchesKey (h.equalsUpTo locked? (depth + 1)) key stored =
      h.equalsUpTo locked? (depth + 1) stored key := by
  unfold MapCell.matchesKey
  split
  · next k s hk hs =>
    rcases Value.scalarKey?_cases hk with ⟨rfl, rfl⟩ | ⟨x, rfl, hx, rfl⟩ | ⟨t, rfl, rfl⟩ |
        ⟨b, rfl, rfl⟩ <;>
      rcases Value.scalarKey?_cases hs with ⟨rfl, rfl⟩ | ⟨y, rfl, hy, rfl⟩ | ⟨t', rfl, rfl⟩ |
        ⟨b', rfl, rfl⟩ <;>
      try rfl
    · rw [Bool.eq_iff_iff, decide_eq_true_iff, ScalarKey.number.injEq, eq_comm,
        ← Number.beq_iff_canonicalBits hy]
      rfl
    · rw [Bool.eq_iff_iff, decide_eq_true_iff, ScalarKey.string.injEq, eq_comm, ← beq_iff_eq]
      rfl
    · rw [Bool.eq_iff_iff, decide_eq_true_iff, ScalarKey.boolean.injEq, eq_comm, ← beq_iff_eq]
      rfl
  · rfl
  · next hboth hneither =>
    refine (Bool.eq_false_iff.mpr fun heq => ?_).symm
    have hsome := scalarKey?_of_equals heq
    cases hk : key.scalarKey? with
    | none =>
      rw [hk, Option.isSome_none, Option.isSome_eq_false_iff, Option.isNone_iff_eq_none] at hsome
      exact hneither hk hsome
    | some k =>
      rw [hk] at hsome
      obtain ⟨s, hs⟩ := Option.isSome_iff_exists.mp hsome
      exact hboth k s hk hs

/-- Looking up a key is a search with equality. -/
theorem get?_equals (h : Heap) (cell : MapCell) (key : Value) :
    cell.get? h.equals key = (cell.entries.find? fun e => h.equals e.1 key).map (·.2) := by
  unfold MapCell.get?
  simp only [show ∀ stored, MapCell.matchesKey h.equals key stored = h.equals stored key from
    matchesKey_eq key]

/-! ## What a value holds -/

/-- The cell of a container holds a value: an item, a key, a value or a message. -/
inductive Holds (h : Heap) : Value → Value → Prop where
  | item {i : ArrayId} {v : Value} (hv : v ∈ (h.array i).items.toList) :
      Holds h (.datum (.array i)) v
  | key {i : MapId} {e : Value × Value} (he : e ∈ (h.map i).entries) : Holds h (.datum (.map i)) e.1
  | entry {i : MapId} {e : Value × Value} (he : e ∈ (h.map i).entries) :
      Holds h (.datum (.map i)) e.2
  | message (i : ErrorId) : Holds h (.datum (.error i)) (h.error i).message

/-- A value is reached from another one: it is that value, or held by one that is reached. -/
def Reaches (h : Heap) : Value → Value → Prop :=
  Relation.ReflTransGen h.Holds

/-! ## Comparing containers -/

section

variable (h) (locked?)

theorem equalsUpTo_array (i j : ArrayId) :
    h.equalsUpTo locked? (depth + 1) (.datum (.array i)) (.datum (.array j)) =
      (i == j || ((h.array i).items.size == (h.array j).items.size &&
        ((h.array i).items.toList.zip (h.array j).items.toList).all fun p =>
          h.equalsUpTo locked? depth p.1 p.2)) :=
  rfl

/-- What equality of maps looks at: the keys of the left one are looked up in the right one, unless
one of the two is locked. -/
theorem equalsUpTo_map (i j : MapId) :
    h.equalsUpTo locked? (depth + 1) (.datum (.map i)) (.datum (.map j)) =
      (i == j || (locked? != some i && locked? != some j &&
        (h.map i).entries.length == (h.map j).entries.length &&
          (h.map i).entries.all fun e =>
            ((h.map j).get? (h.equalsUpTo locked? depth) e.1).any fun v =>
              h.equalsUpTo locked? depth v e.2)) :=
  rfl

theorem equalsUpTo_error (i j : ErrorId) :
    h.equalsUpTo locked? (depth + 1) (.datum (.error i)) (.datum (.error j)) =
      (i == j || h.equalsUpTo locked? depth (h.error i).message (h.error j).message) :=
  rfl

end

/-- Two containers of one kind. -/
inductive Kin : Value → Value → Prop where
  | arrays (i j : ArrayId) : Kin (.datum (.array i)) (.datum (.array j))
  | maps (i j : MapId) : Kin (.datum (.map i)) (.datum (.map j))
  | errors (i j : ErrorId) : Kin (.datum (.error i)) (.datum (.error j))

/-- Other values are compared by their faces. -/
theorem equalsUpTo_iff_face {a b : Value} (hkin : ¬ Kin a b) :
    h.equalsUpTo locked? (depth + 1) a b = true ↔ a.face?.isSome ∧ a.face? = b.face? := by
  cases a with
  | datum d =>
    cases b with
    | datum e =>
      cases d with
      | number x =>
        cases e with
        | number y =>
          rw [show h.equalsUpTo locked? (depth + 1) (.number x) (.number y) = (x == y) from rfl,
            Number.beq_iff_value?]
          cases hx : Number.value? x.toModel.unpack <;>
            cases hy : Number.value? y.toModel.unpack <;> simp [Value.face?, hx, hy]
        | _ => cases hx : Number.value? x.toModel.unpack <;> simp [equalsUpTo, Value.face?, hx]
      | _ =>
        cases e with
        | number y =>
          cases hy : Number.value? y.toModel.unpack <;> simp [equalsUpTo, Value.face?, hy]
        | _ => first | exact absurd (by constructor) hkin | simp [equalsUpTo, Value.face?]
    | _ =>
      cases d with
      | number x => cases hx : Number.value? x.toModel.unpack <;> simp [equalsUpTo, Value.face?, hx]
      | _ => simp [equalsUpTo, Value.face?]
  | _ =>
    cases b with
    | datum e =>
      cases e with
      | number y => cases hy : Number.value? y.toModel.unpack <;> simp [equalsUpTo, Value.face?, hy]
      | _ => simp [equalsUpTo, Value.face?]
    | _ => simp [equalsUpTo, Value.face?]

/-- Two containers of a kind have no face. -/
theorem Kin.face? {a b : Value} (hkin : Kin a b) : a.face? = none ∧ b.face? = none := by
  cases hkin <;> exact ⟨rfl, rfl⟩

/-! ## Comparisons that agree inside -/

section

variable {same same' : Value → Value → Bool} {cell : MapCell} {key : Value}

/-- Whether a key matches an entry depends on how the two compare, and on nothing else. -/
theorem matchesKey_congr {stored : Value} (hsame : same stored key = same' stored key) :
    MapCell.matchesKey same key stored = MapCell.matchesKey same' key stored := by
  unfold MapCell.matchesKey
  rw [hsame]

theorem get?_congr (hsame : ∀ e ∈ cell.entries, same e.1 key = same' e.1 key) :
    cell.get? same key = cell.get? same' key := by
  unfold MapCell.get?
  have hfind : cell.entries.find? (fun e => MapCell.matchesKey same key e.1) =
      cell.entries.find? fun e => MapCell.matchesKey same' key e.1 :=
    List.find?_congr fun e he => matchesKey_congr (hsame e he)
  rw [hfind]

/-- What is found under a key is the value of some entry. -/
theorem mem_of_get? {v : Value} (hv : cell.get? same key = some v) :
    ∃ e ∈ cell.entries, e.2 = v := by
  obtain ⟨e, hfind, hev⟩ := Option.map_eq_some_iff.mp hv
  exact ⟨e, List.mem_of_find?_eq_some hfind, hev⟩

end

theorem all_congr {α : Type} {l : List α} {p q : α → Bool} (hpq : ∀ x ∈ l, p x = q x) :
    l.all p = l.all q := by
  rw [Bool.eq_iff_iff, List.all_eq_true, List.all_eq_true]
  exact forall₂_congr fun x hx => by rw [hpq x hx]

/-- Two comparisons of values agree if they agree on what the values hold, in both orders. -/
theorem equalsUpTo_congr {locked₁? locked₂? : Option MapId} {depth₁ depth₂ : Nat} {a b : Value}
    (hlocked : ∀ i : MapId, a = .datum (.map i) ∨ b = .datum (.map i) →
      (locked₁? != some i) = (locked₂? != some i))
    (hsame : ∀ u w, h.Holds a u → h.Holds b w →
      h.equalsUpTo locked₁? depth₁ u w = h.equalsUpTo locked₂? depth₂ u w ∧
      h.equalsUpTo locked₁? depth₁ w u = h.equalsUpTo locked₂? depth₂ w u) :
    h.equalsUpTo locked₁? (depth₁ + 1) a b = h.equalsUpTo locked₂? (depth₂ + 1) a b := by
  by_cases hkin : Kin a b
  · cases hkin with
    | arrays i j =>
      have hall : ((h.array i).items.toList.zip (h.array j).items.toList).all
            (fun p => h.equalsUpTo locked₁? depth₁ p.1 p.2) =
          ((h.array i).items.toList.zip (h.array j).items.toList).all
            fun p => h.equalsUpTo locked₂? depth₂ p.1 p.2 := by
        refine all_congr fun p hp => ?_
        obtain ⟨hi, hj⟩ := List.of_mem_zip hp
        exact (hsame p.1 p.2 (.item hi) (.item hj)).1
      rw [equalsUpTo_array, equalsUpTo_array, hall]
    | maps i j =>
      have hall : ((h.map i).entries.all fun e =>
            ((h.map j).get? (h.equalsUpTo locked₁? depth₁) e.1).any fun v =>
              h.equalsUpTo locked₁? depth₁ v e.2) =
          (h.map i).entries.all fun e =>
            ((h.map j).get? (h.equalsUpTo locked₂? depth₂) e.1).any fun v =>
              h.equalsUpTo locked₂? depth₂ v e.2 := by
        refine all_congr fun e he => ?_
        rw [get?_congr fun f hf => (hsame e.1 f.1 (.key he) (.key hf)).2]
        cases hv : (h.map j).get? (h.equalsUpTo locked₂? depth₂) e.1 with
        | none => rfl
        | some v =>
          obtain ⟨f, hf, rfl⟩ := mem_of_get? hv
          exact (hsame e.2 f.2 (.entry he) (.entry hf)).2
      rw [equalsUpTo_map, equalsUpTo_map, hall, hlocked i (Or.inl rfl), hlocked j (Or.inr rfl)]
    | errors i j =>
      rw [equalsUpTo_error, equalsUpTo_error, (hsame _ _ (.message i) (.message j)).1]
  · rw [Bool.eq_iff_iff, equalsUpTo_iff_face hkin, equalsUpTo_iff_face hkin]

/-- A map that neither of two values reaches may as well be locked. -/
theorem equalsUpTo_locked {id : MapId} : ∀ {depth : Nat} {a b : Value},
    ¬ h.Reaches a (.datum (.map id)) → ¬ h.Reaches b (.datum (.map id)) →
      h.equalsUpTo (some id) depth a b = h.equalsUpTo none depth a b := by
  intro depth
  induction depth with
  | zero => exact fun _ _ => rfl
  | succ depth ih =>
    intro a b ha hb
    refine equalsUpTo_congr (fun i hi => ?_) fun u w hu hw => ?_
    · have hne : some id ≠ some i := by
        intro heq
        cases heq
        rcases hi with rfl | rfl
        · exact ha .refl
        · exact hb .refl
      exact bne_iff_ne.mpr hne
    · have hau : ¬ h.Reaches u (.datum (.map id)) := fun hr => ha (.head hu hr)
      have hbw : ¬ h.Reaches w (.datum (.map id)) := fun hr => hb (.head hw hr)
      exact ⟨ih hau hbw, ih hbw hau⟩

end Heap

end ScriptEngine
