import ScriptEngine.Proofs.Heap.Copy
import ScriptEngine.Proofs.Heap.Table

/-!
# What a copy looks like

A map whose keys are scalars, no two of them the same, is copied entry by entry: inserting the
copied entries into an empty map finds no key again. If all maps inside a value are such maps, the
copy is the same as the value cell by cell (`Resembles`), also in the greatest sizes of arrays.
Values that resemble each other are displayed in the same way, and they are equal unless something
in them is not a number.
-/

namespace ScriptEngine

namespace Heap

variable {base h : Heap} {a b : Value} {depth : Nat}

/-! ## Cells that are the same -/

/-- Two values are the same but for their cells, where `Part` says so of their parts. -/
inductive Alike (h : Heap) (Part : Value → Value → Prop) : Value → Value → Prop where
  | same {v : Value} (hv : ¬ v.IsContainer) : Alike h Part v v
  | array {i j : ArrayId} (hmax : (h.array j).maxSize = (h.array i).maxSize)
      (hitems : List.Forall₂ Part (h.array i).items.toList (h.array j).items.toList) :
      Alike h Part (.datum (.array i)) (.datum (.array j))
  | map {i j : MapId}
      (hentries : List.Forall₂ (fun e f => Part e.1 f.1 ∧ Part e.2 f.2) (h.map i).entries
        (h.map j).entries) :
      Alike h Part (.datum (.map i)) (.datum (.map j))
  | error {i j : ErrorId} (htoken : (h.error j).token? = (h.error i).token?)
      (hmessage : Part (h.error i).message (h.error j).message) :
      Alike h Part (.datum (.error i)) (.datum (.error j))

/-- Values less than a number of cells deep that are the same but for their cells. -/
def ResemblesUpTo (h : Heap) : Nat → Value → Value → Prop
  | 0 => fun _ _ => False
  | depth + 1 => Alike h (ResemblesUpTo h depth)

/-- Two values are the same all the way down, though in different cells: arrays have the same
greatest size and items that resemble each other, maps have such entries in the same order, errors
have such messages and the same place, and other values are the same. -/
def Resembles (h : Heap) (a b : Value) : Prop :=
  ∃ depth, h.ResemblesUpTo depth a b

/-- Two lists whose elements correspond are mapped to the same list. -/
theorem map_congr_forall₂ {α β : Type} {f g : α → β} {l l' : List α}
    (hall : List.Forall₂ (fun x y => f x = g y) l l') : l.map f = l'.map g := by
  rw [← List.forall₂_eq_eq_eq, List.forall₂_map_left_iff, List.forall₂_map_right_iff]
  exact hall

/-! ## Scalar keys -/

/-- The map has been filled by insertions, and its keys are `null`, numbers that are numbers, texts
and truth values. -/
structure ScalarKeys (h : Heap) (i : MapId) : Prop where
  filled : ∃ t, h.Filled i t
  scalar : ∀ e ∈ (h.map i).entries, e.1.scalarKey?.isSome

/-- The keys of the entries have canonical forms, and no two have the same. -/
structure Keyed (entries : List (Value × Value)) : Prop where
  scalar : ∀ e ∈ entries, e.1.scalarKey?.isSome
  nodup : (entries.map fun e => e.1.scalarKey?).Nodup

/-- The hashes of the entries are the forms of their keys, and no hash is given out twice. -/
theorem ScalarKeys.keyed {i : MapId} (hkeys : h.ScalarKeys i) : Keyed (h.map i).entries := by
  refine ⟨hkeys.scalar, ?_⟩
  obtain ⟨t, hfilled⟩ := hkeys.filled
  obtain ⟨hvalid, hcontents⟩ := hfilled.contents
  have hscalar := hkeys.scalar
  rw [← hcontents] at hscalar ⊢
  have hhash : ∀ e ∈ t.entries,
      (e.2.1.scalarKey?.map HashKey.scalar).getD (.structural 0) = e.1 := by
    intro e he
    obtain ⟨form, hform⟩ := Option.isSome_iff_exists.mp (hscalar e.2 (List.mem_map_of_mem he))
    rw [hform, hvalid.scalar e he form hform]
    rfl
  refine List.Nodup.of_map (fun form? => (form?.map HashKey.scalar).getD (.structural 0)) ?_
  rw [Table.contents, List.map_map, List.map_map]
  exact List.map_congr_left hhash ▸ hvalid.nodup

section

variable {same : Value → Value → Bool} {entries : List (Value × Value)}

/-- Scalar keys match if they have the same canonical form. -/
theorem matchesKey_scalar {k k' : Value} (hk : k.scalarKey?.isSome) (hk' : k'.scalarKey?.isSome) :
    MapCell.matchesKey same k k' = true ↔ k.scalarKey? = k'.scalarKey? := by
  obtain ⟨form, hform⟩ := Option.isSome_iff_exists.mp hk
  obtain ⟨form', hform'⟩ := Option.isSome_iff_exists.mp hk'
  unfold MapCell.matchesKey
  rw [hform, hform', Option.some_inj]
  exact decide_eq_true_iff

/-- No entry before another one has its key. -/
theorem Keyed.apart {before rest : List (Value × Value)} {e : Value × Value}
    (hkeyed : Keyed (before ++ e :: rest)) :
    ∀ f ∈ before, MapCell.matchesKey same e.1 f.1 = false := by
  intro f hf
  refine Bool.eq_false_iff.mpr fun hmatch => ?_
  have hforms := (matchesKey_scalar (hkeyed.scalar e (by simp)) (hkeyed.scalar f (by simp [hf]))).mp
    hmatch
  have hnodup := hkeyed.nodup
  rw [List.map_append, List.nodup_append] at hnodup
  exact hnodup.2.2 _ (List.mem_map_of_mem hf) _ (List.mem_map_of_mem List.mem_cons_self) hforms.symm

/-- Inserting the entries one after the other finds no key again. -/
theorem Keyed.insertAll_eq (hkeyed : Keyed entries) : insertAll same entries = ⟨entries⟩ := by
  have hrest : ∀ rest before : List (Value × Value), Keyed (before ++ rest) →
      rest.foldl (fun cell e => cell.insert same e.1 e.2) (⟨before⟩ : MapCell) =
        ⟨before ++ rest⟩ := by
    intro rest
    induction rest with
    | nil => exact fun before _ => congrArg MapCell.mk (List.append_nil before).symm
    | cons e rest ih =>
      intro before hkeyed
      rw [List.foldl_cons, MapCell.insert, putEntry_missing hkeyed.apart]
      rw [List.append_cons before e rest] at hkeyed ⊢
      exact ih _ hkeyed
  exact hrest entries [] hkeyed

/-- The entry with a key is found. -/
theorem Keyed.get?_eq {cell : MapCell} (hkeyed : Keyed cell.entries) {e : Value × Value}
    (he : e ∈ cell.entries) : cell.get? same e.1 = some e.2 := by
  obtain ⟨before, after, hsplit⟩ := List.append_of_mem he
  have hself : MapCell.matchesKey same e.1 e.1 = true :=
    (matchesKey_scalar (hkeyed.scalar e he) (hkeyed.scalar e he)).mpr rfl
  rw [hsplit] at hkeyed
  have hfind : cell.entries.find? (fun f => MapCell.matchesKey same e.1 f.1) = some e := by
    refine List.find?_eq_some_iff_append.mpr ⟨hself, before, after, hsplit, fun f hf => ?_⟩
    rw [hkeyed.apart f hf]
    rfl
  unfold MapCell.get?
  rw [hfind]
  rfl

end

/-- Only the keys matter. -/
theorem Keyed.of_keys {entries entries' : List (Value × Value)} (hkeyed : Keyed entries)
    (hkeys : List.Forall₂ (fun e f : Value × Value => e.1 = f.1) entries entries') :
    Keyed entries' := by
  have hsame : entries.map (·.1) = entries'.map (·.1) := map_congr_forall₂ hkeys
  constructor
  · intro f hf
    have hmem : f.1 ∈ entries.map (·.1) := hsame ▸ List.mem_map_of_mem hf
    obtain ⟨e, he, heq⟩ := List.mem_map.mp hmem
    exact heq ▸ hkeyed.scalar e he
  · have hforms := congrArg (List.map Value.scalarKey?) hsame
    rw [List.map_map, List.map_map] at hforms
    exact (show entries.map (fun e => e.1.scalarKey?) = entries'.map fun e => e.1.scalarKey? from
      hforms) ▸ hkeyed.nodup

theorem not_isContainer_of_scalar {k : Value} (hk : k.scalarKey?.isSome) : ¬ k.IsContainer := by
  obtain ⟨form, hform⟩ := Option.isSome_iff_exists.mp hk
  rcases Value.scalarKey?_cases hform with ⟨rfl, -⟩ | ⟨x, rfl, -⟩ | ⟨s, rfl, -⟩ | ⟨b, rfl, -⟩ <;>
    exact id

/-! ## From copies to resemblance -/

/-- What is no container is its own copy. -/
theorem CopyUpTo.eq (hcopy : CopyUpTo base h depth a b) (ha : ¬ a.IsContainer) : a = b := by
  cases depth with
  | zero => exact hcopy.elim
  | succ depth =>
    cases hcopy with
    | same => rfl
    | _ => exact absurd trivial ha

/-- A value without a cell resembles itself only. -/
theorem ResemblesUpTo.eq (hlike : h.ResemblesUpTo depth a b) (ha : ¬ a.IsContainer) : a = b := by
  cases depth with
  | zero => exact hlike.elim
  | succ depth =>
    cases hlike with
    | same => rfl
    | _ => exact absurd trivial ha

/-- A copy resembles the value, if the maps inside have scalar keys only. -/
theorem CopyUpTo.resembles (hext : base.ExtendsTo h) : ∀ {depth : Nat} {a b : Value},
    CopyUpTo base h depth a b → (∀ w, base.Reaches a w → base.Placed w) →
      (∀ i, base.Reaches a (.datum (.map i)) → base.ScalarKeys i) → h.ResemblesUpTo depth a b := by
  intro depth
  induction depth with
  | zero => exact fun hcopy _ _ => hcopy.elim
  | succ depth ih =>
    intro a b hcopy hplaced hkeys
    have hpart : ∀ u, base.Holds a u → ∀ w, CopyUpTo base h depth u w → h.ResemblesUpTo depth u w :=
      fun u hu w huw =>
        ih huw (fun t ht => hplaced t (.head hu ht)) fun i hi => hkeys i (.head hu hi)
    cases hcopy with
    | same hv => exact .same hv
    | @array i j _ _ hmax hitems =>
      have hcell : h.array i = base.array i := hext.array i (hplaced _ .refl)
      refine .array (hcell ▸ hmax) (hcell ▸ forall₂_imp_mem (fun u hu w huw => ?_) hitems)
      exact hpart u (.item hu) w huw
    | @map i j _ _ same entries hentries hmap =>
      have hcell : h.map i = base.map i := hext.map i (hplaced _ .refl)
      have hkeyed := (hkeys i .refl).keyed
      have hkeyed' : Keyed entries := hkeyed.of_keys (forall₂_imp_mem (fun e he f hef =>
        hef.1.eq (not_isContainer_of_scalar (hkeyed.scalar e he))) hentries)
      have hall : (h.map j).entries = entries := by rw [hmap, hkeyed'.insertAll_eq]
      refine .map (hcell ▸ hall ▸ forall₂_imp_mem (fun e he f hef => ?_) hentries)
      exact ⟨hpart e.1 (.key he) f.1 hef.1, hpart e.2 (.entry he) f.2 hef.2⟩
    | @error i j _ _ htoken hmessage =>
      have hcell : h.error i = base.error i := hext.error i (hplaced _ .refl)
      exact .error (hcell ▸ htoken) (hcell ▸ hpart _ (.message i) _ hmessage)

/-! ## Displaying and comparing -/

/-- Values that are alike look the same inside of another one if they look the same on their own. -/
theorem Alike.reprWith {Part : Value → Value → Prop} (hlike : Alike h Part a b)
    {print : Value → String} (hprint : print a = print b) :
    a.reprWith print = b.reprWith print := by
  cases hlike with
  | same => rfl
  | _ => exact hprint

/-- Values that resemble each other are displayed in the same way, to any depth. -/
theorem ResemblesUpTo.display {depth : Nat} : ∀ {a b : Value}, h.ResemblesUpTo depth a b →
    ∀ n, h.displayUpTo n a = h.displayUpTo n b := by
  induction depth with
  | zero => exact fun hlike => hlike.elim
  | succ depth ih =>
    intro a b hlike n
    cases n with
    | zero => rfl
    | succ n =>
      have hrepr : ∀ u w, h.ResemblesUpTo depth u w →
          u.reprWith (h.displayUpTo n) = w.reprWith (h.displayUpTo n) := by
        intro u w huw
        have hprint := ih huw n
        cases depth with
        | zero => exact huw.elim
        | succ depth => exact Alike.reprWith huw hprint
      cases hlike with
      | same => rfl
      | @array i j _ hitems =>
        have hshown := map_congr_forall₂ (f := Value.reprWith (h.displayUpTo n))
          (hitems.imp fun u w => hrepr u w)
        show "[" ++ ", ".intercalate _ ++ "]" = "[" ++ ", ".intercalate _ ++ "]"
        rw [hshown]
      | @map i j hentries =>
        have hshown := map_congr_forall₂ (f := fun e : Value × Value =>
          e.1.reprWith (h.displayUpTo n) ++ ": " ++ e.2.reprWith (h.displayUpTo n))
          (hentries.imp fun e f hef => by rw [hrepr _ _ hef.1, hrepr _ _ hef.2])
        show "\x7b" ++ ", ".intercalate _ ++ "\x7d" = "\x7b" ++ ", ".intercalate _ ++ "\x7d"
        rw [hshown]
      | error _ hmessage => exact ih hmessage n

/-- Compared to a depth, two values are equal in both orders. -/
def Agree (h : Heap) (n : Nat) (a b : Value) : Prop :=
  h.equalsUpTo none n a b = true ∧ h.equalsUpTo none n b a = true

/-- Arrays whose items agree in order agree. -/
theorem agree_arrays {n : Nat} {i j : ArrayId}
    (hitems : List.Forall₂ (h.Agree n) (h.array i).items.toList (h.array j).items.toList) :
    h.Agree (n + 1) (.datum (.array i)) (.datum (.array j)) := by
  have hone : ∀ {i j : ArrayId}, List.Forall₂ (fun u w => h.equalsUpTo none n u w = true)
      (h.array i).items.toList (h.array j).items.toList →
        h.equalsUpTo none (n + 1) (.datum (.array i)) (.datum (.array j)) = true := by
    intro i j hall
    rw [List.forall₂_iff_zip] at hall
    rw [equalsUpTo_array]
    simp only [Bool.or_eq_true, Bool.and_eq_true, beq_iff_eq, List.all_eq_true, Prod.forall]
    exact Or.inr ⟨hall.1, fun u w => hall.2⟩
  exact ⟨hone (hitems.imp fun _ _ => And.left), hone (hitems.imp fun _ _ => And.right).flip⟩

/-- Maps with the same scalar keys and agreeing values are equal. -/
theorem agree_maps {n : Nat} {i j : MapId} (hi : Keyed (h.map i).entries)
    (hentries : List.Forall₂ (fun e f : Value × Value => e.1 = f.1 ∧ h.Agree n e.2 f.2)
      (h.map i).entries (h.map j).entries) :
    h.Agree (n + 1) (.datum (.map i)) (.datum (.map j)) := by
  have hone : ∀ {i j : MapId}, Keyed (h.map j).entries →
      List.Forall₂ (fun e f : Value × Value => e.1 = f.1 ∧ h.equalsUpTo none n f.2 e.2 = true)
        (h.map i).entries (h.map j).entries →
        h.equalsUpTo none (n + 1) (.datum (.map i)) (.datum (.map j)) = true := by
    intro i j hj hall
    rw [equalsUpTo_map]
    simp only [Bool.or_eq_true, Bool.and_eq_true, beq_iff_eq, List.all_eq_true, Option.any_eq_true,
      bne_iff_ne, ne_eq, reduceCtorEq, not_false_eq_true, true_and]
    refine Or.inr ⟨hall.length_eq, fun e he => ?_⟩
    obtain ⟨f, hf, heq, hvalue⟩ := exists_of_mem_right hall.flip he
    exact ⟨f.2, heq ▸ hj.get?_eq hf, hvalue⟩
  refine ⟨hone (hi.of_keys (hentries.imp fun _ _ => And.left)) ?_, hone hi ?_⟩
  · exact hentries.imp fun _ _ hef => ⟨hef.1, hef.2.2⟩
  · exact (hentries.imp fun _ _ hef => ⟨hef.1.symm, hef.2.1⟩ : List.Forall₂
      (fun e f : Value × Value => f.1 = e.1 ∧ h.equalsUpTo none n e.2 f.2 = true) _ _).flip

/-- Values that resemble each other are equal, at any depth that is enough for them. -/
theorem ResemblesUpTo.agree {depth : Nat} : ∀ {a b : Value}, h.ResemblesUpTo depth a b →
    (∀ x, h.Reaches a (.number x) → x.isNaN = false) →
      (∀ i, h.Reaches a (.datum (.map i)) → Keyed (h.map i).entries) →
        ∀ more, h.Agree (depth + more) a b := by
  induction depth with
  | zero => exact fun hlike => hlike.elim
  | succ depth ih =>
    intro a b hlike hnumbers hkeys more
    have hpart : ∀ u, h.Holds a u → ∀ w, h.ResemblesUpTo depth u w → h.Agree (depth + more) u w :=
      fun u hu w huw => ih huw (fun x hx => hnumbers x (.head hu hx))
        (fun i hi => hkeys i (.head hu hi)) more
    rw [Nat.add_right_comm]
    cases hlike with
    | same =>
      have hself : h.equalsUpTo none (depth + more + 1) a a = true :=
        equalsUpTo_self fun x hx => hnumbers x (hx ▸ .refl)
      exact ⟨hself, hself⟩
    | array _ hitems =>
      exact agree_arrays (forall₂_imp_mem (fun u hu w huw => hpart u (.item hu) w huw) hitems)
    | @map i j hentries =>
      refine agree_maps (hkeys i .refl) (forall₂_imp_mem (fun e he f hef => ?_) hentries)
      have hscalar := not_isContainer_of_scalar ((hkeys i .refl).scalar e he)
      exact ⟨hef.1.eq hscalar, hpart e.2 (.entry he) f.2 hef.2⟩
    | @error i j _ hmessage =>
      obtain ⟨hab, hba⟩ := hpart _ (.message i) _ hmessage
      exact ⟨by rw [equalsUpTo_error, hab, Bool.or_true],
        by rw [equalsUpTo_error, hba, Bool.or_true]⟩

/-- The bound on the depth of a comparison is not felt. -/
theorem ResemblesUpTo.equals (hlike : h.ResemblesUpTo depth a b) (ha : h.Grounded a)
    (hnumbers : ∀ x, h.Reaches a (.number x) → x.isNaN = false)
    (hkeys : ∀ i, h.Reaches a (.datum (.map i)) → Keyed (h.map i).entries) :
    h.equals a b = true ∧ h.equals b a = true := by
  obtain ⟨hab, hba⟩ := hlike.agree hnumbers hkeys h.depthBound
  obtain ⟨hmore, hmore'⟩ := equalsUpTo_shallow (ha.shallow h.lt_depthBound) depth b
  rw [Nat.add_comm] at hmore hmore'
  exact ⟨hmore.symm.trans hab, hmore'.symm.trans hba⟩

end Heap

end ScriptEngine
