import Mathlib.Data.List.Nodup
import ScriptEngine.Proofs.Class.Slot

/-!
# The built-in classes above a class, and what backs them

Three walks over the classes above a class meet built-in ones: the one that gathers them for a new
instance, which skips those that it has, the one that looks for a method, which stops at the first
that has it, and that of a superclass access, which starts in the middle. `mem_builtinAncestors`
says what the first gathers in terms that the other two share: the built-in classes that some class
in the lineage names as a superclass.

An instance is `Backed` if it has one backing instance for each of them, of that very class. What
else it may have is a parameter: an initializer of a superclass replaces what it finds under its
class, and who holds such an initializer has to know that it finds something.
-/

namespace ScriptEngine

namespace Class

mutual

/-- A class adds the built-in superclasses of every class above it and of its own. -/
theorem mem_addBuiltins {b : BuiltinClass} : ∀ (c : Class) (found : List BuiltinClass),
    b ∈ c.addBuiltins found ↔
      b ∈ found ∨ ∃ d ∈ c.lineage, Superclass.builtin b ∈ d.superclasses
  | mk id name superclasses methods, found => by
    have hself : (mk id name superclasses methods).superclasses = superclasses := rfl
    rw [addBuiltins, mem_addInherited superclasses found, lineage, List.exists_mem_cons_iff, hself]

/-- Superclasses add the built-in ones among them and those of their ancestors. -/
theorem mem_addInherited {b : BuiltinClass} :
    ∀ (superclasses : List Superclass) (found : List BuiltinClass),
      b ∈ addInherited found superclasses ↔
        b ∈ found ∨ Superclass.builtin b ∈ superclasses ∨
          ∃ d ∈ ancestors superclasses, Superclass.builtin b ∈ d.superclasses
  | [], found => by simp [addInherited, ancestors]
  | .user c :: rest, found => by
    rw [addInherited, mem_addInherited rest, mem_addBuiltins c found]
    simp only [ancestors, List.mem_cons, reduceCtorEq, false_or, List.mem_append, or_and_right,
      exists_or]
    rw [or_assoc, or_left_comm (a := ∃ d ∈ c.lineage, _)]
  | .builtin b' :: rest, found => by
    have hadd : b ∈ (if b' ∈ found then found else found ++ [b']) ↔ b ∈ found ∨ b = b' := by
      by_cases hmem : b' ∈ found
      · rw [if_pos hmem]
        refine ⟨Or.inl, ?_⟩
        rintro (h | rfl)
        · exact h
        · exact hmem
      · rw [if_neg hmem, List.mem_append, List.mem_singleton]
    rw [addInherited, mem_addInherited rest, hadd]
    simp only [ancestors, List.mem_cons, Superclass.builtin.injEq, or_assoc]

end

/-- The built-in classes above a class are those that a class in its lineage names. -/
theorem mem_builtinAncestors {c : Class} {b : BuiltinClass} :
    b ∈ c.builtinAncestors ↔ ∃ d ∈ c.lineage, Superclass.builtin b ∈ d.superclasses := by
  rw [builtinAncestors, mem_addBuiltins]
  exact or_iff_right List.not_mem_nil

mutual

theorem nodup_addBuiltins : ∀ (c : Class) (found : List BuiltinClass), found.Nodup →
    (c.addBuiltins found).Nodup
  | mk _ _ superclasses _, found => nodup_addInherited superclasses found

theorem nodup_addInherited : ∀ (superclasses : List Superclass) (found : List BuiltinClass),
    found.Nodup → (addInherited found superclasses).Nodup
  | [], _ => fun h => h
  | .user c :: rest, found => fun h =>
    nodup_addInherited rest _ (nodup_addBuiltins c found h)
  | .builtin b :: rest, found => fun h => by
    refine nodup_addInherited rest _ ?_
    by_cases hmem : b ∈ found
    · rw [if_pos hmem]
      exact h
    · rw [if_neg hmem]
      exact List.nodup_append.mpr ⟨h, List.nodup_singleton b, fun a ha a' ha' heq => hmem (by
        rw [← List.mem_singleton.mp ha', ← heq]
        exact ha)⟩

end

/-- No built-in class stands twice above a class. -/
theorem nodup_builtinAncestors (c : Class) : c.builtinAncestors.Nodup :=
  nodup_addBuiltins c [] List.nodup_nil

/-- A method is found at a built-in class above, never elsewhere. -/
theorem mem_builtinAncestors_of_findMethod? {c : Class} {method : String} {b : BuiltinClass}
    (h : c.findMethod? method = some (.builtin b)) : b ∈ c.builtinAncestors :=
  mem_builtinAncestors.mpr (mem_superclasses_of_findMethod? c h)

/-- What is above a class of the lineage is above the class. -/
theorem builtinAncestors_subset {c d : Class} (h : d ∈ c.lineage) :
    d.builtinAncestors ⊆ c.builtinAncestors := by
  intro b hb
  obtain ⟨e, he, hsuper⟩ := mem_builtinAncestors.mp hb
  exact mem_builtinAncestors.mpr ⟨e, lineage_subset d c h he, hsuper⟩

mutual

/-- A built-in class at which a method is found has it. -/
theorem hasMethod_of_findMethod? {method : String} {b : BuiltinClass} :
    ∀ c : Class, c.findMethod? method = some (.builtin b) → b.hasMethod method = true
  | mk id name superclasses methods => fun h => by
    unfold findMethod? at h
    split at h
    · simp at h
    · exact hasMethod_of_findInherited? superclasses h

/-- A method that is found in a built-in class is one of its methods. -/
theorem hasMethod_of_findInherited? {method : String} {b : BuiltinClass} :
    ∀ superclasses : List Superclass, findInherited? method superclasses = some (.builtin b) →
      b.hasMethod method = true
  | [] => fun h => by simp [findInherited?] at h
  | .user c :: rest => fun h => by
    unfold findInherited? at h
    split at h
    · next found hfound =>
      simp only [Option.some.injEq] at h
      exact hasMethod_of_findMethod? c (h ▸ hfound)
    · exact hasMethod_of_findInherited? rest h
  | .builtin b' :: rest => fun h => by
    unfold findInherited? at h
    split at h
    · next hhas =>
      simp only [Option.some.injEq, Method.builtin.injEq] at h
      exact h ▸ hhas
    · exact hasMethod_of_findInherited? rest h

end

end Class

/-! ## Backing instances -/

namespace Instance

/-- The built-in classes that an instance has backing instances for. -/
def backings (i : Instance) : List BuiltinClass :=
  i.natives.map (·.1)

/-- An instance has one backing instance for each built-in class above its class, of that class,
and beyond these only what is allowed. -/
structure Backed (allowed : BuiltinClass → Prop) (i : Instance) : Prop where
  once : i.backings.Nodup
  above : ∀ b ∈ i.cls.builtinAncestors, b ∈ i.backings
  only : ∀ b ∈ i.backings, b ∈ i.cls.builtinAncestors ∨ allowed b
  kinds : ∀ n ∈ i.natives, n.2.cls = n.1

variable {allowed allowed' : BuiltinClass → Prop} {i i' : Instance}

/-- More built-in classes may be allowed. -/
theorem Backed.mono (h : i.Backed allowed) (himp : ∀ b, allowed b → allowed' b) :
    i.Backed allowed' where
  once := h.once
  above := h.above
  only := fun b hb => (h.only b hb).imp_right (himp b)
  kinds := h.kinds

/-- Only the class and the native backings of an instance matter. -/
theorem Backed.of_natives (h : i.Backed allowed) (hcls : i'.cls = i.cls)
    (hnatives : i'.natives = i.natives) : i'.Backed allowed where
  once := by
    rw [backings, hnatives]
    exact h.once
  above := by
    rw [backings, hnatives, hcls]
    exact h.above
  only := by
    rw [backings, hnatives, hcls]
    exact h.only
  kinds := by
    rw [hnatives]
    exact h.kinds

/-- Setting a backing instance adds its class if it was missing. -/
theorem mem_backings_putNative (b : BuiltinClass) (d : Datum) (c : BuiltinClass)
    (natives : List (BuiltinClass × Datum)) :
    c ∈ (putNative b d natives).map (·.1) ↔ c ∈ natives.map (·.1) ∨ c = b := by
  induction natives with
  | nil => simp [putNative]
  | cons n rest ih =>
    obtain ⟨k, e⟩ := n
    unfold putNative
    by_cases hk : k = b
    · subst hk
      simp only [if_true, List.map_cons, List.mem_cons]
      refine ⟨Or.inl, ?_⟩
      rintro (h | rfl)
      · exact h
      · exact Or.inl rfl
    · simp only [if_neg hk, List.map_cons, List.mem_cons, ih, or_assoc]

/-- A backing replaces that of its class. -/
theorem nodup_putNative (b : BuiltinClass) (d : Datum) (natives : List (BuiltinClass × Datum))
    (h : (natives.map (·.1)).Nodup) : ((putNative b d natives).map (·.1)).Nodup := by
  induction natives with
  | nil => exact List.nodup_singleton b
  | cons n rest ih =>
    obtain ⟨k, e⟩ := n
    obtain ⟨hk, hrest⟩ := List.nodup_cons.mp h
    unfold putNative
    by_cases heq : k = b
    · rw [if_pos heq]
      exact List.nodup_cons.mpr ⟨hk, hrest⟩
    · rw [if_neg heq]
      refine List.nodup_cons.mpr ⟨fun hmem => ?_, ih hrest⟩
      rcases (mem_backings_putNative b d k rest).mp hmem with hmem | rfl
      · exact hk hmem
      · exact heq rfl

theorem mem_putNative {b : BuiltinClass} {d : Datum} {natives : List (BuiltinClass × Datum)}
    {n : BuiltinClass × Datum} (h : n ∈ putNative b d natives) : n ∈ natives ∨ n = (b, d) := by
  induction natives with
  | nil => exact Or.inr (List.mem_singleton.mp h)
  | cons native rest ih =>
    obtain ⟨k, e⟩ := native
    unfold putNative at h
    split at h
    · next heq =>
      rcases List.mem_cons.mp h with rfl | h
      · exact Or.inr (by rw [heq])
      · exact Or.inl (List.mem_cons_of_mem _ h)
    · rcases List.mem_cons.mp h with rfl | h
      · exact Or.inl List.mem_cons_self
      · exact (ih h).imp_left (List.mem_cons_of_mem _)

/-- Replacing a backing instance by another one of its class. -/
theorem Backed.setNative (h : i.Backed allowed) {b : BuiltinClass} {d : Datum} (hd : d.cls = b)
    (hb : b ∈ i.cls.builtinAncestors ∨ allowed b) : (i.setNative b d).Backed allowed where
  once := nodup_putNative b d i.natives h.once
  above := fun c hc => (mem_backings_putNative b d c i.natives).mpr (Or.inl (h.above c hc))
  only := fun c hc => by
    rcases (mem_backings_putNative b d c i.natives).mp hc with hc | rfl
    · exact h.only c hc
    · exact hb
  kinds := fun n hn => by
    rcases mem_putNative hn with hn | rfl
    · exact h.kinds n hn
    · exact hd

/-- A new instance is backed by the instances that it is made with. -/
theorem backed_create {c : Class} {natives : List (BuiltinClass × Datum)}
    (hkeys : natives.map (·.1) = c.builtinAncestors) (hkinds : ∀ n ∈ natives, n.2.cls = n.1) :
    (create c natives).Backed allowed where
  once := by
    rw [backings, create, hkeys]
    exact c.nodup_builtinAncestors
  above := fun b hb => by
    rw [backings, create, hkeys]
    exact hb
  only := fun b hb => by
    rw [backings, create, hkeys] at hb
    exact Or.inl hb
  kinds := hkinds

/-- Where there is a backing instance for a class, it is found and is of that class. -/
theorem Backed.native? (h : i.Backed allowed) {b : BuiltinClass}
    (hb : b ∈ i.cls.builtinAncestors) : ∃ d, i.native? b = some d ∧ d.cls = b := by
  obtain ⟨n, hn, hkey⟩ := List.mem_map.mp (h.above b hb)
  cases hf : i.natives.find? (·.1 == b) with
  | none => exact absurd (beq_iff_eq.mpr hkey) (List.find?_eq_none.mp hf n hn)
  | some found =>
    have hfound : found.1 = b := by simpa using List.find?_some hf
    refine ⟨found.2, by rw [Instance.native?, hf, Option.map_some], ?_⟩
    rw [h.kinds found (List.mem_of_find?_eq_some hf), hfound]

end Instance

end ScriptEngine
