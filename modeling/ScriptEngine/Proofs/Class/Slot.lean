import ScriptEngine.Class
import ScriptEngine.Proofs.Scope.Mark

/-!
# Classes above a class, and the slots of an instance

A slot is found by the name of its class, and only the first slot with a name is ever found. So a
change to the slots of an instance keeps their names, leaves a slot alone whose name an earlier
slot has, and opens a slot again only if that is allowed (`Instance.Keeps`). Once an instance is
settled, it is allowed only where a method of some class above asks for the initializer of a
superclass with that name (`Class.Reopens`).
-/

namespace ScriptEngine

/-- What is looked up stands in the list. -/
theorem mem_of_lookup {κ α : Type} [BEq κ] [LawfulBEq κ] {key : κ} {a : α} {l : List (κ × α)}
    (h : l.lookup key = some a) : (key, a) ∈ l := by
  induction l with
  | nil => simp at h
  | cons entry l ih =>
    obtain ⟨n, b⟩ := entry
    rw [List.lookup_cons] at h
    split at h
    · next heq =>
      simp only [beq_iff_eq] at heq
      simp only [Option.some.injEq] at h
      subst heq h
      exact List.mem_cons_self
    · exact List.mem_cons_of_mem _ (ih h)

namespace Class

mutual

/-- A class and all classes of the program above it. -/
def lineage : Class → List Class
  | mk id name superclasses methods => mk id name superclasses methods :: ancestors superclasses

/-- The classes of the program among superclasses, and all above them. -/
def ancestors : List Superclass → List Class
  | [] => []
  | .user c :: rest => lineage c ++ ancestors rest
  | .builtin _ :: rest => ancestors rest

end

theorem mem_lineage_self (c : Class) : c ∈ c.lineage := by
  cases c
  exact List.mem_cons_self

/-- The lineage of a superclass lies among the ancestors. -/
theorem lineage_subset_ancestors {c : Class} {superclasses : List Superclass}
    (h : Superclass.user c ∈ superclasses) : c.lineage ⊆ ancestors superclasses := by
  induction superclasses with
  | nil => simp at h
  | cons s rest ih =>
    intro d hd
    rcases List.mem_cons.mp h with rfl | hrest
    · exact List.mem_append_left _ hd
    · cases s with
      | user c' => exact List.mem_append_right _ (ih hrest hd)
      | builtin b => exact ih hrest hd

/-- The lineage of a superclass is part of that of the class. -/
theorem lineage_subset_of_superclass {c d : Class} (h : Superclass.user c ∈ d.superclasses) :
    c.lineage ⊆ d.lineage := by
  cases d with
  | mk id name superclasses methods =>
    exact fun e he => List.mem_cons_of_mem _ (lineage_subset_ancestors h he)

mutual

/-- The lineage of a class in the lineage of another is part of it. -/
theorem lineage_subset (d : Class) : ∀ c : Class, d ∈ c.lineage → d.lineage ⊆ c.lineage
  | mk id name superclasses methods => fun h => by
    rcases List.mem_cons.mp h with rfl | h
    · exact fun e he => he
    · exact fun e he => List.mem_cons_of_mem _ (ancestors_subset d superclasses h he)

theorem ancestors_subset (d : Class) :
    ∀ superclasses : List Superclass, d ∈ ancestors superclasses →
      d.lineage ⊆ ancestors superclasses
  | [] => fun h => by simp [ancestors] at h
  | .user c :: rest => fun h e he => by
    rcases List.mem_append.mp h with h | h
    · exact List.mem_append_left _ (lineage_subset d c h he)
    · exact List.mem_append_right _ (ancestors_subset d rest h he)
  | .builtin _ :: rest => fun h => ancestors_subset d rest h

end

mutual

/-- A method that is found is declared by the class or one above it. -/
theorem mem_methods_of_findMethod? {method : String} {f : Function} :
    ∀ c : Class, c.findMethod? method = some (.user f) →
      ∃ d ∈ c.lineage, (method, f) ∈ d.methods
  | mk id name superclasses methods => fun h => by
    unfold findMethod? at h
    split at h
    · next g hg =>
      simp only [Option.some.injEq, Method.user.injEq] at h
      subst h
      exact ⟨mk id name superclasses methods, mem_lineage_self _, mem_of_lookup hg⟩
    · obtain ⟨d, hd, hm⟩ := mem_methods_of_findInherited? superclasses h
      exact ⟨d, List.mem_cons_of_mem _ hd, hm⟩

/-- A method of the program that is found is declared by an ancestor. -/
theorem mem_methods_of_findInherited? {method : String} {f : Function} :
    ∀ superclasses : List Superclass, findInherited? method superclasses = some (.user f) →
      ∃ d ∈ ancestors superclasses, (method, f) ∈ d.methods
  | [] => fun h => by simp [findInherited?] at h
  | .user c :: rest => fun h => by
    unfold findInherited? at h
    split at h
    · next m hm =>
      simp only [Option.some.injEq] at h
      subst h
      obtain ⟨d, hd, hmem⟩ := mem_methods_of_findMethod? c hm
      exact ⟨d, List.mem_append_left _ hd, hmem⟩
    · obtain ⟨d, hd, hmem⟩ := mem_methods_of_findInherited? rest h
      exact ⟨d, List.mem_append_right _ hd, hmem⟩
  | .builtin b :: rest => fun h => by
    unfold findInherited? at h
    split at h
    · simp at h
    · exact mem_methods_of_findInherited? rest h

end

mutual

/-- A method that a built-in class answers is found in a class above. -/
theorem mem_superclasses_of_findMethod? {method : String} {b : BuiltinClass} :
    ∀ c : Class, c.findMethod? method = some (.builtin b) →
      ∃ d ∈ c.lineage, Superclass.builtin b ∈ d.superclasses
  | mk id name superclasses methods => fun h => by
    unfold findMethod? at h
    split at h
    · simp at h
    · rcases mem_superclasses_of_findInherited? superclasses h with hb | ⟨d, hd, hb⟩
      · exact ⟨mk id name superclasses methods, mem_lineage_self _, hb⟩
      · exact ⟨d, List.mem_cons_of_mem _ hd, hb⟩

/-- A built-in class in which a method is found is a superclass of an ancestor or one of the given
ones. -/
theorem mem_superclasses_of_findInherited? {method : String} {b : BuiltinClass} :
    ∀ superclasses : List Superclass, findInherited? method superclasses = some (.builtin b) →
      Superclass.builtin b ∈ superclasses ∨
        ∃ d ∈ ancestors superclasses, Superclass.builtin b ∈ d.superclasses
  | [] => fun h => by simp [findInherited?] at h
  | .user c :: rest => fun h => by
    unfold findInherited? at h
    split at h
    · next m hm =>
      simp only [Option.some.injEq] at h
      subst h
      obtain ⟨d, hd, hb⟩ := mem_superclasses_of_findMethod? c hm
      exact Or.inr ⟨d, List.mem_append_left _ hd, hb⟩
    -- The class does not have it, so it comes from one further right or from above those.
    · rcases mem_superclasses_of_findInherited? rest h with hb | ⟨d, hd, hb⟩
      · exact Or.inl (List.mem_cons_of_mem _ hb)
      · exact Or.inr ⟨d, List.mem_append_right _ hd, hb⟩
  | .builtin b' :: rest => fun h => by
    unfold findInherited? at h
    split at h
    · simp only [Option.some.injEq, Method.builtin.injEq] at h
      exact Or.inl (h ▸ List.mem_cons_self)
    · rcases mem_superclasses_of_findInherited? rest h with hb | ⟨d, hd, hb⟩
      · exact Or.inl (List.mem_cons_of_mem _ hb)
      · exact Or.inr ⟨d, hd, hb⟩

end

/-- Some method of the class asks for the initializer of a superclass. -/
def AsksInit (c : Class) : Prop :=
  Scope.AsksInit (c.methods.map (·.2.decl))

/-- A program can open the slot with a name again: a class in the lineage asks for the initializer
of a superclass of its own, and the name is that of one of its superclasses with an initializer, or
of a built-in class above it, whose initializer its superclasses inherit. -/
def Reopens (c : Class) (name : String) : Prop :=
  ∃ d ∈ c.lineage, d.AsksInit ∧
    ((∃ s ∈ d.superclasses, s.hasOwnInit = true ∧ s.name = name) ∨
      ∃ e ∈ d.lineage, ∃ b, Superclass.builtin b ∈ e.superclasses ∧ b.name = name)

end Class

/-! ## Slots -/

namespace Instance

/-- The slot at a position is the first with its name. -/
def First (slots : List StatusSlot) (n : Nat) : Prop :=
  ∀ k < n, slots[k]?.map (·.className) ≠ slots[n]?.map (·.className)

/-- Which slot is the first of its name depends on the names alone. -/
theorem first_congr {slots slots' : List StatusSlot}
    (h : slots'.map (·.className) = slots.map (·.className)) (n : Nat) :
    First slots' n ↔ First slots n := by
  have hname : ∀ k : Nat, slots'[k]?.map (·.className) = slots[k]?.map (·.className) := by
    intro k
    rw [← List.getElem?_map, ← List.getElem?_map, h]
  simp only [First, hname]

theorem updateSlot_names (name : String) (status : InitStatus) (slots : List StatusSlot) :
    (updateSlot name status slots).map (·.className) = slots.map (·.className) := by
  induction slots with
  | nil => rfl
  | cons slot rest ih =>
    unfold updateSlot
    split
    · rfl
    · simp [ih]

/-- A slot after an update: it is as before, or it is the first with the name. -/
theorem updateSlot_getElem? (name : String) (status : InitStatus) (slots : List StatusSlot)
    (n : Nat) :
    (updateSlot name status slots)[n]? = slots[n]? ∨
      slots[n]?.map (·.className) = some name ∧ First slots n ∧
        (updateSlot name status slots)[n]? = some ⟨name, status⟩ := by
  induction slots generalizing n with
  | nil => exact Or.inl rfl
  | cons slot rest ih =>
    unfold updateSlot
    split
    · next heq =>
      simp only [beq_iff_eq] at heq
      cases n with
      | zero =>
        subst heq
        exact Or.inr ⟨by simp, fun k hk => absurd hk (by simp), by simp⟩
      | succ n => exact Or.inl (by simp)
    · next hne =>
      simp only [beq_iff_eq] at hne
      cases n with
      | zero => exact Or.inl (by simp)
      | succ n =>
        rcases ih n with h | ⟨hname, hfirst, hnew⟩
        · exact Or.inl (by simpa using h)
        · refine Or.inr ⟨by simpa using hname, ?_, by simpa using hnew⟩
          -- The slot in front has another name, so being first in the rest is being first in all.
          intro k hk
          cases k with
          | zero =>
            intro heq
            simp only [List.getElem?_cons_zero, List.getElem?_cons_succ, Option.map_some] at heq
            rw [hname] at heq
            exact hne (by simpa using heq)
          | succ k => simpa using hfirst k (Nat.lt_of_succ_lt_succ hk)

/-- The first slot with the name takes the new status. -/
theorem updateSlot_first {name : String} (status : InitStatus) {slots : List StatusSlot} {n : Nat}
    (hname : slots[n]?.map (·.className) = some name) (hfirst : First slots n) :
    (updateSlot name status slots)[n]? = some ⟨name, status⟩ := by
  induction slots generalizing n with
  | nil => simp at hname
  | cons slot rest ih =>
    unfold updateSlot
    cases n with
    | zero =>
      have heq : slot.className = name := by simpa using hname
      simp [heq]
    | succ n =>
      -- Had the slot in front this name, the one at `n + 1` would not be the first.
      have hne : slot.className ≠ name := by
        intro heq
        refine hfirst 0 (Nat.succ_pos n) ?_
        rw [hname]
        simp [heq]
      have hrest : First rest n := fun k hk => by
        simpa using hfirst (k + 1) (Nat.succ_lt_succ hk)
      have hnew := ih (by simpa using hname) hrest
      simpa [hne] using hnew

/-- What may happen to an instance: its slots are closed, and only some of them are ever opened
again. -/
structure Keeps (opens : String → Prop) (i i' : Instance) : Prop where
  cls : i'.cls = i.cls
  names : i'.statuses.map (·.className) = i.statuses.map (·.className)
  slots : ∀ n a b, i.statuses[n]? = some a → i'.statuses[n]? = some b →
    b = a ∨ First i.statuses n ∧ (b.status = .initialized ∨ opens a.className)

/-- The slots that may be opened: any one while the instance is being made, and once it is
settled only those that the program can open. -/
def Opens (settled : Prop) (i : Instance) (name : String) : Prop :=
  settled → i.cls.Reopens name

variable {opens opens' : String → Prop} {i i' i₁ i₂ i₃ : Instance}

/-- Only the class and the statuses of an instance matter. -/
theorem Keeps.of_statuses (hcls : i'.cls = i.cls) (h : i'.statuses = i.statuses) :
    Keeps opens i i' where
  cls := hcls
  names := by rw [h]
  slots := fun n a b ha hb => by
    rw [h, ha] at hb
    exact Or.inl (by simpa using hb.symm)

theorem Keeps.refl (opens : String → Prop) (i : Instance) : Keeps opens i i :=
  .of_statuses rfl rfl

theorem Keeps.className (h : Keeps opens i i') {n : Nat} {a b : StatusSlot}
    (ha : i.statuses[n]? = some a) (hb : i'.statuses[n]? = some b) :
    b.className = a.className := by
  have hn := congrArg (·[n]?) h.names
  simpa [List.getElem?_map, ha, hb] using hn

theorem Keeps.exists_slot (h : Keeps opens i i') {n : Nat} {b : StatusSlot}
    (hb : i'.statuses[n]? = some b) : ∃ a, i.statuses[n]? = some a := by
  have hn := congrArg (·[n]?) h.names
  simp only [List.getElem?_map, hb, Option.map_some] at hn
  cases ha : i.statuses[n]? with
  | none => simp [ha] at hn
  | some a => exact ⟨a, rfl⟩

/-- Slots that are kept twice are kept. -/
theorem Keeps.trans (h₁ : Keeps opens i₁ i₂) (h₂ : Keeps opens i₂ i₃) : Keeps opens i₁ i₃ where
  cls := h₂.cls.trans h₁.cls
  names := h₂.names.trans h₁.names
  slots := fun n a c ha hc => by
    obtain ⟨b, hb⟩ := h₂.exists_slot hc
    -- What was done last counts: if the second change left the slot alone, it is up to the first.
    rcases h₂.slots n b c hb hc with rfl | ⟨hfirst, hopen⟩
    · exact h₁.slots n a c ha hb
    · refine Or.inr ⟨(first_congr h₁.names n).mp hfirst, ?_⟩
      rwa [h₁.className ha hb] at hopen

theorem Keeps.weaken (h : Keeps opens i i') (himp : ∀ name, opens name → opens' name) :
    Keeps opens' i i' where
  cls := h.cls
  names := h.names
  slots := fun n a b ha hb =>
    (h.slots n a b ha hb).imp_right fun hb => ⟨hb.1, hb.2.imp_right (himp _)⟩

/-- Recording progress keeps an instance, if the class is initialized or its slot is one that may
be opened. -/
theorem keeps_setStatus (i : Instance) (name : String) (status : InitStatus)
    (h : status = .initialized ∨ opens name) : Keeps opens i (i.setStatus name status) where
  cls := rfl
  names := updateSlot_names _ _ _
  slots := fun n a b ha hb => by
    rcases updateSlot_getElem? name status i.statuses n with hsame | ⟨hname, hfirst, hnew⟩
    · exact Or.inl (by simpa [setStatus, hsame, ha] using hb.symm)
    · have hbnew : b = ⟨name, status⟩ := by simpa [setStatus, hnew] using hb.symm
      have haname : a.className = name := by simpa [ha] using hname
      rw [haname, hbnew]
      exact Or.inr ⟨hfirst, h⟩

/-- The slot that is found under a name is initialized. -/
def Done (i : Instance) (name : String) : Prop :=
  ∀ n a, i.statuses[n]? = some a → a.className = name → First i.statuses n →
    a.status = .initialized

theorem done_setStatus (i : Instance) (name : String) :
    (i.setStatus name .initialized).Done name := by
  intro n a ha hname hfirst
  have hnames := updateSlot_names name .initialized i.statuses
  have hold : i.statuses[n]?.map (·.className) = some name := by
    rw [← List.getElem?_map, ← hnames, List.getElem?_map]
    simp only [setStatus] at ha
    rw [ha, Option.map_some, hname]
  have hnew := updateSlot_first .initialized hold ((first_congr hnames n).mp hfirst)
  simp only [setStatus] at ha
  rw [hnew] at ha
  rw [← Option.some.inj ha]

/-- What is done and not opened again stays done. -/
theorem Keeps.done (h : Keeps opens i i') {name : String} (hd : i.Done name)
    (hopen : ¬ opens name) : i'.Done name := by
  intro n b hb hname hfirst
  obtain ⟨a, ha⟩ := h.exists_slot hb
  have haname : a.className = name := (h.className ha hb).symm.trans hname
  rcases h.slots n a b ha hb with rfl | ⟨-, hdone | hopens⟩
  · exact hd n b ha hname ((first_congr h.names n).mp hfirst)
  · exact hdone
  · exact absurd (haname ▸ hopens) hopen

/-- A slot that was opened in between counts as kept if it is initialized in the end. -/
theorem Keeps.through {name : String} {status : InitStatus}
    (h : Keeps opens (i.setStatus name status) i') (hd : i'.Done name) : Keeps opens i i' where
  cls := h.cls
  names := h.names.trans (updateSlot_names _ _ _)
  slots := fun n a b ha hb => by
    have hnames := updateSlot_names name status i.statuses
    rcases updateSlot_getElem? name status i.statuses n with hsame | ⟨hname, hfirst, hnew⟩
    · rcases h.slots n a b (hsame.trans ha) hb with heq | ⟨hfirst, hslot⟩
      · exact Or.inl heq
      · exact Or.inr ⟨(first_congr hnames n).mp hfirst, hslot⟩
    -- This is the slot that was opened. It is the first with its name, so it is done in the end.
    · refine Or.inr ⟨hfirst, Or.inl (hd n b hb ?_ ?_)⟩
      · exact h.className hnew hb
      · exact (first_congr (h.names.trans hnames) n).mpr hfirst

end Instance

end ScriptEngine
