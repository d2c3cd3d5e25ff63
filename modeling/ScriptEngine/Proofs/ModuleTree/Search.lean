import ScriptEngine.Proofs.ModuleTree.Linked

/-!
# Searching a tree of modules

The search for a path starts from a module and follows the links in all directions. It finds the
module of the same tree with that path if there is one, whatever cycles the links form: what it
finds is linked to where it began, and when it finds nothing, the modules that it has been to are
closed under links and so make up the whole tree.

An import looks for its module three times in three ways: from the importer, among the children of
the importer, and among all modules. For a module that is in place among the children of the
importer the three agree.
-/

namespace ScriptEngine.ModuleTree

variable {t : ModuleTree} {path : Path}

/-- Links stay inside of a tree. -/
theorem Linked.root_neighbour (h : t.Linked) {k n : ModuleId} (hn : n ∈ t.neighbours k) :
    t.root n = t.root k := by
  rcases List.mem_append.mp hn with hparent | hchild
  · have hp : (t.node k).parent? = some n := Option.mem_toList.mp hparent
    exact (root_of_some hp (h.parents k n hp).1).symm
  · exact (h.children k n hchild).2

/-! ## What is found -/

/-- What the search finds has every property that the modules waiting have and that links hand
on. -/
theorem searchFrom_some {P : ModuleId → Prop}
    (hlink : ∀ k, k < t.size → P k → ∀ n ∈ t.neighbours k, P n) {j : ModuleId}
    (visited pending : List ModuleId) (hpending : ∀ p ∈ pending, p < t.size → P p)
    (hj : t.searchFrom path visited pending = some j) :
    j < t.size ∧ (t.node j).path.components = path.components ∧ P j := by
  fun_induction searchFrom t path visited pending with
  | case1 visited => cases hj
  | case2 visited id pending hid hpath =>
    obtain rfl : id = j := Option.some.inj hj
    exact ⟨hid.1, Path.beq_iff.mp hpath, hpending id List.mem_cons_self hid.1⟩
  | case3 visited id pending hid hpath ih =>
    refine ih (fun p hp hlt => ?_) hj
    rcases List.mem_append.mp hp with hn | hp
    · exact hlink id hid.1 (hpending id List.mem_cons_self hid.1) p hn
    · exact hpending p (List.mem_cons_of_mem id hp) hlt
  | case4 visited id pending hid ih =>
    exact ih (fun p hp hlt => hpending p (List.mem_cons_of_mem id hp) hlt) hj

/-- The search finds a module of the same tree with the path. -/
theorem Linked.search?_some (h : t.Linked) {k j : ModuleId} (hj : t.search? k path = some j) :
    j < t.size ∧ (t.node j).path.components = path.components ∧ t.root j = t.root k := by
  have hlink : ∀ i, i < t.size → t.root i = t.root k →
      ∀ n ∈ t.neighbours i, t.root n = t.root k :=
    fun i _ hi n hn => (h.root_neighbour hn).trans hi
  exact searchFrom_some hlink [] [k] (fun p hp _ => by rw [List.mem_singleton.mp hp]) hj

/-! ## What is not found -/

/-- A search that finds nothing leaves behind some modules with other paths, which all links from
these modules lead back to. -/
theorem searchFrom_none (visited pending : List ModuleId)
    (hnone : t.searchFrom path visited pending = none) :
    ∃ seen : ModuleId → Prop, (∀ v ∈ visited, seen v) ∧ (∀ p ∈ pending, p < t.size → seen p) ∧
      ∀ v, seen v → v ∈ visited ∨ (t.node v).path.components ≠ path.components ∧
        ∀ n ∈ t.neighbours v, n < t.size → seen n := by
  fun_induction searchFrom t path visited pending with
  | case1 visited =>
    exact ⟨(· ∈ visited), fun v hv => hv, fun p hp => absurd hp List.not_mem_nil,
      fun v hv => Or.inl hv⟩
  | case2 visited id pending hid hpath => cases hnone
  | case3 visited id pending hid hpath ih =>
    obtain ⟨seen, hvisited, hpending, hclosed⟩ := ih hnone
    refine ⟨seen, fun v hv => hvisited v (List.mem_cons_of_mem id hv), fun p hp hlt => ?_,
      fun v hv => ?_⟩
    · rcases List.mem_cons.mp hp with rfl | hp
      · exact hvisited p List.mem_cons_self
      · exact hpending p (List.mem_append_right _ hp) hlt
    -- The module that was looked at last has all its neighbours waiting.
    · rcases hclosed v hv with hmem | hv
      · rcases List.mem_cons.mp hmem with rfl | hmem
        · refine Or.inr ⟨fun heq => hpath (Path.beq_iff.mpr heq), fun n hn hlt => ?_⟩
          exact hpending n (List.mem_append_left _ hn) hlt
        · exact Or.inl hmem
      · exact Or.inr hv
  | case4 visited id pending hid ih =>
    obtain ⟨seen, hvisited, hpending, hclosed⟩ := ih hnone
    refine ⟨seen, hvisited, fun p hp hlt => ?_, hclosed⟩
    rcases List.mem_cons.mp hp with rfl | hp
    · by_cases hv : p ∈ visited
      · exact hvisited p hv
      · exact absurd ⟨hlt, hv⟩ hid
    · exact hpending p hp hlt

/-- Modules that links do not lead out of are whole trees. -/
theorem Linked.closed (h : t.Linked) {seen : ModuleId → Prop}
    (hclosed : ∀ v, seen v → ∀ n ∈ t.neighbours v, n < t.size → seen n) {k : ModuleId}
    (hk : seen k) {j : ModuleId} (hroot : t.root j = t.root k) : seen j := by
  -- First up from `k` to the root, then from the root down to `j`.
  have hup : ∀ k, seen k → seen (t.root k) := by
    intro k
    induction k using Nat.strongRecOn with
    | _ k ih =>
      intro hk
      cases hp : (t.node k).parent? with
      | none =>
        rw [root_of_none hp]
        exact hk
      | some p =>
        have hlt := (h.parents k p hp).1
        rw [root_of_some hp hlt]
        have hmem : p ∈ t.neighbours k :=
          List.mem_append_left _ (Option.mem_toList.mpr hp)
        exact ih p hlt (hclosed k hk p hmem (h.parent_lt hp).1)
  have hdown : ∀ j, seen (t.root j) → seen j := by
    intro j
    induction j using Nat.strongRecOn with
    | _ j ih =>
      intro hj
      cases hp : (t.node j).parent? with
      | none =>
        rw [root_of_none hp] at hj
        exact hj
      | some p =>
        obtain ⟨hlt, hmem⟩ := h.parents j p hp
        rw [root_of_some hp hlt] at hj
        exact hclosed p (ih p hlt hj) j (List.mem_append_right _ hmem) (h.parent_lt hp).2
  refine hdown j ?_
  rw [hroot]
  exact hup k hk

/-- When the search finds nothing, no module of the tree has the path. -/
theorem Linked.search?_none (h : t.Linked) {k : ModuleId} (hk : k < t.size)
    (hnone : t.search? k path = none) {j : ModuleId} (hroot : t.root j = t.root k) :
    (t.node j).path.components ≠ path.components := by
  obtain ⟨seen, -, hpending, hseen⟩ := searchFrom_none [] [k] hnone
  have hother : ∀ v, seen v → (t.node v).path.components ≠ path.components ∧
      ∀ n ∈ t.neighbours v, n < t.size → seen n := fun v hv =>
    (hseen v hv).resolve_left List.not_mem_nil
  have hj : seen j :=
    h.closed (fun v hv => (hother v hv).2) (hpending k List.mem_cons_self hk) hroot
  exact (hother j hj).1

/-! ## The module of an import -/

/-- Once a module stands among the children of the importer, looking for its path there or, failing
that, among all modules leads to it. -/
theorem Linked.target (h : t.Linked) {importer child : ModuleId}
    (hmem : child ∈ (t.node importer).children)
    (hpath : (t.node child).path.components = path.components) :
    (t.findChild? importer path).or (t.lookup? path) = some child := by
  have hfind : t.findChild? importer path = some child := by
    cases hf : t.findChild? importer path with
    | none =>
      have hother := List.find?_eq_none.mp hf child hmem
      exact absurd (Path.beq_iff.mpr hpath) hother
    | some found =>
      obtain ⟨hlt, hroot⟩ := h.children importer child hmem
      have hfound := h.children importer found (List.mem_of_find?_eq_some hf)
      unfold findChild? at hf
      have hbeq := List.find?_some hf
      have hsame := Path.beq_iff.mp hbeq
      -- Children are of one tree, in which a path occurs only once.
      rw [h.paths found hfound.1 child hlt (hfound.2.trans hroot.symm) (hsame.trans hpath.symm)]
  rw [hfind]
  rfl

end ScriptEngine.ModuleTree
