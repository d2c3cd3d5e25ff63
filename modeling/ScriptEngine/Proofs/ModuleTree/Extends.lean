import ScriptEngine.Proofs.ModuleTree.Linked

/-!
# Modules only accumulate

Whatever a run does to the modules, those that were there stay there, under the same numbers, with
their paths, their parents and at least the children they had. So a module never leaves its tree.
-/

namespace ScriptEngine.ModuleTree

variable {t t' t'' : ModuleTree}

/-- Every module of `t` is still there in `t'`. -/
structure Extends (t t' : ModuleTree) : Prop where
  size : t.size ≤ t'.size
  path : ∀ k < t.size, (t'.node k).path = (t.node k).path
  parent : ∀ k < t.size, (t'.node k).parent? = (t.node k).parent?
  children : ∀ k < t.size, ∀ c ∈ (t.node k).children, c ∈ (t'.node k).children

theorem Extends.refl (t : ModuleTree) : t.Extends t :=
  ⟨Nat.le_refl _, fun _ _ => rfl, fun _ _ => rfl, fun _ _ _ hc => hc⟩

/-- A tree that is extended twice is extended. -/
theorem Extends.trans (h : t.Extends t') (h' : t'.Extends t'') : t.Extends t'' where
  size := Nat.le_trans h.size h'.size
  path := fun k hk => (h'.path k (Nat.lt_of_lt_of_le hk h.size)).trans (h.path k hk)
  parent := fun k hk => (h'.parent k (Nat.lt_of_lt_of_le hk h.size)).trans (h.parent k hk)
  children := fun k hk c hc =>
    h'.children k (Nat.lt_of_lt_of_le hk h.size) c (h.children k hk c hc)

/-- Modules stay in their trees. -/
theorem Extends.root (h : t.Extends t') {k : ModuleId} (hk : k < t.size) : t'.root k = t.root k :=
  root_congr k fun j hj => h.parent j (Nat.lt_of_le_of_lt hj hk)

/-- Changing a module without its path, its parent and its links extends the tree. -/
theorem extends_modify (t : ModuleTree) (id : ModuleId) {f : ModuleNode → ModuleNode}
    (hf : ∀ node, (f node).path = node.path ∧ (f node).parent? = node.parent? ∧
      ∀ c ∈ node.children, c ∈ (f node).children) : t.Extends (t.modify id f) := by
  have hnode : ∀ k, ((t.modify id f).node k).path = (t.node k).path ∧
      ((t.modify id f).node k).parent? = (t.node k).parent? ∧
      ∀ c ∈ (t.node k).children, c ∈ ((t.modify id f).node k).children := by
    intro k
    rw [node_modify]
    split
    · exact hf _
    · exact ⟨rfl, rfl, fun c hc => hc⟩
  exact ⟨Nat.le_of_eq (size_modify _ _ _).symm, fun k _ => (hnode k).1, fun k _ => (hnode k).2.1,
    fun k _ => (hnode k).2.2⟩

theorem extends_addChild (t : ModuleTree) (id child : ModuleId) :
    t.Extends (t.addChild id child) := by
  refine t.extends_modify id fun node => ?_
  split
  · exact ⟨rfl, rfl, fun c hc => hc⟩
  · exact ⟨rfl, rfl, fun c hc => List.mem_append_left _ hc⟩

theorem extends_create (t : ModuleTree) (parent? : Option ModuleId) (path : Path)
    (globals exports : FrameId) : t.Extends (t.create parent? path globals exports).2 where
  size := by
    rw [size_create]
    exact Nat.le_succ _
  path := fun k hk => by rw [node_create_of_lt hk]
  parent := fun k hk => by rw [node_create_of_lt hk]
  children := fun k hk c hc => by rwa [node_create_of_lt hk]

theorem extends_sprout (t : ModuleTree) (importer : ModuleId) (path : Path)
    (globals exports : FrameId) : t.Extends (t.sprout importer path globals exports) :=
  (t.extends_create _ _ _ _).trans (extends_addChild _ _ _)

end ScriptEngine.ModuleTree
