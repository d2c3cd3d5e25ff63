import ScriptEngine.ModuleTree
import ScriptEngine.Proofs.FileSystem.Spelling
import ScriptEngine.Proofs.Heap.Fit

/-!
# Trees of modules

The modules that imported each other first form trees: from every module the way along the parents
leads to a root, which no other module imported first. The lists of children hold more than the
trees do, since a module that is imported again is linked again, but no link leads out of a tree.

`Linked` is what holds of the modules of a session at every moment, and there is one lemma for each
way in which the modules change: a new root, a new module below an importer, another link to a
module of the same tree, and changes that touch no link. `search?_some` and `search?_none` say that
the search from a module finds the module of its tree with a path if there is one.
-/

namespace ScriptEngine

/-- Paths are the same if their components are. -/
theorem Path.beq_iff {a b : Path} : (a == b) = true ↔ a.components = b.components := by
  show (a.components == b.components) = true ↔ _
  exact beq_iff_eq

namespace ModuleTree

/-! ## Reading modules after a change -/

/-- A changed module is found changed, if it is there, and the others as before. -/
theorem node_modify (t : ModuleTree) (id : ModuleId) (f : ModuleNode → ModuleNode) (k : ModuleId) :
    (t.modify id f).node k = if k = id ∧ id < t.size then f (t.node k) else t.node k :=
  getD_modify _ _ _ _ _

theorem size_modify (t : ModuleTree) (id : ModuleId) (f : ModuleNode → ModuleNode) :
    (t.modify id f).size = t.size := by
  simp [modify, size]

/-- A new module is found under its number, and the others as before. -/
theorem node_create (t : ModuleTree) (parent? : Option ModuleId) (path : Path)
    (globals exports : FrameId) (k : ModuleId) :
    (t.create parent? path globals exports).2.node k =
      if k = t.size then ⟨path, globals, exports, ∅, parent?, [], .loading⟩ else t.node k :=
  getD_push _ _ _ _

theorem size_create (t : ModuleTree) (parent? : Option ModuleId) (path : Path)
    (globals exports : FrameId) :
    (t.create parent? path globals exports).2.size = t.size + 1 := by
  simp [create, size]

/-- Beyond the last module there is only the default. -/
theorem node_of_size_le {t : ModuleTree} {k : ModuleId} (h : t.size ≤ k) : t.node k = default := by
  rw [node, Array.getD_eq_getD_getElem?, Array.getElem?_eq_none h, Option.getD_none]

theorem size_addChild (t : ModuleTree) (id child : ModuleId) :
    (t.addChild id child).size = t.size :=
  size_modify _ _ _

/-- A link changes nothing but the children of one module. -/
theorem node_addChild (t : ModuleTree) (id child k : ModuleId) :
    ∃ children, (t.addChild id child).node k = { t.node k with children := children } ∧
      (∀ c, c ∈ children ↔ c ∈ (t.node k).children ∨ k = id ∧ id < t.size ∧ c = child) ∧
      ((t.node k).children.Nodup → children.Nodup) := by
  rw [addChild, node_modify]
  by_cases hk : k = id ∧ id < t.size
  · rw [if_pos hk]
    by_cases hc : child ∈ (t.node k).children
    · rw [if_pos hc]
      refine ⟨(t.node k).children, rfl, fun c => ⟨Or.inl, ?_⟩, fun hn => hn⟩
      rintro (h | ⟨-, -, rfl⟩)
      · exact h
      · exact hc
    · rw [if_neg hc]
      refine ⟨(t.node k).children ++ [child], rfl, fun c => ?_, fun hn => ?_⟩
      · obtain ⟨rfl, hlt⟩ := hk
        simp [hlt]
      · exact List.nodup_append.mpr ⟨hn, by simp, fun a ha b hb => by
          rw [List.mem_singleton.mp hb]
          exact fun heq => hc (heq ▸ ha)⟩
  · rw [if_neg hk]
    refine ⟨(t.node k).children, rfl, fun c => ⟨Or.inl, ?_⟩, fun hn => hn⟩
    rintro (h | ⟨hid, hlt, -⟩)
    · exact h
    · exact absurd ⟨hid, hlt⟩ hk

/-! ## Roots -/

/-- The root of the tree that a module belongs to. -/
def root (t : ModuleTree) (id : ModuleId) : ModuleId :=
  match (t.node id).parent? with
  | some p => if p < id then t.root p else id
  | none => id
termination_by id

/-- A module without a parent is its own root. -/
theorem root_of_none {t : ModuleTree} {k : ModuleId} (h : (t.node k).parent? = none) :
    t.root k = k := by
  rw [root, h]

/-- A module with a parent has the root of its parent. -/
theorem root_of_some {t : ModuleTree} {k p : ModuleId} (h : (t.node k).parent? = some p)
    (hlt : p < k) : t.root k = t.root p := by
  rw [root, h]
  exact if_pos hlt

/-- The root depends on nothing but the parents on the way to it. -/
theorem root_congr {t t' : ModuleTree} (k : ModuleId)
    (h : ∀ j ≤ k, (t'.node j).parent? = (t.node j).parent?) : t'.root k = t.root k := by
  induction k using Nat.strongRecOn with
  | _ k ih =>
    rw [root, root, h k (Nat.le_refl k)]
    split
    · next p _ =>
      by_cases hlt : p < k
      · rw [if_pos hlt, if_pos hlt]
        exact ih p hlt fun j hj => h j (Nat.le_trans hj (Nat.le_of_lt hlt))
      · rw [if_neg hlt, if_neg hlt]
    · rfl

/-- The root of a module was made before it, if it is another. -/
theorem root_le (t : ModuleTree) (k : ModuleId) : t.root k ≤ k := by
  induction k using Nat.strongRecOn with
  | _ k ih =>
    rw [root]
    split
    · next p _ =>
      by_cases hlt : p < k
      · rw [if_pos hlt]
        exact Nat.le_trans (ih p hlt) (Nat.le_of_lt hlt)
      · exact Nat.le_of_eq (if_neg hlt)
    · exact Nat.le_refl k

/-! ## Linked modules -/

/-- Every module is a child of its parent, which is older; children are modules of the same tree,
each listed once; and no two modules of a tree have the same path. -/
structure Linked (t : ModuleTree) : Prop where
  parents : ∀ k p, (t.node k).parent? = some p → p < k ∧ k ∈ (t.node p).children
  children : ∀ k, ∀ c ∈ (t.node k).children, c < t.size ∧ t.root c = t.root k
  once : ∀ k, (t.node k).children.Nodup
  paths : ∀ j < t.size, ∀ k < t.size, t.root j = t.root k →
    (t.node j).path.components = (t.node k).path.components → j = k

/-- There is nothing to link in the empty tree. -/
theorem Linked.empty : Linked .empty where
  parents := fun k p h => by cases h
  children := fun k c h => by cases h
  once := fun k => List.nodup_nil
  paths := fun j hj => absurd hj (Nat.not_lt_zero j)

/-- The root of a tree has no parent. -/
theorem Linked.parent?_root {t : ModuleTree} (h : t.Linked) (k : ModuleId) :
    (t.node (t.root k)).parent? = none := by
  induction k using Nat.strongRecOn with
  | _ k ih =>
    cases hp : (t.node k).parent? with
    | none => rw [root_of_none hp, hp]
    | some p =>
      have hlt := (h.parents k p hp).1
      rw [root_of_some hp hlt]
      exact ih p hlt

/-- The modules that no other module imported first. -/
def roots (t : ModuleTree) : List ModuleId :=
  (List.range t.size).filter fun k => (t.node k).parent?.isNone

/-- The root of a module is one of the roots. -/
theorem Linked.root_mem_roots {t : ModuleTree} (h : t.Linked) {k : ModuleId} (hk : k < t.size) :
    t.root k ∈ t.roots := by
  refine List.mem_filter.mpr ⟨List.mem_range.mpr (Nat.lt_of_le_of_lt (root_le t k) hk), ?_⟩
  rw [h.parent?_root]
  rfl

/-- Modules stay linked if no path and no link is changed. -/
theorem Linked.modify {t : ModuleTree} (h : t.Linked) {id : ModuleId} {f : ModuleNode → ModuleNode}
    (hf : ∀ node, (f node).path = node.path ∧ (f node).parent? = node.parent? ∧
      (f node).children = node.children) : (t.modify id f).Linked := by
  have hlinks : ∀ k, ((t.modify id f).node k).path = (t.node k).path ∧
      ((t.modify id f).node k).parent? = (t.node k).parent? ∧
      ((t.modify id f).node k).children = (t.node k).children := by
    intro k
    rw [node_modify]
    split
    · exact hf _
    · exact ⟨rfl, rfl, rfl⟩
  have hroot : ∀ k, (t.modify id f).root k = t.root k := fun k =>
    root_congr k fun j _ => (hlinks j).2.1
  refine ⟨fun k p hp => ?_, fun k c hc => ?_, fun k => ?_, fun j hj k hk hr heq => ?_⟩
  · rw [(hlinks k).2.1] at hp
    rw [(hlinks p).2.2]
    exact h.parents k p hp
  · rw [(hlinks k).2.2] at hc
    rw [size_modify, hroot, hroot]
    exact h.children k c hc
  · rw [(hlinks k).2.2]
    exact h.once k
  · rw [size_modify] at hj hk
    rw [hroot, hroot] at hr
    rw [(hlinks j).1, (hlinks k).1] at heq
    exact h.paths j hj k hk hr heq

/-- A link to another module of the same tree. -/
theorem Linked.addChild {t : ModuleTree} (h : t.Linked) {id child : ModuleId}
    (hchild : child < t.size) (hroot : t.root child = t.root id) :
    (t.addChild id child).Linked := by
  have hnode := node_addChild t id child
  have hparent : ∀ k, ((t.addChild id child).node k).parent? = (t.node k).parent? := by
    intro k
    obtain ⟨children, heq, -, -⟩ := hnode k
    rw [heq]
  have hroots : ∀ k, (t.addChild id child).root k = t.root k := fun k =>
    root_congr k fun j _ => hparent j
  refine ⟨fun k p hp => ?_, fun k c hc => ?_, fun k => ?_, fun j hj k hk hr heq => ?_⟩
  · rw [hparent] at hp
    obtain ⟨hlt, hmem⟩ := h.parents k p hp
    obtain ⟨children, heq, hiff, -⟩ := hnode p
    rw [heq]
    exact ⟨hlt, (hiff k).mpr (Or.inl hmem)⟩
  · obtain ⟨children, heq, hiff, -⟩ := hnode k
    rw [heq] at hc
    rw [size_addChild, hroots, hroots]
    rcases (hiff c).mp hc with hold | ⟨rfl, -, rfl⟩
    · exact h.children k c hold
    · exact ⟨hchild, hroot⟩
  · obtain ⟨children, heq, -, hnodup⟩ := hnode k
    rw [heq]
    exact hnodup (h.once k)
  · rw [size_addChild] at hj hk
    rw [hroots, hroots] at hr
    obtain ⟨_, hj', -, -⟩ := hnode j
    obtain ⟨_, hk', -, -⟩ := hnode k
    rw [hj', hk'] at heq
    exact h.paths j hj k hk hr heq

/-- Links lead to modules that are there. -/
theorem Linked.parent_lt {t : ModuleTree} (h : t.Linked) {k p : ModuleId}
    (hp : (t.node k).parent? = some p) : p < t.size ∧ k < t.size := by
  obtain ⟨hlt, hmem⟩ := h.parents k p hp
  have hk := (h.children p k hmem).1
  exact ⟨Nat.lt_trans hlt hk, hk⟩

/-! ## New modules -/

/-- What is linked stays so when one module is added, as a root or as a child of its parent, that
no other module of its tree shares its path with. -/
theorem Linked.grow {t t' : ModuleTree} (h : t.Linked) (hsize : t'.size = t.size + 1)
    (hold : ∀ k < t.size, (t'.node k).path = (t.node k).path ∧
      (t'.node k).parent? = (t.node k).parent?)
    (hkept : ∀ k, ∀ c ∈ (t.node k).children, c ∈ (t'.node k).children)
    (hadded : ∀ k, ∀ c ∈ (t'.node k).children,
      c ∈ (t.node k).children ∨ c = t.size ∧ (t'.node t.size).parent? = some k)
    (honce : ∀ k, (t'.node k).children.Nodup)
    (hparent : ∀ p, (t'.node t.size).parent? = some p → p < t.size ∧ t.size ∈ (t'.node p).children)
    (hpath : ∀ j < t.size, t.root j = t'.root t.size →
      (t.node j).path.components ≠ (t'.node t.size).path.components) : t'.Linked := by
  have hroot : ∀ k < t.size, t'.root k = t.root k := fun k hk =>
    root_congr k fun j hj => (hold j (Nat.lt_of_le_of_lt hj hk)).2
  -- A module is an older one, or the new one, or it is not there at all.
  have hcases : ∀ k, k < t.size ∨ k = t.size ∨ t'.node k = default := by
    intro k
    rcases Nat.lt_trichotomy k t.size with hlt | heq | hgt
    · exact Or.inl hlt
    · exact Or.inr (Or.inl heq)
    · exact Or.inr (Or.inr (node_of_size_le (hsize ▸ hgt)))
  refine ⟨fun k p hp => ?_, fun k c hc => ?_, honce, fun j hj k hk hr heq => ?_⟩
  · rcases hcases k with hk | rfl | hk
    · rw [(hold k hk).2] at hp
      obtain ⟨hlt, hmem⟩ := h.parents k p hp
      exact ⟨hlt, hkept p k hmem⟩
    · exact hparent p hp
    · rw [hk] at hp
      cases hp
  · rw [hsize]
    rcases hadded k c hc with hmem | ⟨rfl, hp⟩
    · obtain ⟨hlt, hsame⟩ := h.children k c hmem
      have hk : k < t.size := Nat.lt_of_not_le fun hle => by
        rw [node_of_size_le hle] at hmem
        cases hmem
      rw [hroot c hlt, hroot k hk]
      exact ⟨Nat.lt_succ_of_lt hlt, hsame⟩
    · exact ⟨Nat.lt_succ_self _, root_of_some hp (hparent k hp).1⟩
  · rw [hsize] at hj hk
    rcases Nat.lt_or_eq_of_le (Nat.le_of_lt_succ hj) with hj | rfl
    · rcases Nat.lt_or_eq_of_le (Nat.le_of_lt_succ hk) with hk | rfl
      · rw [hroot j hj, hroot k hk] at hr
        rw [(hold j hj).1, (hold k hk).1] at heq
        exact h.paths j hj k hk hr heq
      · rw [hroot j hj] at hr
        rw [(hold j hj).1] at heq
        exact absurd heq (hpath j hj hr)
    · rcases Nat.lt_or_eq_of_le (Nat.le_of_lt_succ hk) with hk | rfl
      · rw [hroot k hk] at hr
        rw [(hold k hk).1] at heq
        exact absurd heq.symm (hpath k hk hr.symm)
      · rfl

section

variable {t : ModuleTree} {path : Path} {globals exports : FrameId}

/-- A new module is being loaded, with no distances and no links. -/
theorem node_create_new {parent? : Option ModuleId} :
    (t.create parent? path globals exports).2.node t.size =
      ⟨path, globals, exports, ∅, parent?, [], .loading⟩ := by
  rw [node_create, if_pos rfl]

/-- A new module leaves the older ones. -/
theorem node_create_of_lt {parent? : Option ModuleId} {k : ModuleId} (hk : k < t.size) :
    (t.create parent? path globals exports).2.node k = t.node k := by
  rw [node_create, if_neg (Nat.ne_of_lt hk)]

/-- What a module that has just been made imports: nothing. -/
theorem children_create {parent? : Option ModuleId} (k : ModuleId) :
    ((t.create parent? path globals exports).2.node k).children = (t.node k).children := by
  rw [node_create]
  split
  · next heq =>
    rw [node_of_size_le (Nat.le_of_eq heq.symm)]
    rfl
  · rfl

/-- A new root stands in a tree of its own. -/
theorem Linked.createRoot (h : t.Linked) : (t.create none path globals exports).2.Linked := by
  refine h.grow (size_create _ _ _ _ _) (fun k hk => ?_) (fun k c hc => ?_) (fun k c hc => ?_)
    (fun k => ?_) (fun p hp => ?_) fun j hj hr => ?_
  · rw [node_create_of_lt hk]
    exact ⟨rfl, rfl⟩
  · rwa [children_create]
  · rw [children_create] at hc
    exact Or.inl hc
  · rw [children_create]
    exact h.once k
  · rw [node_create_new] at hp
    cases hp
  -- No older module has the new one as its root, since roots are never younger.
  · have hnew : (t.create none path globals exports).2.root t.size = t.size :=
      root_of_none (by rw [node_create_new])
    have hle := root_le t j
    rw [hr, hnew] at hle
    exact absurd hle (Nat.not_le_of_lt hj)

/-- The modules after a first import: there is a new one below the importer. -/
def sprout (t : ModuleTree) (importer : ModuleId) (path : Path) (globals exports : FrameId) :
    ModuleTree :=
  (t.create (some importer) path globals exports).2.addChild importer t.size

/-- A module that is created by an import is one more. -/
theorem size_sprout (importer : ModuleId) :
    (t.sprout importer path globals exports).size = t.size + 1 := by
  rw [sprout, size_addChild, size_create]

/-- A first import gives the importer one more child, and changes no module besides. -/
theorem node_sprout (t : ModuleTree) (importer : ModuleId) (path : Path) (globals exports : FrameId)
    (k : ModuleId) : ∃ children, (t.sprout importer path globals exports).node k =
        { (t.create (some importer) path globals exports).2.node k with children := children } ∧
      (∀ c, c ∈ children ↔ c ∈ (t.node k).children ∨ k = importer ∧ importer < t.size + 1 ∧
        c = t.size) ∧
      ((t.node k).children.Nodup → children.Nodup) := by
  obtain ⟨children, heq, hiff, hnodup⟩ :=
    node_addChild (t.create (some importer) path globals exports).2 importer t.size k
  rw [children_create] at hiff hnodup
  rw [size_create] at hiff
  exact ⟨children, heq, hiff, hnodup⟩

/-- The new module is the child of the importer, in its tree. -/
theorem Linked.sprout (h : t.Linked) {importer : ModuleId} (himporter : importer < t.size)
    (hpath : ∀ j < t.size, t.root j = t.root importer →
      (t.node j).path.components ≠ path.components) :
    (t.sprout importer path globals exports).Linked := by
  have hnode := node_sprout t importer path globals exports
  have hold : ∀ k < t.size,
      ((t.sprout importer path globals exports).node k).path = (t.node k).path ∧
      ((t.sprout importer path globals exports).node k).parent? = (t.node k).parent? := by
    intro k hk
    obtain ⟨children, heq, -, -⟩ := hnode k
    rw [heq, node_create_of_lt hk]
    exact ⟨rfl, rfl⟩
  obtain ⟨_, hnew, -, -⟩ := hnode t.size
  rw [node_create_new] at hnew
  have hparent : ((t.sprout importer path globals exports).node t.size).parent? =
      some importer := by rw [hnew]
  have hroot : (t.sprout importer path globals exports).root t.size = t.root importer := by
    rw [root_of_some hparent himporter]
    exact root_congr importer fun j hj => (hold j (Nat.lt_of_le_of_lt hj himporter)).2
  refine h.grow (size_sprout importer) hold (fun k c hc => ?_) (fun k c hc => ?_) (fun k => ?_)
    (fun p hp => ?_) fun j hj hr => ?_
  · obtain ⟨children, heq, hiff, -⟩ := hnode k
    rw [heq]
    exact (hiff c).mpr (Or.inl hc)
  · obtain ⟨children, heq, hiff, -⟩ := hnode k
    rw [heq] at hc
    rcases (hiff c).mp hc with hmem | ⟨rfl, -, rfl⟩
    · exact Or.inl hmem
    · exact Or.inr ⟨rfl, hparent⟩
  · obtain ⟨children, heq, -, hnodup⟩ := hnode k
    rw [heq]
    exact hnodup (h.once k)
  · obtain rfl : importer = p := Option.some.inj (hparent.symm.trans hp)
    obtain ⟨children, heq, hiff, -⟩ := hnode importer
    rw [heq]
    exact ⟨himporter, (hiff _).mpr (Or.inr ⟨rfl, Nat.lt_succ_of_lt himporter, rfl⟩)⟩
  · rw [hroot] at hr
    rw [hnew]
    exact hpath j hj hr

end

/-! ## Where modules come from -/

/-- Every module that was imported was read from a file, and has the one spelling of its path. -/
def FromFiles (files : FileSystem) (t : ModuleTree) : Prop :=
  ∀ k p, (t.node k).parent? = some p → files.Spells (t.node k).path

section

variable {files : FileSystem} {t : ModuleTree} {path : Path} {globals exports : FrameId}

theorem FromFiles.empty : FromFiles files .empty :=
  fun k p h => by cases h

/-- Changing a module without its path and its parent keeps where it comes from. -/
theorem FromFiles.modify (h : t.FromFiles files) {id : ModuleId} {f : ModuleNode → ModuleNode}
    (hf : ∀ node, (f node).path = node.path ∧ (f node).parent? = node.parent?) :
    (t.modify id f).FromFiles files := by
  intro k p hp
  rw [node_modify] at hp ⊢
  split at hp
  · next hk =>
    rw [(hf _).2] at hp
    rw [if_pos hk, (hf _).1]
    exact h k p hp
  · next hk =>
    rw [if_neg hk]
    exact h k p hp

/-- A new module comes from a file if it is no root and its path is one that files are found
under. -/
theorem FromFiles.create (h : t.FromFiles files) {parent? : Option ModuleId}
    (hpath : parent?.isSome → files.Spells path) :
    (t.create parent? path globals exports).2.FromFiles files := by
  intro k p hp
  rw [node_create] at hp ⊢
  split at hp
  · next hk =>
    rw [if_pos hk]
    obtain rfl : parent? = some p := hp
    exact hpath rfl
  · next hk =>
    rw [if_neg hk]
    exact h k p hp

/-- Another link keeps where modules come from. -/
theorem FromFiles.addChild (h : t.FromFiles files) (id child : ModuleId) :
    (t.addChild id child).FromFiles files := by
  refine h.modify fun node => ?_
  split
  · exact ⟨rfl, rfl⟩
  · exact ⟨rfl, rfl⟩

end

end ModuleTree

end ScriptEngine
