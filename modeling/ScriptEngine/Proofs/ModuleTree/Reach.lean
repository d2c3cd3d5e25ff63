import ScriptEngine.Proofs.ModuleTree.Search
import Mathlib.Logic.Relation

/-!
# What the search reaches

Apart from how a session links its modules, the search is right on every collection of modules that
can be put together: modules are made one after another, below any module there is or below none,
and any two of them are linked, so that links form cycles, lead from a module to itself or to a
module with another parent. `Built` is what can be put together in this way. All that the search
needs of it is that links lead to modules that exist (`links_exist`).

Soundness is an invariant of the modules that wait: they are reached. For completeness, a search
that fails leaves modules behind that links do not lead out of (`searchFrom_none`), and everything
that is reached is among them.
-/

namespace ScriptEngine.ModuleTree

/-- The modules that are made and linked in some order, each with modules that exist by then. -/
inductive Built : ModuleTree → Prop
  | empty : Built .empty
  | create {t : ModuleTree} (parent? : Option ModuleId) (path : Path) (globals exports : FrameId) :
      Built t → (∀ p ∈ parent?, p < t.size) → Built (t.create parent? path globals exports).2
  | addChild {t : ModuleTree} (id child : ModuleId) :
      Built t → id < t.size → child < t.size → Built (t.addChild id child)

/-- A link leads up from a module to its parent, or down to one of its children. -/
def Links (t : ModuleTree) (id next : ModuleId) : Prop :=
  (t.node id).parent? = some next ∨ next ∈ (t.node id).children

/-- The modules that links lead to, in any number of steps. -/
def Reaches (t : ModuleTree) : ModuleId → ModuleId → Prop :=
  Relation.ReflTransGen t.Links

/-- The neighbours of a module are those that it links to. -/
theorem mem_neighbours {t : ModuleTree} {id next : ModuleId} :
    next ∈ t.neighbours id ↔ t.Links id next := by
  rw [neighbours, List.mem_append, Option.mem_toList]
  exact Iff.rfl

/-! ## Links exist -/

/-- Every link leads to a module that exists. -/
def LinksExist (t : ModuleTree) : Prop :=
  ∀ id next, t.Links id next → next < t.size

/-- Links of a new module lead to modules that are there. -/
theorem LinksExist.create {t : ModuleTree} (h : t.LinksExist) {parent? : Option ModuleId}
    (path : Path) (globals exports : FrameId) (hparent : ∀ p ∈ parent?, p < t.size) :
    (t.create parent? path globals exports).2.LinksExist := by
  intro id next hlink
  rw [size_create]
  unfold Links at hlink
  rw [node_create] at hlink
  by_cases hid : id = t.size
  · rw [if_pos hid] at hlink
    rcases hlink with hp | hc
    · exact Nat.lt_succ_of_lt (hparent next hp)
    · exact absurd hc List.not_mem_nil
  · rw [if_neg hid] at hlink
    exact Nat.lt_succ_of_lt (h id next hlink)

theorem LinksExist.addChild {t : ModuleTree} (h : t.LinksExist) (id : ModuleId) {child : ModuleId}
    (hchild : child < t.size) : (t.addChild id child).LinksExist := by
  intro k next hlink
  obtain ⟨children, hnode, hmem, -⟩ := node_addChild t id child k
  unfold Links at hlink
  rw [hnode] at hlink
  rw [size_addChild]
  rcases hlink with hp | hc
  · exact h k next (Or.inl hp)
  · rcases (hmem next).mp hc with hold | ⟨-, -, rfl⟩
    · exact h k next (Or.inr hold)
    · exact hchild

/-- In a tree that is built links lead to modules that are there. -/
theorem Built.links_exist {t : ModuleTree} (h : t.Built) : t.LinksExist := by
  induction h with
  | empty =>
    intro id next hlink
    rcases hlink with hp | hc
    · cases hp
    · cases hc
  | create parent? path globals exports _ hparent ih =>
    exact ih.create path globals exports hparent
  | addChild id child _ _ hchild ih => exact ih.addChild id hchild

/-! ## The search and what is reached -/

section

variable {t : ModuleTree} {path : Path} {start id : ModuleId}

/-- What the search finds is there, has the path and is reached. -/
theorem search?_reaches (hid : t.search? start path = some id) :
    id < t.size ∧ (t.node id).path.components = path.components ∧ t.Reaches start id := by
  have hlink : ∀ k, k < t.size → t.Reaches start k → ∀ n ∈ t.neighbours k, t.Reaches start n :=
    fun k _ hk n hn => hk.tail (mem_neighbours.mp hn)
  refine searchFrom_some hlink [] [start] (fun p hp _ => ?_) hid
  rw [List.mem_singleton.mp hp]
  exact .refl

/-- When the search finds nothing, nothing with the path is reached. -/
theorem LinksExist.search?_none (h : t.LinksExist) (hstart : start < t.size)
    (hnone : t.search? start path = none) (hreach : t.Reaches start id) :
    (t.node id).path.components ≠ path.components := by
  obtain ⟨seen, -, hpending, hseen⟩ := searchFrom_none [] [start] hnone
  have hother : ∀ v, seen v → (t.node v).path.components ≠ path.components ∧
      ∀ n ∈ t.neighbours v, n < t.size → seen n := fun v hv =>
    (hseen v hv).resolve_left List.not_mem_nil
  -- The modules that were looked at hold the first one and whatever a link leads to from them.
  have hid : seen id := by
    induction hreach with
    | refl => exact hpending start List.mem_cons_self hstart
    | tail _ hlink ih => exact (hother _ ih).2 _ (mem_neighbours.mpr hlink) (h _ _ hlink)
  exact (hother id hid).1

/-- From any module the search answers with a module that has the path and is reached by links,
whenever there is one, and without an answer there is none. -/
theorem Built.search_finds_reached (h : t.Built) (hstart : start < t.size) (path : Path) :
    (∀ id, t.search? start path = some id →
      id < t.size ∧ t.Reaches start id ∧ ((t.node id).path == path) = true) ∧
    ((t.search? start path).isSome ↔
      ∃ id, t.Reaches start id ∧ ((t.node id).path == path) = true) ∧
    (t.search? start path = none →
      ∀ id, t.Reaches start id → ((t.node id).path == path) = false) := by
  have hfound : ∀ id, t.search? start path = some id →
      id < t.size ∧ t.Reaches start id ∧ ((t.node id).path == path) = true := by
    intro id hid
    obtain ⟨hlt, hpath, hreach⟩ := search?_reaches hid
    exact ⟨hlt, hreach, Path.beq_iff.mpr hpath⟩
  have hmissed : t.search? start path = none →
      ∀ id, t.Reaches start id → ((t.node id).path == path) = false := by
    intro hnone id hreach
    have hne := h.links_exist.search?_none hstart hnone hreach
    exact Bool.eq_false_iff.mpr fun heq => hne (Path.beq_iff.mp heq)
  refine ⟨hfound, ⟨fun hsome => ?_, ?_⟩, hmissed⟩
  · obtain ⟨id, hid⟩ := Option.isSome_iff_exists.mp hsome
    exact ⟨id, (hfound id hid).2⟩
  · rintro ⟨id, hreach, hpath⟩
    cases hs : t.search? start path with
    | some _ => rfl
    | none =>
      rw [hmissed hs id hreach] at hpath
      cases hpath

end

/-- A root that imports two modules, which import each other and the root; the first imports itself
as well. -/
def cyclic : ModuleTree :=
  let index := (empty.create none ⟨"/index.sss"⟩ 0 0).2
  let left := (index.create (some 0) ⟨"/left.sss"⟩ 0 0).2.addChild 0 1
  let right := (left.create (some 0) ⟨"/right.sss"⟩ 0 0).2.addChild 0 2
  (((right.addChild 1 2).addChild 2 1).addChild 2 0).addChild 1 1

theorem cyclic_built : cyclic.Built := by
  have hindex := Built.create none ⟨"/index.sss"⟩ 0 0 Built.empty (by decide)
  have hleft := Built.addChild 0 1
    (Built.create (some 0) ⟨"/left.sss"⟩ 0 0 hindex (by decide)) (by decide) (by decide)
  have hright := Built.addChild 0 2
    (Built.create (some 0) ⟨"/right.sss"⟩ 0 0 hleft (by decide)) (by decide) (by decide)
  have hthere := Built.addChild 1 2 hright (by decide) (by decide)
  have hback := Built.addChild 2 1 hthere (by decide) (by decide)
  have hup := Built.addChild 2 0 hback (by decide) (by decide)
  exact Built.addChild 1 1 hup (by decide) (by decide)

/-- Along the cycles the search goes to the sibling that is there and gives up on the module that
is not. -/
theorem cyclic_search_finds_reached : 1 < cyclic.size ∧
    cyclic.search? 1 ⟨"/right.sss"⟩ = some 2 ∧ cyclic.Reaches 1 2 ∧
    ∀ id, cyclic.Reaches 1 id → ((cyclic.node id).path == ⟨"/missing.sss"⟩) = false := by
  have hright : cyclic.search? 1 ⟨"/right.sss"⟩ = some 2 := by decide +kernel
  have hmissing : cyclic.search? 1 ⟨"/missing.sss"⟩ = none := by decide +kernel
  have hlt : 1 < cyclic.size := by decide
  exact ⟨hlt, hright, ((cyclic_built.search_finds_reached hlt ⟨"/right.sss"⟩).1 2 hright).2.1,
    (cyclic_built.search_finds_reached hlt ⟨"/missing.sss"⟩).2.2 hmissing⟩

end ScriptEngine.ModuleTree
