import ScriptEngine.Path
import ScriptEngine.Frame
import Std.Data.TreeMap

/-!
# The module tree

One node for every source that has been run: its frames, the distances of its references, and
its links to the module that imported it first and to the modules it imports. Imports may form
cycles, so a search marks the nodes it has been to.
-/

namespace ScriptEngine

/-- Whether the statements of a module have finished running. -/
inductive LoadState where
  | loading | loaded
deriving DecidableEq, Inhabited

/-- A module. Its `globals` are enclosed by the frame of the built-ins; `exports` records what it
exported while it was imported. -/
structure ModuleNode where
  path : Path
  globals : FrameId
  exports : FrameId
  distances : Std.TreeMap ExprId Nat
  parent? : Option ModuleId
  children : List ModuleId
  state : LoadState

instance : Inhabited ModuleNode := ⟨⟨default, 0, 0, ∅, none, [], .loading⟩⟩

/-- Whether another module imported this one. -/
def ModuleNode.isImported (node : ModuleNode) : Bool :=
  node.parent?.isSome

/-- All modules, by number. -/
structure ModuleTree where
  nodes : Array ModuleNode

namespace ModuleTree

/-- No modules. -/
def empty : ModuleTree := ⟨#[]⟩

/-- The number of modules. -/
def size (t : ModuleTree) : Nat := t.nodes.size

/-- The module with a given number. -/
def node (t : ModuleTree) (id : ModuleId) : ModuleNode := t.nodes.getD id default

/-- Changes a module. -/
def modify (t : ModuleTree) (id : ModuleId) (f : ModuleNode → ModuleNode) : ModuleTree :=
  ⟨t.nodes.modify id f⟩

/-- A new module that is about to be run. -/
def create (t : ModuleTree) (parent? : Option ModuleId) (path : Path) (globals exports : FrameId) :
    ModuleId × ModuleTree :=
  (t.nodes.size, ⟨t.nodes.push ⟨path, globals, exports, ∅, parent?, [], .loading⟩⟩)

/-- The newest module with a path. -/
def lookup? (t : ModuleTree) (path : Path) : Option ModuleId :=
  (List.range t.size).reverse.find? fun id => (t.node id).path == path

/-- Records that one module imports another. A repeated link changes nothing. -/
def addChild (t : ModuleTree) (id child : ModuleId) : ModuleTree :=
  t.modify id fun node =>
    if child ∈ node.children then node else { node with children := node.children ++ [child] }

/-- The modules next to a module: the one that imported it first, then those it imports. -/
def neighbours (t : ModuleTree) (id : ModuleId) : List ModuleId :=
  (t.node id).parent?.toList ++ (t.node id).children

/-- The modules that have not been visited. -/
def unvisited (t : ModuleTree) (visited : List ModuleId) : List ModuleId :=
  (List.range t.size).filter (· ∉ visited)

/-- Some modules, counted together with their links. -/
def linkCount (t : ModuleTree) : List ModuleId → Nat
  | [] => 0
  | id :: ids => (t.neighbours id).length + 1 + t.linkCount ids

/-- How much a search has left to look at: what is waiting, and the modules that have not been
visited with their links. -/
def remaining (t : ModuleTree) (visited pending : List ModuleId) : Nat :=
  t.linkCount (t.unvisited visited) + pending.length

/-- Visiting a module takes it and its links off the count. -/
theorem linkCount_visit_le (t : ModuleTree) (id : ModuleId) (ids : List ModuleId) :
    t.linkCount (ids.filter (· != id)) +
      (if id ∈ ids then (t.neighbours id).length + 1 else 0) ≤ t.linkCount ids := by
  induction ids with
  | nil => simp
  | cons a ids ih =>
    by_cases ha : a = id
    · subst ha
      simp only [List.filter_cons, bne_self_eq_false, List.mem_cons_self, if_true, linkCount]
      simp only [Bool.false_eq_true, if_false]
      omega
    · have hne : ¬ id = a := fun h => ha h.symm
      simp only [List.filter_cons, bne_iff_ne.mpr ha, if_true, linkCount, List.mem_cons, hne,
        false_or]
      omega

/-- Visiting a new module leaves less to do. -/
theorem remaining_visit_lt {t : ModuleTree} {visited : List ModuleId} {id : ModuleId}
    (pending : List ModuleId) (hid : id < t.size) (hv : id ∉ visited) :
    t.remaining (id :: visited) (t.neighbours id ++ pending) <
      t.remaining visited (id :: pending) := by
  have hsub : t.unvisited (id :: visited) = (t.unvisited visited).filter (· != id) := by
    simp only [unvisited, List.filter_filter]
    congr 1
    funext x
    by_cases hx : x = id <;> simp [hx]
  have hmem : id ∈ t.unvisited visited := by simp [unvisited, hid, hv]
  have hle := t.linkCount_visit_le id (t.unvisited visited)
  rw [if_pos hmem] at hle
  unfold remaining
  rw [hsub, List.length_append, List.length_cons]
  omega

/-- The first module with a path among `pending` and everything linked to it, depth first. -/
def searchFrom (t : ModuleTree) (path : Path) (visited : List ModuleId) :
    List ModuleId → Option ModuleId
  | [] => none
  | id :: pending =>
    if _h : id < t.size ∧ id ∉ visited then
      if (t.node id).path == path then some id
      else t.searchFrom path (id :: visited) (t.neighbours id ++ pending)
    else t.searchFrom path visited pending
termination_by pending => t.remaining visited pending
decreasing_by
  · exact remaining_visit_lt pending _h.1 _h.2
  · simp [remaining]

/-- A module with a path that is linked to `id`: the module itself, then the way to the root and
everything below. -/
def search? (t : ModuleTree) (id : ModuleId) (path : Path) : Option ModuleId :=
  t.searchFrom path [] [id]

/-- A module with a path among those that a module imports. -/
def findChild? (t : ModuleTree) (id : ModuleId) (path : Path) : Option ModuleId :=
  (t.node id).children.find? fun child => (t.node child).path == path

end ModuleTree

end ScriptEngine
