import ScriptEngine.Proofs.Evaluator.Naming

/-!
# What an import leaves when it fails

An import is not undone when it fails. Its items are bound one after another, so those in front of
the one that is refused stay bound. Nothing else has got a name in the frame, since the load behind
the import runs in frames of its own; but what the code of a new module has assigned to names that
were bound before stays as well.
-/

namespace ScriptEngine

open Scope

/-- From one machine to the other, some items of an import were bound in the current frame, and
nothing else has happened to frames, nor anything to modules. -/
structure Machine.BindsFront (target : ModuleId) (front : List ImportItem) (m m' : Machine) :
    Prop where
  place : m.SamePlace m'
  modules : m'.modules = m.modules
  free : ∀ item ∈ front, m.frames.binds m.current item.binding.lexeme = false
  distinct : (front.map (·.binding.lexeme)).Nodup
  items : ∀ item ∈ front, m'.BindsImport target item
  others : ∀ name, (∀ item ∈ front, item.binding.lexeme ≠ name) →
    m'.frames.local? m.current name = m.frames.local? m.current name
  cells : ∀ id < m.store.heap.imports.size, id < m'.store.heap.imports.size ∧
    m'.store.heap.importCell id = m.store.heap.importCell id

/-- The item is refused: its module has come to its end without such a name, or its binding is
taken in the frame of the import. -/
def ImportItem.Refused (item : ImportItem) (target : ModuleId) (m : Machine) (halt : Halt) : Prop :=
  halt = .failed (.located .exportNotFound item.name) ∧
      (m.modules.node target).state = .loaded ∧
      m.frames.binds (m.modules.node target).globals item.name.lexeme = false ∨
    halt = .failed (.located .duplicateBinding item.binding) ∧
      m.frames.binds m.current item.binding.lexeme = true

/-- An import, back in the frame that it runs in, has come to a module, the one of the importer's
tree that has the path. -/
def Machine.ImportsFrom (token : Token) (target : ModuleId) (m m' : Machine) : Prop :=
  m.SamePlace m' ∧ ∃ importer, m.active? = some importer ∧
    ∀ k, m'.modules.IsAt importer (m.importedPath importer token) k ↔ k = target

/-- What the load behind an import can make of the frames: nothing, if the module is in the tree of
the importer, and what the code of a new module makes of them otherwise. -/
def Machine.LoadsFrames (m : Machine) (ev : Evaluator) (token : Token) (frames : Frames) : Prop :=
  frames = m.frames ∨ ∃ importer, m.active? = some importer ∧
    m.modules.search? importer (m.importedPath importer token) = none ∧
    frames = (Run.left (ev.loadModule importer (m.importedPath importer token) token m)).frames

/-- What an import that was halted has left of the frame in which it ran: the names of the items in
front, each bound to a reference to the one module of the importer's tree that has the path of the
import, and the names from before. Those have the values that they had, or that the code of a new
module has left them with. -/
structure Machine.LeavesFront (ev : Evaluator) (token : Token) (front : List ImportItem)
    (m m' : Machine) : Prop where
  names : ∀ name, m'.frames.binds m.current name =
    (m.frames.binds m.current name || front.any fun item => item.binding.lexeme == name)
  free : ∀ item ∈ front, m.frames.binds m.current item.binding.lexeme = false
  distinct : (front.map (·.binding.lexeme)).Nodup
  references : ∀ item ∈ front, ∃ target,
    m.ImportsFrom token target m' ∧ m'.BindsImport target item
  values : ∃ frames, m.LoadsFrames ev token frames ∧
    ∀ name, (∀ item ∈ front, item.binding.lexeme ≠ name) →
      m'.frames.local? m.current name = frames.local? m.current name

/-- A new reference leaves the others as they are. -/
theorem Heap.cells_newImport (h : Heap) (cell : ImportCell) :
    ∀ id < h.imports.size, id < (h.newImport cell).2.imports.size ∧
      (h.newImport cell).2.importCell id = h.importCell id := by
  intro id hid
  refine ⟨?_, ?_⟩
  · show id < (h.imports.push _).size
    rw [Array.size_push]
    exact Nat.lt_succ_of_lt hid
  · show (h.imports.push _).getD id default = _
    rw [getD_push, if_neg (Nat.ne_of_lt hid)]
    rfl

namespace Machine.BindsFront

variable {m m' m'' : Machine} {target : ModuleId} {item : ImportItem} {front : List ImportItem}

/-- Nothing is bound. -/
theorem none (hplace : m.SamePlace m') (hmodules : m'.modules = m.modules)
    (hframes : m'.frames = m.frames)
    (hcells : ∀ id < m.store.heap.imports.size, id < m'.store.heap.imports.size ∧
      m'.store.heap.importCell id = m.store.heap.importCell id) :
    m.BindsFront target [] m' where
  place := hplace
  modules := hmodules
  free := fun item hitem => absurd hitem List.not_mem_nil
  distinct := List.nodup_nil
  items := fun item hitem => absurd hitem List.not_mem_nil
  others := fun name _ => by rw [hframes]
  cells := hcells

/-- An item that was bound stays so. -/
theorem bindsImport (h : m.BindsFront target front m') (hbound : m.BindsImport target item) :
    m'.BindsImport target item := by
  obtain ⟨id, hid, hvalue, hcell⟩ := hbound
  refine ⟨id, (h.cells id hid).1, ?_, (h.cells id hid).2.trans hcell⟩
  rw [h.place.2, h.others item.binding.lexeme fun item' hitem' heq => ?_, hvalue]
  have hfree := h.free item' hitem'
  rw [heq, Frames.binds, hvalue] at hfree
  cases hfree

/-- One more item is bound in front of others. -/
theorem cons (hfirst : Evaluator.bindImport target item m = .ok () m')
    (hcurrent : m.current < m.frames.frames.size) (h : m'.BindsFront target front m'') :
    m.BindsFront target (item :: front) m'' := by
  obtain ⟨hfree, hm'⟩ := Evaluator.bindImport_ok hfirst
  have hbound := Evaluator.bindImport_binds hfirst hcurrent
  subst hm'
  -- The name is bound from here on, so it is none of those that are bound behind it.
  have hnew : ∀ item' ∈ front, item'.binding.lexeme ≠ item.binding.lexeme := by
    intro item' hitem' heq
    have hfree' := h.free item' hitem'
    obtain ⟨id, -, hvalue, -⟩ := hbound
    rw [heq, Frames.binds, hvalue] at hfree'
    cases hfree'
  exact {
    place := h.place
    modules := h.modules
    free := fun item' hitem' => by
      rcases List.mem_cons.mp hitem' with rfl | hitem'
      · exact hfree
      · rw [← Bool.not_eq_true]
        intro hbinds
        have hfree' := h.free item' hitem'
        rw [Frames.binds_put _ _ _ _ hbinds] at hfree'
        cases hfree'
    distinct := by
      rw [List.map_cons, List.nodup_cons]
      refine ⟨fun hmem => ?_, h.distinct⟩
      obtain ⟨item', hitem', heq⟩ := List.mem_map.mp hmem
      exact hnew item' hitem' heq
    items := fun item' hitem' => by
      rcases List.mem_cons.mp hitem' with rfl | hitem'
      · exact h.bindsImport hbound
      · exact h.items item' hitem'
    others := fun name hname => by
      rw [h.others name fun item' hitem' => hname item' (List.mem_cons_of_mem _ hitem')]
      show (m.frames.put _ _ _).local? m.current name = _
      rw [Frames.local?_put, if_neg fun hp => hname item List.mem_cons_self hp.2.2.symm]
    cells := fun id hid => by
      obtain ⟨hlt, hcell⟩ :=
        m.store.heap.cells_newImport ⟨item.name, target, Option.none⟩ id hid
      exact ⟨(h.cells id hlt).1, (h.cells id hlt).2.trans hcell⟩ }

theorem names (h : m.BindsFront target front m') (name : String) :
    m'.frames.binds m.current name =
      (m.frames.binds m.current name || front.any fun item => item.binding.lexeme == name) := by
  by_cases hfront : ∃ item ∈ front, item.binding.lexeme = name
  · obtain ⟨item, hitem, rfl⟩ := hfront
    obtain ⟨id, -, hvalue, -⟩ := h.items item hitem
    rw [h.place.2] at hvalue
    have hany : (front.any fun item' => item'.binding.lexeme == item.binding.lexeme) = true :=
      List.any_eq_true.mpr ⟨item, hitem, beq_self_eq_true _⟩
    rw [Frames.binds, hvalue, hany, Bool.or_true]
    rfl
  · have hname : ∀ item ∈ front, item.binding.lexeme ≠ name := fun item hitem heq =>
      hfront ⟨item, hitem, heq⟩
    rw [Frames.binds, h.others name hname, List.any_eq_false.mpr, Bool.or_false]
    · rfl
    · intro item hitem heq
      exact hname item hitem (beq_iff_eq.mp heq)

end Machine.BindsFront

/-- An import that has bound nothing. -/
theorem Machine.LeavesFront.none {ev : Evaluator} {token : Token} {m m' : Machine}
    (hkeeps : m.Keeps m.current m') (hframes : m.LoadsFrames ev token m'.frames) :
    m.LeavesFront ev token [] m' where
  names := fun name => by rw [hkeeps.names, List.any_nil, Bool.or_false]
  free := fun item hitem => absurd hitem List.not_mem_nil
  distinct := List.nodup_nil
  references := fun item hitem => absurd hitem List.not_mem_nil
  values := ⟨m'.frames, hframes, fun _ _ => rfl⟩

/-- The items that were bound after the load are bound all in all. -/
theorem Machine.BindsFront.leaves {ev : Evaluator} {token : Token} {target : ModuleId}
    {front : List ImportItem} {m m₁ m' : Machine} (h : m₁.BindsFront target front m')
    (hfrom : m.ImportsFrom token target m') (hkeeps : m.Keeps m.current m₁)
    (hcurrent : m₁.current = m.current)
    (hframes : m.LoadsFrames ev token m₁.frames) : m.LeavesFront ev token front m' where
  names := fun name => by rw [← hkeeps.names, ← hcurrent, h.names]
  free := fun item hitem => by
    rw [← hkeeps.names, ← hcurrent]
    exact h.free item hitem
  distinct := h.distinct
  references := fun item hitem => ⟨target, hfrom, h.items item hitem⟩
  values := ⟨m₁.frames, hframes, fun name hname => by rw [← hcurrent, h.others name hname]⟩

/-- The frame that a piece of program runs in is there, and it holds the exports of no module: it is
enclosed by another frame, and those are not. -/
theorem Ready.inner {settled : Nat} {w : World} {m : Machine} {home : ModuleId} {stack : Stack}
    {uses : List Use} {marks : List Mark} (hr : Ready settled w m home stack uses marks) :
    m.Inner m.current := by
  have henclosed : ∃ g, (m.frames.frame m.current).enclosing? = some g := by
    have hchain := hr.chain
    cases stack with
    | nil =>
      rw [hchain.2]
      exact ⟨Machine.builtins, (hr.sound.globals home hchain.1).2⟩
    | cons scope outer =>
      obtain ⟨-, -, g, hg, -⟩ := hchain
      exact ⟨g, hg⟩
  refine ⟨hr.current_lt, fun k hk heq => ?_⟩
  obtain ⟨g, hg⟩ := henclosed
  rw [← heq, (hr.sound.exports k hk).2] at hg
  cases hg

namespace Evaluator

open Run

variable {m m' : Machine} {halt : Halt} {token : Token} {items : List ImportItem}

/-! ## Items -/

/-- Items are bound in order until one is refused. -/
theorem bindImports_halted (target : ModuleId) (items : List ImportItem) :
    ∀ {m : Machine}, bindImports target items m = .error halt m' →
      m.current < m.frames.frames.size → ∃ front item back, items = front ++ item :: back ∧
        item.Refused target m' halt ∧ m.BindsFront target front m' := by
  induction items with
  | nil =>
    intro m heq _
    cases heq
  | cons item items ih =>
    intro m heq hcurrent
    rcases bind_error heq with hfirst | ⟨u, m₁, hfirst, hrest⟩
    · rcases bindImport_cases target item m with ⟨hloaded, hlacks, hr⟩ | ⟨hbinds, hr⟩ | ⟨-, hr⟩
      · cases hr.symm.trans hfirst
        exact ⟨[], item, items, rfl, Or.inl ⟨rfl, hloaded, hlacks⟩,
          .none (.refl _) rfl rfl fun id hid => ⟨hid, rfl⟩⟩
      · cases hr.symm.trans hfirst
        exact ⟨[], item, items, rfl, Or.inr ⟨rfl, hbinds⟩,
          .none (.refl _) rfl rfl (m.store.heap.cells_newImport _)⟩
      · cases hr.symm.trans hfirst
    · have hsize : m₁.current < m₁.frames.frames.size := by
        obtain ⟨-, hm₁⟩ := bindImport_ok hfirst
        rw [hm₁]
        rwa [Frames.put, Array.size_modify]
      obtain ⟨front, item', back, rfl, hrefused, hfront⟩ := ih hrest hsize
      exact ⟨item :: front, item', back, rfl, hrefused, hfront.cons hfirst hcurrent⟩

/-- Once the module is there, an import binds items until one is refused, or none at all. -/
theorem bindLoaded_halted {importer target : ModuleId} {path : Path}
    (h : bindLoaded importer path token items m = .error halt m')
    (htarget : (m.modules.findChild? importer path).or (m.modules.lookup? path) = some target)
    (hcurrent : m.current < m.frames.frames.size) : ∃ front, m.BindsFront target front m' ∧
      (front = [] ∨ ∃ item back, items = front ++ item :: back ∧
        item.Refused target m' halt) := by
  change (if m.reporter.hadError then _ else _ : Run Unit) m = _ at h
  cases herror : m.reporter.hadError with
  | true =>
    rw [herror] at h
    cases h
    exact ⟨[], .none (.refl m) rfl rfl fun id hid => ⟨hid, rfl⟩, Or.inl rfl⟩
  | false =>
    rw [herror] at h
    dsimp only at h
    rw [htarget] at h
    obtain ⟨front, item, back, hitems, hrefused, hfront⟩ :=
      bindImports_halted target items h hcurrent
    exact ⟨front, hfront, Or.inr ⟨item, back, hitems, hrefused⟩⟩

/-! ## Whole imports -/

/-- A load leaves the frames alone, unless the module is new and its code is run. -/
theorem loadsFrames_loadModule {importer : ModuleId} (hactive : m.active? = some importer)
    (ev : Evaluator) (token : Token) : m.LoadsFrames ev token
      (left (ev.loadModule importer (m.importedPath importer token) token m)).frames := by
  rcases loadModule_cases importer (m.importedPath importer token) token m with
    ⟨existing, -, hload⟩ | ⟨hnone, -⟩
  · rw [hload]
    exact Or.inl rfl
  · exact Or.inr ⟨importer, hactive, hnone, rfl⟩

/-- An import that was halted has bound the items in front of the one that was refused, or none. -/
theorem importNames_halted {w : World} {home : ModuleId} {stack : Stack} {uses : List Use}
    {marks : List Mark} (hready : Ready 0 w m home stack uses marks) {levels : Nat}
    (h : (evaluatorUpTo levels).importNames token items m = .error halt m') : ∃ front,
      m.LeavesFront (evaluatorUpTo levels) token front m' ∧
        (front = [] ∨ ∃ item back target, items = front ++ item :: back ∧
          m.ImportsFrom token target m' ∧ item.Refused target m' halt) := by
  have hm : m.Inner m.current := hready.inner
  rcases importNames_cases token items m with
    ⟨e, -, himport⟩ | ⟨importer, hactive, hfile, himport⟩
  · rw [himport] at h
    cases h
    exact ⟨[], .none (.refl hm) (Or.inl rfl), Or.inl rfl⟩
  · obtain rfl : home = importer := Option.some.inj (hready.active.symm.trans hactive)
    rw [himport] at h
    have hkeeps := keeps_loadModule (bindsHere_evaluatorUpTo levels) hm home
      (m.importedPath home token) token
    have hframes := loadsFrames_loadModule hactive (evaluatorUpTo levels) token
    have hends : EndsAt m
        ((evaluatorUpTo levels).loadModule home (m.importedPath home token) token m) :=
      endsAt_loadModule hactive (m.importedPath home token) token
    rcases bind_error h with hload | ⟨u, m₁, hload, hbind⟩
    · rw [hload] at hkeeps hframes
      exact ⟨[], .none hkeeps hframes, Or.inl rfl⟩
    · rw [hload] at hkeeps hframes hends
      obtain ⟨hlinked, hsize, target, hat, htarget⟩ := hready.target_loaded hfile hload
      obtain ⟨front, hfront, hrefused⟩ := bindLoaded_halted hbind htarget hsize
      have hfrom : m.ImportsFrom token target m' := by
        refine ⟨Machine.SamePlace.trans hends hfront.place, home, hactive, fun k => ?_⟩
        rw [hfront.modules]
        exact ⟨fun hk => hk.unique hlinked hat, fun hk => hk ▸ hat⟩
      refine ⟨front, hfront.leaves hfrom hkeeps hends.2 hframes, ?_⟩
      rcases hrefused with hnone | ⟨item, back, hitems, hrefused⟩
      · exact Or.inl hnone
      · exact Or.inr ⟨item, back, target, hitems, hfrom, hrefused⟩

end Evaluator

end ScriptEngine
