import ScriptEngine.Proofs.Session.Reference

/-!
# What import references remember

An import reference remembers what was last seen through it. The memory is written whenever a
reference is followed, called or asked for a property, and it is shown when a reference is shown.
Yet no program can tell what is in it: two machines that differ in nothing else run every program
to the same end, with the same output and the same diagnostics, and differ in nothing else then.
-/

namespace ScriptEngine

/-- An import reference that remembers nothing. -/
def ImportCell.forget (cell : ImportCell) : ImportCell :=
  { cell with cache? := none }

/-- The machine with import references that remember nothing. -/
def Machine.forget (m : Machine) : Machine :=
  { m with store := { m.store with heap := { m.store.heap with
    imports := m.store.heap.imports.map ImportCell.forget } } }

/-- How a computation ended, in a machine whose import references remember nothing. -/
def Run.forgetful {α : Type} : EStateM.Result Halt Machine α → EStateM.Result Halt Machine α
  | .ok a m => .ok a m.forget
  | .error halt m => .error halt m.forget

/-- Two machines in which every program does the same, up to what import references remember. -/
structure Machine.Indistinguishable (m n : Machine) : Prop where
  evaluate : ∀ depth e, Run.forgetful (evaluate depth e n) = Run.forgetful (evaluate depth e m)
  execute : ∀ depth s, Run.forgetful (execute depth s n) = Run.forgetful (execute depth s m)
  runRoot : ∀ depth path statements,
    Run.forgetful ((evaluatorUpTo depth).runRoot path statements n) =
      Run.forgetful ((evaluatorUpTo depth).runRoot path statements m)
  runSource : ∀ depth path source,
    Run.forgetful (Session.runSource depth path source n) =
      Run.forgetful (Session.runSource depth path source m)

variable {σ : Setting} {m n : Machine}

/-- References that differ in what they remember are alike where that does not count. -/
theorem AlikeCells.of_forget (hσ : σ.relabel = .same) (hcached : ¬ σ.cached)
    {a b : Array ImportCell} (h : b.map ImportCell.forget = a.map ImportCell.forget) :
    AlikeCells σ a b := by
  have hsize : b.size = a.size := by
    have := congrArg Array.size h
    rwa [Array.size_map, Array.size_map] at this
  refine ⟨hsize, fun i hi => ?_⟩
  have hcell : (b.getD i default).forget = (a.getD i default).forget := by
    have := congrArg (fun cells => cells.getD i default) h
    rwa [Heap.getD_map ImportCell.forget b i default default rfl,
      Heap.getD_map ImportCell.forget a i default default rfl] at this
  obtain ⟨hname, hhome, -⟩ := ImportCell.mk.inj hcell
  refine ⟨?_, hhome, fun hc => absurd hc hcached⟩
  rw [hσ]
  exact hname

/-- Alike references are the same apart from what they remember. -/
theorem AlikeCells.forget_eq (hσ : σ.relabel = .same) {a b : Array ImportCell}
    (h : AlikeCells σ a b) : b.map ImportCell.forget = a.map ImportCell.forget := by
  refine Array.ext (by simp [h.size]) fun i hb ha => ?_
  rw [Array.size_map] at ha hb
  have hcell := h.cell i ha
  rw [Array.getD_eq_getD_getElem?, Array.getElem?_eq_getElem ha, Array.getD_eq_getD_getElem?,
    Array.getElem?_eq_getElem hb, Option.getD_some, Option.getD_some] at hcell
  rw [Array.getElem_map, Array.getElem_map]
  have hname := hcell.name
  rw [hσ] at hname
  unfold ImportCell.forget
  rw [hcell.home, show b[i].name = a[i].name from hname]

/-- Machines that differ in what import references remember are twins. -/
theorem Tidy.twins_of_forget {names : FrameId → String → Prop}
    (h : Tidy (Session.everything False names) m) (hforget : n.forget = m.forget) :
    Twins (Session.everything False names) m n := by
  obtain ⟨store, frames, modules, active?, current, reporter, files, nextExpr⟩ := m
  obtain ⟨store', frames', modules', active?', current', reporter', files', nextExpr'⟩ := n
  obtain ⟨hstore, rfl, rfl, rfl, rfl, rfl, rfl, rfl⟩ := Machine.mk.inj hforget
  obtain ⟨heap, output, clock⟩ := store
  obtain ⟨heap', output', clock'⟩ := store'
  obtain ⟨hheap, rfl, rfl⟩ := Store.mk.inj hstore
  obtain ⟨arrays, maps, errors, objects, imports, next⟩ := heap
  obtain ⟨arrays', maps', errors', objects', imports', next'⟩ := heap'
  obtain ⟨rfl, rfl, rfl, rfl, himports, rfl⟩ := Heap.mk.inj hheap
  exact h.twins rfl (.of_forget rfl (fun hc => hc) himports) rfl rfl rfl rfl rfl

/-- Strict twins are the same apart from what references remember. -/
theorem Twins.forget_eq (hσ : σ.strict) (h : Twins σ m n) : n.forget = m.forget := by
  have hsame := σ.relabel_eq hσ
  have hcells := h.cells.forget_eq hsame
  have hstore := h.store
  rw [hsame, Store.image, Heap.image_same] at hstore
  have hframes := h.frames
  rw [hsame, Relabeling.frames_same] at hframes
  have haround := h.same hσ
  have hactive := h.active
  have hcurrent := h.current
  obtain ⟨store, frames, modules, active?, current, reporter, files, nextExpr⟩ := m
  obtain ⟨store', frames', modules', active?', current', reporter', files', nextExpr'⟩ := n
  obtain ⟨rfl, rfl, rfl, rfl⟩ := Surroundings.mk.inj haround
  obtain rfl : frames' = frames := hframes
  obtain rfl : active?' = active? := hactive
  obtain rfl : current' = current := hcurrent
  change store' =
    { store with heap := { store.heap with imports := store'.heap.imports } } at hstore
  unfold Machine.forget
  rw [hcells, hstore]

/-- Runs that meet end in the same way, up to what import references remember. -/
theorem Meets.forgetful {α : Type} {x y : Run α} {f : α → α} {P : Machine → α → Prop}
    (hσ : σ.strict) (h : Meets σ m n x y f P) (hf : ∀ a, f a = a) :
    Run.forgetful (y n) = Run.forgetful (x m) := by
  unfold Meets at h
  cases hx : x m with
  | ok a m' =>
    rw [hx] at h
    obtain ⟨n', hn, ht, -⟩ := h
    rw [hn, hf]
    exact congrArg (EStateM.Result.ok a) (ht.forget_eq hσ)
  | error halt m' =>
    rw [hx] at h
    obtain ⟨n', hn, ht, -⟩ := h
    rw [hn, σ.relabel_eq hσ, Relabeling.halt_same]
    exact congrArg (EStateM.Result.error halt) (ht.forget_eq hσ)

/-- The relabeling that changes nothing changes no flow. -/
theorem Relabeling.flow_same (flow : Flow) : Relabeling.same.flow flow = flow := by
  cases flow with
  | normal => rfl
  | returned v => exact congrArg Flow.returned (Relabeling.value_same v)

/-- Twins in a setting in which every name counts are indistinguishable. -/
theorem Twins.indistinguishable {names : FrameId → String → Prop} (hnames : ∀ f x, names f x)
    (h : Twins (Session.everything False names) m n) : m.Indistinguishable n := by
  have hquiet : Observer.quiet.Alike (Session.everything False names) .quiet :=
    fun _ _ => .inl ⟨rfl, rfl, fun _ _ _ _ _ => hnames _ _⟩
  have halike : ∀ depth, (evaluatorUpTo depth).Alike (Session.everything False names)
      (evaluatorUpTo depth) := by
    intro depth
    rw [← evaluatorUnder_quiet]
    exact alike_evaluatorUnder hquiet depth
  have hall : ∀ moment, (Session.everything False names).part moment := fun _ => trivial
  refine ⟨fun depth e => ?_, fun depth s => ?_, fun depth path statements => ?_,
    fun depth path source => ?_⟩
  · have hmeets := (halike depth).evaluate h (everyExpr_of_forall hall e)
    rw [show (Session.everything False names).relabel.expr e = e from Relabeling.expr_same e]
      at hmeets
    exact hmeets.forgetful trivial Relabeling.value_same
  · have hmeets := (halike depth).execute h (everyStmt_of_forall hall s)
    rw [show (Session.everything False names).relabel.stmt s = s from Relabeling.stmt_same s]
      at hmeets
    exact hmeets.forgetful trivial Relabeling.flow_same
  · exact (Evaluator.meets_runRoot trivial (halike depth) h path
      (everyStmts_of_forall hall statements)).forgetful trivial fun _ => rfl
  · have hmeets := Session.meets_runSource trivial hquiet depth path source h
      fun _ _ _ _ => everyStmts_of_forall hall _
    rw [Session.runSourceUnder_quiet] at hmeets
    exact hmeets.forgetful trivial fun _ => rfl

namespace Session

/-- At every moment of a session and after each of its steps, a machine that differs from that of
the session in nothing but what import references remember cannot be told from it. -/
theorem caches_unobservable (files : FileSystem) (clock depth : Nat) (steps : List Step) :
    (Throughout files clock depth steps fun _ m =>
      ∀ n : Machine, n.forget = m.forget → m.Indistinguishable n) ∧
    ∀ r ∈ play depth (start files clock) steps, ∀ n : Machine,
      n.forget = r.2.machine.forget → r.2.machine.Indistinguishable n := by
  have htidy : ∀ {m : Machine}, Tidy (everything True fun _ _ => True) m →
      ∀ n : Machine, n.forget = m.forget → m.Indistinguishable n := by
    intro m h n hforget
    have h' : Tidy (everything False fun _ _ => True) m :=
      ⟨h.values, h.heap, h.current, h.builtins, h.globals, h.exports⟩
    exact (h'.twins_of_forget hforget).indistinguishable fun _ _ => trivial
  exact ⟨(throughout_tidy files clock depth steps).mono fun _ _ h => htidy h,
    fun r hr => htidy (play_tidy files clock depth steps r hr)⟩

end Session

end ScriptEngine
