import ScriptEngine.Proofs.Evaluator.Order
import ScriptEngine.Proofs.Session.Play

/-!
# Loads in sessions

A session may be watched with an eye on the loads that are under way. Each step begins with none,
and the module that it runs is the outermost. What holds at every moment then is `ThroughoutWithin`,
and `throughoutWithin_foreseen` joins what is known of the parts of the program that are about to
run with what is known of the loads.
-/

namespace ScriptEngine.Session

/-! ## Sessions that are watched -/

/-- Running a source under a watcher. -/
def runSourceWithin (o : Watcher) (depth : Nat) (root : Path) (source : String) : Run Bool := do
  Run.report Reporter.reset
  match ← Evaluator.compile? source with
  | none => pure false
  | some statements => do
    (loaderWithin o depth ⟨(← get).modules, []⟩).runRoot root statements
    pure true

/-- Takes one step under a watcher. -/
def takeWithin (o : Watcher) (depth : Nat) (s : Session) (step : Step) : Status × Session :=
  match s.opened step with
  | .error fault => (.fileFailed fault, s)
  | .ok (text, s) => s.left (runSourceWithin o depth s.root text s.machine)

/-- Plays some steps under a watcher. -/
def playWithin (o : Watcher) (depth : Nat) : Session → List Step → List (Status × Session)
  | _, [] => []
  | s, step :: steps =>
    s.takeWithin o depth step :: playWithin o depth (s.takeWithin o depth step).2 steps

/-- A watcher that takes no notice of the loads is an observer. -/
theorem takeWithin_blind (o : Observer) (depth : Nat) (s : Session) (step : Step) :
    s.takeWithin (fun _ => o) depth step = s.takeUnder o depth step := by
  have hsource : ∀ root text,
      runSourceWithin (fun _ => o) depth root text = runSourceUnder o depth root text := by
    intro root text
    unfold runSourceWithin runSourceUnder
    simp only [loaderWithin_blind]
    rfl
  unfold takeWithin takeUnder
  cases s.opened step with
  | error fault => rfl
  | ok pair =>
    obtain ⟨text, s'⟩ := pair
    show s'.left (runSourceWithin (fun _ => o) depth s'.root text s'.machine) = _
    rw [hsource]

/-- Nothing changes under the quiet watcher. -/
theorem takeWithin_quiet (depth : Nat) (s : Session) (step : Step) :
    s.takeWithin .quiet depth step = s.take depth step := by
  rw [← takeUnder_quiet]
  exact takeWithin_blind .quiet depth s step

/-- Every moment of the steps of a new session has a property, of the loads that are under way as
well: no watcher that keeps quiet at moments with the property changes the session. -/
def ThroughoutWithin (files : FileSystem) (clock depth : Nat) (steps : List Step)
    (P : Loads → Moment → Machine → Prop) : Prop :=
  ∀ o : Watcher, o.SilentOn P →
    playWithin o depth (start files clock) steps = play depth (start files clock) steps

/-- What holds at every moment may be weakened. -/
theorem ThroughoutWithin.mono {files : FileSystem} {clock depth : Nat} {steps : List Step}
    {P P' : Loads → Moment → Machine → Prop} (h : ThroughoutWithin files clock depth steps P)
    (hP : ∀ loads moment m, P loads moment m → P' loads moment m) :
    ThroughoutWithin files clock depth steps P' :=
  fun o ho => h o fun loads moment m hm => ho loads moment m (hP loads moment m hm)

section

variable (P : Loads → Machine → Prop) [∀ loads m, Decidable (P loads m)]

/-- The watcher that breaks a run off where a property that can be tested is missing. -/
def tester : Watcher := fun loads _ m =>
  if P loads m then none else some m

/-- If that watcher changes how some step ends, then the property does not hold throughout. -/
theorem not_throughoutWithin {files : FileSystem} {clock depth : Nat} {steps : List Step}
    (h : (playWithin (tester P) depth (start files clock) steps).map (·.1) ≠
      (play depth (start files clock) steps).map (·.1)) :
    ¬ ThroughoutWithin files clock depth steps fun loads _ m => P loads m := by
  intro hthroughout
  have hsame := hthroughout (tester P) fun loads moment m hm => if_pos hm
  rw [hsame] at h
  exact h rfl

end

/-! ## Running a source -/

/-- A source that does not compile runs nothing; the statements of any other run as those of the
root. -/
theorem runSource_cases (depth : Nat) (root : Path) (source : String) (m : Machine) :
    ∃ reporter nextExpr,
      (∀ o, runSourceWithin o depth root source m =
        .ok false { m with reporter := reporter, nextExpr := nextExpr }) ∨
      ∃ statements, ∀ o, runSourceWithin o depth root source m = ((do
        (loaderWithin o depth ⟨m.modules, []⟩).runRoot root statements
        pure true) : Run Bool) { m with reporter := reporter, nextExpr := nextExpr } := by
  obtain ⟨statements?, reporter, nextExpr, hcompile, -⟩ :=
    Evaluator.compile?_spec source { m with reporter := m.reporter.reset }
  refine ⟨reporter, nextExpr, ?_⟩
  cases statements? with
  | none =>
    refine Or.inl fun o => ?_
    show EStateM.bind (Evaluator.compile? source) _ { m with reporter := m.reporter.reset } = _
    rw [EStateM.bind, hcompile]
    rfl
  | some statements =>
    refine Or.inr ⟨statements, fun o => ?_⟩
    show EStateM.bind (Evaluator.compile? source) _ { m with reporter := m.reporter.reset } = _
    rw [EStateM.bind, hcompile]
    rfl

variable {P : Moment → Machine → Prop} {files : FileSystem} {depth : Nat}

theorem agrees_runRoot {m : Machine} (hfiles : m.files = files) (root : Path)
    (statements : List Stmt) :
    Agrees P files (fun o => (loaderWithin o depth ⟨m.modules, []⟩).runRoot root statements) m := by
  have hrest : ∀ {x : Watcher → Run Unit} {m : Machine}, Agrees P files x m →
      Agrees P files (fun o => do
        x o
        modify fun m => { m with current := Machine.builtins }) m := fun hx =>
    agrees_bind hx fun _ _ _ => agrees_const _ fun _ => rfl
  have hdepth := agreesUpTo P files depth
  rcases Evaluator.runRoot_cases root statements m with ⟨root, hlt, hrun⟩ | hrun
  · exact (hrest (agrees_runModule hdepth statements (.root hfiles hlt))).of_eq fun o => hrun _
  · exact (hrest (agrees_runModule hdepth statements (.newRoot hfiles _))).of_eq fun o => hrun _

theorem agrees_runSource {m : Machine} (hfiles : m.files = files) (root : Path) (source : String) :
    Agrees P files (fun o => runSourceWithin o depth root source) m := by
  obtain ⟨reporter, nextExpr, hrun | ⟨statements, hrun⟩⟩ := runSource_cases depth root source m
  · exact agrees_const _ hrun
  · refine Agrees.of_eq (agrees_bind (agrees_runRoot
      (m := { m with reporter := reporter, nextExpr := nextExpr }) hfiles root statements)
        fun _ m' _ => ?_) hrun
    exact agrees_const _ fun _ => rfl

/-! ## What a step leaves -/

/-- Opening the source of a step leaves the machine. -/
theorem opened_machine {s s' : Session} {step : Step} {text : String}
    (h : s.opened step = .ok (text, s')) : s'.machine = s.machine := by
  have hopened : True ∧ s'.machine = s.machine :=
    opened_ok (fun _ _ _ => trivial) (fun _ _ => trivial) h
  exact hopened.2

/-- A root goes onward, however it ends. -/
theorem onward_runRoot {ev : Evaluator} (h : ev.Proceeds) (path : Path) (statements : List Stmt)
    (m : Machine) : m.Onward (Run.left (ev.runRoot path statements m)) := by
  have hrun : ∀ root (m : Machine), m.Onward (Run.left (((do
      ev.runModule root statements
      modify fun m => { m with current := Machine.builtins }) : Run Unit) m)) := fun root m =>
    Evaluator.onward_leave (Evaluator.onward_runModule h root statements m)
      fun _ => ⟨rfl, .refl _, fun h => h⟩
  rcases Evaluator.runRoot_cases path statements m with ⟨root, -, heq⟩ | heq
  · rw [heq]
    exact hrun root m
  · rw [heq]
    have hcreated : m.Onward (m.createModule none path).2 :=
      ⟨rfl, m.modules.extends_create none path _ _, fun he => he⟩
    exact hcreated.trans (hrun _ _)

/-- What is left of a step is the machine of its outcome. -/
theorem machine_left (s : Session) (r : EStateM.Result Halt Machine Bool) :
    (s.left r).2.machine = Run.left r := by
  cases r with
  | ok compiled m => cases compiled <;> rfl
  | error halt m => rfl

/-- A step leaves the files as they are, and keeps the modules. -/
theorem take_extends (depth : Nat) (s : Session) (step : Step) :
    (s.take depth step).2.machine.files = s.machine.files ∧
      s.machine.modules.Extends (s.take depth step).2.machine.modules := by
  have hpure : ∀ (x : Run Unit) m, Run.left ((do x; pure true : Run Bool) m) = Run.left (x m) := by
    intro x m
    show Run.left (EStateM.bind x _ m) = _
    unfold EStateM.bind
    cases x m with
    | ok u m' => rfl
    | error halt m' => rfl
  rw [← takeWithin_quiet]
  unfold takeWithin
  cases hopened : s.opened step with
  | error fault => exact ⟨rfl, .refl _⟩
  | ok pair =>
    obtain ⟨text, s'⟩ := pair
    have hmachine := opened_machine hopened
    dsimp only
    rw [machine_left, ← hmachine]
    obtain ⟨reporter, nextExpr, hrun | ⟨statements, hrun⟩⟩ :=
      runSource_cases depth s'.root text s'.machine
    · rw [hrun]
      exact ⟨rfl, .refl _⟩
    · rw [hrun, hpure, loaderWithin_quiet]
      have honward := onward_runRoot (proceeds_evaluatorUpTo depth) s'.root statements
        { s'.machine with reporter := reporter, nextExpr := nextExpr }
      exact ⟨honward.files, honward.modules⟩

/-- Two moments of a step: the modules that a watcher finds when it breaks the step off are still
there when a watcher breaks it off later, or at the end. -/
theorem takeWithin_extends {o₁ o₂ : Watcher} (ho : o₁.Before o₂) (depth : Nat) (s : Session)
    (step : Step) : (s.takeWithin o₁ depth step).2.machine.modules.Extends
      (s.takeWithin o₂ depth step).2.machine.modules := by
  unfold takeWithin
  cases s.opened step with
  | error fault => exact .refl _
  | ok pair =>
    obtain ⟨text, s'⟩ := pair
    dsimp only
    rw [machine_left, machine_left]
    obtain ⟨reporter, nextExpr, hrun | ⟨statements, hrun⟩⟩ :=
      runSource_cases depth s'.root text s'.machine
    · rw [hrun, hrun]
      exact .refl _
    · rw [hrun, hrun]
      have hroot := Evaluator.earlier_runRoot
        (earlier_loaderWithin ho depth ⟨s'.machine.modules, []⟩) s'.root statements
      have horder := Run.earlierAt_bind
        (hroot { s'.machine with reporter := reporter, nextExpr := nextExpr })
        fun _ => Run.earlier_local (Run.plain_pure true).local
      exact horder.left.modules

/-- Later steps keep the modules of earlier ones. -/
theorem play_extends (depth : Nat) (steps : List Step) : ∀ s : Session,
    (∀ r ∈ play depth s steps, s.machine.modules.Extends r.2.machine.modules) ∧
      ((play depth s steps).map (·.2.machine.modules)).Pairwise ModuleTree.Extends := by
  induction steps with
  | nil => exact fun s => ⟨fun r hr => absurd hr List.not_mem_nil, .nil⟩
  | cons step steps ih =>
    intro s
    have hfirst := (take_extends depth s step).2
    obtain ⟨hrest, hpairs⟩ := ih (s.take depth step).2
    refine ⟨fun r hr => ?_, ?_⟩
    · rcases List.mem_cons.mp hr with rfl | hr
      · exact hfirst
      · exact hfirst.trans (hrest r hr)
    · refine List.pairwise_cons.mpr ⟨fun t ht => ?_, hpairs⟩
      obtain ⟨r, hr, rfl⟩ := List.mem_map.mp ht
      exact hrest r hr

/-! ## All steps of a session -/

/-- If the property is missing at no moment of a step, then no watcher changes the step. -/
theorem takeWithin_eq {s : Session} (hfiles : s.machine.files = files) {step : Step}
    (hguard : ∀ n, s.takeUnder (.guard P n) depth step = s.take depth step) {o : Watcher}
    (ho : o.SilentOn fun loads moment m => P moment m ∧ UnderWay files loads m) :
    s.takeWithin o depth step = s.take depth step := by
  have hblind := fun n => (takeWithin_blind (.guard P n) depth s step).trans (hguard n)
  rw [← takeWithin_quiet] at hblind ⊢
  unfold takeWithin at hblind ⊢
  cases hopened : s.opened step with
  | error fault => rfl
  | ok pair =>
    obtain ⟨text, s'⟩ := pair
    have hmachine := opened_machine hopened
    simp only [hopened] at hblind ⊢
    have hagrees : Agrees P files (fun o => runSourceWithin o depth s'.root text) s'.machine :=
      agrees_runSource (hmachine ▸ hfiles) s'.root text
    rcases hagrees with hspoiled | hsame
    -- Two guards with different numbers would leave different sessions.
    · have hnext : ∀ n, (s'.left (runSourceWithin .quiet depth s'.root text
          s'.machine)).2.machine.nextExpr = n := by
        intro n
        obtain ⟨m, hr, hn⟩ := hspoiled n
        dsimp only at hr
        rw [← hblind n, hr]
        exact hn
      exact absurd ((hnext 0).symm.trans (hnext 1)) (by simp)
    · exact congrArg s'.left (hsame o ho)

/-- No watcher that keeps quiet changes the steps of a session. -/
theorem playWithin_eq (steps : List Step) : ∀ {s : Session}, s.machine.files = files →
    (∀ n, playUnder (.guard P n) depth s steps = play depth s steps) → ∀ {o : Watcher},
      o.SilentOn (fun loads moment m => P moment m ∧ UnderWay files loads m) →
        playWithin o depth s steps = play depth s steps := by
  induction steps with
  | nil => exact fun _ _ _ _ => rfl
  | cons step steps ih =>
    intro s hfiles hguard o ho
    have hfirst : ∀ n, s.takeUnder (.guard P n) depth step = s.take depth step := fun n =>
      (List.cons.inj (hguard n)).1
    have hrest : ∀ n, playUnder (.guard P n) depth (s.take depth step).2 steps =
        play depth (s.take depth step).2 steps := by
      intro n
      have htail := (List.cons.inj (hguard n)).2
      rwa [hfirst n] at htail
    rw [playWithin, play, takeWithin_eq hfiles hfirst ho,
      ih ((take_extends depth s step).1.trans hfiles) hrest ho]

/-- At every moment of a session, the part of the program that is about to run is foreseen, in one
world for all of it, and the loads are under way. -/
theorem throughoutWithin_foreseen (files : FileSystem) (clock depth : Nat) (steps : List Step) :
    ∃ w : World, w.sources = sources files steps ∧
      ThroughoutWithin files clock depth steps fun loads moment m =>
        Foreseen w moment m ∧ UnderWay files loads m := by
  obtain ⟨w, hsources, hforeseen, -⟩ := throughout_foreseen files clock depth steps
  refine ⟨w, hsources, fun o ho => playWithin_eq steps rfl (fun n => ?_) ho⟩
  exact hforeseen (.guard (Foreseen w) n) fun moment m hm => if_pos hm

end ScriptEngine.Session
