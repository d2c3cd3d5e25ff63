import ScriptEngine.Session
import ScriptEngine.Proofs.Evaluator.Statement

/-!
# Whole sessions

A session is played step by step, and it may be watched while it is. What holds at every moment of
a session is `Throughout`: an observer that would break the session off only at a moment without
the property cannot be told from one that is not there.

`throughout_foreseen` is what everything about sessions rests on. There is one account of what the
frames of a session were made for, kept from its first step to its last, and at every moment the
part of the program that is about to run is ready to run by that account. It follows from two
facts: a new machine is sound, and running a source leaves a sound machine sound.
-/

namespace ScriptEngine.Session

/-- A step of a session: a source that comes from no file, or the file at a path. -/
inductive Step where
  | source (text : String)
  | file (path : Path)

/-- Takes one step, with a bound on the depth. -/
def take (depth : Nat) (s : Session) : Step → Status × Session
  | .source text => s.runUpTo depth text
  | .file path => s.runFileUpTo depth path

/-- How each of some steps ended, and the session then. -/
def play (depth : Nat) : Session → List Step → List (Status × Session)
  | _, [] => []
  | s, step :: steps => s.take depth step :: play depth (s.take depth step).2 steps

/-! ## Sessions that are watched -/

/-- Running a source under an observer. -/
def runSourceUnder (o : Observer) (depth : Nat) (root : Path) (source : String) : Run Bool := do
  Run.report Reporter.reset
  match ← Evaluator.compile? source with
  | none => pure false
  | some statements => do
    (evaluatorUnder o depth).runRoot root statements
    pure true

/-- The source that a step runs and the session that it runs in, unless it is a file that cannot
be read. -/
def opened (s : Session) : Step → Except FileFault (String × Session)
  | .source text => .ok (text, s)
  | .file path =>
    match s.machine.files.canonicalize path with
    | .error fault => .error fault
    | .ok path =>
      match s.machine.files.read path with
      | .error fault => .error fault
      | .ok text =>
        .ok (text, { s with root := path, directory := path.parent?.getD s.directory })

/-- The session that a run of a source leaves. -/
def left (s : Session) : EStateM.Result Halt Machine Bool → Status × Session
  | .ok true m => (reportedStatus m.reporter, { s with machine := m })
  | .ok false m => (.compileFailed, { s with machine := m })
  | .error _ m => (.unfinished, { s with machine := m })

/-- Takes one step under an observer. -/
def takeUnder (o : Observer) (depth : Nat) (s : Session) (step : Step) : Status × Session :=
  match s.opened step with
  | .error fault => (.fileFailed fault, s)
  | .ok (text, s) => s.left (runSourceUnder o depth s.root text s.machine)

/-- Plays some steps under an observer. -/
def playUnder (o : Observer) (depth : Nat) : Session → List Step → List (Status × Session)
  | _, [] => []
  | s, step :: steps =>
    s.takeUnder o depth step :: playUnder o depth (s.takeUnder o depth step).2 steps

/-- Nothing changes for a source under the quiet observer. -/
theorem runSourceUnder_quiet (depth : Nat) (root : Path) (source : String) :
    runSourceUnder .quiet depth root source = runSource depth root source := by
  rw [runSourceUnder, evaluatorUnder_quiet]
  rfl

/-- Nothing changes for a step under the quiet observer. -/
theorem takeUnder_quiet (depth : Nat) (s : Session) (step : Step) :
    s.takeUnder .quiet depth step = s.take depth step := by
  -- A source and a file that has been read are run in the same way.
  have hrun : ∀ (s : Session) text,
      s.left (runSourceUnder .quiet depth s.root text s.machine) = s.runUpTo depth text := by
    intro s text
    rw [runSourceUnder_quiet, runUpTo]
    cases runSource depth s.root text s.machine with
    | ok compiled m => cases compiled <;> rfl
    | error halt m => rfl
  cases step with
  | source text => exact hrun s text
  | file path =>
    unfold takeUnder opened take runFileUpTo
    dsimp only
    cases s.machine.files.canonicalize path with
    | error fault => rfl
    | ok path =>
      dsimp only
      cases s.machine.files.read path with
      | error fault => rfl
      | ok text => exact hrun _ text

/-- A source that does not compile is not run. -/
theorem runSource_none {depth : Nat} {root : Path} {text : String} {m m₁ : Machine}
    (h : Evaluator.compile? text { m with reporter := m.reporter.reset } = .ok none m₁) :
    runSource depth root text m = .ok false m₁ := by
  show EStateM.bind (Evaluator.compile? text) _ { m with reporter := m.reporter.reset } = _
  rw [EStateM.bind, h]
  rfl

/-- A source that compiles has its statements run in the root. -/
theorem runSource_some {depth : Nat} {root : Path} {text : String} {m m₁ : Machine}
    {statements : List Stmt}
    (h : Evaluator.compile? text { m with reporter := m.reporter.reset } =
      .ok (some statements) m₁) :
    runSource depth root text m =
      (do (evaluatorUpTo depth).runRoot root statements; pure true : Run Bool) m₁ := by
  show EStateM.bind (Evaluator.compile? text) _ { m with reporter := m.reporter.reset } = _
  rw [EStateM.bind, h]

/-- A file that cannot be read is all that a step says. -/
theorem take_unreadable {s : Session} {step : Step} {fault : FileFault} (depth : Nat)
    (h : s.opened step = .error fault) : s.take depth step = (.fileFailed fault, s) := by
  rw [← takeUnder_quiet, takeUnder, h]

/-- A step whose source can be read runs it. -/
theorem take_opened {s s' : Session} {step : Step} {text : String} (depth : Nat)
    (h : s.opened step = .ok (text, s')) :
    s.take depth step = s'.left (runSource depth s'.root text s'.machine) := by
  rw [← takeUnder_quiet, takeUnder, h, ← runSourceUnder_quiet]

/-- Nothing changes under the quiet observer. -/
theorem playUnder_quiet (depth : Nat) (s : Session) (steps : List Step) :
    playUnder .quiet depth s steps = play depth s steps := by
  induction steps generalizing s with
  | nil => rfl
  | cons step steps ih => rw [playUnder, play, takeUnder_quiet, ih]

/-- Every moment of the steps of a new session has a property: no observer that keeps quiet at
moments with the property changes the session. -/
def Throughout (files : FileSystem) (clock depth : Nat) (steps : List Step)
    (P : Moment → Machine → Prop) : Prop :=
  ∀ o : Observer, (∀ moment m, P moment m → o moment m = none) →
    playUnder o depth (start files clock) steps = play depth (start files clock) steps

/-- What holds at every moment may be weakened. -/
theorem Throughout.mono {files : FileSystem} {clock depth : Nat} {steps : List Step}
    {P P' : Moment → Machine → Prop} (h : Throughout files clock depth steps P)
    (hP : ∀ moment m, P moment m → P' moment m) : Throughout files clock depth steps P' :=
  fun o ho => h o fun moment m hm => ho moment m (hP moment m hm)

/-- A property that some moment lacks does not hold throughout. -/
example : ¬ Throughout ⟨[], []⟩ 0 5 [.source "x;"] fun moment _ => ∀ e, moment ≠ .evaluating e := by
  intro h
  have hstatus := congrArg (List.map (·.1)) (h
    (fun moment m => match moment with
      | .evaluating _ => some m
      | .executing _ => none)
    fun moment m hm => by
      cases moment with
      | evaluating e => exact absurd rfl (hm e)
      | executing s => rfl)
  exact absurd hstatus (by decide +kernel)

/-! ## A new machine is sound -/

/-- The sources that the programs of a session can come from: its own and the texts of files. -/
def sources (files : FileSystem) (steps : List Step) (text : String) : Prop :=
  Step.source text ∈ steps ∨ ∃ path, files.read path = .ok text

/-- What is known of a new machine: its only frame is that of the built-ins, which has no construct
around it. -/
def world (sources : String → Prop) : World :=
  ⟨[⟨0, []⟩], sources, 0⟩

/-- What is bound in the beginning is sound. -/
theorem valueOk_builtin {clockId : Identity} {w : World} {m : Machine} {name : String} {v : Value}
    (h : (Machine.builtinBindings clockId).lookup name = some v) : ValueOk w m v := by
  rcases List.mem_append.mp (mem_of_lookup h) with hmem | hmem
  · obtain ⟨c, -, heq⟩ := List.mem_map.mp hmem
    rw [← (Prod.mk.inj heq).2]
    trivial
  · rw [(Prod.mk.inj (List.mem_singleton.mp hmem)).2]
    trivial

theorem sound_start {files : FileSystem} {clock : Nat} {sources : String → Prop}
    (hfiles : ∀ path text, files.read path = .ok text → sources text) :
    Sound 0 (world sources) (Machine.start files clock) where
  labelled := rfl
  values := fun f name v hv => by
    cases f with
    -- The only frame holds the built-ins, which are no code of any program.
    | zero => exact valueOk_builtin hv
    | succ f => cases hv
  heap := (Heap.Fit.empty _).of_eq rfl rfl rfl rfl
  bounded := Nat.zero_le _
  issued := Nat.le_refl _
  tables := fun k id d hd => by
    have hnone : (ModuleTree.node .empty k).distances[id]? = none := Std.TreeMap.getElem?_emptyc
    cases hnone.symm.trans hd
  globals := fun k hk => absurd hk (Nat.not_lt_zero k)
  exports := fun k hk => absurd hk (Nat.not_lt_zero k)
  linked := .empty
  imported := .empty
  builtins := ⟨0, rfl, rfl⟩
  receivers := fun f home decls sites ho => by
    cases f with
    | zero => cases ho
    | succ f => cases ho
  files := hfiles
  lines := fun line hline => absurd hline (Array.not_mem_empty line)

/-! ## Running sources keeps it sound -/

variable {w : World} {s : Session} {depth : Nat}

/-- Running a source can be followed, wherever it ends. -/
theorem passes_runSource {m : Machine} (hs : Sound 0 w m) (depth : Nat) (root : Path)
    {source : String} (hsource : w.sources source) :
    Passes 0 w m (fun o => runSourceUnder o depth root source) fun _ _ _ => True := by
  refine passes_bind (tracks_report hs fun _ hl => Or.inl hl).passes ?_
  rintro w₁ m₁ _ h₁ rfl
  refine passes_bind (tracks_compile? h₁.sound hsource).passes ?_
  rintro w₂ m₂ statements? h₂ ⟨-, hcompiled⟩
  cases statements? with
  | none => exact (tracks_pure h₂.sound trivial).passes
  | some statements =>
    refine passes_bind (passes_runRoot (tracks_evaluatorUnder depth) h₂.sound root
      (hcompiled statements rfl)) fun w₃ m₃ _ h₃ _ => ?_
    exact (tracks_pure h₃.sound trivial).passes

theorem left_sound {w' : World} {kept : Machine → Prop} {Q : World → Machine → Bool → Prop}
    {r : EStateM.Result Halt Machine Bool} (h : Reaches 0 kept w s.machine w' Q r) :
    Moves 0 w s.machine w' (s.left r).2.machine ∧ Sound 0 w' (s.left r).2.machine := by
  cases r with
  -- However the run ended, the session goes on with the machine that it left.
  | ok compiled m => cases compiled <;> exact ⟨h.1.moves, h.1.sound⟩
  | error halt m => exact ⟨h.1.moves, h.1.sound⟩

/-- What opening a step leads to: a source that is known, in the same machine. -/
theorem opened_ok {known : String → Prop}
    (hfiles : ∀ path text, s.machine.files.read path = .ok text → known text) {step : Step}
    (hstep : ∀ text, step = .source text → known text) {text : String} {s' : Session}
    (h : s.opened step = .ok (text, s')) : known text ∧ s'.machine = s.machine := by
  cases step with
  | source text' =>
    obtain ⟨rfl, rfl⟩ := Prod.mk.inj (Except.ok.inj h)
    exact ⟨hstep _ rfl, rfl⟩
  | file path =>
    unfold opened at h
    dsimp only at h
    split at h
    · cases h
    · split at h
      · cases h
      · next hread =>
        obtain ⟨rfl, rfl⟩ := Prod.mk.inj (Except.ok.inj h)
        exact ⟨hfiles _ _ hread, rfl⟩

/-- One step of a session: the world has grown, the machine is sound in it, and no observer that
keeps quiet at foreseen moments has changed anything. -/
theorem take_sound (hs : Sound 0 w s.machine) (depth : Nat) {step : Step}
    (hstep : ∀ text, step = .source text → w.sources text) :
    ∃ w', Moves 0 w s.machine w' (s.take depth step).2.machine ∧
      Sound 0 w' (s.take depth step).2.machine ∧
      ∀ o : Observer, o.SilentOn w' → s.takeUnder o depth step = s.take depth step := by
  rw [← takeUnder_quiet]
  unfold takeUnder
  cases hopened : s.opened step with
  | error fault => exact ⟨w, .refl 0 w s.machine, hs, fun _ _ => rfl⟩
  | ok pair =>
    obtain ⟨text, s'⟩ := pair
    obtain ⟨hsource, hmachine⟩ := opened_ok hs.files hstep hopened
    dsimp only
    obtain ⟨w', hr, ho⟩ := passes_runSource (hmachine ▸ hs) depth s'.root hsource
    obtain ⟨hm, hs'⟩ := left_sound hr
    exact ⟨w', hmachine ▸ hm, hs', fun o hso => congrArg s'.left (ho o hso)⟩

/-- All steps of a session: one world that all of it is foreseen in, and lines that can be
explained. -/
theorem play_sound (depth : Nat) (steps : List Step) :
    ∀ {w : World} {s : Session}, Sound 0 w s.machine →
      (∀ text, .source text ∈ steps → w.sources text) →
      ∃ w' m', Moves 0 w s.machine w' m' ∧
        (∀ r ∈ play depth s steps, ∀ line ∈ r.2.machine.reporter.lines,
          Explained w.sources line) ∧
        ∀ o : Observer, o.SilentOn w' → playUnder o depth s steps = play depth s steps := by
  induction steps with
  | nil =>
    intro w s hs _
    exact ⟨w, s.machine, .refl 0 w s.machine, fun r hr => absurd hr List.not_mem_nil,
      fun _ _ => rfl⟩
  | cons step steps ih =>
    intro w s hs hsources
    obtain ⟨w₁, hm₁, hs₁, ho₁⟩ := take_sound hs depth
      fun text heq => hsources text (heq ▸ List.mem_cons_self)
    obtain ⟨w₂, m₂, hm₂, hlines, ho₂⟩ := ih hs₁ fun text hmem => by
      rw [hm₁.sources]
      exact hsources text (List.mem_cons_of_mem step hmem)
    refine ⟨w₂, m₂, hm₁.trans hm₂, fun r hr => ?_, fun o hso => ?_⟩
    · rcases List.mem_cons.mp hr with rfl | hr
      · exact hm₁.sources ▸ hs₁.lines
      · exact hm₁.sources ▸ hlines r hr
    -- What the first step foresees is also foreseen in the world at the end of all steps.
    · rw [playUnder, play, ho₁ o (hso.mono hm₂), ho₂ o hso]

/-- After each step of a session the machine is sound in a world that has grown. -/
theorem play_moves (depth : Nat) (steps : List Step) :
    ∀ {w : World} {s : Session}, Sound 0 w s.machine →
      (∀ text, .source text ∈ steps → w.sources text) →
      ∀ r ∈ play depth s steps, ∃ w', Moves 0 w s.machine w' r.2.machine ∧
        Sound 0 w' r.2.machine := by
  induction steps with
  | nil => exact fun _ _ r hr => absurd hr List.not_mem_nil
  | cons step steps ih =>
    intro w s hs hsources r hr
    obtain ⟨w₁, hm₁, hs₁, -⟩ := take_sound hs depth
      fun text heq => hsources text (heq ▸ List.mem_cons_self)
    rcases List.mem_cons.mp hr with rfl | hr
    · exact ⟨w₁, hm₁, hs₁⟩
    · obtain ⟨w₂, hm₂, hs₂⟩ := ih hs₁ (fun text hmem => by
        rw [hm₁.sources]
        exact hsources text (List.mem_cons_of_mem step hmem)) r hr
      exact ⟨w₂, hm₁.trans hm₂, hs₂⟩

/-- After each step of a session the machine is sound in some world. -/
theorem play_sounds (depth : Nat) (steps : List Step) {w : World} {s : Session}
    (hs : Sound 0 w s.machine) (hsources : ∀ text, .source text ∈ steps → w.sources text) :
    ∀ r ∈ play depth s steps, ∃ w', Sound 0 w' r.2.machine := fun r hr =>
  (play_moves depth steps hs hsources r hr).imp fun _ => And.right

/-- After each step of a new session the machine is sound. -/
theorem steps_sound (files : FileSystem) (clock depth : Nat) (steps : List Step) :
    ∀ r ∈ play depth (start files clock) steps, ∃ w, Sound 0 w r.2.machine := by
  have hstart : Sound 0 (world (sources files steps)) (start files clock).machine :=
    sound_start fun path text hread => Or.inr ⟨path, hread⟩
  exact play_sounds depth steps hstart fun text hmem => Or.inl hmem

/-- Every moment of a session is foreseen in one world, and every line of diagnostics can be
explained. -/
theorem throughout_foreseen (files : FileSystem) (clock depth : Nat) (steps : List Step) :
    ∃ w : World, w.sources = sources files steps ∧
      Throughout files clock depth steps (Foreseen w) ∧
      ∀ r ∈ play depth (start files clock) steps, ∀ line ∈ r.2.machine.reporter.lines,
        Explained (sources files steps) line := by
  have hstart : Sound 0 (world (sources files steps)) (start files clock).machine :=
    sound_start fun path text hread => Or.inr ⟨path, hread⟩
  obtain ⟨w, m, hm, hlines, ho⟩ := play_sound depth steps hstart fun text hmem => Or.inl hmem
  exact ⟨w, hm.sources, ho, hlines⟩

end ScriptEngine.Session
