import ScriptEngine.Proofs.Evaluator.Imported
import ScriptEngine.Proofs.Session.Load

/-!
# Modules whose load failed

A module whose load was stopped stays among the modules, and counts as loaded. All that keeps it
from being imported is that an error was reported, which an import looks at before it binds its
names. The reporter forgets errors when a step begins, and it does not count an error without a
place. So what is known of the module that an import has come to is this (`imports_end_well`): it
is still under way, or it is older than the step, or its statements were executed to the last
unless one was stopped by an error without a place.

Both exceptions are real: `failed_modules_imported` has a module that is stopped in one step and
imported in the next, and one that is stopped without a place and imported at once.
-/

namespace ScriptEngine

/-! ## Running statements to the last -/

/-- The place of what halts a computation. -/
def Machine.place? (m : Machine) : Halt → Option Token
  | .failed e => e.token?
  | .thrown id => (m.store.heap.error id).token?
  | .exhausted => none

/-- Statements are executed one after the other, and none is halted. -/
inductive Evaluator.Completes (ev : Evaluator) : List Stmt → Machine → Machine → Prop where
  | nil (m : Machine) : Completes ev [] m m
  | cons {s : Stmt} {rest : List Stmt} {flow : Flow} {m m₁ m' : Machine}
      (first : ev.execute s m = .ok flow m₁) (others : Completes ev rest m₁ m') :
      Completes ev (s :: rest) m m'

/-- Statements are executed up to one that is halted, and what halted it is reported. -/
inductive Evaluator.Stops (ev : Evaluator) (place? : Option Token) :
    List Stmt → Machine → Machine → Prop where
  | here {s : Stmt} {rest : List Stmt} {halt : Halt} {m m₁ : Machine}
      (halted : ev.execute s m = .error halt m₁) (known : halt ≠ .exhausted)
      (place : m₁.place? halt = place?) : Stops ev place? (s :: rest) m (reportHalt halt m₁)
  | later {s : Stmt} {rest : List Stmt} {flow : Flow} {m m₁ m' : Machine}
      (first : ev.execute s m = .ok flow m₁) (others : Stops ev place? rest m₁ m') :
      Stops ev place? (s :: rest) m m'

namespace Evaluator

variable {ev : Evaluator} {m m' : Machine}

/-- A module that has been run was run to the last statement, or up to one that was halted. -/
theorem runTopLevel_ok {statements : List Stmt} :
    ∀ {m}, ev.runTopLevel statements m = .ok () m' →
      ev.Completes statements m m' ∨ ∃ place?, ev.Stops place? statements m m' := by
  induction statements with
  | nil =>
    intro m hok
    cases hok
    exact Or.inl (.nil m')
  | cons s rest ih =>
    intro m hok
    rw [runTopLevel_cons, Run.either] at hok
    cases hs : ev.execute s m with
    | ok flow m₁ =>
      rw [hs] at hok
      rcases ih hok with hcompletes | ⟨place?, hstops⟩
      · exact Or.inl (.cons hs hcompletes)
      · exact Or.inr ⟨place?, .later hs hstops⟩
    | error halt m₁ =>
      rw [hs] at hok
      have hknown : halt ≠ .exhausted := by
        rintro rfl
        cases hok
      have hreport : reportHalt halt m₁ = m' := by
        cases halt with
        | exhausted => exact absurd rfl hknown
        | failed e => exact (EStateM.Result.ok.inj hok).2
        | thrown id => exact (EStateM.Result.ok.inj hok).2
      rw [← hreport]
      exact Or.inr ⟨m₁.place? halt, .here hs hknown rfl⟩

/-- An error with a place is counted. -/
theorem hadError_reportHalt (halt : Halt) (m : Machine) :
    (reportHalt halt m).reporter.hadError = (m.reporter.hadError || (m.place? halt).isSome) := by
  cases halt with
  | failed e => exact Reporter.hadError_stopped _ _ _
  | thrown id => exact Reporter.hadError_stopped _ _ _
  | exhausted => exact (Bool.or_false _).symm

/-- Statements that stop at a place leave the mark of an error. -/
theorem Stops.hadError {place? : Option Token} {statements : List Stmt}
    (h : ev.Stops place? statements m m') (hplace : place?.isSome) :
    m'.reporter.hadError = true := by
  induction h with
  | here halted known place => rw [hadError_reportHalt, place, hplace, Bool.or_true]
  | later first others ih => exact ih

end Evaluator

/-! ## Modules that were loaded without an error that counts -/

/-- The file of a module was run as its statements: its scopes were in order, and its statements
were executed to the last, unless one was stopped by an error without a place. -/
def Machine.RanWell (m : Machine) (k : ModuleId) : Prop :=
  ∃ depth source statements distances before after,
    m.files.read (m.modules.node k).path = .ok source ∧ Parses source statements ∧
    Scope.resolve statements = .ok distances ∧ after.Onward m ∧
    ((evaluatorUpTo depth).Completes statements (Evaluator.openModule k distances before) after ∨
      (evaluatorUpTo depth).Stops none statements (Evaluator.openModule k distances before) after)

/-- The scopes of a program are refused for some reason. -/
theorem Scope.resolve_error {statements : List Stmt} {errors : List ScopeError}
    (h : resolve statements = .error errors) : errors ≠ [] := by
  unfold resolve at h
  dsimp only at h
  split at h
  · cases h
  · next hne =>
    cases h
    exact fun heq => hne (List.isEmpty_iff.mpr heq)

/-- As long as no error was counted, the modules that have run did so well. -/
theorem Machine.HasRun.well {m : Machine} {k : ModuleId} (h : m.HasRun k)
    (herror : m.reporter.hadError = false) : m.RanWell k := by
  obtain ⟨depth, source, statements, before, after, hread, hparses, hrun, hafter⟩ := h.ended
  have hquiet := hafter.quiet herror
  rcases Evaluator.runModule_cases k statements before with
    ⟨errors, hresolve, heq⟩ | ⟨distances, hresolve, heq⟩
  · rw [heq] at hrun
    cases hrun
    have hcounted := Reporter.hadError_foldl (f := Reporter.scope) (fun _ _ => rfl) errors
      (r := before.reporter) (Or.inr (Scope.resolve_error hresolve))
    cases hcounted.symm.trans hquiet
  · rw [heq] at hrun
    obtain ⟨u, m₁, htop, hclose⟩ := Run.bind_ok hrun
    cases hclose
    refine ⟨depth, source, statements, distances, before, m₁, hread, hparses, hresolve,
      (Evaluator.onward_closeModule k m₁).trans hafter, ?_⟩
    rcases Evaluator.runTopLevel_ok htop with hcompletes | ⟨place?, hstops⟩
    · exact Or.inl hcompletes
    · cases place? with
      | none => exact Or.inr hstops
      | some token => cases (hstops.hadError rfl).symm.trans hquiet

/-! ## Imports that complete -/

/-- What is known of an import that completes: no error has been counted, and the module that its
names are bound to is under way, or older than the step, or ran well. -/
def Moment.ImportsWell (loads : Loads) (m : Machine) : Moment → Prop
  | .executing (.importFrom token items) => ∀ levels flow m',
    execute levels (.importFrom token items) m = .ok flow m' →
      m.reporter.hadError = false ∧ m'.reporter.hadError = false ∧
      ∃ importer target, m.active? = some importer ∧
        m'.modules.IsAt importer (m.importedPath importer token) target ∧
        (∀ item ∈ items, m'.BindsImport target item) ∧
        (target ∈ loads.stack ∨ target < loads.begun.size ∨ m'.RanWell target)
  | _ => True

/-- A foreseen import with the loads under way imports well. -/
theorem UnderWay.importsWell {files : FileSystem} {loads : Loads} {w : World} {moment : Moment}
    {m : Machine} (hu : UnderWay files loads m) (h : Foreseen w moment m) :
    moment.ImportsWell loads m := by
  obtain ⟨w₀, -, -, home, stack, hr⟩ := h
  cases moment with
  | evaluating e => trivial
  | executing s =>
    cases s with
    | importFrom token items =>
      intro levels flow m' hok
      obtain ⟨-, herror, target, hat, hitems⟩ := hr.import_ok hok
      have hends := (proceeds_evaluatorUpTo levels).execute (.importFrom token items) m
      change Run.EndsLater m (execute levels (.importFrom token items) m) at hends
      rw [hok] at hends
      have hlater : UnderWay files loads m' := hu.later hends
      refine ⟨hends.quiet herror, herror, home, target, hr.active, hat, hitems, ?_⟩
      by_cases hstack : target ∈ loads.stack
      · exact Or.inl hstack
      · rcases Nat.lt_or_ge target loads.begun.size with hold | hnew
        · exact Or.inr (Or.inl hold)
        · exact Or.inr (Or.inr ((hlater.ended target hat.lt hnew hstack).well herror))
    | _ => trivial

namespace Session

/-- At every moment of a session, an import that completes has come to a module that is under way,
that is older than the step, or that ran well. -/
theorem imports_end_well (files : FileSystem) (clock depth : Nat) (steps : List Step) :
    ThroughoutWithin files clock depth steps fun loads moment m =>
      moment.ImportsWell loads m := by
  obtain ⟨w, -, hthroughout⟩ := throughoutWithin_foreseen files clock depth steps
  exact hthroughout.mono fun loads moment m ⟨hforeseen, hu⟩ => hu.importsWell hforeseen

/-- A library that is stopped, by an error with a place or by one without. -/
def brokenFiles : FileSystem :=
  ⟨[(["lib.sss"], .file (some "export var x; y;")),
    (["early.sss"], .file (some "export var x; \x7b var a = (() -> a)(); \x7d"))], []⟩

/-- A module that was stopped in one step is imported in the next, and one that was stopped by an
error without a place is imported at once. -/
theorem failed_modules_imported :
    (play 12 (start brokenFiles 0) [.source "from './lib' import x;",
      .source "from './lib' import x;"]).map (·.1) = [.runtimeFailed, .ok] ∧
    (play 12 (start brokenFiles 0) [.source "from './early' import x; print 'on';"]).map
        (fun r => (r.1, r.2.machine.reporter.lines, r.2.machine.store.output)) =
      [(.runtimeFailed, #["Undefined local variable 'a' at distance 1."], #["on"])] := by
  decide +kernel

end Session

end ScriptEngine
