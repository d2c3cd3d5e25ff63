import ScriptEngine.Proofs.Evaluator.Reporting
import ScriptEngine.Proofs.Session.Load

/-!
# The status of a step

The reporter keeps two marks and a counter, and four kinds of reports change them. The status of a
step is read off the marks at its end, or set where the source does not compile. Either way it says
what was reported: `status_tells_reports` has the list of everything that a step reported, with the
cause of each report, and the status and the counter follow from the list.
-/

namespace ScriptEngine.Session

/-- The status stands for everything that was reported. -/
structure Tells (status : Status) (reports : List Report) : Prop where
  ok : status = .ok ↔ reports = []
  runtimeFailed : status = .runtimeFailed ↔ ∃ report ∈ reports, report.isUncaught = true
  compileFailed : status = .compileFailed ↔
    reports ≠ [] ∧ ∀ report ∈ reports, report.isUncaught = false

/-- Errors of a source are told by the status of a source that does not compile. -/
theorem tells_compileFailed {reports : List Report} (hne : reports ≠ [])
    (hcaught : ∀ report ∈ reports, report.isUncaught = false) : Tells .compileFailed reports where
  ok := by simpa using hne
  runtimeFailed := by simpa using hcaught
  compileFailed := by simpa using ⟨hne, hcaught⟩

/-- The marks that reports set stand for the reports. -/
theorem tells_reportedStatus {r : Reporter} (hr : r.marked = false) (reports : List Report) :
    Tells (reportedStatus (reports.foldl Reporter.note r)) reports := by
  have hruntime := Reporter.runtime_foldl_note reports r
  have hmarked := Reporter.marked_foldl_note reports r
  unfold Reporter.marked at hr hmarked
  obtain ⟨herror, hclear⟩ := Bool.or_eq_false_iff.mp hr
  rw [hclear, Bool.false_or] at hruntime
  rw [herror, hclear, hruntime, Bool.false_or, Bool.false_or] at hmarked
  unfold reportedStatus
  rw [hruntime]
  cases huncaught : reports.any Report.isUncaught with
  | true =>
    obtain ⟨report, hmem, hreport⟩ := List.any_eq_true.mp huncaught
    rw [if_pos rfl]
    refine ⟨?_, ?_, ?_⟩
    · simpa using List.ne_nil_of_mem hmem
    · simpa using ⟨report, hmem, hreport⟩
    · simpa using fun _ => ⟨report, hmem, hreport⟩
  | false =>
    have hcaught : ∀ report ∈ reports, report.isUncaught = false := by
      simpa using List.any_eq_false.mp huncaught
    rw [huncaught, Bool.or_false] at hmarked
    rw [if_neg Bool.false_ne_true, hmarked]
    cases reports with
    | nil => exact ⟨by simp, by simp, by simp⟩
    | cons report reports => exact tells_compileFailed (List.cons_ne_nil _ _) hcaught

/-- The modules whose halts a step can report: the one that it runs as the root, and those that it
makes. -/
def Concerns (m : Machine) (root : Path) (id : ModuleId) : Prop :=
  id ∈ (m.modules.lookup? root).toList ∨ m.modules.size ≤ id

/-- Reports of a step are what has become of the reporter, and each of them was the case. -/
structure Records (m : Machine) (root : Path) (reports : List Report) (m' : Machine) : Prop where
  heard : m.reporter.reset.Hears (Concerns m root) reports
  reporter : m'.reporter = reports.foldl Reporter.note m.reporter.reset
  count : m'.reporter.count = m.reporter.count + reports.length
  lines : m'.reporter.lines.size = m.reporter.lines.size + reports.length

/-- A step records what it reports if its reporter has noted just that. -/
theorem records_of_reporter {m m' : Machine} {root : Path} {reports : List Report}
    (hheard : m.reporter.reset.Hears (Concerns m root) reports)
    (h : m'.reporter = reports.foldl Reporter.note m.reporter.reset) :
    Records m root reports m' := by
  refine ⟨hheard, h, ?_, ?_⟩
  · rw [h, Reporter.count_foldl_note]
    rfl
  · rw [h, Reporter.size_foldl_note]
    rfl

/-- A run of a source records its reports, and unless it was broken off, the status tells them. -/
theorem records_runSource (depth : Nat) (s : Session) (text : String) :
    ∃ reports, Records s.machine s.root reports
        (Run.left (runSource depth s.root text s.machine)) ∧
      (Tells (s.left (runSource depth s.root text s.machine)).1 reports ∨
        (s.left (runSource depth s.root text s.machine)).1 = .unfinished ∧
          ∃ m, runSource depth s.root text s.machine = .error .exhausted m) := by
  obtain ⟨statements?, reports, nextExpr, hcompile, hheard, hnone⟩ :=
    Evaluator.compile?_reports text { s.machine with reporter := s.machine.reporter.reset }
  cases statements? with
  | none =>
    rw [runSource_none hcompile]
    exact ⟨reports, records_of_reporter (hheard.mono fun _ => False.elim) rfl,
      Or.inl (tells_compileFailed (hnone.mp rfl) hheard.caught)⟩
  | some statements =>
    -- A source that compiles is not reported.
    obtain rfl : reports = [] := not_not.mp fun hne => nomatch hnone.mpr hne
    obtain ⟨reports, hroot, hreporter⟩ := (Evaluator.accounts_runRoot (accounts_evaluatorUpTo depth)
      s.root statements { s.machine with
        reporter := s.machine.reporter.reset, nextExpr := nextExpr }).reports
    have hsettled : Evaluator.Settled _ ((evaluatorUpTo depth).runRoot s.root statements
        { s.machine with reporter := s.machine.reporter.reset, nextExpr := nextExpr }) :=
      Evaluator.settled_runRoot _ _ _
    have hbind : runSource depth s.root text s.machine =
        EStateM.bind ((evaluatorUpTo depth).runRoot s.root statements) (fun _ => pure true)
          { s.machine with reporter := s.machine.reporter.reset, nextExpr := nextExpr } :=
      runSource_some hcompile
    rw [EStateM.bind] at hbind
    refine ⟨reports, ?_⟩
    cases hr : (evaluatorUpTo depth).runRoot s.root statements
        { s.machine with reporter := s.machine.reporter.reset, nextExpr := nextExpr } with
    | ok u m =>
      rw [hr] at hbind hreporter
      rw [hbind]
      refine ⟨records_of_reporter hroot hreporter, Or.inl ?_⟩
      have htells := tells_reportedStatus (r := s.machine.reporter.reset) rfl reports
      rwa [← hreporter] at htells
    | error halt m =>
      rw [hr] at hbind hreporter hsettled
      rw [hbind]
      obtain rfl : halt = .exhausted := hsettled
      exact ⟨records_of_reporter hroot hreporter, Or.inr ⟨rfl, m, rfl⟩⟩

/-- Either the source of a step cannot be read, which leaves the session as it is, or the step
records what it reports: its status tells all of that, unless the run was broken off. -/
theorem status_tells_reports (depth : Nat) (s : Session) (step : Step) :
    (∃ fault, s.opened step = .error fault ∧ s.take depth step = (.fileFailed fault, s)) ∨
    ∃ text s' reports, s.opened step = .ok (text, s') ∧
      Records s.machine s'.root reports (s.take depth step).2.machine ∧
      (Tells (s.take depth step).1 reports ∨ (s.take depth step).1 = .unfinished ∧
        ∃ m, runSource depth s'.root text s'.machine = .error .exhausted m) := by
  cases hopened : s.opened step with
  | error fault => exact Or.inl ⟨fault, rfl, take_unreadable depth hopened⟩
  | ok pair =>
    obtain ⟨text, s'⟩ := pair
    obtain ⟨reports, hrecords, htells⟩ := records_runSource depth s' text
    rw [take_opened depth hopened]
    rw [← machine_left s'] at hrecords
    rw [← opened_machine hopened]
    exact Or.inr ⟨text, s', reports, rfl, hrecords, htells⟩

end ScriptEngine.Session
