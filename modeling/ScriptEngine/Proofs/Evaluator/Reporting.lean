import ScriptEngine.Proofs.Evaluator.Later

/-!
# What a run reports

Four kinds of things are reported: lexical errors, syntax errors and scope errors of a source, and
what halted the statements of a module. A `Report` is one of them, and writes one line. Whatever a
run leaves in the reporter is what its reports wrote, one after the other
(`accounts_evaluatorUpTo`), and every report has a cause: the error was found in some source, or the
statements of the module were executed up to one that was halted (`Report.Founded`).

A run of a part of a program reports a halt only of modules that it loaded itself, because what
halts the module that runs is reported by whoever runs it.
-/

namespace ScriptEngine

/-! ## Reports -/

/-- What is said of a halt: where, and in which words. Of a computation that was broken off there is
nothing to say. -/
def Machine.notice? (m : Machine) : Halt → Option (Option Token × String)
  | .failed e => some (e.token?, e.message)
  | .thrown id =>
    some ((m.store.heap.error id).token?, m.store.heap.display (m.store.heap.error id).message)
  | .exhausted => none

/-- One thing that is reported. -/
inductive Report where
  | lexical (e : LexicalError)
  | syntactic (e : SyntaxError)
  | scope (e : ScopeError)
  /-- What halted the statements of a module. -/
  | uncaught (id : ModuleId) (token? : Option Token) (message : String)

/-- Whether what is reported halted a module. -/
def Report.isUncaught : Report → Bool
  | uncaught _ _ _ => true
  | _ => false

namespace Reporter

/-- Something more is reported. -/
def note (r : Reporter) : Report → Reporter
  | .lexical e => r.lexical e
  | .syntactic e => r.syntactic e
  | .scope e => r.scope e
  | .uncaught _ token? message => r.stopped token? message

/-- Whether one of the marks is set. -/
def marked (r : Reporter) : Bool := r.hadError || r.hadRuntimeError

theorem note_count (r : Reporter) (report : Report) : (r.note report).count = r.count + 1 := by
  cases report with
  | uncaught id token? message => cases token? <;> rfl
  | _ => rfl

theorem note_size (r : Reporter) (report : Report) :
    (r.note report).lines.size = r.lines.size + 1 := by
  cases report with
  | uncaught id token? message => cases token? <;> exact Array.size_push _
  | _ => exact Array.size_push _

/-- The mark of a runtime error is set by what halts a module, and by nothing else. -/
theorem note_runtime (r : Reporter) (report : Report) :
    (r.note report).hadRuntimeError = (r.hadRuntimeError || report.isUncaught) := by
  cases report with
  | uncaught id token? message => exact (Bool.or_true _).symm
  | _ => exact (Bool.or_false _).symm

/-- Every report sets one of the marks: one that has no place in a source sets the second. -/
theorem note_marked (r : Reporter) (report : Report) : (r.note report).marked = true := by
  cases report with
  | uncaught id token? message => exact Bool.or_true _
  | _ => exact Bool.true_or _

variable (reports : List Report)

theorem count_foldl_note (r : Reporter) :
    (reports.foldl note r).count = r.count + reports.length := by
  induction reports generalizing r with
  | nil => rfl
  | cons report reports ih =>
    rw [List.foldl_cons, ih, note_count, List.length_cons, Nat.add_assoc, Nat.add_comm 1]

theorem size_foldl_note (r : Reporter) :
    (reports.foldl note r).lines.size = r.lines.size + reports.length := by
  induction reports generalizing r with
  | nil => rfl
  | cons report reports ih =>
    rw [List.foldl_cons, ih, note_size, List.length_cons, Nat.add_assoc, Nat.add_comm 1]

/-- Among several reports one that halts a module sets the mark of a runtime error. -/
theorem runtime_foldl_note (r : Reporter) :
    (reports.foldl note r).hadRuntimeError =
      (r.hadRuntimeError || reports.any Report.isUncaught) := by
  induction reports generalizing r with
  | nil => exact (Bool.or_false _).symm
  | cons report reports ih => rw [List.foldl_cons, ih, note_runtime, List.any_cons, Bool.or_assoc]

/-- After some reports one of the marks is set; without any they are as before. -/
theorem marked_foldl_note (r : Reporter) :
    (reports.foldl note r).marked = (r.marked || !reports.isEmpty) := by
  induction reports generalizing r with
  | nil => exact (Bool.or_false _).symm
  | cons report reports ih => rw [List.foldl_cons, ih, note_marked]; simp

end Reporter

/-! ## Causes -/

/-- Statements are executed one after the other up to one that is halted. -/
inductive Evaluator.Halts (ev : Evaluator) (halt : Halt) (m' : Machine) :
    List Stmt → Machine → Prop where
  | here {s : Stmt} {rest : List Stmt} {m : Machine} (halted : ev.execute s m = .error halt m') :
      Halts ev halt m' (s :: rest) m
  | later {s : Stmt} {rest : List Stmt} {flow : Flow} {m m₁ : Machine}
      (first : ev.execute s m = .ok flow m₁) (others : Halts ev halt m' rest m₁) :
      Halts ev halt m' (s :: rest) m

/-- What is reported to a reporter is the case: the error is one of those of a source, or the
statements of the module, whose scopes were in order, were halted by what is reported, and the
reporter is the one that they left. -/
def Report.Founded (r : Reporter) : Report → Prop
  | lexical e => ∃ source errors, Token.scan source = .error errors ∧ e ∈ errors
  | syntactic e => ∃ source tokens first errors, Token.scan source = .ok tokens ∧
      (parse first tokens).result = .error errors ∧ e ∈ errors
  | scope e => ∃ statements errors, Scope.resolve statements = .error errors ∧ e ∈ errors
  | uncaught id token? message => ∃ depth statements distances before halt after,
      Scope.resolve statements = .ok distances ∧
      (evaluatorUpTo depth).Halts halt after statements
        (Evaluator.openModule id distances before) ∧
      after.reporter = r ∧ after.notice? halt = some (token?, message)

/-- The report is the case, and if it is about a halt, then the module is one of those named. -/
def Report.Of (modules : ModuleId → Prop) (r : Reporter) (report : Report) : Prop :=
  report.Founded r ∧ ∀ id token? message, report = .uncaught id token? message → modules id

/-- Each of the reports is the case when it is made. -/
def Reporter.Hears (modules : ModuleId → Prop) : List Report → Reporter → Prop
  | [], _ => True
  | report :: reports, r => report.Of modules r ∧ Hears modules reports (r.note report)

namespace Reporter.Hears

variable {modules modules' : ModuleId → Prop} {reports reports' : List Report} {r : Reporter}

/-- Reports are heard one after the other. -/
theorem append (h : r.Hears modules reports)
    (h' : (reports.foldl note r).Hears modules reports') :
    r.Hears modules (reports ++ reports') := by
  induction reports generalizing r with
  | nil => exact h'
  | cons report reports ih => exact ⟨h.1, ih h.2 h'⟩

/-- What is heard of some modules is heard of more. -/
theorem mono (h : r.Hears modules reports) (hle : ∀ id, modules id → modules' id) :
    r.Hears modules' reports := by
  induction reports generalizing r with
  | nil => trivial
  | cons report reports ih =>
    exact ⟨⟨h.1.1, fun id token? message heq => hle id (h.1.2 id token? message heq)⟩, ih h.2⟩

/-- Where no module is named, no halt is reported. -/
theorem caught (h : r.Hears (fun _ => False) reports) :
    ∀ report ∈ reports, report.isUncaught = false := by
  induction reports generalizing r with
  | nil => exact List.forall_mem_nil _
  | cons report reports ih =>
    refine List.forall_mem_cons.mpr ⟨?_, ih h.2⟩
    cases report with
    | uncaught id token? message => exact (h.1.2 id token? message rfl).elim
    | _ => rfl

/-- Errors of a source may be reported to any reporter. -/
theorem of_errors (hfounded : ∀ report ∈ reports, ∀ r, report.Founded r)
    (hcaught : ∀ report ∈ reports, report.isUncaught = false) : r.Hears modules reports := by
  induction reports generalizing r with
  | nil => trivial
  | cons report reports ih =>
    obtain ⟨hfirst, hrest⟩ := List.forall_mem_cons.mp hfounded
    obtain ⟨hfirst', hrest'⟩ := List.forall_mem_cons.mp hcaught
    refine ⟨⟨hfirst r, ?_⟩, ih hrest hrest'⟩
    rintro id token? message rfl
    cases hfirst'

end Reporter.Hears

/-- The reports, which are about halts of certain modules, are all that has happened to the
reporter. -/
def Machine.Reports (modules : ModuleId → Prop) (m m' : Machine) : Prop :=
  ∃ reports, m.reporter.Hears modules reports ∧
    m'.reporter = reports.foldl Reporter.note m.reporter

namespace Machine.Reports

variable {modules modules' : ModuleId → Prop} {m m' m'' : Machine}

/-- With the same reporter nothing was reported. -/
theorem of_eq (h : m'.reporter = m.reporter) : m.Reports modules m' :=
  ⟨[], trivial, h⟩

/-- What is reported in two stretches is reported in one. -/
theorem trans (h : m.Reports modules m') (h' : m'.Reports modules m'') :
    m.Reports modules m'' := by
  obtain ⟨reports, hreports, heq⟩ := h
  obtain ⟨reports', hreports', heq'⟩ := h'
  refine ⟨reports ++ reports', hreports.append (heq ▸ hreports'), ?_⟩
  rw [heq', heq, List.foldl_append]

theorem mono (h : m.Reports modules m') (hle : ∀ id, modules id → modules' id) :
    m.Reports modules' m' := by
  obtain ⟨reports, hreports, heq⟩ := h
  exact ⟨reports, hreports.mono hle, heq⟩

end Machine.Reports

/-! ## Computations that account for what they report -/

/-- The halts that are reported are those of some modules and of modules that are new, and no module
is gone. -/
structure Machine.Accounts (own : List ModuleId) (m m' : Machine) : Prop where
  size : m.modules.size ≤ m'.modules.size
  reports : m.Reports (fun id => id ∈ own ∨ m.modules.size ≤ id) m'

namespace Machine.Accounts

variable {own own' : List ModuleId} {m m' m'' : Machine}

theorem of_eq (hsize : m.modules.size ≤ m'.modules.size) (h : m'.reporter = m.reporter) :
    m.Accounts own m' :=
  ⟨hsize, .of_eq h⟩

theorem trans (h : m.Accounts own m') (h' : m'.Accounts own m'') : m.Accounts own m'' :=
  ⟨Nat.le_trans h.size h'.size,
    h.reports.trans (h'.reports.mono fun _ => Or.imp_right (Nat.le_trans h.size))⟩

theorem mono (h : m.Accounts own m') (hle : own ⊆ own') : m.Accounts own' m' :=
  ⟨h.size, h.reports.mono fun _ => Or.imp_left fun hid => hle hid⟩

/-- The halts of modules that are new by now were those of some modules. -/
theorem of_new (h : m'.Accounts own m'') (hsize : m.modules.size ≤ m'.modules.size)
    (heq : m'.reporter = m.reporter) (hnew : ∀ id ∈ own, id ∈ own' ∨ m.modules.size ≤ id) :
    m.Accounts own' m'' := by
  obtain ⟨reports, hreports, hreporter⟩ := h.reports
  refine ⟨Nat.le_trans hsize h.size, reports, heq ▸ hreports.mono ?_, heq ▸ hreporter⟩
  rintro id (hid | hid)
  · exact hnew id hid
  · exact Or.inr (Nat.le_trans hsize hid)

end Machine.Accounts

namespace Run

/-- However the computation ends, what it leaves in the reporter was written by its reports, which
are about halts of modules that are new. -/
def Accounts {α : Type} (x : Run α) : Prop :=
  ∀ m : Machine, m.Accounts [] (left (x m))

variable {α β : Type}

theorem accounts_local {x : Run α} (h : x.Local) : Accounts x := by
  intro m
  obtain ⟨store, frames, hleft, -⟩ := h m
  rw [hleft]
  exact .of_eq (Nat.le_refl _) rfl

/-- A choice accounts for its reports if its cases do. -/
theorem accounts_either {x : Run α} {f : α → Run β} {g : Halt → Run β} (hx : Accounts x)
    (hf : ∀ a, Accounts (f a)) (hg : ∀ halt, halt ≠ .exhausted → Accounts (g halt))
    (hexhausted : g .exhausted = throw .exhausted) : Accounts (x.either f g) := by
  intro m
  have hm := hx m
  unfold either
  cases hr : x m with
  | ok a m₁ =>
    rw [hr] at hm
    exact hm.trans (hf a m₁)
  | error halt m₁ =>
    rw [hr] at hm
    by_cases hne : halt = .exhausted
    · subst hne
      dsimp only
      rw [hexhausted]
      exact hm
    · exact hm.trans (hg halt hne m₁)

theorem accounts_bind {x : Run α} {f : α → Run β} (hx : Accounts x) (hf : ∀ a, Accounts (f a)) :
    Accounts (x >>= f) := by
  rw [bind_eq_either]
  exact accounts_either hx hf (fun halt _ => accounts_local (plain_throw halt).local) rfl

theorem accounts_inFrame {body : Run α} (frame : FrameId) (h : Accounts body) :
    Accounts (inFrame frame body) := by
  intro m
  have hbody := h { m with current := frame }
  rw [inFrame_eq, left_adjust]
  exact ⟨hbody.size, hbody.reports⟩

theorem accounts_inModule {body : Run α} (id : ModuleId) (h : Accounts body) :
    Accounts (inModule id body) := by
  intro m
  have hbody := h { m with active? := some id }
  rw [inModule_eq, left_adjust]
  exact ⟨hbody.size, hbody.reports⟩

/-- A computation that is followed by a change of the machine. -/
theorem left_bind_modify (x : Run α) (f : Machine → Machine) (m : Machine) :
    left ((do let _ ← x; modify f : Run Unit) m) = left (x m) ∨
      left ((do let _ ← x; modify f : Run Unit) m) = f (left (x m)) := by
  show left (EStateM.bind x _ m) = _ ∨ left (EStateM.bind x _ m) = _
  unfold EStateM.bind
  cases x m with
  | ok a m' => exact Or.inr rfl
  | error halt m' => exact Or.inl rfl

/-- Whoever runs a computation may change the machine afterwards, except for the reporter and the
number of modules. -/
theorem accounts_bind_modify {x : Run α} {f : Machine → Machine} {m : Machine}
    {own : List ModuleId} (h : m.Accounts own (left (x m)))
    (hf : ∀ m' : Machine, m'.Accounts own (f m')) :
    m.Accounts own (left ((do let _ ← x; modify f : Run Unit) m)) := by
  rcases left_bind_modify x f m with hleft | hleft
  · rw [hleft]
    exact h
  · rw [hleft]
    exact h.trans (hf _)

end Run

namespace Evaluator

open Run

/-- The evaluation of every part of a program accounts for what it leaves in the reporter. -/
structure Accounts (ev : Evaluator) : Prop where
  evaluate : ∀ e, Run.Accounts (ev.evaluate e)
  execute : ∀ s, Run.Accounts (ev.execute s)

/-- What is composed accounts for its reports if the parts do. -/
theorem Composed.accounts {α : Type} {ev : Evaluator} {x : Evaluator → Run α} (hx : Composed x)
    (h : ev.Accounts) : Run.Accounts (x ev) := by
  induction hx with
  | basic hlocal => exact accounts_local hlocal
  | evaluate e => exact h.evaluate e
  | execute s => exact h.execute s
  | either _ _ _ hexhausted ihx ihf ihg => exact accounts_either ihx ihf ihg (hexhausted ev)
  | inNewFrame enclosing bindings _ ih =>
    exact accounts_bind (accounts_local (plain_newFrame _ _).local) fun frame =>
      accounts_inFrame frame ih
  | inModule id _ ih => exact accounts_inModule id ih

/-! ## Compiling -/

/-- A program is refused for some reason. -/
theorem parse_error {first : ExprId} {tokens : List Token} {errors : List SyntaxError}
    (h : (parse first tokens).result = .error errors) : errors ≠ [] := by
  unfold parse at h
  split at h
  · dsimp only at h
    split at h
    · cases h
    · next hne =>
      cases h
      exact fun heq => hne (List.isEmpty_iff.mpr (List.reverse_eq_nil_iff.mp heq))
  · cases h
    simp

/-- Compiling is never halted and changes nothing but the reporter and the counter of expressions.
It reports errors of the source, at least one unless the source compiles. -/
theorem compile?_reports (source : String) (m : Machine) :
    ∃ statements? reports nextExpr, compile? source m = .ok statements?
        { m with reporter := reports.foldl Reporter.note m.reporter, nextExpr := nextExpr } ∧
      m.reporter.Hears (fun _ => False) reports ∧ (statements? = none ↔ reports ≠ []) := by
  cases hscan : Token.scan source with
  | error errors =>
    have hne : errors ≠ [] := by
      unfold Token.scan at hscan
      dsimp only at hscan
      split at hscan
      · cases hscan
      · next hne =>
        cases hscan
        exact hne
    refine ⟨none, errors.map .lexical, m.nextExpr, ?_, .of_errors ?_ (by simp [Report.isUncaught]),
      ?_⟩
    · unfold compile?
      rw [hscan, List.foldl_map]
      rfl
    · intro report hr r
      obtain ⟨e, he, rfl⟩ := List.mem_map.mp hr
      exact ⟨source, errors, hscan, he⟩
    · simpa using hne
  | ok tokens =>
    rw [compile?_eq hscan]
    cases hresult : (parse m.nextExpr tokens).result with
    | ok statements =>
      exact ⟨some statements, [], _, rfl, trivial, by simp⟩
    | error errors =>
      refine ⟨none, errors.map .syntactic, (parse m.nextExpr tokens).nextId, ?_,
        .of_errors ?_ (by simp [Report.isUncaught]), ?_⟩
      · rw [List.foldl_map]
        rfl
      · intro report hr r
        obtain ⟨e, he, rfl⟩ := List.mem_map.mp hr
        exact ⟨source, tokens, m.nextExpr, errors, hscan, hresult, he⟩
      · simpa using parse_error hresult

/-! ## Modules -/

variable {ev : Evaluator} {depth : Nat}

/-- What halted a module is reported, unless the run was broken off. -/
theorem reporter_reportHalt {halt : Halt} (hknown : halt ≠ .exhausted) (id : ModuleId)
    (m : Machine) : ∃ token? message, m.notice? halt = some (token?, message) ∧
      reportHalt halt m = { m with reporter := m.reporter.note (.uncaught id token? message) } := by
  cases halt with
  | exhausted => exact absurd rfl hknown
  | failed e => exact ⟨_, _, rfl, rfl⟩
  | thrown error => exact ⟨_, _, rfl, rfl⟩

/-- The statements of a module account for what they leave in the reporter, up to what halted the
module itself. -/
theorem accounts_runTopLevel (h : ev.Accounts) (statements : List Stmt) : ∀ m : Machine,
    m.Accounts [] (left (ev.runTopLevel statements m)) ∨
      ∃ halt after, halt ≠ .exhausted ∧ ev.Halts halt after statements m ∧ m.Accounts [] after ∧
        left (ev.runTopLevel statements m) = reportHalt halt after := by
  induction statements with
  | nil => exact fun m => Or.inl (.of_eq (Nat.le_refl _) rfl)
  | cons s rest ih =>
    intro m
    have hs := h.execute s m
    rw [runTopLevel_cons, either]
    cases hr : ev.execute s m with
    | ok flow m₁ =>
      rw [hr] at hs
      rcases ih m₁ with hrest | ⟨halt, after, hknown, hhalts, hrest, hleft⟩
      · exact Or.inl (hs.trans hrest)
      · exact Or.inr ⟨halt, after, hknown, .later hr hhalts, hs.trans hrest, hleft⟩
    | error halt m₁ =>
      rw [hr] at hs
      cases halt with
      | exhausted => exact Or.inl hs
      | failed e => exact Or.inr ⟨_, m₁, by simp, .here hr, hs, rfl⟩
      | thrown id => exact Or.inr ⟨_, m₁, by simp, .here hr, hs, rfl⟩

theorem accounts_openModule (id : ModuleId) (distances : List (ExprId × Nat)) (m : Machine) :
    m.Accounts [] (openModule id distances m) :=
  .of_eq (Nat.le_of_eq (ModuleTree.size_modify _ _ _).symm) rfl

theorem accounts_closeModule (own : List ModuleId) (id : ModuleId) (m : Machine) :
    m.Accounts own (closeModule id m) :=
  .of_eq (Nat.le_of_eq (ModuleTree.size_modify _ _ _).symm) rfl

/-- Of the older modules, running a module reports a halt of that one at most. -/
theorem accounts_runModule (h : (evaluatorUpTo depth).Accounts) (id : ModuleId)
    (statements : List Stmt) (m : Machine) :
    m.Accounts [id] (left ((evaluatorUpTo depth).runModule id statements m)) := by
  rcases runModule_cases id statements m with
    ⟨errors, hresolve, heq⟩ | ⟨distances, hresolve, heq⟩
  · rw [heq]
    refine ⟨Nat.le_of_eq (ModuleTree.size_modify _ _ _).symm, errors.map .scope,
      .of_errors (fun report hr r => ?_) (by simp [Report.isUncaught]), ?_⟩
    · obtain ⟨e, he, rfl⟩ := List.mem_map.mp hr
      exact ⟨statements, errors, hresolve, he⟩
    · rw [List.foldl_map]
      rfl
  · have hopen := accounts_openModule id distances m
    rw [heq]
    refine Machine.Accounts.trans (hopen.mono (List.nil_subset _))
      (accounts_bind_modify ?_ (accounts_closeModule [id] id))
    rcases accounts_runTopLevel h statements (openModule id distances m) with
      hrest | ⟨halt, after, hknown, hhalts, hrest, hleft⟩
    · exact hrest.mono (List.nil_subset _)
    · obtain ⟨token?, message, hnotice, hreport⟩ := reporter_reportHalt hknown id after
      rw [hleft, hreport]
      refine (hrest.mono (List.nil_subset _)).trans
        ⟨Nat.le_refl _, [.uncaught id token? message], ⟨⟨?_, ?_⟩, trivial⟩, rfl⟩
      · exact ⟨depth, statements, distances, m, halt, after, hresolve, hhalts, rfl, hnotice⟩
      · intro k token?' message' heq
        exact Or.inl (List.mem_singleton.mpr (Report.uncaught.inj heq).1.symm)

/-- A module that is imported is new. -/
theorem accounts_runImported (h : (evaluatorUpTo depth).Accounts) (importer : ModuleId)
    (path : Path) (statements : List Stmt) :
    Run.Accounts ((evaluatorUpTo depth).runImported importer path statements) := by
  intro m
  rw [runImported_run]
  have hrun := accounts_runModule h m.modules.size statements (m.sprout importer path).2
  have hback : (m.sprout importer path).2.Accounts [m.modules.size] _ :=
    accounts_bind_modify (f := fun m' => { m' with active? := some importer, current := m.current })
      hrun fun m' => .of_eq (Nat.le_refl _) rfl
  refine hback.of_new ?_ rfl fun id hid => Or.inr (Nat.le_of_eq (List.mem_singleton.mp hid).symm)
  rw [size_sprout]
  exact Nat.le_succ _

/-- Compiling reports the errors of the source. -/
theorem accounts_compile? (source : String) : Run.Accounts (compile? source) := by
  intro m
  obtain ⟨statements?, reports, nextExpr, hcompile, hreports, -⟩ := compile?_reports source m
  rw [hcompile]
  exact ⟨Nat.le_refl _, reports, hreports.mono fun _ => False.elim, rfl⟩

/-- A load accounts for the reports of the modules that it runs. -/
theorem accounts_loadModule (h : (evaluatorUpTo depth).Accounts) (importer : ModuleId)
    (path : Path) (token : Token) :
    Run.Accounts ((evaluatorUpTo depth).loadModule importer path token) := by
  intro m
  rw [loadModule_eq]
  cases m.modules.search? importer path with
  | some existing => exact .of_eq (Nat.le_of_eq (ModuleTree.size_addChild _ _ _).symm) rfl
  | none =>
    dsimp only
    cases m.files.read path with
    | error fault => exact accounts_local (plain_failAt _ _).local m
    | ok source =>
      refine accounts_bind (accounts_compile? source) (fun statements? => ?_) m
      cases statements? with
      | none => exact accounts_local (plain_failAt _ _).local
      | some statements => exact accounts_runImported h importer path statements

theorem accounts_importNames (h : (evaluatorUpTo depth).Accounts) (token : Token)
    (items : List ImportItem) : Run.Accounts ((evaluatorUpTo depth).importNames token items) := by
  intro m
  rcases importNames_cases token items m with ⟨e, -, himport⟩ | ⟨importer, -, -, himport⟩
  · rw [himport]
    exact .of_eq (Nat.le_refl _) rfl
  · rw [himport]
    exact accounts_bind (accounts_loadModule h _ _ _)
      (fun _ => accounts_local (plain_bindLoaded _ _ _ _).local) m

/-- Running a root reports halts of the root and of modules that are new. -/
theorem accounts_runRoot (h : (evaluatorUpTo depth).Accounts) (path : Path)
    (statements : List Stmt) (m : Machine) :
    m.Accounts (m.modules.lookup? path).toList
      (left ((evaluatorUpTo depth).runRoot path statements m)) := by
  have hback : ∀ (id : ModuleId) (m : Machine), m.Accounts [id] (left (((do
      (evaluatorUpTo depth).runModule id statements
      modify fun m => { m with current := Machine.builtins }) : Run Unit) m)) := fun id m =>
    accounts_bind_modify (f := fun m' => { m' with current := Machine.builtins })
      (accounts_runModule h id statements m) fun m' => .of_eq (Nat.le_refl _) rfl
  rw [runRoot_eq]
  cases m.modules.lookup? path with
  | some root => exact hback root m
  | none =>
    refine (hback m.modules.size (m.createModule none path).2).of_new ?_ rfl fun id hid =>
      Or.inr (Nat.le_of_eq (List.mem_singleton.mp hid).symm)
    exact Nat.le_trans (Nat.le_succ _) (Nat.le_of_eq (ModuleTree.size_create _ _ _ _ _).symm)

end Evaluator

/-! ## The whole evaluator -/

/-- Every expression and every statement accounts for what it leaves in the reporter, at any
depth. -/
theorem accounts_evaluatorUpTo (depth : Nat) : (evaluatorUpTo depth).Accounts := by
  induction depth with
  | zero =>
    refine ⟨fun e => ?_, fun s => ?_⟩
    · show Run.Accounts (evaluate 0 e)
      unfold evaluate
      exact Run.accounts_local (Run.plain_throw _).local
    · show Run.Accounts (execute 0 s)
      unfold execute
      exact Run.accounts_local (Run.plain_throw _).local
  | succ depth ih =>
    refine ⟨fun e => ?_, fun s => ?_⟩
    · show Run.Accounts (evaluate (depth + 1) e)
      unfold evaluate
      exact (Evaluator.composed_evaluateStep e).accounts ih
    · show Run.Accounts (execute (depth + 1) s)
      unfold execute
      cases s with
      | importFrom path items =>
        exact Run.accounts_bind (Evaluator.accounts_importNames ih path items) fun _ =>
          Run.accounts_local (Run.plain_pure _).local
      | _ => exact (Evaluator.composed_executeStep depth (by simp)).accounts ih

end ScriptEngine
