import ScriptEngine.Proofs.Evaluator.Composed

/-!
# Imports step by step

An import finds its file, sees to it that the module is there, and binds the names. Which of the
ways through this it takes does not depend on how statements are executed: `importNames_cases` and
`loadModule_cases` tell the ways apart, and leave one in which the statements of another module run.
-/

namespace ScriptEngine

/-! ## Errors are remembered -/

namespace Reporter

/-- Reports of a sequence of errors leave the mark of an error, if there is one. -/
theorem hadError_foldl {α : Type} {f : Reporter → α → Reporter}
    (hf : ∀ r a, (f r a).hadError = true) (errors : List α) {r : Reporter}
    (h : r.hadError = true ∨ errors ≠ []) : (errors.foldl f r).hadError = true := by
  induction errors generalizing r with
  | nil => exact h.resolve_right fun hne => hne rfl
  | cons e errors ih => exact ih (Or.inl (hf r e))

/-- A halt leaves the mark of an error if it has a token. -/
theorem hadError_stopped (r : Reporter) (token? : Option Token) (message : String) :
    (r.stopped token? message).hadError = (r.hadError || token?.isSome) := by
  cases token? with
  | none => exact (Bool.or_false _).symm
  | some token => exact (Bool.or_true _).symm

end Reporter

/-- The statements of a source. -/
def Parses (source : String) (statements : List Stmt) : Prop :=
  ∃ first tokens, Token.scan source = .ok tokens ∧ (parse first tokens).result = .ok statements

/-- The path that an import of a module leads to. -/
def Machine.importedPath (m : Machine) (importer : ModuleId) (token : Token) : Path :=
  let path := Evaluator.importPath (m.modules.node importer).path token.stringValue
  (m.files.canonicalize path).toOption.getD path

/-- A new module below an importer, linked to it. -/
def Machine.sprout (m : Machine) (importer : ModuleId) (path : Path) : ModuleId × Machine :=
  let (child, m) := m.createModule (some importer) path
  (child, { m with modules := m.modules.addChild importer child })

namespace Evaluator

open Run

/-! ## Compiling -/

/-- What scans is parsed, and the errors of the parser are reported. -/
theorem compile?_eq {source : String} {tokens : List Token} (h : Token.scan source = .ok tokens)
    (m : Machine) :
    compile? source m = (match (parse m.nextExpr tokens).result with
      | .ok statements => pure (some statements)
      | .error errors => do
        report fun r => errors.foldl Reporter.syntactic r
        pure none : Run (Option (List Stmt)))
      { m with nextExpr := (parse m.nextExpr tokens).nextId } := by
  unfold compile?
  rw [h]
  rfl

/-- Compiling is never halted. It only reports and gives numbers out, and its answer tells what the
source says. -/
theorem compile?_spec (source : String) (m : Machine) :
    ∃ statements? reporter nextExpr, compile? source m =
        .ok statements? { m with reporter := reporter, nextExpr := nextExpr } ∧
      (m.reporter.hadError = true → reporter.hadError = true) ∧
      ∀ statements, statements? = some statements → Parses source statements := by
  cases hscan : Token.scan source with
  | error errors =>
    unfold compile?
    rw [hscan]
    exact ⟨none, _, m.nextExpr, rfl, fun h => Reporter.hadError_foldl (fun _ _ => rfl) errors
      (Or.inl h), fun _ h => by cases h⟩
  | ok tokens =>
    rw [compile?_eq hscan]
    cases hresult : (parse m.nextExpr tokens).result with
    | ok statements =>
      refine ⟨some statements, m.reporter, _, rfl, fun h => h, fun statements' h => ?_⟩
      obtain rfl : statements = statements' := Option.some.inj h
      exact ⟨m.nextExpr, tokens, hscan, hresult⟩
    | error errors =>
      exact ⟨none, _, _, rfl, fun h => Reporter.hadError_foldl (fun _ _ => rfl) errors (Or.inl h),
        fun _ h => by cases h⟩

/-! ## Running a module -/

/-- What becomes of a module when one of its statements is halted. -/
def closing : Halt → Run Unit
  | .exhausted => throw .exhausted
  | halt => modify (reportHalt halt)

/-- Statements of a module run in sequence until one is halted. -/
theorem runTopLevel_cons (ev : Evaluator) (s : Stmt) (rest : List Stmt) :
    ev.runTopLevel (s :: rest) = (ev.execute s).either (fun _ => ev.runTopLevel rest) closing := by
  funext m
  rw [runTopLevel, either]
  dsimp only
  cases ev.execute s m with
  | ok flow m' => rfl
  | error halt m' =>
    cases halt with
    | exhausted => rfl
    | failed e => rfl
    | thrown id => rfl

/-- An imported module runs in a new module, and the place comes back. -/
theorem runImported_eq (ev : Evaluator) (importer : ModuleId) (path : Path)
    (statements : List Stmt) :
    ev.runImported importer path statements = (do
      let frame := (← get).current
      let child ← modifyGet fun m => m.sprout importer path
      ev.runModule child statements
      modify fun m => { m with active? := some importer, current := frame }) :=
  rfl

/-- The new module is there before its statements run. -/
theorem runImported_run (ev : Evaluator) (importer : ModuleId) (path : Path)
    (statements : List Stmt) (m : Machine) :
    ev.runImported importer path statements m = ((do
      ev.runModule m.modules.size statements
      modify fun m' => { m' with active? := some importer, current := m.current }) : Run Unit)
        (m.sprout importer path).2 :=
  rfl

/-! ## Running a root -/

/-- A root runs in the module of its path, which is created if there is none. -/
theorem runRoot_eq (ev : Evaluator) (path : Path) (statements : List Stmt) (m : Machine) :
    ev.runRoot path statements m = ((do
      let root ←
        match m.modules.lookup? path with
        | some root => pure root
        | none => modifyGet fun m => m.createModule none path
      ev.runModule root statements
      modify fun m => { m with current := Machine.builtins }) : Run Unit) m :=
  rfl

/-- A root that has run before is used again; otherwise it is a new module. -/
theorem runRoot_cases (path : Path) (statements : List Stmt) (m : Machine) :
    (∃ root < m.modules.size, ∀ ev : Evaluator, ev.runRoot path statements m = ((do
      ev.runModule root statements
      modify fun m => { m with current := Machine.builtins }) : Run Unit) m) ∨
    ∀ ev : Evaluator, ev.runRoot path statements m = ((do
      ev.runModule m.modules.size statements
      modify fun m => { m with current := Machine.builtins }) : Run Unit)
        (m.createModule none path).2 := by
  cases hlookup : m.modules.lookup? path with
  | some root =>
    have hroot : root < m.modules.size := by
      have hmem := List.mem_of_find?_eq_some hlookup
      simpa using hmem
    refine Or.inl ⟨root, hroot, fun ev => ?_⟩
    rw [runRoot_eq, hlookup]
    rfl
  | none =>
    refine Or.inr fun ev => ?_
    rw [runRoot_eq, hlookup]
    rfl

/-! ## The ways through an import -/

/-- What an import does once the module is there. -/
def bindLoaded (importer : ModuleId) (path : Path) (token : Token) (items : List ImportItem) :
    Run Unit := do
  let m ← get
  if m.reporter.hadError then failAt token .importFailed
  match (m.modules.findChild? importer path).or (m.modules.lookup? path) with
  | none => failAt token .importFailed
  | some target => bindImports target items

/-- Binding the names of a loaded module is plain. -/
theorem plain_bindLoaded (importer : ModuleId) (path : Path) (token : Token)
    (items : List ImportItem) : Plain (bindLoaded importer path token items) := by
  refine plain_bind plain_get fun m => ?_
  dsimp only
  split
  · exact plain_failAt_bind _ _ _
  · split
    · exact plain_failAt _ _
    · exact plain_bindImports _ _

/-- An import fails at once, where no module runs or there is no file, or else it loads the module
and binds the names. -/
theorem importNames_cases (token : Token) (items : List ImportItem) (m : Machine) :
    (∃ e, (e = .internal .noActiveModule ∨ ∃ path, e = .located (.moduleNotFound path) token) ∧
      ∀ ev : Evaluator, ev.importNames token items m = .error (.failed e) m) ∨
    ∃ importer, m.active? = some importer ∧
      m.files.isFile (importPath (m.modules.node importer).path token.stringValue) = true ∧
      ∀ ev : Evaluator, ev.importNames token items m = (do
        ev.loadModule importer (m.importedPath importer token) token
        bindLoaded importer (m.importedPath importer token) token items) m := by
  cases ha : m.active? with
  | none =>
    refine Or.inl ⟨.internal .noActiveModule, Or.inl rfl, fun ev => ?_⟩
    show EStateM.bind activeModule _ m = _
    rw [EStateM.bind, activeModule_eq_none ha]
  | some importer =>
    have hev : ∀ ev : Evaluator, ev.importNames token items m = ((do
        if !m.files.isFile (importPath (m.modules.node importer).path token.stringValue) then
          failAt token (.moduleNotFound
            (importPath (m.modules.node importer).path token.stringValue).text)
        ev.loadModule importer (m.importedPath importer token) token
        bindLoaded importer (m.importedPath importer token) token items) : Run Unit) m := by
      intro ev
      show EStateM.bind activeModule _ m = _
      rw [EStateM.bind, activeModule_eq ha]
      rfl
    cases hfile : m.files.isFile (importPath (m.modules.node importer).path token.stringValue) with
    | false =>
      refine Or.inl ⟨.located (.moduleNotFound
        (importPath (m.modules.node importer).path token.stringValue).text) token,
        Or.inr ⟨_, rfl⟩, fun ev => ?_⟩
      rw [hev, hfile]
      rfl
    | true =>
      refine Or.inr ⟨importer, rfl, hfile, fun ev => ?_⟩
      rw [hev, hfile]
      rfl

/-- Loading searches the tree, and reads and runs the file only if the path is new. -/
theorem loadModule_eq (ev : Evaluator) (importer : ModuleId) (path : Path) (token : Token)
    (m : Machine) :
    ev.loadModule importer path token m = (match m.modules.search? importer path with
      | some existing => modify fun m => { m with modules := m.modules.addChild importer existing }
      | none =>
        match m.files.read path with
        | .error _ => failAt token (.moduleNotFound path.text)
        | .ok source => do
          match ← compile? source with
          | none => failAt token .importFailed
          | some statements => ev.runImported importer path statements : Run Unit) m :=
  rfl

/-- A module that is linked to the importer is used as it is. Any other is read and compiled, which
may fail, and then its statements run as those of a new module. -/
theorem loadModule_cases (importer : ModuleId) (path : Path) (token : Token) (m : Machine) :
    (∃ existing, m.modules.search? importer path = some existing ∧
      ∀ ev : Evaluator, ev.loadModule importer path token m =
        .ok () { m with modules := m.modules.addChild importer existing }) ∨
    m.modules.search? importer path = none ∧ ∃ reporter nextExpr,
      (m.reporter.hadError = true → reporter.hadError = true) ∧
      ((∃ e, ∀ ev : Evaluator, ev.loadModule importer path token m =
          .error (.failed e) { m with reporter := reporter, nextExpr := nextExpr }) ∨
        ∃ source statements, m.files.read path = .ok source ∧ Parses source statements ∧
          ∀ ev : Evaluator, ev.loadModule importer path token m =
            ev.runImported importer path statements
              { m with reporter := reporter, nextExpr := nextExpr }) := by
  cases hsearch : m.modules.search? importer path with
  | some existing =>
    refine Or.inl ⟨existing, rfl, fun ev => ?_⟩
    rw [loadModule_eq, hsearch]
    rfl
  | none =>
    refine Or.inr ⟨rfl, ?_⟩
    cases hread : m.files.read path with
    | error fault =>
      refine ⟨m.reporter, m.nextExpr, fun h => h, Or.inl
        ⟨.located (.moduleNotFound path.text) token, fun ev => ?_⟩⟩
      rw [loadModule_eq, hsearch]
      dsimp only
      rw [hread]
      rfl
    | ok source =>
      obtain ⟨statements?, reporter, nextExpr, hok, herrors, hparses⟩ := compile?_spec source m
      have hcompile : ∀ f : Option (List Stmt) → Run Unit, (compile? source >>= f) m =
          f statements? { m with reporter := reporter, nextExpr := nextExpr } := by
        intro f
        show EStateM.bind (compile? source) f m = _
        rw [EStateM.bind, hok]
      refine ⟨reporter, nextExpr, herrors, ?_⟩
      cases statements? with
      | none =>
        refine Or.inl ⟨.located .importFailed token, fun ev => ?_⟩
        rw [loadModule_eq, hsearch]
        dsimp only
        rw [hread]
        exact hcompile _
      | some statements =>
        refine Or.inr ⟨source, statements, rfl, hparses statements rfl, fun ev => ?_⟩
        rw [loadModule_eq, hsearch]
        dsimp only
        rw [hread]
        exact hcompile _

end Evaluator

end ScriptEngine
