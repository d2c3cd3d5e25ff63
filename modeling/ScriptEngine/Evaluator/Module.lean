import ScriptEngine.Evaluator.Call
import ScriptEngine.Program.Parser

/-!
# Modules

Compiling a source, running the statements of a module, and the statements that import from and
export to other modules. A module that is already linked to the importing one is used as it is;
any other is read, compiled and run first.
-/

namespace ScriptEngine.Evaluator

open Run

/-- The statements of a source, unless it has lexical or syntax errors, which are reported. -/
def compile? (source : String) : Run (Option (List Stmt)) := do
  match Token.scan source with
  | .error errors => do
    report fun r => errors.foldl Reporter.lexical r
    pure none
  | .ok tokens => do
    let parsed := parse (← get).nextExpr tokens
    modify fun m => { m with nextExpr := parsed.nextId }
    match parsed.result with
    | .ok statements => pure (some statements)
    | .error errors => do
      report fun r => errors.foldl Reporter.syntactic r
      pure none

/-- Reports what halted a module. -/
def reportHalt (halt : Halt) (m : Machine) : Machine :=
  match halt with
  | .failed e => { m with reporter := m.reporter.stopped e.token? e.message }
  | .thrown id =>
    let cell := m.store.heap.error id
    let message := m.store.heap.display cell.message
    { m with reporter := m.reporter.stopped cell.token? message }
  | .exhausted => m

/-- Runs the statements of a module until one is halted, which is reported. -/
def runTopLevel (ev : Evaluator) : List Stmt → Run Unit
  | [] => pure ()
  | s :: rest => fun m =>
    match ev.execute s m with
    | .ok _ m => ev.runTopLevel rest m
    | .error .exhausted m => .error .exhausted m
    | .error halt m => .ok () (reportHalt halt m)

/-- Resolves and runs the statements of a module. Afterwards it counts as loaded, however it
went, and no module is active. -/
def runModule (ev : Evaluator) (id : ModuleId) (statements : List Stmt) : Run Unit := do
  modify fun m => { m with active? := some id, current := (m.modules.node id).globals }
  match Scope.resolve statements with
  | .ok distances => do
    modify fun m => { m with
      modules := m.modules.modify id fun node =>
        { node with distances := node.distances.insertMany distances } }
    ev.runTopLevel statements
  | .error errors => report fun r => errors.foldl Reporter.scope r
  modify fun m => { m with
    modules := m.modules.modify id fun node => { node with state := .loaded }
    active? := none }

/-- Runs statements as the root module at a path. The module is made on first use and used again
afterwards, so that its definitions persist. -/
def runRoot (ev : Evaluator) (path : Path) (statements : List Stmt) : Run Unit := do
  let root ←
    match (← get).modules.lookup? path with
    | some root => pure root
    | none => modifyGet fun m => m.createModule none path
  ev.runModule root statements
  modify fun m => { m with current := Machine.builtins }

/-- Runs statements as a new module imported by `importer`, and comes back to the importer. -/
def runImported (ev : Evaluator) (importer : ModuleId) (path : Path) (statements : List Stmt) :
    Run Unit := do
  let frame := (← get).current
  let child ← modifyGet fun m => m.createModule (some importer) path
  modify fun m => { m with modules := m.modules.addChild importer child }
  ev.runModule child statements
  modify fun m => { m with active? := some importer, current := frame }

/-- The extension of source files. -/
def sourceExtension : String := "sss"

/-- The path that an import names. A path that begins with a dot starts from the directory of the
importing module and gets the source extension if it lacks it; any other path is taken as it
is. -/
def importPath (importer : Path) (raw : String) : Path :=
  if raw.toList.head? = some '.' then
    let path := (importer.parent?.getD ⟨""⟩).join ⟨raw⟩
    if path.extension? = some sourceExtension then path
    else ⟨path.text ++ "." ++ sourceExtension⟩
  else ⟨raw⟩

/-- Sees to it that the module at a path is linked to the importer, running it if need be. -/
def loadModule (ev : Evaluator) (importer : ModuleId) (path : Path) (token : Token) :
    Run Unit := do
  let m ← get
  match m.modules.search? importer path with
  | some existing => modify fun m => { m with modules := m.modules.addChild importer existing }
  | none =>
    match m.files.read path with
    | .error _ => failAt token (.moduleNotFound path.text)
    | .ok source => do
      match ← compile? source with
      | none => failAt token .importFailed
      | some statements => ev.runImported importer path statements

/-- Binds one imported name. A module that has finished must define it; one that is still being
loaded is asked when the name is first used. -/
def bindImport (target : ModuleId) (item : ImportItem) : Run Unit := do
  let m ← get
  let node := m.modules.node target
  if node.state = .loaded ∧ !m.frames.binds node.globals item.name.lexeme then
    failAt item.name .exportNotFound
  let id ← onHeap fun h => h.newImport ⟨item.name, target, none⟩
  define item.binding (.imported id)

/-- Binds imported names in order. -/
def bindImports (target : ModuleId) : List ImportItem → Run Unit
  | [] => pure ()
  | item :: items => do
    bindImport target item
    bindImports target items

/-- Imports names from the file that a string token names. -/
def importNames (ev : Evaluator) (token : Token) (items : List ImportItem) : Run Unit := do
  let importer ← activeModule
  let m ← get
  let path := importPath (m.modules.node importer).path token.stringValue
  if !m.files.isFile path then failAt token (.moduleNotFound path.text)
  let path := (m.files.canonicalize path).toOption.getD path
  ev.loadModule importer path token
  let m ← get
  if m.reporter.hadError then failAt token .importFailed
  match (m.modules.findChild? importer path).or (m.modules.lookup? path) with
  | none => failAt token .importFailed
  | some target => bindImports target items

/-- The name that a declaration declares. -/
def declaredName? : Stmt → Option Token
  | .var name _ => some name
  | .function decl => some decl.name
  | .classDecl name _ _ => some name
  | _ => none

/-- Runs a declaration and records what it declares among the exports, if the module was
imported. -/
def exportDeclared (ev : Evaluator) (inner : Stmt) : Run Flow := do
  let flow ← ev.execute inner
  let id ← activeModule
  let m ← get
  let node := m.modules.node id
  match declaredName? inner with
  | some name =>
    if node.isImported then do
      let value ← ofExcept (m.frames.get m.current name)
      modify fun m => { m with frames := m.frames.put node.exports name.lexeme value }
    pure flow
  | none => pure flow

end ScriptEngine.Evaluator
