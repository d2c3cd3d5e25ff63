import ScriptEngine.Proofs.Program.Relabeling
import ScriptEngine.Proofs.Scope.Use

/-!
# Scopes of relabeled programs

What is found in a program does not depend on its lines and numbers: in a relabeled program the same
is found, at the tokens and under the numbers there (`findings_relabel`). Programs that stand behind
each other do not see each other's scopes, so what is found adds up (`findings_append`).
-/

namespace ScriptEngine

namespace Relabeling

variable (r : Relabeling)

/-- A scope error at its token's new line. -/
def scopeError (e : ScopeError) : ScopeError := ⟨e.fault, r.token e.token⟩

/-- What is found, at new lines and under new numbers. -/
def found (f : Scope.Findings) : Scope.Findings :=
  ⟨f.distances.map fun e => (r.number e.1, e.2), f.errors.map r.scopeError⟩

@[simp] theorem found_nothing : r.found .nothing = .nothing := rfl

@[simp] theorem found_error (fault : ScopeFault) (token : Token) :
    r.found (.error fault token) = .error fault (r.token token) := rfl

/-- Two findings are relabeled one by one. -/
@[simp] theorem found_append (f g : Scope.Findings) :
    r.found (f ++ g) = r.found f ++ r.found g := by
  show Scope.Findings.mk _ _ = Scope.Findings.mk _ _
  exact congr (congrArg Scope.Findings.mk List.map_append) List.map_append

@[simp] theorem found_ite {c : Prop} [Decidable c] (f g : Scope.Findings) :
    r.found (if c then f else g) = if c then r.found f else r.found g := apply_ite r.found c f g

end Relabeling

namespace Scope

variable (r : Relabeling) (scopes : List Layer)

/-- A distance is recorded under the new number. -/
@[simp] theorem record_relabel (id : ExprId) (name : String) :
    record scopes (r.number id) name = r.found (record scopes id name) := by
  unfold record
  cases distance? scopes name <;> rfl

/-- A declaration is found fault with as before. -/
@[simp] theorem declareFindings_relabel (name : Token) :
    declareFindings scopes (r.token name) = r.found (declareFindings scopes name) := by
  cases scopes with
  | nil => rfl
  | cons layer outer =>
    unfold declareFindings
    dsimp only
    rw [Relabeling.token_lexeme, r.found_ite]
    rfl

@[simp] theorem bindAll_relabel (names : List Token) :
    bindAll scopes (names.map r.token) =
      ((bindAll scopes names).1, r.found (bindAll scopes names).2) := by
  induction names generalizing scopes with
  | nil => rfl
  | cons name names ih =>
    rw [List.map_cons, bindAll, bindAll, Relabeling.token_lexeme, ih]
    simp

@[simp] theorem readName_relabel (ref : Reference) :
    readName scopes (r.reference ref) = r.found (readName scopes ref) := by
  unfold readName
  cases scopes with
  | nil => simp
  | cons layer outer =>
    dsimp only
    rw [r.found_append, r.found_ite, Relabeling.reference_id, record_relabel]
    rfl

/-- The superclasses are found fault with as before. -/
@[simp] theorem superclasses_relabel (className : Token) (refs : List Reference) :
    superclasses scopes (r.token className) (refs.map r.reference) =
      r.found (superclasses scopes className refs) := by
  induction refs with
  | nil => rfl
  | cons ref refs ih =>
    rw [List.map_cons, superclasses, superclasses, ih]
    simp

/-- The scopes of a class depend on the names alone. -/
@[simp] theorem classScopes_relabel (refs : List Reference) :
    classScopes scopes (refs.map r.reference) = classScopes scopes refs := by
  have hlayer : superLayer (refs.map r.reference) = superLayer refs := by
    unfold superLayer
    rw [List.map_map]
    rfl
  unfold classScopes
  rw [hlayer, List.isEmpty_map]

mutual

/-- What is found in an expression is relabeled with it. -/
theorem expr_relabel (ctx : Context) (scopes : List Layer) :
    ∀ e, expr ctx scopes (r.expr e) = r.found (expr ctx scopes e)
  | .constant _ _ => rfl
  | .reference ref => readName_relabel r scopes ref
  | .assign _ _ value => by
    simp only [Relabeling.expr, expr, r.found_append, expr_relabel ctx scopes value,
      Relabeling.token_lexeme, record_relabel]
  | .binary _ left _ right => by
    simp only [Relabeling.expr, expr, r.found_append, expr_relabel ctx scopes left,
      expr_relabel ctx scopes right]
  | .logical _ left _ right => by
    simp only [Relabeling.expr, expr, r.found_append, expr_relabel ctx scopes left,
      expr_relabel ctx scopes right]
  | .unary _ _ operand => expr_relabel ctx scopes operand
  | .grouping _ inner => expr_relabel ctx scopes inner
  | .call _ callee _ arguments => by
    simp only [Relabeling.expr, expr, r.found_append, expr_relabel ctx scopes callee,
      exprs_relabel ctx scopes arguments]
  | .get _ object _ => expr_relabel ctx scopes object
  | .set _ object _ value => by
    simp only [Relabeling.expr, expr, r.found_append, expr_relabel ctx scopes value,
      expr_relabel ctx scopes object]
  | .getItem _ object _ index => by
    simp only [Relabeling.expr, expr, r.found_append, expr_relabel ctx scopes object,
      expr_relabel ctx scopes index]
  | .setItem _ object index _ value => by
    simp only [Relabeling.expr, expr, r.found_append, expr_relabel ctx scopes object,
      expr_relabel ctx scopes index, expr_relabel ctx scopes value]
  | .self _ keyword => by
    simp only [Relabeling.expr, expr, r.found_ite, r.found_error, Relabeling.token_lexeme,
      record_relabel]
  | .super _ keyword _ _ => by
    simp only [Relabeling.expr, expr, r.found_append, Relabeling.token_lexeme, record_relabel]
    cases ctx.cls <;> rfl
  | .array _ elements => exprs_relabel ctx scopes elements
  | .map _ entries => mapEntries_relabel ctx scopes entries
  | .lambda _ decl => function_relabel ctx scopes .function decl

theorem exprs_relabel (ctx : Context) (scopes : List Layer) :
    ∀ es, exprs ctx scopes (r.exprs es) = r.found (exprs ctx scopes es)
  | [] => rfl
  | e :: es => by
    simp only [Relabeling.exprs, exprs, r.found_append, expr_relabel ctx scopes e,
      exprs_relabel ctx scopes es]

theorem mapEntries_relabel (ctx : Context) (scopes : List Layer) :
    ∀ es, mapEntries ctx scopes (r.entries es) = r.found (mapEntries ctx scopes es)
  | [] => rfl
  | (_, e) :: es => by
    simp only [Relabeling.entries, mapEntries, r.found_append, expr_relabel ctx scopes e,
      mapEntries_relabel ctx scopes es]

theorem expr?_relabel (ctx : Context) (scopes : List Layer) :
    ∀ e?, expr? ctx scopes (r.expr? e?) = r.found (expr? ctx scopes e?)
  | none => rfl
  | some e => expr_relabel ctx scopes e

theorem function_relabel (ctx : Context) (scopes : List Layer) (kind : FunctionContext) :
    ∀ d, function ctx scopes kind (r.decl d) = r.found (function ctx scopes kind d)
  | .mk _ params body _ => by
    simp only [Relabeling.decl, function, r.found_append, bindAll_relabel,
      stmts_relabel _ _ body]

theorem methods_relabel (ctx : Context) (scopes : List Layer) :
    ∀ ds, methods ctx scopes (r.decls ds) = r.found (methods ctx scopes ds)
  | [] => rfl
  | d :: ds => by
    simp only [Relabeling.decls, methods, r.found_append, Relabeling.decl_name,
      Relabeling.token_lexeme, function_relabel ctx scopes _ d, methods_relabel ctx scopes ds]

/-- A statement leaves the same scopes, and what is found in it is relabeled with it. -/
theorem stmt_relabel (ctx : Context) (scopes : List Layer) :
    ∀ s, stmt ctx scopes (r.stmt s) = ((stmt ctx scopes s).1, r.found (stmt ctx scopes s).2)
  | .expression value => congrArg (scopes, ·) (expr_relabel ctx scopes value)
  | .print value => congrArg (scopes, ·) (expr_relabel ctx scopes value)
  | .var name init? => by
    simp only [Relabeling.stmt, stmt, r.found_append, declareFindings_relabel,
      Relabeling.token_lexeme, expr?_relabel _ _ init?]
  | .block body => congrArg (fun x : List Layer × Findings => (scopes, x.2))
      (stmts_relabel ctx ([] :: scopes) body)
  | .branch condition thenPart elsePart? => by
    simp only [Relabeling.stmt, stmt, r.found_append, expr_relabel ctx scopes condition,
      stmt_relabel _ _ thenPart, stmt?_relabel _ _ elsePart?]
  | .loop condition body => by
    simp only [Relabeling.stmt, stmt, r.found_append, expr_relabel ctx scopes condition,
      stmt_relabel _ _ body]
  | .function d => by
    simp only [Relabeling.stmt, stmt, r.found_append, declareFindings_relabel,
      Relabeling.decl_name, Relabeling.token_lexeme, function_relabel _ _ _ d]
  | .ret keyword value? => by
    simp only [Relabeling.stmt, stmt, r.found_append, r.found_ite, r.found_error,
      r.found_nothing, Relabeling.expr?_eq_map, Option.isSome_map]
    rw [← Relabeling.expr?_eq_map, expr?_relabel _ _ value?]
  | .classDecl name refs decls => by
    simp only [Relabeling.stmt, stmt, r.found_append, declareFindings_relabel,
      Relabeling.token_lexeme, superclasses_relabel, classScopes_relabel, List.isEmpty_map,
      methods_relabel _ _ decls]
  | .importFrom _ items => by
    have hbindings : (items.map r.item).map (·.binding) = (items.map (·.binding)).map r.token := by
      rw [List.map_map, List.map_map]
      exact List.map_congr_left fun item _ => r.item_binding item
    simp only [Relabeling.stmt, stmt, hbindings, bindAll_relabel]
  | .exported inner => stmt_relabel ctx scopes inner
  | .throw _ value => congrArg (scopes, ·) (expr_relabel ctx scopes value)
  | .attempt body param? handler? cleanup? => by
    have hparam : (param?.map r.token).toList = param?.toList.map r.token := by
      cases param? <;> rfl
    simp only [Relabeling.stmt, stmt, r.found_append, r.found_ite, r.found_nothing,
      stmts_relabel _ _ body, hparam, bindAll_relabel, Relabeling.stmts?_eq_map,
      Option.isSome_map]
    rw [← Relabeling.stmts?_eq_map, ← Relabeling.stmts?_eq_map, stmts?_relabel _ _ handler?,
      stmts?_relabel _ _ cleanup?]

theorem stmt?_relabel (ctx : Context) (scopes : List Layer) :
    ∀ s?, stmt? ctx scopes (r.stmt? s?) =
      ((stmt? ctx scopes s?).1, r.found (stmt? ctx scopes s?).2)
  | none => rfl
  | some s => stmt_relabel ctx scopes s

theorem stmts_relabel (ctx : Context) (scopes : List Layer) :
    ∀ ss, stmts ctx scopes (r.stmts ss) = ((stmts ctx scopes ss).1, r.found (stmts ctx scopes ss).2)
  | [] => rfl
  | s :: ss => by
    simp only [Relabeling.stmts, stmts, r.found_append, stmt_relabel ctx scopes s,
      stmts_relabel _ _ ss]

theorem stmts?_relabel (ctx : Context) (scopes : List Layer) :
    ∀ ss?, stmts? ctx scopes (r.stmts? ss?) = r.found (stmts? ctx scopes ss?)
  | none => rfl
  | some ss => congrArg Prod.snd (stmts_relabel ctx scopes ss)

end

/-- In a relabeled program the same is found. -/
theorem findings_relabel (program : List Stmt) :
    findings (r.stmts program) = r.found (findings program) :=
  congrArg Prod.snd (stmts_relabel r ⟨.none, .none⟩ [] program)

/-! ## Programs behind each other -/

/-- The top level has no scopes, so each statement is looked at by itself. -/
theorem findings_cons (s : Stmt) (program : List Stmt) :
    findings (s :: program) = (stmt ⟨.none, .none⟩ [] s).2 ++ findings program := by
  -- Outside all scopes, a statement hands nothing on.
  have hnone : (stmt ⟨.none, .none⟩ [] s).1 = [] := stmt_fst ⟨.none, .none⟩ [] s
  unfold findings
  rw [stmts]
  dsimp only
  rw [hnone]

/-- What is found in two programs is what is found in each. -/
theorem findings_append (p q : List Stmt) :
    (findings (p ++ q)).distances = (findings p).distances ++ (findings q).distances ∧
      (findings (p ++ q)).errors = (findings p).errors ++ (findings q).errors := by
  induction p with
  | nil => exact ⟨rfl, rfl⟩
  | cons s p ih =>
    rw [List.cons_append, findings_cons, findings_cons, Findings.distances_append,
      Findings.errors_append, Findings.distances_append, Findings.errors_append, ih.1, ih.2,
      List.append_assoc, List.append_assoc]
    exact ⟨rfl, rfl⟩

/-- A program is accepted with its distances if nothing is wrong with it. -/
theorem resolve_eq_ok {program : List Stmt} {distances : List (ExprId × Nat)} :
    resolve program = .ok distances ↔
      (findings program).errors = [] ∧ (findings program).distances = distances := by
  unfold resolve
  dsimp only
  split
  · next hempty => simp [List.isEmpty_iff.mp hempty]
  · next hsome =>
    rw [List.isEmpty_iff] at hsome
    simp [hsome]

/-- Programs behind each other are accepted if each of them is, and their distances add up. -/
theorem resolve_append {p q : List Stmt} {ds es : List (ExprId × Nat)} (hp : resolve p = .ok ds)
    (hq : resolve q = .ok es) : resolve (p ++ q) = .ok (ds ++ es) := by
  obtain ⟨herrors, rfl⟩ := resolve_eq_ok.mp hp
  obtain ⟨herrors', rfl⟩ := resolve_eq_ok.mp hq
  obtain ⟨hdistances, hboth⟩ := findings_append p q
  exact resolve_eq_ok.mpr ⟨by rw [hboth, herrors, herrors', List.append_nil], hdistances⟩

/-- A relabeled program is accepted if the program is, with the same distances. -/
theorem resolve_relabel {program : List Stmt} {distances : List (ExprId × Nat)}
    (h : resolve program = .ok distances) :
    resolve (r.stmts program) = .ok (distances.map fun e => (r.number e.1, e.2)) := by
  obtain ⟨herrors, rfl⟩ := resolve_eq_ok.mp h
  refine resolve_eq_ok.mpr ⟨?_, by rw [findings_relabel]; rfl⟩
  rw [findings_relabel]
  exact List.map_eq_nil_iff.mpr herrors

end Scope

end ScriptEngine
