import ScriptEngine.Proofs.Scope.Shape

/-!
# What surrounds a piece of program

The walk over the scopes of a program carries the class and the function that surround it, and
refuses a `this`, a `super` or a `return` that stands in none. Both can be told from the constructs
of the scopes as well: `surrounding` reads the class off the innermost scope of a `this`. The two
accounts agree all the way down, so in a program without scope errors every `this` stands in a
class and every `super` in a class with superclasses (`inside_findings`).

With the shape of the scopes this says where the two words are found. `this` is found in the scope
of a receiver, and `super` one scope further out than the `this` of the same place.
-/

namespace ScriptEngine.Scope

/-! ## The class around a piece of program -/

/-- The innermost class whose methods surround a piece of program, by the constructs around it. -/
def surrounding : List Site → ClassContext
  | [] => .none
  | .receiver _ :: outer =>
    match outer with
    | .superclasses _ :: _ => .subclass
    | _ => .plain
  | _ :: outer => surrounding outer

/-- A scope that the program opens does not change the class around it. -/
theorem surrounding_cons {site : Site} (h : site.isSealed = false) (outer : List Site) :
    surrounding (site :: outer) = surrounding outer := by
  cases site with
  | receiver decls => cases h
  | superclasses refs => cases h
  | _ => rfl

/-- Around the methods of a class stands that class. -/
theorem surrounding_classStack {stack : Stack} (h : stack.Open) (refs : List Reference)
    (decls : List FunctionDecl) :
    surrounding (classStack stack refs decls).sites =
      if refs.isEmpty then .plain else .subclass := by
  unfold classStack superStack
  cases refs with
  | cons ref refs => rfl
  | nil =>
    -- Without superclasses the next scope out is one of the program, not that of another class.
    cases stack with
    | nil => rfl
    | cons scope outer =>
      obtain ⟨site, layer⟩ := scope
      have hsite := h site rfl
      cases site with
      | superclasses refs => cases hsite
      | _ => rfl

/-- The context says what the constructs say, and the innermost scope is one of the program. -/
structure Context.Fits (ctx : Context) (stack : Stack) : Prop where
  cls : ctx.cls = surrounding stack.sites
  unsealed : stack.Open

/-- New names do not change the class around a piece of program. -/
theorem Context.Fits.extend {ctx : Context} {stack : Stack} (h : ctx.Fits stack) (names : Layer) :
    ctx.Fits (stack.extend names) :=
  ⟨by rw [Stack.sites_extend, h.cls], h.unsealed.extend names⟩

/-- A context fits behind a scope that the program opens. -/
theorem Context.Fits.enter {ctx : Context} {stack : Stack} (h : ctx.cls = surrounding stack.sites)
    {site : Site} (hsite : site.isSealed = false) (layer : Layer) (kind : FunctionContext) :
    Context.Fits { ctx with function := kind } ((site, layer) :: stack) :=
  ⟨by rw [Stack.sites_cons, surrounding_cons hsite, h], .cons hsite layer stack⟩

/-! ## Every `this` and `super` stands in a class -/

/-- A `this` stands in a class, and a `super` in a class with superclasses. -/
def Use.Inside (u : Use) : Prop :=
  match u.role with
  | .self => surrounding u.stack.sites ≠ .none
  | .super => surrounding u.stack.sites = .subclass
  | _ => True

/-- Unless there are errors, all the uses stand in the classes that they need. -/
def Checked (found : Findings) (uses : List Use) : Prop :=
  found.errors = [] → ∀ u ∈ uses, u.Inside

namespace Checked

theorem nothing (found : Findings) : Checked found [] :=
  fun _ _ hu => absurd hu List.not_mem_nil

/-- A use is checked if it stands in a class whenever there is no error. -/
theorem one {found : Findings} {u : Use} (h : found.errors = [] → u.Inside) : Checked found [u] :=
  fun he _ hv => List.mem_singleton.mp hv ▸ h he

/-- Two pieces are checked if each of them is. -/
theorem append {a b : Findings} {us vs : List Use} (ha : Checked a us) (hb : Checked b vs) :
    Checked (a ++ b) (us ++ vs) := by
  intro he u hu
  rw [Findings.errors_append, List.append_eq_nil_iff] at he
  rcases List.mem_append.mp hu with hu | hu
  · exact ha he.1 u hu
  · exact hb he.2 u hu

/-- Findings in front can only add errors. -/
theorem behind (own : Findings) {found : Findings} {uses : List Use} (h : Checked found uses) :
    Checked (own ++ found) uses := by
  intro he
  rw [Findings.errors_append, List.append_eq_nil_iff] at he
  exact h he.2

/-- So can findings that follow. -/
theorem before {found : Findings} {uses : List Use} (h : Checked found uses) (rest : Findings) :
    Checked (found ++ rest) uses := by
  intro he
  rw [Findings.errors_append, List.append_eq_nil_iff] at he
  exact h he.1

end Checked

/-- The superclasses in the head of a class are neither `this` nor `super`. -/
theorem checked_heads (found : Findings) (className : String) (stack : Stack)
    (refs : List Reference) : Checked found (refs.map (headUse className stack)) := by
  intro _ u hu
  obtain ⟨ref, -, rfl⟩ := List.mem_map.mp hu
  trivial

mutual

/-- In an expression without errors both words stand in a class. -/
theorem inside_expr {ctx : Context} {stack : Stack} (h : ctx.Fits stack) :
    ∀ e, Checked (expr ctx stack.layers e) (exprUses stack e)
  | .constant id c => .nothing _
  | .reference ref => .one fun _ => trivial
  | .assign id name value => (inside_expr h value).append (.one fun _ => trivial)
  | .binary id left operator right => (inside_expr h left).append (inside_expr h right)
  | .logical id left operator right => (inside_expr h left).append (inside_expr h right)
  | .unary id operator operand => inside_expr h operand
  | .grouping id inner => inside_expr h inner
  | .call id callee paren arguments => (inside_expr h callee).append (inside_exprs h arguments)
  | .get id object name => inside_expr h object
  | .set id object name value => (inside_expr h value).append (inside_expr h object)
  | .getItem id object bracket index => (inside_expr h object).append (inside_expr h index)
  | .setItem id object index equals value =>
    ((inside_expr h object).append (inside_expr h index)).append (inside_expr h value)
  | .self id keyword => by
    refine .one fun he => ?_
    show surrounding stack.sites ≠ .none
    simp only [expr] at he
    split at he
    · exact absurd he (by simp [Findings.error])
    · next hcls => rwa [h.cls] at hcls
  | .super id keyword className method => by
    refine .one fun he => ?_
    show surrounding stack.sites = .subclass
    simp only [expr, Findings.errors_append, List.append_eq_nil_iff] at he
    rw [← h.cls]
    cases hcls : ctx.cls with
    | subclass => rfl
    | none => exact absurd he.1 (by simp [hcls, Findings.error])
    | plain => exact absurd he.1 (by simp [hcls, Findings.error])
  | .array id elements => inside_exprs h elements
  | .map id entries => inside_mapEntries h entries
  | .lambda id decl => inside_function h.cls .function decl

theorem inside_exprs {ctx : Context} {stack : Stack} (h : ctx.Fits stack) :
    ∀ es, Checked (exprs ctx stack.layers es) (exprsUses stack es)
  | [] => .nothing _
  | e :: es => (inside_expr h e).append (inside_exprs h es)

theorem inside_mapEntries {ctx : Context} {stack : Stack} (h : ctx.Fits stack) :
    ∀ es, Checked (mapEntries ctx stack.layers es) (entriesUses stack es)
  | [] => .nothing _
  | (_, e) :: es => (inside_expr h e).append (inside_mapEntries h es)

theorem inside_expr? {ctx : Context} {stack : Stack} (h : ctx.Fits stack) :
    ∀ e?, Checked (expr? ctx stack.layers e?) (optionalUses stack e?)
  | none => .nothing _
  | some e => inside_expr h e

/-- In a function the class is the one around it. -/
theorem inside_function {ctx : Context} {stack : Stack} (h : ctx.cls = surrounding stack.sites)
    (kind : FunctionContext) :
    ∀ decl, Checked (function ctx stack.layers kind decl) (functionUses stack decl)
  | .mk name params body anonymous => by
    have hlayers := layers_extend_readyNames
      ((Site.call (.mk name params body anonymous), []) :: stack) params
    simp only [Stack.extend, Stack.layers_cons, List.append_nil] at hlayers
    simp only [function, functionUses, ← hlayers]
    exact .behind _ (inside_stmts (.enter h rfl (readyNames params) kind) body)

/-- In the methods of a class it is that class. -/
theorem inside_methods {ctx : Context} {stack : Stack} (h : ctx.cls = surrounding stack.sites) :
    ∀ decls, Checked (methods ctx stack.layers decls) (methodsUses stack decls)
  | [] => .nothing _
  | decl :: decls => (inside_function h _ decl).append (inside_methods h decls)

/-- In a statement without errors both words stand in a class. -/
theorem inside_stmt {ctx : Context} {stack : Stack} (h : ctx.Fits stack) :
    ∀ s, Checked (stmt ctx stack.layers s).2 (stmtUses stack s)
  | .expression value => inside_expr h value
  | .print value => inside_expr h value
  | .var name init? => by
    simp only [stmt, stmtUses, ← Stack.layers_extend_bind]
    exact .behind _ (inside_expr? (h.extend _) init?)
  | .block body => inside_stmts (.enter h.cls rfl [] ctx.function) body
  | .branch condition thenPart elsePart? => by
    simp only [stmt, stmt_fst, stmtUses]
    exact ((inside_expr h condition).append (inside_stmt h thenPart)).append
      (inside_stmt? (h.extend _) elsePart?)
  | .loop condition body => (inside_expr h condition).append (inside_stmt h body)
  | .function decl => by
    simp only [stmt, stmtUses, ← Stack.layers_extend_bind]
    exact .behind _ (inside_function (h.extend _).cls .function decl)
  | .ret keyword value? => .behind _ (inside_expr? h value?)
  | .classDecl name refs decls => by
    simp only [stmt, stmtUses, ← Stack.layers_extend_bind]
    rw [← layers_classStack _ refs decls]
    -- The context of the methods is that of the class, which is what its scopes say as well.
    exact (checked_heads _ _ _ refs).append
      (inside_methods (surrounding_classStack (h.extend _).unsealed refs decls).symm decls)
  | .importFrom path items => .nothing _
  | .exported inner => inside_stmt h inner
  | .throw keyword value => inside_expr h value
  | .attempt body param? handler? cleanup? => by
    simp only [stmt, stmtUses]
    exact (((inside_stmts (.enter h.cls rfl [] ctx.function) body).before _).append
      (inside_handler h param? handler?)).append (inside_cleanup h cleanup?)

theorem inside_stmt? {ctx : Context} {stack : Stack} (h : ctx.Fits stack) :
    ∀ s?, Checked (stmt? ctx stack.layers s?).2 (elseUses stack s?)
  | none => .nothing _
  | some s => inside_stmt h s

theorem inside_stmts {ctx : Context} {stack : Stack} (h : ctx.Fits stack) :
    ∀ ss, Checked (stmts ctx stack.layers ss).2 (stmtsUses stack ss)
  | [] => .nothing _
  | s :: ss => by
    simp only [stmts, stmt_fst, stmtsUses]
    exact (inside_stmt h s).append (inside_stmts (h.extend _) ss)

theorem inside_handler {ctx : Context} {stack : Stack} (h : ctx.Fits stack)
    (param? : Option Token) :
    ∀ handler?, Checked (stmts? ctx (bindAll ([] :: stack.layers) param?.toList).1 handler?)
      (handlerUses stack param? handler?)
  | none => .nothing _
  | some body => by
    have hlayers := layers_extend_readyNames
      ((Site.handler param? body, []) :: stack) param?.toList
    simp only [Stack.extend, Stack.layers_cons, List.append_nil] at hlayers
    simp only [stmts?, handlerUses, ← hlayers]
    exact inside_stmts (.enter h.cls rfl (readyNames param?.toList) ctx.function) body

theorem inside_cleanup {ctx : Context} {stack : Stack} (h : ctx.Fits stack) :
    ∀ cleanup?, Checked (stmts? ctx ([] :: stack.layers) cleanup?) (cleanupUses stack cleanup?)
  | none => .nothing _
  | some body => inside_stmts (.enter h.cls rfl [] ctx.function) body

end

/-- A program that is accepted has no errors. -/
theorem resolve_errors {program : List Stmt} {distances : List (ExprId × Nat)}
    (h : resolve program = .ok distances) : (findings program).errors = [] := by
  unfold resolve at h
  dsimp only at h
  split at h
  · next he => exact List.isEmpty_iff.mp he
  · cases h

/-- In a program without scope errors every `this` and every `super` stands in the class that it
needs. -/
theorem inside_findings {program : List Stmt} {distances : List (ExprId × Nat)}
    (h : resolve program = .ok distances) : ∀ u ∈ programUses program, u.Inside := by
  have hfits : Context.Fits ⟨.none, .none⟩ [] := ⟨rfl, fun site hsite => absurd hsite (by simp)⟩
  exact inside_stmts hfits program (resolve_errors h)

/-! ## Where the two words are found -/

/-- Inside of a class `this` is found, in the scope of the receiver of that class. Where the class
has superclasses, `super` is found one scope further out. -/
theorem distance?_this {stack : Stack} (hshape : stack.Shape)
    (h : surrounding stack.sites ≠ .none) :
    ∃ k decls rest, distance? stack.layers "this" = some k ∧
      stack.sites.drop k = .receiver decls :: rest ∧
      (surrounding stack.sites = .subclass → distance? stack.layers "super" = some (k + 1)) := by
  have hhere : ∀ outer : List Layer, distance? ([("this", true)] :: outer) "this" = some 0 := by
    intro outer
    rw [distance?_cons]
    rfl
  induction hshape with
  | empty => exact absurd rfl h
  | @plain site layer outer hsite hlayer houter ih =>
    have hthis : layer.has "this" = false :=
      Layer.has_eq_false fun entry hentry => (hlayer entry hentry).1
    have hsuper : layer.has "super" = false :=
      Layer.has_eq_false fun entry hentry => (hlayer entry hentry).2.1
    rw [Stack.sites_cons, surrounding_cons hsite] at h ⊢
    obtain ⟨k, decls, rest, hk, hdrop, hsub⟩ := ih h
    refine ⟨k + 1, decls, rest, ?_, hdrop, fun hc => ?_⟩
    · rw [Stack.layers_cons, distance?_cons, hthis, hk]
      rfl
    · rw [Stack.layers_cons, distance?_cons, hsuper, hsub hc]
      rfl
  | @receiver decls outer houter ih =>
    refine ⟨0, decls, outer.sites, hhere _, rfl, fun hc => ?_⟩
    -- A scope of superclasses that has this shape around it would have its own `this` inside it.
    cases houter with
    | empty => cases hc
    | @plain site layer outer hsite hlayer houter =>
      cases site with
      | superclasses refs => cases hsite
      | _ => cases hc
    | receiver houter => cases hc
    | subclass houter => cases hc
  | @subclass decls refs outer houter ih =>
    have hnot : Layer.has [("this", true)] "super" = false := by decide
    have hhas : (superLayer refs).has "super" = true :=
      Layer.has_eq_true_iff.mpr ⟨("super", true), List.mem_cons_self, rfl⟩
    refine ⟨0, decls, .superclasses refs :: outer.sites, hhere _, rfl, fun _ => ?_⟩
    rw [Stack.layers_cons, Stack.layers_cons, distance?_cons, hnot, distance?_cons, hhas]
    rfl

/-! ## Returns stand in functions -/

/-- A statement that stands in no function and has no scope errors. -/
def Outside (s : Stmt) : Prop :=
  ∃ ctx scopes, ctx.function = .none ∧ (stmt ctx scopes s).2.errors = []

/-- Statements without errors that stand in no function contain no return. -/
theorem outside_stmts {ctx : Context} (hctx : ctx.function = .none) (statements : List Stmt) :
    ∀ {scopes : List Layer}, (stmts ctx scopes statements).2.errors = [] →
      ∀ s ∈ statements, Outside s := by
  induction statements with
  | nil => exact fun _ s hs => absurd hs List.not_mem_nil
  | cons first rest ih =>
    intro scopes he s hs
    simp only [stmts, Findings.errors_append, List.append_eq_nil_iff] at he
    rcases List.mem_cons.mp hs with rfl | hs
    · exact ⟨ctx, scopes, hctx, he.1⟩
    · exact ih he.2 s hs

/-- The statements of a program without scope errors stand in no function. -/
theorem outside_program {program : List Stmt} {distances : List (ExprId × Nat)}
    (h : resolve program = .ok distances) : ∀ s ∈ program, Outside s :=
  outside_stmts rfl program (resolve_errors h)

namespace Outside

/-- What stands outside in a block stands outside. -/
theorem block {body : List Stmt} (h : Outside (.block body)) : ∀ s ∈ body, Outside s := by
  obtain ⟨ctx, scopes, hctx, he⟩ := h
  exact outside_stmts hctx body he

/-- Both branches of a conditional outside stand outside. -/
theorem branch {condition : Expr} {thenPart : Stmt} {elsePart? : Option Stmt}
    (h : Outside (.branch condition thenPart elsePart?)) :
    Outside thenPart ∧ ∀ elsePart, elsePart? = some elsePart → Outside elsePart := by
  obtain ⟨ctx, scopes, hctx, he⟩ := h
  simp only [stmt, Findings.errors_append, List.append_eq_nil_iff] at he
  refine ⟨⟨ctx, scopes, hctx, he.1.2⟩, ?_⟩
  rintro elsePart rfl
  exact ⟨ctx, _, hctx, he.2⟩

/-- The body of a loop outside stands outside. -/
theorem loop {condition : Expr} {body : Stmt} (h : Outside (.loop condition body)) :
    Outside body := by
  obtain ⟨ctx, scopes, hctx, he⟩ := h
  simp only [stmt, Findings.errors_append, List.append_eq_nil_iff] at he
  exact ⟨ctx, scopes, hctx, he.2⟩

/-- An exported declaration outside stands outside. -/
theorem exported {inner : Stmt} (h : Outside (.exported inner)) : Outside inner := by
  obtain ⟨ctx, scopes, hctx, he⟩ := h
  exact ⟨ctx, scopes, hctx, he⟩

/-- The walk refuses a `return` that stands in no function. -/
theorem ret {keyword : Token} {value? : Option Expr} : ¬ Outside (.ret keyword value?) := by
  rintro ⟨ctx, scopes, hctx, he⟩
  simp only [stmt, hctx, if_true, Findings.errors_append, List.append_eq_nil_iff] at he
  exact absurd he.1.1 (by simp [Findings.error])

/-- The blocks of a try statement outside stand outside. -/
theorem attempt {body : List Stmt} {param? : Option Token}
    {handler? cleanup? : Option (List Stmt)}
    (h : Outside (.attempt body param? handler? cleanup?)) :
    (∀ s ∈ body, Outside s) ∧ (∀ handler, handler? = some handler → ∀ s ∈ handler, Outside s) ∧
      ∀ cleanup, cleanup? = some cleanup → ∀ s ∈ cleanup, Outside s := by
  obtain ⟨ctx, scopes, hctx, he⟩ := h
  simp only [stmt, Findings.errors_append, List.append_eq_nil_iff] at he
  refine ⟨outside_stmts hctx body he.1.1.1, ?_, ?_⟩
  · rintro handler rfl
    exact outside_stmts hctx handler he.1.2
  · rintro cleanup rfl
    exact outside_stmts hctx cleanup he.2

end Outside

end ScriptEngine.Scope
