import ScriptEngine.Program

/-!
# Programs up to lines and numbers

Two programs may differ in the lines of their tokens and in the numbers of their expressions and
still be the same program. A relabeling changes lines and numbers throughout a program and leaves
everything else as it is: two programs are the same up to lines and numbers if they become equal
when all lines and numbers are blanked out.

Relabelings compose (`stmts_after`), and the one that changes nothing has no effect
(`stmts_same`).
-/

namespace ScriptEngine

/-- A change of the lines of tokens and of the numbers of expressions. -/
structure Relabeling where
  line : Nat → Nat
  number : ExprId → ExprId

namespace Relabeling

/-- The relabeling that changes nothing. -/
def same : Relabeling := ⟨id, id⟩

/-- Blanks out all lines and numbers. -/
def blank : Relabeling := ⟨fun _ => 0, fun _ => 0⟩

/-- Changes lines only. -/
def lines (line : Nat → Nat) : Relabeling := ⟨line, id⟩

/-- One relabeling after another one. -/
def after (r r' : Relabeling) : Relabeling := ⟨r.line ∘ r'.line, r.number ∘ r'.number⟩

section

variable (r : Relabeling)

/-- A token on its new line. -/
def token (t : Token) : Token := { t with line := r.line t.line }

/-- The text of a string token is kept. -/
@[simp] theorem token_kind (t : Token) : (r.token t).kind = t.kind := rfl
@[simp] theorem token_lexeme (t : Token) : (r.token t).lexeme = t.lexeme := rfl
@[simp] theorem token_literal (t : Token) : (r.token t).literal = t.literal := rfl
@[simp] theorem token_line (t : Token) : (r.token t).line = r.line t.line := rfl
@[simp] theorem token_stringValue (t : Token) : (r.token t).stringValue = t.stringValue := rfl

@[simp] theorem token_named (name : String) (line : Nat) :
    r.token (.named name line) = .named name (r.line line) := rfl

/-- A reference with its new line and number. -/
def reference (ref : Reference) : Reference := ⟨r.number ref.id, r.token ref.name⟩

@[simp] theorem reference_id (ref : Reference) : (r.reference ref).id = r.number ref.id := rfl
@[simp] theorem reference_name (ref : Reference) : (r.reference ref).name = r.token ref.name := rfl

/-- An import item on its new lines. -/
def item (i : ImportItem) : ImportItem := ⟨r.token i.name, i.alias?.map r.token⟩

@[simp] theorem item_name (i : ImportItem) : (r.item i).name = r.token i.name := rfl

/-- The name that an imported item binds is relabeled with it. -/
@[simp] theorem item_binding (i : ImportItem) : (r.item i).binding = r.token i.binding := by
  obtain ⟨name, alias?⟩ := i
  cases alias? <;> rfl

end

mutual

/-- An expression with its new lines and numbers. -/
def expr (r : Relabeling) : Expr → Expr
  | .constant id value => .constant (r.number id) value
  | .reference ref => .reference (r.reference ref)
  | .assign id name value => .assign (r.number id) (r.token name) (r.expr value)
  | .binary id left operator right =>
    .binary (r.number id) (r.expr left) (r.token operator) (r.expr right)
  | .logical id left operator right =>
    .logical (r.number id) (r.expr left) (r.token operator) (r.expr right)
  | .unary id operator operand => .unary (r.number id) (r.token operator) (r.expr operand)
  | .grouping id inner => .grouping (r.number id) (r.expr inner)
  | .call id callee paren arguments =>
    .call (r.number id) (r.expr callee) (r.token paren) (r.exprs arguments)
  | .get id object name => .get (r.number id) (r.expr object) (r.token name)
  | .set id object name value =>
    .set (r.number id) (r.expr object) (r.token name) (r.expr value)
  | .getItem id object bracket index =>
    .getItem (r.number id) (r.expr object) (r.token bracket) (r.expr index)
  | .setItem id object index equals value =>
    .setItem (r.number id) (r.expr object) (r.expr index) (r.token equals) (r.expr value)
  | .self id keyword => .self (r.number id) (r.token keyword)
  | .super id keyword className method =>
    .super (r.number id) (r.token keyword) (r.token className) (r.token method)
  | .array id elements => .array (r.number id) (r.exprs elements)
  | .map id entries => .map (r.number id) (r.entries entries)
  | .lambda id decl => .lambda (r.number id) (r.decl decl)

/-- Expressions with their new lines and numbers. -/
def exprs (r : Relabeling) : List Expr → List Expr
  | [] => []
  | e :: es => r.expr e :: r.exprs es

/-- The entries of a map with their new lines and numbers. -/
def entries (r : Relabeling) : List (Token × Expr) → List (Token × Expr)
  | [] => []
  | (key, e) :: es => (r.token key, r.expr e) :: r.entries es

/-- An optional expression with its new lines and numbers. -/
def expr? (r : Relabeling) : Option Expr → Option Expr
  | none => none
  | some e => some (r.expr e)

/-- A function with its new lines and numbers. -/
def decl (r : Relabeling) : FunctionDecl → FunctionDecl
  | .mk name params body anonymous =>
    .mk (r.token name) (params.map r.token) (r.stmts body) anonymous

/-- Functions with their new lines and numbers. -/
def decls (r : Relabeling) : List FunctionDecl → List FunctionDecl
  | [] => []
  | d :: ds => r.decl d :: r.decls ds

/-- A statement with its new lines and numbers. -/
def stmt (r : Relabeling) : Stmt → Stmt
  | .expression value => .expression (r.expr value)
  | .print value => .print (r.expr value)
  | .var name init? => .var (r.token name) (r.expr? init?)
  | .block body => .block (r.stmts body)
  | .branch condition thenPart elsePart? =>
    .branch (r.expr condition) (r.stmt thenPart) (r.stmt? elsePart?)
  | .loop condition body => .loop (r.expr condition) (r.stmt body)
  | .function d => .function (r.decl d)
  | .ret keyword value? => .ret (r.token keyword) (r.expr? value?)
  | .classDecl name superclasses methods =>
    .classDecl (r.token name) (superclasses.map r.reference) (r.decls methods)
  | .importFrom path items => .importFrom (r.token path) (items.map r.item)
  | .exported inner => .exported (r.stmt inner)
  | .throw keyword value => .throw (r.token keyword) (r.expr value)
  | .attempt body param? handler? cleanup? =>
    .attempt (r.stmts body) (param?.map r.token) (r.stmts? handler?) (r.stmts? cleanup?)

/-- An optional statement with its new lines and numbers. -/
def stmt? (r : Relabeling) : Option Stmt → Option Stmt
  | none => none
  | some s => some (r.stmt s)

/-- Statements with their new lines and numbers. -/
def stmts (r : Relabeling) : List Stmt → List Stmt
  | [] => []
  | s :: ss => r.stmt s :: r.stmts ss

/-- An optional list of statements with its new lines and numbers. -/
def stmts? (r : Relabeling) : Option (List Stmt) → Option (List Stmt)
  | none => none
  | some ss => some (r.stmts ss)

end

section

variable (r : Relabeling)

/-- Lists of expressions are relabeled one by one. -/
@[simp] theorem exprs_eq_map (es : List Expr) : r.exprs es = es.map r.expr := by
  induction es with
  | nil => rfl
  | cons e es ih => rw [exprs, ih, List.map_cons]

/-- Entries of a map are relabeled one by one, names and values. -/
@[simp] theorem entries_eq_map (es : List (Token × Expr)) :
    r.entries es = es.map fun e => (r.token e.1, r.expr e.2) := by
  induction es with
  | nil => rfl
  | cons e es ih => rw [entries, ih, List.map_cons]

/-- An optional expression is relabeled if it is there. -/
@[simp] theorem expr?_eq_map (e? : Option Expr) : r.expr? e? = e?.map r.expr := by
  cases e? <;> rfl

/-- Lists of declarations are relabeled one by one. -/
@[simp] theorem decls_eq_map (ds : List FunctionDecl) : r.decls ds = ds.map r.decl := by
  induction ds with
  | nil => rfl
  | cons d ds ih => rw [decls, ih, List.map_cons]

/-- An optional statement is relabeled if it is there. -/
@[simp] theorem stmt?_eq_map (s? : Option Stmt) : r.stmt? s? = s?.map r.stmt := by
  cases s? <;> rfl

/-- Lists of statements are relabeled one by one. -/
@[simp] theorem stmts_eq_map (ss : List Stmt) : r.stmts ss = ss.map r.stmt := by
  induction ss with
  | nil => rfl
  | cons s ss ih => rw [stmts, ih, List.map_cons]

/-- An optional list of statements is relabeled one by one if it is there. -/
@[simp] theorem stmts?_eq_map (ss? : Option (List Stmt)) :
    r.stmts? ss? = ss?.map (·.map r.stmt) := by
  cases ss? with
  | none => rfl
  | some ss => rw [stmts?, stmts_eq_map, Option.map_some]

@[simp] theorem decl_name (d : FunctionDecl) : (r.decl d).name = r.token d.name := by
  cases d; rfl

@[simp] theorem decl_params (d : FunctionDecl) : (r.decl d).params = d.params.map r.token := by
  cases d; rfl

@[simp] theorem decl_body (d : FunctionDecl) : (r.decl d).body = d.body.map r.stmt := by
  cases d
  exact r.stmts_eq_map _

/-- A relabeled declaration is anonymous exactly if the declaration is. -/
@[simp] theorem decl_anonymous (d : FunctionDecl) : (r.decl d).anonymous = d.anonymous := by
  cases d; rfl

end

/-! ## Changing nothing -/

@[simp] theorem token_same (t : Token) : same.token t = t := rfl

@[simp] theorem reference_same (ref : Reference) : same.reference ref = ref := rfl

@[simp] theorem item_same (i : ImportItem) : same.item i = i := by
  obtain ⟨name, alias?⟩ := i
  cases alias? <;> rfl

/-- A function that changes no element changes no list. -/
theorem map_same {α : Type} {f : α → α} (h : ∀ a, f a = a) (l : List α) : l.map f = l := by
  rw [show f = id from funext h, List.map_id]

mutual

/-- A relabeling that changes nothing keeps every expression, by induction on the tree. -/
theorem expr_same : ∀ e, same.expr e = e
  | .constant _ _ | .reference _ | .self _ _ | .super _ _ _ _ => rfl
  | .assign _ _ value => by rw [expr, expr_same value]; rfl
  | .binary _ left _ right => by rw [expr, expr_same left, expr_same right]; rfl
  | .logical _ left _ right => by rw [expr, expr_same left, expr_same right]; rfl
  | .unary _ _ operand => by rw [expr, expr_same operand]; rfl
  | .grouping _ inner => by rw [expr, expr_same inner]; rfl
  | .call _ callee _ arguments => by rw [expr, expr_same callee, exprs_same arguments]; rfl
  | .get _ object _ => by rw [expr, expr_same object]; rfl
  | .set _ object _ value => by rw [expr, expr_same object, expr_same value]; rfl
  | .getItem _ object _ index => by rw [expr, expr_same object, expr_same index]; rfl
  | .setItem _ object index _ value => by
    rw [expr, expr_same object, expr_same index, expr_same value]; rfl
  | .array _ elements => by rw [expr, exprs_same elements]; rfl
  | .map _ entries => by rw [expr, entries_same entries]; rfl
  | .lambda _ decl => by rw [expr, decl_same decl]; rfl

theorem exprs_same : ∀ es, same.exprs es = es
  | [] => rfl
  | e :: es => by rw [exprs, expr_same e, exprs_same es]

theorem entries_same : ∀ es, same.entries es = es
  | [] => rfl
  | (key, e) :: es => by rw [entries, expr_same e, entries_same es, token_same]

theorem expr?_same : ∀ e?, same.expr? e? = e?
  | none => rfl
  | some e => by rw [expr?, expr_same e]

theorem decl_same : ∀ d, same.decl d = d
  | .mk name params body anonymous => by
    rw [decl, stmts_same body, map_same token_same, token_same]

theorem decls_same : ∀ ds, same.decls ds = ds
  | [] => rfl
  | d :: ds => by rw [decls, decl_same d, decls_same ds]

theorem stmt_same : ∀ s, same.stmt s = s
  | .expression value => by rw [stmt, expr_same value]
  | .print value => by rw [stmt, expr_same value]
  | .var _ init? => by rw [stmt, expr?_same init?]; rfl
  | .block body => by rw [stmt, stmts_same body]
  | .branch condition thenPart elsePart? => by
    rw [stmt, expr_same condition, stmt_same thenPart, stmt?_same elsePart?]
  | .loop condition body => by rw [stmt, expr_same condition, stmt_same body]
  | .function d => by rw [stmt, decl_same d]
  | .ret _ value? => by rw [stmt, expr?_same value?]; rfl
  | .classDecl _ superclasses methods => by
    rw [stmt, decls_same methods, map_same reference_same, token_same]
  | .importFrom _ items => by rw [stmt, map_same item_same, token_same]
  | .exported inner => by rw [stmt, stmt_same inner]
  | .throw _ value => by rw [stmt, expr_same value]; rfl
  | .attempt body param? handler? cleanup? => by
    rw [stmt, stmts_same body, stmts?_same handler?, stmts?_same cleanup?,
      show param?.map same.token = param? from Option.map_id' ..]

theorem stmt?_same : ∀ s?, same.stmt? s? = s?
  | none => rfl
  | some s => by rw [stmt?, stmt_same s]

theorem stmts_same : ∀ ss, same.stmts ss = ss
  | [] => rfl
  | s :: ss => by rw [stmts, stmt_same s, stmts_same ss]

theorem stmts?_same : ∀ ss?, same.stmts? ss? = ss?
  | none => rfl
  | some ss => by rw [stmts?, stmts_same ss]

end

/-! ## Changing twice -/

section

variable (r r' : Relabeling)

theorem token_after (t : Token) : (r.after r').token t = r.token (r'.token t) := rfl

theorem reference_after (ref : Reference) :
    (r.after r').reference ref = r.reference (r'.reference ref) := rfl

theorem item_after (i : ImportItem) : (r.after r').item i = r.item (r'.item i) := by
  obtain ⟨name, alias?⟩ := i
  cases alias? <;> rfl

/-- Two functions one after the other map a list as they map its elements. -/
theorem map_after {α : Type} {f g h : α → α} (hf : ∀ a, f a = g (h a)) (l : List α) :
    l.map f = (l.map h).map g := by
  rw [show f = g ∘ h from funext hf, List.map_map]

mutual

/-- One relabeling after the other relabels every expression in one go, by induction on the tree. -/
theorem expr_after : ∀ e, (r.after r').expr e = r.expr (r'.expr e)
  | .constant _ _ | .reference _ | .self _ _ | .super _ _ _ _ => rfl
  | .assign _ _ value => by rw [expr, expr_after value]; rfl
  | .binary _ left _ right => by rw [expr, expr_after left, expr_after right]; rfl
  | .logical _ left _ right => by rw [expr, expr_after left, expr_after right]; rfl
  | .unary _ _ operand => by rw [expr, expr_after operand]; rfl
  | .grouping _ inner => by rw [expr, expr_after inner]; rfl
  | .call _ callee _ arguments => by rw [expr, expr_after callee, exprs_after arguments]; rfl
  | .get _ object _ => by rw [expr, expr_after object]; rfl
  | .set _ object _ value => by rw [expr, expr_after object, expr_after value]; rfl
  | .getItem _ object _ index => by rw [expr, expr_after object, expr_after index]; rfl
  | .setItem _ object index _ value => by
    rw [expr, expr_after object, expr_after index, expr_after value]; rfl
  | .array _ elements => by rw [expr, exprs_after elements]; rfl
  | .map _ entries => by rw [expr, entries_after entries]; rfl
  | .lambda _ decl => by rw [expr, decl_after decl]; rfl

theorem exprs_after : ∀ es, (r.after r').exprs es = r.exprs (r'.exprs es)
  | [] => rfl
  | e :: es => by rw [exprs, expr_after e, exprs_after es]; rfl

theorem entries_after : ∀ es, (r.after r').entries es = r.entries (r'.entries es)
  | [] => rfl
  | (key, e) :: es => by rw [entries, expr_after e, entries_after es]; rfl

theorem expr?_after : ∀ e?, (r.after r').expr? e? = r.expr? (r'.expr? e?)
  | none => rfl
  | some e => by rw [expr?, expr_after e]; rfl

theorem decl_after : ∀ d, (r.after r').decl d = r.decl (r'.decl d)
  | .mk name params body anonymous => by
    rw [decl, stmts_after body, map_after (token_after r r')]; rfl

theorem decls_after : ∀ ds, (r.after r').decls ds = r.decls (r'.decls ds)
  | [] => rfl
  | d :: ds => by rw [decls, decl_after d, decls_after ds]; rfl

theorem stmt_after : ∀ s, (r.after r').stmt s = r.stmt (r'.stmt s)
  | .expression value => by rw [stmt, expr_after value]; rfl
  | .print value => by rw [stmt, expr_after value]; rfl
  | .var _ init? => by rw [stmt, expr?_after init?]; rfl
  | .block body => by rw [stmt, stmts_after body]; rfl
  | .branch condition thenPart elsePart? => by
    rw [stmt, expr_after condition, stmt_after thenPart, stmt?_after elsePart?]; rfl
  | .loop condition body => by rw [stmt, expr_after condition, stmt_after body]; rfl
  | .function d => by rw [stmt, decl_after d]; rfl
  | .ret _ value? => by rw [stmt, expr?_after value?]; rfl
  | .classDecl _ superclasses methods => by
    rw [stmt, decls_after methods, map_after (reference_after r r')]; rfl
  | .importFrom _ items => by rw [stmt, map_after (item_after r r')]; rfl
  | .exported inner => by rw [stmt, stmt_after inner]; rfl
  | .throw _ value => by rw [stmt, expr_after value]; rfl
  | .attempt body param? handler? cleanup? => by
    rw [stmt, stmts_after body, stmts?_after handler?, stmts?_after cleanup?]
    cases param? <;> rfl

theorem stmt?_after : ∀ s?, (r.after r').stmt? s? = r.stmt? (r'.stmt? s?)
  | none => rfl
  | some s => by rw [stmt?, stmt_after s]; rfl

theorem stmts_after : ∀ ss, (r.after r').stmts ss = r.stmts (r'.stmts ss)
  | [] => rfl
  | s :: ss => by rw [stmts, stmt_after s, stmts_after ss]; rfl

theorem stmts?_after : ∀ ss?, (r.after r').stmts? ss? = r.stmts? (r'.stmts? ss?)
  | none => rfl
  | some ss => by rw [stmts?, stmts_after ss]; rfl

end

end

end Relabeling

end ScriptEngine
