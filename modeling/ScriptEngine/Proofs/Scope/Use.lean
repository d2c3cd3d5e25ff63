import ScriptEngine.Scope

/-!
# The uses of names in a program

A use is an expression that is looked up by its number: a name that is read or assigned, `this`,
`super`, or a superclass in the head of a class. `programUses` lists the uses of a program in the
order in which the walk over its scopes meets them, each with the scopes around it, and for every
scope the construct that it belongs to.

The list is the walk made visible: `agrees_findings` says that a program without scope errors
records exactly the distances of its uses, and that no use is one of those that the walk refuses.
Two facts about single statements carry it. What a statement adds to the innermost scope does not
depend on what surrounds it (`stmt_fst`), and the constructs around a use do not depend on the
names found so far.
-/

namespace ScriptEngine.Scope

/-- The construct of a program that a scope belongs to. -/
inductive Site where
  /-- A block, the guarded part of a try statement or what stands behind `finally`. -/
  | block (body : List Stmt)
  /-- The parameters and the body of a function. -/
  | call (decl : FunctionDecl)
  /-- The handler of a try statement. -/
  | handler (param? : Option Token) (body : List Stmt)
  /-- The scope of `this` around the methods of a class. -/
  | receiver (methods : List FunctionDecl)
  /-- The scope of the superclasses around the methods of a class. -/
  | superclasses (refs : List Reference)

/-- Scopes, innermost first, each with the construct it belongs to. -/
abbrev Stack := List (Site × Layer)

namespace Stack

/-- The names alone. -/
def layers (stack : Stack) : List Layer := stack.map (·.2)

/-- The constructs alone. -/
def sites (stack : Stack) : List Site := stack.map (·.1)

/-- The stack with names added to the innermost scope. -/
def extend (stack : Stack) (names : Layer) : Stack :=
  match stack with
  | [] => []
  | (site, layer) :: outer => (site, names ++ layer) :: outer

@[simp] theorem layers_nil : layers [] = [] := rfl

@[simp] theorem layers_cons (site : Site) (layer : Layer) (outer : Stack) :
    layers ((site, layer) :: outer) = layer :: layers outer := rfl

@[simp] theorem sites_nil : sites [] = [] := rfl

@[simp] theorem sites_cons (site : Site) (layer : Layer) (outer : Stack) :
    sites ((site, layer) :: outer) = site :: sites outer := rfl

@[simp] theorem extend_nil (stack : Stack) : stack.extend [] = stack := by
  cases stack <;> rfl

/-- Names are added one after the other. -/
theorem extend_extend (stack : Stack) (first second : Layer) :
    (stack.extend first).extend second = stack.extend (second ++ first) := by
  cases stack with
  | nil => rfl
  | cons scope outer => simp [extend]

@[simp] theorem sites_extend (stack : Stack) (names : Layer) :
    (stack.extend names).sites = stack.sites := by
  cases stack <;> rfl

/-- Binding a name adds it to the innermost scope. -/
theorem layers_extend_bind (stack : Stack) (name : String) (ready : Bool) :
    (stack.extend [(name, ready)]).layers = bind stack.layers name ready := by
  cases stack <;> rfl

end Stack

/-- Names that may be read at once, as they stand in a scope: the latest first. -/
def readyNames (names : List Token) : Layer :=
  (names.map fun name => (name.lexeme, true)).reverse

/-- Binding some names adds them as ready. -/
theorem layers_extend_readyNames (stack : Stack) (names : List Token) :
    (stack.extend (readyNames names)).layers = (bindAll stack.layers names).1 := by
  induction names generalizing stack with
  | nil => simp [readyNames, bindAll]
  | cons name names ih =>
    have hsplit : readyNames (name :: names) = readyNames names ++ [(name.lexeme, true)] := by
      simp [readyNames]
    -- The walk binds the first name first, so it ends up last.
    rw [hsplit, ← Stack.extend_extend, ih, Stack.layers_extend_bind]
    rfl

/-- What a statement adds to the innermost scope, the latest first. -/
def added : Stmt → Layer
  | .var name _ => [(name.lexeme, true), (name.lexeme, false)]
  | .branch _ thenPart none => added thenPart
  | .branch _ thenPart (some elsePart) => added elsePart ++ added thenPart
  | .loop _ body => added body
  | .function decl => [(decl.name.lexeme, true)]
  | .classDecl name _ _ => [(name.lexeme, true)]
  | .importFrom _ items => readyNames (items.map (·.binding))
  | .exported inner => added inner
  | _ => []

/-- The scopes after a statement: whatever surrounds it, the innermost one has grown by what the
statement adds. -/
theorem stmt_fst (ctx : Context) (stack : Stack) :
    ∀ s, (stmt ctx stack.layers s).1 = (stack.extend (added s)).layers
  | .expression _ | .print _ | .block _ | .ret _ _ | .throw _ _ | .attempt _ _ _ _ => by
    simp [stmt, added]
  | .var name init? => by
    simp only [stmt, added]
    rw [← Stack.layers_extend_bind, ← Stack.layers_extend_bind, Stack.extend_extend]
    rfl
  | .branch condition thenPart none => by
    simp only [stmt, stmt?, added]
    exact stmt_fst ctx stack thenPart
  | .branch condition thenPart (some elsePart) => by
    simp only [stmt, stmt?, added]
    rw [stmt_fst ctx stack thenPart, stmt_fst ctx _ elsePart, Stack.extend_extend]
  | .loop condition body => by
    simp only [stmt, added]
    exact stmt_fst ctx stack body
  | .function decl => by
    simp only [stmt, added]
    rw [Stack.layers_extend_bind]
  | .classDecl name refs decls => by
    simp only [stmt, added]
    rw [Stack.layers_extend_bind]
  | .importFrom path items => by
    simp only [stmt, added]
    rw [layers_extend_readyNames]
  | .exported inner => by
    simp only [stmt, added]
    exact stmt_fst ctx stack inner

/-! ## The uses -/

/-- What a use does with its name. -/
inductive Role where
  | read
  | write
  /-- Names a superclass in the head of a class. -/
  | head (className : String)
  | self
  | super

/-- The name of a variable is read. -/
def Role.isRead : Role → Bool
  | .read => true
  | .head _ => true
  | _ => false

/-- A use of a name: the number it is recorded under, and the scopes around it. -/
structure Use where
  id : ExprId
  name : String
  role : Role
  stack : Stack

namespace Use

/-- What a use records: its distance under its number, if the name is in any scope. -/
def record? (u : Use) : Option (ExprId × Nat) :=
  (distance? u.stack.layers u.name).map fun d => (u.id, d)

/-- Whether the name may be read already, in the innermost scope that has it. -/
def ready? (u : Use) : Option Bool :=
  u.stack.layers.findSome? fun layer => layer.lookup u.name

/-- The use stands directly in the scope of the variable whose initializer it is part of. -/
def Pending (u : Use) : Prop :=
  u.stack.layers.head?.bind (·.lookup u.name) = some false

/-- The walk does not refuse the use. -/
def Allowed (u : Use) : Prop :=
  match u.role with
  | .read => ¬ u.Pending
  | .head className => u.name ≠ className ∧ ¬ u.Pending
  | _ => True

theorem Allowed.not_pending {u : Use} (h : u.Allowed) (hr : u.role.isRead = true) :
    ¬ u.Pending := by
  unfold Allowed at h
  split at h
  · exact h
  · exact h.2
  · next hread hhead =>
    cases hrole : u.role with
    | read => exact absurd hrole hread
    | head className => exact absurd hrole (hhead className)
    | _ => simp [hrole, Role.isRead] at hr

/-- The name is not ready: the use stands in the initializer of the very variable it names. The
walk refuses such a use only where no function stands in between. -/
def Early (u : Use) : Prop :=
  u.ready? = some false

end Use

/-- The use of a name that is read. -/
def readUse (stack : Stack) (ref : Reference) : Use :=
  ⟨ref.id, ref.name.lexeme, .read, stack⟩

/-- The use of a superclass in the head of a class. -/
def headUse (className : String) (stack : Stack) (ref : Reference) : Use :=
  ⟨ref.id, ref.name.lexeme, .head className, stack⟩

/-- The scopes between the methods of a class and the class. -/
def superStack (stack : Stack) (refs : List Reference) : Stack :=
  if refs.isEmpty then stack else (.superclasses refs, superLayer refs) :: stack

/-- The scopes around the methods of a class. -/
def classStack (stack : Stack) (refs : List Reference) (decls : List FunctionDecl) : Stack :=
  (.receiver decls, [("this", true)]) :: superStack stack refs

/-- The scopes around the methods are those of the class. -/
theorem layers_classStack (stack : Stack) (refs : List Reference) (decls : List FunctionDecl) :
    (classStack stack refs decls).layers = classScopes stack.layers refs := by
  unfold classStack superStack classScopes
  cases refs <;> rfl

mutual

/-- The uses in an expression. -/
def exprUses (stack : Stack) : Expr → List Use
  | .constant _ _ => []
  | .reference ref => [readUse stack ref]
  | .assign id name value => exprUses stack value ++ [⟨id, name.lexeme, .write, stack⟩]
  | .binary _ left _ right => exprUses stack left ++ exprUses stack right
  | .logical _ left _ right => exprUses stack left ++ exprUses stack right
  | .unary _ _ operand => exprUses stack operand
  | .grouping _ inner => exprUses stack inner
  | .call _ callee _ arguments => exprUses stack callee ++ exprsUses stack arguments
  | .get _ object _ => exprUses stack object
  | .set _ object _ value => exprUses stack value ++ exprUses stack object
  | .getItem _ object _ index => exprUses stack object ++ exprUses stack index
  | .setItem _ object index _ value =>
    exprUses stack object ++ exprUses stack index ++ exprUses stack value
  | .self id keyword => [⟨id, keyword.lexeme, .self, stack⟩]
  | .super id keyword _ _ => [⟨id, keyword.lexeme, .super, stack⟩]
  | .array _ elements => exprsUses stack elements
  | .map _ entries => entriesUses stack entries
  | .lambda _ decl => functionUses stack decl

/-- The uses in a list of expressions. -/
def exprsUses (stack : Stack) : List Expr → List Use
  | [] => []
  | e :: es => exprUses stack e ++ exprsUses stack es

/-- The uses in the values of a map. -/
def entriesUses (stack : Stack) : List (Token × Expr) → List Use
  | [] => []
  | (_, e) :: es => exprUses stack e ++ entriesUses stack es

/-- The uses in an optional expression. -/
def optionalUses (stack : Stack) : Option Expr → List Use
  | none => []
  | some e => exprUses stack e

/-- The uses in a function. -/
def functionUses (stack : Stack) : FunctionDecl → List Use
  | .mk name params body anonymous =>
    stmtsUses ((.call (.mk name params body anonymous), readyNames params) :: stack) body

/-- The uses in the methods of a class. -/
def methodsUses (stack : Stack) : List FunctionDecl → List Use
  | [] => []
  | decl :: decls => functionUses stack decl ++ methodsUses stack decls

/-- The uses in a statement. -/
def stmtUses (stack : Stack) : Stmt → List Use
  | .expression value => exprUses stack value
  | .print value => exprUses stack value
  | .var name init? => optionalUses (stack.extend [(name.lexeme, false)]) init?
  | .block body => stmtsUses ((.block body, []) :: stack) body
  | .branch condition thenPart elsePart? =>
    exprUses stack condition ++ stmtUses stack thenPart ++
      elseUses (stack.extend (added thenPart)) elsePart?
  | .loop condition body => exprUses stack condition ++ stmtUses stack body
  | .function decl => functionUses (stack.extend [(decl.name.lexeme, true)]) decl
  | .ret _ value? => optionalUses stack value?
  | .classDecl name refs decls =>
    refs.map (headUse name.lexeme (stack.extend [(name.lexeme, true)])) ++
      methodsUses (classStack (stack.extend [(name.lexeme, true)]) refs decls) decls
  | .importFrom _ _ => []
  | .exported inner => stmtUses stack inner
  | .throw _ value => exprUses stack value
  | .attempt body param? handler? cleanup? =>
    stmtsUses ((.block body, []) :: stack) body ++
      handlerUses stack param? handler? ++ cleanupUses stack cleanup?

/-- The uses in an optional statement. -/
def elseUses (stack : Stack) : Option Stmt → List Use
  | none => []
  | some s => stmtUses stack s

/-- The uses in a list of statements. -/
def stmtsUses (stack : Stack) : List Stmt → List Use
  | [] => []
  | s :: ss => stmtUses stack s ++ stmtsUses (stack.extend (added s)) ss

/-- The uses in the handler of a try statement. -/
def handlerUses (stack : Stack) (param? : Option Token) : Option (List Stmt) → List Use
  | none => []
  | some body => stmtsUses ((.handler param? body, readyNames param?.toList) :: stack) body

/-- The uses in what stands behind `finally`. -/
def cleanupUses (stack : Stack) : Option (List Stmt) → List Use
  | none => []
  | some body => stmtsUses ((.block body, []) :: stack) body

end

/-- The uses in a program. -/
def programUses (program : List Stmt) : List Use :=
  stmtsUses [] program

/-! ## What a program records -/

@[simp] theorem Findings.distances_append (a b : Findings) :
    (a ++ b).distances = a.distances ++ b.distances := rfl

@[simp] theorem Findings.errors_append (a b : Findings) :
    (a ++ b).errors = a.errors ++ b.errors := rfl

/-- Unless there are errors, what was found are the distances of the uses, all of them allowed. -/
def Agrees (found : Findings) (uses : List Use) : Prop :=
  found.errors = [] →
    found.distances = uses.filterMap Use.record? ∧ ∀ u ∈ uses, u.Allowed

namespace Agrees

theorem nothing : Agrees .nothing [] :=
  fun _ => ⟨rfl, fun u hu => by simp at hu⟩

/-- Two pieces agree with their uses if each of them does. -/
theorem append {a b : Findings} {us vs : List Use} (ha : Agrees a us) (hb : Agrees b vs) :
    Agrees (a ++ b) (us ++ vs) := by
  intro h
  rw [Findings.errors_append, List.append_eq_nil_iff] at h
  obtain ⟨hda, haa⟩ := ha h.1
  obtain ⟨hdb, hab⟩ := hb h.2
  refine ⟨by rw [Findings.distances_append, hda, hdb, List.filterMap_append], ?_⟩
  intro u hu
  rcases List.mem_append.mp hu with hu | hu
  · exact haa u hu
  · exact hab u hu

/-- Findings that can only be errors may stand in front. -/
theorem behind {own found : Findings} {uses : List Use} (hown : own.distances = [])
    (h : Agrees found uses) : Agrees (own ++ found) uses := by
  intro he
  rw [Findings.errors_append, List.append_eq_nil_iff] at he
  obtain ⟨hd, ha⟩ := h he.2
  exact ⟨by rw [Findings.distances_append, hown, hd, List.nil_append], ha⟩

/-- What has an error agrees with anything. -/
theorem error (fault : ScopeFault) (token : Token) (uses : List Use) :
    Agrees (.error fault token) uses := by
  intro h
  exact absurd h (by simp [Findings.error])

end Agrees

/-- A use records its distance under its number. -/
theorem record_distances (u : Use) :
    (record u.stack.layers u.id u.name).distances = [u].filterMap Use.record? := by
  unfold record
  cases hd : distance? u.stack.layers u.name with
  | none => simp [Use.record?, hd, Findings.nothing]
  | some d => simp [Use.record?, hd]

/-- An allowed use agrees with what is recorded of it. -/
theorem agrees_record (u : Use) (h : u.Allowed) :
    Agrees (record u.stack.layers u.id u.name) [u] :=
  fun _ => ⟨record_distances u, by simpa using h⟩

theorem declareFindings_distances (scopes : List Layer) (name : Token) :
    (declareFindings scopes name).distances = [] := by
  unfold declareFindings
  split
  · split <;> rfl
  · rfl

theorem bindAll_distances (scopes : List Layer) (names : List Token) :
    (bindAll scopes names).2.distances = [] := by
  induction names generalizing scopes with
  | nil => rfl
  | cons name names ih => simp [bindAll, ih, declareFindings_distances]

theorem ite_error_distances {c : Prop} [Decidable c] (fault : ScopeFault) (token : Token) :
    (if c then Findings.error fault token else Findings.nothing).distances = [] := by
  split <;> rfl

/-- A name that is read is either ready in the innermost scope or refused. -/
theorem readName_spec (u : Use) (name : Token) (hname : name.lexeme = u.name)
    (h : (readName u.stack.layers ⟨u.id, name⟩).errors = []) :
    (readName u.stack.layers ⟨u.id, name⟩).distances = [u].filterMap Use.record? ∧ ¬ u.Pending := by
  rw [← record_distances u]
  unfold Use.Pending
  rw [← hname]
  unfold readName at h ⊢
  cases hl : u.stack.layers with
  -- Outside of all scopes the name is a global, which the walk does not follow.
  | nil => simp [Findings.nothing]
  | cons layer outer =>
    rw [hl] at h
    dsimp only at h ⊢
    split at h
    · next hlook => exact absurd h (by simp [Findings.error])
    · next hlook =>
      rw [if_neg hlook]
      exact ⟨rfl, by simpa using hlook⟩

theorem agrees_readName (stack : Stack) (ref : Reference) :
    Agrees (readName stack.layers ref) [readUse stack ref] := by
  intro h
  obtain ⟨hd, hp⟩ := readName_spec (readUse stack ref) ref.name rfl h
  exact ⟨hd, by simpa [Use.Allowed, readUse] using hp⟩

theorem agrees_superclasses (stack : Stack) (className : Token) (refs : List Reference) :
    Agrees (superclasses stack.layers className refs)
      (refs.map (headUse className.lexeme stack)) := by
  induction refs with
  | nil => exact .nothing
  | cons ref refs ih =>
    unfold superclasses
    have hfirst : Agrees ((if ref.name.lexeme == className.lexeme then
        .error .inheritsFromItself ref.name else .nothing) ++ readName stack.layers ref)
        [headUse className.lexeme stack ref] := by
      intro h
      rw [Findings.errors_append, List.append_eq_nil_iff] at h
      obtain ⟨hself, hread⟩ := h
      obtain ⟨hd, hp⟩ := readName_spec (headUse className.lexeme stack ref) ref.name rfl hread
      split at hself
      · exact absurd hself (by simp [Findings.error])
      · next hne =>
        rw [if_neg hne]
        exact ⟨hd, by simpa [Use.Allowed, headUse] using And.intro (by simpa using hne) hp⟩
    exact hfirst.append ih

mutual

/-- What is recorded of an expression are the distances of its uses. -/
theorem agrees_expr (ctx : Context) (stack : Stack) :
    ∀ e, Agrees (expr ctx stack.layers e) (exprUses stack e)
  | .constant id c => .nothing
  | .reference ref => agrees_readName stack ref
  | .assign id name value =>
    (agrees_expr ctx stack value).append (agrees_record ⟨id, name.lexeme, .write, stack⟩ trivial)
  | .binary id left operator right =>
    (agrees_expr ctx stack left).append (agrees_expr ctx stack right)
  | .logical id left operator right =>
    (agrees_expr ctx stack left).append (agrees_expr ctx stack right)
  | .unary id operator operand => agrees_expr ctx stack operand
  | .grouping id inner => agrees_expr ctx stack inner
  | .call id callee paren arguments =>
    (agrees_expr ctx stack callee).append (agrees_exprs ctx stack arguments)
  | .get id object name => agrees_expr ctx stack object
  | .set id object name value =>
    (agrees_expr ctx stack value).append (agrees_expr ctx stack object)
  | .getItem id object bracket index =>
    (agrees_expr ctx stack object).append (agrees_expr ctx stack index)
  | .setItem id object index equals value =>
    ((agrees_expr ctx stack object).append (agrees_expr ctx stack index)).append
      (agrees_expr ctx stack value)
  | .self id keyword => by
    simp only [expr, exprUses]
    split
    · exact .error _ _ _
    · exact agrees_record ⟨id, keyword.lexeme, .self, stack⟩ trivial
  | .super id keyword className method => by
    simp only [expr, exprUses]
    refine .behind ?_ (agrees_record ⟨id, keyword.lexeme, .super, stack⟩ trivial)
    cases ctx.cls <;> rfl
  | .array id elements => agrees_exprs ctx stack elements
  | .map id entries => agrees_mapEntries ctx stack entries
  | .lambda id decl => agrees_function ctx stack .function decl

theorem agrees_exprs (ctx : Context) (stack : Stack) :
    ∀ es, Agrees (exprs ctx stack.layers es) (exprsUses stack es)
  | [] => .nothing
  | e :: es => (agrees_expr ctx stack e).append (agrees_exprs ctx stack es)

theorem agrees_mapEntries (ctx : Context) (stack : Stack) :
    ∀ es, Agrees (mapEntries ctx stack.layers es) (entriesUses stack es)
  | [] => .nothing
  | (_, e) :: es => (agrees_expr ctx stack e).append (agrees_mapEntries ctx stack es)

theorem agrees_expr? (ctx : Context) (stack : Stack) :
    ∀ e?, Agrees (expr? ctx stack.layers e?) (optionalUses stack e?)
  | none => .nothing
  | some e => agrees_expr ctx stack e

theorem agrees_function (ctx : Context) (stack : Stack) (kind : FunctionContext) :
    ∀ decl, Agrees (function ctx stack.layers kind decl) (functionUses stack decl)
  | .mk name params body anonymous => by
    have hlayers := layers_extend_readyNames
      ((Site.call (.mk name params body anonymous), []) :: stack) params
    simp only [Stack.extend, Stack.layers_cons, List.append_nil] at hlayers
    simp only [function, functionUses, ← hlayers]
    exact .behind (bindAll_distances _ _)
      (agrees_stmts _ ((.call (.mk name params body anonymous), readyNames params) :: stack) body)

theorem agrees_methods (ctx : Context) (stack : Stack) :
    ∀ decls, Agrees (methods ctx stack.layers decls) (methodsUses stack decls)
  | [] => .nothing
  | decl :: decls =>
    (agrees_function ctx stack _ decl).append (agrees_methods ctx stack decls)

/-- What is recorded of a statement are the distances of its uses. -/
theorem agrees_stmt (ctx : Context) (stack : Stack) :
    ∀ s, Agrees (stmt ctx stack.layers s).2 (stmtUses stack s)
  | .expression value => agrees_expr ctx stack value
  | .print value => agrees_expr ctx stack value
  | .var name init? => by
    simp only [stmt, stmtUses, ← Stack.layers_extend_bind]
    exact .behind (declareFindings_distances _ _) (agrees_expr? ctx _ init?)
  | .block body => agrees_stmts ctx ((.block body, []) :: stack) body
  | .branch condition thenPart elsePart? => by
    simp only [stmt, stmt_fst, stmtUses]
    exact ((agrees_expr ctx stack condition).append (agrees_stmt ctx stack thenPart)).append
      (agrees_stmt? ctx _ elsePart?)
  | .loop condition body =>
    (agrees_expr ctx stack condition).append (agrees_stmt ctx stack body)
  | .function decl => by
    simp only [stmt, stmtUses, ← Stack.layers_extend_bind]
    exact .behind (declareFindings_distances _ _) (agrees_function ctx _ .function decl)
  | .ret keyword value? => by
    simp only [stmt, stmtUses]
    refine .behind ?_ (agrees_expr? ctx stack value?)
    rw [Findings.distances_append, ite_error_distances, ite_error_distances, List.append_nil]
  | .classDecl name refs decls => by
    simp only [stmt, stmtUses, ← Stack.layers_extend_bind]
    rw [← layers_classStack _ refs decls]
    exact (Agrees.behind (declareFindings_distances _ _)
      (agrees_superclasses _ name refs)).append (agrees_methods _ _ decls)
  | .importFrom path items => fun _ =>
    ⟨bindAll_distances _ _, fun u hu => by simp [stmtUses] at hu⟩
  | .exported inner => agrees_stmt ctx stack inner
  | .throw keyword value => agrees_expr ctx stack value
  | .attempt body param? handler? cleanup? => by
    simp only [stmt, stmtUses]
    refine Agrees.append (Agrees.append ?_ (agrees_handler ctx stack param? handler?))
      (agrees_cleanup ctx stack cleanup?)
    -- The names of the handler are checked before its statements, but record nothing.
    intro h
    rw [Findings.errors_append, List.append_eq_nil_iff] at h
    obtain ⟨hd, ha⟩ := agrees_stmts ctx ((.block body, []) :: stack) body h.1
    refine ⟨?_, ha⟩
    rw [Findings.distances_append, ← hd]
    cases handler? with
    | none => exact List.append_nil _
    | some handler => simp [bindAll_distances]

theorem agrees_stmt? (ctx : Context) (stack : Stack) :
    ∀ s?, Agrees (stmt? ctx stack.layers s?).2 (elseUses stack s?)
  | none => .nothing
  | some s => agrees_stmt ctx stack s

theorem agrees_stmts (ctx : Context) (stack : Stack) :
    ∀ ss, Agrees (stmts ctx stack.layers ss).2 (stmtsUses stack ss)
  | [] => .nothing
  | s :: ss => by
    simp only [stmts, stmt_fst, stmtsUses]
    exact (agrees_stmt ctx stack s).append (agrees_stmts ctx _ ss)

theorem agrees_handler (ctx : Context) (stack : Stack) (param? : Option Token) :
    ∀ handler?, Agrees (stmts? ctx (bindAll ([] :: stack.layers) param?.toList).1 handler?)
      (handlerUses stack param? handler?)
  | none => .nothing
  | some body => by
    have hlayers := layers_extend_readyNames
      ((Site.handler param? body, []) :: stack) param?.toList
    simp only [Stack.extend, Stack.layers_cons, List.append_nil] at hlayers
    simp only [stmts?, handlerUses, ← hlayers]
    exact agrees_stmts ctx ((.handler param? body, readyNames param?.toList) :: stack) body

theorem agrees_cleanup (ctx : Context) (stack : Stack) :
    ∀ cleanup?, Agrees (stmts? ctx ([] :: stack.layers) cleanup?) (cleanupUses stack cleanup?)
  | none => .nothing
  | some body => agrees_stmts ctx ((.block body, []) :: stack) body

end

/-- A program without scope errors records the distances of its uses, all of them allowed. -/
theorem agrees_findings (program : List Stmt) : Agrees (findings program) (programUses program) :=
  agrees_stmts _ [] program

/-- An accepted program records the distances of its uses, and all of them are allowed. -/
theorem resolve_ok {program : List Stmt} {distances : List (ExprId × Nat)}
    (h : resolve program = .ok distances) :
    distances = (programUses program).filterMap Use.record? ∧
      ∀ u ∈ programUses program, u.Allowed := by
  unfold resolve at h
  dsimp only at h
  split at h
  · next he =>
    obtain ⟨hd, ha⟩ := agrees_findings program (by simpa using he)
    simp only [Except.ok.injEq] at h
    exact ⟨h ▸ hd, ha⟩
  · exact absurd h (by simp)

end ScriptEngine.Scope
