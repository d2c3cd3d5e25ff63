import Mathlib.Data.List.Forall2
import Std.Data.HashMap
import Std.Data.TreeMap
import ScriptEngine.Proofs.Class.Slot
import ScriptEngine.Proofs.Scope.Recorded
import ScriptEngine.Proofs.Scope.Relabeling
import ScriptEngine.Proofs.Scope.Shape

/-!
# Scopes opened and closed by hand

`Scope.stmt` hands its scopes down, so a statement cannot leave one of them open. `Walker` does
the same walk on one state: a stack of scopes that are opened and closed by hand, the kind of the
surrounding function and class, which every function and every class sets and puts back, the table
of distances and the errors so far.

`Walked` says what a step of the walk may leave behind: the kinds are as they were, the innermost
scope has grown by a given list of names and the scopes around it are untouched, the distances
found have gone into the table and the errors stand behind those there were. It holds of every
expression and of every statement, accepted or not, and what is found is what `Scope.stmt` finds
in scopes with the same names. Outside all scopes nothing can grow, so the findings of top-level
statements do not depend on each other.
-/

namespace ScriptEngine.Scope

/-- The state of a walk over a program. -/
structure Walker where
  /-- The open scopes, innermost first. A name is mapped to whether it may be read already. -/
  scopes : List (Std.HashMap String Bool)
  function : FunctionContext
  cls : ClassContext
  table : Std.TreeMap ExprId Nat
  errors : List ScopeError

/-! ## The walk -/

namespace Walker

/-- Nothing is open and nothing has been found. -/
def start : Walker := ⟨[], .none, .none, ∅, []⟩

section Steps

variable (w : Walker)

/-- Enters a function of some kind, or leaves it for the kind around it. -/
def inFunction (kind : FunctionContext) : Walker := { w with function := kind }

/-- Enters a class of some kind, or leaves it for the kind around it. -/
def inClass (kind : ClassContext) : Walker := { w with cls := kind }

def push (scope : Std.HashMap String Bool) : Walker := { w with scopes := scope :: w.scopes }

def beginScope : Walker := w.push ∅

def endScope : Walker := { w with scopes := w.scopes.tail }

def note (fault : ScopeFault) (token : Token) : Walker :=
  { w with errors := w.errors ++ [⟨fault, token⟩] }

/-- Sets a name in the innermost scope. Outside all scopes names are global and nothing is set. -/
def set (name : String) (ready : Bool) : Walker :=
  { w with scopes := w.scopes.modifyHead (·.insert name ready) }

/-- Adds a name that may not be read yet. -/
def declare (name : Token) : Walker :=
  match w.scopes with
  | [] => w
  | scope :: _ =>
    (if scope.contains name.lexeme then w.note .duplicateInScope name else w).set name.lexeme false

/-- Lets a name be read. -/
def define (name : Token) : Walker := w.set name.lexeme true

/-- Opens a scope if none is open. -/
def innermost : Walker := if w.scopes.isEmpty then w.beginScope else w

/-- Records how far outside the scope of a name is. A global name has no entry. -/
def locate (id : ExprId) (name : String) : Walker :=
  match w.scopes.findIdx? (·.contains name) with
  | some distance => { w with table := w.table.insert id distance }
  | none => w

/-- Reads a name. -/
def read (ref : Reference) : Walker :=
  (match w.scopes with
    | [] => w
    | scope :: _ =>
      if scope[ref.name.lexeme]? = some false then w.note .readInOwnInitializer ref.name
      else w).locate ref.id ref.name.lexeme

end Steps

/-- Adds names that may be read at once. -/
def declareAll (w : Walker) : List Token → Walker
  | [] => w
  | name :: names => ((w.declare name).define name).declareAll names

/-- Adds names that no statement declares. -/
def bindAll (w : Walker) : List String → Walker
  | [] => w
  | name :: names => (w.set name true).bindAll names

/-- Reads the superclasses in the head of a class. -/
def heads (w : Walker) (className : Token) : List Reference → Walker
  | [] => w
  | ref :: refs =>
    ((if ref.name.lexeme == className.lexeme then w.note .inheritsFromItself ref.name
      else w).read ref).heads className refs

/-- Opens the scope in which the methods of a subclass find their superclasses. -/
def openSuper (w : Walker) (refs : List Reference) : Walker :=
  (w.beginScope.innermost.set "super" true).bindAll
    (refs.map fun ref => superBinding ref.name.lexeme)

/-- Opens the scope in which methods find their receiver. -/
def openThis (w : Walker) : Walker := w.beginScope.innermost.set "this" true

mutual

def expr (w : Walker) : Expr → Walker
  | .constant _ _ => w
  | .reference ref => w.read ref
  | .assign id name value => (w.expr value).locate id name.lexeme
  | .binary _ left _ right => (w.expr left).expr right
  | .logical _ left _ right => (w.expr left).expr right
  | .unary _ _ operand => w.expr operand
  | .grouping _ inner => w.expr inner
  | .call _ callee _ arguments => (w.expr callee).exprs arguments
  | .get _ object _ => w.expr object
  | .set _ object _ value => (w.expr value).expr object
  | .getItem _ object _ index => (w.expr object).expr index
  | .setItem _ object index _ value => ((w.expr object).expr index).expr value
  | .self id keyword =>
    if w.cls = .none then w.note .thisOutsideClass keyword else w.locate id keyword.lexeme
  | .super id keyword _ _ =>
    (match w.cls with
      | .none => w.note .superOutsideClass keyword
      | .plain => w.note .superWithoutSuperclass keyword
      | .subclass => w).locate id keyword.lexeme
  | .array _ elements => w.exprs elements
  | .map _ entries => w.entries entries
  | .lambda _ decl => w.callable .function decl

def exprs (w : Walker) : List Expr → Walker
  | [] => w
  | e :: es => (w.expr e).exprs es

def entries (w : Walker) : List (Token × Expr) → Walker
  | [] => w
  | (_, e) :: es => (w.expr e).entries es

def expr? (w : Walker) : Option Expr → Walker
  | none => w
  | some e => w.expr e

/-- A function sets its kind for its body and puts the kind around it back. -/
def callable (w : Walker) (kind : FunctionContext) : FunctionDecl → Walker
  | .mk _ params body _ =>
    ((((w.inFunction kind).beginScope.declareAll params).stmts body).endScope).inFunction w.function

def methods (w : Walker) : List FunctionDecl → Walker
  | [] => w
  | decl :: decls =>
    (w.callable (if decl.name.lexeme == "init" then .initializer else .method) decl).methods decls

def stmt (w : Walker) : Stmt → Walker
  | .expression value => w.expr value
  | .print value => w.expr value
  | .var name init? => ((w.declare name).expr? init?).define name
  | .block body => (w.beginScope.stmts body).endScope
  | .branch condition thenPart elsePart? => ((w.expr condition).stmt thenPart).stmt? elsePart?
  | .loop condition body => (w.expr condition).stmt body
  | .function decl =>
    ((w.declare decl.name).define decl.name).callable .function decl
  | .ret keyword value? =>
    let checked := if w.function = .none then w.note .topLevelReturn keyword else w
    (if value?.isSome ∧ w.function = .initializer then
      checked.note .returnFromInitializer keyword else checked).expr? value?
  | .classDecl name refs decls =>
    let named := ((w.inClass .plain).declare name).define name
    let outside :=
      if refs.isEmpty then named else ((named.inClass .subclass).heads name refs).openSuper refs
    let inside := (outside.openThis.methods decls).endScope
    (if refs.isEmpty then inside else inside.endScope).inClass w.cls
  | .importFrom _ items => w.declareAll (items.map (·.binding))
  | .exported inner => w.stmt inner
  | .throw _ value => w.expr value
  | .attempt body param? handler? cleanup? =>
    ((w.beginScope.stmts body).endScope.handler param?.toList handler?).cleanup cleanup?

def stmt? (w : Walker) : Option Stmt → Walker
  | none => w
  | some s => w.stmt s

def stmts (w : Walker) : List Stmt → Walker
  | [] => w
  | s :: ss => (w.stmt s).stmts ss

def handler (w : Walker) (params : List Token) : Option (List Stmt) → Walker
  | none => w
  | some body => ((w.beginScope.declareAll params).stmts body).endScope

def cleanup (w : Walker) : Option (List Stmt) → Walker
  | none => w
  | some body => (w.beginScope.stmts body).endScope

end

/-- The distances of all local references of a program, or every scope error in order. -/
def resolve (program : List Stmt) : Except (List ScopeError) (Std.TreeMap ExprId Nat) :=
  let w := start.stmts program
  if w.errors.isEmpty then .ok w.table else .error w.errors

end Walker

/-! ## Growing the innermost scope -/

/-- Scopes with names added to the innermost one. -/
def hold (names : Layer) (scopes : List Layer) : List Layer := scopes.modifyHead (names ++ ·)

theorem layers_extend (stack : Stack) (names : Layer) :
    (stack.extend names).layers = hold names stack.layers := by
  cases stack <;> rfl

@[simp] theorem hold_nil (scopes : List Layer) : hold [] scopes = scopes := by
  cases scopes <;> rfl

/-- Binding a name makes the innermost scope grow by it. -/
theorem hold_bind (scopes : List Layer) (name : String) (ready : Bool) :
    bind scopes name ready = hold [(name, ready)] scopes := by
  cases scopes <;> rfl

/-- Scopes as those of a stack; the constructs they belong to do not matter. -/
theorem layers_blocks (scopes : List Layer) :
    Stack.layers (scopes.map fun layer => (.block [], layer)) = scopes := by
  rw [Stack.layers, List.map_map]
  exact List.map_id scopes

/-- Binding some names makes the innermost scope grow by all of them. -/
theorem hold_bindAll (scopes : List Layer) (names : List Token) :
    (bindAll scopes names).1 = hold (readyNames names) scopes := by
  have h := layers_extend_readyNames (scopes.map fun layer => (.block [], layer)) names
  rw [layers_extend, layers_blocks] at h
  exact h.symm

/-- A statement makes the innermost scope grow by what it adds. -/
theorem hold_stmt (ctx : Context) (scopes : List Layer) (s : Stmt) :
    (stmt ctx scopes s).1 = hold (added s) scopes := by
  have h := stmt_fst ctx (scopes.map fun layer => (.block [], layer)) s
  rwa [layers_extend, layers_blocks] at h

/-- The innermost of the open scopes has got some names, the latest first, and the scopes around
it are the same. Where no scope is open, none is opened. -/
def GrownBy (names : Layer) :
    List (Std.HashMap String Bool) → List (Std.HashMap String Bool) → Prop
  | [], after => after = []
  | scope :: outer, after =>
    ∃ inner, after = inner :: outer ∧
      ∀ name : String, inner[name]? = (names.lookup name).or scope[name]?

namespace GrownBy

theorem refl (scopes : List (Std.HashMap String Bool)) : GrownBy [] scopes scopes := by
  cases scopes with
  | nil => rfl
  | cons scope outer => exact ⟨scope, rfl, fun _ => rfl⟩

/-- Scopes that have grown twice have grown by both. -/
theorem trans {first second : Layer} {a b c : List (Std.HashMap String Bool)}
    (h : GrownBy first a b) (h' : GrownBy second b c) : GrownBy (second ++ first) a c := by
  cases a with
  | nil =>
    obtain rfl : b = [] := h
    exact h'
  | cons scope outer =>
    obtain ⟨inner, rfl, hinner⟩ := h
    obtain ⟨last, rfl, hlast⟩ := h'
    refine ⟨last, rfl, fun name => ?_⟩
    rw [hlast, hinner, List.lookup_append, Option.or_assoc]

/-- Only what is found in the added names matters. -/
theorem congr {names others : Layer} {a b : List (Std.HashMap String Bool)}
    (h : GrownBy names a b) (heq : ∀ name, names.lookup name = others.lookup name) :
    GrownBy others a b := by
  cases a with
  | nil => exact h
  | cons scope outer =>
    obtain ⟨inner, rfl, hinner⟩ := h
    exact ⟨inner, rfl, fun name => by rw [hinner, heq]⟩

theorem tail {names : Layer} {a b : List (Std.HashMap String Bool)} (h : GrownBy names a b) :
    b.tail = a.tail := by
  cases a with
  | nil =>
    obtain rfl : b = [] := h
    rfl
  | cons scope outer =>
    obtain ⟨inner, rfl, -⟩ := h
    rfl

/-- Setting a name makes the scopes grow by it. -/
theorem set (scopes : List (Std.HashMap String Bool)) (name : String) (ready : Bool) :
    GrownBy [(name, ready)] scopes (scopes.modifyHead (·.insert name ready)) := by
  cases scopes with
  | nil => rfl
  | cons scope outer =>
    refine ⟨scope.insert name ready, rfl, fun n => ?_⟩
    rw [Std.HashMap.getElem?_insert, List.lookup_cons]
    by_cases h : n = name
    · simp [h]
    · rw [beq_false_of_ne h, beq_false_of_ne (Ne.symm h)]
      rfl

end GrownBy

/-! ## The same names -/

/-- A layer has a name if it is looked up in it. -/
theorem Layer.has_eq_isSome (layer : Layer) (name : String) :
    layer.has name = (layer.lookup name).isSome := by
  induction layer with
  | nil => rfl
  | cons entry layer ih =>
    obtain ⟨n, ready⟩ := entry
    rw [List.lookup_cons, Layer.has, List.any_cons]
    by_cases h : n = name
    · simp [h]
    · rw [beq_false_of_ne h, beq_false_of_ne (Ne.symm h), Bool.false_or]
      exact ih

/-- A scope that is a table and one that is a list have the same names in the same state. -/
def SameNames (scope : Std.HashMap String Bool) (layer : Layer) : Prop :=
  ∀ name : String, scope[name]? = layer.lookup name

theorem SameNames.empty : SameNames ∅ [] := fun _ => Std.HashMap.getElem?_empty

/-- A scope of the walker contains the names of the layer. -/
theorem SameNames.contains {scope : Std.HashMap String Bool} {layer : Layer}
    (h : SameNames scope layer) (name : String) : scope.contains name = layer.has name := by
  rw [Std.HashMap.contains_eq_isSome_getElem?, h name, Layer.has_eq_isSome]

/-- Every table of names has the same names as some list. -/
theorem SameNames.toList (scope : Std.HashMap String Bool) : SameNames scope scope.toList := by
  intro name
  refine Option.ext fun ready => ?_
  rw [← Std.HashMap.mem_toList_iff_getElem?_eq_some]
  refine ⟨fun hmem => ?_, mem_of_lookup⟩
  cases hlookup : scope.toList.lookup name with
  | none => exact absurd (List.lookup_eq_none_iff.mp hlookup _ hmem) (by simp)
  | some other =>
    -- A table has one entry for each name.
    rw [Std.HashMap.mem_toList_iff_getElem?_eq_some] at hmem
    rw [← hmem, ← Std.HashMap.mem_toList_iff_getElem?_eq_some.mp (mem_of_lookup hlookup)]

/-- Scopes with the same names have them still when both have got the same ones. -/
theorem GrownBy.sameNames {names : Layer} {a b : List (Std.HashMap String Bool)}
    {scopes : List Layer} (hgrown : GrownBy names a b) (h : List.Forall₂ SameNames a scopes) :
    List.Forall₂ SameNames b (hold names scopes) := by
  cases h with
  | nil =>
    obtain rfl : b = [] := hgrown
    exact .nil
  | cons hsame houter =>
    obtain ⟨inner, rfl, hinner⟩ := hgrown
    refine .cons (fun name => ?_) houter
    rw [hinner, hsame name, List.lookup_append]

/-- The open scopes of a walk and its kinds are those of a context and of scopes handed down. -/
structure Walker.Mirrors (w : Walker) (ctx : Context) (scopes : List Layer) : Prop where
  scopes : List.Forall₂ SameNames w.scopes scopes
  function : w.function = ctx.function
  cls : w.cls = ctx.cls

/-- What a part of the walk leaves behind: the kinds are as before, the innermost scope has grown
by `names`, and `found` has gone into the table and behind the errors. -/
structure Walked (before after : Walker) (names : Layer) (found : Findings) : Prop where
  scopes : GrownBy names before.scopes after.scopes
  function : after.function = before.function
  cls : after.cls = before.cls
  table : after.table = before.table.insertMany found.distances
  errors : after.errors = before.errors ++ found.errors

namespace Walker.Mirrors

variable {w w' : Walker} {ctx : Context} {scopes : List Layer}

/-- The walker opens the scope that is opened. -/
theorem push (h : w.Mirrors ctx scopes) {scope : Std.HashMap String Bool} {layer : Layer}
    (hsame : SameNames scope layer) : (w.push scope).Mirrors ctx (layer :: scopes) :=
  ⟨.cons hsame h.scopes, h.function, h.cls⟩

theorem inFunction (h : w.Mirrors ctx scopes) (kind : FunctionContext) :
    (w.inFunction kind).Mirrors { ctx with function := kind } scopes :=
  ⟨h.scopes, rfl, h.cls⟩

theorem inClass (h : w.Mirrors ctx scopes) (kind : ClassContext) :
    (w.inClass kind).Mirrors { ctx with cls := kind } scopes :=
  ⟨h.scopes, h.function, rfl⟩

theorem beginScope (h : w.Mirrors ctx scopes) : w.beginScope.Mirrors ctx ([] :: scopes) :=
  h.push .empty

/-- After a part of the walk the scopes are those before it with the names it has added. -/
theorem after {names : Layer} {found : Findings} (h : w.Mirrors ctx scopes)
    (hwalked : Walked w w' names found) : w'.Mirrors ctx (hold names scopes) :=
  ⟨hwalked.scopes.sameNames h.scopes, hwalked.function.trans h.function,
    hwalked.cls.trans h.cls⟩

/-- A walk that adds no name leaves the same scopes behind. -/
theorem same {found : Findings} (h : w.Mirrors ctx scopes) (hwalked : Walked w w' [] found) :
    w'.Mirrors ctx scopes := by
  have := h.after hwalked
  rwa [hold_nil] at this

end Walker.Mirrors

namespace Walked

theorem refl (w : Walker) : Walked w w [] .nothing :=
  ⟨.refl _, rfl, rfl, Std.TreeMap.insertMany_nil.symm, (List.append_nil _).symm⟩

theorem trans {a b c : Walker} {first second : Layer} {f g : Findings} (h : Walked a b first f)
    (h' : Walked b c second g) : Walked a c (second ++ first) (f ++ g) where
  scopes := h.scopes.trans h'.scopes
  function := h'.function.trans h.function
  cls := h'.cls.trans h.cls
  table := by
    rw [h'.table, h.table, Findings.distances_append, Std.TreeMap.insertMany_append]
  errors := by
    rw [h'.errors, h.errors, Findings.errors_append, List.append_assoc]

/-- Parts one after the other, the second of which adds no name. -/
theorem append {a b c : Walker} {names : Layer} {f g : Findings} (h : Walked a b names f)
    (h' : Walked b c [] g) : Walked a c names (f ++ g) :=
  h.trans h'

/-- Parts one after the other, the first of which adds no name. -/
theorem before {a b c : Walker} {names : Layer} {f g : Findings} (h : Walked a b [] f)
    (h' : Walked b c names g) : Walked a c names (f ++ g) := by
  have hboth := h.trans h'
  rwa [List.append_nil] at hboth

/-- What is done in a scope of its own adds no name outside. -/
theorem closed {w w' : Walker} {scope : Std.HashMap String Bool} {names : Layer} {found : Findings}
    (h : Walked (w.push scope) w' names found) :
    Walked w w'.endScope [] found where
  scopes := by
    have htail : w'.endScope.scopes = w.scopes := h.scopes.tail
    rw [htail]
    exact .refl _
  function := h.function
  cls := h.cls
  table := h.table
  errors := h.errors

/-- The kind of the surrounding function is put back. -/
theorem inFunction {w w' : Walker} {kind : FunctionContext} {names : Layer} {found : Findings}
    (h : Walked (w.inFunction kind) w' names found) :
    Walked w (w'.inFunction w.function) names found :=
  ⟨h.scopes, rfl, h.cls, h.table, h.errors⟩

/-- The kind of the surrounding class is set before and after. -/
theorem inClass {w w' : Walker} {names : Layer} {found : Findings} (h : Walked w w' names found)
    (kind : ClassContext) : Walked (w.inClass kind) (w'.inClass kind) names found :=
  ⟨h.scopes, h.function, rfl, h.table, h.errors⟩

end Walked

/-! ## The steps of the walk -/

@[simp] theorem Findings.append_nothing (found : Findings) : found ++ .nothing = found :=
  congrArg₂ Findings.mk (List.append_nil _) (List.append_nil _)

theorem Findings.append_assoc (f g h : Findings) : f ++ g ++ h = f ++ (g ++ h) :=
  congrArg₂ Findings.mk (List.append_assoc _ _ _) (List.append_assoc _ _ _)

section Steps

variable {w : Walker} {ctx : Context} {scopes : List Layer}

theorem walked_note (w : Walker) (fault : ScopeFault) (token : Token) :
    Walked w (w.note fault token) [] (.error fault token) :=
  ⟨.refl _, rfl, rfl, Std.TreeMap.insertMany_nil.symm, rfl⟩

/-- A check notes its error or leaves everything as it is. -/
theorem walked_check (w : Walker) (c : Prop) [Decidable c] (fault : ScopeFault) (token : Token) :
    Walked w (if c then w.note fault token else w) []
      (if c then .error fault token else .nothing) := by
  split
  · exact walked_note w fault token
  · exact .refl w

theorem walked_set (w : Walker) (name : String) (ready : Bool) :
    Walked w (w.set name ready) [(name, ready)] .nothing :=
  ⟨.set _ name ready, rfl, rfl, Std.TreeMap.insertMany_nil.symm, (List.append_nil _).symm⟩

/-- Outside all scopes nothing is set. -/
theorem Walker.set_outside (hnil : w.scopes = []) (name : String) (ready : Bool) :
    w.set name ready = w := by
  obtain ⟨maps, _, _, _, _⟩ := w
  obtain rfl : maps = [] := hnil
  rfl

/-- A declaration adds its name, not ready yet, and finds what is wrong with it. -/
theorem walked_declare (h : w.Mirrors ctx scopes) (name : Token) :
    Walked w (w.declare name) [(name.lexeme, false)] (declareFindings scopes name) := by
  have hscopes := h.scopes
  unfold Walker.declare
  split
  · next hnil =>
    rw [hnil] at hscopes
    cases hscopes
    have hset := walked_set w name.lexeme false
    rwa [Walker.set_outside hnil] at hset
  · next scope outer hcons =>
    rw [hcons] at hscopes
    cases hscopes with
    | cons hsame _ =>
      have hcheck := walked_check w (scope.contains name.lexeme) .duplicateInScope name
      have := hcheck.trans (walked_set _ name.lexeme false)
      rw [hsame.contains, Findings.append_nothing] at this
      rw [hsame.contains]
      exact this

/-- The first scope with the name is at its distance. -/
theorem distance?_sameNames {maps : List (Std.HashMap String Bool)}
    (h : List.Forall₂ SameNames maps scopes) (name : String) :
    maps.findIdx? (·.contains name) = distance? scopes name := by
  induction h with
  | nil => rfl
  | cons hsame _ ih => rw [List.findIdx?_cons, hsame.contains, distance?_cons, ih]

/-- Locating a name records its distance. -/
theorem walked_locate (h : w.Mirrors ctx scopes) (id : ExprId) (name : String) :
    Walked w (w.locate id name) [] (record scopes id name) := by
  unfold Walker.locate record
  rw [distance?_sameNames h.scopes]
  cases distance? scopes name with
  | none => exact .refl w
  | some d =>
    exact ⟨.refl _, rfl, rfl, Std.TreeMap.insertMany_list_singleton.symm,
      (List.append_nil _).symm⟩

/-- Reading a name finds what is found of it. -/
theorem walked_read (h : w.Mirrors ctx scopes) (ref : Reference) :
    Walked w (w.read ref) [] (readName scopes ref) := by
  have hscopes := h.scopes
  unfold Walker.read readName
  split
  · next hnil =>
    rw [hnil] at hscopes
    cases hscopes
    exact walked_locate h ref.id ref.name.lexeme
  · next scope outer hcons =>
    rw [hcons] at hscopes
    cases hscopes with
    | cons hsame _ =>
      have hcheck := walked_check w (scope[ref.name.lexeme]? = some false) .readInOwnInitializer
        ref.name
      rw [hsame] at hcheck ⊢
      exact hcheck.append (walked_locate (h.same hcheck) ref.id ref.name.lexeme)

/-- The superclasses in the head of a class are read one by one. -/
theorem walked_heads (h : w.Mirrors ctx scopes) (className : Token) (refs : List Reference) :
    Walked w (w.heads className refs) [] (superclasses scopes className refs) := by
  induction refs generalizing w with
  | nil => exact .refl w
  | cons ref refs ih =>
    have hcheck := walked_check w (ref.name.lexeme == className.lexeme) .inheritsFromItself ref.name
    have hread := hcheck.append (walked_read (h.same hcheck) ref)
    exact hread.append (ih (h.same hread))

/-- Declaring a name and letting it be read. -/
theorem walked_name (h : w.Mirrors ctx scopes) (name : Token) :
    Walked w ((w.declare name).define name) [(name.lexeme, true)]
      (declareFindings scopes name) := by
  have hset := (walked_declare h name).trans (walked_set _ name.lexeme true)
  rw [Findings.append_nothing] at hset
  refine { hset with scopes := hset.scopes.congr fun n => ?_ }
  simp only [List.cons_append, List.nil_append, List.lookup_cons]
  cases n == name.lexeme <;> rfl

theorem readyNames_cons (name : Token) (names : List Token) :
    readyNames (name :: names) = readyNames names ++ [(name.lexeme, true)] := by
  simp [readyNames]

/-- Parameters are declared one by one, and all of them are ready. -/
theorem walked_declareAll (h : w.Mirrors ctx scopes) (names : List Token) :
    Walked w (w.declareAll names) (readyNames names) (Scope.bindAll scopes names).2 := by
  induction names generalizing w scopes with
  | nil => exact .refl w
  | cons name names ih =>
    have hname := walked_name h name
    have hrest := ih (h.after hname)
    rw [← hold_bind] at hrest
    have hboth := hname.trans hrest
    rwa [← readyNames_cons] at hboth

end Steps

/-! ## The scopes of a class -/

/-- Names that no statement declares go into the innermost scope. -/
theorem bindAll_scopes (w : Walker) (scope : Std.HashMap String Bool)
    (outer : List (Std.HashMap String Bool)) (names : List String) :
    Walker.bindAll { w with scopes := scope :: outer } names =
      { w with scopes := names.foldl (·.insert · true) scope :: outer } := by
  induction names generalizing scope with
  | nil => rfl
  | cons name names ih => exact ih (scope.insert name true)

/-- A scope with some more names has these and those it had. -/
theorem getElem?_foldl_insert (scope : Std.HashMap String Bool) (names : List String)
    (name : String) :
    (names.foldl (·.insert · true) scope)[name]? =
      if name ∈ names then some true else scope[name]? := by
  induction names generalizing scope with
  | nil => rfl
  | cons n names ih =>
    rw [List.foldl_cons, ih, Std.HashMap.getElem?_insert]
    by_cases h : n = name
    · simp [h]
    · simp [h, Ne.symm h]

/-- Names that are ready are looked up as such. -/
theorem lookup_ready (names : List String) (name : String) :
    (names.map fun n => (n, true)).lookup name = if name ∈ names then some true else none := by
  induction names with
  | nil => rfl
  | cons n names ih =>
    rw [List.map_cons, List.lookup_cons, ih]
    by_cases h : name = n
    · simp [h]
    · simp [beq_false_of_ne h, h]

/-- It does not matter in which order names are added that may all be read. -/
theorem SameNames.ready (names : List String) :
    SameNames (names.foldl (·.insert · true) ∅) (names.map fun n => (n, true)) := fun name => by
  rw [getElem?_foldl_insert, lookup_ready, Std.HashMap.getElem?_empty]

/-- The scope of the superclasses has the word and one name for each of them. -/
theorem superLayer_eq (refs : List Reference) :
    superLayer refs =
      ("super" :: refs.map fun ref => superBinding ref.name.lexeme).map fun n => (n, true) := by
  simp [superLayer]

/-- The scope of the superclasses as the walk opens it. -/
def superScope (refs : List Reference) : Std.HashMap String Bool :=
  ("super" :: refs.map fun ref => superBinding ref.name.lexeme).foldl (·.insert · true) ∅

/-- The walker opens the scope of the superclasses at once. -/
theorem openSuper_eq (w : Walker) (refs : List Reference) :
    w.openSuper refs = w.push (superScope refs) :=
  bindAll_scopes w _ w.scopes _

/-- Both scopes of the superclasses have the same names. -/
theorem SameNames.super (refs : List Reference) :
    SameNames (superScope refs) (superLayer refs) := by
  rw [superLayer_eq]
  exact .ready _

theorem SameNames.this :
    SameNames ((∅ : Std.HashMap String Bool).insert "this" true) [("this", true)] :=
  .ready ["this"]

/-! ## Every part of a program -/

mutual

/-- Walking through an expression finds what is found of it and adds no name. -/
theorem walked_expr {w : Walker} {ctx : Context} {scopes : List Layer} (h : w.Mirrors ctx scopes) :
    ∀ e, Walked w (w.expr e) [] (expr ctx scopes e)
  | .constant _ _ => .refl w
  | .reference ref => walked_read h ref
  | .assign id name value =>
    have hvalue := walked_expr h value
    hvalue.append (walked_locate (h.same hvalue) id name.lexeme)
  | .binary _ left _ right | .logical _ left _ right =>
    have hleft := walked_expr h left
    hleft.append (walked_expr (h.same hleft) right)
  | .unary _ _ operand => walked_expr h operand
  | .grouping _ inner => walked_expr h inner
  | .call _ callee _ arguments =>
    have hcallee := walked_expr h callee
    hcallee.append (walked_exprs (h.same hcallee) arguments)
  | .get _ object _ => walked_expr h object
  | .set _ object _ value =>
    have hvalue := walked_expr h value
    hvalue.append (walked_expr (h.same hvalue) object)
  | .getItem _ object _ index =>
    have hobject := walked_expr h object
    hobject.append (walked_expr (h.same hobject) index)
  | .setItem _ object index _ value =>
    have hobject := walked_expr h object
    have hindex := hobject.append (walked_expr (h.same hobject) index)
    hindex.append (walked_expr (h.same hindex) value)
  | .self id keyword => by
    unfold Walker.expr expr
    rw [h.cls]
    split
    · exact walked_note w .thisOutsideClass keyword
    · exact walked_locate h id keyword.lexeme
  | .super id keyword _ _ => by
    unfold Walker.expr expr
    rw [h.cls]
    cases ctx.cls with
    | none =>
      have hnote := walked_note w .superOutsideClass keyword
      exact hnote.append (walked_locate (h.same hnote) id keyword.lexeme)
    | plain =>
      have hnote := walked_note w .superWithoutSuperclass keyword
      exact hnote.append (walked_locate (h.same hnote) id keyword.lexeme)
    | subclass => exact walked_locate h id keyword.lexeme
  | .array _ elements => walked_exprs h elements
  | .map _ entries => walked_entries h entries
  | .lambda _ decl => walked_callable h .function decl

theorem walked_exprs {w : Walker} {ctx : Context} {scopes : List Layer} (h : w.Mirrors ctx scopes) :
    ∀ es, Walked w (w.exprs es) [] (exprs ctx scopes es)
  | [] => .refl w
  | e :: es =>
    have he := walked_expr h e
    he.append (walked_exprs (h.same he) es)

theorem walked_entries {w : Walker} {ctx : Context} {scopes : List Layer}
    (h : w.Mirrors ctx scopes) :
    ∀ es, Walked w (w.entries es) [] (mapEntries ctx scopes es)
  | [] => .refl w
  | (_, e) :: es =>
    have he := walked_expr h e
    he.append (walked_entries (h.same he) es)

theorem walked_expr? {w : Walker} {ctx : Context} {scopes : List Layer} (h : w.Mirrors ctx scopes) :
    ∀ e?, Walked w (w.expr? e?) [] (expr? ctx scopes e?)
  | none => .refl w
  | some e => walked_expr h e

theorem walked_callable {w : Walker} {ctx : Context} {scopes : List Layer}
    (h : w.Mirrors ctx scopes) (kind : FunctionContext) :
    ∀ decl, Walked w (w.callable kind decl) [] (function ctx scopes kind decl)
  | .mk _ params body _ => by
    have hkind := h.inFunction kind
    have hparams := walked_declareAll hkind.beginScope params
    have hinside := hkind.beginScope.after hparams
    rw [← hold_bindAll] at hinside
    obtain ⟨names, hbody⟩ := walked_stmts hinside body
    exact (hparams.trans hbody).closed.inFunction

theorem walked_methods {w : Walker} {ctx : Context} {scopes : List Layer}
    (h : w.Mirrors ctx scopes) :
    ∀ decls, Walked w (w.methods decls) [] (methods ctx scopes decls)
  | [] => .refl w
  | decl :: decls =>
    have hdecl := walked_callable h (if decl.name.lexeme == "init" then .initializer else .method)
      decl
    hdecl.append (walked_methods (h.same hdecl) decls)

/-- Walking through a statement finds what is found of it and adds what it adds. -/
theorem walked_stmt {w : Walker} {ctx : Context} {scopes : List Layer} (h : w.Mirrors ctx scopes) :
    ∀ s, Walked w (w.stmt s) (added s) (stmt ctx scopes s).2
  | .expression value | .print value | .throw _ value => walked_expr h value
  | .var name init? => by
    have hdeclared := walked_declare h name
    have hinside := h.after hdeclared
    rw [← hold_bind] at hinside
    have hinit := hdeclared.append (walked_expr? hinside init?)
    have hdone := hinit.trans (walked_set _ name.lexeme true)
    rwa [Findings.append_nothing] at hdone
  | .block body => by
    obtain ⟨names, hbody⟩ := walked_stmts h.beginScope body
    exact hbody.closed
  | .branch condition thenPart elsePart? => by
    have hcondition := walked_expr h condition
    have hthen := walked_stmt (h.same hcondition) thenPart
    have hinside := (h.same hcondition).after hthen
    rw [← hold_stmt ctx] at hinside
    have helse := walked_stmt? hinside elsePart?
    cases elsePart? with
    | none => exact (hcondition.before hthen).append helse
    | some elsePart => exact (hcondition.before hthen).trans helse
  | .loop condition body =>
    have hcondition := walked_expr h condition
    hcondition.before (walked_stmt (h.same hcondition) body)
  | .function decl => by
    have hname := walked_name h decl.name
    have hinside := h.after hname
    rw [← hold_bind] at hinside
    exact hname.append (walked_callable hinside .function decl)
  | .ret keyword value? => by
    have hkeyword := walked_check w (w.function = .none) .topLevelReturn keyword
    have hchecked := hkeyword.append (walked_check _
      (value?.isSome ∧ w.function = .initializer) .returnFromInitializer keyword)
    have hdone := hchecked.append (walked_expr? (h.same hchecked) value?)
    unfold Walker.stmt stmt
    rw [h.function] at hdone ⊢
    exact hdone
  | .classDecl name refs decls => by
    have hname := walked_name (h.inClass .plain) name
    have hnamed := (h.inClass .plain).after hname
    rw [← hold_bind] at hnamed
    cases refs with
    | nil =>
      have hmethods := walked_methods (hnamed.push .this) decls
      have hdone := (hname.append hmethods.closed).inClass w.cls
      rw [← Findings.append_nothing (declareFindings scopes name)] at hdone
      exact hdone
    | cons ref refs =>
      have hsubclass := hnamed.inClass .subclass
      have hheads := walked_heads hsubclass name (ref :: refs)
      have hopen := (hsubclass.same hheads).push (.super (ref :: refs))
      have hmethods := walked_methods (hopen.push .this) decls
      have hdone := ((hname.inClass .subclass).append hheads).append hmethods.closed.closed
      rw [← openSuper_eq] at hdone
      exact hdone.inClass w.cls
  | .importFrom _ items => by
    exact walked_declareAll h (items.map (·.binding))
  | .exported inner => walked_stmt h inner
  | .attempt body param? handler? cleanup? => by
    obtain ⟨names, hbody⟩ := walked_stmts h.beginScope body
    have hhandler := hbody.closed.append
      (walked_handler (h.same hbody.closed) param?.toList handler?)
    have hdone := hhandler.append (walked_cleanup (h.same hhandler) cleanup?)
    rwa [← Findings.append_assoc] at hdone

theorem walked_stmt? {w : Walker} {ctx : Context} {scopes : List Layer}
    (h : w.Mirrors ctx scopes) :
    ∀ s?, Walked w (w.stmt? s?) (s?.elim [] added) (stmt? ctx scopes s?).2
  | none => .refl w
  | some s => walked_stmt h s

theorem walked_stmts {w : Walker} {ctx : Context} {scopes : List Layer}
    (h : w.Mirrors ctx scopes) :
    ∀ ss, ∃ names, Walked w (w.stmts ss) names (stmts ctx scopes ss).2
  | [] => ⟨[], .refl w⟩
  | s :: ss => by
    have hs := walked_stmt h s
    have hinside := h.after hs
    rw [← hold_stmt ctx] at hinside
    obtain ⟨names, hss⟩ := walked_stmts hinside ss
    exact ⟨_, hs.trans hss⟩

theorem walked_handler {w : Walker} {ctx : Context} {scopes : List Layer}
    (h : w.Mirrors ctx scopes) (params : List Token) :
    ∀ handler?, Walked w (w.handler params handler?) []
      ((if handler?.isSome then (Scope.bindAll ([] :: scopes) params).2 else .nothing) ++
        stmts? ctx (Scope.bindAll ([] :: scopes) params).1 handler?)
  | none => .refl w
  | some body => by
    have hparams := walked_declareAll h.beginScope params
    have hinside := h.beginScope.after hparams
    rw [← hold_bindAll] at hinside
    obtain ⟨names, hbody⟩ := walked_stmts hinside body
    exact (hparams.trans hbody).closed

theorem walked_cleanup {w : Walker} {ctx : Context} {scopes : List Layer}
    (h : w.Mirrors ctx scopes) :
    ∀ cleanup?, Walked w (w.cleanup cleanup?) [] (stmts? ctx ([] :: scopes) cleanup?)
  | none => .refl w
  | some body => by
    obtain ⟨names, hbody⟩ := walked_stmts h.beginScope body
    exact hbody.closed

end

/-! ## Whole programs -/

/-- Whatever scopes are open, they are those of some scopes handed down. -/
theorem Walker.mirrors (w : Walker) :
    w.Mirrors ⟨w.function, w.cls⟩ (w.scopes.map fun scope => scope.toList) :=
  ⟨List.forall₂_map_right_iff.mpr (List.forall₂_same.mpr fun scope _ => .toList scope), rfl, rfl⟩

/-- The walk through a program has its distances and its errors. -/
theorem Walker.start_stmts (program : List Stmt) :
    (start.stmts program).table = distanceTable (findings program).distances ∧
      (start.stmts program).errors = (findings program).errors := by
  have hstart : start.Mirrors ⟨.none, .none⟩ [] := ⟨.nil, rfl, rfl⟩
  obtain ⟨_, hwalked⟩ := walked_stmts hstart program
  exact ⟨hwalked.table, hwalked.errors⟩

/-- The walk that opens and closes its scopes by hand finds what the one that hands them down
finds. -/
theorem Walker.resolve_eq (program : List Stmt) :
    Walker.resolve program = (Scope.resolve program).map distanceTable := by
  obtain ⟨htable, herrors⟩ := Walker.start_stmts program
  unfold Walker.resolve Scope.resolve
  simp only [htable, herrors]
  split <;> rfl

/-- The errors of a program that is refused. -/
def refusals {α : Type} : Except (List ScopeError) α → List ScopeError
  | .ok _ => []
  | .error errors => errors

/-- A program is refused for the errors that are found. -/
theorem refusals_resolve (program : List Stmt) :
    refusals (resolve program) = (findings program).errors := by
  unfold resolve
  dsimp only
  split
  · next hempty => exact (List.isEmpty_iff.mp hempty).symm
  · rfl

/-- Two programs are refused for the errors of each. -/
theorem refusals_append (xs ys : List Stmt) :
    refusals (resolve (xs ++ ys)) = refusals (resolve xs) ++ refusals (resolve ys) := by
  simp only [refusals_resolve, (findings_append xs ys).2]

/-- A program that is accepted has all its parts accepted. -/
theorem resolve_parts {xs ys : List Stmt} {all : List (ExprId × Nat)}
    (h : resolve (xs ++ ys) = .ok all) :
    ∃ ds es, resolve xs = .ok ds ∧ resolve ys = .ok es := by
  obtain ⟨-, herrors⟩ := findings_append xs ys
  rw [(resolve_eq_ok.mp h).1, List.nil_eq_append_iff] at herrors
  exact ⟨_, _, resolve_eq_ok.mpr ⟨herrors.1, rfl⟩, resolve_eq_ok.mpr ⟨herrors.2, rfl⟩⟩

/-- Programs behind each other are resolved each for itself. The errors of both come in order, and
if there are none the distances are the union of the two tables. What the walk rests on is that
every statement, with errors or without, leaves the kinds of function and class and the open scopes
as they were, apart from the names it adds to the innermost one. -/
theorem resolve_adds_up :
    (∀ program, Walker.resolve program = (resolve program).map distanceTable) ∧
      (∀ xs ys : List Stmt,
        match resolve xs, resolve ys with
        | .ok ds, .ok es =>
          ∃ all, resolve (xs ++ ys) = .ok all ∧
            ∀ id : ExprId, (distanceTable all)[id]? = (distanceTable ds ∪ distanceTable es)[id]?
        | first, second => resolve (xs ++ ys) = .error (refusals first ++ refusals second)) ∧
      ∀ (w : Walker) (s : Stmt),
        (w.stmt s).function = w.function ∧ (w.stmt s).cls = w.cls ∧
          GrownBy (added s) w.scopes (w.stmt s).scopes := by
  refine ⟨Walker.resolve_eq, fun xs ys => ?_, fun w s => ?_⟩
  · split
    · next ds es hxs hys => exact ⟨_, resolve_append hxs hys, distanceTable_append ds es⟩
    · next first second hrefused =>
      rw [← refusals_append]
      cases hboth : resolve (xs ++ ys) with
      | ok all =>
        obtain ⟨ds, es, hxs, hys⟩ := resolve_parts hboth
        exact absurd hys (hrefused ds es hxs)
      | error errors => rfl
  · have hwalked := walked_stmt w.mirrors s
    exact ⟨hwalked.function, hwalked.cls, hwalked.scopes⟩

end ScriptEngine.Scope
