import ScriptEngine.Proofs.Scope.Use

/-!
# What a piece of program is made of

Three things about the parts of a program matter when it runs, wherever the parts stand: the
numbers under which its uses are recorded, the names that it declares or assigns, and the
statements that it runs only on a condition. `exprMarks` and `stmtMarks` list them. A part of a
piece of program has fewer marks than the piece, so whatever is known of all marks of a program is
known of the marks of each of its parts.

The numbers among the marks are those of the uses, in the same order (`exprUses_ids`).
-/

namespace ScriptEngine.Scope

/-- A name that a program can spell: none of those that stand for `this` and the superclasses. -/
def Plain (name : String) : Prop :=
  name ≠ "this" ∧ name ≠ "super" ∧ ∀ className, name ≠ superBinding className

/-- Something a piece of program contains. -/
inductive Mark where
  /-- The number of a use. -/
  | number (id : ExprId)
  /-- A name that is declared, read or assigned. -/
  | name (token : Token)
  /-- A `this`. -/
  | receiver (keyword : Token)
  /-- An access to a method of a superclass. -/
  | access (keyword method : Token)
  /-- A statement that runs on a condition. -/
  | body (s : Stmt)

namespace Mark

/-- The number that a mark is. -/
def number? : Mark → Option ExprId
  | .number id => some id
  | _ => none

/-- What the grammar promises about a mark: names are plain, the keyword of a `this` or of an access
is the word itself, and what runs on a condition declares nothing. -/
def Proper : Mark → Prop
  | .number _ => True
  | .name token => Plain token.lexeme
  | .receiver keyword => keyword.lexeme = "this"
  | .access keyword _ => keyword.lexeme = "super"
  | .body s => added s = []

/-- The mark is an access to the initializer of a superclass. -/
def AsksInit : Mark → Prop
  | .access _ method => method.lexeme = "init"
  | _ => False

end Mark

mutual

/-- The marks of an expression. -/
def exprMarks : Expr → List Mark
  | .constant _ _ => []
  | .reference ref => [.number ref.id, .name ref.name]
  | .assign id name value => exprMarks value ++ [.number id, .name name]
  | .binary _ left _ right => exprMarks left ++ exprMarks right
  | .logical _ left _ right => exprMarks left ++ exprMarks right
  | .unary _ _ operand => exprMarks operand
  | .grouping _ inner => exprMarks inner
  | .call _ callee _ arguments => exprMarks callee ++ exprsMarks arguments
  | .get _ object _ => exprMarks object
  | .set _ object _ value => exprMarks value ++ exprMarks object
  | .getItem _ object _ index => exprMarks object ++ exprMarks index
  | .setItem _ object index _ value => exprMarks object ++ exprMarks index ++ exprMarks value
  | .self id keyword => [.number id, .receiver keyword]
  | .super id keyword _ method => [.number id, .access keyword method]
  | .array _ elements => exprsMarks elements
  | .map _ entries => entriesMarks entries
  | .lambda _ decl => functionMarks decl

/-- The marks of a list of expressions. -/
def exprsMarks : List Expr → List Mark
  | [] => []
  | e :: es => exprMarks e ++ exprsMarks es

/-- The marks of the values of a map. -/
def entriesMarks : List (Token × Expr) → List Mark
  | [] => []
  | (_, e) :: es => exprMarks e ++ entriesMarks es

/-- The marks of an optional expression. -/
def optionalMarks : Option Expr → List Mark
  | none => []
  | some e => exprMarks e

/-- The marks of a function, apart from its name. -/
def functionMarks : FunctionDecl → List Mark
  | .mk _ params body _ => params.map .name ++ stmtsMarks body

/-- The marks of the methods of a class. -/
def methodsMarks : List FunctionDecl → List Mark
  | [] => []
  | decl :: decls => functionMarks decl ++ methodsMarks decls

/-- The marks of a statement. -/
def stmtMarks : Stmt → List Mark
  | .expression value => exprMarks value
  | .print value => exprMarks value
  | .var name init? => .name name :: optionalMarks init?
  | .block body => stmtsMarks body
  | .branch condition thenPart elsePart? =>
    exprMarks condition ++ .body thenPart :: stmtMarks thenPart ++ elseMarks elsePart?
  | .loop condition body => exprMarks condition ++ .body body :: stmtMarks body
  | .function decl => .name decl.name :: functionMarks decl
  | .ret _ value? => optionalMarks value?
  | .classDecl name refs decls =>
    .name name :: refs.map (fun ref => .number ref.id) ++ methodsMarks decls
  | .importFrom _ items => items.map fun item => .name item.binding
  | .exported inner => stmtMarks inner
  | .throw _ value => exprMarks value
  | .attempt body param? handler? cleanup? =>
    param?.toList.map .name ++ stmtsMarks body ++ blockMarks handler? ++ blockMarks cleanup?

/-- The marks of what stands behind `else`. -/
def elseMarks : Option Stmt → List Mark
  | none => []
  | some s => .body s :: stmtMarks s

/-- The marks of a list of statements. -/
def stmtsMarks : List Stmt → List Mark
  | [] => []
  | s :: ss => stmtMarks s ++ stmtsMarks ss

/-- The marks of an optional list of statements. -/
def blockMarks : Option (List Stmt) → List Mark
  | none => []
  | some body => stmtsMarks body

end

/-- Some method of a class asks for the initializer of a superclass. -/
def AsksInit (decls : List FunctionDecl) : Prop :=
  ∃ decl ∈ decls, ∃ k ∈ functionMarks decl, k.AsksInit

/-! ## The numbers are those of the uses -/

/-- The numbers among marks. -/
def numbers (marks : List Mark) : List ExprId :=
  marks.filterMap Mark.number?

@[simp, grind =] theorem numbers_nil : numbers [] = [] := rfl

/-- The numbers of two lists are those of one after those of the other. -/
@[simp, grind =] theorem numbers_append (ks ls : List Mark) :
    numbers (ks ++ ls) = numbers ks ++ numbers ls :=
  List.filterMap_append

@[simp, grind =] theorem numbers_number (id : ExprId) (ks : List Mark) :
    numbers (.number id :: ks) = id :: numbers ks := rfl

@[simp, grind =] theorem numbers_name (token : Token) (ks : List Mark) :
    numbers (.name token :: ks) = numbers ks := rfl

@[simp, grind =] theorem numbers_receiver (keyword : Token) (ks : List Mark) :
    numbers (.receiver keyword :: ks) = numbers ks := rfl

@[simp, grind =] theorem numbers_access (keyword method : Token) (ks : List Mark) :
    numbers (.access keyword method :: ks) = numbers ks := rfl

@[simp, grind =] theorem numbers_body (s : Stmt) (ks : List Mark) :
    numbers (.body s :: ks) = numbers ks := rfl

@[simp, grind =] theorem numbers_names (names : List Token) : numbers (names.map .name) = [] := by
  induction names with
  | nil => rfl
  | cons name names ih => simpa using ih

@[simp, grind =] theorem numbers_refs (refs : List Reference) :
    numbers (refs.map fun ref => .number ref.id) = refs.map (·.id) := by
  induction refs with
  | nil => rfl
  | cons ref refs ih => simpa using ih

mutual

/-- The uses of an expression are numbered as its marks are. -/
theorem exprUses_ids (stack : Stack) :
    ∀ e, (exprUses stack e).map (·.id) = numbers (exprMarks e)
  | .constant id c => rfl
  | .reference ref => rfl
  | .assign id name value => by simp [exprUses, exprMarks, exprUses_ids stack value]
  | .binary id left operator right => by
    simp [exprUses, exprMarks, exprUses_ids stack left, exprUses_ids stack right]
  | .logical id left operator right => by
    simp [exprUses, exprMarks, exprUses_ids stack left, exprUses_ids stack right]
  | .unary id operator operand => exprUses_ids stack operand
  | .grouping id inner => exprUses_ids stack inner
  | .call id callee paren arguments => by
    simp [exprUses, exprMarks, exprUses_ids stack callee, exprsUses_ids stack arguments]
  | .get id object name => exprUses_ids stack object
  | .set id object name value => by
    simp [exprUses, exprMarks, exprUses_ids stack value, exprUses_ids stack object]
  | .getItem id object bracket index => by
    simp [exprUses, exprMarks, exprUses_ids stack object, exprUses_ids stack index]
  | .setItem id object index equals value => by
    simp [exprUses, exprMarks, exprUses_ids stack object, exprUses_ids stack index,
      exprUses_ids stack value]
  | .self id keyword => rfl
  | .super id keyword className method => rfl
  | .array id elements => exprsUses_ids stack elements
  | .map id entries => entriesUses_ids stack entries
  | .lambda id decl => functionUses_ids stack decl

theorem exprsUses_ids (stack : Stack) :
    ∀ es, (exprsUses stack es).map (·.id) = numbers (exprsMarks es)
  | [] => rfl
  | e :: es => by simp [exprsUses, exprsMarks, exprUses_ids stack e, exprsUses_ids stack es]

theorem entriesUses_ids (stack : Stack) :
    ∀ es, (entriesUses stack es).map (·.id) = numbers (entriesMarks es)
  | [] => rfl
  | (_, e) :: es => by
    simp [entriesUses, entriesMarks, exprUses_ids stack e, entriesUses_ids stack es]

theorem optionalUses_ids (stack : Stack) :
    ∀ e?, (optionalUses stack e?).map (·.id) = numbers (optionalMarks e?)
  | none => rfl
  | some e => exprUses_ids stack e

theorem functionUses_ids (stack : Stack) :
    ∀ decl, (functionUses stack decl).map (·.id) = numbers (functionMarks decl)
  | .mk name params body anonymous => by
    simp [functionUses, functionMarks, stmtsUses_ids _ body]

theorem methodsUses_ids (stack : Stack) :
    ∀ decls, (methodsUses stack decls).map (·.id) = numbers (methodsMarks decls)
  | [] => rfl
  | decl :: decls => by
    simp [methodsUses, methodsMarks, functionUses_ids stack decl, methodsUses_ids stack decls]

/-- The uses of a statement are numbered as its marks are. -/
theorem stmtUses_ids (stack : Stack) :
    ∀ s, (stmtUses stack s).map (·.id) = numbers (stmtMarks s)
  | .expression value => exprUses_ids stack value
  | .print value => exprUses_ids stack value
  | .var name init? => optionalUses_ids _ init?
  | .block body => stmtsUses_ids _ body
  | .branch condition thenPart elsePart? => by
    simp [stmtUses, stmtMarks, exprUses_ids stack condition, stmtUses_ids stack thenPart,
      elseUses_ids _ elsePart?]
  | .loop condition body => by
    simp [stmtUses, stmtMarks, exprUses_ids stack condition, stmtUses_ids stack body]
  | .function decl => functionUses_ids _ decl
  | .ret keyword value? => optionalUses_ids stack value?
  | .classDecl name refs decls => by
    simp [stmtUses, stmtMarks, methodsUses_ids _ decls, headUse, Function.comp_def]
  -- Imports have names but no uses.
  | .importFrom path items => by
    have h := numbers_names (items.map (·.binding))
    simpa [stmtUses, stmtMarks, Function.comp_def] using h.symm
  | .exported inner => stmtUses_ids stack inner
  | .throw keyword value => exprUses_ids stack value
  | .attempt body param? handler? cleanup? => by
    simp [stmtUses, stmtMarks, stmtsUses_ids _ body, handlerUses_ids stack param? handler?,
      cleanupUses_ids stack cleanup?]

theorem elseUses_ids (stack : Stack) :
    ∀ s?, (elseUses stack s?).map (·.id) = numbers (elseMarks s?)
  | none => rfl
  | some s => stmtUses_ids stack s

theorem stmtsUses_ids (stack : Stack) :
    ∀ ss, (stmtsUses stack ss).map (·.id) = numbers (stmtsMarks ss)
  | [] => rfl
  | s :: ss => by simp [stmtsUses, stmtsMarks, stmtUses_ids stack s, stmtsUses_ids _ ss]

theorem handlerUses_ids (stack : Stack) (param? : Option Token) :
    ∀ body?, (handlerUses stack param? body?).map (·.id) = numbers (blockMarks body?)
  | none => rfl
  | some body => stmtsUses_ids _ body

theorem cleanupUses_ids (stack : Stack) :
    ∀ body?, (cleanupUses stack body?).map (·.id) = numbers (blockMarks body?)
  | none => rfl
  | some body => stmtsUses_ids _ body

end

/-! ## What a proper statement adds -/

theorem mem_readyNames {names : List Token} {entry : String × Bool} (h : entry ∈ readyNames names) :
    ∃ name ∈ names, entry = (name.lexeme, true) := by
  simp only [readyNames, List.mem_reverse, List.mem_map] at h
  obtain ⟨name, hname, heq⟩ := h
  exact ⟨name, hname, heq.symm⟩

/-- Plain names stay plain when they are ready. -/
theorem plain_readyNames {names : List Token} (h : ∀ name ∈ names, Plain name.lexeme) :
    ∀ entry ∈ readyNames names, Plain entry.1 := by
  intro entry hentry
  obtain ⟨name, hname, rfl⟩ := mem_readyNames hentry
  exact h name hname

/-- A statement with proper marks adds only plain names to the innermost scope. -/
theorem plain_added : ∀ s, (∀ k ∈ stmtMarks s, k.Proper) → ∀ entry ∈ added s, Plain entry.1
  | .expression _, _ | .print _, _ | .block _, _ | .ret _ _, _ | .throw _ _, _
  | .attempt _ _ _ _, _ => fun entry h => by simp [added] at h
  | .var name init?, hs => fun entry h => by
    have hname : Plain name.lexeme := hs (.name name) (by simp [stmtMarks])
    simp only [added, List.mem_cons, List.not_mem_nil, or_false] at h
    rcases h with rfl | rfl
    · exact hname
    · exact hname
  | .branch condition thenPart none, hs => plain_added thenPart fun k hk =>
    hs k (by simp [stmtMarks, hk])
  | .branch condition thenPart (some elsePart), hs => fun entry h => by
    rcases List.mem_append.mp h with h | h
    · exact plain_added elsePart (fun k hk => hs k (by simp [stmtMarks, elseMarks, hk])) entry h
    · exact plain_added thenPart (fun k hk => hs k (by simp [stmtMarks, hk])) entry h
  | .loop condition body, hs => plain_added body fun k hk => hs k (by simp [stmtMarks, hk])
  | .function decl, hs => fun entry h => by
    have hname : Plain decl.name.lexeme := hs (.name decl.name) (by simp [stmtMarks])
    simp only [added, List.mem_cons, List.not_mem_nil, or_false] at h
    exact h ▸ hname
  | .classDecl name refs decls, hs => fun entry h => by
    have hname : Plain name.lexeme := hs (.name name) (by simp [stmtMarks])
    simp only [added, List.mem_cons, List.not_mem_nil, or_false] at h
    exact h ▸ hname
  | .importFrom path items, hs => by
    refine plain_readyNames fun name hname => ?_
    obtain ⟨item, hitem, rfl⟩ := List.mem_map.mp hname
    exact hs (.name item.binding) (List.mem_map.mpr ⟨item, hitem, rfl⟩)
  | .exported inner, hs => plain_added inner hs

end ScriptEngine.Scope
