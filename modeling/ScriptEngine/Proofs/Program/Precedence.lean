import ScriptEngine.Proofs.Program.Parsed

/-!
# Precedence in parsed programs

The form that the grammar gives to a program is said level by level (`Writing.Ranks`): an
expression may stand where a level is demanded. Here it is said node by node. Every expression has
one level, the level of the production that reads it, and every position below a node demands one;
the expression at a position is at least as tight as the position demands (`Moment.WellShaped`).
An operator demands its own level on its left and the next one on its right, so that all operators
of a level group to the left, and only positions that demand nothing can hold an assignment.

A program is parsed only if that holds of all its nodes, and if all tokens up to the end have been
read without an error (`parsed_wellShaped`).
-/

namespace ScriptEngine

open Writing

/-- The level of a binary or logical operator, loosest first. -/
def operatorLevel (kind : TokenKind) : Nat :=
  if kind = .or then 1
  else if kind = .and then 2
  else if kind ∈ Parser.equalityOperators then 3
  else if kind ∈ Parser.comparisonOperators then 4
  else if kind ∈ Parser.termOperators then 5
  else if kind ∈ Parser.factorOperators then 6
  else 7

/-- The level of an expression: how tightly it binds. -/
def Expr.level : Expr → Nat
  | .assign _ _ _ | .set _ _ _ _ | .setItem _ _ _ _ _ => 0
  | .logical _ _ operator _ | .binary _ _ operator _ => operatorLevel operator.kind
  | .unary _ _ _ => 8
  | .call _ _ _ _ | .get _ _ _ | .getItem _ _ _ _ => 9
  | _ => 10

/-- The expressions right below an expression, each with the level that its position demands. -/
def Expr.positions : Expr → List (Nat × Expr)
  | .assign _ _ value => [(0, value)]
  | .binary _ left operator right | .logical _ left operator right =>
    [(operatorLevel operator.kind, left), (operatorLevel operator.kind + 1, right)]
  | .unary _ _ operand => [(8, operand)]
  | .grouping _ inner => [(0, inner)]
  | .call _ callee _ arguments => (9, callee) :: arguments.map ((0, ·))
  | .get _ object _ => [(9, object)]
  | .set _ object _ value => [(9, object), (0, value)]
  | .getItem _ object _ index => [(9, object), (0, index)]
  | .setItem _ object index _ value => [(9, object), (0, index), (0, value)]
  | .array _ elements => elements.map ((0, ·))
  | .map _ entries => entries.map fun e => (0, e.2)
  | .constant _ _ | .reference _ | .self _ _ | .super _ _ _ _ | .lambda _ _ => []

/-- What an expression is made of is of its kind: what it assigns to is a variable, a property or an
index, its operator is one of its level, and its members are few enough and not the same. -/
def Expr.Sorted : Expr → Prop
  | .assign _ name _ => name.kind = .identifier
  | .set _ _ name _ => name.kind = .identifier
  | .setItem _ _ _ equals _ => equals.kind = .equal
  | .binary _ _ operator _ => 3 ≤ operatorLevel operator.kind ∧
      operator.kind ∈ operatorsAt (operatorLevel operator.kind)
  | .logical _ _ operator _ => operator.kind = .or ∨ operator.kind = .and
  | .unary _ operator _ => operator.kind = .bang ∨ operator.kind = .minus
  | .call _ _ _ arguments => arguments.length ≤ 255
  | .map _ entries => (entries.map (·.1.lexeme)).Nodup
  | .lambda _ decl => decl.params.length ≤ 255
  | _ => True

/-- What a statement is made of is of its kind: parameters are few enough, an import has an item,
an export wraps a class, a function or a variable, and at least one of the two handlers of a `try`
is there. -/
def Stmt.Sorted : Stmt → Prop
  | .function decl => decl.params.length ≤ 255
  | .classDecl _ _ methods => ∀ decl ∈ methods, decl.params.length ≤ 255
  | .importFrom _ items => items ≠ []
  | .exported (.classDecl _ _ _) | .exported (.function _) | .exported (.var _ _) => True
  | .exported _ => False
  | .attempt _ _ handler? cleanup? => handler?.isSome ∨ cleanup?.isSome
  | _ => True

/-- A part of a program is well shaped: it is of its kind, and what stands below an expression is
as tight as is demanded there. -/
def Moment.WellShaped : Moment → Prop
  | .evaluating e => e.Sorted ∧ ∀ position ∈ e.positions, position.1 ≤ position.2.level
  | .executing s => s.Sorted

/-! ## The level of an operator -/

/-- An operator has the level at which it is read. -/
theorem operatorLevel_eq {i : Nat} {kind : TokenKind} (hi : i ∈ [1, 2, 3, 4, 5, 6, 7])
    (hkind : kind ∈ operatorsAt i) : operatorLevel kind = i := by
  have hall : ∀ i ∈ [1, 2, 3, 4, 5, 6, 7], ∀ kind ∈ operatorsAt i, operatorLevel kind = i := by
    decide
  exact hall i hi kind hkind

theorem operatorLevel_binary {i : Nat} {kind : TokenKind} (hi : i ∈ [3, 4, 5, 6, 7])
    (hkind : kind ∈ operatorsAt i) : operatorLevel kind = i :=
  operatorLevel_eq (List.mem_append_right [1, 2] hi) hkind

theorem operatorLevel_logical {i : Nat} {kind : TokenKind} (hi : i ∈ [1, 2])
    (hkind : kind ∈ operatorsAt i) : operatorLevel kind = i :=
  operatorLevel_eq (List.mem_append_left [3, 4, 5, 6, 7] hi) hkind

/-- What may stand where a level is demanded is of that level or tighter. -/
theorem le_level {l : Nat} (hl : l ≤ 10) {e : Expr} (h : Ranks l e) : l ≤ e.level := by
  cases e with
  | assign id name value => exact Nat.le_of_eq h.1
  | set id object name value => exact Nat.le_of_eq h.1
  | setItem id object index equals value => exact Nat.le_of_eq h.1
  | binary id left operator right =>
    obtain ⟨i, hi, hle, hkind, -⟩ := h
    show l ≤ operatorLevel operator.kind
    rw [operatorLevel_binary hi hkind]
    exact hle
  | logical id left operator right =>
    obtain ⟨i, hi, hle, hkind, -⟩ := h
    show l ≤ operatorLevel operator.kind
    rw [operatorLevel_logical hi hkind]
    exact hle
  | unary id operator operand => exact h.1
  | call id callee paren arguments => exact h.1
  | get id object name => exact h.1
  | getItem id object bracket index => exact h.1
  | _ => exact hl

/-! ## Node by node -/

/-- A node without operands needs no parentheses. -/
theorem tight_nil {e : Expr} (h : e.positions = []) :
    ∀ position ∈ e.positions, position.1 ≤ position.2.level := by
  rw [h]
  exact List.forall_mem_nil _

/-- An expression that the grammar gives is well shaped itself. -/
theorem wellShaped_of_ranks {l : Nat} {e : Expr} (h : Ranks l e) :
    Moment.WellShaped (.evaluating e) := by
  cases e with
  | constant id value => exact ⟨trivial, tight_nil rfl⟩
  | reference ref => exact ⟨trivial, tight_nil rfl⟩
  | assign id name value => exact ⟨h.2.1, by simp [Expr.positions]⟩
  | binary id left operator right =>
    obtain ⟨i, hi, -, hkind, hleft, hright⟩ := h
    have hlevel := operatorLevel_binary hi hkind
    have hbounds : 3 ≤ i ∧ i ≤ 7 := by
      simp only [List.mem_cons, List.not_mem_nil, or_false] at hi
      omega
    refine ⟨?_, ?_⟩
    · show 3 ≤ operatorLevel operator.kind ∧ operator.kind ∈ operatorsAt _
      rw [hlevel]
      exact ⟨hbounds.1, hkind⟩
    · have hleft' := le_level (by omega) hleft
      have hright' := le_level (by omega) hright
      simpa [Expr.positions, hlevel] using ⟨hleft', hright'⟩
  | logical id left operator right =>
    obtain ⟨i, hi, -, hkind, hleft, hright⟩ := h
    have hlevel := operatorLevel_logical hi hkind
    have hbounds : i = 1 ∨ i = 2 := by simpa using hi
    refine ⟨?_, ?_⟩
    · rcases hbounds with rfl | rfl
      · exact Or.inl (List.mem_singleton.mp hkind)
      · exact Or.inr (List.mem_singleton.mp hkind)
    · have hleft' := le_level (by omega) hleft
      have hright' := le_level (by omega) hright
      simpa [Expr.positions, hlevel] using ⟨hleft', hright'⟩
  | unary id operator operand =>
    obtain ⟨-, hkind, hoperand⟩ := h
    have hkinds : operator.kind = .bang ∨ operator.kind = .minus := by simpa using hkind
    refine ⟨hkinds, ?_⟩
    simpa [Expr.positions] using le_level (by decide) hoperand
  | grouping id inner => exact ⟨trivial, by simp [Expr.positions]⟩
  | call id callee paren arguments =>
    obtain ⟨-, hcallee, -, hlength, -⟩ := h
    refine ⟨hlength, ?_⟩
    simpa [Expr.positions] using le_level (by decide) hcallee
  | get id object name =>
    refine ⟨trivial, ?_⟩
    simpa [Expr.positions] using le_level (by decide) h.2.1
  | set id object name value =>
    refine ⟨h.2.2.1, ?_⟩
    simpa [Expr.positions] using le_level (by decide) h.2.1
  | getItem id object bracket index =>
    refine ⟨trivial, ?_⟩
    simpa [Expr.positions] using le_level (by decide) h.2.1
  | setItem id object index equals value =>
    refine ⟨h.2.2.2.1, ?_⟩
    simpa [Expr.positions] using le_level (by decide) h.2.1
  | self id keyword => exact ⟨trivial, tight_nil rfl⟩
  | super id keyword className method => exact ⟨trivial, tight_nil rfl⟩
  | array id elements => exact ⟨trivial, by simp [Expr.positions]⟩
  | map id entries =>
    refine ⟨h.1, fun position hposition => ?_⟩
    obtain ⟨entry, -, rfl⟩ := List.mem_map.mp hposition
    exact Nat.zero_le _
  | lambda id decl =>
    cases decl with
    | mk name params body anonymous => exact ⟨h.2.2.2.2.1.1, tight_nil rfl⟩

/-- A regular function has at most as many parameters as there may be. -/
theorem params_of_regular {decl : FunctionDecl} (h : RegularDecl decl) :
    decl.params.length ≤ 255 := by
  cases decl with
  | mk name params body anonymous => exact h.2.2.1.1

/-- A statement that the grammar gives is well shaped itself. -/
theorem wellShaped_of_regular {s : Stmt} (h : Regular s) : Moment.WellShaped (.executing s) := by
  cases s with
  | function decl => exact params_of_regular h
  | classDecl name superclasses methods =>
    exact fun decl hdecl => params_of_regular (regularDecls_iff.mp h.2.2 decl hdecl)
  | importFrom path items => exact h.2.1
  | exported inner =>
    have hinner : Exportable inner := h.1
    cases inner with
    | classDecl _ _ _ => trivial
    | function _ => trivial
    | var _ _ => trivial
    | _ => exact hinner.elim
  | attempt body param? handler? cleanup? => exact h.2.2.2.2
  | _ => trivial

/-! ## The whole program -/

mutual

/-- Every part of a ranked expression is well shaped, by induction on the tree. -/
theorem shaped_expr : ∀ (l : Nat) (e : Expr), Ranks l e → everyExpr Moment.WellShaped e
  | _, .constant _ _, h => wellShaped_of_ranks h
  | _, .reference _, h => wellShaped_of_ranks h
  | _, .assign _ _ value, h => ⟨wellShaped_of_ranks h, shaped_expr 0 value h.2.2⟩
  | _, .binary _ left _ right, h =>
    have ⟨i, _, _, _, hleft, hright⟩ := h
    ⟨wellShaped_of_ranks h, shaped_expr i left hleft, shaped_expr (i + 1) right hright⟩
  | _, .logical _ left _ right, h =>
    have ⟨i, _, _, _, hleft, hright⟩ := h
    ⟨wellShaped_of_ranks h, shaped_expr i left hleft, shaped_expr (i + 1) right hright⟩
  | _, .unary _ _ operand, h => ⟨wellShaped_of_ranks h, shaped_expr 8 operand h.2.2⟩
  | _, .grouping _ inner, h => ⟨wellShaped_of_ranks h, shaped_expr 0 inner h⟩
  | _, .call _ callee _ arguments, h =>
    ⟨wellShaped_of_ranks h, shaped_expr 9 callee h.2.1, shaped_exprs arguments h.2.2.2.2⟩
  | _, .get _ object _, h => ⟨wellShaped_of_ranks h, shaped_expr 9 object h.2.1⟩
  | _, .set _ object _ value, h =>
    ⟨wellShaped_of_ranks h, shaped_expr 9 object h.2.1, shaped_expr 0 value h.2.2.2⟩
  | _, .getItem _ object _ index, h =>
    ⟨wellShaped_of_ranks h, shaped_expr 9 object h.2.1, shaped_expr 0 index h.2.2.2⟩
  | _, .setItem _ object index _ value, h =>
    ⟨wellShaped_of_ranks h, shaped_expr 9 object h.2.1, shaped_expr 0 index h.2.2.1,
      shaped_expr 0 value h.2.2.2.2⟩
  | _, .self _ _, h => wellShaped_of_ranks h
  | _, .super _ _ _ _, h => wellShaped_of_ranks h
  | _, .array _ elements, h => ⟨wellShaped_of_ranks h, shaped_exprs elements h⟩
  | _, .map _ entries, h => ⟨wellShaped_of_ranks h, shaped_entries entries h.2⟩
  | _, .lambda _ (.mk _ _ body _), h =>
    ⟨wellShaped_of_ranks h, shaped_stmts body h.2.2.2.2.2⟩

theorem shaped_exprs : ∀ es : List Expr, RanksAll es → everyExprs Moment.WellShaped es
  | [], _ => trivial
  | e :: es, h => ⟨shaped_expr 0 e h.1, shaped_exprs es h.2⟩

theorem shaped_entries : ∀ es : List (Token × Expr), RanksEntries es →
    everyEntry Moment.WellShaped es
  | [], _ => trivial
  | (_, e) :: es, h => ⟨shaped_expr 0 e h.2.1, shaped_entries es h.2.2⟩

theorem shaped_expr? : ∀ e? : Option Expr, Ranks? e? → everyExpr? Moment.WellShaped e?
  | none, _ => trivial
  | some e, h => shaped_expr 0 e h

theorem shaped_decl : ∀ d : FunctionDecl, RegularDecl d → everyDecl Moment.WellShaped d
  | .mk _ _ body _, h => shaped_stmts body h.2.2.2

theorem shaped_decls : ∀ ds : List FunctionDecl, RegularDecls ds →
    everyDecls Moment.WellShaped ds
  | [], _ => trivial
  | d :: ds, h => ⟨shaped_decl d h.1, shaped_decls ds h.2⟩

theorem shaped_stmt : ∀ s : Stmt, Regular s → everyStmt Moment.WellShaped s
  | .expression value, h => ⟨wellShaped_of_regular h, shaped_expr 0 value h⟩
  | .print value, h => ⟨wellShaped_of_regular h, shaped_expr 0 value h⟩
  | .var _ init?, h => ⟨wellShaped_of_regular h, shaped_expr? init? h.2⟩
  | .block body, h => ⟨wellShaped_of_regular h, shaped_stmts body h⟩
  | .branch condition thenPart elsePart?, h =>
    ⟨wellShaped_of_regular h, shaped_expr 0 condition h.1, shaped_stmt thenPart h.2.1,
      shaped_stmt? elsePart? h.2.2.1⟩
  | .loop condition body, h =>
    ⟨wellShaped_of_regular h, shaped_expr 0 condition h.1, shaped_stmt body h.2.2⟩
  | .function decl, h => ⟨wellShaped_of_regular h, shaped_decl decl h⟩
  | .ret _ value?, h => ⟨wellShaped_of_regular h, shaped_expr? value? h.2⟩
  | .classDecl _ _ methods, h => ⟨wellShaped_of_regular h, shaped_decls methods h.2.2⟩
  | .importFrom _ _, h => wellShaped_of_regular h
  | .exported inner, h => ⟨wellShaped_of_regular h, shaped_stmt inner h.2⟩
  | .throw _ value, h => ⟨wellShaped_of_regular h, shaped_expr 0 value h.2⟩
  | .attempt body _ handler? cleanup?, h =>
    ⟨wellShaped_of_regular h, shaped_stmts body h.1, shaped_stmts? handler? h.2.1,
      shaped_stmts? cleanup? h.2.2.1⟩

theorem shaped_stmt? : ∀ s? : Option Stmt, Regular? s? → everyStmt? Moment.WellShaped s?
  | none, _ => trivial
  | some s, h => shaped_stmt s h

theorem shaped_stmts : ∀ ss : List Stmt, RegularAll ss → everyStmts Moment.WellShaped ss
  | [], _ => trivial
  | s :: ss, h => ⟨shaped_stmt s h.1, shaped_stmts ss h.2⟩

theorem shaped_stmts? : ∀ ss? : Option (List Stmt), RegularAll? ss? →
    everyStmts? Moment.WellShaped ss?
  | none, _ => trivial
  | some ss, h => shaped_stmts ss h

end

namespace Parser

/-- Every part of a program that was parsed is well shaped, and it was parsed by reading all tokens
before the first end token without noting an error. -/
theorem parsed_wellShaped (first : ExprId) (tokens : List Token) (p : List Stmt)
    (h : (parse first tokens).result = .ok p) :
    everyStmts Moment.WellShaped p ∧
      (start first tokens).rest = tokens.takeWhile (·.kind ≠ .eof) ∧
      ∃ s, program (start first tokens) = .ok p s ∧ s.rest = [] ∧ s.errors = [] := by
  refine ⟨shaped_stmts p (parse_regular h), rfl, ?_⟩
  obtain ⟨s, hrun, herrors, -⟩ := run_of_parsed h
  obtain ⟨-, hall⟩ := declarations_joined (f := Relabeling.same) (k := []) [] (Nat.le_refl _)
    nofun _ hrun herrors
  exact ⟨s, hrun, (hall (Nat.le_refl _)).1, herrors⟩

/-- `a = b - c - d;` assigns to a variable, and the differences group to the left. -/
theorem parsed_wellShaped_difference :
    ∃ p, (parse 0 [.named "a" 1, mark .equal, .named "b" 1, mark .minus, .named "c" 1, mark .minus,
        .named "d" 1, mark .semicolon]).result = .ok p ∧ everyStmts Moment.WellShaped p := by
  have hp : (parse 0 [.named "a" 1, mark .equal, .named "b" 1, mark .minus, .named "c" 1,
        mark .minus, .named "d" 1, mark .semicolon]).result =
      .ok [.expression (.assign 6 (.named "a" 1)
        (.binary 5
          (.binary 3 (.reference ⟨1, .named "b" 1⟩) (mark .minus) (.reference ⟨2, .named "c" 1⟩))
          (mark .minus) (.reference ⟨4, .named "d" 1⟩)))] := rfl
  exact ⟨_, hp, (parsed_wellShaped 0 _ _ hp).1⟩

end Parser

end ScriptEngine
