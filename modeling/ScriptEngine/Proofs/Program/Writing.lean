import ScriptEngine.Program.Parser
import ScriptEngine.Proofs.Program.Part

/-!
# Writing programs as tokens

The tokens of a program in the one form that is canonical: the body of an arrow function is a block,
its parameters stand in parentheses, and a loop is a `while` loop. Names, operators and keywords
that the tree keeps are written as they are; for everything else there is a token without a line.

A tree can be read back only if it has a form that the grammar gives: `Ranks` says that the operands
of an expression are as tight as the table of levels demands, and `Regular` that the parts of a
statement are of the kinds that may stand there.
-/

namespace ScriptEngine.Writing

/-! ## Tokens -/

/-- How the punctuation and the words that a tree does not keep are spelled. -/
def spelling : TokenKind → String
  | .leftParen => "("
  | .rightParen => ")"
  | .leftBrace => "\x7b"
  | .rightBrace => "\x7d"
  | .leftBracket => "["
  | .rightBracket => "]"
  | .comma => ","
  | .dot => "."
  | .colon => ":"
  | .semicolon => ";"
  | .equal => "="
  | .arrow => "->"
  | .trueWord => "true"
  | .falseWord => "false"
  | .nullWord => "null"
  | .varWord => "var"
  | .printWord => "print"
  | .ifWord => "if"
  | .elseWord => "else"
  | .whileWord => "while"
  | .functionWord => "function"
  | .classWord => "class"
  | .extendsWord => "extends"
  | .fromWord => "from"
  | .importWord => "import"
  | .asWord => "as"
  | .exportWord => "export"
  | .tryWord => "try"
  | .catchWord => "catch"
  | .finallyWord => "finally"
  | _ => ""

/-- A token that is all in its kind and has no place in any source. -/
def mark (kind : TokenKind) : Token :=
  ⟨kind, spelling kind, none, 0⟩

@[simp] theorem mark_kind (kind : TokenKind) : (mark kind).kind = kind := rfl

/-- The token of a constant. The source text of a number or string is not kept in the tree, so the
token has the value alone. -/
def constantToken : Constant → Token
  | .number x => ⟨.number, "", some (.number x), 0⟩
  | .string s => ⟨.string, "", some (.string s), 0⟩
  | .boolean true => mark .trueWord
  | .boolean false => mark .falseWord
  | .null => mark .nullWord

/-- Lists of tokens with commas between them. -/
def separated : List (List Token) → List Token
  | [] => []
  | u :: us => u ++ us.flatMap (mark .comma :: ·)

/-- One imported name with its alias. -/
def itemTokens (item : ImportItem) : List Token :=
  item.name :: (item.alias?.elim [] fun other => [mark .asWord, other])

/-- Tokens between braces. -/
def braced (u : List Token) : List Token :=
  mark .leftBrace :: (u ++ [mark .rightBrace])

/-- Tokens between parentheses. -/
def parenthesized (u : List Token) : List Token :=
  mark .leftParen :: (u ++ [mark .rightParen])

/-- The parameters of a function. -/
def paramTokens (params : List Token) : List Token :=
  parenthesized (separated (params.map ([·])))

mutual

/-- The tokens of an expression. -/
def exprTokens : Expr → List Token
  | .constant _ value => [constantToken value]
  | .reference ref => [ref.name]
  | .assign _ name value => name :: mark .equal :: exprTokens value
  | .binary _ left operator right => exprTokens left ++ operator :: exprTokens right
  | .logical _ left operator right => exprTokens left ++ operator :: exprTokens right
  | .unary _ operator operand => operator :: exprTokens operand
  | .grouping _ inner => parenthesized (exprTokens inner)
  | .call _ callee paren arguments =>
    exprTokens callee ++ mark .leftParen :: (separated (exprsTokens arguments) ++ [paren])
  | .get _ object name => exprTokens object ++ [mark .dot, name]
  | .set _ object name value =>
    exprTokens object ++ [mark .dot, name] ++ mark .equal :: exprTokens value
  | .getItem _ object bracket index =>
    exprTokens object ++ mark .leftBracket :: (exprTokens index ++ [bracket])
  | .setItem _ object index equals value =>
    exprTokens object ++ mark .leftBracket :: (exprTokens index ++ [mark .rightBracket]) ++
      equals :: exprTokens value
  | .self _ keyword => [keyword]
  | .super _ keyword className method =>
    [keyword, mark .leftParen, className, mark .rightParen, mark .dot, method]
  | .array _ elements =>
    mark .leftBracket :: (separated (exprsTokens elements) ++ [mark .rightBracket])
  | .map _ entries => braced (separated (entriesTokens entries))
  | .lambda _ (.mk _ params body _) =>
    paramTokens params ++ mark .arrow :: braced (stmtsTokens body)

/-- The tokens of each of some expressions. -/
def exprsTokens : List Expr → List (List Token)
  | [] => []
  | e :: es => exprTokens e :: exprsTokens es

/-- The tokens of each entry of a map. -/
def entriesTokens : List (Token × Expr) → List (List Token)
  | [] => []
  | (key, e) :: es => (key :: mark .colon :: exprTokens e) :: entriesTokens es

/-- The tokens of an optional expression behind others that stand only if there is one. -/
def expr?Tokens (before : List Token) : Option Expr → List Token
  | none => []
  | some e => before ++ exprTokens e

/-- The tokens of a function from its name on. -/
def declTokens : FunctionDecl → List Token
  | .mk name params body _ => name :: (paramTokens params ++ braced (stmtsTokens body))

/-- The tokens of the methods of a class. -/
def declsTokens : List FunctionDecl → List Token
  | [] => []
  | d :: ds => declTokens d ++ declsTokens ds

/-- The tokens of a statement. -/
def stmtTokens : Stmt → List Token
  | .expression value => exprTokens value ++ [mark .semicolon]
  | .print value => mark .printWord :: (exprTokens value ++ [mark .semicolon])
  | .var name init? =>
    mark .varWord :: name :: (expr?Tokens [mark .equal] init? ++ [mark .semicolon])
  | .block body => braced (stmtsTokens body)
  | .branch condition thenPart elsePart? =>
    mark .ifWord :: (parenthesized (exprTokens condition) ++
      (stmtTokens thenPart ++ stmt?Tokens [mark .elseWord] elsePart?))
  | .loop condition body =>
    mark .whileWord :: (parenthesized (exprTokens condition) ++ stmtTokens body)
  | .function decl => mark .functionWord :: declTokens decl
  | .ret keyword value? => keyword :: (expr?Tokens [] value? ++ [mark .semicolon])
  | .classDecl name superclasses methods =>
    mark .classWord :: name ::
      ((if superclasses.isEmpty then []
        else mark .extendsWord :: separated (superclasses.map ([·.name]))) ++
        braced (declsTokens methods))
  | .importFrom path items =>
    mark .fromWord :: path :: mark .importWord ::
      (separated (items.map itemTokens) ++ [mark .semicolon])
  | .exported inner => mark .exportWord :: stmtTokens inner
  | .throw keyword value => keyword :: (exprTokens value ++ [mark .semicolon])
  | .attempt body param? handler? cleanup? =>
    mark .tryWord :: (braced (stmtsTokens body) ++
      (stmts?Tokens (mark .catchWord :: parenthesized param?.toList) handler? ++
        stmts?Tokens [mark .finallyWord] cleanup?))

/-- The tokens of an optional statement behind others that stand only if there is one. -/
def stmt?Tokens (before : List Token) : Option Stmt → List Token
  | none => []
  | some s => before ++ stmtTokens s

/-- The tokens of some statements. -/
def stmtsTokens : List Stmt → List Token
  | [] => []
  | s :: ss => stmtTokens s ++ stmtsTokens ss

/-- The tokens of an optional block behind others that stand only if there is one. -/
def stmts?Tokens (before : List Token) : Option (List Stmt) → List Token
  | none => []
  | some ss => before ++ braced (stmtsTokens ss)

end

/-! ## Trees that the grammar gives -/

/-- The operators of a level, loosest level first. The last level is that of calls, properties and
indices; the unary level has no operator behind an operand. -/
def operatorsAt : Nat → List TokenKind
  | 0 => [.equal]
  | 1 => [.or]
  | 2 => [.and]
  | 3 => Parser.equalityOperators
  | 4 => Parser.comparisonOperators
  | 5 => Parser.termOperators
  | 6 => Parser.factorOperators
  | 7 => [.caret]
  | 9 => [.leftParen, .dot, .leftBracket]
  | _ => []

/-- The names in a list are names, and there are no more of them than a function may have. -/
def Params (params : List Token) : Prop :=
  params.length ≤ Parser.maxArguments ∧ ∀ t ∈ params, t.kind = .identifier

/-- Statements that may stand in place of a block behind a condition. -/
def Simple : Stmt → Prop
  | .expression _ | .print _ | .ret _ _ | .throw _ _ => True
  | _ => False

/-- Blocks. -/
def Block : Stmt → Prop
  | .block _ => True
  | _ => False

/-- What may stand behind `else`. -/
def Else : Stmt → Prop
  | .block _ | .branch _ _ _ => True
  | _ => False

/-- What may stand behind `export`. -/
def Exportable : Stmt → Prop
  | .classDecl _ _ _ | .function _ | .var _ _ => True
  | _ => False

mutual

/-- An expression may stand where one of the given level is demanded, and so may all its parts. -/
def Ranks : Nat → Expr → Prop
  | _, .constant _ _ => True
  | _, .reference ref => ref.name.kind = .identifier
  | l, .assign _ name value => l = 0 ∧ name.kind = .identifier ∧ Ranks 0 value
  | l, .binary _ left operator right =>
    ∃ i ∈ [3, 4, 5, 6, 7], l ≤ i ∧ operator.kind ∈ operatorsAt i ∧ Ranks i left ∧
      Ranks (i + 1) right
  | l, .logical _ left operator right =>
    ∃ i ∈ [1, 2], l ≤ i ∧ operator.kind ∈ operatorsAt i ∧ Ranks i left ∧ Ranks (i + 1) right
  | l, .unary _ operator operand =>
    l ≤ 8 ∧ operator.kind ∈ [.bang, .minus] ∧ Ranks 8 operand
  | _, .grouping _ inner => Ranks 0 inner
  | l, .call _ callee paren arguments =>
    l ≤ 9 ∧ Ranks 9 callee ∧ paren.kind = .rightParen ∧
      arguments.length ≤ Parser.maxArguments ∧ RanksAll arguments
  | l, .get _ object name => l ≤ 9 ∧ Ranks 9 object ∧ name.kind = .identifier
  | l, .set _ object name value =>
    l = 0 ∧ Ranks 9 object ∧ name.kind = .identifier ∧ Ranks 0 value
  | l, .getItem _ object bracket index =>
    l ≤ 9 ∧ Ranks 9 object ∧ bracket.kind = .rightBracket ∧ Ranks 0 index
  | l, .setItem _ object index equals value =>
    l = 0 ∧ Ranks 9 object ∧ Ranks 0 index ∧ equals.kind = .equal ∧ Ranks 0 value
  | _, .self _ keyword => keyword.kind = .thisWord
  | _, .super _ keyword className method =>
    keyword.kind = .superWord ∧ className.kind = .identifier ∧ method.kind = .identifier
  | _, .array _ elements => RanksAll elements
  | _, .map _ entries => (entries.map (·.1.lexeme)).Nodup ∧ RanksEntries entries
  | _, .lambda _ (.mk name params body anonymous) =>
    name.kind = .identifier ∧ name.lexeme = "anonymous" ∧ name.literal = none ∧
      anonymous = true ∧ Params params ∧ RegularAll body

/-- Every one of some expressions may stand anywhere. -/
def RanksAll : List Expr → Prop
  | [] => True
  | e :: es => Ranks 0 e ∧ RanksAll es

/-- Every entry of a map has a name and a value that may stand anywhere. -/
def RanksEntries : List (Token × Expr) → Prop
  | [] => True
  | (key, e) :: es => key.kind = .identifier ∧ Ranks 0 e ∧ RanksEntries es

/-- An optional expression may stand anywhere. -/
def Ranks? : Option Expr → Prop
  | none => True
  | some e => Ranks 0 e

/-- A function or method as the grammar gives it. -/
def RegularDecl : FunctionDecl → Prop
  | .mk name params body anonymous =>
    name.kind = .identifier ∧ anonymous = false ∧ Params params ∧ RegularAll body

/-- Every one of some methods is as the grammar gives it. -/
def RegularDecls : List FunctionDecl → Prop
  | [] => True
  | d :: ds => RegularDecl d ∧ RegularDecls ds

/-- A statement as the grammar gives it. -/
def Regular : Stmt → Prop
  | .expression value => Ranks 0 value
  | .print value => Ranks 0 value
  | .var name init? => name.kind = .identifier ∧ Ranks? init?
  | .block body => RegularAll body
  | .branch condition thenPart elsePart? =>
    Ranks 0 condition ∧ Regular thenPart ∧ Regular? elsePart? ∧
      (Block thenPart ∧ (∀ s ∈ elsePart?, Else s) ∨ Simple thenPart ∧ elsePart? = none)
  | .loop condition body => Ranks 0 condition ∧ Block body ∧ Regular body
  | .function decl => RegularDecl decl
  | .ret keyword value? => keyword.kind = .returnWord ∧ Ranks? value?
  | .classDecl name superclasses methods =>
    name.kind = .identifier ∧ (∀ ref ∈ superclasses, ref.name.kind = .identifier) ∧
      RegularDecls methods
  | .importFrom path items =>
    path.kind = .string ∧ items ≠ [] ∧
      ∀ item ∈ items, item.name.kind = .identifier ∧ ∀ other ∈ item.alias?, other.kind = .identifier
  | .exported inner => Exportable inner ∧ Regular inner
  | .throw keyword value => keyword.kind = .throwWord ∧ Ranks 0 value
  | .attempt body param? handler? cleanup? =>
    RegularAll body ∧ RegularAll? handler? ∧ RegularAll? cleanup? ∧
      (∀ t ∈ param?, t.kind = .identifier ∧ handler?.isSome) ∧ (handler?.isSome ∨ cleanup?.isSome)

/-- An optional statement as the grammar gives it. -/
def Regular? : Option Stmt → Prop
  | none => True
  | some s => Regular s

/-- Every one of some statements is as the grammar gives it. -/
def RegularAll : List Stmt → Prop
  | [] => True
  | s :: ss => Regular s ∧ RegularAll ss

/-- Every statement of an optional block is as the grammar gives it. -/
def RegularAll? : Option (List Stmt) → Prop
  | none => True
  | some ss => RegularAll ss

end

/-- All of a list is ranked if each expression stands where any expression may. -/
theorem ranksAll_iff {es : List Expr} : RanksAll es ↔ ∀ e ∈ es, Ranks 0 e := by
  induction es with
  | nil => simp [RanksAll]
  | cons e es ih => rw [RanksAll, ih, List.forall_mem_cons]

/-- Entries are ranked if each has an identifier and a ranked value. -/
theorem ranksEntries_iff {es : List (Token × Expr)} :
    RanksEntries es ↔ ∀ e ∈ es, e.1.kind = .identifier ∧ Ranks 0 e.2 := by
  induction es with
  | nil => simp [RanksEntries]
  | cons e es ih => rw [RanksEntries, ih, List.forall_mem_cons, and_assoc]

/-- A list of statements is regular if each of them is. -/
theorem regularAll_iff {ss : List Stmt} : RegularAll ss ↔ ∀ s ∈ ss, Regular s := by
  induction ss with
  | nil => simp [RegularAll]
  | cons s ss ih => rw [RegularAll, ih, List.forall_mem_cons]

/-- A list of declarations is regular if each of them is. -/
theorem regularDecls_iff {ds : List FunctionDecl} :
    RegularDecls ds ↔ ∀ d ∈ ds, RegularDecl d := by
  induction ds with
  | nil => simp [RegularDecls]
  | cons d ds ih => rw [RegularDecls, ih, List.forall_mem_cons]

/-! ## The end of the source

The tokens of a tree that the grammar gives never say that the source ends. -/

/-- None of the tokens ends the source. -/
def Solid (u : List Token) : Prop := ∀ t ∈ u, t.kind ≠ .eof

section Solid

variable {u v : List Token} {us : List (List Token)} {t : Token} {kind : TokenKind}

@[simp] theorem solid_nil : Solid [] := List.forall_mem_nil _

/-- Tokens are solid if the first is not the end and the others are solid. -/
@[simp] theorem solid_cons : Solid (t :: u) ↔ t.kind ≠ .eof ∧ Solid u := List.forall_mem_cons

/-- Tokens are solid one behind the other if both parts are. -/
@[simp] theorem solid_append : Solid (u ++ v) ↔ Solid u ∧ Solid v := List.forall_mem_append

/-- A token of any kind but the end is not the end. -/
theorem ne_eof_of_kind (h : t.kind = kind) (hkind : kind ≠ .eof) : t.kind ≠ .eof := h ▸ hkind

/-- Commas between solid parts leave them solid. -/
theorem solid_separated (h : ∀ u ∈ us, Solid u) : Solid (separated us) := by
  have hcommas : ∀ us : List (List Token), (∀ u ∈ us, Solid u) →
      Solid (us.flatMap (mark .comma :: ·)) := by
    intro us hus t ht
    obtain ⟨u, hu, ht⟩ := List.mem_flatMap.mp ht
    exact solid_cons.mpr ⟨by decide, hus u hu⟩ t ht
  cases us with
  | nil => exact solid_nil
  | cons u us =>
    obtain ⟨hu, hus⟩ := List.forall_mem_cons.mp h
    exact solid_append.mpr ⟨hu, hcommas us hus⟩

theorem solid_braced (h : Solid u) : Solid (braced u) := by
  simp [braced, h]

theorem solid_parenthesized (h : Solid u) : Solid (parenthesized u) := by
  simp [parenthesized, h]

/-- Names with commas between them are solid. -/
theorem solid_names {params : List Token} (h : ∀ t ∈ params, t.kind = .identifier) :
    Solid (separated (params.map ([·]))) := by
  refine solid_separated fun u hu => ?_
  obtain ⟨t, ht, rfl⟩ := List.mem_map.mp hu
  simp [h t ht]

theorem solid_params {params : List Token} (h : Params params) : Solid (paramTokens params) :=
  solid_parenthesized (solid_names h.2)

theorem solid_item {item : ImportItem} (hname : item.name.kind = .identifier)
    (halias : ∀ other ∈ item.alias?, other.kind = .identifier) : Solid (itemTokens item) := by
  cases h : item.alias? with
  | none => simp [itemTokens, h, hname]
  | some other => simp [itemTokens, h, hname, halias other h]

/-- No operator is the end of the source. -/
theorem ne_eof_of_operator {i : Nat} (h : t.kind ∈ operatorsAt i) : t.kind ≠ .eof := by
  intro heof
  rw [heof] at h
  unfold operatorsAt at h
  split at h <;> revert h <;> decide

end Solid

mutual

/-- The tokens of an expression do not contain the end of the source. -/
theorem solid_expr : ∀ (l : Nat) (e : Expr), Ranks l e → Solid (exprTokens e)
  | _, .constant _ (.number _), _ => by simp [exprTokens, constantToken]
  | _, .constant _ (.string _), _ => by simp [exprTokens, constantToken]
  | _, .constant _ (.boolean true), _ => by simp [exprTokens, constantToken]
  | _, .constant _ (.boolean false), _ => by simp [exprTokens, constantToken]
  | _, .constant _ .null, _ => by simp [exprTokens, constantToken]
  | _, .reference _, h => solid_cons.mpr ⟨ne_eof_of_kind h (by decide), solid_nil⟩
  | _, .assign _ _ value, ⟨_, hname, hvalue⟩ => by
    simp [exprTokens, hname, solid_expr 0 value hvalue]
  | _, .binary _ left _ right, ⟨i, _, _, hoperator, hleft, hright⟩ => by
    simp [exprTokens, ne_eof_of_operator hoperator, solid_expr i left hleft,
      solid_expr (i + 1) right hright]
  | _, .logical _ left _ right, ⟨i, _, _, hoperator, hleft, hright⟩ => by
    simp [exprTokens, ne_eof_of_operator hoperator, solid_expr i left hleft,
      solid_expr (i + 1) right hright]
  | _, .unary _ _ operand, ⟨_, hoperator, hoperand⟩ => by
    have hkind := List.mem_cons.mp hoperator
    rcases hkind with hkind | hkind
    · simp [exprTokens, hkind, solid_expr 8 operand hoperand]
    · simp [exprTokens, List.mem_singleton.mp hkind, solid_expr 8 operand hoperand]
  | _, .grouping _ inner, h => solid_parenthesized (solid_expr 0 inner h)
  | _, .call _ callee _ arguments, ⟨_, hcallee, hparen, _, harguments⟩ => by
    simp [exprTokens, hparen, solid_expr 9 callee hcallee,
      solid_separated (solid_exprs arguments harguments)]
  | _, .get _ object _, ⟨_, hobject, hname⟩ => by
    simp [exprTokens, hname, solid_expr 9 object hobject]
  | _, .set _ object _ value, ⟨_, hobject, hname, hvalue⟩ => by
    simp [exprTokens, hname, solid_expr 9 object hobject, solid_expr 0 value hvalue]
  | _, .getItem _ object _ index, ⟨_, hobject, hbracket, hindex⟩ => by
    simp [exprTokens, hbracket, solid_expr 9 object hobject, solid_expr 0 index hindex]
  | _, .setItem _ object index _ value, ⟨_, hobject, hindex, hequals, hvalue⟩ => by
    simp [exprTokens, hequals, solid_expr 9 object hobject, solid_expr 0 index hindex,
      solid_expr 0 value hvalue]
  | _, .self _ _, h => solid_cons.mpr ⟨ne_eof_of_kind h (by decide), solid_nil⟩
  | _, .super _ _ _ _, ⟨hkeyword, hclass, hmethod⟩ => by
    simp [exprTokens, hkeyword, hclass, hmethod]
  | _, .array _ elements, h => by
    simp [exprTokens, solid_separated (solid_exprs elements h)]
  | _, .map _ entries, ⟨_, h⟩ => solid_braced (solid_separated (solid_entries entries h))
  | _, .lambda _ (.mk _ _ body _), ⟨_, _, _, _, hparams, hbody⟩ => by
    simp [exprTokens, solid_params hparams, solid_braced (solid_stmts body hbody)]

theorem solid_exprs : ∀ es : List Expr, RanksAll es → ∀ u ∈ exprsTokens es, Solid u
  | [], _ => List.forall_mem_nil _
  | e :: es, h => List.forall_mem_cons.mpr ⟨solid_expr 0 e h.1, solid_exprs es h.2⟩

theorem solid_entries : ∀ es : List (Token × Expr), RanksEntries es →
    ∀ u ∈ entriesTokens es, Solid u
  | [], _ => List.forall_mem_nil _
  | (_, e) :: es, h => List.forall_mem_cons.mpr
    ⟨by simp [h.1, solid_expr 0 e h.2.1], solid_entries es h.2.2⟩

theorem solid_expr? : ∀ (before : List Token) (e? : Option Expr), Solid before → Ranks? e? →
    Solid (expr?Tokens before e?)
  | _, none, _, _ => solid_nil
  | _, some e, hbefore, h => solid_append.mpr ⟨hbefore, solid_expr 0 e h⟩

theorem solid_decls : ∀ ds : List FunctionDecl, RegularDecls ds → Solid (declsTokens ds)
  | [], _ => solid_nil
  | .mk _ _ body _ :: ds, ⟨⟨hname, _, hparams, hbody⟩, hds⟩ => by
    simp [declsTokens, declTokens, hname, solid_params hparams,
      solid_braced (solid_stmts body hbody), solid_decls ds hds]

/-- The tokens of a statement do not contain the end of the source. -/
theorem solid_stmt : ∀ s : Stmt, Regular s → Solid (stmtTokens s)
  | .expression value, h => by simp [stmtTokens, solid_expr 0 value h]
  | .print value, h => by simp [stmtTokens, solid_expr 0 value h]
  | .var _ init?, h => by
    simp [stmtTokens, h.1, solid_expr? [mark .equal] init? (by simp) h.2]
  | .block body, h => solid_braced (solid_stmts body h)
  | .branch condition thenPart elsePart?, h => by
    simp [stmtTokens, solid_parenthesized (solid_expr 0 condition h.1),
      solid_stmt thenPart h.2.1, solid_stmt? elsePart? h.2.2.1]
  | .loop condition body, h => by
    simp [stmtTokens, solid_parenthesized (solid_expr 0 condition h.1), solid_stmt body h.2.2]
  | .function (.mk _ _ body _), ⟨hname, _, hparams, hbody⟩ => by
    simp [stmtTokens, declTokens, hname, solid_params hparams,
      solid_braced (solid_stmts body hbody)]
  | .ret _ value?, h => by
    simp [stmtTokens, h.1, solid_expr? [] value? solid_nil h.2]
  | .classDecl _ superclasses methods, ⟨hname, hsuperclasses, hmethods⟩ => by
    have hnames : Solid (separated (superclasses.map ([·.name]))) := by
      refine solid_separated fun u hu => ?_
      obtain ⟨ref, href, rfl⟩ := List.mem_map.mp hu
      simp [hsuperclasses ref href]
    have hbody := solid_braced (solid_decls methods hmethods)
    cases hempty : superclasses.isEmpty with
    | true => simp [stmtTokens, hname, hempty, hbody]
    | false => simp [stmtTokens, hname, hempty, hbody, hnames]
  | .importFrom _ items, ⟨hpath, _, hitems⟩ => by
    have hnames : Solid (separated (items.map itemTokens)) := by
      refine solid_separated fun u hu => ?_
      obtain ⟨item, hitem, rfl⟩ := List.mem_map.mp hu
      exact solid_item (hitems item hitem).1 (hitems item hitem).2
    simp [stmtTokens, hpath, hnames]
  | .exported inner, h => by simp [stmtTokens, solid_stmt inner h.2]
  | .throw _ value, h => by simp [stmtTokens, h.1, solid_expr 0 value h.2]
  | .attempt body param? handler? cleanup?, ⟨hbody, hhandler, hcleanup, hparam, _⟩ => by
    have hbefore : Solid (mark .catchWord :: parenthesized param?.toList) := by
      refine solid_cons.mpr ⟨by decide, solid_parenthesized fun t ht => ?_⟩
      exact ne_eof_of_kind (hparam t (Option.mem_toList.mp ht)).1 (by decide)
    simp [stmtTokens, solid_braced (solid_stmts body hbody),
      solid_stmts? _ handler? hbefore hhandler, solid_stmts? [mark .finallyWord] cleanup? (by simp)
        hcleanup]

theorem solid_stmt? : ∀ s? : Option Stmt, Regular? s? → Solid (stmt?Tokens [mark .elseWord] s?)
  | none, _ => solid_nil
  | some s, h => by simp [stmt?Tokens, solid_stmt s h]

theorem solid_stmts : ∀ ss : List Stmt, RegularAll ss → Solid (stmtsTokens ss)
  | [], _ => solid_nil
  | s :: ss, h => solid_append.mpr ⟨solid_stmt s h.1, solid_stmts ss h.2⟩

theorem solid_stmts? : ∀ (before : List Token) (ss? : Option (List Stmt)), Solid before →
    RegularAll? ss? → Solid (stmts?Tokens before ss?)
  | _, none, _, _ => solid_nil
  | _, some ss, hbefore, h => solid_append.mpr ⟨hbefore, solid_braced (solid_stmts ss h)⟩

end

/-- No expression statement begins with a brace: it would be read as a block. -/
def Unbraced : Moment → Prop
  | .executing (.expression value) => ∀ t ∈ (exprTokens value).head?, t.kind ≠ .leftBrace
  | _ => True

end ScriptEngine.Writing
