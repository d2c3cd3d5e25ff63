import ScriptEngine.Proofs.Program.Readable

/-!
# Programs are read back

Statements are read back from their tokens, and with them the bodies of functions. A statement is
read back behind the word by which it is known (`ReadableStmt`), so that the same lemma serves for a
conditional of its own and for one behind `else`. Expressions and statements refer to each other, so
the last step goes over both at once (`readable_expr`, `readable_stmt`).
-/

namespace ScriptEngine.Parser

open Writing Relabeling

variable {c d l : Nat} {n n' : ExprId} {e condition value : Expr} {s : Stmt} {body : List Stmt}

/-! ## Bodies -/

/-- The statements of a block can be read back one after the other. -/
structure ReadableBody (ss : List Stmt) : Prop where
  head : ∀ t ∈ (stmtsTokens ss).head?,
    t.kind ∉ [.elseWord, .catchWord, .finallyWord, .rightBrace]
  reads : ∀ n, ∃ ss' n', blank.stmts ss' = blank.stmts ss ∧
    ∀ d inBlock bound done, (stmtsTokens ss).length ≤ bound →
      Reads (d + 1) (declarationsUpTo (grammar d) inBlock bound done) (Closes inBlock)
        (stmtsTokens ss) n (done.reverse ++ ss') n'

/-- A readable body is read as a block, up to the numbers. -/
theorem ReadableBody.block (h : ReadableBody body) (n : ExprId) :
    ∃ body' n', blank.stmts body' = blank.stmts body ∧ ∀ d, Reads d (grammar d).block anything
      (stmtsTokens body ++ [mark .rightBrace]) n body' n' := by
  obtain ⟨body', n', hsame, hreads⟩ := h.reads n
  refine ⟨body', n', hsame, fun d => ?_⟩
  cases d with
  | zero =>
    refine ⟨fun hlen => ?_⟩
    simp at hlen
  | succ d => exact reads_block fun bound hbound => hreads d true bound [] hbound

/-- An anonymous function with a readable body is readable. -/
theorem Readable.lambda {id : ExprId} {name : Token} {params : List Token}
    (hname : name.kind = .identifier ∧ name.lexeme = "anonymous" ∧ name.literal = none)
    (hparams : Params params) (hbody : ReadableBody body) :
    Readable 10 (.lambda id (.mk name params body true)) := by
  refine .primary .leftParen (by decide) nofun (mark_kind _) rfl fun n => ?_
  obtain ⟨body', n', hsame, hreads⟩ := hbody.block n
  refine ⟨_, _, ?_, fun d => reads_lambda hparams (hreads d)⟩
  have htoken : blank.token (Token.named "anonymous" 0) = blank.token name :=
    blank_token hname.1.symm hname.2.1.symm hname.2.2.symm
  rw [Relabeling.expr, Relabeling.expr, Relabeling.decl, Relabeling.decl, hsame, htoken]
  rfl

/-- A function or method can be read back from its name on. -/
structure ReadableDecl (decl : FunctionDecl) : Prop where
  first : ∃ t u, declTokens decl = t :: u ∧ t.kind = .identifier
  reads : ∀ n, ∃ decl' n', blank.decl decl' = blank.decl decl ∧ ∀ d what stop,
    Reads d (functionDeclaration (grammar d) what) stop (declTokens decl) n decl' n'

/-- A function with a readable body is a readable declaration. -/
theorem ReadableDecl.of_body {name : Token} {params : List Token} (hname : name.kind = .identifier)
    (hparams : Params params) (h : ReadableBody body) :
    ReadableDecl (.mk name params body false) := by
  refine ⟨⟨name, _, rfl, hname⟩, fun n => ?_⟩
  obtain ⟨body', n', hsame, hreads⟩ := h.block n
  refine ⟨.mk name params body' false, n', ?_, fun d what stop =>
    reads_function hname hparams (hreads d)⟩
  rw [Relabeling.decl, Relabeling.decl, hsame]

/-! ## Statements -/

/-- A statement can be read back: behind the token by which it is known, or as an expression that
does not begin like a block. -/
inductive ReadableStmt (s : Stmt) : Prop where
  | opened (hs : Opened s) (u : List Token) (htokens : stmtTokens s = opener s :: u)
      (reads : ∀ n, ∃ s' n', blank.stmt s' = blank.stmt s ∧ ∀ d bound, u.length ≤ bound →
        Reads d (behind (grammar d) bound s) Apart u n s' n')
  | plain (hs : ¬ Opened s) (t : Token) (u : List Token) (htokens : stmtTokens s = t :: u)
      (hstart : t.kind ∈ starters) (hbrace : t.kind ≠ .leftBrace)
      (reads : ∀ n, ∃ s' n', blank.stmt s' = blank.stmt s ∧ ∀ d,
        Reads (d + 1) (expressionStatement (grammar d)) Apart (t :: u) n s' n')

namespace ReadableStmt

/-- A readable statement is read as a declaration, up to the numbers. -/
theorem declaration (h : ReadableStmt s) (hs : Regular s) (n : ExprId) :
    ∃ s' n', blank.stmt s' = blank.stmt s ∧
      ∀ d, Reads (d + 1) (Parser.declaration (grammar d)) Apart (stmtTokens s) n s' n' := by
  cases h with
  | opened hopened u htokens reads =>
    obtain ⟨s', n', hsame, hreads⟩ := reads n
    refine ⟨s', n', hsame, fun d => ?_⟩
    rw [htokens]
    exact reads_opened hs hopened (hreads d)
  | plain _ t u htokens hstart hbrace reads =>
    obtain ⟨s', n', hsame, hreads⟩ := reads n
    refine ⟨s', n', hsame, fun d => ?_⟩
    rw [htokens]
    exact reads_unopened (hreads d) hstart hbrace

/-- A statement with an opening keyword continues none before it. -/
theorem opener_kind (hs : Regular s) (hopened : Opened s) :
    (opener s).kind ∉ [.elseWord, .catchWord, .finallyWord, .rightBrace] := by
  cases s with
  | expression e => exact hopened.elim
  | ret keyword value? => rw [opener, hs.1]; decide
  | throw keyword value => rw [opener, hs.1]; decide
  | _ => rw [opener, mark_kind]; decide

/-- No statement begins with a token that goes on with the one before it or closes its block. -/
theorem first (h : ReadableStmt s) (hs : Regular s) :
    ∃ t u, stmtTokens s = t :: u ∧
      t.kind ∉ [.elseWord, .catchWord, .finallyWord, .rightBrace] := by
  cases h with
  | opened hopened u htokens reads => exact ⟨_, u, htokens, opener_kind hs hopened⟩
  | plain _ t u htokens hstart hbrace reads =>
    refine ⟨t, u, htokens, fun hmem => ?_⟩
    have hall : ∀ kind ∈ starters, kind ∉ [.elseWord, .catchWord, .finallyWord, .rightBrace] := by
      decide
    exact hall t.kind hstart hmem

/-- A statement in place of a block. -/
theorem simple (h : ReadableStmt s) (hs : Regular s) (hsimple : Simple s) (n : ExprId) :
    ∃ t u s' n', stmtTokens s = t :: u ∧ t.kind ≠ .leftBrace ∧ blank.stmt s' = blank.stmt s ∧
      ∀ d, Reads d (simpleStatement (grammar d)) Apart (t :: u) n s' n' := by
  cases h with
  | opened hopened u htokens reads =>
    obtain ⟨s', n', hsame, hreads⟩ := reads n
    refine ⟨_, u, s', n', htokens, ?_, hsame, fun d => reads_simple hs hopened hsimple (hreads d)⟩
    cases s with
    | print value => simp [opener]
    | ret keyword value? => rw [opener, hs.1]; decide
    | throw keyword value => rw [opener, hs.1]; decide
    | expression e => exact hopened.elim
    | _ => exact hsimple.elim
  | plain _ t u htokens hstart hbrace reads =>
    obtain ⟨s', n', hsame, hreads⟩ := reads n
    refine ⟨t, u, s', n', htokens, hbrace, hsame, fun d => ?_⟩
    exact (reads_simple_unopened (hreads d) hstart).mono (Nat.le_succ d)

/-- A readable expression that begins with no brace is a readable statement. -/
theorem expression (h : Readable 0 value)
    (hbrace : ∀ t ∈ (exprTokens value).head?, t.kind ≠ .leftBrace) :
    ReadableStmt (.expression value) := by
  have hbegins := h.begins
  have htokens : stmtTokens (.expression value) = exprTokens value ++ [mark .semicolon] := rfl
  cases hu : exprTokens value with
  | nil => exact absurd hu hbegins.ne_nil
  | cons t u =>
    rw [hu] at hbegins hbrace htokens
    refine .plain id t _ htokens hbegins.1 (hbrace t rfl) fun n => ?_
    obtain ⟨value', n', hsame, hreads⟩ := h.nested n
    rw [hu] at hreads
    refine ⟨.expression value', n', ?_, fun d => reads_expression (hreads d)⟩
    rw [Relabeling.stmt, Relabeling.stmt, hsame]

/-- A print of a readable expression is readable. -/
theorem print (h : Readable 0 value) : ReadableStmt (.print value) := by
  refine .opened trivial _ rfl fun n => ?_
  obtain ⟨value', n', hsame, hreads⟩ := h.nested n
  refine ⟨.print value', n', ?_, fun d _ _ => reads_print (hreads d)⟩
  rw [Relabeling.stmt, Relabeling.stmt, hsame]

/-- A throw of a readable expression is readable. -/
theorem throw {keyword : Token} (h : Readable 0 value) : ReadableStmt (.throw keyword value) := by
  refine .opened trivial _ rfl fun n => ?_
  obtain ⟨value', n', hsame, hreads⟩ := h.nested n
  refine ⟨.throw keyword value', n', ?_, fun d _ _ => reads_throw (hreads d)⟩
  rw [Relabeling.stmt, Relabeling.stmt, hsame]

/-- A return is readable if its value is, when it has one. -/
theorem ret {keyword : Token} {value? : Option Expr} (h : ∀ value ∈ value?, Readable 0 value) :
    ReadableStmt (.ret keyword value?) := by
  refine .opened trivial _ rfl fun n => ?_
  cases value? with
  | none => exact ⟨.ret keyword none, n, rfl, fun d _ _ => reads_return_none⟩
  | some value =>
    have hvalue := h value rfl
    obtain ⟨value', n', hsame, hreads⟩ := hvalue.nested n
    refine ⟨.ret keyword (some value'), n', ?_, fun d _ _ =>
      reads_return_some (hreads d) hvalue.begins⟩
    rw [Relabeling.stmt, Relabeling.stmt, Relabeling.expr?, Relabeling.expr?, hsame]

/-- A declaration of a variable is readable if its value is, when it has one. -/
theorem var {name : Token} {init? : Option Expr} (hname : name.kind = .identifier)
    (h : ∀ init ∈ init?, Readable 0 init) : ReadableStmt (.var name init?) := by
  refine .opened trivial _ rfl fun n => ?_
  cases init? with
  | none => exact ⟨.var name none, n, rfl, fun d _ _ => reads_var_none hname⟩
  | some init =>
    obtain ⟨init', n', hsame, hreads⟩ := (h init rfl).nested n
    refine ⟨.var name (some init'), n', ?_, fun d _ _ => reads_var_some hname (hreads d)⟩
    rw [Relabeling.stmt, Relabeling.stmt, Relabeling.expr?, Relabeling.expr?, hsame]

/-- A block with a readable body is readable. -/
theorem block (h : ReadableBody body) : ReadableStmt (.block body) := by
  refine .opened trivial _ rfl fun n => ?_
  obtain ⟨body', n', hsame, hreads⟩ := h.block n
  refine ⟨.block body', n', ?_, fun d _ _ => ((hreads d).stops fun _ _ => trivial).map⟩
  rw [Relabeling.stmt, Relabeling.stmt, hsame]

theorem loop (hcondition : Readable 0 condition) (h : ReadableBody body) :
    ReadableStmt (.loop condition (.block body)) := by
  refine .opened trivial _ rfl fun n => ?_
  obtain ⟨condition', n₁, hsame, hreads⟩ := hcondition.nested n
  obtain ⟨body', n', hsame', hreads'⟩ := h.block n₁
  refine ⟨.loop condition' (.block body'), n', ?_, fun d _ _ => reads_while (hreads d) (hreads' d)⟩
  simp only [Relabeling.stmt, hsame, hsame']

/-- A declaration of a function with a readable body is readable. -/
theorem function {name : Token} {params : List Token} (hname : name.kind = .identifier)
    (hparams : Params params) (h : ReadableBody body) :
    ReadableStmt (.function (.mk name params body false)) := by
  refine .opened trivial _ rfl fun n => ?_
  obtain ⟨decl, n', hsame, hreads⟩ := (ReadableDecl.of_body hname hparams h).reads n
  refine ⟨.function decl, n', ?_, fun d _ _ => (hreads d "function" Apart).map⟩
  rw [Relabeling.stmt, Relabeling.stmt, hsame]

/-- Every well-formed import is readable. -/
theorem importFrom {path : Token} {items : List ImportItem}
    (hs : Regular (.importFrom path items)) :
    ReadableStmt (.importFrom path items) :=
  .opened trivial _ rfl fun n =>
    ⟨.importFrom path items, n, rfl, fun _ _ _ => reads_import hs.1 hs.2.1 hs.2.2⟩

/-- An export of a readable declaration is readable. -/
theorem exported (hs : Exportable s) (h : ReadableStmt s) : ReadableStmt (.exported s) := by
  cases h with
  | opened hopened u htokens reads =>
    refine .opened trivial (opener s :: u) (congrArg _ htokens) fun n => ?_
    obtain ⟨s', n', hsame, hreads⟩ := reads n
    refine ⟨.exported s', n', ?_, fun d _ _ => reads_exported hs (hreads d)⟩
    rw [Relabeling.stmt, Relabeling.stmt, hsame]
  | plain hplain t u htokens hstart hbrace reads =>
    -- Only an expression is read this way, and none can be exported.
    refine absurd ?_ hplain
    cases s with
    | expression e => exact hs.elim
    | _ => trivial

/-! ### Conditionals -/

/-- A conditional without another branch is readable. -/
theorem branch_none (hcondition : Readable 0 condition) (h : ReadableBody body) :
    ReadableStmt (.branch condition (.block body) none) := by
  refine .opened trivial _ rfl fun n => ?_
  obtain ⟨condition', n₁, hsame, hreads⟩ := hcondition.nested n
  obtain ⟨body', n', hsame', hreads'⟩ := h.block n₁
  refine ⟨.branch condition' (.block body') none, n', ?_, fun d bound hbound => ?_⟩
  · simp only [Relabeling.stmt, Relabeling.stmt?, hsame, hsame']
  · obtain ⟨bound, rfl, -⟩ := succ_of_cons_length_le hbound
    exact reads_branch_none (hreads d) (hreads' d)

/-- A conditional with two blocks is readable. -/
theorem branch_block {other : List Stmt} (hcondition : Readable 0 condition)
    (h : ReadableBody body) (hother : ReadableBody other) :
    ReadableStmt (.branch condition (.block body) (some (.block other))) := by
  refine .opened trivial _ rfl fun n => ?_
  obtain ⟨condition', n₁, hsame, hreads⟩ := hcondition.nested n
  obtain ⟨body', n₂, hsame', hreads'⟩ := h.block n₁
  obtain ⟨other', n', hsame'', hreads''⟩ := hother.block n₂
  refine ⟨.branch condition' (.block body') (some (.block other')), n', ?_,
    fun d bound hbound => ?_⟩
  · simp only [Relabeling.stmt, Relabeling.stmt?, hsame, hsame', hsame'']
  · obtain ⟨bound, rfl, -⟩ := succ_of_cons_length_le hbound
    exact reads_branch_block (hreads d) (hreads' d) (hreads'' d)

/-- A conditional that goes on with a readable one is readable. -/
theorem branch_branch {condition₁ : Expr} {thenPart : Stmt} {elsePart? : Option Stmt}
    (hcondition : Readable 0 condition) (h : ReadableBody body)
    (helse : ReadableStmt (.branch condition₁ thenPart elsePart?)) :
    ReadableStmt
      (.branch condition (.block body) (some (.branch condition₁ thenPart elsePart?))) := by
  cases helse with
  | opened _ u htokens reads =>
    refine .opened trivial (parenthesized (exprTokens condition) ++
      (braced (stmtsTokens body) ++ mark .elseWord :: mark .ifWord :: u)) ?_ fun n => ?_
    · show mark .ifWord :: (parenthesized (exprTokens condition) ++ (braced (stmtsTokens body) ++
        mark .elseWord :: stmtTokens (.branch condition₁ thenPart elsePart?))) = _
      rw [htokens]
      rfl
    · obtain ⟨condition', n₁, hsame, hreads⟩ := hcondition.nested n
      obtain ⟨body', n₂, hsame', hreads'⟩ := h.block n₁
      obtain ⟨other', n', hsame'', hreads''⟩ := reads n₂
      refine ⟨.branch condition' (.block body') (some other'), n', ?_, fun d bound hbound => ?_⟩
      · show Stmt.branch (blank.expr condition') (.block (blank.stmts body'))
          (some (blank.stmt other')) = _
        rw [hsame, hsame', hsame'']
        rfl
      · obtain ⟨bound, rfl, -⟩ := succ_of_cons_length_le hbound
        have hu : u.length ≤ bound := by
          simp only [parenthesized, braced, List.length_append, List.length_cons] at hbound
          omega
        exact reads_branch_branch (hreads d) (hreads' d) (hreads'' d bound hu)
  | plain hplain => exact absurd trivial hplain

/-- A conditional with a simple statement for its branch is readable. -/
theorem branch_simple {thenPart : Stmt} (hcondition : Readable 0 condition)
    (h : ReadableStmt thenPart) (hregular : Regular thenPart) (hsimple : Simple thenPart) :
    ReadableStmt (.branch condition thenPart none) := by
  refine .opened trivial (parenthesized (exprTokens condition) ++ stmtTokens thenPart) ?_
    fun n => ?_
  · show mark .ifWord :: (parenthesized (exprTokens condition) ++ (stmtTokens thenPart ++ [])) = _
    rw [List.append_nil]
    rfl
  · obtain ⟨condition', n₁, hsame, hreads⟩ := hcondition.nested n
    obtain ⟨t, u, thenPart', n', htokens, hbrace, hsame', hreads'⟩ := h.simple hregular hsimple n₁
    refine ⟨.branch condition' thenPart' none, n', ?_, fun d bound hbound => ?_⟩
    · rw [Relabeling.stmt, Relabeling.stmt, hsame, hsame']
    · obtain ⟨bound, rfl, -⟩ := succ_of_cons_length_le hbound
      rw [htokens]
      exact reads_branch_simple (hreads d) (hreads' d) hbrace

/-! ### Classes -/

/-- The superclasses are read one by one, up to the numbers. -/
theorem superclasses_each {refs : List Reference} (href : ∀ ref ∈ refs, ref.name.kind = .identifier)
    (i : Nat) (n : ExprId) :
    ∃ refs' n', refs'.map blank.reference = refs.map blank.reference ∧
      ∀ d, ReadsEach d (fun _ => superclass) anything i (refs.map ([·.name])) n refs' n' := by
  induction refs generalizing i n with
  | nil => exact ⟨[], n, rfl, fun d => .nil i n⟩
  | cons ref refs ih =>
    obtain ⟨refs', n', hsame, hreads⟩ :=
      ih (fun x hx => href x (List.mem_cons_of_mem ref hx)) (i + 1) (n + 1)
    refine ⟨⟨n, ref.name⟩ :: refs', n', ?_, fun d =>
      .cons (reads_superclass (href ref List.mem_cons_self)) (hreads d)⟩
    rw [List.map_cons, List.map_cons, hsame]
    rfl

/-- The methods of a class are read one by one, up to the numbers. -/
theorem methods_reads {decls : List FunctionDecl} (h : ∀ decl ∈ decls, ReadableDecl decl)
    (n : ExprId) :
    ∃ decls' n', blank.decls decls' = blank.decls decls ∧
      ∀ d bound done, (declsTokens decls).length ≤ bound →
        Reads d (methodsUpTo (grammar d) bound done) (fun k => ∀ t ∈ k.head?, t.kind = .rightBrace)
          (declsTokens decls) n (done.reverse ++ decls') n' := by
  induction decls generalizing n with
  | nil =>
    refine ⟨[], n, rfl, fun d bound done _ => ?_⟩
    rw [List.append_nil]
    exact reads_methods_nil
  | cons decl decls ih =>
    obtain ⟨⟨t, u, htokens, ht⟩, reads⟩ := h decl List.mem_cons_self
    obtain ⟨decl', n₁, hsame, hreads⟩ := reads n
    obtain ⟨decls', n', hsames, hothers⟩ := ih (fun x hx => h x (List.mem_cons_of_mem decl hx)) n₁
    refine ⟨decl' :: decls', n', ?_, fun d bound done hbound => ?_⟩
    · rw [Relabeling.decls, Relabeling.decls, hsame, hsames]
    · have hdecl := hreads d "method" anything
      have hall : declsTokens (decl :: decls) = t :: u ++ declsTokens decls := by
        rw [declsTokens, htokens]
      rw [htokens] at hdecl
      rw [hall] at hbound ⊢
      refine reads_methods_cons hdecl (by rw [ht]; decide) hbound fun bound hbound => ?_
      have hrest := hothers d bound (decl' :: done) hbound
      rwa [List.reverse_cons, List.append_assoc] at hrest

/-- A class with readable methods is readable. -/
theorem classDecl {name : Token} {superclasses : List Reference} {methods : List FunctionDecl}
    (hname : name.kind = .identifier) (href : ∀ ref ∈ superclasses, ref.name.kind = .identifier)
    (h : ∀ decl ∈ methods, ReadableDecl decl) :
    ReadableStmt (.classDecl name superclasses methods) := by
  refine .opened trivial _ rfl fun n => ?_
  obtain ⟨refs', n₁, hsame, hreads⟩ := superclasses_each href 0 n
  obtain ⟨methods', n', hsame', hreads'⟩ := methods_reads h n₁
  refine ⟨.classDecl name refs' methods', n', ?_, fun d _ _ =>
    reads_class hname ?_ fun bound hbound => hreads' d bound [] hbound⟩
  · rw [Relabeling.stmt, Relabeling.stmt, hsame, hsame']
  · by_cases hne : superclasses = []
    · subst hne
      have hread := hreads d
      cases hread
      exact .inl ⟨rfl, rfl, rfl⟩
    · refine .inr ⟨_, by simpa using hne, ?_, hreads d⟩
      rw [if_neg (by simpa using hne)]

/-! ### Try statements -/

/-- A try statement with readable blocks is readable. -/
theorem attempt {param? : Option Token} {handler? cleanup? : Option (List Stmt)}
    (h : ReadableBody body) (hhandler : ∀ ss ∈ handler?, ReadableBody ss)
    (hcleanup : ∀ ss ∈ cleanup?, ReadableBody ss)
    (hparam : ∀ t ∈ param?, t.kind = .identifier ∧ handler?.isSome)
    (hsome : handler?.isSome ∨ cleanup?.isSome) :
    ReadableStmt (.attempt body param? handler? cleanup?) := by
  refine .opened trivial _ rfl fun n => ?_
  obtain ⟨body', n₁, hsame, hreads⟩ := h.block n
  have hcatch : ∃ handled? n₂, handled?.bind (·.1) = param? ∧
      blank.stmts? (handled?.map (·.2)) = blank.stmts? handler? ∧
      handled?.isSome = handler?.isSome ∧ ∀ d, handled? = none ∧
        stmts?Tokens (mark .catchWord :: parenthesized param?.toList) handler? = [] ∧ n₂ = n₁ ∨
        ∃ handled v', handled? = some handled ∧
          stmts?Tokens (mark .catchWord :: parenthesized param?.toList) handler? =
            mark .catchWord :: v' ∧
          Reads d (catchClause (grammar d)) anything v' n₁ handled n₂ := by
    cases handler? with
    | none =>
      cases param? with
      | none => exact ⟨none, n₁, rfl, rfl, rfl, fun d => .inl ⟨rfl, rfl, rfl⟩⟩
      | some t => exact absurd (hparam t rfl).2 (by simp)
    | some handler =>
      obtain ⟨handler', n₂, hsame, hreads⟩ := (hhandler handler rfl).block n₁
      refine ⟨some (param?, handler'), n₂, rfl, ?_, rfl, fun d => .inr ⟨_, _, rfl, rfl, ?_⟩⟩
      · exact congrArg some hsame
      · exact reads_catch (fun t ht => (hparam t ht).1) (hreads d)
  obtain ⟨handled?, n₂, hparam', hsame', hsome', hreads'⟩ := hcatch
  have hfinally : ∃ cleaned? n', blank.stmts? cleaned? = blank.stmts? cleanup? ∧
      cleaned?.isSome = cleanup?.isSome ∧ ∀ d, cleaned? = none ∧
        stmts?Tokens [mark .finallyWord] cleanup? = [] ∧ n' = n₂ ∨
        ∃ cleaned w', cleaned? = some cleaned ∧
          stmts?Tokens [mark .finallyWord] cleanup? = mark .finallyWord :: braced w' ∧
          Reads d (grammar d).block anything (w' ++ [mark .rightBrace]) n₂ cleaned n' := by
    cases cleanup? with
    | none => exact ⟨none, n₂, rfl, rfl, fun d => .inl ⟨rfl, rfl, rfl⟩⟩
    | some cleanup =>
      obtain ⟨cleanup', n', hsame, hreads⟩ := (hcleanup cleanup rfl).block n₂
      exact ⟨some cleanup', n', congrArg some hsame, rfl, fun d => .inr ⟨_, _, rfl, rfl, hreads d⟩⟩
  obtain ⟨cleaned?, n', hsame'', hsome'', hreads''⟩ := hfinally
  rw [← hsome', ← hsome''] at hsome
  refine ⟨_, n', ?_, fun d _ _ => reads_try hsome (hreads d) (hreads' d) (hreads'' d)⟩
  rw [Relabeling.stmt, Relabeling.stmt, hsame, hparam', hsame', hsame'']

end ReadableStmt

/-! ## Whole trees -/

theorem readableBody_nil : ReadableBody [] := by
  refine ⟨nofun, fun n => ⟨[], n, rfl, fun d inBlock bound done _ => ?_⟩⟩
  rw [List.append_nil]
  exact reads_declarations_nil

/-- A readable statement in front of a readable body is one. -/
theorem ReadableBody.cons {ss : List Stmt} (hs : ReadableStmt s) (hregular : Regular s)
    (h : ReadableBody ss) : ReadableBody (s :: ss) := by
  obtain ⟨t, u, htokens, ht⟩ := hs.first hregular
  have hall : stmtsTokens (s :: ss) = t :: u ++ stmtsTokens ss := by
    rw [stmtsTokens, htokens]
  refine ⟨fun t' ht' => ?_, fun n => ?_⟩
  · rw [hall] at ht'
    obtain rfl : t = t' := Option.some.inj ht'
    exact ht
  · obtain ⟨s', n₁, hsame, hreads⟩ := hs.declaration hregular n
    obtain ⟨ss', n', hsames, hothers⟩ := h.reads n₁
    refine ⟨s' :: ss', n', ?_, fun d inBlock bound done hbound => ?_⟩
    · rw [Relabeling.stmts, Relabeling.stmts, hsame, hsames]
    · have hdeclaration := hreads d
      rw [htokens] at hdeclaration
      rw [hall] at hbound ⊢
      refine reads_declarations_cons hdeclaration (fun heq => ht (by rw [heq]; decide)) hbound
        (fun bound hbound => ?_) fun k hk => ?_
      · have hrest := hothers d inBlock bound (s' :: done) hbound
        rwa [List.reverse_cons, List.append_assoc] at hrest
      · -- What follows the first statement is the next one or the end of the block.
        cases hss : stmtsTokens ss with
        | nil => exact hk.apart
        | cons x rest =>
          intro t' ht' hmem
          obtain rfl : x = t' := Option.some.inj ht'
          refine h.head x (by rw [hss]; rfl) ?_
          simp only [List.mem_cons, List.not_mem_nil, or_false] at hmem ⊢
          tauto

/-- The statements of a block can be read back; of another statement nothing is said. -/
def BlockReadable : Stmt → Prop
  | .block body => ReadableBody body
  | _ => True

/-- A loop is readable if its condition and its body are. -/
theorem ReadableStmt.while {body : Stmt} (hs : Regular (.loop condition body))
    (hcondition : Readable 0 condition) (hbody : BlockReadable body) :
    ReadableStmt (.loop condition body) := by
  cases body with
  | block body => exact .loop hcondition hbody
  | _ => exact hs.2.1.elim

/-- A conditional is readable if its condition and its branches are. -/
theorem ReadableStmt.branch {thenPart : Stmt} {elsePart? : Option Stmt}
    (hs : Regular (.branch condition thenPart elsePart?)) (hcondition : Readable 0 condition)
    (hthen : ReadableStmt thenPart ∧ BlockReadable thenPart)
    (helse : ∀ s ∈ elsePart?, ReadableStmt s ∧ BlockReadable s) :
    ReadableStmt (.branch condition thenPart elsePart?) := by
  obtain ⟨-, hregular, -, ⟨hblock, helses⟩ | ⟨hsimple, rfl⟩⟩ := hs
  · cases thenPart with
    | block body =>
      cases elsePart? with
      | none => exact .branch_none hcondition hthen.2
      | some elsePart =>
        obtain ⟨hreadable, hbody⟩ := helse elsePart rfl
        cases elsePart with
        | block other => exact .branch_block hcondition hthen.2 hbody
        | branch condition' thenPart' elsePart?' =>
          exact .branch_branch hcondition hthen.2 hreadable
        | _ => exact (helses _ rfl).elim
    | _ => exact hblock.elim
  · exact .branch_simple hcondition hthen.1 hregular hsimple

mutual

/-- Every expression of a form that the grammar gives can be read back. -/
theorem readable_expr : ∀ (l : Nat) (e : Expr), l ≤ 10 → Ranks l e → everyExpr Unbraced e →
    Readable l e
  | _, .constant id value, hl, _, _ => (Readable.constant id value).looser hl (Nat.le_refl 10)
  | _, .reference _, hl, h, _ => (Readable.reference h).looser hl (Nat.le_refl 10)
  | _, .assign _ _ value, _, ⟨hl, hname, hvalue⟩, hu =>
    hl ▸ .assign hname (readable_expr 0 value (Nat.zero_le 10) hvalue hu.2)
  | _, .binary _ left _ right, _, ⟨i, hi, hle, hoperator, hleft, hright⟩, hu =>
    have hi' : i ≤ 7 := by
      simp only [List.mem_cons, List.not_mem_nil, or_false] at hi
      omega
    (Readable.binary hi (readable_expr i left (by omega) hleft hu.2.1)
      (readable_expr (i + 1) right (by omega) hright hu.2.2) hoperator).looser hle (by omega)
  | _, .logical _ left _ right, _, ⟨i, hi, hle, hoperator, hleft, hright⟩, hu =>
    have hi' : i ≤ 2 := by
      simp only [List.mem_cons, List.not_mem_nil, or_false] at hi
      omega
    (Readable.logical hi (readable_expr i left (by omega) hleft hu.2.1)
      (readable_expr (i + 1) right (by omega) hright hu.2.2) hoperator).looser hle (by omega)
  | _, .unary _ _ operand, _, ⟨hl, hoperator, hoperand⟩, hu =>
    ((readable_expr 8 operand (by decide) hoperand hu.2).unary hoperator).looser hl (by decide)
  | _, .grouping _ inner, hl, h, hu =>
    (readable_expr 0 inner (Nat.zero_le 10) h hu.2).grouping.looser hl (Nat.le_refl 10)
  | _, .call _ callee _ arguments, _, ⟨hl, hcallee, hparen, hlength, harguments⟩, hu =>
    ((readable_expr 9 callee (by decide) hcallee hu.2.1).call hparen hlength
      (readable_exprs arguments harguments hu.2.2)).looser hl (by decide)
  | _, .get _ object _, _, ⟨hl, hobject, hname⟩, hu =>
    ((readable_expr 9 object (by decide) hobject hu.2).get hname).looser hl (by decide)
  | _, .set _ object _ value, _, ⟨hl, hobject, hname, hvalue⟩, hu =>
    hl ▸ (readable_expr 9 object (by decide) hobject hu.2.1).set hname
      (readable_expr 0 value (Nat.zero_le 10) hvalue hu.2.2)
  | _, .getItem _ object _ index, _, ⟨hl, hobject, hbracket, hindex⟩, hu =>
    ((readable_expr 9 object (by decide) hobject hu.2.1).getItem
      (readable_expr 0 index (Nat.zero_le 10) hindex hu.2.2) hbracket).looser hl (by decide)
  | _, .setItem _ object index _ value, _, ⟨hl, hobject, hindex, hequals, hvalue⟩, hu =>
    hl ▸ (readable_expr 9 object (by decide) hobject hu.2.1).setItem
      (readable_expr 0 index (Nat.zero_le 10) hindex hu.2.2.1) hequals
      (readable_expr 0 value (Nat.zero_le 10) hvalue hu.2.2.2)
  | _, .self _ _, hl, h, _ => (Readable.self h).looser hl (Nat.le_refl 10)
  | _, .super _ _ _ _, hl, ⟨hkeyword, hclass, hmethod⟩, _ =>
    (Readable.super hkeyword hclass hmethod).looser hl (Nat.le_refl 10)
  | _, .array _ elements, hl, h, hu =>
    (Readable.array (readable_exprs elements h hu.2)).looser hl (Nat.le_refl 10)
  | _, .map _ entries, hl, ⟨hkeys, h⟩, hu =>
    ((readable_entries entries h hu.2).map hkeys).looser hl (Nat.le_refl 10)
  | _, .lambda _ (.mk _ _ body _), hl, ⟨hkind, hlexeme, hliteral, hanonymous, hparams, hbody⟩, hu =>
    hanonymous ▸ (Readable.lambda ⟨hkind, hlexeme, hliteral⟩ hparams
      (readable_body body hbody hu.2)).looser hl (Nat.le_refl 10)

/-- Of a list of expressions at their ranks each is readable. -/
theorem readable_exprs : ∀ es : List Expr, RanksAll es → everyExprs Unbraced es →
    ∀ e ∈ es, Readable 0 e
  | [], _, _ => List.forall_mem_nil _
  | e :: es, h, hu => List.forall_mem_cons.mpr
    ⟨readable_expr 0 e (Nat.zero_le 10) h.1 hu.1, readable_exprs es h.2 hu.2⟩

theorem readable_entries : ∀ es : List (Token × Expr), RanksEntries es → everyEntry Unbraced es →
    ReadableEntries es
  | [], _, _ => List.forall_mem_nil _
  | (_, e) :: es, h, hu => List.forall_mem_cons.mpr
    ⟨⟨h.1, readable_expr 0 e (Nat.zero_le 10) h.2.1 hu.1⟩, readable_entries es h.2.2 hu.2⟩

theorem readable_expr? : ∀ e? : Option Expr, Ranks? e? → everyExpr? Unbraced e? →
    ∀ e ∈ e?, Readable 0 e
  | none, _, _ => nofun
  | some e, h, hu => fun _ hx => Option.some.inj hx ▸ readable_expr 0 e (Nat.zero_le 10) h hu

theorem readable_decls : ∀ ds : List FunctionDecl, RegularDecls ds → everyDecls Unbraced ds →
    ∀ decl ∈ ds, ReadableDecl decl
  | [], _, _ => List.forall_mem_nil _
  | .mk _ _ body _ :: ds, ⟨⟨hname, hanonymous, hparams, hbody⟩, hds⟩, hu => List.forall_mem_cons.mpr
    ⟨hanonymous ▸ .of_body hname hparams (readable_body body hbody hu.1),
      readable_decls ds hds hu.2⟩

/-- Every statement of a form that the grammar gives can be read back. -/
theorem readable_stmt : ∀ s : Stmt, Regular s → everyStmt Unbraced s →
    ReadableStmt s ∧ BlockReadable s
  | .expression value, h, hu =>
    ⟨.expression (readable_expr 0 value (Nat.zero_le 10) h hu.2) hu.1, trivial⟩
  | .print value, h, hu => ⟨.print (readable_expr 0 value (Nat.zero_le 10) h hu.2), trivial⟩
  | .var _ init?, h, hu => ⟨.var h.1 (readable_expr? init? h.2 hu.2), trivial⟩
  | .block body, h, hu =>
    have hbody := readable_body body h hu.2
    ⟨.block hbody, hbody⟩
  | .branch condition thenPart elsePart?, h, hu =>
    ⟨.branch h (readable_expr 0 condition (Nat.zero_le 10) h.1 hu.2.1)
      (readable_stmt thenPart h.2.1 hu.2.2.1) (readable_stmt? elsePart? h.2.2.1 hu.2.2.2), trivial⟩
  | .loop condition body, h, hu =>
    ⟨.while h (readable_expr 0 condition (Nat.zero_le 10) h.1 hu.2.1)
      (readable_stmt body h.2.2 hu.2.2).2, trivial⟩
  | .function (.mk _ _ body _), ⟨hname, hanonymous, hparams, hbody⟩, hu =>
    ⟨hanonymous ▸ .function hname hparams (readable_body body hbody hu.2), trivial⟩
  | .ret _ value?, h, hu => ⟨.ret (readable_expr? value? h.2 hu.2), trivial⟩
  | .classDecl _ _ methods, h, hu =>
    ⟨.classDecl h.1 h.2.1 (readable_decls methods h.2.2 hu.2), trivial⟩
  | .importFrom _ _, h, _ => ⟨.importFrom h, trivial⟩
  | .exported inner, h, hu => ⟨.exported h.1 (readable_stmt inner h.2 hu.2).1, trivial⟩
  | .throw _ value, h, hu => ⟨.throw (readable_expr 0 value (Nat.zero_le 10) h.2 hu.2), trivial⟩
  | .attempt body _ handler? cleanup?, h, hu =>
    ⟨.attempt (readable_body body h.1 hu.2.1) (readable_body? handler? h.2.1 hu.2.2.1)
      (readable_body? cleanup? h.2.2.1 hu.2.2.2) h.2.2.2.1 h.2.2.2.2, trivial⟩

theorem readable_stmt? : ∀ s? : Option Stmt, Regular? s? → everyStmt? Unbraced s? →
    ∀ s ∈ s?, ReadableStmt s ∧ BlockReadable s
  | none, _, _ => nofun
  | some s, h, hu => fun _ hx => Option.some.inj hx ▸ readable_stmt s h hu

theorem readable_body : ∀ ss : List Stmt, RegularAll ss → everyStmts Unbraced ss → ReadableBody ss
  | [], _, _ => readableBody_nil
  | s :: ss, h, hu => .cons (readable_stmt s h.1 hu.1).1 h.1 (readable_body ss h.2 hu.2)

theorem readable_body? : ∀ ss? : Option (List Stmt), RegularAll? ss? → everyStmts? Unbraced ss? →
    ∀ ss ∈ ss?, ReadableBody ss
  | none, _, _ => nofun
  | some ss, h, hu => fun _ hx => Option.some.inj hx ▸ readable_body ss h hu

end

end ScriptEngine.Parser
