import ScriptEngine.Proofs.Program.Joining

/-!
# Reading statements again with more behind them

Every statement ends with a token that it demands, up to the words that may go on with it, so a
statement is read in the same way whatever follows. For a whole program this gives both results that
are wanted: a program that was parsed is of the form that the grammar gives (`parse_regular`), and
what is parsed as one program is parsed in the same way as the first part of a longer one
(`parse_append`).
-/

namespace ScriptEngine.Parser

open Writing Relabeling

section Statements

variable {f : Relabeling} {k : List Token} {b : Nat} {H : Prop} {g g' : Grammar}

/-- A variable declaration is read again. -/
theorem tracks_varDeclaration (hg : g.Tracks f k g') :
    Tracks H f k b .reads (varDeclaration g) (varDeclaration g') f.stmt
      fun s => Regular s ∧ Exportable s := by
  have hend : ∀ {H : Prop} {b : Nat} {name : Token} (init? : Option Expr),
      (H → name.kind = .identifier) → (H → Ranks? init?) →
      Tracks H f k b .reads (do
          let _ ← expect .semicolon "Expect ';' after variable declaration."
          pure (Stmt.var name init?))
        (do
          let _ ← expect .semicolon "Expect ';' after variable declaration."
          pure (Stmt.var (f.token name) (init?.map f.expr))) f.stmt
        fun s => Regular s ∧ Exportable s := by
    intro H b name init? hname hinit
    refine tracks_then tracks_expect fun _ => tracks_pure (fun _ => ?_) fun h => ?_
    · simp [Relabeling.stmt]
    · exact ⟨⟨hname h.1, hinit h.1⟩, trivial⟩
  refine tracks_bind tracks_expect fun name => tracks_accept (fun _ _ => ?_) ?_
  · refine tracks_bind (tracks_some (P := Ranks?) (hg.expression _ _) fun _ he => he)
      fun init? => ?_
    exact hend init? (fun h => h.1.2) fun h => h.2
  · exact hend none (fun h => h.2) fun _ => trivial

/-- A function with its name, parameters and body is read again. -/
theorem tracks_functionDeclaration (hg : g.Tracks f k g') (what : String) :
    Tracks H f k b .reads (functionDeclaration g what) (functionDeclaration g' what)
      f.decl RegularDecl := by
  refine tracks_bind tracks_expect fun name => tracks_bind tracks_expect fun _ => ?_
  refine tracks_bind tracks_parameters fun params => tracks_bind tracks_expect fun _ => ?_
  refine tracks_then (hg.block _ _) fun body => tracks_pure (fun _ => rfl) fun h => ?_
  exact ⟨h.1.1.1.1.2, rfl, h.1.1.2, h.2⟩

/-- The methods of a class are read again up to its closing brace, by induction on the bound. -/
theorem tracks_methodsUpTo (hg : g.Tracks f k g') (i : Nat) :
    ∀ {H : Prop} {i' : Nat} {methods : List FunctionDecl}, i ≤ i' →
      (H → ∀ d ∈ methods, RegularDecl d) →
      Tracks H f k i .looks (methodsUpTo g i methods)
        (methodsUpTo g' i' (methods.map f.decl)) (List.map f.decl)
        fun methods => ∀ d ∈ methods, RegularDecl d := by
  have hpure : ∀ {H : Prop} {i : Nat} {methods : List FunctionDecl},
      (H → ∀ d ∈ methods, RegularDecl d) →
      Tracks H f k i .free (pure methods.reverse) (pure (methods.map f.decl).reverse)
        (List.map f.decl) fun methods => ∀ d ∈ methods, RegularDecl d :=
    fun h => tracks_pure (fun _ => List.map_reverse.symm) fun hH d hd =>
      h hH d (List.mem_reverse.mp hd)
  induction i with
  | zero => exact fun _ hmethods => (hpure hmethods).looser.spent
  | succ i ih =>
    intro H i' methods hle hmethods
    obtain ⟨j, rfl⟩ := Nat.exists_eq_add_of_lt hle
    refine tracks_rest (fun s hs => ?_) fun s x rest hs => ?_
    · rw [hs]
      exact (hpure hmethods).looser.spent
    rw [hs]
    by_cases hx : x.kind = .rightBrace
    · refine ⟨pure (methods.map f.decl).reverse, fun t rest' ht => ?_, ?_⟩
      · rw [ht]
        exact if_pos hx
      · dsimp only
        rw [if_pos hx]
        exact (hpure hmethods).looser
    · refine ⟨functionDeclaration g' "method" >>= fun method =>
        methodsUpTo g' (i + j) (method :: methods.map f.decl), fun t rest' ht => ?_, ?_⟩
      · rw [ht]
        exact if_neg hx
      · dsimp only
        rw [if_neg hx]
        refine tracks_round (tracks_functionDeclaration hg "method") fun method => ?_
        exact ih (Nat.le_add_right i j) fun h => List.forall_mem_cons.mpr ⟨h.2, hmethods h.1⟩

theorem tracks_classDeclaration (hg : g.Tracks f k g') :
    Tracks H f k b .reads (classDeclaration g) (classDeclaration g') f.stmt
      fun s => Regular s ∧ Exportable s := by
  have hsuper : ∀ (H : Prop) b (i : Nat), Tracks H f k b .looks superclass superclass
      f.reference fun ref => ref.name.kind = .identifier ∧ True := by
    intro H b i
    refine (tracks_then tracks_expect fun name => ?_).looser
    exact tracks_numbered (fun _ _ => rfl) fun h _ => ⟨h.2, trivial⟩
  have hend : ∀ {H : Prop} {b : Nat} {name : Token} (superclasses : List Reference),
      (H → name.kind = .identifier) → (H → ∀ ref ∈ superclasses, ref.name.kind = .identifier) →
      Tracks H f k b .reads (do
          let _ ← expect .leftBrace "Expect '\x7b' before class body."
          let methods ← methodsUpTo g (← remaining) []
          let _ ← expect .rightBrace "Expect '\x7d' after class body."
          pure (Stmt.classDecl name superclasses methods))
        (do
          let _ ← expect .leftBrace "Expect '\x7b' before class body."
          let methods ← methodsUpTo g' (← remaining) []
          let _ ← expect .rightBrace "Expect '\x7d' after class body."
          pure (Stmt.classDecl (f.token name) (superclasses.map f.reference)
            methods)) f.stmt fun s => Regular s ∧ Exportable s := by
    intro H b name superclasses hname hsuperclasses
    refine tracks_bind tracks_expect fun _ => tracks_remaining fun i i' hle => ?_
    refine tracks_bind (tracks_methodsUpTo hg i hle fun _ => List.forall_mem_nil _)
      fun methods => ?_
    refine tracks_then tracks_expect fun _ => tracks_pure (fun _ => ?_) fun h => ?_
    · simp [Relabeling.stmt]
    · exact ⟨⟨hname h.1.1.1, hsuperclasses h.1.1.1, regularDecls_iff.mpr h.1.2⟩, trivial⟩
  refine tracks_bind tracks_expect fun name => tracks_accept (fun _ _ => ?_) ?_
  · refine tracks_bind (tracks_commaList hsuper) fun superclasses => ?_
    exact hend superclasses (fun h => h.1.2) fun h => h.2.1
  · exact hend [] (fun h => h.2) fun _ => List.forall_mem_nil _

/-- An exported declaration is read again. -/
theorem tracks_exportDeclaration (hg : g.Tracks f k g') :
    Tracks H f k b .reads (exportDeclaration g) (exportDeclaration g') f.stmt Regular := by
  refine tracks_accept (fun _ _ => ?_) (tracks_accept (fun _ _ => ?_) (tracks_accept (fun _ _ => ?_)
    tracks_fail))
  · exact tracks_map (tracks_classDeclaration hg) (fun _ => rfl) fun _ _ h => ⟨h.2, h.1⟩
  · exact tracks_map (tracks_functionDeclaration hg _) (fun _ => rfl) fun _ _ h => ⟨trivial, h⟩
  · exact tracks_map (tracks_varDeclaration hg) (fun _ => rfl) fun _ _ h => ⟨h.2, h.1⟩

/-- An imported name is read again, with its alias or without. -/
theorem tracks_importItem :
    Tracks H f k b .looks importItem importItem f.item fun item =>
      item.name.kind = .identifier ∧ ∀ other ∈ item.alias?, other.kind = .identifier := by
  refine tracks_bind tracks_expect fun name => tracks_accept (fun _ _ => ?_) ?_
  · refine (tracks_then tracks_expect fun other => ?_).looser
    exact tracks_pure (fun _ => rfl) fun h => ⟨h.1.2, fun _ hx => Option.some.inj hx ▸ h.2⟩
  · refine Tracks.looser (m := .free) ?_
    exact tracks_pure (fun _ => rfl) fun h => ⟨h.2, fun _ hx => nomatch hx⟩

theorem tracks_importStatement :
    Tracks H f k b .reads importStatement importStatement f.stmt Regular := by
  have hend : ∀ {H : Prop} {b : Nat} {path : Token} (items : List ImportItem),
      (H → path.kind = .string) →
      (H → ∀ item ∈ items, item.name.kind = .identifier ∧
        ∀ other ∈ item.alias?, other.kind = .identifier) →
      Tracks H f k b .reads (do
          let _ ← expect .semicolon "Expect ';' after import statement."
          if items.isEmpty then throw ⟨path, "Expect at least one import item."⟩
          pure (Stmt.importFrom path items))
        (do
          let _ ← expect .semicolon "Expect ';' after import statement."
          if (items.map f.item).isEmpty then
            throw ⟨f.token path, "Expect at least one import item."⟩
          pure (Stmt.importFrom (f.token path) (items.map f.item)))
        f.stmt Regular := by
    intro H b path items hpath hitems
    refine tracks_then tracks_expect fun _ => ?_
    cases items with
    | nil => exact tracks_throw
    | cons item items =>
      exact tracks_pure (fun _ => rfl) fun h => ⟨hpath h.1, List.cons_ne_nil _ _, hitems h.1⟩
  refine tracks_bind tracks_expect fun path => tracks_accept (fun _ _ => ?_) ?_
  · refine tracks_bind (tracks_commaList (R := fun _ => True) fun H b i =>
      tracks_importItem.post fun item _ h => ⟨h, trivial⟩) fun items => ?_
    exact hend items (fun h => h.1.2) fun h => h.2.1
  · exact hend [] (fun h => h.2) fun _ => List.forall_mem_nil _

/-! ## Statements -/

/-- An expression, a semicolon and the statement that is made of the expression. -/
theorem tracks_valueStatement (hg : g.Tracks f k g') {message : String} {wrap wrap' : Expr → Stmt}
    {Q : Stmt → Prop} (hwrap : ∀ e, wrap' (f.expr e) = f.stmt (wrap e))
    (hQ : ∀ e, H → Ranks 0 e → Q (wrap e)) :
    Tracks H f k b .reads (do
        let value ← g.expression
        let _ ← expect .semicolon message
        pure (wrap value))
      (do
        let value ← g'.expression
        let _ ← expect .semicolon message
        pure (wrap' value)) f.stmt Q := by
  refine tracks_bind (hg.expression H b) fun value => tracks_then tracks_expect fun _ => ?_
  exact tracks_pure (fun _ => hwrap value) fun h => hQ value h.1.1 h.1.2

theorem tracks_expressionStatement (hg : g.Tracks f k g') :
    Tracks H f k b .reads (expressionStatement g) (expressionStatement g') f.stmt
      fun s => Regular s ∧ Simple s :=
  tracks_valueStatement hg (fun _ => rfl) fun _ _ he => ⟨he, trivial⟩

theorem tracks_printStatement (hg : g.Tracks f k g') :
    Tracks H f k b .reads (printStatement g) (printStatement g') f.stmt
      fun s => Regular s ∧ Simple s :=
  tracks_valueStatement hg (fun _ => rfl) fun _ _ he => ⟨he, trivial⟩

theorem tracks_throwStatement (hg : g.Tracks f k g') {keyword : Token}
    (hkeyword : keyword.kind = .throwWord) :
    Tracks H f k b .reads (throwStatement g keyword) (throwStatement g' (f.token keyword))
      f.stmt fun s => Regular s ∧ Simple s :=
  tracks_valueStatement hg (fun _ => rfl) fun _ _ he => ⟨⟨hkeyword, he⟩, trivial⟩

theorem tracks_returnStatement (hg : g.Tracks f k g') {keyword : Token}
    (hkeyword : keyword.kind = .returnWord) :
    Tracks H f k b .reads (returnStatement g keyword) (returnStatement g' (f.token keyword))
      f.stmt fun s => Regular s ∧ Simple s := by
  have hend : ∀ {H : Prop} (value? : Option Expr), (H → Ranks? value?) →
      Tracks H f k b .reads (do
          let _ ← expect .semicolon "Expect ';' after return value."
          pure (Stmt.ret keyword value?))
        (do
          let _ ← expect .semicolon "Expect ';' after return value."
          pure (Stmt.ret (f.token keyword) (value?.map f.expr))) f.stmt
        fun s => Regular s ∧ Simple s := by
    intro H value? hvalue
    refine tracks_then tracks_expect fun _ => tracks_pure (fun _ => ?_) fun h => ?_
    · simp [Relabeling.stmt]
    · exact ⟨⟨hkeyword, hvalue h.1⟩, trivial⟩
  refine tracks_check ?_ ?_
  · exact hend none fun _ => trivial
  · refine tracks_bind (tracks_some (P := Ranks?) (hg.expression _ _) fun _ he => he)
      fun value? => ?_
    exact hend value? fun h => h.2

/-- A statement that ends with a semicolon is read again, whatever it begins with. -/
theorem tracks_simpleStatement (hg : g.Tracks f k g') :
    Tracks H f k b .reads (simpleStatement g) (simpleStatement g') f.stmt
      fun s => Regular s ∧ Simple s := by
  refine tracks_accept (fun keyword hkeyword => tracks_returnStatement hg hkeyword) ?_
  refine tracks_accept (fun _ _ => tracks_printStatement hg) ?_
  refine tracks_accept (fun keyword hkeyword => tracks_throwStatement hg hkeyword) ?_
  exact tracks_expressionStatement hg

/-- An `if` with its branches is read again, by induction on the number of `else if` that may
follow. -/
theorem tracks_conditional (hg : g.Tracks f k g') (i : Nat) :
    ∀ {H : Prop} {i' : Nat}, i ≤ i' →
      Tracks H f k i .reads (conditional g i) (conditional g' i') f.stmt
        fun s => Regular s ∧ Else s := by
  induction i with
  | zero => exact fun _ => tracks_fail
  | succ i ih =>
    intro H i' hle
    obtain ⟨j, rfl⟩ := Nat.exists_eq_add_of_lt hle
    refine tracks_bind tracks_expect fun _ => tracks_bind (hg.expression _ _) fun condition => ?_
    refine tracks_bind tracks_expect fun _ => tracks_accept (fun _ _ => ?_) ?_
    · refine tracks_then (hg.block _ _) fun thenPart => ?_
      refine tracks_optional hg.apart (by decide) (fun _ _ => ?_) ?_
      · -- Behind `else`, whatever it is ends with a token that is demanded.
        refine (tracks_accept (fun _ _ => ?_) ?_).freed
        · refine tracks_then ((ih (Nat.le_add_right i j)).fewer (by omega)) fun elsePart => ?_
          refine tracks_pure (fun _ => rfl) fun h =>
            ⟨⟨h.1.1.1.2, h.1.2, h.2.1, .inl ⟨trivial, ?_⟩⟩, trivial⟩
          exact fun s hs => Option.some.inj hs ▸ h.2.2
        · refine tracks_bind tracks_expect fun _ => tracks_then (hg.block _ _) fun elsePart => ?_
          refine tracks_pure (fun _ => rfl) fun h =>
            ⟨⟨h.1.1.1.1.2, h.1.1.2, h.2, .inl ⟨trivial, ?_⟩⟩, trivial⟩
          exact fun s hs => Option.some.inj hs ▸ trivial
      · exact tracks_pure (fun _ => rfl) fun h =>
          ⟨⟨h.1.1.2, h.2, trivial, .inl ⟨trivial, fun _ hs => absurd hs (by simp)⟩⟩, trivial⟩
    · refine tracks_then (tracks_simpleStatement hg) fun thenPart => tracks_pure (fun _ => rfl) ?_
      exact fun h => ⟨⟨h.1.1.2, h.2.1, trivial, .inr ⟨h.2.2, rfl⟩⟩, trivial⟩

theorem tracks_whileStatement (hg : g.Tracks f k g') :
    Tracks H f k b .reads (whileStatement g) (whileStatement g') f.stmt Regular := by
  refine tracks_bind tracks_expect fun _ => tracks_bind (hg.expression _ _) fun condition => ?_
  refine tracks_bind tracks_expect fun _ => tracks_bind tracks_expect fun _ => ?_
  refine tracks_then (hg.block _ _) fun body => tracks_pure (fun _ => rfl) fun h => ?_
  exact ⟨h.1.1.1.2, trivial, h.2⟩

/-- What stands first in a `for` loop is read again. -/
theorem tracks_forInit (hg : g.Tracks f k g') :
    Tracks H f k b .looks (forInit g) (forInit g') (Option.map f.stmt) Regular? := by
  refine tracks_accept (fun _ _ => ?_) (tracks_accept (fun _ _ => ?_) ?_)
  · refine Tracks.looser (m := .free) ?_
    exact tracks_pure (fun _ => rfl) fun _ => trivial
  · refine Tracks.looser (m := .reads) ?_
    exact tracks_map (tracks_varDeclaration hg) (fun _ => rfl) fun _ _ h => h.1
  · refine Tracks.looser (m := .reads) ?_
    exact tracks_map (tracks_expressionStatement hg) (fun _ => rfl) fun _ _ h => h.1

/-- A relabeled `for` loop unfolds to the relabeled loop. -/
theorem forLoop_relabel {init? : Option Stmt} {condition : Expr} {step? : Option Expr}
    {body : List Stmt} :
    forLoop (init?.map f.stmt) (f.expr condition) (step?.map f.expr)
        (f.stmts body) = f.stmt (forLoop init? condition step? body) := by
  cases init? <;> cases step? <;> rfl

/-- A `for` loop of regular parts unfolds to a regular statement. -/
theorem regular_forLoop {init? : Option Stmt} {condition : Expr} {step? : Option Expr}
    {body : List Stmt} (hinit : Regular? init?) (hcondition : Ranks 0 condition)
    (hstep : Ranks? step?) (hbody : RegularAll body) :
    Regular (forLoop init? condition step? body) := by
  have hround : ∀ step?, Ranks? step? →
      Regular (forLoop none condition step? body) := by
    intro step? hstep
    cases step? with
    | none => exact ⟨hcondition, trivial, hbody⟩
    | some step => exact ⟨hcondition, trivial, hbody, hstep, trivial⟩
  cases init? with
  | none => exact hround step? hstep
  | some init => exact ⟨hinit, hround step? hstep, trivial⟩

theorem tracks_forStatement (hg : g.Tracks f k g') :
    Tracks H f k b .reads (forStatement g) (forStatement g') f.stmt Regular := by
  have hbody : ∀ {H : Prop} {b : Nat} {init? : Option Stmt} {condition : Expr}
      (step? : Option Expr), (H → Regular? init?) → (H → Ranks 0 condition) → (H → Ranks? step?) →
      Tracks H f k b .reads (do
          let _ ← expect .rightParen "Expect ')' after for clauses."
          let _ ← expect .leftBrace "Expect '\x7b' after for clauses."
          let body ← g.block
          pure (forLoop init? condition step? body))
        (do
          let _ ← expect .rightParen "Expect ')' after for clauses."
          let _ ← expect .leftBrace "Expect '\x7b' after for clauses."
          let body ← g'.block
          pure (forLoop (init?.map f.stmt) (f.expr condition)
            (step?.map f.expr) body)) f.stmt Regular := by
    intro H b init? condition step? hinit hcondition hstep
    refine tracks_bind tracks_expect fun _ => tracks_bind tracks_expect fun _ => ?_
    refine tracks_then (hg.block _ _) fun body => tracks_pure (fun _ => forLoop_relabel) fun h => ?_
    exact regular_forLoop (hinit h.1.1.1) (hcondition h.1.1.1) (hstep h.1.1.1) h.2
  have hstep : ∀ {H : Prop} {b : Nat} {init? : Option Stmt} (condition : Expr),
      (H → Regular? init?) → (H → Ranks 0 condition) →
      Tracks H f k b .reads (do
          let _ ← expect .semicolon "Expect ';' after loop condition."
          let step? ← if ← check .rightParen then pure none else some <$> g.expression
          let _ ← expect .rightParen "Expect ')' after for clauses."
          let _ ← expect .leftBrace "Expect '\x7b' after for clauses."
          let body ← g.block
          pure (forLoop init? condition step? body))
        (do
          let _ ← expect .semicolon "Expect ';' after loop condition."
          let step? ← if ← check .rightParen then pure none else some <$> g'.expression
          let _ ← expect .rightParen "Expect ')' after for clauses."
          let _ ← expect .leftBrace "Expect '\x7b' after for clauses."
          let body ← g'.block
          pure (forLoop (init?.map f.stmt) (f.expr condition) step? body))
        f.stmt Regular := by
    intro H b init? condition hinit hcondition
    refine tracks_bind tracks_expect fun _ => tracks_check ?_ ?_
    · exact hbody none (fun h => hinit h.1) (fun h => hcondition h.1) fun _ => trivial
    · refine tracks_bind (tracks_some (P := Ranks?) (hg.expression _ _) fun _ he => he)
        fun step? => ?_
      exact hbody step? (fun h => hinit h.1.1) (fun h => hcondition h.1.1) fun h => h.2
  refine tracks_bind tracks_expect fun _ => tracks_bind (tracks_forInit hg) fun init? => ?_
  refine tracks_check ?_ ?_
  · refine tracks_bind tracks_fresh fun id => ?_
    exact hstep (.constant id (.boolean true)) (fun h => h.1.2) fun _ => trivial
  · refine tracks_bind (hg.expression _ _) fun condition => ?_
    exact hstep condition (fun h => h.1.2) fun h => h.2

/-- A handler, relabeled. -/
def handlerOn (f : Relabeling) (x : Option Token × List Stmt) : Option Token × List Stmt :=
  (x.1.map f.token, f.stmts x.2)

/-- A handler is read again, with its parameter or without. -/
theorem tracks_catchClause (hg : g.Tracks f k g') :
    Tracks H f k b .reads (catchClause g) (catchClause g')
      (handlerOn f)
      fun x => (∀ t ∈ x.1, t.kind = .identifier) ∧ RegularAll x.2 := by
  have hend : ∀ {H : Prop} {b : Nat} (param? : Option Token),
      (H → ∀ t ∈ param?, t.kind = .identifier) →
      Tracks H f k b .reads (do
          let _ ← expect .rightParen "Expect ')' after catch parameter."
          let _ ← expect .leftBrace "Expect '\x7b' after catch parameter."
          pure (param?, ← g.block))
        (do
          let _ ← expect .rightParen "Expect ')' after catch parameter."
          let _ ← expect .leftBrace "Expect '\x7b' after catch parameter."
          pure (param?.map f.token, ← g'.block))
        (handlerOn f)
        fun x => (∀ t ∈ x.1, t.kind = .identifier) ∧ RegularAll x.2 := by
    intro H b param? hparam
    refine tracks_bind tracks_expect fun _ => tracks_bind tracks_expect fun _ => ?_
    refine tracks_then (hg.block _ _) fun body => tracks_pure (fun _ => rfl) fun h => ?_
    exact ⟨hparam h.1.1.1, h.2⟩
  refine tracks_bind tracks_expect fun _ => tracks_accept (fun name hname => ?_) ?_
  · exact hend (some name) fun _ t ht => Option.some.inj ht ▸ hname
  · exact hend none fun _ _ hx => nomatch hx

/-- The end of a try statement, which must have a handler or a last block. -/
theorem tracks_tryEnd {body : List Stmt} {handler? : Option (Option Token × List Stmt)}
    (cleanup? : Option (List Stmt)) (hbody : H → RegularAll body)
    (hhandler : H → ∀ x ∈ handler?, (∀ t ∈ x.1, t.kind = .identifier) ∧ RegularAll x.2)
    (hcleanup : H → RegularAll? cleanup?) :
    Tracks H f k b .free (do
        if handler?.isNone && cleanup?.isNone then failHere "Expect catch or finally block."
        pure (Stmt.attempt body (handler?.bind (·.1)) (handler?.map (·.2)) cleanup?))
      (do
        if (handler?.map (handlerOn f)).isNone &&
            (cleanup?.map f.stmts).isNone then
          failHere "Expect catch or finally block."
        pure (Stmt.attempt (f.stmts body)
          ((handler?.map (handlerOn f)).bind (·.1))
          ((handler?.map (handlerOn f)).map (·.2))
          (cleanup?.map f.stmts))) f.stmt Regular := by
  cases handler? with
  | none =>
    cases cleanup? with
    | none => exact tracks_never fun _ _ _ h => nomatch h
    | some cleanup =>
      exact tracks_pure (fun _ => rfl) fun h =>
        ⟨hbody h, trivial, hcleanup h, (fun _ hx => nomatch hx), .inr rfl⟩
  | some handler =>
    have hregular : H → Regular (.attempt body handler.1 (some handler.2) cleanup?) := fun h =>
      ⟨hbody h, (hhandler h handler rfl).2, hcleanup h,
        fun t ht => ⟨(hhandler h handler rfl).1 t ht, rfl⟩, .inl rfl⟩
    cases cleanup? with
    | none => exact tracks_pure (fun _ => rfl) hregular
    | some cleanup => exact tracks_pure (fun _ => rfl) hregular

theorem tracks_tryStatement (hg : g.Tracks f k g') :
    Tracks H f k b .reads (tryStatement g) (tryStatement g') f.stmt Regular := by
  have hfinally : ∀ {H : Prop} {b : Nat} {body : List Stmt}
      (handler? : Option (Option Token × List Stmt)), (H → RegularAll body) →
      (H → ∀ x ∈ handler?, (∀ t ∈ x.1, t.kind = .identifier) ∧ RegularAll x.2) →
      Tracks H f k b .free (do
          let cleanup? ←
            if (← accept? .finallyWord).isSome then do
              let _ ← expect .leftBrace "Expect '\x7b' after finally."
              some <$> g.block
            else pure none
          if handler?.isNone && cleanup?.isNone then failHere "Expect catch or finally block."
          pure (Stmt.attempt body (handler?.bind (·.1)) (handler?.map (·.2)) cleanup?))
        (do
          let cleanup? ←
            if (← accept? .finallyWord).isSome then do
              let _ ← expect .leftBrace "Expect '\x7b' after finally."
              some <$> g'.block
            else pure none
          if (handler?.map (handlerOn f)).isNone &&
              cleanup?.isNone then failHere "Expect catch or finally block."
          pure (Stmt.attempt (f.stmts body)
            ((handler?.map (handlerOn f)).bind (·.1))
            ((handler?.map (handlerOn f)).map (·.2))
            cleanup?)) f.stmt Regular := by
    intro H b body handler? hbody hhandler
    refine tracks_optional hg.apart (by decide) (fun _ _ => ?_) ?_
    · refine Tracks.freed (tracks_bind tracks_expect fun _ => ?_)
      refine tracks_then (tracks_some (P := RegularAll?) (hg.block _ _) fun _ h => h)
        fun cleanup? => ?_
      exact tracks_tryEnd cleanup? (fun h => hbody h.1.1) (fun h => hhandler h.1.1) fun h => h.2
    · exact tracks_tryEnd none hbody hhandler fun _ => trivial
  refine tracks_bind tracks_expect fun _ => tracks_then (hg.block _ _) fun body => ?_
  refine tracks_optional hg.apart (by decide) (fun _ _ => ?_) ?_
  · refine (tracks_then (tracks_some
      (P := fun x? => ∀ x ∈ x?, (∀ t ∈ x.1, t.kind = .identifier) ∧ RegularAll x.2)
      (tracks_catchClause hg) fun x h y hy => Option.some.inj hy ▸ h) fun handler? => ?_).freed
    exact hfinally handler? (fun h => h.1.2) fun h => h.2
  · exact hfinally none (fun h => h.2) fun _ _ hx => nomatch hx

theorem tracks_statement (hg : g.Tracks f k g') :
    Tracks H f k b .reads (statement g) (statement g') f.stmt Regular := by
  refine tracks_accept (fun _ _ => tracks_importStatement) ?_
  refine tracks_accept (fun _ _ => tracks_remaining fun i i' hle => ?_) ?_
  · exact (tracks_conditional hg i hle).post fun _ _ h => h.1
  refine tracks_accept (fun _ _ => tracks_whileStatement hg) ?_
  refine tracks_accept (fun _ _ => tracks_forStatement hg) ?_
  refine tracks_accept (fun _ _ => (tracks_printStatement hg).post fun _ _ h => h.1) ?_
  refine tracks_accept (fun keyword hkeyword =>
    (tracks_returnStatement hg hkeyword).post fun _ _ h => h.1) ?_
  refine tracks_accept (fun keyword hkeyword =>
    (tracks_throwStatement hg hkeyword).post fun _ _ h => h.1) ?_
  refine tracks_accept (fun _ _ => tracks_tryStatement hg) ?_
  refine tracks_accept (fun _ _ => ?_) ((tracks_expressionStatement hg).post fun _ _ h => h.1)
  exact tracks_map (hg.block _ _) (fun _ => rfl) fun _ _ h => h

theorem tracks_declaration (hg : g.Tracks f k g') :
    Tracks H f k b .reads (declaration g) (declaration g') f.stmt Regular := by
  refine tracks_accept (fun _ _ => tracks_exportDeclaration hg) ?_
  refine tracks_accept (fun _ _ => (tracks_classDeclaration hg).post fun _ _ h => h.1) ?_
  refine tracks_accept (fun _ _ => ?_) ?_
  · exact tracks_map (tracks_functionDeclaration hg _) (fun _ => rfl) fun _ _ h => h
  refine tracks_accept (fun _ _ => (tracks_varDeclaration hg).post fun _ _ h => h.1) ?_
  exact tracks_statement hg

/-! ## Blocks and programs -/

/-- The statements of a block are read again up to its closing brace, by induction on the bound. -/
theorem tracks_declarationsUpTo (hg : g.Tracks f k g') (i : Nat) :
    ∀ {H : Prop} {i' : Nat} (done : List Stmt), i ≤ i' → (H → ∀ s ∈ done, Regular s) →
      Tracks H f k i .looks (declarationsUpTo g true i done)
        (declarationsUpTo g' true i' (done.map f.stmt)) (List.map f.stmt)
        fun body => ∀ s ∈ body, Regular s := by
  have hpure : ∀ {H : Prop} {i : Nat} {done : List Stmt}, (H → ∀ s ∈ done, Regular s) →
      Tracks H f k i .free (pure done.reverse) (pure (done.map f.stmt).reverse)
        (List.map f.stmt) fun body => ∀ s ∈ body, Regular s :=
    fun h => tracks_pure (fun _ => List.map_reverse.symm) fun hH s hs =>
      h hH s (List.mem_reverse.mp hs)
  induction i with
  | zero => exact fun _ _ hdone => (hpure hdone).looser.spent
  | succ i ih =>
    intro H i' done hle hdone
    obtain ⟨j, rfl⟩ := Nat.exists_eq_add_of_lt hle
    refine tracks_rest (fun s hs => ?_) fun s x rest hs => ?_
    · rw [hs]
      exact (hpure hdone).looser.spent
    rw [hs]
    by_cases hx : (true && decide (x.kind = .rightBrace)) = true
    · refine ⟨pure (done.map f.stmt).reverse, fun t rest' ht => ?_, ?_⟩
      · rw [ht]
        exact if_pos hx
      · dsimp only
        rw [if_pos hx]
        exact (hpure hdone).looser
    · refine ⟨recovering (declaration g') >>= fun next? =>
        declarationsUpTo g' true (i + j) (next?.toList ++ done.map f.stmt),
        fun t rest' ht => ?_, ?_⟩
      · rw [ht]
        exact if_neg hx
      · dsimp only
        rw [if_neg hx]
        refine tracks_round (tracks_recovering (tracks_declaration hg)) fun next? => ?_
        have hnext := ih (H := H ∧ ∃ a, next? = some a ∧ Regular a) (next?.toList ++ done)
          (Nat.le_add_right i j) fun h => ?_
        · rw [List.map_append, ← Option.toList_map] at hnext
          exact hnext
        · obtain ⟨hH, s, rfl, hs⟩ := h
          exact List.forall_mem_cons.mpr ⟨hs, hdone hH⟩

theorem tracks_block (hg : g.Tracks f k g') :
    Tracks H f k b .reads (block g) (block g') f.stmts RegularAll := by
  refine tracks_remaining fun i i' hle => ?_
  refine tracks_bind (tracks_declarationsUpTo hg i [] hle fun _ => List.forall_mem_nil _)
    fun body => ?_
  refine tracks_then tracks_expect fun _ => tracks_pure (fun _ => ?_) fun h => ?_
  · exact (stmts_eq_map _ _).symm
  · exact regularAll_iff.mpr h.1.2

end Statements

/-- The grammar tracks itself, and a deeper one. -/
theorem grammar_tracks {f : Relabeling} {k : List Token} (hk : Apart k) (d : Nat) :
    ∀ {d' : Nat}, d ≤ d' → (grammar d).Tracks f k (grammar d') := by
  induction d with
  | zero => exact fun _ => ⟨fun _ _ => tracks_fail, fun _ _ => tracks_fail, hk⟩
  | succ d ih =>
    intro d' hle
    obtain ⟨j, rfl⟩ := Nat.exists_eq_add_of_lt hle
    have hinner := ih (Nat.le_add_right d j)
    exact ⟨fun _ _ => tracks_assignment hinner, fun _ _ => tracks_block hinner, hk⟩

end ScriptEngine.Parser
