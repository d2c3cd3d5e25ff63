import ScriptEngine.Proofs.Program.Reading

/-!
# Reading statements wherever they stand

The rules of `Reads` for the productions of statements and declarations, in the forms in which
programs are written. A statement that may have a part left out is told by what follows that it
ends: `Apart` says that no such part follows.
-/

namespace ScriptEngine.Parser

open Writing

variable {α β : Type} {c d : Nat} {n n' n₁ n₂ : ExprId} {u v : List Token} {t : Token}
  {stop stop₁ : List Token → Prop} {a : α} {b : β} {p : Parser α} {kind : TokenKind}

/-! ## Declarations -/

/-- What follows a statement is no part of it. -/
def Apart (k : List Token) : Prop :=
  ∀ t ∈ k.head?, t.kind ∉ [.elseWord, .catchWord, .finallyWord]

theorem apart_nil : Apart [] := by simp [Apart]

/-- A part behind which something stands has fewer tokens than both together. -/
theorem Reads.bind_before {f : α → Parser β} (hp : Reads d p stop₁ u n a n₁)
    (hf : Reads (d + 1) (f a) stop v n₁ b n₂) (hv : v ≠ []) (hstop : ∀ k, stop k → stop₁ (v ++ k)) :
    Reads (d + 1) (p >>= f) stop (u ++ v) n b n₂ := by
  have hlt : 0 < v.length := List.length_pos_iff.mpr hv
  refine ⟨fun hlen => ?_⟩
  have hu : u.length ≤ d := by
    rw [List.length_append] at hlen
    omega
  have hp' : Reads (d + 1) p stop₁ u n a n₁ := ⟨fun _ => hp.run hu⟩
  exact (hp'.bind hf hstop).run hlen

section Declarations

variable {g : Grammar} {e : Expr} {body : List Stmt}

/-- An expression and the semicolon behind it. -/
theorem Reads.semicolon {f : Expr → Token → Parser β} {message : String}
    (h : Reads c g.expression (Ends 0) u n e n₁)
    (hf : Reads c (f e (mark .semicolon)) stop [] n₁ b n₂) :
    Reads c (g.expression >>= fun e => expect .semicolon message >>= f e) stop
      (u ++ [mark .semicolon]) n b n₂ :=
  h.bind (reads_close (mark_kind _) hf) fun _ _ => ends_closer (by decide)

/-- A declaration without a value is read. -/
theorem reads_var_none {name : Token} (hname : name.kind = .identifier) :
    Reads c (varDeclaration g) stop [name, mark .semicolon] n (.var name none) n := by
  refine reads_close hname (reads_other (by decide) ?_)
  exact reads_close (mark_kind _) reads_pure

/-- A declaration with a value is read. -/
theorem reads_var_some {name : Token} (hname : name.kind = .identifier)
    (h : Reads c g.expression (Ends 0) u n e n') :
    Reads c (varDeclaration g) stop (name :: mark .equal :: (u ++ [mark .semicolon])) n
      (.var name (some e)) n' := by
  refine reads_close hname ((reads_taken (mark_kind _) ?_).mono (Nat.le_succ c))
  exact h.map.bind (reads_close (mark_kind _) reads_pure) fun _ _ => ends_closer (by decide)

/-- A name, parameters and a block are read as a function. -/
theorem reads_function {name : Token} {params : List Token} {what : String}
    (hname : name.kind = .identifier) (hparams : Params params)
    (hbody : Reads c g.block anything (u ++ [mark .rightBrace]) n body n') :
    Reads c (functionDeclaration g what) stop (name :: (paramTokens params ++ braced u)) n
      (.mk name params body false) n' := by
  have hparameters : Reads c parameters anything _ n params n := reads_parameters hparams
  refine reads_close hname (reads_close (mark_kind _) ?_)
  refine hparameters.bind (reads_close (mark_kind _) ?_) fun _ _ => trivial
  exact (hbody.stops fun _ _ => trivial).followed reads_pure

/-- Before the closing brace there is no method to read. -/
theorem reads_methods_nil {bound : Nat} {methods : List FunctionDecl} :
    Reads c (methodsUpTo g bound methods) (fun k => ∀ t ∈ k.head?, t.kind = .rightBrace) [] n
      methods.reverse n := by
  cases bound with
  | zero => exact reads_pure
  | succ bound =>
    refine reads_get (q := pure methods.reverse) (fun s k hrest hk => ?_) reads_pure
    cases hs : s.rest with
    | nil => rfl
    | cons t rest =>
      rw [List.nil_append] at hrest
      dsimp only
      rw [if_pos (hk t (by rw [← hrest, hs]; rfl))]

/-- One method and then the others are read. -/
theorem reads_methods_cons {bound : Nat} {methods all : List FunctionDecl} {decl : FunctionDecl}
    (hdecl : Reads c (functionDeclaration g "method") anything (t :: u) n decl n₁)
    (ht : t.kind ≠ .rightBrace) (hbound : (t :: (u ++ v)).length ≤ bound)
    (hothers : ∀ bound, v.length ≤ bound →
      Reads c (methodsUpTo g bound (decl :: methods)) stop v n₁ all n₂) :
    Reads c (methodsUpTo g bound methods) stop (t :: u ++ v) n all n₂ := by
  obtain ⟨bound, rfl, hrest⟩ := succ_of_cons_length_le hbound
  rw [List.length_append] at hrest
  have hv := hothers bound (Nat.le_trans (Nat.le_add_left _ _) hrest)
  refine reads_get (fun s k hs _ => ?_) (hdecl.bind
    (f := fun decl => methodsUpTo g bound (decl :: methods)) hv fun _ _ => trivial)
  rw [hs]
  dsimp only [List.cons_append]
  rw [if_neg ht]

/-- A superclass is a name with a number of its own. -/
theorem reads_superclass {name : Token} (hname : name.kind = .identifier) :
    Reads c superclass stop [name] n ⟨n, name⟩ (n + 1) :=
  reads_close hname reads_numbered

/-- A class, whether or not it has superclasses. -/
theorem reads_class {name : Token} {superclasses : List Reference} {methods : List FunctionDecl}
    {w : List Token} (hname : name.kind = .identifier)
    (hsupers : superclasses = [] ∧ v = [] ∧ n₁ = n ∨ ∃ us, us ≠ [] ∧
      v = mark .extendsWord :: separated us ∧
      ReadsEach c (fun _ => superclass) anything 0 us n superclasses n₁)
    (hmethods : ∀ bound, w.length ≤ bound → Reads c (methodsUpTo g bound [])
      (fun k => ∀ t ∈ k.head?, t.kind = .rightBrace) w n₁ methods n₂) :
    Reads c (classDeclaration g) stop (name :: (v ++ braced w)) n
      (.classDecl name superclasses methods) n₂ := by
  have hbody : Reads c (do
      let _ ← expect .leftBrace "Expect '\x7b' before class body."
      let methods ← methodsUpTo g (← remaining) []
      let _ ← expect .rightBrace "Expect '\x7d' after class body."
      pure (Stmt.classDecl name superclasses methods)) stop (braced w) n₁
      (.classDecl name superclasses methods) n₂ := by
    refine reads_close (mark_kind _) (reads_remaining fun bound hbound => ?_)
    rw [List.length_append] at hbound
    refine (hmethods bound (Nat.le_trans (Nat.le_add_right _ _) hbound)).bind
      (reads_close (mark_kind _) reads_pure) fun k _ t ht => ?_
    obtain rfl : mark .rightBrace = t := Option.some.inj ht
    rfl
  refine reads_close hname ?_
  rcases hsupers with ⟨rfl, rfl, rfl⟩ | ⟨us, hus, rfl, heach⟩
  · exact reads_other (by decide) hbody
  · refine (reads_taken (mark_kind _) ?_).mono (Nat.le_succ c)
    exact (reads_commaList heach hus fun _ => trivial).bind hbody fun k _ =>
      ⟨trivial, lacks_cons.mpr (by decide)⟩

/-- An imported name is read with the name it is given, if it has one. -/
theorem reads_importItem {item : ImportItem} (hname : item.name.kind = .identifier)
    (hother : ∀ other ∈ item.alias?, other.kind = .identifier) :
    Reads c importItem (Lacks .asWord) (itemTokens item) n item n := by
  obtain ⟨name, alias?⟩ := item
  cases alias? with
  | none => exact reads_close hname (reads_passed (fun k hk => hk) reads_pure)
  | some other =>
    refine reads_close hname ((reads_taken (mark_kind _) ?_).mono (Nat.le_succ c))
    exact reads_close (hother other rfl) reads_pure

/-- A path and the names from it are read as an import. -/
theorem reads_import {path : Token} {items : List ImportItem} (hpath : path.kind = .string)
    (hne : items ≠ []) (hitems : ∀ item ∈ items, item.name.kind = .identifier ∧
      ∀ other ∈ item.alias?, other.kind = .identifier) :
    Reads c importStatement stop
      (path :: mark .importWord :: (separated (items.map itemTokens) ++ [mark .semicolon])) n
      (.importFrom path items) n := by
  have heach : ∀ (i : Nat) (items : List ImportItem), (∀ item ∈ items,
      item.name.kind = .identifier ∧ ∀ other ∈ item.alias?, other.kind = .identifier) →
      ReadsEach c (fun _ => importItem) (Lacks .asWord) i (items.map itemTokens) n items n := by
    intro i items hitems
    induction items generalizing i with
    | nil => exact .nil i n
    | cons item items ih =>
      obtain ⟨hname, hother⟩ := hitems item List.mem_cons_self
      exact .cons (reads_importItem hname hother)
        (ih (i + 1) fun item' h => hitems item' (List.mem_cons_of_mem item h))
  refine reads_close hpath ((reads_taken (mark_kind _) ?_).mono (Nat.le_succ c))
  refine (reads_commaList (heach 0 items hitems) (by simpa using hne)
    fun k => lacks_cons.mpr (by decide)).bind (reads_close (mark_kind _) ?_)
    fun k _ => ⟨lacks_cons.mpr (by decide), lacks_cons.mpr (by decide)⟩
  rw [if_neg (by simpa using hne)]
  exact reads_pure

end Declarations

/-! ## Statements -/

section Statements

variable {g : Grammar} {e condition : Expr} {body : List Stmt}

/-- An expression and a semicolon are read as what is printed. -/
theorem reads_print (h : Reads c g.expression (Ends 0) u n e n') :
    Reads c (printStatement g) stop (u ++ [mark .semicolon]) n (.print e) n' :=
  h.semicolon reads_pure

/-- An expression and a semicolon are read as what is thrown. -/
theorem reads_throw {keyword : Token} (h : Reads c g.expression (Ends 0) u n e n') :
    Reads c (throwStatement g keyword) stop (u ++ [mark .semicolon]) n (.throw keyword e) n' :=
  h.semicolon reads_pure

/-- An expression and a semicolon are read as a statement. -/
theorem reads_expression (h : Reads d g.expression (Ends 0) u n e n') :
    Reads (d + 1) (expressionStatement g) stop (u ++ [mark .semicolon]) n (.expression e) n' :=
  h.bind_before (reads_close (mark_kind _) reads_pure) (List.cons_ne_nil _ _) fun _ _ =>
    ends_closer (by decide)

theorem reads_return_none {keyword : Token} :
    Reads c (returnStatement g keyword) stop [mark .semicolon] n (.ret keyword none) n :=
  reads_found (mark_kind _) (reads_close (mark_kind _) reads_pure)

/-- An expression and a semicolon are read as what is returned. -/
theorem reads_return_some {keyword : Token} (h : Reads c g.expression (Ends 0) u n e n')
    (hu : Begins u) :
    Reads c (returnStatement g keyword) stop (u ++ [mark .semicolon]) n (.ret keyword (some e))
      n' := by
  have hbegins : Begins (u ++ [mark .semicolon]) := hu.append (by simp)
  refine reads_unfound hbegins.ne_nil (hbegins.lacks (by decide)) ?_
  exact h.map.bind (reads_close (mark_kind _) reads_pure) fun _ _ => ends_closer (by decide)

/-- A condition in parentheses, behind the word that demands one. -/
theorem Reads.tested {f : Expr → Parser β} {message message' : String}
    (h : Reads c g.expression (Ends 0) u n e n₁) (hf : Reads c (f e) stop v n₁ b n₂) :
    Reads c (expect .leftParen message >>= fun _ => g.expression >>= fun e =>
      expect .rightParen message' >>= fun _ => f e) stop (parenthesized u ++ v) n b n₂ := by
  have hrest := h.bind (f := fun e => expect .rightParen message' >>= fun _ => f e)
    (reads_close (mark_kind _) hf) fun _ _ => ends_closer (by decide)
  rw [List.append_cons] at hrest
  exact reads_close (mark_kind _) hrest

/-- A condition in parentheses and a block are read as a loop. -/
theorem reads_while (hcondition : Reads c g.expression (Ends 0) u n condition n₁)
    (hbody : Reads c g.block anything (v ++ [mark .rightBrace]) n₁ body n') :
    Reads c (whileStatement g) stop (parenthesized u ++ braced v) n
      (.loop condition (.block body)) n' :=
  hcondition.tested (reads_close (mark_kind _)
    ((hbody.stops fun _ _ => trivial).followed reads_pure))

/-- A conditional with a block. -/
theorem reads_branch {bound : Nat} {elsePart? : Option Stmt} {w : List Token}
    (hcondition : Reads c g.expression (Ends 0) u n condition n₁)
    (hbody : Reads c g.block anything (v ++ [mark .rightBrace]) n₁ body n₂)
    (helse : Reads c (do
      if (← accept? .elseWord).isSome then
        if (← accept? .ifWord).isSome then
          let elsePart ← conditional g bound
          pure (Stmt.branch condition (.block body) (some elsePart))
        else
          let _ ← expect .leftBrace "Expect '\x7b' after 'else'."
          let elsePart ← g.block
          pure (Stmt.branch condition (.block body) (some (.block elsePart)))
      else pure (Stmt.branch condition (.block body) none)) stop w n₂
      (.branch condition (.block body) elsePart?) n') :
    Reads c (conditional g (bound + 1)) stop (parenthesized u ++ (braced v ++ w)) n
      (.branch condition (.block body) elsePart?) n' := by
  refine hcondition.tested ((reads_taken (mark_kind _) ?_).mono (Nat.le_succ c))
  exact hbody.bind helse fun _ _ => trivial

/-- A conditional without another branch is read. -/
theorem reads_branch_none {bound : Nat}
    (hcondition : Reads c g.expression (Ends 0) u n condition n₁)
    (hbody : Reads c g.block anything (v ++ [mark .rightBrace]) n₁ body n') :
    Reads c (conditional g (bound + 1)) Apart (parenthesized u ++ (braced v ++ [])) n
      (.branch condition (.block body) none) n' := by
  refine reads_branch hcondition hbody (reads_passed (fun k hk t ht hkind => ?_) reads_pure)
  exact hk t ht (by rw [hkind]; decide)

/-- A conditional with two blocks is read. -/
theorem reads_branch_block {bound : Nat} {other : List Stmt} {w : List Token}
    (hcondition : Reads c g.expression (Ends 0) u n condition n₁)
    (hbody : Reads c g.block anything (v ++ [mark .rightBrace]) n₁ body n₂)
    (hother : Reads c g.block anything (w ++ [mark .rightBrace]) n₂ other n') :
    Reads c (conditional g (bound + 1)) stop
      (parenthesized u ++ (braced v ++ mark .elseWord :: braced w)) n
      (.branch condition (.block body) (some (.block other))) n' := by
  refine reads_branch hcondition hbody ((reads_taken (mark_kind _) ?_).mono (Nat.le_succ c))
  refine reads_other (by decide) (reads_close (mark_kind _) ?_)
  exact (hother.stops fun _ _ => trivial).followed reads_pure

/-- A conditional goes on with another conditional. -/
theorem reads_branch_branch {bound : Nat} {other : Stmt} {w : List Token}
    (hcondition : Reads c g.expression (Ends 0) u n condition n₁)
    (hbody : Reads c g.block anything (v ++ [mark .rightBrace]) n₁ body n₂)
    (hother : Reads c (conditional g bound) stop w n₂ other n') :
    Reads c (conditional g (bound + 1)) stop
      (parenthesized u ++ (braced v ++ mark .elseWord :: mark .ifWord :: w)) n
      (.branch condition (.block body) (some other)) n' := by
  refine reads_branch hcondition hbody ((reads_taken (mark_kind _) ?_).mono (Nat.le_succ c))
  refine (reads_taken (mark_kind _) ?_).mono (Nat.le_succ c)
  exact hother.followed reads_pure

/-- A conditional may have a simple statement in the place of a block. -/
theorem reads_branch_simple {bound : Nat} {s : Stmt}
    (hcondition : Reads c g.expression (Ends 0) u n condition n₁)
    (hs : Reads c (simpleStatement g) stop (t :: v) n₁ s n') (ht : t.kind ≠ .leftBrace) :
    Reads c (conditional g (bound + 1)) stop (parenthesized u ++ (t :: v)) n
      (.branch condition s none) n' :=
  hcondition.tested (reads_other ht (hs.followed reads_pure))

/-- A handler with its parameter, if it has one. -/
theorem reads_catch {param? : Option Token} (hparam : ∀ t ∈ param?, t.kind = .identifier)
    (hbody : Reads c g.block anything (u ++ [mark .rightBrace]) n body n') :
    Reads c (catchClause g) stop (parenthesized param?.toList ++ braced u) n (param?, body)
      n' := by
  have hrest : ∀ param? : Option Token, Reads c (do
      let _ ← expect .rightParen "Expect ')' after catch parameter."
      let _ ← expect .leftBrace "Expect '\x7b' after catch parameter."
      pure (param?, ← g.block)) stop (mark .rightParen :: braced u) n (param?, body) n' :=
    fun param? => reads_close (mark_kind _) (reads_close (mark_kind _)
      ((hbody.stops fun _ _ => trivial).followed reads_pure))
  refine reads_close (mark_kind _) ?_
  cases param? with
  | none => exact reads_other (by decide) (hrest none)
  | some t => exact (reads_taken (hparam t rfl) (hrest (some t))).mono (Nat.le_succ c)

/-- The two clauses of a try statement, either of which may be left out. -/
theorem reads_try {handler? : Option (Option Token × List Stmt)} {cleanup? : Option (List Stmt)}
    {w : List Token} (hsome : handler?.isSome ∨ cleanup?.isSome)
    (hbody : Reads c g.block anything (u ++ [mark .rightBrace]) n body n₁)
    (hhandler : handler? = none ∧ v = [] ∧ n₂ = n₁ ∨ ∃ handler v', handler? = some handler ∧
      v = mark .catchWord :: v' ∧ Reads c (catchClause g) anything v' n₁ handler n₂)
    (hcleanup : cleanup? = none ∧ w = [] ∧ n' = n₂ ∨ ∃ cleanup w', cleanup? = some cleanup ∧
      w = mark .finallyWord :: braced w' ∧
      Reads c g.block anything (w' ++ [mark .rightBrace]) n₂ cleanup n') :
    Reads c (tryStatement g) Apart (braced u ++ (v ++ w)) n
      (.attempt body (handler?.bind (·.1)) (handler?.map (·.2)) cleanup?) n' := by
  have hend : Reads c (do
      if handler?.isNone && cleanup?.isNone then failHere "Expect catch or finally block."
      pure (Stmt.attempt body (handler?.bind (·.1)) (handler?.map (·.2)) cleanup?)) Apart [] n'
      (.attempt body (handler?.bind (·.1)) (handler?.map (·.2)) cleanup?) n' := by
    have hnone : ¬ (handler?.isNone && cleanup?.isNone) = true := by
      cases handler? <;> cases cleanup? <;> simp at hsome ⊢
    dsimp only
    rw [if_neg hnone]
    exact reads_pure
  have hlacks : ∀ {kind : TokenKind}, kind ∈ [.elseWord, .catchWord, .finallyWord] →
      ∀ k, Apart k → Lacks kind k :=
    fun hmem k hk t ht hkind => hk t ht (hkind ▸ hmem)
  have hfinally : Reads c (do
      let cleanup? ←
        if (← accept? .finallyWord).isSome then do
          let _ ← expect .leftBrace "Expect '\x7b' after finally."
          some <$> g.block
        else pure none
      if handler?.isNone && cleanup?.isNone then failHere "Expect catch or finally block."
      pure (Stmt.attempt body (handler?.bind (·.1)) (handler?.map (·.2)) cleanup?)) Apart w n₂
      (.attempt body (handler?.bind (·.1)) (handler?.map (·.2)) cleanup?) n' := by
    rcases hcleanup with ⟨rfl, rfl, rfl⟩ | ⟨cleanup, w', rfl, rfl, hcleanup⟩
    · exact reads_passed (hlacks (by decide)) hend
    · refine (reads_taken (mark_kind _) (reads_close (mark_kind _) ?_)).mono (Nat.le_succ c)
      exact (hcleanup.stops fun _ _ => trivial).map.followed hend
  refine reads_close (mark_kind _) (hbody.bind ?_ fun _ _ => trivial)
  rcases hhandler with ⟨rfl, rfl, rfl⟩ | ⟨handler, v', rfl, rfl, hhandler⟩
  · refine reads_passed (fun k hk t ht hkind => ?_) hfinally
    rcases hcleanup with ⟨-, rfl, -⟩ | ⟨cleanup, w', -, rfl, -⟩
    · exact hk t ht (by rw [hkind]; decide)
    · obtain rfl : mark .finallyWord = t := Option.some.inj ht
      exact absurd hkind (by decide)
  · refine (reads_taken (mark_kind _) ?_).mono (Nat.le_succ c)
    exact hhandler.map.bind hfinally fun _ _ => trivial

end Statements

/-! ## Blocks -/

section Blocks

variable {g : Grammar} {inBlock : Bool} {bound : Nat} {done all : List Stmt} {s s' : Stmt}

/-- The end of the source or, inside a block, its closing brace. -/
def Closes (inBlock : Bool) (k : List Token) : Prop :=
  ∀ t ∈ k.head?, inBlock = true ∧ t.kind = .rightBrace

/-- The end of a block continues no statement. -/
theorem Closes.apart {k : List Token} (h : Closes inBlock k) : Apart k := by
  intro t ht
  rw [(h t ht).2]
  decide

/-- What is read without an error needs no recovery. -/
theorem reads_recovering (h : Reads c p stop u n a n') :
    Reads c (recovering p) stop u n (some a) n' := by
  refine ⟨fun hlen s k hrest hnext hk => ?_⟩
  obtain ⟨s', hp, hs'⟩ := h.run hlen s k hrest hnext hk
  refine ⟨s', ?_, hs'⟩
  unfold recovering
  rw [hp]

/-- At the end of a block there is no declaration to read. -/
theorem reads_declarations_nil :
    Reads c (declarationsUpTo g inBlock bound done) (Closes inBlock) [] n done.reverse n := by
  cases bound with
  | zero => exact reads_pure
  | succ bound =>
    refine reads_get (q := pure done.reverse) (fun s k hrest hk => ?_) reads_pure
    cases hs : s.rest with
    | nil => rfl
    | cons t rest =>
      rw [List.nil_append] at hrest
      obtain ⟨rfl, ht⟩ := hk t (by rw [← hrest, hs]; rfl)
      dsimp only
      rw [ht]
      rfl

/-- One declaration and then the others are read. -/
theorem reads_declarations_cons (hs : Reads c (declaration g) Apart (t :: u) n s n₁)
    (ht : t.kind ≠ .rightBrace) (hbound : (t :: (u ++ v)).length ≤ bound)
    (hothers : ∀ bound, v.length ≤ bound →
      Reads c (declarationsUpTo g inBlock bound (s :: done)) stop v n₁ all n₂)
    (hstop : ∀ k, stop k → Apart (v ++ k)) :
    Reads c (declarationsUpTo g inBlock bound done) stop (t :: u ++ v) n all n₂ := by
  obtain ⟨bound, rfl, hrest⟩ := succ_of_cons_length_le hbound
  rw [List.length_append] at hrest
  have hv := hothers bound (Nat.le_trans (Nat.le_add_left _ _) hrest)
  refine reads_get (fun s k hs _ => ?_) ((reads_recovering hs).bind
    (f := fun next? => declarationsUpTo g inBlock bound (next?.toList ++ done)) hv hstop)
  rw [hs]
  dsimp only [List.cons_append]
  rw [if_neg (by simp [ht])]

/-- Declarations and a closing brace are read as a block. -/
theorem reads_block
    (h : ∀ bound, u.length ≤ bound →
      Reads c (declarationsUpTo g true bound []) (Closes true) u n all n') :
    Reads c (block g) anything (u ++ [mark .rightBrace]) n all n' := by
  refine reads_remaining fun bound hbound => ?_
  rw [List.length_append] at hbound
  refine (h bound (Nat.le_trans (Nat.le_add_right _ _) hbound)).bind
    (reads_close (mark_kind _) reads_pure) fun k _ t ht => ⟨rfl, ?_⟩
  obtain rfl : mark .rightBrace = t := Option.some.inj ht
  rfl

/-! ## Choosing the production -/

/-- The token by which a statement is known. An expression has none. -/
def opener : Stmt → Token
  | .expression _ => default
  | .print _ => mark .printWord
  | .var _ _ => mark .varWord
  | .block _ => mark .leftBrace
  | .branch _ _ _ => mark .ifWord
  | .loop _ _ => mark .whileWord
  | .function _ => mark .functionWord
  | .ret keyword _ => keyword
  | .classDecl _ _ _ => mark .classWord
  | .importFrom _ _ => mark .fromWord
  | .exported _ => mark .exportWord
  | .throw keyword _ => keyword
  | .attempt _ _ _ _ => mark .tryWord

/-- The production of a statement behind that token. -/
def behind (g : Grammar) (bound : Nat) : Stmt → Parser Stmt
  | .expression _ => expressionStatement g
  | .print _ => printStatement g
  | .var _ _ => varDeclaration g
  | .block _ => .block <$> g.block
  | .branch _ _ _ => conditional g bound
  | .loop _ _ => whileStatement g
  | .function _ => .function <$> functionDeclaration g "function"
  | .ret keyword _ => returnStatement g keyword
  | .classDecl _ _ _ => classDeclaration g
  | .importFrom _ _ => importStatement
  | .exported _ => exportDeclaration g
  | .throw keyword _ => throwStatement g keyword
  | .attempt _ _ _ _ => tryStatement g

/-- A statement is not read as an expression if it is known by its first token. -/
def Opened : Stmt → Prop
  | .expression _ => False
  | _ => True

/-- A statement whose first token tells what it is. -/
theorem reads_opened (hs : Regular s) (hopened : Opened s)
    (h : ∀ bound, u.length ≤ bound → Reads d (behind g bound s) stop u n s' n') :
    Reads (d + 1) (declaration g) stop (opener s :: u) n s' n' := by
  have hread := h u.length (Nat.le_refl _)
  cases s with
  | expression e => exact hopened.elim
  | exported inner => exact reads_taken rfl hread
  | classDecl name superclasses methods =>
    refine reads_other (by simp [opener]) ?_
    exact reads_taken rfl hread
  | function decl =>
    iterate 2 refine reads_other (by simp [opener]) ?_
    exact reads_taken rfl hread
  | var name init? =>
    iterate 3 refine reads_other (by simp [opener]) ?_
    exact reads_taken rfl hread
  | importFrom path items =>
    iterate 4 refine reads_other (by simp [opener]) ?_
    exact reads_taken rfl hread
  | branch condition thenPart elsePart? =>
    iterate 5 refine reads_other (by simp [opener]) ?_
    exact reads_taken rfl (reads_remaining h)
  | loop condition body =>
    iterate 6 refine reads_other (by simp [opener]) ?_
    exact reads_taken rfl hread
  | print value =>
    iterate 8 refine reads_other (by simp [opener]) ?_
    exact reads_taken rfl hread
  | ret keyword value? =>
    have hkind : keyword.kind = .returnWord := hs.1
    iterate 9 refine reads_other (by simp [opener, hkind]) ?_
    exact reads_taken hkind hread
  | throw keyword value =>
    have hkind : keyword.kind = .throwWord := hs.1
    iterate 10 refine reads_other (by simp [opener, hkind]) ?_
    exact reads_taken hkind hread
  | attempt body param? handler? cleanup? =>
    iterate 11 refine reads_other (by simp [opener]) ?_
    exact reads_taken rfl hread
  | block body =>
    iterate 12 refine reads_other (by simp [opener]) ?_
    exact reads_taken rfl hread

/-- An expression as a statement, which must not begin like a block. -/
theorem reads_unopened (h : Reads c (expressionStatement g) stop (t :: u) n s n')
    (ht : t.kind ∈ starters) (hbrace : t.kind ≠ .leftBrace) :
    Reads c (declaration g) stop (t :: u) n s n' := by
  have hne : ∀ {kind : TokenKind}, kind ∉ starters → t.kind ≠ kind :=
    fun hkind heq => hkind (heq ▸ ht)
  iterate 12 refine reads_other (hne (by decide)) ?_
  exact reads_other hbrace h

/-- A statement in place of a block whose first token tells what it is. -/
theorem reads_simple (hs : Regular s) (hopened : Opened s) (hsimple : Simple s)
    (h : ∀ bound, u.length ≤ bound → Reads c (behind g bound s) stop u n s' n') :
    Reads c (simpleStatement g) stop (opener s :: u) n s' n' := by
  have hread := h u.length (Nat.le_refl _)
  refine Reads.mono ?_ (Nat.le_succ c)
  cases s with
  | ret keyword value? => exact reads_taken hs.1 hread
  | print value =>
    refine reads_other (by simp [opener]) ?_
    exact reads_taken rfl hread
  | throw keyword value =>
    have hkind : keyword.kind = .throwWord := hs.1
    iterate 2 refine reads_other (by simp [opener, hkind]) ?_
    exact reads_taken hkind hread
  | expression e => exact hopened.elim
  | _ => exact hsimple.elim

/-- A statement that begins with no keyword is an expression. -/
theorem reads_simple_unopened (h : Reads c (expressionStatement g) stop (t :: u) n s n')
    (ht : t.kind ∈ starters) : Reads c (simpleStatement g) stop (t :: u) n s n' := by
  have hne : ∀ {kind : TokenKind}, kind ∉ starters → t.kind ≠ kind :=
    fun hkind heq => hkind (heq ▸ ht)
  iterate 3 refine reads_other (hne (by decide)) ?_
  exact h

/-- An exported declaration. -/
theorem reads_exported (hexportable : Exportable s)
    (h : ∀ bound, u.length ≤ bound → Reads c (behind g bound s) stop u n s' n') :
    Reads c (exportDeclaration g) stop (opener s :: u) n (.exported s') n' := by
  have hread := h u.length (Nat.le_refl _)
  refine Reads.mono ?_ (Nat.le_succ c)
  cases s with
  | classDecl name superclasses methods => exact reads_taken rfl hread.map
  | function decl =>
    refine reads_other (by simp [opener]) ?_
    refine reads_taken rfl ?_
    show Reads c ((Stmt.exported ∘ Stmt.function) <$> functionDeclaration g "function") _ _ _ _ _
    rw [comp_map]
    exact hread.map
  | var name init? =>
    iterate 2 refine reads_other (by simp [opener]) ?_
    exact reads_taken rfl hread.map
  | _ => exact hexportable.elim

end Blocks

end ScriptEngine.Parser
