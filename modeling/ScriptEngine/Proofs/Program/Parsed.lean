import ScriptEngine.Proofs.Program.JoiningStatements

/-!
# What is parsed

Three results about whole programs. A program that was parsed is of the form that the grammar gives
(`parse_regular`). If it is written as tokens, then these are parsed as the same program, up to
lines and numbers (`parse_written`). And if the tokens of two programs are put behind each other,
then they are parsed as the statements of the first one and then those of the second one, with the
numbers that it gets when it is parsed behind the first one (`parse_append`).
-/

namespace ScriptEngine.Parser

open Writing Relabeling

section Declarations

variable {f : Relabeling} {k : List Token} {g : Grammar} {d d' i : Nat} {inBlock : Bool}
  {s s' : ParseState} {done ss : List Stmt}

/-- Without tokens the statements that were read are all there are. -/
theorem declarationsUpTo_nil (hs : s.rest = []) :
    declarationsUpTo g inBlock i done s = .ok done.reverse s := by
  cases i with
  | zero => rfl
  | succ i =>
    unfold declarationsUpTo
    refine bind_of_ok (c := s) rfl ?_
    rw [hs]
    rfl

/-- With a token left another statement is read, or an error recovered from. -/
theorem declarationsUpTo_cons {x : Token} {rest : List Token} (hs : s.rest = x :: rest) :
    declarationsUpTo g false (i + 1) done s =
      (recovering (declaration g) >>= fun next? =>
        declarationsUpTo g false i (next?.toList ++ done)) s := by
  have hget : ∀ y : ParseState → Parser (List Stmt), (get >>= y) s = y s s := fun _ => rfl
  rw [declarationsUpTo, hget, hs]
  rfl

/-- The declarations of a source are read in the same way behind others as part of a longer source,
and they are of the form that the grammar gives. -/
theorem declarations_joined (before : List Stmt) (hd : d ≤ d') (hk : Apart k) (i : Nat) :
    ∀ {s s' : ParseState} {done ss : List Stmt},
      declarationsUpTo (grammar d) false i done s = .ok ss s' → s'.errors = [] →
      s.errors = [] ∧ (s.rest.length ≤ i → s'.rest = [] ∧
        ((∀ x ∈ done, Regular x) → ∀ x ∈ ss, Regular x) ∧
        ∀ t i', Linked f k s t → t.rest.length ≤ i' → ∃ t' i'', Linked f k s' t' ∧ k.length ≤ i'' ∧
          declarationsUpTo (grammar d') false i' (done.map f.stmt ++ before) t =
            declarationsUpTo (grammar d') false i'' ((ss.map f.stmt).reverse ++ before)
              t') := by
  -- At the end of the source nothing is read.
  have hend : ∀ {s : ParseState} {done : List Stmt}, s.errors = [] → s.rest = [] →
      ((∀ x ∈ done, Regular x) → ∀ x ∈ done.reverse, Regular x) ∧
      ∀ t i', Linked f k s t → t.rest.length ≤ i' → ∃ t' i'', Linked f k s t' ∧ k.length ≤ i'' ∧
        declarationsUpTo (grammar d') false i' (done.map f.stmt ++ before) t =
          declarationsUpTo (grammar d') false i''
            ((done.reverse.map f.stmt).reverse ++ before) t' := by
    intro s done _ hs
    refine ⟨fun h x hx => h x (List.mem_reverse.mp hx), fun t i' ht hlen => ⟨t, i', ht, ?_, ?_⟩⟩
    · rw [ht.rest, hs] at hlen
      exact hlen
    · rw [List.map_reverse, List.reverse_reverse]
  induction i with
  | zero =>
    intro s s' done ss hrun herrors
    cases hrun
    refine ⟨herrors, fun hlen => ?_⟩
    have hs : s.rest = [] := List.length_eq_zero_iff.mp (Nat.le_zero.mp hlen)
    exact ⟨hs, hend herrors hs⟩
  | succ i ih =>
    intro s s' done ss hrun herrors
    cases hs : s.rest with
    | nil =>
      rw [declarationsUpTo_nil hs] at hrun
      cases hrun
      exact ⟨herrors, fun _ => ⟨hs, hend herrors hs⟩⟩
    | cons x rest =>
      rw [declarationsUpTo_cons hs] at hrun
      obtain ⟨next?, s₁, hnext, hothers⟩ := ok_of_bind hrun
      obtain ⟨herrors₁, hothers⟩ := ih hothers herrors
      have htracks := tracks_recovering (tracks_declaration (H := True) (b := s.rest.length)
        (grammar_tracks (f := f) hk d hd)) s next? s₁ hnext herrors₁
      obtain ⟨⟨herrors₀, -, hless⟩, hlink⟩ := htracks
      refine ⟨herrors₀, fun hlen => ?_⟩
      have hlen₁ : s₁.rest.length ≤ i := by
        have hlt := hless rfl
        rw [hs] at hlt
        omega
      obtain ⟨hrest', hregular, hjoined⟩ := hothers hlen₁
      obtain ⟨⟨statement, rfl, hstatement⟩, hlink⟩ := hlink (Nat.le_refl _) trivial
      refine ⟨hrest', fun h => hregular (List.forall_mem_cons.mpr ⟨hstatement, h⟩), ?_⟩
      intro t i' ht hi'
      obtain ⟨t₁, hnext', ht₁⟩ := hlink t ht nofun
      have hhead := ht.head hs
      -- The longer source has a token to read as well, and its bound is as large.
      obtain ⟨i', rfl⟩ : ∃ j, i' = j + 1 := by
        rw [hhead, List.length_cons] at hi'
        exact ⟨i' - 1, by omega⟩
      have hi₁ : t₁.rest.length ≤ i' := by
        have hlt := hless rfl
        rw [ht.rest, List.length_append, List.length_map] at hi'
        rw [ht₁.rest, List.length_append, List.length_map]
        omega
      obtain ⟨t', i'', ht', hi'', hsame⟩ := hjoined t₁ i' ht₁ hi₁
      refine ⟨t', i'', ht', hi'', ?_⟩
      rw [declarationsUpTo_cons hhead, ← hsame]
      show EStateM.bind _ _ t = _
      rw [EStateM.bind, hnext']
      rfl

/-- No declaration begins with a word that goes on with a statement. -/
theorem declaration_not_ok {x : Token} {rest : List Token} {a : Stmt} (hs : s.rest = x :: rest)
    (hx : x.kind ∈ [.elseWord, .catchWord, .finallyWord]) :
    declaration (grammar (d + 1)) s ≠ .ok a s' := by
  intro h
  have hskip : ∀ {kinds : List TokenKind},
      (∀ kind ∈ kinds, kind ∉ [.elseWord, .catchWord, .finallyWord]) → x.kind ∉ kinds :=
    fun hkinds hmem => hkinds _ hmem hx
  iterate 13 replace h := skip_of_ok hs (hskip (by decide)) h
  obtain ⟨e, s₁, h, -⟩ := ok_of_bind h
  obtain ⟨e, s₁, h, -⟩ := ok_of_bind (x := disjunction (grammar d)) h
  iterate 7 obtain ⟨e, s₁, h, -⟩ := ok_of_bind h
  have hcall : call (grammar d) s = .ok e s₁ := by
    change unaryUpTo (grammar d) s.count s = .ok e s₁ at h
    cases hcount : s.count with
    | zero =>
      rw [hcount] at h
      exact h
    | succ i =>
      rw [hcount] at h
      exact skip_of_ok hs (hskip (by decide)) h
  obtain ⟨e, s₁, h, -⟩ := ok_of_bind hcall
  rw [primary_eq] at h
  replace h := skip_of_ok hs (hskip (by decide)) h
  have harrow : startsArrow s.rest = false := by
    have hparen : x.kind ≠ .leftParen := fun heq => hskip (by decide)
      (List.mem_singleton.mpr heq)
    rw [hs]
    cases rest <;> simp [startsArrow, hparen]
  change (if startsArrow s.rest then _ else primaryTail (grammar d)) s = .ok e s₁ at h
  rw [harrow] at h
  iterate 10 replace h := skip_of_ok hs (hskip (by decide)) h
  cases h

end Declarations

section Programs

variable {first : ExprId} {tokens : List Token} {p q : List Stmt}

/-- The tokens that are read. -/
def beforeEnd (tokens : List Token) : List Token := tokens.takeWhile (·.kind ≠ .eof)

/-- What stands before the end of some solid tokens are those tokens. -/
theorem beforeEnd_append_end {u : List Token} (hu : Solid u) (line : Nat) :
    beforeEnd (u ++ [Token.endOf line]) = u := by
  have hall : ∀ t ∈ u, decide (t.kind ≠ .eof) = true := fun t ht => decide_eq_true (hu t ht)
  unfold beforeEnd
  rw [List.takeWhile_append_of_pos hall]
  simp [Token.endOf]

/-- A program is parsed if its declarations are read to the end without an error. -/
theorem parse_eq {s : ParseState}
    (hrun : declarationsUpTo (grammar ((beforeEnd tokens).length + 1)) false
      (beforeEnd tokens).length [] (start first tokens) = .ok p s) (herrors : s.errors = []) :
    parse first tokens = ⟨.ok p, s.nextId⟩ := by
  have hprogram : program (start first tokens) = .ok p s := hrun
  unfold parse
  rw [hprogram]
  dsimp only
  rw [herrors]
  rfl

/-- A program that was accepted was read statement by statement, without an error. -/
theorem run_of_parsed (h : (parse first tokens).result = .ok p) :
    ∃ s, declarationsUpTo (grammar ((beforeEnd tokens).length + 1)) false
        (beforeEnd tokens).length [] (start first tokens) = .ok p s ∧
      s.errors = [] ∧ (parse first tokens).nextId = s.nextId := by
  unfold parse at h
  split at h
  · next p' s hrun =>
    dsimp only at h
    split at h
    · next hempty =>
      cases h
      have herrors : s.errors = [] := List.isEmpty_iff.mp hempty
      exact ⟨s, hrun, herrors, congrArg Parsed.nextId (parse_eq hrun herrors)⟩
    · cases h
  · cases h

/-- A program that was parsed is of the form that the grammar gives. -/
theorem parse_regular (h : (parse first tokens).result = .ok p) : RegularAll p := by
  obtain ⟨s, hrun, herrors, -⟩ := run_of_parsed h
  obtain ⟨-, hall⟩ := declarations_joined (f := same) (k := []) [] (Nat.le_refl _) apart_nil _
    hrun herrors
  exact regularAll_iff.mpr ((hall (Nat.le_refl _)).2.1 (List.forall_mem_nil _))

/-- No program begins with a word that goes on with a statement. -/
theorem apart_of_parsed (h : (parse first tokens).result = .ok p) : Apart (beforeEnd tokens) := by
  intro x hx hmem
  obtain ⟨s, hrun, herrors, -⟩ := run_of_parsed h
  cases hs : beforeEnd tokens with
  | nil => rw [hs] at hx; cases hx
  | cons y rest =>
    rw [hs] at hx hrun
    obtain rfl : y = x := Option.some.inj hx
    have hstart : (start first tokens).rest = y :: rest := hs
    rw [List.length_cons, declarationsUpTo_cons hstart] at hrun
    obtain ⟨next?, s₁, hnext, hothers⟩ := ok_of_bind hrun
    have herrors₁ := (declarations_joined (f := same) (k := []) [] (Nat.le_refl _) apart_nil _
      hothers herrors).1
    unfold recovering at hnext
    split at hnext
    · next a s₂ hdeclaration => exact declaration_not_ok hstart hmem hdeclaration
    · cases hnext
      cases herrors₁

/-- A program that was parsed, written as tokens, is parsed as the same program up to lines and
numbers, unless one of its expression statements begins with a brace. -/
theorem parse_written (first first' : ExprId) (tokens : List Token) (p : List Stmt) (line : Nat)
    (hp : (parse first tokens).result = .ok p) (hbraces : everyStmts Unbraced p) :
    ∃ p', (parse first' (stmtsTokens p ++ [Token.endOf line])).result = .ok p' ∧
      blank.stmts p' = blank.stmts p := by
  obtain ⟨p', n', hsame, hreads⟩ := (readable_body p (parse_regular hp) hbraces).reads first'
  have hbody := hreads ((stmtsTokens p).length + 1) false (stmtsTokens p).length [] (Nat.le_refl _)
  have hall : beforeEnd (stmtsTokens p ++ [Token.endOf line]) = stmtsTokens p :=
    beforeEnd_append_end (solid_stmts p (parse_regular hp)) line
  have hstart : (start first' (stmtsTokens p ++ [Token.endOf line])).rest = stmtsTokens p ++ [] :=
    hall.trans (List.append_nil _).symm
  obtain ⟨s, hrun, -, herrors, -⟩ := hbody.run (by omega) _ [] hstart rfl nofun
  have hparse : parse first' (stmtsTokens p ++ [Token.endOf line]) = _ :=
    parse_eq (by rw [hall]; exact hrun) herrors
  exact ⟨p', by rw [hparse]; rfl, hsame⟩

/-- A loop around an arrow function without braces, which gets them when it is written. -/
theorem parse_written_loop :
    ∃ p, (parse 0 [mark .whileWord, mark .leftParen, .named "a" 1, mark .rightParen,
        mark .leftBrace, .named "a" 2, mark .equal, mark .leftParen, .named "b" 2, mark .rightParen,
        mark .arrow, .named "b" 3, mark .semicolon, mark .rightBrace]).result = .ok p ∧
      ∃ p', (parse 20 (stmtsTokens p ++ [Token.endOf 4])).result = .ok p' ∧
        blank.stmts p' = blank.stmts p := by
  have hp : (parse 0 [mark .whileWord, mark .leftParen, .named "a" 1, mark .rightParen,
        mark .leftBrace, .named "a" 2, mark .equal, mark .leftParen, .named "b" 2, mark .rightParen,
        mark .arrow, .named "b" 3, mark .semicolon, mark .rightBrace]).result =
      .ok [.loop (.reference ⟨0, .named "a" 1⟩) (.block [.expression (.assign 4 (.named "a" 2)
        (.lambda 3 (.mk (.named "anonymous" 0) [.named "b" 2]
          [.ret ⟨.returnWord, "return", none, 0⟩ (some (.reference ⟨2, .named "b" 3⟩))]
            true)))])] := rfl
  refine ⟨_, hp, parse_written 0 20 _ _ 4 hp ?_⟩
  simp [everyStmts, everyStmt, everyExpr, everyExpr?, everyDecl, Unbraced, exprTokens, Token.named]

/-- Two programs whose tokens stand behind each other, those of the second one on other lines. Its
expressions get the numbers behind those of the first one. -/
theorem parse_append {f : Relabeling} {second : ExprId} {us all : List Token}
    (hp : (parse first tokens).result = .ok p) (hq : (parse second us).result = .ok q)
    (hf : ∀ i, f.number (second + i) = (parse first tokens).nextId + i)
    (hall : beforeEnd all = beforeEnd tokens ++ (beforeEnd us).map f.token) :
    (parse first all).result = .ok (p ++ q.map f.stmt) ∧
      (parse first all).nextId = f.number (parse second us).nextId := by
  have hlen : (beforeEnd all).length = (beforeEnd tokens).length + (beforeEnd us).length := by
    rw [hall, List.length_append, List.length_map]
  have hapart : Apart ((beforeEnd us).map f.token) := by
    intro x hx
    rw [List.head?_map] at hx
    obtain ⟨y, hy, rfl⟩ := Option.map_eq_some_iff.mp hx
    exact apart_of_parsed hq y hy
  obtain ⟨s₁, hrun₁, herrors₁, hnext₁⟩ := run_of_parsed hp
  obtain ⟨s₂, hrun₂, herrors₂, hnext₂⟩ := run_of_parsed hq
  -- The first program, with the second one behind it.
  have hdeep₁ : (beforeEnd tokens).length + 1 ≤ (beforeEnd all).length + 1 := by omega
  obtain ⟨-, hjoined⟩ := declarations_joined (f := same) [] hdeep₁ hapart _ hrun₁ herrors₁
  obtain ⟨hrest₁, -, hjoined⟩ := hjoined (Nat.le_refl _)
  obtain ⟨t₁, i₁, ht₁, hi₁, hsame₁⟩ := hjoined (start first all) (beforeEnd all).length
    ⟨by
      show beforeEnd all = (beforeEnd tokens).map same.token ++ _
      rw [map_same token_same, hall], rfl, fun _ => rfl⟩ (Nat.le_refl _)
  have hcount₁ : s₁.nextId = t₁.nextId := ht₁.numbers 0
  -- The second program, behind the statements of the first one.
  have hdeep₂ : (beforeEnd us).length + 1 ≤ (beforeEnd all).length + 1 := by omega
  obtain ⟨-, hjoined⟩ := declarations_joined (f := f) (k := []) (p.map same.stmt).reverse
    hdeep₂ apart_nil _ hrun₂ herrors₂
  obtain ⟨hrest₂, -, hjoined⟩ := hjoined (Nat.le_refl _)
  obtain ⟨t₂, i₂, ht₂, -, hsame₂⟩ := hjoined t₁ i₁
    ⟨by
      rw [ht₁.rest, hrest₁, List.append_nil]
      rfl, ht₁.errors, fun i => by
      rw [← hcount₁, ← hnext₁]
      exact hf i⟩ (by
      rw [ht₁.rest, hrest₁]
      exact hi₁)
  have hrun : declarationsUpTo (grammar ((beforeEnd all).length + 1)) false
      (beforeEnd all).length [] (start first all) = .ok (p ++ q.map f.stmt) t₂ := by
    refine hsame₁.trans ?_
    rw [List.append_nil]
    refine hsame₂.trans ?_
    rw [declarationsUpTo_nil (by rw [ht₂.rest, hrest₂]; rfl), map_same stmt_same,
      List.reverse_append, List.reverse_reverse, List.reverse_reverse]
  rw [parse_eq hrun ht₂.errors]
  exact ⟨rfl, by rw [hnext₂]; exact (ht₂.numbers 0).symm⟩

/-- The numbers of expressions do not matter to what is parsed. -/
theorem parse_renumbered {f : Relabeling} {first' : ExprId}
    (hp : (parse first tokens).result = .ok p) (hlines : f.line = id)
    (hf : ∀ i, f.number (first + i) = first' + i) :
    (parse first' tokens).result = .ok (f.stmts p) ∧
      (parse first' tokens).nextId = f.number (parse first tokens).nextId := by
  have htoken : ∀ t, f.token t = t := fun t => by
    rw [token, hlines]
    rfl
  -- The program stands behind one without tokens.
  have hnone : parse first' [] = ⟨.ok [], first'⟩ := rfl
  rw [stmts_eq_map]
  refine parse_append (f := f) (show (parse first' []).result = .ok [] by rw [hnone]) hp ?_ ?_
  · rw [hnone]
    exact hf
  · rw [map_same htoken]
    rfl

end Programs

end ScriptEngine.Parser
