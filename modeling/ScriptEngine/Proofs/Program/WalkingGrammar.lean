import ScriptEngine.Proofs.Program.Walking

/-!
# The grammar by position

Every production leads where its counterpart by position leads. What bounds the depth of a grammar
is the number of tokens that are left: a grammar for nesting up to `n` serves wherever fewer than
`n` tokens are. Between two nested expressions at least one token is read, so the bound goes down
with the depth. A declaration may be read without a token in front of it, and so a block needs one
level more than an expression.
-/

namespace ScriptEngine.Parser

open Position (Cursor Mishap Reader script)

variable {α : Type} {x : Text} {P : Cursor → Prop} {b : Nat} {reads : Bool}

/-! ## Recovery -/

/-- Skipping leaves no more tokens than there were. -/
theorem length_skipAfter (last : Token) (rest : List Token) :
    (skipAfter last rest).length ≤ rest.length := by
  induction rest generalizing last with
  | nil => exact Nat.le_refl _
  | cons t rest ih =>
    rw [skipAfter]
    split
    · exact Nat.le_refl _
    · exact Nat.le_succ_of_le (ih t)

/-- Skipping by position comes to the place where skipping tokens comes to. -/
theorem Text.Stands.skip (rest : List Token) :
    ∀ {c : Cursor} {s : ParseState} {last : Token}, x.Stands c s → c.Last last → s.rest = rest →
      ∃ c', script.skip c = some (.ok (), c') ∧
        x.Stands c' (s.withRest (skipAfter last rest)) := by
  induction rest with
  | nil =>
    intro c s last hs _ hrest
    refine ⟨c, ?_, ⟨hs.tokens, hs.le, ?_, hs.stop, hs.errors, hs.nextId⟩⟩
    · rw [Position.Language.skip, Position.bind_of_ok hs.isAtEnd, hrest]
      rfl
    · exact hrest.symm.trans hs.rest
  | cons t rest ih =>
    intro c s last hs hlast hrest
    have hprevious : Position.previous c = some (.ok last, c) := Position.tokenAt_of_some hlast
    have hpeek := hs.peek
    rw [hrest] at hpeek
    have hstay : x.Stands c (s.withRest (t :: rest)) :=
      ⟨hs.tokens, hs.le, hrest.symm.trans hs.rest, hs.stop, hs.errors, hs.nextId⟩
    rw [Position.Language.skip, Position.bind_of_ok hs.isAtEnd, hrest, List.isEmpty_cons,
      if_neg Bool.false_ne_true, Position.bind_of_ok hprevious, skipAfter]
    by_cases hlastKind : last.kind = .semicolon
    · rw [if_pos hlastKind, decide_eq_true hlastKind, Bool.true_or, if_pos rfl]
      exact ⟨c, rfl, hstay⟩
    rw [if_neg hlastKind, decide_eq_false hlastKind, Bool.false_or, Position.bind_of_ok hpeek]
    show ∃ c', (if resumesAt t.kind = true then _ else _ : Reader Unit) c = _ ∧ _
    by_cases hresumes : resumesAt t.kind = true
    · rw [if_pos hresumes, if_pos hresumes]
      exact ⟨c, rfl, hstay⟩
    · have htail : s.tail.rest = rest := congrArg List.tail hrest
      have hskip := ih (hs.tail hrest) (hs.last hrest) htail
      rw [if_neg hresumes, if_neg hresumes, Position.bind_of_ok (hs.advance hrest)]
      exact hskip

/-- Skipping behind an error. -/
theorem Text.Stands.synchronize {c : Cursor} {s : ParseState} (hs : x.Stands c s) :
    ∃ c', script.synchronize c = some (.ok (), c') ∧
      x.Stands c' (s.withRest (Parser.synchronize s.rest)) := by
  cases hrest : s.rest with
  | nil =>
    obtain ⟨t, hadvance⟩ := hs.advance_nil hrest
    refine ⟨c, ?_, ⟨hs.tokens, hs.le, hrest.symm.trans hs.rest, hs.stop, hs.errors, hs.nextId⟩⟩
    rw [Position.Language.synchronize, Position.bind_of_ok hadvance, Position.Language.skip,
      Position.bind_of_ok hs.isAtEnd, hrest]
    rfl
  | cons t rest =>
    have htail : s.tail.rest = rest := congrArg List.tail hrest
    have hskip := Text.Stands.skip rest (hs.tail hrest) (hs.last hrest) htail
    rw [Position.Language.synchronize, Position.bind_of_ok (hs.advance hrest)]
    exact hskip

/-- Where a token is left, a declaration reads one even if it fails. -/
theorem walks_declaration {p : Parser Stmt}
    (hp : x.Walks Anywhere b true p script.attempted) :
    x.Walks x.Inside b true (recovering p) script.declaration := by
  intro s c hb hs hinside
  have hattempt := hp s c hb hs trivial
  have hcount : 0 < s.count := by
    rw [hs.count]
    exact Nat.sub_pos_of_lt hinside
  rw [Position.Language.declaration]
  unfold recovering
  show x.Meets s.count true _
    ((script.attempted c).bind fun r => script.recovered r.1 r.2)
  cases hps : p s with
  | ok stmt s₁ =>
    rw [hps] at hattempt
    obtain ⟨hle, c₁, hread, hs₁⟩ := hattempt
    rw [hread]
    exact ⟨hle, c₁, rfl, hs₁⟩
  | error e s₁ =>
    rw [hps] at hattempt
    obtain ⟨hle, c₁, hread, hs₁⟩ := hattempt
    obtain ⟨c₂, hskip, hs₂⟩ := (hs₁.noted e).synchronize
    rw [hread]
    have hlt : (synchronize s₁.rest).length + 1 ≤ s.count := by
      rw [s₁.count_eq] at hle
      cases hrest : s₁.rest with
      | nil => exact hcount
      | cons t rest =>
        rw [hrest] at hle
        exact Nat.le_trans (Nat.succ_le_succ (length_skipAfter t rest)) hle
    refine ⟨hlt, c₂, ?_, hs₂⟩
    show (Position.note e >>= fun _ => script.synchronize >>= fun _ => pure none) c₁ = _
    have hnote : Position.note e c₁ = some (.ok (), { c₁ with errors := c₁.errors ++ [e] }) := rfl
    rw [Position.bind_of_ok hnote, Position.bind_of_ok hskip]
    rfl

/-! ## Heads of functions -/

theorem walks_parameters : x.Walks P b false parameters script.parameters := by
  have hclose : ∀ {P : Cursor → Prop} (params : List Token), x.Walks P b false
      (do
        let _ ← expect .rightParen "Expect ')' after parameters."
        pure params)
      (do
        let _ ← Position.consume .rightParen "Expect ')' after parameters."
        pure params) :=
    fun params => walks_expect fun _ _ => walks_pure params
  have hitems : x.Walks P b false
      (commaList fun count => do
        checkRoom count "Can't have more than 255 parameters."
        expect .identifier "Expect parameter name.") (script.parametersFrom []) := by
    refine walks_items (fun params => do
      Position.checkRoom params.length "Can't have more than 255 parameters."
      Position.consume .identifier "Expect parameter name.") (fun done => ?_) fun items => ?_
    · rw [Position.Language.parametersFrom, bind_assoc]
    · exact walks_bind (walks_room _ _) fun _ => walks_token.looser
  rw [parameters, Position.Language.parameters]
  refine walks_check ?_ ?_
  · exact hclose []
  · exact walks_bind hitems hclose

theorem walks_arrowHead {y : Option (List Token × Token) → Parser α}
    {z : Option (List Token) → Reader α}
    (hsome : ∀ params arrow,
      x.Walks (·.Last arrow) (b - 1) false (y (some (params, arrow))) (z (some params)))
    (hnone : x.Walks P b reads (y none) (z none)) :
    x.Walks P b reads (arrowHead? >>= y) (script.arrowParameters >>= z) := by
  -- The parenthesis is known to be there, so it does not matter how it is read.
  have hlist : x.Walks (·.Shows [.leftParen]) b reads
      ((do
        let _ ← expect .leftParen "Expect '(' before parameters."
        let params ← parameters
        let arrow ← expect .arrow "Expect '->' after parameters."
        pure (some (params, arrow))) >>= y)
      ((do
        let _ ← Position.advance
        let params ← script.parameters
        let _ ← Position.consume .arrow "Expect '->' after parameters."
        pure (some params)) >>= z) := by
    simp only [bind_assoc, pure_bind]
    refine walks_advance (by decide) fun _ _ => ?_
    refine walks_bind walks_parameters fun params => walks_expect fun arrow _ => ?_
    exact (hsome params arrow).fewer (Nat.sub_le _ _)
  rw [arrowHead?, Position.Language.arrowParameters, bind_assoc, bind_assoc]
  refine walks_accept (fun arrow _ => ?_) ?_
  · exact hsome [] arrow
  · intro s c hb hs hP
    rw [if_neg Bool.false_ne_true, bind_assoc, bind_assoc, Position.bind_of_ok hs.arrowAhead]
    show x.Meets s.count reads (((if startsArrow s.rest = true then _ else pure none) >>= y) s) _
    by_cases hstarts : startsArrow s.rest = true
    · rw [if_pos hstarts, if_pos hstarts]
      exact hlist s c hb hs (hs.shows_of_startsArrow hstarts)
    · rw [if_neg hstarts, if_neg hstarts]
      exact hnone s c hb hs hP

/-- Neither an arrow nor a parenthesis comes next: there is no head of an arrow function. -/
theorem Text.Stands.headless {c : Cursor} {s : ParseState} (hs : x.Stands c s)
    (hnext : ¬ c.Shows [.arrow, .leftParen]) :
    arrowHead? s = .ok none s ∧ script.arrowParameters c = some (.ok none, c) := by
  have harrow : ¬ s.rest.head?.any (·.kind = .arrow) = true := by
    intro h
    obtain ⟨t, rest, hrest, hkind⟩ := next_of_check h
    exact hnext (hs.shows_of_cons hrest (List.mem_cons.mpr (Or.inl hkind)))
  have hstarts : startsArrow s.rest = false := by
    refine Bool.eq_false_iff.mpr fun h => ?_
    obtain ⟨t, ht, hkind⟩ := hs.shows_of_startsArrow h
    exact hnext ⟨t, ht, List.mem_cons_of_mem _ hkind⟩
  have hmatch : Position.matchToken .arrow c = some (.ok false, c) := by
    rw [Position.matchToken, Position.bind_of_ok (hs.check .arrow), if_neg harrow]
    rfl
  refine ⟨?_, ?_⟩
  · have haccept : accept? .arrow s = .ok none s := acceptAny?_missing harrow
    rw [arrowHead?, bind_after haccept]
    show (if startsArrow s.rest = true then _ else pure none : Parser (Option _)) s = _
    rw [hstarts]
    rfl
  · rw [Position.Language.arrowParameters, Position.bind_of_ok hmatch, if_neg Bool.false_ne_true,
      Position.bind_of_ok hs.arrowAhead, hstarts]
    rfl

/-- Where neither an arrow nor a parenthesis is next there is no head to read. -/
theorem walks_headless {y : Option (List Token × Token) → Parser α} {r : Reader α}
    (hP : ∀ c, P c → ¬ c.Shows [.arrow, .leftParen]) (h : x.Walks P b reads (y none) r) :
    x.Walks P b reads (arrowHead? >>= y) r := by
  intro s c hb hs hPc
  rw [bind_after (hs.headless (hP c hPc)).1]
  exact h s c hb hs hPc

/-- A reader that tries a head first may skip the attempt there. -/
theorem walks_arrowless {p : Parser α} {z : Option (List Token) → Reader α}
    (hP : ∀ c, P c → ¬ c.Shows [.arrow, .leftParen]) (h : x.Walks P b reads p (z none)) :
    x.Walks P b reads p (script.arrowParameters >>= z) := by
  intro s c hb hs hPc
  rw [Position.bind_of_ok (hs.headless (hP c hPc)).2]
  exact h s c hb hs hPc

/-! ## Expressions -/

/-- What a grammar for nesting up to `n` is good for. -/
structure Grammar.Walks (x : Text) (n : Nat) (g : Grammar) : Prop where
  expression : x.Walks Anywhere n false g.expression script.expression
  block : x.Walks Anywhere (n - 1) false g.block script.block

section Expressions

variable {g : Grammar} {n : Nat}

/-- A grammar reads expressions with fewer tokens left too. -/
theorem Grammar.Walks.expressionAt (hg : g.Walks x n) (hb : b ≤ n) :
    x.Walks P b false g.expression script.expression :=
  (hg.expression.fewer hb).anywhere

/-- A grammar reads blocks with fewer tokens left too. -/
theorem Grammar.Walks.blockAt (hg : g.Walks x n) (hb : b ≤ n - 1) :
    x.Walks P b false g.block script.block :=
  (hg.block.fewer hb).anywhere

/-- A `return` without a semicolon, behind its word. -/
theorem walks_returned {keyword : Token} (hg : g.Walks x n) (hb : b ≤ n) :
    x.Walks (·.Last keyword) b false
      (do
        let value ← g.expression
        pure [Stmt.ret keyword (some value)])
      (do
        let s ← script.returnStatement false
        pure [s]) := by
  rw [Position.Language.returnStatement, bind_assoc]
  refine walks_previous ?_
  rw [if_neg Bool.false_ne_true, bind_assoc]
  exact walks_bind (hg.expressionAt hb) fun value => walks_pure _

theorem walks_printed (hg : g.Walks x n) (hb : b ≤ n) :
    x.Walks P b false
      (do
        let value ← g.expression
        pure [Stmt.print value])
      (do
        let s ← script.printStatement false
        pure [s]) := by
  rw [Position.Language.printStatement, bind_assoc]
  refine walks_bind (hg.expressionAt hb) fun value => ?_
  rw [if_neg Bool.false_ne_true, pure_bind]
  exact walks_pure _

theorem walks_arrowBody {params : List Token} {arrow : Token} (hg : g.Walks x n) (hb : b ≤ n) :
    x.Walks (·.Last arrow) b false (arrowBody g params arrow) (script.arrowFunction params) := by
  rw [arrowBody, Position.Language.arrowFunction]
  refine walks_previous (walks_bind ?_ fun body => walks_numbered _)
  rw [Position.Language.arrowBody]
  refine walks_accept (fun _ _ => ?_) (walks_accept (fun keyword _ => ?_)
    (walks_accept (fun _ _ => ?_) ?_))
  · exact hg.blockAt (Nat.sub_le_sub_right hb 1)
  · exact walks_returned hg (Nat.le_trans (Nat.sub_le _ _) hb)
  · exact walks_printed hg (Nat.le_trans (Nat.sub_le _ _) hb)
  · exact walks_bind (hg.expressionAt hb) fun value => walks_pure _

theorem walks_mapEntry (hg : g.Walks x n) (hb : b ≤ n) :
    x.Walks P b false (mapEntry g) script.mapEntry := by
  rw [mapEntry, Position.Language.mapEntry]
  refine walks_expect fun key _ => walks_expect fun _ _ => ?_
  exact walks_bind (hg.expressionAt (by omega)) fun value => walks_pure _

theorem walks_superAccess {keyword : Token} :
    x.Walks (·.Last keyword) b false (superAccess keyword) Position.superAccess := by
  rw [superAccess, Position.superAccess]
  refine walks_previous (walks_expect fun _ _ => walks_expect fun className _ => ?_)
  refine walks_expect fun _ _ => walks_expect fun _ _ => walks_expect fun method _ => ?_
  exact walks_numbered _

/-- Primary expressions that begin with a bracket, a name, a parenthesis or a brace. -/
theorem walks_primaryRest (hg : g.Walks x n) (hb : b ≤ n + 1) :
    x.Walks P b false
      (do
        if (← accept? .leftBracket).isSome then
          let (elements, _) ←
            enclosed .rightBracket "Expect ']' after array elements." fun _ => g.expression
          pure (.array (← fresh) elements)
        else if let some name ← accept? .identifier then pure (.reference ⟨← fresh, name⟩)
        else if (← accept? .leftParen).isSome then
          let inner ← g.expression
          let _ ← expect .rightParen "Expect ')' after expression."
          pure (.grouping (← fresh) inner)
        else if (← accept? .leftBrace).isSome then
          let (entries, _) ←
            enclosed .rightBrace "Expect '\x7d' after object properties." fun _ => mapEntry g
          pure (.map (← fresh) (entries.foldl putEntry []))
        else failHere "Expect expression.") script.primaryRest := by
  rw [Position.Language.primaryRest]
  refine walks_accept (fun _ _ => ?_) (walks_accept (fun name _ => ?_)
    (walks_accept (fun _ _ => ?_) (walks_accept (fun _ _ => ?_) (walks_fail _))))
  · have hitems : x.Walks Anywhere (b - 1) false (commaList fun _ => g.expression)
        (script.elementsFrom []) := by
      refine walks_items (fun _ => script.expression) (fun done => ?_) fun _ => ?_
      · rw [Position.Language.elementsFrom]
      · exact hg.expressionAt (by omega)
    rw [← id_map (commaList _)] at hitems
    exact walks_enclosed id hitems fun elements _ => walks_numbered _
  · exact walks_previous (walks_numbered _)
  · refine walks_bind (hg.expressionAt (by omega)) fun inner => ?_
    exact walks_expect fun _ _ => walks_numbered _
  · have hitems : x.Walks Anywhere (b - 1) false
        (List.foldl putEntry [] <$> commaList fun _ => mapEntry g) (script.entriesFrom []) := by
      refine walks_commaList (fun _ => script.mapEntry) (fun done => ?_) fun _ => ?_
      · rw [Position.Language.entriesFrom]
      · exact walks_mapEntry hg (by omega)
    exact walks_enclosed (List.foldl putEntry []) hitems fun entries _ => walks_numbered _

/-- Where an arrow or a parenthesis comes next, neither a constant nor `super` nor `this` does. -/
theorem walks_primary_arrow (hg : g.Walks x n) (hb : b ≤ n + 1) :
    x.Walks (·.Shows [.arrow, .leftParen]) b false (primary g) script.primary := by
  have hother : ∀ {kinds : List TokenKind}, (∀ kind ∈ kinds, kind ∉ [.arrow, .leftParen]) →
      ∀ c : Cursor, c.Shows [.arrow, .leftParen] → ¬ c.Shows kinds := by
    rintro kinds hkinds c ⟨t, ht, hmem⟩ ⟨t', ht', hmem'⟩
    rw [ht] at ht'
    obtain rfl := Option.some.inj ht'
    exact hkinds _ hmem' hmem
  rw [Position.Language.primary]
  simp only [← Position.matchAny_singleton]
  refine walks_unread (hother (by decide)) (walks_unread (hother (by decide))
    (walks_unread (hother (by decide)) (walks_unread (hother (by decide))
    (walks_unread (hother (by decide)) (walks_unread (hother (by decide)) ?_)))))
  refine walks_arrowHead (fun params arrow => walks_arrowBody hg (by omega)) ?_
  refine walks_unaccepted (hother (by decide)) (walks_unaccepted (hother (by decide))
    (walks_unaccepted (hother (by decide)) (walks_unaccepted (hother (by decide))
    (walks_unaccepted (hother (by decide)) (walks_unaccepted (hother (by decide)) ?_)))))
  exact walks_primaryRest hg hb

/-- Otherwise the production looks for the head of an arrow function first and the reader last. -/
theorem walks_primary_plain (hg : g.Walks x n) (hb : b ≤ n + 1) :
    x.Walks (fun c => ¬ c.Shows [.arrow, .leftParen]) b false (primary g) script.primary := by
  rw [primary, Position.Language.primary]
  refine walks_headless (fun _ hnext => hnext) ?_
  refine walks_accept (fun _ _ => walks_numbered _) (walks_accept (fun _ _ => walks_numbered _)
    (walks_accept (fun _ _ => walks_numbered _) (walks_acceptAny (fun t _ => ?_)
    (walks_accept (fun keyword _ => walks_superAccess) (walks_accept (fun keyword _ => ?_)
    (walks_arrowless (fun _ hnext => hnext) (walks_primaryRest hg hb)))))))
  · exact walks_previous (walks_numbered _)
  · exact walks_previous (walks_numbered _)

theorem walks_primary (hg : g.Walks x n) (hb : b ≤ n + 1) :
    x.Walks P b false (primary g) script.primary := by
  intro s c hlt hs _
  by_cases hnext : c.Shows [.arrow, .leftParen]
  · exact walks_primary_arrow hg hb s c hlt hs hnext
  · exact walks_primary_plain hg hb s c hlt hs hnext

theorem walks_finishCall {callee : Expr} (hg : g.Walks x n) (hb : b ≤ n) :
    x.Walks P b false (finishCall g callee) (script.finishCall callee) := by
  have hitems : x.Walks Anywhere b false
      (commaList fun count => do
        checkRoom count "Can't have more than 255 arguments."
        g.expression) (script.argumentsFrom []) := by
    refine walks_items (fun arguments => do
      Position.checkRoom arguments.length "Can't have more than 255 arguments."
      script.expression) (fun done => ?_) fun _ => ?_
    · rw [Position.Language.argumentsFrom, bind_assoc]
    · exact walks_bind (walks_room _ _) fun _ => hg.expressionAt hb
  rw [← id_map (commaList _)] at hitems
  rw [finishCall, Position.Language.finishCall]
  exact walks_enclosed id hitems fun arguments paren => walks_numbered _

/-- Each call, property and index reads a token, so the number of tokens bounds the rounds. -/
theorem walks_callTail (hg : g.Walks x n) (bound : Nat) :
    ∀ {b} {P : Cursor → Prop} (e : Expr), b ≤ n + 1 → b ≤ bound + 1 →
      x.Walks P b false (callTail g bound e) (script.callTail e) := by
  induction bound with
  | zero =>
    intro b P e _ hle
    rw [Position.Language.callTail]
    simp only [← Position.matchAny_singleton]
    exact walks_spent hle (walks_spent hle (walks_spent hle (walks_pure e)))
  | succ bound ih =>
    intro b P e hb hle
    rw [Position.Language.callTail, callTail]
    refine walks_accept (fun _ _ => ?_) (walks_accept (fun _ _ => ?_)
      (walks_accept (fun _ _ => ?_) (walks_pure e)))
    · exact walks_bind (walks_finishCall hg (by omega)) fun called =>
        ih called (by omega) (by omega)
    · refine walks_expect fun name _ => walks_fresh fun id => ?_
      exact ih _ (by omega) (by omega)
    · refine walks_bind (hg.expressionAt (by omega)) fun index => ?_
      refine walks_expect fun bracket _ => walks_fresh fun id => ?_
      exact ih _ (by omega) (by omega)

theorem walks_call (hg : g.Walks x n) (hb : b ≤ n + 1) :
    x.Walks P b false (call g) script.call := by
  rw [call, Position.Language.call]
  refine walks_bind (walks_primary hg hb) fun e => walks_remaining fun bound => ?_
  exact walks_callTail hg bound e (Nat.le_trans (Nat.min_le_left _ _) hb) (Nat.min_le_right _ _)

theorem walks_unaryUpTo (hg : g.Walks x n) (bound : Nat) :
    ∀ {b} {P : Cursor → Prop}, b ≤ n + 1 → b ≤ bound + 1 →
      x.Walks P b false (unaryUpTo g bound) script.unary := by
  induction bound with
  | zero =>
    intro b P hb hle
    rw [Position.Language.unary]
    exact walks_spent hle (walks_call hg hb)
  | succ bound ih =>
    intro b P hb hle
    rw [Position.Language.unary, unaryUpTo]
    refine walks_acceptAny (fun operator _ => ?_) (walks_call hg hb)
    refine walks_previous (walks_bind ?_ fun operand => walks_numbered _)
    exact ih (by omega) (by omega)

theorem walks_unary (hg : g.Walks x n) (hb : b ≤ n + 1) :
    x.Walks P b false (unary g) script.unary := by
  refine walks_remaining fun bound => ?_
  exact walks_unaryUpTo hg bound (Nat.le_trans (Nat.min_le_left _ _) hb) (Nat.min_le_right _ _)

/-! ### Levels -/

section Levels

variable {operators : List TokenKind} {build : ExprId → Expr → Token → Expr → Expr}
  {operand : Parser Expr} {tighter : List Position.Level}

theorem walks_chainTail (hoperand : x.Walks Anywhere b false operand (script.binaryLevel tighter))
    (bound : Nat) : ∀ {b'} {P : Cursor → Prop} (left : Expr), b' ≤ b → b' ≤ bound + 1 →
      x.Walks P b' false (chainTail operators build operand bound left)
        (script.binaryTail ⟨operators, build⟩ tighter left) := by
  induction bound with
  | zero =>
    intro b' P left _ hle
    rw [Position.Language.binaryTail]
    exact walks_spent hle (walks_pure left)
  | succ bound ih =>
    intro b' P left hb hle
    rw [Position.Language.binaryTail, chainTail]
    refine walks_acceptAny (fun operator _ => ?_) (walks_pure left)
    refine walks_previous (walks_bind (hoperand.fewer (by omega)).anywhere fun right => ?_)
    exact walks_fresh fun id => ih _ (by omega) (by omega)

theorem walks_chain (hoperand : x.Walks Anywhere b false operand (script.binaryLevel tighter)) :
    x.Walks P b false (chain operators build operand)
      (script.binaryLevel (⟨operators, build⟩ :: tighter)) := by
  rw [chain, Position.Language.binaryLevel]
  refine walks_bind hoperand.anywhere fun first => walks_remaining fun bound => ?_
  exact walks_chainTail hoperand bound first (Nat.min_le_left _ _) (Nat.min_le_right _ _)

end Levels

theorem walks_disjunction (hg : g.Walks x n) (hb : b ≤ n + 1) :
    x.Walks P b false (disjunction g) (script.binaryLevel script.levels) := by
  have hunary : x.Walks Anywhere b false (unary g) (script.binaryLevel []) := by
    rw [Position.Language.binaryLevel]
    exact walks_unary hg hb
  have hpower : x.Walks Anywhere b false (power g) _ := walks_chain hunary
  have hfactor : x.Walks Anywhere b false (factor g) _ := walks_chain hpower
  have hterm : x.Walks Anywhere b false (term g) _ := walks_chain hfactor
  have hcomparison : x.Walks Anywhere b false (comparison g) _ := walks_chain hterm
  have hequality : x.Walks Anywhere b false (equality g) _ := walks_chain hcomparison
  have hconjunction : x.Walks Anywhere b false (conjunction g) _ := walks_chain hequality
  exact walks_chain hconjunction

/-- What may be assigned to is the same for both. -/
theorem walks_assignTo (target : Expr) (equals : Token) (value : Expr) :
    x.Walks P b false (assignTo target equals value) (Position.assignTo target equals value) := by
  unfold assignTo Position.assignTo
  cases target
  case reference ref => exact walks_numbered _
  case get id object name => exact walks_numbered _
  case getItem id object bracket index => exact walks_numbered _
  all_goals exact walks_bind (walks_note _ _) fun _ => walks_pure _

theorem walks_assignment (hg : g.Walks x n) (hb : b ≤ n + 1) :
    x.Walks P b false (assignment g) script.expression := by
  rw [assignment, Position.Language.expression]
  refine walks_bind (walks_disjunction hg hb) fun left => ?_
  refine walks_accept (fun equals _ => ?_) (walks_pure left)
  refine walks_previous (walks_bind (hg.expressionAt (by omega)) fun value => ?_)
  exact walks_assignTo left equals value

end Expressions

/-! ## Statements -/

section Statements

variable {g : Grammar} {n : Nat}

theorem walks_varDeclaration (hg : g.Walks x n) (hb : b ≤ n) :
    x.Walks P b reads (varDeclaration g) script.varDeclaration := by
  have hend : ∀ {P : Cursor → Prop} {b : Nat} {name : Token} (init? : Option Expr),
      x.Walks P b false
        (do
          let _ ← expect .semicolon "Expect ';' after variable declaration."
          pure (Stmt.var name init?))
        (do
          let _ ← Position.consume .semicolon "Expect ';' after variable declaration."
          pure (Stmt.var name init?)) :=
    fun init? => walks_expect fun _ _ => walks_pure _
  rw [varDeclaration, Position.Language.varDeclaration]
  refine walks_expect fun name _ => walks_accept (fun _ _ => ?_) (hend none)
  exact walks_some (hg.expressionAt (by omega)) fun value => hend (some value)

theorem walks_functionDeclaration (what : String) (hg : g.Walks x n) (hb : b ≤ n) :
    x.Walks P b reads (functionDeclaration g what) (script.functionDeclaration what) := by
  rw [functionDeclaration, Position.Language.functionDeclaration]
  refine walks_expect fun name _ => walks_expect fun _ _ => ?_
  refine walks_bind walks_parameters fun params => walks_expect fun _ _ => ?_
  exact walks_bind (hg.blockAt (by omega)) fun body => walks_pure _

/-- A loop by position that ends at a brace or at the end. -/
theorem Text.Stands.upToBrace {c : Cursor} {s : ParseState} (hs : x.Stands c s) (a : α)
    (r : Reader α) :
    (do
      if ← Position.check .rightBrace then pure a
      else if ← Position.isAtEnd then pure a
      else r : Reader α) c =
      if s.rest.head?.all (·.kind = .rightBrace) then some (.ok a, c) else r c := by
  rw [Position.bind_of_ok (hs.check .rightBrace)]
  cases hrest : s.rest with
  | nil =>
    show (Position.isAtEnd >>= _) c = _
    rw [Position.bind_of_ok hs.isAtEnd, hrest]
    rfl
  | cons t rest =>
    show (if decide (t.kind = .rightBrace) = true then _ else _ : Reader α) c =
      if decide (t.kind = .rightBrace) = true then _ else _
    by_cases hbrace : decide (t.kind = .rightBrace) = true
    · rw [if_pos hbrace, if_pos hbrace]
      rfl
    · rw [if_neg hbrace, if_neg hbrace, Position.bind_of_ok hs.isAtEnd, hrest]
      rfl

/-- A round of a loop of a production that ends at a token or at the end. -/
theorem round_run (stops : Token → Prop) [DecidablePred stops] (a : α) (p : Parser α)
    (s : ParseState) :
    (do
      match (← get).rest with
      | [] => pure a
      | t :: _ => if stops t then pure a else p : Parser α) s =
      if s.rest.head?.all (fun t => decide (stops t)) then .ok a s else p s := by
  show (match s.rest with
    | [] => pure a
    | t :: _ => if stops t then pure a else p : Parser α) s = _
  cases s.rest with
  | nil => rfl
  | cons t rest =>
    show (if stops t then pure a else p : Parser α) s = if decide (stops t) = true then _ else _
    by_cases hstops : stops t
    · rw [if_pos hstops, if_pos (decide_eq_true hstops)]
      rfl
    · rw [if_neg hstops, if_neg (by rw [decide_eq_true_eq]; exact hstops)]

theorem walks_methodsUpTo (hg : g.Walks x n) (hb : b ≤ n) (bound : Nat) (hbound : b ≤ bound + 1) :
    x.Walks Anywhere b false (methodsUpTo g bound []) (script.methodsFrom []) := by
  refine walks_upTo (fun method => [method]) (·.kind = .rightBrace) (fun _ => rfl)
    (fun bound done s => ?_) (fun done s c hs => ?_) (walks_functionDeclaration "method" hg hb)
    bound [] (Nat.le_refl b) hbound
  · exact round_run (·.kind = .rightBrace) done.reverse _ s
  · rw [Position.Language.methodsFrom]
    exact hs.upToBrace done _

theorem walks_classDeclaration (hg : g.Walks x n) (hb : b ≤ n) :
    x.Walks P b reads (classDeclaration g) script.classDeclaration := by
  have hend : ∀ {P : Cursor → Prop} {b : Nat} {name : Token} (superclasses : List Reference),
      b ≤ n → x.Walks P b false
        (do
          let _ ← expect .leftBrace "Expect '\x7b' before class body."
          let methods ← methodsUpTo g (← remaining) []
          let _ ← expect .rightBrace "Expect '\x7d' after class body."
          pure (Stmt.classDecl name superclasses methods))
        (do
          let _ ← Position.consume .leftBrace "Expect '\x7b' before class body."
          let methods ← script.methodsFrom []
          let _ ← Position.consume .rightBrace "Expect '\x7d' after class body."
          pure (Stmt.classDecl name superclasses methods)) := by
    intro P b name superclasses hb
    refine walks_expect fun _ _ => walks_remaining fun bound => walks_bind ?_ fun methods => ?_
    · exact (walks_methodsUpTo hg (by omega) bound (Nat.min_le_right _ _)).anywhere
    · exact walks_expect fun _ _ => walks_pure _
  have hsuperclasses : x.Walks Anywhere (b - 1 - 1) false (commaList fun _ => superclass)
      (script.superclassesFrom []) := by
    refine walks_items (fun _ => Position.superclass) (fun done => ?_) fun _ => ?_
    · rw [Position.Language.superclassesFrom]
    · exact walks_expect fun name _ => walks_fresh fun id => walks_pure _
  rw [classDeclaration, Position.Language.classDeclaration]
  refine walks_expect fun name _ => walks_accept (fun _ _ => ?_) (hend [] (by omega))
  exact walks_bind hsuperclasses.anywhere fun superclasses => hend superclasses (by omega)

theorem walks_exportDeclaration (hg : g.Walks x n) (hb : b ≤ n) :
    x.Walks P b reads (exportDeclaration g) script.exportDeclaration := by
  have hle : b - 1 ≤ n := by omega
  rw [exportDeclaration, Position.Language.exportDeclaration]
  refine walks_accept (fun _ _ => ?_) (walks_accept (fun _ _ => ?_) (walks_accept (fun _ _ => ?_)
    (walks_fail _)))
  · exact walks_map _ (walks_classDeclaration hg hle)
  · exact walks_map _ (walks_functionDeclaration _ hg hle)
  · exact walks_map _ (walks_varDeclaration hg hle)

theorem walks_importItem : x.Walks P b false importItem Position.importItem := by
  refine walks_expect fun name _ => walks_accept (fun _ _ => ?_) (walks_pure _)
  exact walks_expect fun other _ => walks_pure _

theorem walks_importStatement : x.Walks P b reads importStatement script.importStatement := by
  have hend : ∀ {P : Cursor → Prop} {b : Nat} {path : Token} (items : List ImportItem),
      x.Walks P b false
        (do
          let _ ← expect .semicolon "Expect ';' after import statement."
          if items.isEmpty then throw ⟨path, "Expect at least one import item."⟩
          pure (Stmt.importFrom path items))
        (do
          let _ ← Position.consume .semicolon "Expect ';' after import statement."
          if items.isEmpty then throw (.failed ⟨path, "Expect at least one import item."⟩)
          else pure (Stmt.importFrom path items)) := by
    intro P b path items
    refine walks_expect fun _ _ => ?_
    by_cases hempty : items.isEmpty = true
    · dsimp only
      rw [if_pos hempty, if_pos hempty]
      exact walks_throw _
    · dsimp only
      rw [if_neg hempty, if_neg hempty]
      exact walks_pure _
  have hitems : x.Walks Anywhere (b - 1 - 1) false (commaList fun _ => importItem)
      (script.importItemsFrom []) := by
    refine walks_items (fun _ => Position.importItem) (fun done => ?_) fun _ => walks_importItem
    rw [Position.Language.importItemsFrom]
  rw [importStatement, Position.Language.importStatement]
  refine walks_expect fun path _ => walks_accept (fun _ _ => ?_) (hend [])
  exact walks_bind hitems.anywhere hend

theorem walks_expressionStatement (hg : g.Walks x n) (hb : b ≤ n) :
    x.Walks P b reads (expressionStatement g) script.expressionStatement := by
  rw [expressionStatement, Position.Language.expressionStatement]
  exact walks_bind (hg.expressionAt hb) fun value => walks_expect fun _ _ => walks_pure _

theorem walks_printStatement (hg : g.Walks x n) (hb : b ≤ n) :
    x.Walks P b reads (printStatement g) (script.printStatement true) := by
  rw [printStatement, Position.Language.printStatement]
  refine walks_bind (hg.expressionAt hb) fun value => ?_
  exact walks_expect fun _ _ => walks_pure _

theorem walks_returnStatement {keyword : Token} (hg : g.Walks x n) (hb : b ≤ n) :
    x.Walks (·.Last keyword) b reads (returnStatement g keyword)
      (script.returnStatement true) := by
  have hend : ∀ {P : Cursor → Prop} {b : Nat} {reads : Bool} (value? : Option Expr),
      x.Walks P b reads
        (do
          let _ ← expect .semicolon "Expect ';' after return value."
          pure (Stmt.ret keyword value?))
        (do
          let _ ← Position.consume .semicolon "Expect ';' after return value."
          pure (Stmt.ret keyword value?)) :=
    fun value? => walks_expect fun _ _ => walks_pure _
  rw [returnStatement, Position.Language.returnStatement]
  refine walks_previous ?_
  rw [if_pos rfl]
  refine walks_check (hend none) ?_
  exact walks_some (hg.expressionAt hb) fun value => hend (some value)

theorem walks_throwStatement {keyword : Token} (hg : g.Walks x n) (hb : b ≤ n) :
    x.Walks (·.Last keyword) b reads (throwStatement g keyword) script.throwStatement := by
  rw [throwStatement, Position.Language.throwStatement]
  refine walks_previous (walks_bind (hg.expressionAt hb) fun value => ?_)
  exact walks_expect fun _ _ => walks_pure _

theorem walks_simpleStatement (hg : g.Walks x n) (hb : b ≤ n) :
    x.Walks P b reads (simpleStatement g) script.simpleStatement := by
  have hle : b - 1 ≤ n := by omega
  rw [simpleStatement, Position.Language.simpleStatement]
  refine walks_accept (fun keyword _ => ?_) (walks_accept (fun _ _ => ?_)
    (walks_accept (fun keyword _ => ?_) (walks_expressionStatement hg hb)))
  · exact walks_returnStatement hg hle
  · exact walks_printStatement hg hle
  · exact walks_throwStatement hg hle

/-- Each conditional behind an `else` has read a token more. -/
theorem walks_conditional (hg : g.Walks x n) (bound : Nat) :
    ∀ {b} {P : Cursor → Prop} {reads : Bool}, b ≤ n → b ≤ bound + 1 →
      x.Walks P b reads (conditional g bound) script.ifStatement := by
  induction bound with
  | zero =>
    intro b P reads _ hle
    rw [Position.Language.ifStatement]
    exact walks_missing hle
  | succ bound ih =>
    intro b P reads hb hle
    rw [Position.Language.ifStatement, conditional]
    refine walks_expect fun _ _ => walks_bind (hg.expressionAt (by omega)) fun condition => ?_
    refine walks_expect fun _ _ => walks_accept (fun _ _ => ?_) ?_
    · refine walks_bind (hg.blockAt (by omega)) fun thenPart => walks_accept (fun _ _ => ?_) ?_
      · refine walks_accept (fun _ _ => ?_) (walks_expect fun _ _ => ?_)
        · exact walks_bind (ih (by omega) (by omega)) fun elsePart => walks_pure _
        · exact walks_bind (hg.blockAt (by omega)) fun elsePart => walks_pure _
      · exact walks_pure _
    · exact walks_bind (walks_simpleStatement hg (by omega)) fun thenPart => walks_pure _

theorem walks_whileStatement (hg : g.Walks x n) (hb : b ≤ n) :
    x.Walks P b reads (whileStatement g) script.whileStatement := by
  rw [whileStatement, Position.Language.whileStatement]
  refine walks_expect fun _ _ => walks_bind (hg.expressionAt (by omega)) fun condition => ?_
  refine walks_expect fun _ _ => walks_expect fun _ _ => ?_
  exact walks_bind (hg.blockAt (by omega)) fun body => walks_pure _

theorem walks_forInit (hg : g.Walks x n) (hb : b ≤ n) :
    x.Walks P b false (forInit g) script.forInit := by
  rw [forInit, Position.Language.forInit]
  refine walks_accept (fun _ _ => walks_pure _) (walks_accept (fun _ _ => ?_) ?_)
  · exact walks_map some (walks_varDeclaration hg (by omega))
  · exact walks_map some (walks_expressionStatement hg hb)

theorem walks_forStatement (hg : g.Walks x n) (hb : b ≤ n) :
    x.Walks P b reads (forStatement g) script.forStatement := by
  have hbody : ∀ {P : Cursor → Prop} {b : Nat} {reads : Bool} {init? : Option Stmt}
      {condition : Expr} (step? : Option Expr), b ≤ n → x.Walks P b reads
        (do
          let _ ← expect .rightParen "Expect ')' after for clauses."
          let _ ← expect .leftBrace "Expect '\x7b' after for clauses."
          let body ← g.block
          pure (forLoop init? condition step? body))
        (do
          let _ ← Position.consume .rightParen "Expect ')' after for clauses."
          let _ ← Position.consume .leftBrace "Expect '\x7b' after for clauses."
          let body ← script.block
          pure (forLoop init? condition step? body)) := by
    intro P b reads init? condition step? hb
    refine walks_expect fun _ _ => walks_expect fun _ _ => ?_
    exact walks_bind (hg.blockAt (by omega)) fun body => walks_pure _
  have hstep : ∀ {P : Cursor → Prop} {b : Nat} {reads : Bool} {init? : Option Stmt}
      (condition : Expr), b ≤ n → x.Walks P b reads
        (do
          let _ ← expect .semicolon "Expect ';' after loop condition."
          let step? ← if ← check .rightParen then pure none else some <$> g.expression
          let _ ← expect .rightParen "Expect ')' after for clauses."
          let _ ← expect .leftBrace "Expect '\x7b' after for clauses."
          let body ← g.block
          pure (forLoop init? condition step? body))
        (do
          let _ ← Position.consume .semicolon "Expect ';' after loop condition."
          let step? ←
            if ← Position.check .rightParen then pure none
            else do
              let step ← script.expression
              pure (some step)
          let _ ← Position.consume .rightParen "Expect ')' after for clauses."
          let _ ← Position.consume .leftBrace "Expect '\x7b' after for clauses."
          let body ← script.block
          pure (forLoop init? condition step? body)) := by
    intro P b reads init? condition hb
    refine walks_expect fun _ _ => walks_check (hbody none (by omega)) ?_
    exact walks_some (hg.expressionAt (by omega)) fun step => hbody (some step) (by omega)
  rw [forStatement, Position.Language.forStatement]
  refine walks_expect fun _ _ => walks_bind (walks_forInit hg (by omega)) fun init? => ?_
  refine walks_check ?_ ?_
  · exact walks_made _ fun condition => hstep condition (by omega)
  · exact walks_bind (hg.expressionAt (by omega)) fun condition => hstep condition (by omega)

theorem walks_catchClause (hg : g.Walks x n) (hb : b ≤ n) :
    x.Walks P b false (catchClause g) script.catchClause := by
  have hbody : ∀ {P : Cursor → Prop} {b : Nat} (param? : Option Token), b ≤ n →
      x.Walks P b false
        (do
          let _ ← expect .rightParen "Expect ')' after catch parameter."
          let _ ← expect .leftBrace "Expect '\x7b' after catch parameter."
          pure (param?, ← g.block))
        (do
          let _ ← Position.consume .rightParen "Expect ')' after catch parameter."
          let _ ← Position.consume .leftBrace "Expect '\x7b' after catch parameter."
          let body ← script.block
          pure (param?, body)) := by
    intro P b param? hb
    refine walks_expect fun _ _ => walks_expect fun _ _ => ?_
    exact walks_bind (hg.blockAt (by omega)) fun body => walks_pure _
  rw [catchClause, Position.Language.catchClause]
  refine walks_expect fun _ _ => walks_accept (fun param _ => ?_) (hbody none (by omega))
  exact walks_previous (hbody (some param) (by omega))

theorem walks_tryStatement (hg : g.Walks x n) (hb : b ≤ n) :
    x.Walks P b reads (tryStatement g) script.tryStatement := by
  have hend : ∀ {P : Cursor → Prop} {b : Nat} {body : List Stmt}
      {handler? : Option (Option Token × List Stmt)} (cleanup? : Option (List Stmt)),
      x.Walks P b false
        (do
          if handler?.isNone && cleanup?.isNone then failHere "Expect catch or finally block."
          pure (Stmt.attempt body (handler?.bind (·.1)) (handler?.map (·.2)) cleanup?))
        (if handler?.isNone && cleanup?.isNone then
          Position.failHere "Expect catch or finally block."
        else pure (Stmt.attempt body (handler?.bind (·.1)) (handler?.map (·.2)) cleanup?)) := by
    intro P b body handler? cleanup?
    by_cases hnone : (handler?.isNone && cleanup?.isNone) = true
    · dsimp only
      rw [if_pos hnone, if_pos hnone]
      exact walks_fail _
    · dsimp only
      rw [if_neg hnone, if_neg hnone]
      exact walks_pure _
  have hcleanup : ∀ {P : Cursor → Prop} {b : Nat} {body : List Stmt}
      (handler? : Option (Option Token × List Stmt)), b ≤ n → x.Walks P b false
        (do
          let cleanup? ←
            if (← accept? .finallyWord).isSome then do
              let _ ← expect .leftBrace "Expect '\x7b' after finally."
              some <$> g.block
            else pure none
          if handler?.isNone && cleanup?.isNone then failHere "Expect catch or finally block."
          pure (Stmt.attempt body (handler?.bind (·.1)) (handler?.map (·.2)) cleanup?))
        (do
          let cleanup? ←
            if ← Position.matchToken .finallyWord then do
              let _ ← Position.consume .leftBrace "Expect '\x7b' after finally."
              let cleanup ← script.block
              pure (some cleanup)
            else pure none
          if handler?.isNone && cleanup?.isNone then
            Position.failHere "Expect catch or finally block."
          else pure (Stmt.attempt body (handler?.bind (·.1)) (handler?.map (·.2)) cleanup?)) := by
    intro P b body handler? hb
    refine walks_accept (fun _ _ => walks_expect fun _ _ => ?_) (hend none)
    exact walks_some (hg.blockAt (by omega)) fun cleanup => hend (some cleanup)
  rw [tryStatement, Position.Language.tryStatement]
  refine walks_expect fun _ _ => walks_bind (hg.blockAt (by omega)) fun body => ?_
  refine walks_accept (fun _ _ => ?_) (hcleanup none (by omega))
  refine walks_some (walks_catchClause hg (by omega)) fun handler => ?_
  exact hcleanup (some handler) (by omega)

theorem walks_statement (hg : g.Walks x n) (hb : b ≤ n) :
    x.Walks P b true (statement g) script.statement := by
  have hle : b - 1 ≤ n := by omega
  rw [statement, Position.Language.statement]
  refine walks_accept (fun _ _ => ?_) (walks_accept (fun _ _ => ?_) (walks_accept (fun _ _ => ?_)
    (walks_accept (fun _ _ => ?_) (walks_accept (fun _ _ => ?_) (walks_accept (fun keyword _ => ?_)
    (walks_accept (fun keyword _ => ?_) (walks_accept (fun _ _ => ?_) (walks_accept (fun _ _ => ?_)
    (walks_expressionStatement hg hb)))))))))
  · exact walks_importStatement
  · refine walks_remaining fun bound => walks_conditional hg bound ?_ (Nat.min_le_right _ _)
    exact Nat.le_trans (Nat.min_le_left _ _) hle
  · exact walks_whileStatement hg hle
  · exact walks_forStatement hg hle
  · exact walks_printStatement hg hle
  · exact walks_returnStatement hg hle
  · exact walks_throwStatement hg hle
  · exact walks_tryStatement hg hle
  · exact walks_map Stmt.block (hg.blockAt (by omega))

theorem walks_attempted (hg : g.Walks x n) (hb : b ≤ n) :
    x.Walks P b true (declaration g) script.attempted := by
  have hle : b - 1 ≤ n := by omega
  rw [declaration, Position.Language.attempted]
  refine walks_accept (fun _ _ => ?_) (walks_accept (fun _ _ => ?_) (walks_accept (fun _ _ => ?_)
    (walks_accept (fun _ _ => ?_) (walks_statement hg hb))))
  · exact walks_exportDeclaration hg hle
  · exact walks_classDeclaration hg hle
  · exact walks_map Stmt.function (walks_functionDeclaration _ hg hle)
  · exact walks_varDeclaration hg hle

/-! ## Blocks and programs -/

/-- Every round of a loop over declarations reads a token, so the number of tokens bounds the
rounds. -/
theorem walks_declarationsUpTo (hg : g.Walks x n) (hb : b ≤ n) (inBlock : Bool)
    {loop : List Stmt → Reader (List Stmt)}
    (hloop : ∀ body s c, x.Stands c s → loop body c =
      if s.rest.head?.all fun t => inBlock && t.kind = .rightBrace then some (.ok body, c)
      else (script.declaration >>= fun next? => loop (body ++ next?.toList)) c)
    (bound : Nat) (hbound : b ≤ bound + 1) :
    x.Walks Anywhere b false (declarationsUpTo g inBlock bound []) (loop []) := by
  refine walks_upTo Option.toList (fun t => inBlock && t.kind = .rightBrace) (fun _ => rfl)
    (fun bound done s => ?_) hloop (walks_declaration (walks_attempted hg hb)) bound []
    (Nat.le_refl b) hbound
  have hnew : (fun next? : Option Stmt =>
      declarationsUpTo g inBlock bound (next?.toList.reverse ++ done)) =
      fun next? => declarationsUpTo g inBlock bound (next?.toList ++ done) := by
    funext next?
    cases next? <;> rfl
  rw [hnew]
  have hround := round_run (fun t => (inBlock && decide (t.kind = .rightBrace)) = true) done.reverse
    (recovering (declaration g) >>= fun next? =>
      declarationsUpTo g inBlock bound (next?.toList ++ done)) s
  simp only [Bool.decide_eq_true] at hround
  exact hround

theorem walks_block (hg : g.Walks x n) (hb : b ≤ n) :
    x.Walks P b reads (block g) script.block := by
  rw [block, Position.Language.block]
  refine walks_remaining fun bound => walks_bind ?_ fun body => ?_
  · refine (walks_declarationsUpTo hg (by omega) true (fun body s c hs => ?_) bound
      (Nat.min_le_right _ _)).anywhere
    rw [Position.Language.blockFrom]
    simp only [Bool.true_and]
    exact hs.upToBrace body _
  · exact walks_expect fun _ _ => walks_pure body

/-- A grammar for nesting up to `n` serves wherever fewer than `n` tokens are left. -/
theorem grammar_walks (n : Nat) : (grammar n).Walks x n := by
  induction n with
  | zero =>
    exact ⟨fun _ _ h => absurd h (Nat.not_lt_zero _), fun _ _ h => absurd h (Nat.not_lt_zero _)⟩
  | succ n ih => exact ⟨walks_assignment ih (Nat.le_refl _), walks_block ih (Nat.le_refl _)⟩

end Statements



end ScriptEngine.Parser
