import ScriptEngine.Proofs.Program.Parsed
import ScriptEngine.Proofs.Program.WalkingGrammar

/-!
# Reading always comes to an end

The reader by position has no bounds, and it may ask for a token at any position. It comes to an end
all the same, and with every list of tokens: with and without an end, with several ends, with number
and string tokens that lack their value. It gives what `parse` gives, and it never asks for a token
outside the list. What carries this is that a declaration moves on wherever a token is left, one
that fails too: there the token at which it failed is skipped, or one was read before.
-/

namespace ScriptEngine.Parser

open Position (Cursor Mishap Reader script)

/-! ## The first place -/

/-- What stands before the end is the front of the tokens. -/
theorem beforeEnd_append {front behind : List Token} {stop : Token}
    (hfront : ∀ t ∈ front, t.kind ≠ .eof) (hstop : stop.kind = .eof) :
    beforeEnd (front ++ stop :: behind) = front := by
  have hall : ∀ t ∈ front, decide (t.kind ≠ .eof) = true := fun t ht => decide_eq_true (hfront t ht)
  unfold beforeEnd
  rw [List.takeWhile_append_of_pos hall, List.takeWhile_cons, if_neg, List.append_nil]
  rw [decide_eq_true_eq, not_not]
  exact hstop

/-- Any tokens, with an end behind them if the last one is none, are a text. -/
theorem exists_text (first : ExprId) (tokens : List Token) :
    ∃ x : Text, x.front = beforeEnd tokens ∧
      x.Stands (Position.start first tokens) (start first tokens) := by
  have hlast := Position.start_ends first tokens
  have hadded : ∃ added, (Position.start first tokens).tokens = tokens ++ added := by
    unfold Position.start
    split
    · exact ⟨[], (List.append_nil tokens).symm⟩
    · exact ⟨_, rfl⟩
  cases hfind : tokens.find? (·.kind = .eof) with
  | some stop =>
    obtain ⟨added, hadded⟩ := hadded
    obtain ⟨hstop, front, behind, rfl, hfront⟩ := List.find?_eq_some_iff_append.mp hfind
    have hplain : ∀ t ∈ front, t.kind ≠ .eof := fun t ht => by simpa using hfront t ht
    have hends : stop.kind = .eof := of_decide_eq_true hstop
    have hbefore : beforeEnd (front ++ stop :: behind) = front := beforeEnd_append hplain hends
    have htokens : (Position.start first (front ++ stop :: behind)).tokens =
        front ++ stop :: (behind ++ added) := by
      rw [hadded, List.append_assoc]
      rfl
    rw [htokens, List.getLast?_append_of_ne_nil _ (List.cons_ne_nil _ _)] at hlast
    refine ⟨⟨front, stop, behind ++ added, hplain, hends, hlast⟩, hbefore.symm, htokens,
      Nat.zero_le _, hbefore, ?_, rfl, rfl⟩
    · show (List.find? _ _).getD _ = stop
      rw [hfind]
      rfl
  | none =>
    have hplain : ∀ t ∈ tokens, t.kind ≠ .eof := fun t ht => by
      simpa using List.find?_eq_none.mp hfind t ht
    have hbefore : beforeEnd tokens = tokens := by
      have hall : ∀ t ∈ tokens, decide (t.kind ≠ .eof) = true :=
        fun t ht => decide_eq_true (hplain t ht)
      unfold beforeEnd
      rw [← List.append_nil tokens, List.takeWhile_append_of_pos hall]
      rfl
    have hopen : ¬ tokens.getLast?.map (·.kind) = some .eof := by
      rw [Option.map_eq_some_iff]
      rintro ⟨t, ht, hkind⟩
      exact hplain t (List.mem_of_getLast? ht) hkind
    refine ⟨⟨tokens, Token.endOf ((tokens.getLast?.map (·.line)).getD 1), [], hplain, rfl, rfl⟩,
      hbefore.symm, ?_, Nat.zero_le _, hbefore, ?_, rfl, rfl⟩
    · unfold Position.start
      rw [if_neg hopen]
      rfl
    · show (List.find? _ _).getD _ = _
      rw [hfind]
      rfl

/-! ## Declarations -/

/-- The parse that stands where a cursor does. -/
def Text.parseAt (x : Text) (c : Cursor) : ParseState where
  rest := x.front.drop c.current
  count := (x.front.drop c.current).length
  count_eq := rfl
  stop := x.stop
  errors := c.errors.reverse
  nextId := c.nextId

/-- A cursor that does not lie behind the end has a state of the parser that stands for it. -/
theorem Text.stands_parseAt {x : Text} {c : Cursor} (htokens : c.tokens = x.tokens)
    (hle : c.current ≤ x.front.length) : x.Stands c (x.parseAt c) :=
  ⟨htokens, hle, rfl, rfl, (List.reverse_reverse _).symm, rfl⟩

/-- Where fewer tokens are left, the cursor has moved on. -/
theorem Text.Stands.moved {x : Text} {c c' : Cursor} {s s' : ParseState} (h : x.Stands c s)
    (h' : x.Stands c' s') (hlt : s'.count < s.count) : c.current < c'.current := by
  have hcount := h.count
  have hcount' := h'.count
  omega

/-- Where a token is left, a declaration reads one: it succeeds or it is skipped, and never is a
token asked for that does not exist. -/
theorem declaration_moves {x : Text} {c : Cursor} (htokens : c.tokens = x.tokens)
    (hinside : x.Inside c) :
    ∃ stmt? c', Position.declaration c = some (.ok stmt?, c') ∧ c'.tokens = c.tokens ∧
      c.current < c'.current ∧ c'.current ≤ x.front.length := by
  have hs := x.stands_parseAt htokens (Nat.le_of_lt hinside)
  generalize x.parseAt c = s at hs
  have hwalks : x.Walks x.Inside (s.count + 1) true
      (recovering (declaration (grammar (s.count + 1)))) Position.declaration :=
    walks_declaration (walks_attempted (grammar_walks _) (Nat.le_refl _))
  have hmeets := hwalks s c (Nat.lt_succ_self _) hs hinside
  -- A production that fails is recovered from, so there is a result in both cases.
  unfold recovering at hmeets
  cases hrun : declaration (grammar (s.count + 1)) s with
  | ok stmt s' =>
    rw [hrun] at hmeets
    obtain ⟨hlt, c', hread, hs'⟩ := hmeets
    exact ⟨some stmt, c', hread, hs'.tokens.trans htokens.symm, hs.moved hs' hlt, hs'.le⟩
  | error e s' =>
    rw [hrun] at hmeets
    obtain ⟨hlt, c', hread, hs'⟩ := hmeets
    exact ⟨none, c', hread, hs'.tokens.trans htokens.symm, hs.moved hs' hlt, hs'.le⟩

/-! ## Programs -/

/-- The loop over the declarations of a program never fails. -/
theorem declarationsUpTo_ok {g : Grammar} (i : Nat) : ∀ (done : List Stmt) (s : ParseState),
    ∃ ss s', declarationsUpTo g false i done s = .ok ss s' := by
  induction i with
  | zero => exact fun done s => ⟨_, s, rfl⟩
  | succ i ih =>
    intro done s
    cases hrest : s.rest with
    | nil => exact ⟨_, s, declarationsUpTo_nil hrest⟩
    | cons t rest =>
      rw [declarationsUpTo_cons hrest]
      show ∃ ss s', EStateM.bind (recovering (declaration g)) _ s = .ok ss s'
      unfold EStateM.bind recovering
      cases declaration g s with
      | ok stmt s' => exact ih _ s'
      | error e s' => exact ih _ _

/-- Reading a program by position does what the production for programs does. -/
theorem walks_program {x : Text} {b : Nat} :
    x.Walks Anywhere b false program (script.program []) := by
  refine walks_remaining fun bound => ?_
  refine walks_declarationsUpTo (grammar_walks (bound + 1)) (Nat.min_le_right _ _) false
    (fun body s c hs => ?_) bound (Nat.min_le_right _ _)
  rw [Position.Language.program, Position.bind_of_ok hs.isAtEnd]
  cases s.rest with
  | nil => rfl
  | cons t rest =>
    simp only [Bool.false_and]
    rfl

/-- The reader by position comes to an end with all tokens, gives what `parse` gives and asks for no
token outside of them. Each declaration that is read before the first end moves on, whether it
succeeds or is skipped. -/
theorem parse_terminates (first : ExprId) (tokens : List Token) :
    Position.parse first tokens = some (.ok (ScriptEngine.parse first tokens)) ∧
      ∀ c : Cursor, c.tokens = (Position.start first tokens).tokens →
        c.current < (beforeEnd tokens).length →
        ∃ stmt? c', Position.declaration c = some (.ok stmt?, c') ∧ c'.tokens = c.tokens ∧
          c.current < c'.current ∧ c'.current ≤ (beforeEnd tokens).length := by
  obtain ⟨x, hfront, hs⟩ := exists_text first tokens
  refine ⟨?_, fun c htokens hinside => ?_⟩
  · have hmeets := walks_program (start first tokens) (Position.start first tokens)
      (Nat.lt_succ_self _) hs trivial
    obtain ⟨ss, s', hrun⟩ : ∃ ss s', program (start first tokens) = .ok ss s' :=
      declarationsUpTo_ok _ _ _
    rw [hrun] at hmeets
    obtain ⟨-, c', hread, hs'⟩ := hmeets
    unfold Position.parse ScriptEngine.parse
    rw [hread, hrun]
    show some (Except.ok (⟨if c'.errors.isEmpty then _ else _, _⟩ : Parsed)) = _
    rw [hs'.errors, hs'.nextId, List.isEmpty_reverse]
  · rw [← hfront] at hinside ⊢
    exact declaration_moves (htokens.trans hs.tokens) hinside

/-- A token that begins nothing, then an end, then a number without its value. -/
theorem parse_terminates_stray :
    let tokens : List Token := [⟨.rightParen, ")", none, 1⟩, Token.endOf 1, ⟨.number, "7", none, 2⟩]
    ∃ stmt? c', Position.declaration (Position.start 0 tokens) = some (.ok stmt?, c') ∧
      c'.tokens = tokens ++ [Token.endOf 2] ∧ 0 < c'.current ∧ c'.current ≤ 1 :=
  (parse_terminates 0 [⟨.rightParen, ")", none, 1⟩, Token.endOf 1, ⟨.number, "7", none, 2⟩]).2
    (Position.start 0 _) rfl (by decide)

end ScriptEngine.Parser
