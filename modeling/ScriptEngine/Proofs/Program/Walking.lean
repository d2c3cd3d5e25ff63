import ScriptEngine.Proofs.Program.ArrowHead

/-!
# The position and the tokens that are left

A cursor stands where a parse does if the tokens from its position to the first end are those that
the parse has left. No step asks for a token outside then, since the position is never behind that
end. `Walks` says that a reader leads from a place where the cursor stands with the parse to another
one, with the result of a production.
-/

namespace ScriptEngine.Parser

open Position (Cursor Mishap Reader script)

/-- A list of tokens cut at its first end. The last token is an end too. -/
structure Text where
  front : List Token
  stop : Token
  behind : List Token
  plain : ∀ t ∈ front, t.kind ≠ .eof
  ends : stop.kind = .eof
  closes : (stop :: behind).getLast?.map (·.kind) = some .eof

/-- All tokens of a text. -/
def Text.tokens (x : Text) : List Token := x.front ++ x.stop :: x.behind

/-- Some token is left. -/
def Text.Inside (x : Text) (c : Cursor) : Prop := c.current < x.front.length

/-- The cursor stands where the parse does. -/
structure Text.Stands (x : Text) (c : Cursor) (s : ParseState) : Prop where
  tokens : c.tokens = x.tokens
  le : c.current ≤ x.front.length
  rest : s.rest = x.front.drop c.current
  stop : s.stop = x.stop
  errors : c.errors = s.errors.reverse
  nextId : c.nextId = s.nextId

/-- The token in front of the position. -/
def Position.Cursor.Last (c : Cursor) (t : Token) : Prop := c.tokens[c.current - 1]? = some t

/-- The token at the position is of one of some kinds. -/
def Position.Cursor.Shows (c : Cursor) (kinds : List TokenKind) : Prop :=
  ∃ t, c.tokens[c.current]? = some t ∧ t.kind ∈ kinds

/-- With no token counted there is none left. -/
theorem rest_of_spent {s : ParseState} (h : s.count < 1) : s.rest = [] := by
  rw [← List.length_eq_zero_iff, ← s.count_eq]
  exact Nat.lt_one_iff.mp h

theorem count_tail {s : ParseState} {t : Token} {rest : List Token} (hs : s.rest = t :: rest) :
    s.count = s.tail.count + 1 := by
  rw [s.count_eq, s.tail.count_eq, show s.tail.rest = rest from congrArg List.tail hs, hs,
    List.length_cons]

/-- A token of the kind that was looked for. -/
theorem next_of_check {s : ParseState} {kind : TokenKind}
    (h : s.rest.head?.any (·.kind = kind) = true) :
    ∃ t rest, s.rest = t :: rest ∧ t.kind = kind := by
  cases hs : s.rest with
  | nil =>
    rw [hs] at h
    cases h
  | cons t rest =>
    rw [hs] at h
    exact ⟨t, rest, rfl, of_decide_eq_true h⟩

/-- A token of another kind is not accepted, and the state stays. -/
theorem acceptAny?_missing {s : ParseState} {kind : TokenKind}
    (h : ¬ s.rest.head?.any (·.kind = kind) = true) : acceptAny? [kind] s = .ok none s := by
  cases hs : s.rest with
  | nil => exact acceptAny?_nil hs
  | cons t rest =>
    refine acceptAny?_skip hs fun hkind => h ?_
    rw [hs]
    exact decide_eq_true (List.mem_singleton.mp hkind)

/-! ## Primitive steps -/

namespace Text.Stands

variable {x : Text} {c : Cursor} {s : ParseState} {t : Token} {rest : List Token}

/-- The tokens that are left are those of the front from the position on. -/
theorem count (h : x.Stands c s) : s.count = x.front.length - c.current := by
  rw [s.count_eq, h.rest, List.length_drop]

/-- What stands at the position: the next token, or the end. -/
theorem next (h : x.Stands c s) : c.tokens[c.current]? = some (s.rest.head?.getD s.stop) := by
  rw [h.tokens, Text.tokens, h.rest, h.stop, List.head?_drop]
  rcases Nat.lt_or_ge c.current x.front.length with hlt | hge
  · rw [List.getElem?_append_left hlt, List.getElem?_eq_getElem hlt]
    rfl
  · have heq : c.current = x.front.length := Nat.le_antisymm h.le hge
    rw [heq, List.getElem?_append_right (Nat.le_refl _), Nat.sub_self,
      List.getElem?_eq_none (Nat.le_refl _)]
    rfl

/-- A token that is left is not the end. -/
theorem plain (h : x.Stands c s) (hs : s.rest = t :: rest) : t.kind ≠ .eof :=
  x.plain t (List.mem_of_mem_drop (h.rest ▸ hs ▸ List.mem_cons_self))

/-- The reader looks at the first token that is left, or at the end. -/
theorem peek (h : x.Stands c s) : Position.peek c = some (.ok (s.rest.head?.getD s.stop), c) :=
  Position.tokenAt_of_some h.next

/-- There is always a token in front, or the first one. -/
theorem previous (h : x.Stands c s) : ∃ t, Position.previous c = some (.ok t, c) := by
  have hlt : c.current - 1 < c.tokens.length := by
    rw [h.tokens, Text.tokens, List.length_append, List.length_cons]
    have := h.le
    omega
  exact ⟨c.tokens[c.current - 1], Position.tokenAt_of_some (List.getElem?_eq_getElem hlt)⟩

/-- The reader is at the end when no token is left. -/
theorem isAtEnd (h : x.Stands c s) : Position.isAtEnd c = some (.ok s.rest.isEmpty, c) := by
  rw [Position.isAtEnd, Position.bind_of_ok h.peek]
  cases hs : s.rest with
  | nil =>
    show some (Except.ok (decide (s.stop.kind = .eof)), c) = _
    rw [h.stop, decide_eq_true x.ends]
    rfl
  | cons t rest =>
    show some (Except.ok (decide (t.kind = .eof)), c) = _
    rw [decide_eq_false (h.plain hs)]
    rfl

/-- The reader sees the kind of the first token that is left. -/
theorem check (h : x.Stands c s) (kind : TokenKind) :
    Position.check kind c = some (.ok (s.rest.head?.any (·.kind = kind)), c) := by
  rw [Position.check, Position.bind_of_ok h.isAtEnd]
  cases hs : s.rest with
  | nil => rfl
  | cons t rest =>
    show (Position.peek >>= _) c = _
    rw [Position.bind_of_ok h.peek, hs]
    rfl

/-- While a token is left the position is inside. -/
theorem inside (h : x.Stands c s) (hs : s.rest ≠ []) : x.Inside c := by
  refine Nat.lt_of_not_le fun hge => hs ?_
  rw [h.rest, List.drop_eq_nil_of_le hge]

/-- Behind the next token the cursor stands with the parse that has read it. -/
theorem tail (h : x.Stands c s) (hs : s.rest = t :: rest) : x.Stands c.next s.tail := by
  have hinside : x.Inside c := h.inside (by rw [hs]; exact List.cons_ne_nil t rest)
  refine ⟨h.tokens, hinside, ?_, h.stop, h.errors, h.nextId⟩
  show s.rest.tail = x.front.drop (c.current + 1)
  rw [h.rest, List.tail_drop]

/-- Behind a token that was read it is the last one. -/
theorem last (h : x.Stands c s) (hs : s.rest = t :: rest) : c.next.Last t := by
  have hnext := h.next
  rw [hs] at hnext
  exact hnext

/-- With a token left the reader takes it and moves on. -/
theorem advance (h : x.Stands c s) (hs : s.rest = t :: rest) :
    Position.advance c = some (.ok t, c.next) := by
  rw [Position.advance, Position.bind_of_ok h.isAtEnd, hs]
  exact Position.tokenAt_of_some (h.last hs)

/-- At the end the reader takes a token and stays. -/
theorem advance_nil (h : x.Stands c s) (hs : s.rest = []) :
    ∃ t, Position.advance c = some (.ok t, c) := by
  rw [Position.advance, Position.bind_of_ok h.isAtEnd, hs]
  exact h.previous

theorem matchToken_nil (h : x.Stands c s) (kind : TokenKind) (hs : s.rest = []) :
    Position.matchToken kind c = some (.ok false, c) := by
  rw [Position.matchToken, Position.bind_of_ok (h.check kind), hs]
  rfl

/-- A token that is left is matched, and passed, by its kind alone. -/
theorem matchToken_cons (h : x.Stands c s) (kind : TokenKind) (hs : s.rest = t :: rest) :
    Position.matchToken kind c =
      if t.kind = kind then some (.ok true, c.next) else some (.ok false, c) := by
  rw [Position.matchToken, Position.bind_of_ok (h.check kind), hs]
  by_cases hkind : t.kind = kind
  · rw [if_pos hkind]
    show (if decide (t.kind = kind) = true then _ else _ : Reader Bool) c = _
    rw [if_pos (decide_eq_true hkind), Position.bind_of_ok (h.advance hs)]
    rfl
  · rw [if_neg hkind]
    show (if decide (t.kind = kind) = true then _ else _ : Reader Bool) c = _
    rw [if_neg (by rw [decide_eq_true_eq]; exact hkind)]
    rfl

/-- At the end none of the kinds matches. -/
theorem matchAny_nil (h : x.Stands c s) (kinds : List TokenKind) (hs : s.rest = []) :
    Position.matchAny kinds c = some (.ok false, c) := by
  induction kinds with
  | nil => rfl
  | cons kind kinds ih =>
    rw [Position.matchAny, Position.bind_of_ok (h.matchToken_nil kind hs)]
    exact ih

/-- A token that is left is matched, and passed, by any of the kinds. -/
theorem matchAny_cons (h : x.Stands c s) (kinds : List TokenKind) (hs : s.rest = t :: rest) :
    Position.matchAny kinds c =
      if t.kind ∈ kinds then some (.ok true, c.next) else some (.ok false, c) := by
  induction kinds with
  | nil => rfl
  | cons kind kinds ih =>
    have hfirst := h.matchToken_cons kind hs
    rw [Position.matchAny]
    by_cases hkind : t.kind = kind
    · rw [if_pos hkind] at hfirst
      rw [Position.bind_of_ok hfirst, if_pos (List.mem_cons.mpr (Or.inl hkind))]
      rfl
    · rw [if_neg hkind] at hfirst
      rw [Position.bind_of_ok hfirst]
      show Position.matchAny kinds c = _
      rw [ih]
      simp only [List.mem_cons, hkind, false_or]

/-- The cursor shows the first token that is left. -/
theorem shows_of_cons {kinds : List TokenKind} (h : x.Stands c s) (hs : s.rest = t :: rest)
    (ht : t.kind ∈ kinds) : c.Shows kinds := by
  refine ⟨t, ?_, ht⟩
  have hnext := h.next
  rw [hs] at hnext
  exact hnext

/-- An error of the reader names the first token that is left, or the end. -/
theorem failHere {α : Type} (h : x.Stands c s) (message : String) :
    (Position.failHere message : Reader α) c =
      some (.error (.failed ⟨s.rest.head?.getD s.stop, message⟩), c) := by
  rw [Position.failHere, Position.bind_of_ok h.peek]
  rfl

theorem consume_found {kind : TokenKind} (h : x.Stands c s) (hs : s.rest = t :: rest)
    (hkind : t.kind = kind) (message : String) :
    Position.consume kind message c = some (.ok t, c.next) := by
  rw [Position.consume, Position.bind_of_ok (h.check kind), hs]
  show (if decide (t.kind = kind) = true then _ else _ : Reader Token) c = _
  rw [if_pos (decide_eq_true hkind)]
  exact h.advance hs

/-- A missing token is reported where it is missed. -/
theorem consume_missing {kind : TokenKind} (h : x.Stands c s)
    (hkind : ¬ s.rest.head?.any (·.kind = kind) = true) (message : String) :
    Position.consume kind message c =
      some (.error (.failed ⟨s.rest.head?.getD s.stop, message⟩), c) := by
  rw [Position.consume, Position.bind_of_ok (h.check kind), if_neg hkind]
  exact h.failHere message

/-- Noting an error. -/
theorem noted (h : x.Stands c s) (e : SyntaxError) :
    x.Stands { c with errors := c.errors ++ [e] } { s with errors := e :: s.errors } where
  tokens := h.tokens
  le := h.le
  rest := h.rest
  stop := h.stop
  errors := by
    show c.errors ++ [e] = (e :: s.errors).reverse
    rw [h.errors, List.reverse_cons]
  nextId := h.nextId

/-- Taking a number on both sides keeps them together. -/
theorem numbered (h : x.Stands c s) :
    x.Stands { c with nextId := c.nextId + 1 } { s with nextId := s.nextId + 1 } where
  tokens := h.tokens
  le := h.le
  rest := h.rest
  stop := h.stop
  errors := h.errors
  nextId := congrArg (· + 1) h.nextId

end Text.Stands

/-! ## Readers and productions -/

/-- The outcome of a reader is that of a production, and the cursor stands with the parse again. Of
`count` tokens none has come back, and if the production succeeds where it must read, one is
gone. -/
def Text.Meets {α : Type} (x : Text) (count : Nat) (reads : Bool) :
    EStateM.Result SyntaxError ParseState α → Option (Except Mishap α × Cursor) → Prop
  | .ok a s, r => s.count + reads.toNat ≤ count ∧ ∃ c, r = some (.ok a, c) ∧ x.Stands c s
  | .error e s, r => s.count ≤ count ∧ ∃ c, r = some (.error (.failed e), c) ∧ x.Stands c s

/-- From every place with fewer than `b` tokens left where a condition holds, the reader does what
the production does. -/
def Text.Walks {α : Type} (x : Text) (P : Cursor → Prop) (b : Nat) (reads : Bool) (p : Parser α)
    (r : Reader α) : Prop :=
  ∀ s c, s.count < b → x.Stands c s → P c → x.Meets s.count reads (p s) (r c)

/-- No condition. -/
abbrev Anywhere : Cursor → Prop := fun _ => True

section Rules

variable {α β γ : Type} {x : Text} {P P' : Cursor → Prop} {b b' : Nat} {reads : Bool}
  {p : Parser α} {r : Reader α} {kind : TokenKind} {kinds : List TokenKind}

/-- An outcome that meets a bound meets a looser one. -/
theorem Text.Meets.looser {n n' : Nat} {p' : EStateM.Result SyntaxError ParseState α}
    {r' : Option (Except Mishap α × Cursor)} (h : x.Meets n reads p' r') (hle : n ≤ n') :
    x.Meets n' false p' r' := by
  cases p' with
  | ok a s => exact ⟨Nat.le_trans (Nat.le_trans (Nat.le_add_right _ _) h.1) hle, h.2⟩
  | error e s => exact ⟨Nat.le_trans h.1 hle, h.2⟩

/-- One token was read before. -/
theorem Text.Meets.more {n : Nat} {p' : EStateM.Result SyntaxError ParseState α}
    {r' : Option (Except Mishap α × Cursor)} (h : x.Meets n false p' r') :
    x.Meets (n + 1) reads p' r' := by
  cases p' with
  | ok a s => exact ⟨Nat.add_le_add h.1 (Bool.toNat_le reads), h.2⟩
  | error e s => exact ⟨Nat.le_succ_of_le h.1, h.2⟩

/-- What holds for more tokens left holds for fewer. -/
theorem Text.Walks.fewer (h : x.Walks P b reads p r) (hle : b' ≤ b) : x.Walks P b' reads p r :=
  fun s c hb => h s c (Nat.lt_of_lt_of_le hb hle)

/-- What needs no condition holds under any. -/
theorem Text.Walks.anywhere (h : x.Walks Anywhere b reads p r) : x.Walks P b reads p r :=
  fun s c hb hs _ => h s c hb hs trivial

/-- A reader that moves on is one that may stay. -/
theorem Text.Walks.looser (h : x.Walks P b reads p r) : x.Walks P b false p r :=
  fun s c hb hs hP => (h s c hb hs hP).looser (Nat.le_refl _)

theorem walks_pure (a : α) : x.Walks P b false (pure a) (pure a) :=
  fun _ c _ hs _ => ⟨Nat.le_refl _, c, rfl, hs⟩

theorem walks_throw (e : SyntaxError) :
    x.Walks P b reads (throw e : Parser α) (throw (.failed e) : Reader α) :=
  fun _ c _ hs _ => ⟨Nat.le_refl _, c, rfl, hs⟩

theorem walks_fail (message : String) :
    x.Walks P b reads (failHere message : Parser α) (Position.failHere message) :=
  fun s c _ hs _ => ⟨Nat.le_refl s.count, c, hs.failHere message, hs⟩

/-- A production and what stands behind it, where as many tokens fewer are left as the first one
must have read. The reader may give an image of what the production gives. -/
theorem walks_image (first second : Bool) {q : Parser β} {t : Reader γ} {f : β → γ}
    {y : β → Parser α} {z : γ → Reader α} (hq : x.Walks P b first (f <$> q) t)
    (hy : ∀ a, x.Walks Anywhere (b - first.toNat) second (y a) (z (f a)))
    (hreads : reads.toNat ≤ first.toNat + second.toNat) :
    x.Walks P b reads (q >>= y) (t >>= z) := by
  intro s c hb hs hP
  have hfirst := hq s c hb hs hP
  change x.Meets s.count first (EStateM.map f q s) _ at hfirst
  show x.Meets s.count reads (EStateM.bind q y s) _
  unfold EStateM.map at hfirst
  unfold EStateM.bind
  cases hqs : q s with
  | error e s₁ =>
    rw [hqs] at hfirst
    obtain ⟨hle, c₁, ht, hs₁⟩ := hfirst
    exact ⟨hle, c₁, Position.bind_of_error ht, hs₁⟩
  | ok a s₁ =>
    rw [hqs] at hfirst
    obtain ⟨hle, c₁, ht, hs₁⟩ := hfirst
    rw [Position.bind_of_ok ht]
    have hrest := hy a s₁ c₁ (by omega) hs₁ trivial
    dsimp only
    cases hys : y a s₁ with
    | ok a' s₂ =>
      rw [hys] at hrest
      have hle₂ := hrest.1
      exact ⟨by omega, hrest.2⟩
    | error e s₂ =>
      rw [hys] at hrest
      have hle₂ := hrest.1
      exact ⟨by omega, hrest.2⟩

/-- One reader after the other does what the productions do, where a first one that moves on leaves
fewer tokens for the second. -/
theorem walks_seq (first second : Bool) {q : Parser β} {t : Reader β} {y : β → Parser α}
    {z : β → Reader α} (hq : x.Walks P b first q t)
    (hy : ∀ a, x.Walks Anywhere (b - first.toNat) second (y a) (z a))
    (hreads : reads.toNat ≤ first.toNat + second.toNat) :
    x.Walks P b reads (q >>= y) (t >>= z) := by
  rw [← id_map q] at hq
  exact walks_image first second hq hy hreads

/-- One reader after the other, whether or not the first moves on. -/
theorem walks_bind {q : Parser β} {t : Reader β} {y : β → Parser α} {z : β → Reader α}
    (hq : x.Walks P b false q t) (hy : ∀ a, x.Walks Anywhere b reads (y a) (z a)) :
    x.Walks P b reads (q >>= y) (t >>= z) :=
  walks_seq false reads hq hy (Nat.le_add_left _ _)

/-- A production that must read, and what stands behind it. -/
theorem walks_read {q : Parser β} {t : Reader β} {y : β → Parser α} {z : β → Reader α}
    (hq : x.Walks P b true q t) (hy : ∀ a, x.Walks Anywhere (b - 1) false (y a) (z a)) :
    x.Walks P b reads (q >>= y) (t >>= z) :=
  walks_seq true false hq hy (Bool.toNat_le reads)

theorem walks_map {q : Parser β} {t : Reader β} (f : β → α) (hq : x.Walks P b reads q t) :
    x.Walks P b reads (f <$> q) (t >>= fun a => pure (f a)) := by
  rw [map_eq_pure_bind]
  exact walks_seq reads false hq (fun a => walks_pure (f a)) (Nat.le_add_right _ _)

/-- Something that is there if the production has read it. -/
theorem walks_some {q : Parser β} {t : Reader β} {y : Option β → Parser α}
    {z : Option β → Reader α} (hq : x.Walks P b false q t)
    (hy : ∀ a, x.Walks Anywhere b reads (y (some a)) (z (some a))) :
    x.Walks P b reads (some <$> q >>= y) (t >>= fun a => pure (some a) >>= z) := by
  rw [bind_map_left]
  exact walks_bind hq hy

/-! ### The next token -/

/-- Tokens that may come next. -/
theorem walks_acceptAny {y : Option Token → Parser α} {z : Bool → Reader α}
    (hsome : ∀ t : Token, t.kind ∈ kinds →
      x.Walks (·.Last t) (b - 1) false (y (some t)) (z true))
    (hnone : x.Walks P b reads (y none) (z false)) :
    x.Walks P b reads (acceptAny? kinds >>= y) (Position.matchAny kinds >>= z) := by
  intro s c hb hs hP
  cases hrest : s.rest with
  | nil =>
    rw [bind_after (acceptAny?_nil hrest), Position.bind_of_ok (hs.matchAny_nil kinds hrest)]
    exact hnone s c hb hs hP
  | cons t rest =>
    have hmatch := hs.matchAny_cons kinds hrest
    by_cases hkind : t.kind ∈ kinds
    · rw [if_pos hkind] at hmatch
      rw [bind_after (acceptAny?_take hrest hkind), Position.bind_of_ok hmatch]
      have hcount := count_tail hrest
      have hlt : s.tail.count < b - 1 := by omega
      rw [hcount]
      exact (hsome t hkind s.tail c.next hlt (hs.tail hrest) (hs.last hrest)).more
    · rw [if_neg hkind] at hmatch
      rw [bind_after (acceptAny?_skip hrest hkind), Position.bind_of_ok hmatch]
      exact hnone s c hb hs hP

theorem walks_accept {y : Option Token → Parser α} {z : Bool → Reader α}
    (hsome : ∀ t : Token, t.kind = kind →
      x.Walks (·.Last t) (b - 1) false (y (some t)) (z true))
    (hnone : x.Walks P b reads (y none) (z false)) :
    x.Walks P b reads (accept? kind >>= y) (Position.matchToken kind >>= z) := by
  rw [← Position.matchAny_singleton]
  exact walks_acceptAny (fun t ht => hsome t (List.mem_singleton.mp ht)) hnone

/-- Where no token is left, none is read. -/
theorem walks_spent {z : Bool → Reader α} (hb : b ≤ 1) (h : x.Walks P b reads p (z false)) :
    x.Walks P b reads p (Position.matchAny kinds >>= z) := by
  intro s c hlt hs hP
  have hrest := rest_of_spent (Nat.lt_of_lt_of_le hlt hb)
  rw [Position.bind_of_ok (hs.matchAny_nil kinds hrest)]
  exact h s c hlt hs hP

theorem walks_check {y : Bool → Parser α} {z : Bool → Reader α}
    (htrue : x.Walks P b reads (y true) (z true))
    (hfalse : x.Walks P b reads (y false) (z false)) :
    x.Walks P b reads (check kind >>= y) (Position.check kind >>= z) := by
  intro s c hb hs hP
  show x.Meets s.count reads (y (s.rest.head?.any (·.kind = kind)) s) _
  rw [Position.bind_of_ok (hs.check kind)]
  cases s.rest.head?.any (·.kind = kind) with
  | true => exact htrue s c hb hs hP
  | false => exact hfalse s c hb hs hP

/-- The reader looks for tokens that do not come next. -/
theorem walks_unread {z : Bool → Reader α} (hP : ∀ c, P c → ¬ c.Shows kinds)
    (h : x.Walks P b reads p (z false)) :
    x.Walks P b reads p (Position.matchAny kinds >>= z) := by
  intro s c hb hs hPc
  have hmatch : Position.matchAny kinds c = some (.ok false, c) := by
    cases hrest : s.rest with
    | nil => exact hs.matchAny_nil kinds hrest
    | cons t rest =>
      rw [hs.matchAny_cons kinds hrest, if_neg fun ht => hP c hPc (hs.shows_of_cons hrest ht)]
  rw [Position.bind_of_ok hmatch]
  exact h s c hb hs hPc

/-- The production looks for tokens that do not come next. -/
theorem walks_unaccepted {y : Option Token → Parser α} (hP : ∀ c, P c → ¬ c.Shows kinds)
    (h : x.Walks P b reads (y none) r) : x.Walks P b reads (acceptAny? kinds >>= y) r := by
  intro s c hb hs hPc
  have haccept : acceptAny? kinds s = .ok none s := by
    cases hrest : s.rest with
    | nil => exact acceptAny?_nil hrest
    | cons t rest =>
      exact acceptAny?_skip hrest fun ht => hP c hPc (hs.shows_of_cons hrest ht)
  rw [bind_after haccept]
  exact h s c hb hs hPc

/-- A token that must come next. -/
theorem walks_expect {message : String} {y : Token → Parser α} {z : Token → Reader α}
    (hy : ∀ t : Token, t.kind = kind → x.Walks (·.Last t) (b - 1) false (y t) (z t)) :
    x.Walks P b reads (expect kind message >>= y) (Position.consume kind message >>= z) := by
  have hmodel : expect kind message >>= y =
      accept? kind >>= fun t? => t?.elim (failHere message) y := by
    rw [expect, bind_assoc]
    refine bind_congr fun t? => ?_
    cases t? with
    | some t => rfl
    | none => rfl
  rw [hmodel]
  intro s c hb hs hP
  by_cases hkind : s.rest.head?.any (·.kind = kind) = true
  · obtain ⟨t, rest, hrest, hkind⟩ := next_of_check hkind
    have haccept : accept? kind s = .ok (some t) s.tail :=
      acceptAny?_take hrest (List.mem_singleton.mpr hkind)
    rw [bind_after haccept, Position.bind_of_ok (hs.consume_found hrest hkind message)]
    have hcount := count_tail hrest
    have hlt : s.tail.count < b - 1 := by omega
    rw [hcount]
    exact (hy t hkind s.tail c.next hlt (hs.tail hrest) (hs.last hrest)).more
  · have haccept : accept? kind s = .ok none s := acceptAny?_missing hkind
    rw [bind_after haccept, Position.bind_of_error (hs.consume_missing hkind message)]
    exact ⟨Nat.le_refl s.count, c, rfl, hs⟩

theorem walks_token {message : String} :
    x.Walks P b true (expect kind message) (Position.consume kind message) := by
  rw [← bind_pure (expect kind message), ← bind_pure (Position.consume kind message)]
  exact walks_expect fun t _ => walks_pure t

/-- A token that is known to come next. -/
theorem walks_advance {message : String} {y : Token → Parser α} {z : Token → Reader α}
    (hend : kind ≠ .eof)
    (hy : ∀ t : Token, t.kind = kind → x.Walks (·.Last t) (b - 1) false (y t) (z t)) :
    x.Walks (·.Shows [kind]) b reads (expect kind message >>= y) (Position.advance >>= z) := by
  rintro s c hb hs ⟨t, ht, hmem⟩
  rw [hs.next] at ht
  obtain rfl := Option.some.inj ht
  rw [List.mem_singleton] at hmem
  cases hrest : s.rest with
  | nil =>
    rw [hrest] at hmem
    have hstop : s.stop.kind = .eof := hs.stop ▸ x.ends
    exact absurd (hmem.symm.trans hstop) hend
  | cons t rest =>
    rw [hrest] at hmem
    have hwalks : x.Walks Anywhere b reads (expect kind message >>= y)
        (Position.consume kind message >>= z) := walks_expect hy
    have hread := hwalks s c hb hs trivial
    rw [Position.bind_of_ok (hs.consume_found hrest hmem message)] at hread
    rw [Position.bind_of_ok (hs.advance hrest)]
    exact hread

/-- Where no token is left, one that must come next is missing. -/
theorem walks_missing {message : String} {z : Token → Reader α} (hb : b ≤ 1) :
    x.Walks P b reads (failHere message) (Position.consume kind message >>= z) := by
  intro s c hlt hs _
  have hrest := rest_of_spent (Nat.lt_of_lt_of_le hlt hb)
  have hnone : ¬ s.rest.head?.any (·.kind = kind) = true := by
    rw [hrest]
    exact Bool.false_ne_true
  rw [Position.bind_of_error (hs.consume_missing hnone message)]
  exact ⟨Nat.le_refl s.count, c, rfl, hs⟩

/-- The token that was read last. -/
theorem walks_previous {t : Token} {z : Token → Reader α}
    (h : x.Walks (·.Last t) b reads p (z t)) :
    x.Walks (·.Last t) b reads p (Position.previous >>= z) := by
  intro s c hb hs hP
  have hprevious : Position.previous c = some (.ok t, c) := Position.tokenAt_of_some hP
  rw [Position.bind_of_ok hprevious]
  exact h s c hb hs hP

/-! ### Looking ahead -/

section LookingAhead

variable {c : Cursor} {s : ParseState} {stop : Token} {u behind : List Token}

/-- A cursor faces the tokens that are left, the end and what is behind it. -/
theorem Text.Stands.faces (h : x.Stands c s) : c.Faces (s.rest ++ s.stop :: x.behind) where
  drop := by
    rw [h.tokens, Text.tokens, List.drop_append_of_le_length h.le, h.rest, h.stop]
  ends := by
    rw [List.getLast?_append_of_ne_nil _ (List.cons_ne_nil _ _), h.stop]
    exact x.closes

/-- The look-ahead for an arrow head stops at the end. -/
theorem closesArrowHead_stop (hstop : stop.kind = .eof) (u : List Token) :
    closesArrowHead (u ++ stop :: behind) = closesArrowHead u := by
  match u with
  | [] =>
    cases behind with
    | nil => rfl
    | cons t behind =>
      show (decide (stop.kind = .rightParen) && _) = false
      rw [hstop]
      rfl
  | [t] =>
    show (_ && decide (stop.kind = .arrow)) = false
    rw [hstop]
    exact Bool.and_false _
  | t :: t' :: u => rfl

/-- Looking past names stops at the end. -/
theorem afterNames_stop (hstop : stop.kind = .eof) (u : List Token) :
    afterNames (u ++ stop :: behind) = afterNames u ++ stop :: behind := by
  have hcomma : (stop.kind = .comma) = False := by simp [hstop]
  have hname : (stop.kind = .identifier) = False := by simp [hstop]
  induction u using afterNames.induct with
  | case1 comma name rest hcond ih =>
    rw [List.cons_append, List.cons_append, afterNames, afterNames, if_pos hcond, if_pos hcond]
    exact ih
  | case2 comma name rest hcond =>
    rw [List.cons_append, List.cons_append, afterNames, afterNames, if_neg hcond, if_neg hcond]
    rfl
  | case3 rest hshort =>
    rcases rest with - | ⟨t, - | ⟨t', rest⟩⟩
    · cases behind with
      | nil => rfl
      | cons t behind =>
        show (if _ then _ else _) = _
        rw [if_neg (by simp [hcomma])]
        rfl
    · show (if _ then _ else _) = _
      rw [if_neg (by simp [hname])]
      rfl
    · exact absurd rfl (hshort t t' rest)

/-- Looking ahead stops at an end. -/
theorem startsArrow_stop (hstop : stop.kind = .eof) (u : List Token) :
    startsArrow (u ++ stop :: behind) = startsArrow u := by
  match u with
  | [] => simp [startsArrow, hstop]
  | [opening] =>
    show (_ && closesArrowHead (if stop.kind = .identifier then afterNames behind
      else stop :: behind)) = (_ && false)
    rw [if_neg (by rw [hstop]; decide), ← List.nil_append (stop :: behind),
      closesArrowHead_stop hstop]
    rfl
  | opening :: name :: u =>
    show (decide (opening.kind = .leftParen) && closesArrowHead (if name.kind = .identifier then
      afterNames (u ++ stop :: behind) else name :: u ++ stop :: behind)) = _
    rw [afterNames_stop hstop, ← apply_ite (· ++ stop :: behind), closesArrowHead_stop hstop]
    rfl

/-- The reader sees an arrow head ahead exactly where the production does. -/
theorem Text.Stands.arrowAhead (h : x.Stands c s) :
    script.arrowAhead c = some (.ok (startsArrow s.rest), c) := by
  rw [h.faces.arrowAhead, startsArrow_stop (h.stop ▸ x.ends)]

/-- An arrow function with a parameter list begins with a parenthesis. -/
theorem Text.Stands.shows_of_startsArrow (h : x.Stands c s) (hs : startsArrow s.rest = true) :
    c.Shows [.leftParen] := by
  cases hrest : s.rest with
  | nil =>
    rw [hrest] at hs
    cases hs
  | cons t rest =>
    rw [hrest] at hs
    have hkind : (decide (t.kind = .leftParen) && _) = true := hs
    rw [Bool.and_eq_true, decide_eq_true_eq] at hkind
    exact h.shows_of_cons hrest (List.mem_singleton.mpr hkind.1)

end LookingAhead

/-! ### Errors, numbers and bounds -/

theorem walks_fresh {y : ExprId → Parser α} {z : ExprId → Reader α}
    (hy : ∀ id, x.Walks Anywhere b reads (y id) (z id)) :
    x.Walks P b reads (fresh >>= y) (Position.fresh >>= z) := by
  intro s c hb hs _
  show x.Meets s.count reads (y s.nextId { s with nextId := s.nextId + 1 })
    (z c.nextId { c with nextId := c.nextId + 1 })
  rw [hs.nextId]
  exact hy s.nextId { s with nextId := s.nextId + 1 } _ hb (hs.nextId ▸ hs.numbered) trivial

theorem walks_numbered (make : ExprId → Expr) :
    x.Walks P b false (fresh >>= fun id => pure (make id)) (Position.numbered make) :=
  walks_fresh fun id => walks_pure (make id)

/-- An expression with a number of its own, and what stands behind it. -/
theorem walks_made (make : ExprId → Expr) {y : Expr → Parser α} {z : Expr → Reader α}
    (hy : ∀ e, x.Walks Anywhere b reads (y e) (z e)) :
    x.Walks P b reads (fresh >>= fun id => pure (make id) >>= y)
      (Position.numbered make >>= z) := by
  rw [Position.numbered, bind_assoc]
  exact walks_fresh fun id => hy (make id)

theorem walks_note (t : Token) (message : String) :
    x.Walks P b false (note t message) (Position.note ⟨t, message⟩) :=
  fun _ _ _ hs _ => ⟨Nat.le_refl _, _, rfl, hs.noted ⟨t, message⟩⟩

theorem walks_room (n : Nat) (message : String) :
    x.Walks P b false (checkRoom n message) (Position.checkRoom n message) := by
  intro s c hb hs hP
  unfold checkRoom Position.checkRoom
  by_cases hn : n ≥ maxArguments
  · rw [if_pos hn, if_pos hn, Position.bind_of_ok hs.peek]
    exact walks_note _ message s c hb hs hP
  · rw [if_neg hn, if_neg hn]
    exact walks_pure () s c hb hs hP

/-- The number of tokens that are left bounds a loop. -/
theorem walks_remaining {y : Nat → Parser α}
    (hy : ∀ i, x.Walks P (min b (i + 1)) reads (y i) r) :
    x.Walks P b reads (remaining >>= y) r :=
  fun s c hb hs hP => hy s.count s c (Nat.lt_min.mpr ⟨hb, Nat.lt_succ_self _⟩) hs hP

/-! ### Lists -/

/-- A loop by position over items with commas between them. Each item is added to those before. -/
def Position.Lists (item : γ → Reader α) (add : γ → α → γ) (loop : γ → Reader γ) : Prop :=
  ∀ done, loop done = item done >>= fun a => Position.matchToken .comma >>= fun more =>
    if more = true then loop (add done a) else pure (add done a)

/-- The items behind a first one. The production adds them to what there is at the end. -/
theorem walks_moreItems {item : Nat → Parser α} {add : γ → α → γ} {init : γ} {item' : γ → Reader α}
    {loop : γ → Reader γ}
    (hloop : Position.Lists item' add loop)
    (hitem : ∀ items : List α,
      x.Walks Anywhere b false (item items.length) (item' (items.foldl add init)))
    (bound : Nat) : ∀ {b'} {P : Cursor → Prop} (items : List α), b' ≤ b → b' ≤ bound + 1 →
      x.Walks P b' false (List.foldl add init <$> moreItems item bound items)
        (Position.matchToken .comma >>= fun more =>
          if more = true then loop (items.reverse.foldl add init)
          else pure (items.reverse.foldl add init)) := by
  induction bound with
  | zero =>
    intro b' P items _ hle
    rw [← Position.matchAny_singleton]
    exact walks_spent hle (walks_pure _)
  | succ bound ih =>
    intro b' P items hb hle
    have hmodel : List.foldl add init <$> moreItems item (bound + 1) items =
        accept? .comma >>= fun comma? => List.foldl add init <$> comma?.elim (pure items.reverse)
          fun _ => item items.length >>= fun next => moreItems item bound (next :: items) := by
      rw [moreItems, map_bind]
      refine bind_congr fun comma? => ?_
      cases comma? with
      | none => rfl
      | some comma => rfl
    rw [hmodel]
    refine walks_accept (fun _ _ => ?_) ?_
    · have hround := hloop (items.reverse.foldl add init)
      have hnext := hitem items.reverse
      rw [List.length_reverse] at hnext
      rw [Option.elim_some, if_pos rfl, hround, map_bind]
      refine walks_bind (hnext.fewer (Nat.le_trans (Nat.sub_le _ _) hb)).anywhere fun next => ?_
      have hadd : (next :: items).reverse.foldl add init =
          add (items.reverse.foldl add init) next := by
        rw [List.reverse_cons, List.foldl_append]
        rfl
      rw [← hadd]
      exact ih (next :: items) (by omega) (by omega)
    · exact walks_pure _

/-- A loop over items with commas between them does what the production of a list does. -/
theorem walks_commaList {item : Nat → Parser α} {add : γ → α → γ} {init : γ}
    (item' : γ → Reader α) {loop : γ → Reader γ}
    (hloop : Position.Lists item' add loop)
    (hitem : ∀ items : List α,
      x.Walks Anywhere b false (item items.length) (item' (items.foldl add init))) :
    x.Walks P b false (List.foldl add init <$> commaList item) (loop init) := by
  rw [commaList, hloop init, map_bind]
  refine walks_bind (hitem []).anywhere fun first => ?_
  rw [map_bind]
  refine walks_remaining fun bound => ?_
  exact walks_moreItems hloop hitem bound [first] (Nat.min_le_left _ _) (Nat.min_le_right _ _)

/-- Items are added at the end where nothing else is said. -/
theorem foldl_snoc (items : List α) : items.foldl (fun done a => done ++ [a]) [] = items := by
  have hadd : ∀ (items done : List α),
      items.foldl (fun done a => done ++ [a]) done = done ++ items := by
    intro items
    induction items with
    | nil => exact fun done => (List.append_nil done).symm
    | cons a items ih =>
      intro done
      rw [List.foldl_cons, ih, List.append_assoc]
      rfl
  exact hadd items []

theorem walks_items {item : Nat → Parser α} (item' : List α → Reader α)
    {loop : List α → Reader (List α)}
    (hloop : Position.Lists item' (fun done a => done ++ [a]) loop)
    (hitem : ∀ items : List α, x.Walks Anywhere b false (item items.length) (item' items)) :
    x.Walks P b false (commaList item) (loop []) := by
  have hid : List.foldl (fun done a => done ++ [a]) [] = (id : List α → List α) :=
    funext foldl_snoc
  rw [← id_map (commaList item), ← hid]
  refine walks_commaList item' hloop fun items => ?_
  rw [foldl_snoc]
  exact hitem items

/-- Items up to a closing token. -/
theorem walks_enclosed {close : TokenKind} {message : String} {item : Nat → Parser α}
    {items' : Reader γ} (f : List α → γ) {y : List α × Token → Parser β}
    {z : γ → Token → Reader β} (hitems : x.Walks Anywhere b false (f <$> commaList item) items')
    (hy : ∀ items closing,
      x.Walks Anywhere (b - 1) false (y (items, closing)) (z (f items) closing)) :
    x.Walks P b reads (enclosed close message item >>= y)
      (Position.check close >>= fun found =>
        if found = true then
          pure (f []) >>= fun items => Position.consume close message >>= z items
        else items' >>= fun items => Position.consume close message >>= z items) := by
  have hclose : ∀ items : List α, x.Walks Anywhere b reads
      ((do
        let closing ← expect close message
        pure (items, closing)) >>= y)
      (Position.consume close message >>= z (f items)) := by
    intro items
    rw [bind_assoc]
    exact walks_expect fun closing _ => (hy items closing).anywhere
  rw [enclosed, bind_assoc]
  refine walks_check ?_ ?_
  · exact (hclose []).anywhere
  · show x.Walks P b reads ((commaList item >>= fun items => do
        let closing ← expect close message
        pure (items, closing)) >>= y) _
    rw [if_neg Bool.false_ne_true, bind_assoc]
    exact walks_image false reads hitems.anywhere hclose (Nat.le_add_left _ _)

/-- What comes until there is none left or a token says stop. The production keeps the latest
first. -/
theorem walks_upTo (new : α → List β) (stops : Token → Bool)
    {upTo : Nat → List β → Parser (List β)} {loop : List β → Reader (List β)} {item : Parser α}
    {item' : Reader α}
    (hspent : ∀ done, upTo 0 done = pure done.reverse)
    (hround : ∀ bound done s, upTo (bound + 1) done s =
      if s.rest.head?.all stops then .ok done.reverse s
      else (item >>= fun a => upTo bound ((new a).reverse ++ done)) s)
    (hloop : ∀ done s c, x.Stands c s → loop done c =
      if s.rest.head?.all stops then some (.ok done, c)
      else (item' >>= fun a => loop (done ++ new a)) c)
    (hitem : x.Walks x.Inside b true item item') (bound : Nat) :
    ∀ {b'} (done : List β), b' ≤ b → b' ≤ bound + 1 →
      x.Walks Anywhere b' false (upTo bound done) (loop done.reverse) := by
  induction bound with
  | zero =>
    intro b' done _ hle s c hb hs _
    have hrest := rest_of_spent (Nat.lt_of_lt_of_le hb hle)
    rw [hspent, hloop _ s c hs, hrest]
    exact ⟨Nat.le_refl _, c, rfl, hs⟩
  | succ bound ih =>
    intro b' done hle hbound s c hb hs _
    rw [hround, hloop _ s c hs]
    by_cases hstop : s.rest.head?.all stops = true
    · rw [if_pos hstop, if_pos hstop]
      exact ⟨Nat.le_refl _, c, rfl, hs⟩
    · rw [if_neg hstop, if_neg hstop]
      have hinside : x.Inside c := hs.inside fun hrest => hstop (by rw [hrest]; rfl)
      have hwalks : x.Walks x.Inside b' false
          (item >>= fun a => upTo bound ((new a).reverse ++ done))
          (item' >>= fun a => loop (done.reverse ++ new a)) := by
        refine walks_read (hitem.fewer hle) fun a => ?_
        have hdone : done.reverse ++ new a = ((new a).reverse ++ done).reverse := by
          rw [List.reverse_append, List.reverse_reverse]
        rw [hdone]
        exact ih ((new a).reverse ++ done) (by omega) (by omega)
      exact hwalks s c hb hs hinside

end Rules

end ScriptEngine.Parser
