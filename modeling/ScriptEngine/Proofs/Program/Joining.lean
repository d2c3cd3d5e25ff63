import ScriptEngine.Proofs.Program.Numbering
import ScriptEngine.Proofs.Program.RoundTrip

/-!
# Reading again with more behind it

If a production has read some tokens without an error, then it reads them in the same way when they
stand on other lines, when the numbers of expressions are others and when other tokens follow, as
long as its last decision did not depend on the end of the source. `Tracks` says so of a pair of
productions: the second one, started on the same tokens with more behind them, does what the first
one does. Along the way it says what the first one returns.

How a production depends on what follows is its mode. One that ends with a token that it demands
depends on nothing behind it. One that may go on with another token can be fooled where the tokens
end, so it is tracked only if it left some token unread. The words `else`, `catch` and `finally` are
never the first of a program, so where only these are looked for, nothing has to be left unread.

The loops of the grammar are bounded by the number of tokens that are left. The second production
has more tokens and larger bounds; the bound of the first one suffices because every round reads a
token.
-/

namespace ScriptEngine.Parser

open Writing Relabeling

/-- How a production depends on what follows the tokens that it reads. -/
inductive Mode where
  /-- It ends by looking for a token behind or by demanding one. -/
  | ends (demands : Bool)
  /-- It is not to be fooled by the end of the tokens. -/
  | free

/-- The mode of a production that looks at the token behind. -/
abbrev Mode.looks : Mode := .ends false

/-- The mode of a production that ends with a token that it demands. -/
abbrev Mode.reads : Mode := .ends true

/-- The second parse has the same tokens before it as the first, on other lines, and then more, and
it will give out the images of the numbers that the first one will. -/
structure Linked (f : Relabeling) (k : List Token) (s t : ParseState) : Prop where
  rest : t.rest = s.rest.map f.token ++ k
  errors : t.errors = []
  /-- Numbers that are given out from now on are the new ones of those in the first parse. -/
  numbers : ∀ i, f.number (s.nextId + i) = t.nextId + i

section Rules

variable {α β γ : Type} {f : Relabeling} {k : List Token} {b b' : Nat} {m m₁ : Mode} {H H' : Prop}
  {p p' p'' : Parser α} {r : α → α} {Q Q' : α → Prop} {r₁ : β → β} {Q₁ : β → Prop}
  {kind : TokenKind} {kinds : List TokenKind}

/-- The first production succeeds without an error. Then it has only read on, and if there were at
most `b` tokens and a hypothesis on what was read before holds, its result has the property and the
second production does the same on those tokens with `k` behind them. -/
def Tracks (H : Prop) (f : Relabeling) (k : List Token) (b : Nat) (m : Mode) (p p' : Parser α)
    (r : α → α) (Q : α → Prop) : Prop :=
  ∀ s a s', p s = .ok a s' → s'.errors = [] →
    (s.errors = [] ∧ s'.rest <:+ s.rest ∧ (m = .reads → s'.rest.length < s.rest.length)) ∧
    (s.rest.length ≤ b → H → Q a ∧ ∀ t, Linked f k s t → (m = .looks → s'.rest ≠ []) →
      ∃ t', p' t = .ok (r a) t' ∧ Linked f k s' t')

/-- A production that is tracked in any mode is tracked as one that looks at the token behind. -/
theorem Tracks.looser (h : Tracks H f k b m p p' r Q) : Tracks H f k b .looks p p' r Q := by
  intro s a s' hp herrors
  obtain ⟨⟨herrors', hsuffix, -⟩, hrest⟩ := h s a s' hp herrors
  refine ⟨⟨herrors', hsuffix, nofun⟩, fun hb hH => ?_⟩
  exact ⟨(hrest hb hH).1, fun t ht hne => (hrest hb hH).2 t ht fun _ => hne rfl⟩

/-- A production that ends with a token that it demands is not fooled by the end of the tokens. -/
theorem Tracks.freed (h : Tracks H f k b .reads p p' r Q) : Tracks H f k b .free p p' r Q := by
  intro s a s' hp herrors
  obtain ⟨⟨herrors', hsuffix, -⟩, hrest⟩ := h s a s' hp herrors
  refine ⟨⟨herrors', hsuffix, nofun⟩, fun hb hH => ?_⟩
  exact ⟨(hrest hb hH).1, fun t ht _ => (hrest hb hH).2 t ht nofun⟩

/-- What is known of the result may be weakened. -/
theorem Tracks.post (h : Tracks H f k b m p p' r Q) (hQ : ∀ a, H → Q a → Q' a) :
    Tracks H f k b m p p' r Q' := by
  intro s a s' hp herrors
  obtain ⟨hfacts, hrest⟩ := h s a s' hp herrors
  exact ⟨hfacts, fun hb hH => ⟨hQ a hH (hrest hb hH).1, (hrest hb hH).2⟩⟩

/-- What is tracked with some tokens left is tracked with fewer. -/
theorem Tracks.fewer (h : Tracks H f k b m p p' r Q) (hle : b' ≤ b) :
    Tracks H f k b' m p p' r Q := by
  intro s a s' hp herrors
  obtain ⟨hfacts, hrest⟩ := h s a s' hp herrors
  exact ⟨hfacts, fun hb hH => hrest (Nat.le_trans hb hle) hH⟩

/-- Where no token is left, a production that looks further is not tracked. -/
theorem Tracks.spent (h : Tracks H f k 0 .looks p p' r Q) : Tracks H f k 0 .looks p p'' r Q := by
  intro s a s' hp herrors
  obtain ⟨hfacts, hrest⟩ := h s a s' hp herrors
  refine ⟨hfacts, fun hb hH => ⟨(hrest hb hH).1, fun t _ hne => absurd ?_ (hne rfl)⟩⟩
  have hnil : s.rest = [] := List.length_eq_zero_iff.mp (Nat.le_zero.mp hb)
  exact List.suffix_nil.mp (hnil ▸ hfacts.2.1)

/-- An answer reads nothing, so it depends on nothing that follows. -/
theorem tracks_pure {a a' : α} (ha : H → a' = r a) (hQ : H → Q a) :
    Tracks H f k b .free (pure a) (pure a') r Q := by
  rintro s _ _ hp herrors
  cases hp
  refine ⟨⟨herrors, List.suffix_refl _, nofun⟩, fun _ hH => ⟨hQ hH, fun t ht _ => ?_⟩⟩
  exact ⟨t, ha hH ▸ rfl, ht⟩

/-- A production that never succeeds. -/
theorem tracks_never (h : ∀ s a s', p s ≠ .ok a s') : Tracks H f k b m p p' r Q :=
  fun s a s' hp => absurd hp (h s a s')

/-- A production that refuses is tracked by any other. -/
theorem tracks_fail {message : String} : Tracks H f k b m (failHere message) p' r Q :=
  tracks_never fun _ _ _ h => nomatch h

theorem tracks_throw {e : SyntaxError} : Tracks H f k b m (throw e) p' r Q :=
  tracks_never fun _ _ _ h => nomatch h

/-- Two productions in a row that succeed succeed one after the other. -/
theorem ok_of_bind {x : Parser β} {y : β → Parser α} {s s' : ParseState} {a : α}
    (h : (x >>= y) s = .ok a s') : ∃ c s₁, x s = .ok c s₁ ∧ y c s₁ = .ok a s' := by
  change EStateM.bind x y s = .ok a s' at h
  unfold EStateM.bind at h
  split at h
  · next c s₁ hx => exact ⟨c, s₁, hx, h⟩
  · cases h

theorem bind_of_ok {x : Parser β} {y : β → Parser α} {s s' s₁ : ParseState} {a : α} {c : β}
    (hx : x s = .ok c s₁) (hy : y c s₁ = .ok a s') : (x >>= y) s = .ok a s' := by
  show EStateM.bind x y s = .ok a s'
  unfold EStateM.bind
  rw [hx]
  exact hy

/-- What two productions in a row do, from what each of them does. The first one is tracked because
the second one demands a token behind it or leaves one. The second one may have fewer tokens before
it if the first one reads some. -/
theorem tracks_seq {x x' : Parser β} {y y' : β → Parser α} {m' : Mode}
    (hx : Tracks H f k b m₁ x x' r₁ Q₁)
    (hy : ∀ c, Tracks (H ∧ Q₁ c) f k b' m (y c) (y' (r₁ c)) r Q)
    (hb' : b ≤ b' ∨ m₁ = .reads ∧ b ≤ b' + 1)
    (hless : m' = .reads → m = .reads ∨ m₁ = .reads) (hlooks : m = .looks → m' = .looks)
    (hbefore : m₁ = .looks → m' = .looks ∨ m = .reads) :
    Tracks H f k b m' (x >>= y) (x' >>= y') r Q := by
  intro s a s' hp herrors
  obtain ⟨c, s₁, hxs, hys⟩ := ok_of_bind hp
  obtain ⟨⟨herrors₁, hsuffix₁, hless₁⟩, hrest₁⟩ := hy c s₁ a s' hys herrors
  obtain ⟨⟨herrors₀, hsuffix₀, hless₀⟩, hrest₀⟩ := hx s c s₁ hxs herrors₁
  refine ⟨⟨herrors₀, hsuffix₁.trans hsuffix₀, fun hm' => ?_⟩, fun hb hH => ?_⟩
  · rcases hless hm' with hm | hm
    · exact Nat.lt_of_lt_of_le (hless₁ hm) hsuffix₀.length_le
    · exact Nat.lt_of_le_of_lt hsuffix₁.length_le (hless₀ hm)
  · have hlen : s₁.rest.length ≤ b' := by
      have hle := hsuffix₀.length_le
      rcases hb' with hb' | ⟨hm, hb'⟩
      · omega
      · have := hless₀ hm
        omega
    obtain ⟨hQ₁, hlink₁⟩ := hrest₀ hb hH
    obtain ⟨hQ, hlink⟩ := hrest₁ hlen ⟨hH, hQ₁⟩
    refine ⟨hQ, fun t ht hleft => ?_⟩
    -- If the first production looks further, then something stands behind it.
    have hleft₁ : m₁ = .looks → s₁.rest ≠ [] := by
      intro hm₁ hnil
      rcases hbefore hm₁ with hm' | hm
      · exact hleft hm' (List.suffix_nil.mp (hnil ▸ hsuffix₁))
      · have hlt := hless₁ hm
        rw [hnil] at hlt
        exact Nat.not_lt_zero _ hlt
    obtain ⟨t₁, hx', ht₁⟩ := hlink₁ t ht hleft₁
    obtain ⟨t', hy', ht'⟩ := hlink t₁ ht₁ fun hm => hleft (hlooks hm)
    exact ⟨t', bind_of_ok hx' hy', ht'⟩

/-- A production with one behind it that reads or looks on. -/
theorem tracks_bind {x x' : Parser β} {y y' : β → Parser α} {i : Bool}
    (hx : Tracks H f k b m₁ x x' r₁ Q₁)
    (hy : ∀ c, Tracks (H ∧ Q₁ c) f k b (.ends i) (y c) (y' (r₁ c)) r Q) :
    Tracks H f k b (.ends i) (x >>= y) (x' >>= y') r Q := by
  refine tracks_seq hx hy (.inl (Nat.le_refl b)) .inl id fun _ => ?_
  cases i with
  | false => exact .inl rfl
  | true => exact .inr rfl

/-- A production with one behind it that does not depend on what follows. -/
theorem tracks_then {x x' : Parser β} {y y' : β → Parser α} (hx : Tracks H f k b m x x' r₁ Q₁)
    (hy : ∀ c, Tracks (H ∧ Q₁ c) f k b .free (y c) (y' (r₁ c)) r Q) :
    Tracks H f k b m (x >>= y) (x' >>= y') r Q :=
  tracks_seq hx hy (.inl (Nat.le_refl b)) .inr nofun .inl

/-- A round of a loop, which reads something. -/
theorem tracks_round {x x' : Parser β} {y y' : β → Parser α}
    (hx : Tracks H f k (b + 1) .reads x x' r₁ Q₁)
    (hy : ∀ c, Tracks (H ∧ Q₁ c) f k b m (y c) (y' (r₁ c)) r Q) :
    Tracks H f k (b + 1) m (x >>= y) (x' >>= y') r Q :=
  tracks_seq hx hy (.inr ⟨rfl, Nat.le_refl _⟩) .inl id nofun

/-- What is made of a result is tracked if the result is. -/
theorem tracks_map {x x' : Parser β} {g g' : β → α} (hx : Tracks H f k b m x x' r₁ Q₁)
    (hr : ∀ c, g' (r₁ c) = r (g c)) (hQ : ∀ c, H → Q₁ c → Q (g c)) :
    Tracks H f k b m (g <$> x) (g' <$> x') r Q := by
  rw [map_eq_pure_bind, map_eq_pure_bind]
  exact tracks_then hx fun c => tracks_pure (fun _ => hr c) fun h => hQ c h.1 h.2

theorem tracks_some {x x' : Parser α} {P : Option α → Prop} (hx : Tracks H f k b m x x' r Q)
    (hP : ∀ a, Q a → P (some a)) :
    Tracks H f k b m (some <$> x) (some <$> x') (Option.map r) P :=
  tracks_map hx (fun _ => rfl) fun a _ => hP a

/-- The same tokens come next in both parses, unless the first one has none left. -/
theorem Linked.head {s t : ParseState} {x : Token} {rest : List Token} (h : Linked f k s t)
    (hs : s.rest = x :: rest) : t.rest = f.token x :: (rest.map f.token ++ k) := by
  rw [h.rest, hs]
  rfl

/-- Linked parses stay so when both read a token. -/
theorem Linked.tail {s t : ParseState} {x : Token} {rest : List Token} (h : Linked f k s t)
    (hs : s.rest = x :: rest) : Linked f k s.tail t.tail where
  rest := by
    show t.rest.tail = s.rest.tail.map _ ++ k
    rw [h.head hs, hs]
    rfl
  errors := h.errors
  numbers := h.numbers

/-- A production that begins by looking for tokens. `hend` is for the case that the first parse has
none left. -/
theorem tracks_accepting {y y' : Option Token → Parser α}
    (hsome : ∀ x : Token, x.kind ∈ kinds →
      Tracks H f k (b - 1) m (y (some x)) (y' (some (f.token x))) r Q)
    (hnone : Tracks H f k b m (y none) (y' none) r Q)
    (hend : m = .free → ∀ x ∈ k.head?, x.kind ∉ kinds) :
    Tracks H f k b m (acceptAny? kinds >>= y) (acceptAny? kinds >>= y') r Q := by
  intro s a s' hp herrors
  obtain ⟨x?, s₁, hx, hy⟩ := ok_of_bind hp
  cases hs : s.rest with
  | nil =>
    rw [acceptAny?_nil hs] at hx
    cases hx
    obtain ⟨⟨herrors', hsuffix, hless⟩, hrest⟩ := hnone s a s' hy herrors
    rw [hs] at hsuffix hless hrest
    refine ⟨⟨herrors', hsuffix, hless⟩, fun hb hH => ⟨(hrest hb hH).1, fun t ht hleft => ?_⟩⟩
    cases m with
    | ends i =>
      cases i with
      | false => exact absurd (List.suffix_nil.mp hsuffix) (hleft rfl)
      | true => exact absurd (hless rfl) (Nat.not_lt_zero _)
    | free =>
      obtain ⟨t', hy', ht'⟩ := (hrest hb hH).2 t ht hleft
      have hrest : t.rest = k := by
        rw [ht.rest, hs]
        rfl
      refine ⟨t', bind_of_ok ?_ hy', ht'⟩
      cases hk : k with
      | nil => exact acceptAny?_nil (hrest.trans hk)
      | cons x rest => exact acceptAny?_skip (hrest.trans hk) (hend rfl x (by rw [hk]; rfl))
  | cons x rest =>
    by_cases hkind : x.kind ∈ kinds
    · rw [acceptAny?_take hs hkind] at hx
      cases hx
      obtain ⟨⟨herrors', hsuffix, hless⟩, hrest⟩ := hsome x hkind s.tail a s' hy herrors
      have htail : s.tail.rest = rest := congrArg List.tail hs
      rw [htail] at hsuffix hless hrest
      refine ⟨⟨herrors', hsuffix.trans (List.suffix_cons x rest), fun hm =>
        Nat.lt_succ_of_lt (hless hm)⟩, fun hb hH => ?_⟩
      rw [List.length_cons] at hb
      obtain ⟨hQ, hlink⟩ := hrest (Nat.le_sub_one_of_lt hb) hH
      refine ⟨hQ, fun t ht hleft => ?_⟩
      obtain ⟨t', hy', ht'⟩ := hlink t.tail (ht.tail hs) hleft
      exact ⟨t', bind_of_ok (acceptAny?_take (ht.head hs) hkind) hy', ht'⟩
    · rw [acceptAny?_skip hs hkind] at hx
      cases hx
      obtain ⟨hfacts, hrest⟩ := hnone s a s' hy herrors
      rw [hs] at hfacts hrest
      refine ⟨hfacts, fun hb hH => ⟨(hrest hb hH).1, fun t ht hleft => ?_⟩⟩
      obtain ⟨t', hy', ht'⟩ := (hrest hb hH).2 t ht hleft
      exact ⟨t', bind_of_ok (acceptAny?_skip (ht.head hs) hkind) hy', ht'⟩

theorem tracks_acceptAny {y y' : Option Token → Parser α} {i : Bool}
    (hsome : ∀ x : Token, x.kind ∈ kinds →
      Tracks H f k (b - 1) (.ends i) (y (some x)) (y' (some (f.token x))) r Q)
    (hnone : Tracks H f k b (.ends i) (y none) (y' none) r Q) :
    Tracks H f k b (.ends i) (acceptAny? kinds >>= y) (acceptAny? kinds >>= y') r Q :=
  tracks_accepting hsome hnone nofun

theorem tracks_accept {y y' : Option Token → Parser α} {i : Bool}
    (hsome : ∀ x : Token, x.kind = kind →
      Tracks H f k (b - 1) (.ends i) (y (some x)) (y' (some (f.token x))) r Q)
    (hnone : Tracks H f k b (.ends i) (y none) (y' none) r Q) :
    Tracks H f k b (.ends i) (accept? kind >>= y) (accept? kind >>= y') r Q :=
  tracks_acceptAny (fun x hx => hsome x (List.mem_singleton.mp hx)) hnone

/-- One of the words that may stand behind a statement and go on with it. -/
theorem tracks_optional (hk : Apart k) {y y' : Option Token → Parser α}
    (hkind : kind ∈ [.elseWord, .catchWord, .finallyWord])
    (hsome : ∀ x : Token, x.kind = kind →
      Tracks H f k (b - 1) .free (y (some x)) (y' (some (f.token x))) r Q)
    (hnone : Tracks H f k b .free (y none) (y' none) r Q) :
    Tracks H f k b .free (accept? kind >>= y) (accept? kind >>= y') r Q :=
  tracks_accepting (fun x hx => hsome x (List.mem_singleton.mp hx)) hnone fun _ x hx hmem =>
    hk x hx (List.mem_singleton.mp hmem ▸ hkind)

/-- A token that was demanded and read was the next one, of that kind. -/
theorem expect_ok {message : String} {s s' : ParseState} {x : Token}
    (h : expect kind message s = .ok x s') :
    s' = s.tail ∧ s.rest = x :: s'.rest ∧ x.kind = kind := by
  obtain ⟨x?, s₁, hx, hy⟩ := ok_of_bind h
  cases hs : s.rest with
  | nil =>
    rw [show accept? kind s = .ok none s from acceptAny?_nil hs] at hx
    cases hx
    cases hy
  | cons x' rest =>
    by_cases hkind : x'.kind = kind
    · rw [show accept? kind s = .ok (some x') s.tail from
        acceptAny?_take hs (List.mem_singleton.mpr hkind)] at hx
      cases hx
      cases hy
      have htail : s.tail.rest = rest := congrArg List.tail hs
      exact ⟨rfl, htail ▸ rfl, hkind⟩
    · rw [show accept? kind s = .ok none s from
        acceptAny?_skip hs fun h => hkind (List.mem_singleton.mp h)] at hx
      cases hx
      cases hy

/-- A token that is demanded is read by both parses. -/
theorem tracks_expect {message : String} :
    Tracks H f k b .reads (expect kind message) (expect kind message) f.token
      (·.kind = kind) := by
  intro s x s' hp herrors
  obtain ⟨rfl, hs, hkind⟩ := expect_ok hp
  refine ⟨⟨herrors, hs ▸ List.suffix_cons _ _, fun _ => hs ▸ Nat.lt_succ_self _⟩,
    fun _ _ => ⟨hkind, fun t ht _ => ⟨t.tail, ?_, ht.tail hs⟩⟩⟩
  exact bind_of_ok (show accept? kind t = .ok (some _) t.tail from
    acceptAny?_take (ht.head hs) (List.mem_singleton.mpr hkind)) rfl

/-- Asking for a kind of token is tracked if both ways on are. -/
theorem tracks_check {y y' : Bool → Parser α} {i : Bool}
    (htrue : Tracks H f k b (.ends i) (y true) (y' true) r Q)
    (hfalse : Tracks H f k b (.ends i) (y false) (y' false) r Q) :
    Tracks H f k b (.ends i) (check kind >>= y) (check kind >>= y') r Q := by
  intro s a s' hp herrors
  change y (s.rest.head?.any (·.kind = kind)) s = .ok a s' at hp
  have hall : ∀ found, Tracks H f k b (.ends i) (y found) (y' found) r Q := by
    intro found
    cases found
    · exact hfalse
    · exact htrue
  obtain ⟨⟨herrors', hsuffix, hless⟩, hrest⟩ := hall _ s a s' hp herrors
  refine ⟨⟨herrors', hsuffix, hless⟩, fun hb hH => ⟨(hrest hb hH).1, fun t ht hleft => ?_⟩⟩
  obtain ⟨t', hy', ht'⟩ := (hrest hb hH).2 t ht hleft
  refine ⟨t', ?_, ht'⟩
  show y' (t.rest.head?.any (·.kind = kind)) t = _
  cases hs : s.rest with
  | nil =>
    rw [hs] at hsuffix hless
    cases i with
    | false => exact absurd (List.suffix_nil.mp hsuffix) (hleft rfl)
    | true => exact absurd (hless rfl) (Nat.not_lt_zero _)
  | cons x rest =>
    rw [hs] at hy'
    rw [ht.head hs]
    exact hy'

/-- Both parses give out the next number, the second one its image. -/
theorem tracks_fresh : Tracks H f k b .free fresh fresh f.number fun _ => True := by
  rintro s _ _ hp herrors
  cases hp
  refine ⟨⟨herrors, List.suffix_refl _, nofun⟩, fun _ _ => ⟨trivial, fun t ht _ =>
    ⟨{ t with nextId := t.nextId + 1 }, ?_, ht.rest, ht.errors, fun i => ?_⟩⟩⟩
  · show EStateM.Result.ok t.nextId _ = .ok (f.number s.nextId) _
    rw [show f.number s.nextId = t.nextId from ht.numbers 0]
  · show f.number (s.nextId + 1 + i) = t.nextId + 1 + i
    rw [Nat.add_assoc, ht.numbers, Nat.add_assoc]

/-- A result with a number of its own. -/
theorem tracks_numbered {g g' : ExprId → α} (hr : H → ∀ id, g' (f.number id) = r (g id))
    (hQ : H → ∀ id, Q (g id)) :
    Tracks H f k b .free (fresh >>= fun id => pure (g id)) (fresh >>= fun id => pure (g' id)) r Q :=
  tracks_then tracks_fresh fun id => tracks_pure (fun h => hr h.1 id) fun h => hQ h.1 id

/-- A node that is made with a fresh number is the image of the first one. -/
theorem tracks_made {g g' : ExprId → α} (hr : H → ∀ id, g' (f.number id) = r (g id))
    (hQ : H → ∀ id, Q (g id)) :
    Tracks H f k b .looks (fresh >>= fun id => pure (g id)) (fresh >>= fun id => pure (g' id)) r
      Q :=
  (tracks_numbered hr hQ).looser

/-- A parse without errors has had room for one more. -/
theorem tracks_room {count : Nat} {message : String} :
    Tracks H f k b .free (checkRoom count message) (checkRoom count message) id
      fun _ => count < maxArguments := by
  intro s a s' hp herrors
  unfold checkRoom at hp ⊢
  split at hp
  · cases hp
    cases herrors
  · next hcount =>
    cases hp
    refine ⟨⟨herrors, List.suffix_refl _, nofun⟩, fun _ _ =>
      ⟨Nat.lt_of_not_le hcount, fun t ht _ => ⟨t, ?_, ht⟩⟩⟩
    rw [if_neg hcount]
    rfl

/-- The number of tokens that are left bounds a loop. -/
theorem tracks_remaining {y y' : Nat → Parser α}
    (hy : ∀ i i', i ≤ i' → Tracks H f k i m (y i) (y' i') r Q) :
    Tracks H f k b m (remaining >>= y) (remaining >>= y') r Q := by
  intro s a s' hp herrors
  change y s.count s = .ok a s' at hp
  have hcount : s.rest.length ≤ s.count := Nat.le_of_eq s.count_eq.symm
  refine ⟨(hy s.count s.count (Nat.le_refl _) s a s' hp herrors).1, fun _ hH => ?_⟩
  refine ⟨((hy s.count s.count (Nat.le_refl _) s a s' hp herrors).2 hcount hH).1,
    fun t ht hleft => ?_⟩
  have hle : s.count ≤ t.count := by
    rw [s.count_eq, t.count_eq, ht.rest, List.length_append, List.length_map]
    exact Nat.le_add_right _ _
  exact ((hy s.count t.count hle s a s' hp herrors).2 hcount hH).2 t ht hleft

/-- A production that first looks at what comes next. -/
theorem tracks_rest {y y' : ParseState → Parser α}
    (hnil : ∀ s, s.rest = [] → Tracks H f k 0 .looks (y s) (y' s) r Q)
    (hcons : ∀ s x rest, s.rest = x :: rest → ∃ z,
      (∀ t rest', t.rest = f.token x :: rest' → y' t = z) ∧
        Tracks H f k b .looks (y s) z r Q) :
    Tracks H f k b .looks (get >>= y) (get >>= y') r Q := by
  intro s a s' hp herrors
  change y s s = .ok a s' at hp
  cases hs : s.rest with
  | nil =>
    obtain ⟨hfacts, hrest⟩ := (hnil s hs).spent s a s' hp herrors
    rw [hs] at hfacts hrest
    exact ⟨hfacts, fun _ => hrest (Nat.le_refl 0)⟩
  | cons x rest =>
    obtain ⟨z, hz, htracks⟩ := hcons s x rest hs
    obtain ⟨hfacts, hrest⟩ := htracks s a s' hp herrors
    rw [hs] at hfacts hrest
    refine ⟨hfacts, fun hb hH => ⟨(hrest hb hH).1, fun t ht hleft => ?_⟩⟩
    obtain ⟨t', hy', ht'⟩ := (hrest hb hH).2 t ht hleft
    refine ⟨t', ?_, ht'⟩
    show y' t t = _
    rw [hz t _ (ht.head hs)]
    exact hy'

/-- A parse without errors never recovers, so what it reads is there. -/
theorem tracks_recovering (h : Tracks H f k b m p p' r Q) :
    Tracks H f k b m (recovering p) (recovering p') (Option.map r)
      fun a? => ∃ a, a? = some a ∧ Q a := by
  intro s a? s' hp herrors
  unfold recovering at hp ⊢
  split at hp
  · next a s₁ hps =>
    cases hp
    obtain ⟨hfacts, hrest⟩ := h s a s' hps herrors
    refine ⟨hfacts, fun hb hH => ⟨⟨a, rfl, (hrest hb hH).1⟩, fun t ht hleft => ?_⟩⟩
    obtain ⟨t', hp', ht'⟩ := (hrest hb hH).2 t ht hleft
    exact ⟨t', by rw [hp']; rfl, ht'⟩
  · cases hp
    cases herrors

end Rules

/-! ## Lists -/

section Lists

variable {α : Type} {f : Relabeling} {k : List Token} {b : Nat} {H : Prop} {r : α → α}
  {Q : α → Prop} {R : Nat → Prop} {item item' : Nat → Parser α}

/-- What is known of the items of a list, and of their positions. -/
def Listed (Q : α → Prop) (R : Nat → Prop) (items : List α) : Prop :=
  (∀ a ∈ items, Q a) ∧ ∀ i < items.length, R i

/-- A list read backwards has the same items. -/
theorem Listed.reverse {items : List α} (h : Listed Q R items) : Listed Q R items.reverse :=
  ⟨fun a ha => h.1 a (List.mem_reverse.mp ha), fun i hi => h.2 i (by simpa using hi)⟩

/-- One more item, if there was room for it. -/
theorem Listed.cons {items : List α} {a : α} (h : Listed Q R items) (ha : Q a)
    (hi : R items.length) : Listed Q R (a :: items) := by
  refine ⟨List.forall_mem_cons.mpr ⟨ha, h.1⟩, fun i hlt => ?_⟩
  rcases Nat.lt_succ_iff_lt_or_eq.mp hlt with hlt | rfl
  · exact h.2 i hlt
  · exact hi

/-- More items of a list are tracked if every item is, by induction on the bound. -/
theorem tracks_moreItems
    (hitem : ∀ (H : Prop) b i, Tracks H f k b .looks (item i) (item' i) r fun a => Q a ∧ R i)
    (i : Nat) : ∀ {H : Prop} {i' : Nat} {done : List α}, i ≤ i' → (H → Listed Q R done) →
      Tracks H f k i .looks (moreItems item i done) (moreItems item' i' (done.map r)) (List.map r)
        (Listed Q R) := by
  induction i with
  | zero =>
    intro H i' done _ hdone
    have hpure : Tracks H f k 0 .free (pure done.reverse) (pure (done.reverse.map r)) (List.map r)
        (Listed Q R) := tracks_pure (fun _ => rfl) fun h => (hdone h).reverse
    exact hpure.looser.spent
  | succ i ih =>
    intro H i' done hle hdone
    obtain ⟨j, rfl⟩ := Nat.exists_eq_add_of_lt hle
    refine tracks_accept (fun _ _ => ?_)
      (tracks_pure (fun _ => ?_) fun h => (hdone h).reverse).looser
    · dsimp only
      rw [List.length_map]
      refine tracks_bind (hitem H _ _) fun a => ?_
      exact ih (Nat.le_add_right i j) fun h => (hdone h.1).cons h.2.1 h.2.2
    · exact List.map_reverse.symm

/-- A list with commas is tracked if every item is. -/
theorem tracks_commaList
    (hitem : ∀ (H : Prop) b i, Tracks H f k b .looks (item i) (item' i) r fun a => Q a ∧ R i) :
    Tracks H f k b .looks (commaList item) (commaList item') (List.map r) (Listed Q R) := by
  refine tracks_bind (hitem H b 0) fun first => tracks_remaining fun i i' hle => ?_
  refine tracks_moreItems hitem i hle fun h => ⟨?_, fun j hj => ?_⟩
  · exact List.forall_mem_singleton.mpr h.2.1
  · exact (Nat.lt_one_iff.mp hj) ▸ h.2.2

theorem tracks_enclosed (close : TokenKind) (message : String)
    (hitem : ∀ (H : Prop) b i, Tracks H f k b .looks (item i) (item' i) r fun a => Q a ∧ R i) :
    Tracks H f k b .reads (enclosed close message item) (enclosed close message item')
      (fun x => (x.1.map r, f.token x.2)) fun x => Listed Q R x.1 ∧ x.2.kind = close := by
  have hclose : ∀ {H : Prop} {items : List α}, (H → Listed Q R items) →
      Tracks H f k b .reads (do let closing ← expect close message; pure (items, closing))
        (do let closing ← expect close message; pure (items.map r, closing))
        (fun x => (x.1.map r, f.token x.2)) fun x => Listed Q R x.1 ∧ x.2.kind = close :=
    fun h => tracks_then tracks_expect fun closing =>
      tracks_pure (fun _ => rfl) fun hH => ⟨h hH.1, hH.2⟩
  refine tracks_check ?_ ?_
  · exact hclose fun _ => ⟨List.forall_mem_nil _, nofun⟩
  · exact tracks_bind (tracks_commaList hitem) fun items => hclose fun h => h.2

/-- A list whose items all had room is no longer than there is room for. -/
theorem length_le_of_listed {items : List α} {bound : Nat} (h : Listed Q (· < bound) items) :
    items.length ≤ bound := by
  cases hlen : items.length with
  | zero => exact Nat.zero_le bound
  | succ i => exact h.2 i (hlen ▸ Nat.lt_succ_self i)

/-- Parameters are read again, and there are not too many. -/
theorem tracks_parameters :
    Tracks H f k b .reads parameters parameters (List.map f.token) Params := by
  have hitem : ∀ (H : Prop) b i, Tracks H f k b .looks (parameter i) (parameter i) f.token
      fun t => t.kind = .identifier ∧ i < maxArguments := by
    intro H b i
    refine tracks_bind tracks_room fun _ => ?_
    exact tracks_expect.looser.post fun t h ht => ⟨ht, h.2⟩
  rw [parameters_eq]
  exact tracks_map (tracks_enclosed _ _ hitem) (fun _ => rfl) fun x _ h =>
    ⟨length_le_of_listed h.1, h.1.1⟩

end Lists

/-! ## Expressions -/

/-- The nested productions of one grammar track those of another one. -/
structure Grammar.Tracks (f : Relabeling) (k : List Token) (g g' : Grammar) : Prop where
  expression : ∀ (H : Prop) b, Parser.Tracks H f k b .looks g.expression g'.expression
    f.expr (Ranks 0)
  block : ∀ (H : Prop) b, Parser.Tracks H f k b .reads g.block g'.block f.stmts RegularAll
  apart : Apart k

section Expressions

variable {f : Relabeling} {k : List Token} {b : Nat} {H : Prop} {g g' : Grammar}

/-- The operators of one level are tracked if the operands are, by induction on the bound. -/
theorem tracks_chainTail {l : Nat} {operators : List TokenKind}
    {build : ExprId → Expr → Token → Expr → Expr} {operand operand' : Parser Expr}
    (hoperand : ∀ (H : Prop) b, Tracks H f k b .looks operand operand' f.expr
      (Ranks (l + 1)))
    (hbuild : ∀ id left operator right, f.expr (build id left operator right) =
      build (f.number id) (f.expr left) (f.token operator) (f.expr right))
    (hranks : ∀ {id left operator right}, operator.kind ∈ operators → Ranks l left →
      Ranks (l + 1) right → Ranks l (build id left operator right)) (i : Nat) :
    ∀ {H : Prop} {i' : Nat} (left : Expr), i ≤ i' → (H → Ranks l left) →
      Tracks H f k i .looks (chainTail operators build operand i left)
        (chainTail operators build operand' i' (f.expr left)) f.expr (Ranks l) := by
  induction i with
  | zero =>
    intro H i' left _ hleft
    have hpure : Tracks H f k 0 .free (pure left) (pure (f.expr left)) f.expr
        (Ranks l) := tracks_pure (fun _ => rfl) hleft
    exact hpure.looser.spent
  | succ i ih =>
    intro H i' left hle hleft
    obtain ⟨j, rfl⟩ := Nat.exists_eq_add_of_lt hle
    refine tracks_acceptAny (fun operator hoperator => ?_) (tracks_pure (fun _ => rfl) hleft).looser
    refine tracks_bind (hoperand H _) fun right => tracks_bind tracks_fresh fun id => ?_
    have hnext := ih (H := (H ∧ Ranks (l + 1) right) ∧ True) (build id left operator right)
      (Nat.le_add_right i j) fun h => hranks hoperator (hleft h.1.1) h.1.2
    rw [hbuild] at hnext
    exact hnext

theorem tracks_chain {l : Nat} {operators : List TokenKind}
    {build : ExprId → Expr → Token → Expr → Expr} {operand operand' : Parser Expr}
    (hoperand : ∀ (H : Prop) b, Tracks H f k b .looks operand operand' f.expr
      (Ranks (l + 1)))
    (hbuild : ∀ id left operator right, f.expr (build id left operator right) =
      build (f.number id) (f.expr left) (f.token operator) (f.expr right))
    (hranks : ∀ {id left operator right}, operator.kind ∈ operators → Ranks l left →
      Ranks (l + 1) right → Ranks l (build id left operator right))
    (hlower : ∀ e, Ranks (l + 1) e → Ranks l e) :
    Tracks H f k b .looks (chain operators build operand) (chain operators build operand')
      f.expr (Ranks l) := by
  refine tracks_bind (hoperand H b) fun first => tracks_remaining fun i i' hle => ?_
  exact tracks_chainTail hoperand hbuild hranks i first hle fun h => hlower first h.2

/-- What ranks at a level ranks at every looser one. -/
theorem ranks_looser {l l' : Nat} (hle : l ≤ l') {e : Expr} (h : Ranks l' e) : Ranks l e := by
  cases e with
  | binary id left operator right =>
    obtain ⟨i, hi, hl, hrest⟩ := h
    exact ⟨i, hi, Nat.le_trans hle hl, hrest⟩
  | logical id left operator right =>
    obtain ⟨i, hi, hl, hrest⟩ := h
    exact ⟨i, hi, Nat.le_trans hle hl, hrest⟩
  | assign id name value => exact ⟨Nat.le_zero.mp (h.1 ▸ hle), h.2⟩
  | set id object name value => exact ⟨Nat.le_zero.mp (h.1 ▸ hle), h.2⟩
  | setItem id object index equals value => exact ⟨Nat.le_zero.mp (h.1 ▸ hle), h.2⟩
  | unary id operator operand => exact ⟨Nat.le_trans hle h.1, h.2⟩
  | call id callee paren arguments => exact ⟨Nat.le_trans hle h.1, h.2⟩
  | get id object name => exact ⟨Nat.le_trans hle h.1, h.2⟩
  | getItem id object bracket index => exact ⟨Nat.le_trans hle h.1, h.2⟩
  | lambda id decl =>
    cases decl
    exact h
  | _ => exact h

/-- Every closing parenthesis is the last of the tokens. -/
def ParenLast (u : List Token) : Prop :=
  ∀ v t w, u = v ++ t :: w → t.kind = .rightParen → w = []

/-- Another token in front leaves the last parenthesis the last. -/
theorem parenLast_cons {t : Token} {u : List Token} (ht : t.kind ≠ .rightParen) (h : ParenLast u) :
    ParenLast (t :: u) := by
  intro v t' w heq hkind
  cases v with
  | nil =>
    obtain ⟨rfl, -⟩ := List.cons.inj heq
    exact absurd hkind ht
  | cons x v => exact h v t' w (List.cons.inj heq).2 hkind

theorem parenLast_single (t : Token) : ParenLast [t] := by
  intro v t' w heq _
  cases v with
  | nil => exact (List.cons.inj heq).2.symm
  | cons x v => exact absurd (List.cons.inj heq).2.symm (by simp)

/-- If more tokens make a head of what was none, then it ended with its parenthesis. -/
theorem parenLast_afterNames {u : List Token} (h : closesArrowHead (afterNames u) = false)
    (hk : closesArrowHead (afterNames (u ++ k)) = true) : ParenLast u := by
  fun_induction afterNames u with
  | case1 comma name rest hcond ih =>
    rw [List.cons_append, List.cons_append, afterNames, if_pos hcond] at hk
    simp only [Bool.and_eq_true, decide_eq_true_eq] at hcond
    refine parenLast_cons (by rw [hcond.1]; decide) (parenLast_cons (by rw [hcond.2]; decide) ?_)
    exact ih h hk
  | case2 comma name rest hcond =>
    -- Two tokens decide, and both lists begin with the same ones.
    rw [List.cons_append, List.cons_append, afterNames, if_neg hcond] at hk
    exact absurd (h.symm.trans hk) (by decide)
  | case3 rest hshort =>
    cases rest with
    | nil => exact fun v t w heq => absurd heq (by simp)
    | cons x rest =>
      cases rest with
      | nil => exact parenLast_single x
      | cons y rest => exact absurd rfl (hshort x y rest)

/-- If tokens begin like an arrow function only with more behind them, then they break off before
the arrow, and no closing parenthesis has anything behind it. -/
theorem parenLast_of_startsArrow {u : List Token} (h : startsArrow u = false)
    (hk : startsArrow (u ++ k) = true) : ParenLast u := by
  cases u with
  | nil => exact fun v t w heq => absurd heq (by simp)
  | cons x rest =>
    have hx : x.kind = .leftParen := by
      simp only [List.cons_append, startsArrow, Bool.and_eq_true, decide_eq_true_eq] at hk
      exact hk.1
    refine parenLast_cons (by rw [hx]; decide) ?_
    cases rest with
    | nil => exact fun v t w heq => absurd heq (by simp)
    | cons name more =>
      simp only [List.cons_append, startsArrow, hx, decide_true, Bool.true_and] at h hk
      by_cases hname : name.kind = .identifier
      · rw [if_pos hname] at h hk
        exact parenLast_cons (by rw [hname]; decide) (parenLast_afterNames h hk)
      · rw [if_neg hname] at h hk
        cases more with
        | nil => exact parenLast_single name
        | cons y more => exact absurd (h.symm.trans hk) (by decide)

/-- What closes a head does so whatever follows. -/
theorem closesArrowHead_append {u : List Token} (h : closesArrowHead u = true) :
    closesArrowHead (u ++ k) = true := by
  match u with
  | [] => cases h
  | [x] => cases h
  | x :: y :: rest => exact h

/-- Names and what closes a head behind them are found whatever follows. -/
theorem closesArrowHead_afterNames {u : List Token} (h : closesArrowHead (afterNames u) = true) :
    closesArrowHead (afterNames (u ++ k)) = true := by
  fun_induction afterNames u with
  | case1 comma name rest hcond ih =>
    rw [List.cons_append, List.cons_append, afterNames, if_pos hcond]
    exact ih h
  | case2 comma name rest hcond =>
    rw [List.cons_append, List.cons_append, afterNames, if_neg hcond]
    exact h
  | case3 rest hshort =>
    cases rest with
    | nil => cases h
    | cons x rest =>
      cases rest with
      | nil => cases h
      | cons y rest => exact absurd rfl (hshort x y rest)

/-- What begins like an arrow function does so with more behind it. -/
theorem startsArrow_append {u : List Token} (h : startsArrow u = true) :
    startsArrow (u ++ k) = true := by
  cases u with
  | nil => cases h
  | cons x rest =>
    cases rest with
    | nil => simp [startsArrow] at h
    | cons name more =>
      simp only [List.cons_append, startsArrow, Bool.and_eq_true, decide_eq_true_eq] at h ⊢
      refine ⟨h.1, ?_⟩
      have hclose := h.2
      split at hclose
      · next hname =>
        rw [if_pos hname]
        exact closesArrowHead_afterNames hclose
      · next hname =>
        rw [if_neg hname]
        exact closesArrowHead_append hclose

/-- Passing names depends on the kinds of tokens only. -/
theorem afterNames_map (u : List Token) :
    afterNames (u.map f.token) = (afterNames u).map f.token := by
  fun_induction afterNames u with
  | case1 comma name rest hcond ih =>
    rw [List.map_cons, List.map_cons, afterNames, ← ih]
    exact if_pos hcond
  | case2 comma name rest hcond =>
    rw [List.map_cons, List.map_cons, afterNames]
    exact if_neg hcond
  | case3 rest hshort =>
    cases rest with
    | nil => rfl
    | cons x rest =>
      cases rest with
      | nil => rfl
      | cons y rest => exact absurd rfl (hshort x y rest)

theorem closesArrowHead_map (u : List Token) :
    closesArrowHead (u.map f.token) = closesArrowHead u := by
  match u with
  | [] => rfl
  | [x] => rfl
  | x :: y :: rest => rfl

/-- Lines do not matter for the head of an arrow function. -/
theorem startsArrow_map (u : List Token) : startsArrow (u.map f.token) = startsArrow u := by
  cases u with
  | nil => rfl
  | cons x rest =>
    cases rest with
    | nil => rfl
    | cons name more =>
      show (decide (x.kind = .leftParen) && closesArrowHead (if name.kind = .identifier
          then afterNames (more.map f.token) else (name :: more).map f.token)) =
        (decide (x.kind = .leftParen) && closesArrowHead (if name.kind = .identifier
          then afterNames more else name :: more))
      by_cases hname : name.kind = .identifier
      · rw [if_pos hname, if_pos hname, afterNames_map, closesArrowHead_map]
      · rw [if_neg hname, if_neg hname, closesArrowHead_map]

theorem ParenLast.of_map {u : List Token} (h : ParenLast (u.map f.token)) :
    ParenLast u := by
  rintro v t w rfl ht
  have hw := h (v.map f.token) (f.token t) (w.map f.token) (by simp) ht
  exact List.map_eq_nil_iff.mp hw

/-- A choice by whether the tokens begin like an arrow function. The other production must not be
left with anything behind a list of names in parentheses at the end of the tokens. -/
theorem tracks_startsArrow {α : Type} {x x' y y' : Parser α} {r : α → α} {Q : α → Prop}
    (hx : Tracks H f k b .looks x x' r Q) (hy : Tracks H f k b .looks y y' r Q)
    (hspent : ∀ s a s', y s = .ok a s' → s'.errors = [] →
      (∀ t ∈ s.rest.head?, t.kind = .leftParen) → ParenLast s.rest → s'.rest = []) :
    Tracks H f k b .looks (get >>= fun s => if startsArrow s.rest then x else y)
      (get >>= fun s => if startsArrow s.rest then x' else y') r Q := by
  intro s a s' hp herrors
  change (if startsArrow s.rest then x else y) s = .ok a s' at hp
  by_cases harrow : startsArrow s.rest = true
  · rw [if_pos harrow] at hp
    obtain ⟨hfacts, hrest⟩ := hx s a s' hp herrors
    refine ⟨hfacts, fun hb hH => ⟨(hrest hb hH).1, fun t ht hleft => ?_⟩⟩
    obtain ⟨t', hx', ht'⟩ := (hrest hb hH).2 t ht hleft
    refine ⟨t', ?_, ht'⟩
    have hstarts : startsArrow t.rest = true := by
      rw [ht.rest]
      exact startsArrow_append ((startsArrow_map _).trans harrow)
    show (if startsArrow t.rest then x' else y') t = _
    rw [if_pos hstarts]
    exact hx'
  · rw [if_neg harrow] at hp
    obtain ⟨hfacts, hrest⟩ := hy s a s' hp herrors
    refine ⟨hfacts, fun hb hH => ⟨(hrest hb hH).1, fun t ht hleft => ?_⟩⟩
    obtain ⟨t', hy', ht'⟩ := (hrest hb hH).2 t ht hleft
    refine ⟨t', ?_, ht'⟩
    have hstarts : ¬ startsArrow t.rest = true := by
      intro hstarts
      rw [ht.rest] at hstarts
      have hfalse : startsArrow (s.rest.map f.token) = false := by
        rw [startsArrow_map]
        exact Bool.eq_false_iff.mpr harrow
      refine hleft rfl (hspent s a s' hp herrors (fun x hx => ?_)
        (parenLast_of_startsArrow hfalse hstarts).of_map)
      cases hs : s.rest with
      | nil => rw [hs] at hx; cases hx
      | cons z rest =>
        rw [hs] at hx hstarts
        obtain rfl : z = x := Option.some.inj hx
        simp only [List.map_cons, List.cons_append, startsArrow, Bool.and_eq_true,
          decide_eq_true_eq] at hstarts
        exact hstarts.1
    show (if startsArrow t.rest then x' else y') t = _
    rw [if_neg hstarts]
    exact hy'

/-- The body of an arrow function is read again, be it an expression or a block. -/
theorem tracks_arrowBody (hg : g.Tracks f k g') (params : List Token) {arrow : Token}
    (hparams : H → Params params) :
    Tracks H f k b .looks (arrowBody g params arrow)
      (arrowBody g' (params.map f.token) (f.token arrow)) f.expr
      (Ranks 10) := by
  have hvalue : ∀ {H : Prop} {b : Nat} {wrap wrap' : Expr → Stmt},
      (∀ e, wrap' (f.expr e) = f.stmt (wrap e)) →
      (∀ e, H → Ranks 0 e → Regular (wrap e)) →
      Tracks H f k b .looks (do pure [wrap (← g.expression)]) (do pure [wrap' (← g'.expression)])
        f.stmts RegularAll := by
    intro H b wrap wrap' hwrap hregular
    refine tracks_then (hg.expression H b) fun e => tracks_pure (fun _ => ?_) fun h => ?_
    · rw [hwrap]
      rfl
    · exact ⟨hregular e h.1 h.2, trivial⟩
  refine tracks_then (?_ : Tracks H f k b .looks _ _ f.stmts RegularAll) fun body =>
    tracks_numbered (fun _ _ => rfl) fun h _ => ⟨rfl, rfl, rfl, rfl, hparams h.1, h.2⟩
  refine tracks_accept (fun _ _ => (hg.block H _).looser) ?_
  refine tracks_accept (fun keyword hkeyword => ?_) ?_
  · exact hvalue (fun _ => rfl) fun _ _ he => ⟨hkeyword, he⟩
  refine tracks_accept (fun _ _ => ?_) ?_
  · exact hvalue (fun _ => rfl) fun _ _ he => he
  · exact hvalue (fun _ => rfl) fun _ _ he => ⟨rfl, he⟩

/-- A choice that did not find its token went the other way. -/
theorem skip_of_ok {α : Type} {kinds : List TokenKind} {y : Option Token → Parser α}
    {s s' : ParseState} {a : α} {x : Token} {rest : List Token} (hs : s.rest = x :: rest)
    (hx : x.kind ∉ kinds) (h : (acceptAny? kinds >>= y) s = .ok a s') : y none s = .ok a s' := by
  obtain ⟨x?, s₁, hx', hy⟩ := ok_of_bind h
  rw [acceptAny?_skip hs hx] at hx'
  cases hx'
  exact hy

/-- A choice that found its token read it. -/
theorem take_of_ok {α : Type} {kinds : List TokenKind} {y : Option Token → Parser α}
    {s s' : ParseState} {a : α} {x : Token} {rest : List Token} (hs : s.rest = x :: rest)
    (hx : x.kind ∈ kinds) (h : (acceptAny? kinds >>= y) s = .ok a s') :
    y (some x) s.tail = .ok a s' := by
  obtain ⟨x?, s₁, hx', hy⟩ := ok_of_bind h
  rw [acceptAny?_take hs hx] at hx'
  cases hx'
  exact hy

/-- An entry of a map, relabeled. -/
def entryOn (f : Relabeling) (e : Token × Expr) : Token × Expr :=
  (f.token e.1, f.expr e.2)

/-- Setting an entry of a map literal compares names, which relabeling keeps. -/
theorem putEntry_map (es : List (Token × Expr)) (e : Token × Expr) :
    putEntry (es.map (entryOn f)) (entryOn f e) = (putEntry es e).map (entryOn f) := by
  have hfound : (es.map (entryOn f)).any (·.1.lexeme == (entryOn f e).1.lexeme) =
      es.any (·.1.lexeme == e.1.lexeme) := by
    rw [List.any_map]
    rfl
  unfold putEntry
  rw [hfound]
  split
  · rw [List.map_map, List.map_map]
    refine List.map_congr_left fun e' _ => ?_
    show (if e'.1.lexeme == e.1.lexeme then _ else _) = entryOn f (if _ then _ else _)
    split <;> rfl
  · rw [List.map_append]
    rfl

theorem putEntries_map (es done : List (Token × Expr)) :
    (es.map (entryOn f)).foldl putEntry (done.map (entryOn f)) =
      (es.foldl putEntry done).map (entryOn f) := by
  induction es generalizing done with
  | nil => rfl
  | cons e es ih => rw [List.map_cons, List.foldl_cons, List.foldl_cons, putEntry_map, ih]

/-- Entries after setting one are those from before or have its value. -/
theorem mem_putEntry {P : Token × Expr → Prop} {es : List (Token × Expr)} {e : Token × Expr}
    (hP : ∀ key value value', P (key, value) → P (e.1, value') → P (key, value'))
    (hes : ∀ x ∈ es, P x) (he : P e) : ∀ x ∈ putEntry es e, P x := by
  intro x hx
  unfold putEntry at hx
  split at hx
  · obtain ⟨y, hy, rfl⟩ := List.mem_map.mp hx
    split
    · exact hP y.1 y.2 e.2 (hes y hy) he
    · exact hes y hy
  · rcases List.mem_append.mp hx with hx | hx
    · exact hes x hx
    · exact List.mem_singleton.mp hx ▸ he

/-- The entries of a map have distinct keys, however often a key was given. -/
theorem putEntries_ranks {es : List (Token × Expr)} (done : List (Token × Expr))
    (hdone : (keys done).Nodup)
    (hranks : ∀ e ∈ done, e.1.kind = .identifier ∧ Ranks 0 e.2)
    (hes : ∀ e ∈ es, e.1.kind = .identifier ∧ Ranks 0 e.2) :
    (keys (es.foldl putEntry done)).Nodup ∧
      ∀ e ∈ es.foldl putEntry done, e.1.kind = .identifier ∧ Ranks 0 e.2 := by
  induction es generalizing done with
  | nil => exact ⟨hdone, hranks⟩
  | cons e es ih =>
    obtain ⟨he, hes⟩ := List.forall_mem_cons.mp hes
    exact ih _ (covers_putEntry e hdone).2
      (mem_putEntry (fun _ _ _ hkey hvalue => ⟨hkey.1, hvalue.2⟩) hranks he) hes

/-- A `super` expression is read again. -/
theorem tracks_superAccess {keyword : Token} (hkeyword : H → keyword.kind = .superWord) :
    Tracks H f k b .reads (superAccess keyword) (superAccess (f.token keyword))
      f.expr (Ranks 10) := by
  refine tracks_bind tracks_expect fun _ => tracks_bind tracks_expect fun className => ?_
  refine tracks_bind tracks_expect fun _ => tracks_bind tracks_expect fun _ => ?_
  refine tracks_then tracks_expect fun method => tracks_numbered (fun _ _ => rfl) fun h _ => ?_
  exact ⟨hkeyword h.1.1.1.1.1, h.1.1.1.2, h.2⟩

/-- An entry of a map literal is read again. -/
theorem tracks_mapEntry (hg : g.Tracks f k g') :
    Tracks H f k b .looks (mapEntry g) (mapEntry g') (entryOn f)
      fun e => (e.1.kind = .identifier ∧ Ranks 0 e.2) ∧ True := by
  refine tracks_bind tracks_expect fun key => tracks_bind tracks_expect fun _ => ?_
  refine tracks_then (hg.expression _ b) fun value => tracks_pure (fun _ => rfl) fun h => ?_
  exact ⟨⟨h.1.1.2, h.2⟩, trivial⟩

/-- An expression in parentheses is read again. -/
theorem tracks_grouping (hg : g.Tracks f k g') :
    Tracks H f k b .reads (do
        let inner ← g.expression
        let _ ← expect .rightParen "Expect ')' after expression."
        pure (Expr.grouping (← fresh) inner))
      (do
        let inner ← g'.expression
        let _ ← expect .rightParen "Expect ')' after expression."
        pure (Expr.grouping (← fresh) inner)) f.expr (Ranks 10) := by
  refine tracks_bind (hg.expression H b) fun inner => tracks_then tracks_expect fun _ => ?_
  exact tracks_numbered (fun _ _ => rfl) fun h _ => h.1.2

/-- A primary expression that begins with no word of its own is read again. -/
theorem tracks_primaryTail (hg : g.Tracks f k g') :
    Tracks H f k b .looks (primaryTail g) (primaryTail g') f.expr (Ranks 10) := by
  refine tracks_accept (fun _ _ => tracks_made (fun _ _ => rfl) fun _ _ => trivial) ?_
  refine tracks_accept (fun _ _ => tracks_made (fun _ _ => rfl) fun _ _ => trivial) ?_
  refine tracks_accept (fun _ _ => tracks_made (fun _ _ => rfl) fun _ _ => trivial) ?_
  refine tracks_acceptAny (fun _ _ => tracks_made (fun _ _ => rfl) fun _ _ => trivial) ?_
  refine tracks_accept (fun keyword hkeyword => (tracks_superAccess fun _ => hkeyword).looser) ?_
  refine tracks_accept (fun keyword hkeyword => tracks_made (fun _ _ => rfl) fun _ _ => hkeyword) ?_
  refine tracks_accept (fun _ _ => ?_) ?_
  · have helements := tracks_enclosed (H := H) (b := b - 1) (R := fun _ => True)
      .rightBracket "Expect ']' after array elements." fun H b _ =>
        (hg.expression H b).post fun e _ he => ⟨he, trivial⟩
    refine tracks_bind helements fun x => tracks_made (fun _ _ => ?_) fun h _ => ?_
    · simp [Relabeling.expr]
    · exact ranksAll_iff.mpr h.2.1.1
  refine tracks_accept (fun name hname => tracks_made (fun _ _ => rfl) fun _ _ => hname) ?_
  refine tracks_accept (fun _ _ => (tracks_grouping hg).looser) ?_
  refine tracks_accept (fun _ _ => ?_) tracks_fail
  have hentries := tracks_enclosed (H := H) (b := b - 1) (R := fun _ => True)
    .rightBrace "Expect '\x7d' after object properties." fun H b _ => tracks_mapEntry hg
  refine tracks_bind hentries fun x => tracks_made (fun _ id => ?_) fun h _ => ?_
  · have hput := putEntries_map (f := f) x.1 []
    rw [List.map_nil] at hput
    show Expr.map (f.number id) ((x.1.map (entryOn f)).foldl putEntry []) = _
    rw [hput, Relabeling.expr, entries_eq_map]
    rfl
  · have hput := putEntries_ranks [] (by simp [keys]) (List.forall_mem_nil _) h.2.1.1
    exact ⟨hput.1, ranksEntries_iff.mpr hput.2⟩

/-- A grouping at the end of the tokens leaves nothing if its parenthesis is the last token. -/
theorem primaryTail_spent (hg : g.Tracks f k g') {s s' : ParseState} {e : Expr}
    (h : primaryTail g s = .ok e s') (herrors : s'.errors = [])
    (hparen : ∀ t ∈ s.rest.head?, t.kind = .leftParen) (hlast : ParenLast s.rest) :
    s'.rest = [] := by
  cases hs : s.rest with
  | nil =>
    have hsuffix := (tracks_primaryTail (H := True) (b := 0) hg s e s' h herrors).1.2.1
    rw [hs] at hsuffix
    exact List.suffix_nil.mp hsuffix
  | cons x rest =>
    have hx : x.kind = .leftParen := hparen x (by rw [hs]; rfl)
    have hrun := h
    iterate 8 replace hrun := skip_of_ok hs (by rw [hx]; decide) hrun
    replace hrun := take_of_ok hs (by rw [hx]; decide) hrun
    obtain ⟨inner, s₁, hinner, hrun⟩ := ok_of_bind hrun
    obtain ⟨close, s₂, hclose, hrun⟩ := ok_of_bind hrun
    obtain ⟨rfl, hs₁, hkind⟩ := expect_ok hclose
    cases hrun
    obtain ⟨before, hbefore⟩ :=
      ((hg.expression True 0) s.tail inner s₁ hinner herrors).1.2.1
    have htail : s.tail.rest = rest := congrArg List.tail hs
    refine hlast (x :: before) close s₁.tail.rest ?_ hkind
    rw [hs, ← htail, ← hbefore, hs₁]
    rfl

/-- A primary is an arrow function or not. -/
theorem primary_eq (g : Grammar) : primary g = accept? .arrow >>= fun arrow? =>
    match arrow? with
    | some arrow => arrowBody g [] arrow
    | none => get >>= fun s => if startsArrow s.rest
        then (do
          let _ ← expect .leftParen "Expect '(' before parameters."
          let params ← parameters
          let arrow ← expect .arrow "Expect '->' after parameters."
          arrowBody g params arrow)
        else primaryTail g := by
  unfold primary arrowHead?
  rw [bind_assoc]
  refine bind_congr fun arrow? => ?_
  cases arrow? with
  | some arrow => rfl
  | none =>
    dsimp only
    rw [bind_assoc]
    refine bind_congr fun s => ?_
    split
    · simp only [bind_assoc, pure_bind]
    · rfl

/-- A primary expression is read again. -/
theorem tracks_primary (hg : g.Tracks f k g') :
    Tracks H f k b .looks (primary g) (primary g') f.expr (Ranks 10) := by
  rw [primary_eq, primary_eq]
  refine tracks_accept (fun arrow _ => ?_) ?_
  · exact tracks_arrowBody hg [] fun _ => ⟨Nat.zero_le _, List.forall_mem_nil _⟩
  · refine tracks_startsArrow ?_ (tracks_primaryTail hg) fun s a s' hp herrors =>
      primaryTail_spent hg hp herrors
    refine tracks_bind tracks_expect fun _ => tracks_bind tracks_parameters fun params => ?_
    exact tracks_bind tracks_expect fun arrow => tracks_arrowBody hg params fun h => h.1.2

/-- The arguments of a call are read again. -/
theorem tracks_finishCall (hg : g.Tracks f k g') {callee : Expr} (hcallee : H → Ranks 9 callee) :
    Tracks H f k b .reads (finishCall g callee) (finishCall g' (f.expr callee))
      f.expr (Ranks 9) := by
  have hitem : ∀ (H : Prop) b i, Tracks H f k b .looks (argument g i) (argument g' i)
      f.expr fun e => Ranks 0 e ∧ i < maxArguments := by
    intro H b i
    refine tracks_bind tracks_room fun _ => ?_
    exact (hg.expression _ b).post fun e h he => ⟨he, h.2⟩
  refine tracks_then (tracks_enclosed _ _ hitem) fun x =>
    tracks_numbered (fun _ _ => ?_) fun h _ => ?_
  · simp [Relabeling.expr]
  · exact ⟨Nat.le_refl 9, hcallee h.1, h.2.2, length_le_of_listed h.2.1, ranksAll_iff.mpr h.2.1.1⟩

/-- Calls, properties and indices behind an expression are read again, by induction on the bound. -/
theorem tracks_callTail (hg : g.Tracks f k g') (i : Nat) :
    ∀ {H : Prop} {i' : Nat} {e : Expr}, i ≤ i' → (H → Ranks 9 e) →
      Tracks H f k i .looks (callTail g i e) (callTail g' i' (f.expr e)) f.expr
        (Ranks 9) := by
  induction i with
  | zero =>
    intro H i' e _ he
    have hpure : Tracks H f k 0 .free (pure e) (pure (f.expr e)) f.expr (Ranks 9) :=
      tracks_pure (fun _ => rfl) he
    exact hpure.looser.spent
  | succ i ih =>
    intro H i' e hle he
    obtain ⟨j, rfl⟩ := Nat.exists_eq_add_of_lt hle
    refine tracks_accept (fun _ _ => ?_) (tracks_accept (fun _ _ => ?_)
      (tracks_accept (fun _ _ => ?_) (tracks_pure (fun _ => rfl) he).looser))
    · refine tracks_bind (tracks_finishCall hg he) fun e' => ?_
      exact ih (Nat.le_add_right i j) fun h => h.2
    · refine tracks_bind tracks_expect fun name => tracks_bind tracks_fresh fun id => ?_
      exact ih (e := .get id e name) (Nat.le_add_right i j) fun h =>
        ⟨Nat.le_refl 9, he h.1.1, h.1.2⟩
    · refine tracks_bind (hg.expression _ _) fun index => ?_
      refine tracks_bind tracks_expect fun bracket => tracks_bind tracks_fresh fun id => ?_
      exact ih (e := .getItem id e bracket index) (Nat.le_add_right i j) fun h =>
        ⟨Nat.le_refl 9, he h.1.1.1, h.1.2, h.1.1.2⟩

/-- A primary expression with all that is called or read behind it is read again. -/
theorem tracks_call (hg : g.Tracks f k g') :
    Tracks H f k b .looks (call g) (call g') f.expr (Ranks 9) := by
  refine tracks_bind (tracks_primary hg) fun e => tracks_remaining fun i i' hle => ?_
  exact tracks_callTail hg i hle fun h => ranks_looser (Nat.le_succ 9) h.2

/-- Unary operators in front of an operand are read again, by induction on the bound. -/
theorem tracks_unaryUpTo (hg : g.Tracks f k g') (i : Nat) :
    ∀ {H : Prop} {i' : Nat}, i ≤ i' →
      Tracks H f k i .looks (unaryUpTo g i) (unaryUpTo g' i') f.expr (Ranks 8) := by
  have hcall : ∀ {H : Prop} {b : Nat},
      Tracks H f k b .looks (call g) (call g') f.expr (Ranks 8) :=
    (tracks_call hg).post fun e _ he => ranks_looser (Nat.le_succ 8) he
  induction i with
  | zero => exact fun _ => hcall.spent
  | succ i ih =>
    intro H i' hle
    obtain ⟨j, rfl⟩ := Nat.exists_eq_add_of_lt hle
    refine tracks_acceptAny (fun operator hoperator => ?_) hcall
    refine tracks_then (ih (Nat.le_add_right i j)) fun operand => ?_
    exact tracks_numbered (fun _ _ => rfl) fun h _ => ⟨Nat.le_refl 8, hoperator, h.2⟩

theorem tracks_unary (hg : g.Tracks f k g') :
    Tracks H f k b .looks (unary g) (unary g') f.expr (Ranks 8) :=
  tracks_remaining fun i _ hle => tracks_unaryUpTo hg i hle

/-- A level of binary operators. -/
theorem tracks_binary {l : Nat} {operand operand' : Parser Expr} (hl : l ∈ [3, 4, 5, 6, 7])
    (hoperand : ∀ (H : Prop) b, Tracks H f k b .looks operand operand' f.expr
      (Ranks (l + 1))) :
    Tracks H f k b .looks (chain (operatorsAt l) .binary operand)
      (chain (operatorsAt l) .binary operand') f.expr (Ranks l) :=
  tracks_chain hoperand (fun _ _ _ _ => rfl)
    (fun hoperator hleft hright => ⟨l, hl, Nat.le_refl l, hoperator, hleft, hright⟩)
    fun _ => ranks_looser (Nat.le_succ l)

/-- A chain of `and` or of `or` is read again. -/
theorem tracks_logical {l : Nat} {operand operand' : Parser Expr} (hl : l ∈ [1, 2])
    (hoperand : ∀ (H : Prop) b, Tracks H f k b .looks operand operand' f.expr
      (Ranks (l + 1))) :
    Tracks H f k b .looks (chain (operatorsAt l) .logical operand)
      (chain (operatorsAt l) .logical operand') f.expr (Ranks l) :=
  tracks_chain hoperand (fun _ _ _ _ => rfl)
    (fun hoperator hleft hright => ⟨l, hl, Nat.le_refl l, hoperator, hleft, hright⟩)
    fun _ => ranks_looser (Nat.le_succ l)

/-- All levels of operators are read again, from the tightest up. -/
theorem tracks_disjunction (hg : g.Tracks f k g') :
    Tracks H f k b .looks (disjunction g) (disjunction g') f.expr (Ranks 1) := by
  refine tracks_logical (l := 1) (by decide) fun _ _ => ?_
  refine tracks_logical (l := 2) (by decide) fun _ _ => ?_
  refine tracks_binary (l := 3) (by decide) fun _ _ => ?_
  refine tracks_binary (l := 4) (by decide) fun _ _ => ?_
  refine tracks_binary (l := 5) (by decide) fun _ _ => ?_
  refine tracks_binary (l := 6) (by decide) fun _ _ => ?_
  exact tracks_binary (l := 7) (by decide) fun _ _ => tracks_unary hg

/-- The target of an assignment decides in both parses what kind of assignment it is. -/
theorem tracks_assignTo {target value : Expr} {equals : Token} (htarget : H → Ranks 1 target)
    (hequals : H → equals.kind = .equal) (hvalue : H → Ranks 0 value) :
    Tracks H f k b .free (assignTo target equals value)
      (assignTo (f.expr target) (f.token equals) (f.expr value))
      f.expr (Ranks 0) := by
  have hinvalid : ∀ {e e' : Expr}, Tracks H f k b .free
      (do note equals "Invalid assignment target."; pure e)
      (do note (f.token equals) "Invalid assignment target."; pure e') f.expr
      (Ranks 0) := by
    intro e e' s a s' hp herrors
    cases hp
    cases herrors
  cases target with
  | reference ref =>
    exact tracks_numbered (fun _ _ => rfl) fun h _ => ⟨rfl, htarget h, hvalue h⟩
  | get id object name =>
    exact tracks_numbered (fun _ _ => rfl) fun h _ =>
      ⟨rfl, (htarget h).2.1, (htarget h).2.2, hvalue h⟩
  | getItem id object bracket index =>
    exact tracks_numbered (fun _ _ => rfl) fun h _ =>
      ⟨rfl, (htarget h).2.1, (htarget h).2.2.2, hequals h, hvalue h⟩
  | _ => exact hinvalid

/-- An assignment is read again, or an expression without one. -/
theorem tracks_assignment (hg : g.Tracks f k g') :
    Tracks H f k b .looks (assignment g) (assignment g') f.expr (Ranks 0) := by
  refine tracks_bind (tracks_disjunction hg) fun left => ?_
  refine tracks_accept (fun equals hequals => ?_) ?_
  · refine tracks_then (hg.expression _ _) fun value => ?_
    exact tracks_assignTo (fun h => h.1.2) (fun _ => hequals) fun h => h.2
  · exact (tracks_pure (fun _ => rfl) fun h => ranks_looser (Nat.zero_le 1) h.2).looser

end Expressions

end ScriptEngine.Parser
