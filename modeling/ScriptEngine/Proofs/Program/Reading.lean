import ScriptEngine.Proofs.Program.Numbering
import ScriptEngine.Proofs.Program.Writing

/-!
# Reading tokens wherever they stand

What a production returns depends on the tokens that it reads and, where something may be left out,
on the token behind them. `Reads` says that a production reads certain tokens as a certain result
wherever they stand, provided that what stands behind them does not go on with it. There is one
rule for each production of the grammar, which says what its tokens are.

The recursion of the grammar and all its loops are bounded, so `Reads` also has a bound on the
number of tokens; it is always large enough, because a nested production has at least one token
less.
-/

namespace ScriptEngine.Parser

open Writing

variable {α β : Type} {c d : Nat} {n n' n₁ n₂ : ExprId} {u v : List Token} {t : Token}
  {stop stop₁ : List Token → Prop} {a : α} {b : β} {p : Parser α} {kind : TokenKind}
  {kinds : List TokenKind}

/-- The production reads the tokens as the result, if there are at most `c` of them and what stands
behind them is such that it stops. It takes the numbers from `n` up to `n'`. -/
structure Reads (c : Nat) (p : Parser α) (stop : List Token → Prop) (u : List Token) (n : ExprId)
    (a : α) (n' : ExprId) : Prop where
  run : u.length ≤ c → ∀ (s : ParseState) (k : List Token), s.rest = u ++ k → s.nextId = n →
    stop k → ∃ s', p s = .ok a s' ∧ s'.rest = k ∧ s'.errors = s.errors ∧ s'.nextId = n'

/-- Anything may follow. -/
def anything : List Token → Prop := fun _ => True

/-- What follows does not begin with a token of the kind. -/
def Lacks (kind : TokenKind) (k : List Token) : Prop :=
  ∀ t ∈ k.head?, t.kind ≠ kind

@[simp] theorem lacks_nil : Lacks kind [] := fun _ h => absurd h (by simp)

@[simp] theorem lacks_cons {k : List Token} : Lacks kind (t :: k) ↔ t.kind ≠ kind := by
  simp [Lacks]

/-! ## Rules -/

/-- A production that reads within a bound on the nesting reads within a looser one. -/
theorem Reads.mono (h : Reads c p stop u n a n') {c' : Nat} (hc : c' ≤ c) :
    Reads c' p stop u n a n' :=
  ⟨fun hu => h.run (Nat.le_trans hu hc)⟩

/-- What is read before a weaker condition is read before a stronger one. -/
theorem Reads.stops (h : Reads c p stop u n a n') (hstop : ∀ k, stop₁ k → stop k) :
    Reads c p stop₁ u n a n' :=
  ⟨fun hu s k hrest hnext hk => h.run hu s k hrest hnext (hstop k hk)⟩

/-- A value is returned without a token. -/
theorem reads_pure : Reads c (pure a) stop [] n a n :=
  ⟨fun _ s _ hrest hnext _ => ⟨s, rfl, hrest, rfl, hnext⟩⟩

/-- One production after the other reads the tokens of both, if those of the second may stand behind
the first. -/
theorem Reads.bind {f : α → Parser β} (hp : Reads c p stop₁ u n a n₁)
    (hf : Reads c (f a) stop v n₁ b n₂) (hstop : ∀ k, stop k → stop₁ (v ++ k)) :
    Reads c (p >>= f) stop (u ++ v) n b n₂ := by
  refine ⟨fun hlen s k hrest hnext hk => ?_⟩
  rw [List.length_append] at hlen
  rw [List.append_assoc] at hrest
  obtain ⟨s₁, hp, hrest₁, herrors₁, hnext₁⟩ :=
    hp.run (Nat.le_trans (Nat.le_add_right _ _) hlen) s _ hrest hnext (hstop k hk)
  obtain ⟨s₂, hf, hrest₂, herrors₂, hnext₂⟩ :=
    hf.run (Nat.le_trans (Nat.le_add_left _ _) hlen) s₁ k hrest₁ hnext₁ hk
  refine ⟨s₂, ?_, hrest₂, herrors₂.trans herrors₁, hnext₂⟩
  show EStateM.bind p f s = _
  rw [EStateM.bind, hp]
  exact hf

/-- A production with something behind it that reads nothing. -/
theorem Reads.followed {f : α → Parser β} (hp : Reads c p stop u n a n₁)
    (hf : Reads c (f a) stop [] n₁ b n₂) : Reads c (p >>= f) stop u n b n₂ := by
  have h := hp.bind hf fun k hk => hk
  rwa [List.append_nil] at h

/-- A function of what is read reads the same tokens. -/
theorem Reads.map {f : α → β} (hp : Reads c p stop u n a n') :
    Reads c (f <$> p) stop u n (f a) n' := by
  rw [map_eq_pure_bind]
  exact hp.followed reads_pure

/-- A production that begins by reading a token. -/
theorem reads_takenAny {f : Option Token → Parser β} (ht : t.kind ∈ kinds)
    (hf : Reads c (f (some t)) stop u n b n') :
    Reads (c + 1) (acceptAny? kinds >>= f) stop (t :: u) n b n' := by
  refine ⟨fun hlen s k hrest hnext hk => ?_⟩
  have hread : acceptAny? kinds s = .ok (some t) s.tail := acceptAny?_take hrest ht
  have htail : s.tail.rest = u ++ k := by
    show s.rest.tail = _
    rw [hrest]
    rfl
  obtain ⟨s', hf, hs'⟩ := hf.run (Nat.le_of_succ_le_succ hlen) s.tail k htail hnext hk
  refine ⟨s', ?_, hs'⟩
  show EStateM.bind _ f s = _
  rw [EStateM.bind, hread]
  exact hf

/-- A token of the kind that is accepted is read. -/
theorem reads_taken {f : Option Token → Parser β} (ht : t.kind = kind)
    (hf : Reads c (f (some t)) stop u n b n') :
    Reads (c + 1) (accept? kind >>= f) stop (t :: u) n b n' :=
  reads_takenAny (List.mem_singleton.mpr ht) hf

/-- A production that begins by looking for tokens that do not come next. -/
theorem reads_passedAny {f : Option Token → Parser β}
    (h : ∀ k, stop k → ∀ t ∈ (u ++ k).head?, t.kind ∉ kinds)
    (hf : Reads c (f none) stop u n b n') :
    Reads c (acceptAny? kinds >>= f) stop u n b n' := by
  refine ⟨fun hlen s k hrest hnext hk => ?_⟩
  have hread : acceptAny? kinds s = .ok none s := by
    have hhead := h k hk
    rw [← hrest] at hhead
    cases hs : s.rest with
    | nil => exact acceptAny?_nil hs
    | cons t rest => exact acceptAny?_skip hs (hhead t (by rw [hs]; rfl))
  obtain ⟨s', hf, hs'⟩ := hf.run hlen s k hrest hnext hk
  refine ⟨s', ?_, hs'⟩
  show EStateM.bind _ f s = _
  rw [EStateM.bind, hread]
  exact hf

/-- Where the next token is of another kind nothing is read by the look at it. -/
theorem reads_passed {f : Option Token → Parser β} (h : ∀ k, stop k → Lacks kind (u ++ k))
    (hf : Reads c (f none) stop u n b n') : Reads c (accept? kind >>= f) stop u n b n' :=
  reads_passedAny (fun k hk t ht hmem => h k hk t ht (List.mem_singleton.mp hmem)) hf

/-- A production that begins by looking for tokens where another one stands. -/
theorem reads_otherAny {f : Option Token → Parser β} (ht : t.kind ∉ kinds)
    (hf : Reads c (f none) stop (t :: u) n b n') :
    Reads c (acceptAny? kinds >>= f) stop (t :: u) n b n' := by
  refine reads_passedAny (fun k _ t' ht' => ?_) hf
  obtain rfl : t = t' := Option.some.inj ht'
  exact ht

/-- A token of another kind stays for what comes next. -/
theorem reads_other {f : Option Token → Parser β} (ht : t.kind ≠ kind)
    (hf : Reads c (f none) stop (t :: u) n b n') :
    Reads c (accept? kind >>= f) stop (t :: u) n b n' :=
  reads_otherAny (by simpa using ht) hf

/-- A production that demands a token. -/
theorem reads_token {f : Token → Parser β} {message : String} (ht : t.kind = kind)
    (hf : Reads c (f t) stop u n b n') :
    Reads (c + 1) (expect kind message >>= f) stop (t :: u) n b n' := by
  unfold expect
  rw [bind_assoc]
  exact reads_taken ht hf

/-- A production that demands a token and whose rest makes no use of the bound. -/
theorem reads_close {message : String} {f : Token → Parser β} (ht : t.kind = kind)
    (hf : Reads c (f t) stop u n b n') :
    Reads c (expect kind message >>= f) stop (t :: u) n b n' :=
  (reads_token ht hf).mono (Nat.le_succ c)

/-- A look at the next token reads nothing. -/
theorem reads_check {f : Bool → Parser β} (found : Bool)
    (h : ∀ k, stop k → ((u ++ k).head?.any (·.kind = kind)) = found)
    (hf : Reads c (f found) stop u n b n') : Reads c (check kind >>= f) stop u n b n' := by
  refine ⟨fun hlen s k hrest hnext hk => ?_⟩
  obtain ⟨s', hf, hs'⟩ := hf.run hlen s k hrest hnext hk
  refine ⟨s', ?_, hs'⟩
  show f (s.rest.head?.any (·.kind = kind)) s = _
  rw [hrest, h k hk]
  exact hf

/-- A production that looks whether a token comes next, which it does. -/
theorem reads_found {f : Bool → Parser β} (ht : t.kind = kind)
    (hf : Reads c (f true) stop (t :: u) n b n') :
    Reads c (check kind >>= f) stop (t :: u) n b n' :=
  reads_check true (fun k _ => by simp [ht]) hf

/-- A production that looks whether a token comes next, which it does not. -/
theorem reads_unfound {f : Bool → Parser β} (hne : u ≠ []) (hu : Lacks kind u)
    (hf : Reads c (f false) stop u n b n') : Reads c (check kind >>= f) stop u n b n' := by
  refine reads_check false (fun k _ => ?_) hf
  cases u with
  | nil => exact absurd rfl hne
  | cons t u => simpa using lacks_cons.mp hu

theorem reads_fresh {f : ExprId → Parser β} (hf : Reads c (f n) stop u (n + 1) b n') :
    Reads c (fresh >>= f) stop u n b n' := by
  refine ⟨fun hlen s k hrest hnext hk => ?_⟩
  subst hnext
  obtain ⟨s', hf, hs'⟩ := hf.run hlen { s with nextId := s.nextId + 1 } k hrest rfl hk
  exact ⟨s', hf, hs'⟩

/-- A production whose result gets a number. -/
theorem reads_numbered {f : ExprId → β} :
    Reads c (fresh >>= fun id => pure (f id)) stop [] n (f n) (n + 1) :=
  reads_fresh reads_pure

/-- A bound on the rounds of a loop is the number of the tokens that are left. -/
theorem reads_remaining {f : Nat → Parser β}
    (hf : ∀ bound, u.length ≤ bound → Reads c (f bound) stop u n b n') :
    Reads c (remaining >>= f) stop u n b n' := by
  refine ⟨fun hlen s k hrest hnext hk => ?_⟩
  have hbound : u.length ≤ s.count := by
    rw [s.count_eq, hrest, List.length_append]
    exact Nat.le_add_right _ _
  exact (hf s.count hbound).run hlen s k hrest hnext hk

/-- A production that looks at all tokens before it reads any. -/
theorem reads_get {f : ParseState → Parser β} {q : Parser β}
    (h : ∀ s k, s.rest = u ++ k → stop k → f s = q) (hq : Reads c q stop u n b n') :
    Reads c (get >>= f) stop u n b n' := by
  refine ⟨fun hlen s k hrest hnext hk => ?_⟩
  obtain ⟨s', hq, hs'⟩ := hq.run hlen s k hrest hnext hk
  refine ⟨s', ?_, hs'⟩
  show f s s = _
  rw [h s k hrest hk]
  exact hq

/-- A bound on the length of a list that is not empty leaves a bound for its tail. -/
theorem succ_of_cons_length_le {bound : Nat} (h : (t :: u).length ≤ bound) :
    ∃ i, bound = i + 1 ∧ u.length ≤ i := by
  cases bound with
  | zero => exact absurd h (Nat.not_succ_le_zero _)
  | succ i => exact ⟨i, rfl, Nat.le_of_succ_le_succ h⟩

/-! ## Lists -/

/-- Each of the lists of tokens is read as an item, one after the other. The parser of the items is
told how many precede. -/
inductive ReadsEach (c : Nat) (item : Nat → Parser α) (stop : List Token → Prop) :
    Nat → List (List Token) → ExprId → List α → ExprId → Prop where
  | nil (i : Nat) (n : ExprId) : ReadsEach c item stop i [] n [] n
  | cons {i : Nat} {u : List Token} {us : List (List Token)} {n n₁ n₂ : ExprId} {a : α}
      {as : List α} (first : Reads c (item i) stop u n a n₁)
      (others : ReadsEach c item stop (i + 1) us n₁ as n₂) :
      ReadsEach c item stop i (u :: us) n (a :: as) n₂

section Lists

variable {item : Nat → Parser α} {items : List α} {us : List (List Token)}

/-- The items behind the first are read, each behind its comma. -/
theorem reads_moreItems {i : Nat} (h : ReadsEach c item stop₁ i us n items n')
    (hcomma : ∀ k, stop₁ (mark .comma :: k)) :
    ∀ (done : List α) {bound : Nat}, done.length = i →
      (us.flatMap (mark .comma :: ·)).length ≤ bound →
      Reads c (moreItems item bound done) (fun k => stop₁ k ∧ Lacks .comma k)
        (us.flatMap (mark .comma :: ·)) n (done.reverse ++ items) n' := by
  induction h with
  | nil i n =>
    intro done bound _ _
    rw [List.append_nil]
    cases bound with
    | zero => exact reads_pure
    | succ bound => exact reads_passed (fun k hk => hk.2) reads_pure
  | @cons i u us n n₁ n₂ a as first others ih =>
    intro done bound hdone hbound
    rw [List.flatMap_cons, List.cons_append] at hbound ⊢
    obtain ⟨bound, rfl, hrest⟩ := succ_of_cons_length_le hbound
    rw [List.length_append] at hrest
    have hothers := ih (a :: done) (congrArg (· + 1) hdone)
      (Nat.le_trans (Nat.le_add_left _ _) hrest)
    rw [List.reverse_cons, List.append_assoc] at hothers
    refine (reads_taken (mark_kind .comma) ?_).mono (Nat.le_succ c)
    show Reads c (item done.length >>= fun next => moreItems item bound (next :: done)) _ _ _ _ _
    rw [hdone]
    refine first.bind hothers fun k hk => ?_
    cases us with
    | nil => exact hk.1
    | cons w us => exact hcomma _

/-- Items with commas between them are read up to a token that is no comma. -/
theorem reads_commaList (h : ReadsEach c item stop₁ 0 us n items n') (hne : us ≠ [])
    (hcomma : ∀ k, stop₁ (mark .comma :: k)) :
    Reads c (commaList item) (fun k => stop₁ k ∧ Lacks .comma k) (separated us) n items n' := by
  cases h with
  | nil => exact absurd rfl hne
  | @cons _ u us n n₁ n₂ a as first others =>
    refine first.bind (reads_remaining fun bound hbound =>
      reads_moreItems others hcomma [a] rfl hbound) fun k hk => ?_
    cases us with
    | nil => exact hk.1
    | cons w us => exact hcomma _

/-- What a list begins with. -/
theorem lacks_separated (hne : us ≠ []) (hus : ∀ u ∈ us, u ≠ [] ∧ Lacks kind u) :
    separated us ≠ [] ∧ Lacks kind (separated us) := by
  cases us with
  | nil => exact absurd rfl hne
  | cons u us =>
    obtain ⟨hu, hlacks⟩ := hus u List.mem_cons_self
    cases u with
    | nil => exact absurd rfl hu
    | cons t u => exact ⟨List.cons_ne_nil _ _, lacks_cons.mpr (lacks_cons.mp hlacks)⟩

/-- A list in brackets is read, the empty one too. -/
theorem reads_enclosed {close : TokenKind} {message : String} {closing : Token}
    (hkind : close ≠ .comma) (h : ReadsEach c item stop₁ 0 us n items n')
    (hus : ∀ u ∈ us, u ≠ [] ∧ Lacks close u)
    (hclosing : closing.kind = close) (hcomma : ∀ k, stop₁ (mark .comma :: k))
    (hstop : ∀ k, stop₁ (closing :: k)) :
    Reads c (enclosed close message item) stop (separated us ++ [closing]) n (items, closing)
      n' := by
  by_cases hne : us = []
  · subst hne
    cases h
    exact reads_found hclosing (reads_close hclosing reads_pure)
  · obtain ⟨hne', hlacks⟩ := lacks_separated hne hus
    refine reads_unfound (by simp) ?_ ?_
    · rw [← hclosing] at hlacks ⊢
      cases hs : separated us with
      | nil => exact absurd hs hne'
      | cons t u => exact lacks_cons.mpr (lacks_cons.mp (hs ▸ hlacks))
    · refine (reads_commaList h hne hcomma).bind (reads_close hclosing reads_pure)
        fun k _ => ⟨hstop k, lacks_cons.mpr fun hkind' => hkind ?_⟩
      rw [← hclosing, hkind']

end Lists

/-- Where there is room for one more argument nothing is reported. -/
theorem reads_room {f : Unit → Parser β} {count : Nat} {message : String}
    (hcount : count < maxArguments) (hf : Reads c (f ()) stop u n b n') :
    Reads c (checkRoom count message >>= f) stop u n b n' := by
  unfold checkRoom
  rw [if_neg (Nat.not_le_of_lt hcount)]
  exact hf

/-- The production of one parameter. -/
def parameter (count : Nat) : Parser Token := do
  checkRoom count "Can't have more than 255 parameters."
  expect .identifier "Expect parameter name."

theorem reads_parameter {count : Nat} {name : Token} (hcount : count < maxArguments)
    (hname : name.kind = .identifier) : Reads c (parameter count) stop [name] n name n := by
  refine reads_room hcount ?_
  rw [← bind_pure (expect _ _)]
  exact reads_close hname reads_pure

/-- A list of names that is not too long is read as parameters. -/
theorem readsEach_parameters {params : List Token} {i : Nat}
    (hlength : i + params.length ≤ maxArguments) (hparams : ∀ t ∈ params, t.kind = .identifier) :
    ReadsEach c parameter stop i (params.map ([·])) n params n := by
  induction params generalizing i with
  | nil => exact .nil i n
  | cons t params ih =>
    rw [List.length_cons] at hlength
    refine .cons (reads_parameter (by omega) (hparams t List.mem_cons_self)) (ih (by omega) ?_)
    exact fun t' ht' => hparams t' (List.mem_cons_of_mem t ht')

/-- A parameter list is a list in parentheses. -/
theorem parameters_eq :
    parameters = Prod.fst <$> enclosed .rightParen "Expect ')' after parameters." parameter := by
  unfold parameters enclosed
  simp only [map_eq_pure_bind, bind_assoc, pure_bind]
  refine bind_congr fun found => ?_
  cases found
  · simp only [Bool.false_eq_true, if_false, bind_assoc, pure_bind]
    rfl
  · simp only [if_true, bind_assoc, pure_bind]

/-- Well-formed parameters are read up to the closing parenthesis. -/
theorem reads_parameters {params : List Token} (hparams : Params params) :
    Reads c parameters stop (separated (params.map ([·])) ++ [mark .rightParen]) n params n := by
  rw [parameters_eq]
  have heach : ReadsEach c parameter anything 0 (params.map ([·])) n params n :=
    readsEach_parameters (by simpa using hparams.1) hparams.2
  refine Reads.map (f := Prod.fst) (reads_enclosed (by decide) heach (fun u hu => ?_)
    (rfl : (mark .rightParen).kind = .rightParen) (fun _ => trivial) fun _ => trivial)
  obtain ⟨t, ht, rfl⟩ := List.mem_map.mp hu
  exact ⟨List.cons_ne_nil _ _, lacks_cons.mpr (by simp [hparams.2 t ht])⟩

/-! ## Levels of precedence -/

/-- The production of a level, loosest level first. -/
def level (g : Grammar) : Nat → Parser Expr
  | 0 => assignment g
  | 1 => disjunction g
  | 2 => conjunction g
  | 3 => equality g
  | 4 => comparison g
  | 5 => term g
  | 6 => factor g
  | 7 => power g
  | 8 => unary g
  | 9 => call g
  | _ => primary g

/-- The expression that a binary operator of a level makes. -/
def buildAt (l : Nat) : ExprId → Expr → Token → Expr → Expr :=
  if l ≤ 2 then .logical else .binary

/-- What follows neither goes on with an expression of the level nor makes it the head of an arrow
function. -/
def Ends (l : Nat) (k : List Token) : Prop :=
  ∀ t ∈ k.head?, t.kind ≠ .arrow ∧ ∀ i, l ≤ i → t.kind ∉ operatorsAt i

/-- What ends a level ends every tighter one. -/
theorem Ends.mono {l l' : Nat} {k : List Token} (h : Ends l k) (hl : l ≤ l') : Ends l' k :=
  fun t ht => ⟨(h t ht).1, fun i hi => (h t ht).2 i (Nat.le_trans hl hi)⟩

theorem lt_of_mem_operatorsAt {i : Nat} (h : kind ∈ operatorsAt i) : i < 10 := by
  unfold operatorsAt at h
  split at h
  all_goals first | decide | exact absurd h List.not_mem_nil

/-- Every operator is an operator of one level. -/
theorem level_unique {i j : Nat} (hi : kind ∈ operatorsAt i) (hj : kind ∈ operatorsAt j) :
    i = j := by
  have hall : ∀ i < 10, ∀ j < 10, ∀ kind ∈ operatorsAt i, kind ∈ operatorsAt j → i = j := by
    decide
  exact hall i (lt_of_mem_operatorsAt hi) j (lt_of_mem_operatorsAt hj) kind hi hj

/-- An operator of a level ends the tighter levels. -/
theorem ends_operator {l : Nat} {k : List Token} (ht : t.kind ∈ operatorsAt l) :
    Ends (l + 1) (t :: k) := by
  intro t' ht'
  obtain rfl : t = t' := Option.some.inj ht'
  refine ⟨fun harrow => ?_, fun i hi hmem => ?_⟩
  · have hall : ∀ i < 10, .arrow ∉ operatorsAt i := by decide
    exact hall l (lt_of_mem_operatorsAt ht) (harrow ▸ ht)
  · rw [level_unique ht hmem] at hi
    exact Nat.not_succ_le_self i hi

/-- The tokens behind which an expression cannot go on. -/
def closers : List TokenKind := [.rightParen, .rightBracket, .rightBrace, .comma, .semicolon]

theorem ends_closer {l : Nat} {k : List Token} (ht : t.kind ∈ closers) : Ends l (t :: k) := by
  intro t' ht'
  obtain rfl : t = t' := Option.some.inj ht'
  refine ⟨fun harrow => absurd (harrow ▸ ht) (by decide), fun i _ hmem => ?_⟩
  have hall : ∀ i < 10, ∀ kind ∈ closers, kind ∉ operatorsAt i := by decide
  exact hall i (lt_of_mem_operatorsAt hmem) t.kind ht hmem

/-- What follows an operand of a level: the rest of the level. -/
def tailAt (g : Grammar) (l bound : Nat) (e : Expr) : Parser Expr :=
  if l = 9 then callTail g bound e
  else chainTail (operatorsAt l) (buildAt l) (level g (l + 1)) bound e

/-- The levels that are an operand with something behind it. -/
def tailed : List Nat := [1, 2, 3, 4, 5, 6, 7, 9]

/-- A level with a tail reads the tighter level and then the tail. -/
theorem level_eq_tail (g : Grammar) {l : Nat} (hl : l ∈ tailed) :
    level g l = level g (l + 1) >>= fun e => remaining >>= fun bound => tailAt g l bound e := by
  simp only [tailed, List.mem_cons, List.not_mem_nil, or_false] at hl
  rcases hl with rfl | rfl | rfl | rfl | rfl | rfl | rfl | rfl <;> rfl

section Levels

variable {g : Grammar} {l bound : Nat} {e left right index : Expr}

/-- Before a token that ends the level the tail reads nothing. -/
theorem reads_tail_end : Reads c (tailAt g l bound e) (Ends l) [] n e n := by
  unfold tailAt
  split
  · next hl =>
    subst hl
    have hlacks : ∀ kind ∈ operatorsAt 9, ∀ k, Ends 9 k → Lacks kind k := by
      intro kind hkind k hk t ht hkind'
      exact (hk t ht).2 9 (Nat.le_refl 9) (hkind' ▸ hkind)
    cases bound with
    | zero => exact reads_pure
    | succ bound =>
      refine reads_passed (hlacks _ (by decide)) ?_
      refine reads_passed (hlacks _ (by decide)) ?_
      exact reads_passed (hlacks _ (by decide)) reads_pure
  · cases bound with
    | zero => exact reads_pure
    | succ bound =>
      exact reads_passedAny (fun k hk t ht => (hk t ht).2 l (Nat.le_refl l)) reads_pure

/-- The tokens are read as an expression of a level, and more of the level may follow: whatever
follows is read as if the expression had been read already. -/
def Opens (c : Nat) (g : Grammar) (l : Nat) (u : List Token) (n : ExprId) (e : Expr)
    (n₁ : ExprId) : Prop :=
  ∀ (v : List Token) (stop : List Token → Prop) (whole : Expr) (n₂ : ExprId),
    (∀ bound, v.length ≤ bound → Reads c (tailAt g l bound e) stop v n₁ whole n₂) →
    (∀ k, stop k → Ends (l + 1) (v ++ k)) → Reads c (level g l) stop (u ++ v) n whole n₂

/-- A tree that opens a level is read as the whole of it. -/
theorem Opens.whole (h : Opens c g l u n e n') : Reads c (level g l) (Ends l) u n e n' := by
  have hall := h [] (Ends l) e n' (fun bound _ => reads_tail_end) fun k hk =>
    hk.mono (Nat.le_succ l)
  rwa [List.append_nil] at hall

/-- An operand that is read at the tighter level opens a level. -/
theorem opens_operand (hl : l ∈ tailed) (h : Reads c (level g (l + 1)) (Ends (l + 1)) u n e n') :
    Opens c g l u n e n' := by
  intro v stop whole n₂ hv hstop
  rw [level_eq_tail g hl]
  exact h.bind (reads_remaining hv) hstop

/-- An operator of the level with its right operand. -/
theorem Opens.operator {operator : Token} {w : List Token} (h : Opens c g l u n left n₁)
    (hl : l ≠ 9) (hoperator : operator.kind ∈ operatorsAt l)
    (hright : Reads c (level g (l + 1)) (Ends (l + 1)) w n₁ right n₂) :
    Opens c g l (u ++ operator :: w) n (buildAt l n₂ left operator right) (n₂ + 1) := by
  intro v stop whole n₃ hv hstop
  rw [List.append_assoc, List.cons_append]
  refine h (operator :: (w ++ v)) stop whole n₃ (fun bound hbound => ?_)
    fun k _ => ends_operator hoperator
  obtain ⟨bound, rfl, hrest⟩ := succ_of_cons_length_le hbound
  rw [List.length_append] at hrest
  have htail := hv bound (Nat.le_trans (Nat.le_add_left _ _) hrest)
  unfold tailAt at htail ⊢
  rw [if_neg hl] at htail ⊢
  refine (reads_takenAny hoperator ?_).mono (Nat.le_succ c)
  exact hright.bind (reads_fresh htail) hstop

/-- The production of the arguments of a call, behind the opening parenthesis. -/
def argument (g : Grammar) (count : Nat) : Parser Expr := do
  checkRoom count "Can't have more than 255 arguments."
  g.expression

/-- A call of what opens the level of calls opens it again. -/
theorem Opens.call {close : Token} {arguments : List Expr} {us : List (List Token)}
    (h : Opens (d + 1) g 9 u n e n₁)
    (harguments : ReadsEach d (argument g) (Ends 0) 0 us n₁ arguments n₂)
    (hus : ∀ w ∈ us, w ≠ [] ∧ Lacks .rightParen w) (hclose : close.kind = .rightParen) :
    Opens (d + 1) g 9 (u ++ mark .leftParen :: (separated us ++ [close])) n
      (.call n₂ e close arguments) (n₂ + 1) := by
  intro v stop whole n₃ hv _
  rw [List.append_assoc, List.cons_append]
  refine h _ stop whole n₃ (fun bound hbound => ?_) fun k _ => ends_operator (by decide)
  obtain ⟨bound, rfl, hrest⟩ := succ_of_cons_length_le hbound
  rw [List.length_append] at hrest
  have htail := (hv bound (Nat.le_trans (Nat.le_add_left _ _) hrest)).mono (Nat.le_succ d)
  have hfinish : Reads d (finishCall g e) anything (separated us ++ [close]) n₁
      (.call n₂ e close arguments) (n₂ + 1) := by
    refine (reads_enclosed (by decide) harguments hus hclose (fun k => ends_closer (by decide))
      fun k => ends_closer (by rw [hclose]; decide)).followed ?_
    exact reads_numbered
  exact reads_taken (mark_kind _) (hfinish.bind htail fun _ _ => trivial)

theorem Opens.get {name : Token} (h : Opens (d + 1) g 9 u n e n₁)
    (hname : name.kind = .identifier) :
    Opens (d + 1) g 9 (u ++ [mark .dot, name]) n (.get n₁ e name) (n₁ + 1) := by
  intro v stop whole n₂ hv _
  rw [List.append_assoc]
  refine h (mark .dot :: name :: v) stop whole n₂ (fun bound hbound => ?_)
    fun k _ => ends_operator (by decide)
  obtain ⟨bound, rfl, hrest⟩ := succ_of_cons_length_le hbound
  have htail := (hv bound (Nat.le_of_succ_le hrest)).mono (Nat.le_succ d)
  refine reads_other (by decide) ?_
  exact reads_taken (mark_kind _) (reads_close hname (reads_fresh htail))

theorem Opens.item {close : Token} {w : List Token} (h : Opens (d + 1) g 9 u n e n₁)
    (hindex : Reads d g.expression (Ends 0) w n₁ index n₂) (hclose : close.kind = .rightBracket) :
    Opens (d + 1) g 9 (u ++ mark .leftBracket :: (w ++ [close])) n (.getItem n₂ e close index)
      (n₂ + 1) := by
  intro v stop whole n₃ hv _
  rw [List.append_assoc, List.cons_append]
  refine h _ stop whole n₃ (fun bound hbound => ?_) fun k _ => ends_operator (by decide)
  obtain ⟨bound, rfl, hrest⟩ := succ_of_cons_length_le hbound
  rw [List.length_append] at hrest
  have htail := (hv bound (Nat.le_trans (Nat.le_add_left _ _) hrest)).mono (Nat.le_succ d)
  refine reads_other (by decide) (reads_other (by decide) (reads_taken (mark_kind _) ?_))
  rw [List.append_assoc]
  exact hindex.bind (reads_close hclose (reads_fresh htail)) fun k _ =>
    ends_closer (by rw [hclose]; decide)

/-! ## Unary operators and assignments -/

/-- What begins with no sign is read as a call. -/
theorem reads_unaryUpTo_call (h : Reads c (call g) stop u n e n') (hne : u ≠ [])
    (hbang : Lacks .bang u) (hminus : Lacks .minus u) (bound : Nat) :
    Reads c (unaryUpTo g bound) stop u n e n' := by
  cases bound with
  | zero => exact h
  | succ bound =>
    refine reads_passedAny (fun k _ t ht => ?_) h
    cases u with
    | nil => exact absurd rfl hne
    | cons x u =>
      obtain rfl : x = t := Option.some.inj ht
      simp [lacks_cons.mp hbang, lacks_cons.mp hminus]

/-- A sign leaves a bound for its operand. -/
theorem reads_unaryUpTo_next {operator : Token} (hoperator : operator.kind ∈ [.bang, .minus])
    (h : ∀ bound, u.length ≤ bound → Reads c (unaryUpTo g bound) stop u n e n')
    (hbound : (operator :: u).length ≤ bound) :
    Reads c (unaryUpTo g bound) stop (operator :: u) n (.unary n' operator e) (n' + 1) := by
  obtain ⟨bound, rfl, hrest⟩ := succ_of_cons_length_le hbound
  refine (reads_takenAny hoperator ?_).mono (Nat.le_succ c)
  exact (h bound hrest).followed reads_numbered

/-- An expression that nothing is assigned to. -/
theorem reads_assignment_none (h : Reads c (disjunction g) (Ends 1) u n e n') :
    Reads c (assignment g) (Ends 0) u n e n' := by
  refine (h.stops fun k hk => hk.mono (Nat.zero_le 1)).followed ?_
  refine reads_passed (fun k hk t ht hkind => ?_) reads_pure
  exact (hk t ht).2 0 (Nat.le_refl 0) (hkind ▸ by decide)

/-- A target, the equals sign and a value are read as what is assigned. -/
theorem reads_assignment {equals : Token} {target value whole : Expr} {w : List Token}
    (htarget : Reads (d + 1) (disjunction g) (Ends 1) u n target n₁)
    (hequals : equals.kind = .equal)
    (hvalue : Reads d g.expression (Ends 0) w n₁ value n₂)
    (hwhole : Reads d (assignTo target equals value) (Ends 0) [] n₂ whole n') :
    Reads (d + 1) (assignment g) (Ends 0) (u ++ equals :: w) n whole n' := by
  refine htarget.bind ?_ fun k _ => ends_operator (by rw [hequals]; decide)
  exact reads_taken hequals (hvalue.followed hwhole)

end Levels

/-! ## Primary expressions -/

/-- The kinds of token that an expression begins with. -/
def starters : List TokenKind :=
  [.falseWord, .trueWord, .nullWord, .number, .string, .superWord, .thisWord, .leftBracket,
    .identifier, .leftParen, .leftBrace, .bang, .minus]

/-- The tokens begin like an expression. If they begin with a name, then what follows it is not what
follows a name in a list of parameters. -/
def Begins : List Token → Prop
  | [] => False
  | t :: u => t.kind ∈ starters ∧
    (t.kind = .identifier → ∀ t' ∈ u.head?, t'.kind ∉ [.comma, .rightParen])

/-- What begins an expression is no token of another kind. -/
theorem Begins.lacks (h : Begins u) (hkind : kind ∉ starters) : Lacks kind u := by
  cases u with
  | nil => exact lacks_nil
  | cons t u => exact lacks_cons.mpr fun heq => hkind (heq ▸ h.1)

theorem Begins.ne_nil (h : Begins u) : u ≠ [] := by
  cases u with
  | nil => exact h.elim
  | cons t u => exact List.cons_ne_nil t u

/-- A longer expression begins as its front does, unless a comma or a parenthesis follows it. -/
theorem Begins.append (h : Begins u) (hv : ∀ t ∈ v.head?, t.kind ∉ [.comma, .rightParen]) :
    Begins (u ++ v) := by
  cases u with
  | nil => exact h.elim
  | cons t u =>
    refine ⟨h.1, fun ht t' ht' => ?_⟩
    cases u with
    | nil => exact hv t' ht'
    | cons x u => exact h.2 ht t' ht'

/-- An expression in parentheses is no list of parameters. -/
theorem startsArrow_grouping {k : List Token} (hu : Begins u) (hk : Lacks .arrow k) :
    startsArrow (parenthesized u ++ k) = false := by
  cases u with
  | nil => exact hu.elim
  | cons t u =>
    obtain ⟨hstart, hnext⟩ := hu
    have hparen : t.kind ≠ .rightParen := fun heq => absurd (heq ▸ hstart) (by decide)
    show closesArrowHead (if t.kind = .identifier then afterNames (u ++ [mark .rightParen] ++ k)
      else t :: (u ++ [mark .rightParen] ++ k)) = false
    split
    · next hname =>
      cases u with
      | nil =>
        cases k with
        | nil => rfl
        | cons t' k =>
          have harrow := lacks_cons.mp hk
          simp [afterNames, closesArrowHead, harrow]
      | cons t' u =>
        have hkind := hnext hname t' rfl
        simp only [List.mem_cons, List.not_mem_nil, or_false, not_or] at hkind
        cases hrest : u ++ [mark .rightParen] ++ k with
        | nil => simp at hrest
        | cons x rest =>
          rw [List.cons_append, List.cons_append, hrest]
          simp [afterNames, closesArrowHead, hkind.1, hkind.2]
    · cases hrest : u ++ [mark .rightParen] ++ k with
      | nil => simp at hrest
      | cons x rest => simp [closesArrowHead, hparen]

/-- Looking past the names of a list of parameters comes to its closing parenthesis. -/
theorem afterNames_params {params k : List Token} (hparams : ∀ t ∈ params, t.kind = .identifier) :
    afterNames ((params.map ([·])).flatMap (mark .comma :: ·) ++
      mark .rightParen :: mark .arrow :: k) = mark .rightParen :: mark .arrow :: k := by
  induction params with
  | nil => simp [afterNames]
  | cons t params ih =>
    have ht := hparams t List.mem_cons_self
    have hrest := ih fun t' ht' => hparams t' (List.mem_cons_of_mem t ht')
    rw [List.map_cons, List.flatMap_cons, List.append_assoc]
    simp only [List.cons_append, List.nil_append, afterNames, mark_kind, ht, decide_true,
      Bool.and_self, if_true]
    exact hrest

/-- A list of parameters with an arrow behind it is seen as such. -/
theorem startsArrow_params {params k : List Token} (hparams : Params params) :
    startsArrow (paramTokens params ++ mark .arrow :: k) = true := by
  cases params with
  | nil => rfl
  | cons t params =>
    have ht := hparams.2 t List.mem_cons_self
    have hrest := afterNames_params (k := k)
      fun t' ht' => hparams.2 t' (List.mem_cons_of_mem t ht')
    show closesArrowHead (if t.kind = .identifier then
      afterNames ((params.map ([·])).flatMap (mark .comma :: ·) ++ [mark .rightParen] ++
        mark .arrow :: k) else _) = true
    rw [if_pos ht, List.append_assoc]
    rw [List.singleton_append, hrest]
    rfl

section Primary

variable {g : Grammar} {e : Expr}

/-- Where no arrow is ahead nothing is read of a head. -/
theorem reads_noArrowHead :
    Reads c arrowHead? (fun k => Lacks .arrow k ∧ startsArrow k = false) [] n none n := by
  refine reads_passed (fun k hk => hk.1) (reads_get (q := pure none) (fun s k hrest hk => ?_)
    reads_pure)
  rw [hrest, List.nil_append, hk.2]
  rfl

/-- A primary expression that does not begin like an arrow function. -/
theorem reads_plain (h : Reads c (primaryTail g) stop (t :: u) n e n')
    (ht : t.kind ∉ [.arrow, .leftParen]) : Reads c (primary g) stop (t :: u) n e n' := by
  simp only [List.mem_cons, List.not_mem_nil, or_false, not_or] at ht
  refine reads_noArrowHead.bind h fun k _ => ⟨lacks_cons.mpr ht.1, ?_⟩
  simp [startsArrow, ht.2]

/-- A number or a string is a constant with its own value. -/
theorem reads_literal (ht : t.kind = .number ∨ t.kind = .string) :
    Reads c (primary g) stop [t] n (.constant n (tokenConstant t)) (n + 1) := by
  have hne : ∀ {kinds : List TokenKind}, .number ∉ kinds → .string ∉ kinds → t.kind ∉ kinds := by
    intro kinds hnumber hstring
    rcases ht with ht | ht <;> rwa [ht]
  refine (reads_plain ?_ (hne (by decide) (by decide))).mono (Nat.le_succ c)
  iterate 3 refine reads_otherAny (hne (by decide) (by decide)) ?_
  exact reads_takenAny (by simpa using ht) reads_numbered

/-- The token that a constant is written as is read as the constant. -/
theorem reads_constant (value : Constant) :
    Reads c (primary g) stop [constantToken value] n (.constant n value) (n + 1) := by
  cases value with
  | number x => exact reads_literal (.inl rfl)
  | string s => exact reads_literal (.inr rfl)
  | boolean value =>
    cases value with
    | false =>
      refine (reads_plain ?_ (by decide)).mono (Nat.le_succ c)
      exact reads_taken rfl reads_numbered
    | true =>
      refine (reads_plain ?_ (by decide)).mono (Nat.le_succ c)
      refine reads_other (by decide) ?_
      exact reads_taken rfl reads_numbered
  | null =>
    refine (reads_plain ?_ (by decide)).mono (Nat.le_succ c)
    iterate 2 refine reads_other (by decide) ?_
    exact reads_taken rfl reads_numbered

/-- The seven tokens of a super access are read as one. -/
theorem reads_super {keyword className method : Token} (hkeyword : keyword.kind = .superWord)
    (hclass : className.kind = .identifier) (hmethod : method.kind = .identifier) :
    Reads c (primary g) stop
      [keyword, mark .leftParen, className, mark .rightParen, mark .dot, method] n
      (.super n keyword className method) (n + 1) := by
  refine (reads_plain ?_ (by rw [hkeyword]; decide)).mono (Nat.le_succ c)
  iterate 4 refine reads_otherAny (by rw [hkeyword]; decide) ?_
  refine reads_taken hkeyword (reads_close (mark_kind _) (reads_close hclass ?_))
  exact reads_close (mark_kind _) (reads_close (mark_kind _) (reads_close hmethod reads_numbered))

/-- The word for the receiver is read as itself. -/
theorem reads_self {keyword : Token} (hkeyword : keyword.kind = .thisWord) :
    Reads c (primary g) stop [keyword] n (.self n keyword) (n + 1) := by
  refine (reads_plain ?_ (by rw [hkeyword]; decide)).mono (Nat.le_succ c)
  iterate 5 refine reads_otherAny (by rw [hkeyword]; decide) ?_
  exact reads_taken hkeyword reads_numbered

/-- A name is read as a reference with the next number. -/
theorem reads_reference {name : Token} (hname : name.kind = .identifier) :
    Reads c (primary g) stop [name] n (.reference ⟨n, name⟩) (n + 1) := by
  refine (reads_plain ?_ (by rw [hname]; decide)).mono (Nat.le_succ c)
  iterate 7 refine reads_otherAny (by rw [hname]; decide) ?_
  exact reads_taken hname reads_numbered

/-- Elements in square brackets are read as an array. -/
theorem reads_array {elements : List Expr} {us : List (List Token)}
    (helements : ReadsEach d (fun _ => g.expression) (Ends 0) 0 us n elements n')
    (hus : ∀ u ∈ us, Begins u) :
    Reads (d + 1) (primary g) stop (mark .leftBracket :: (separated us ++ [mark .rightBracket])) n
      (.array n' elements) (n' + 1) := by
  refine reads_plain ?_ (by decide)
  iterate 6 refine reads_otherAny (by decide) ?_
  refine reads_taken (mark_kind _) ((reads_enclosed (by decide) helements
    (fun u hu => ⟨(hus u hu).ne_nil, (hus u hu).lacks (by decide)⟩) (mark_kind .rightBracket)
    (fun k => ends_closer (by decide)) fun k => ends_closer (by decide)).followed ?_)
  exact reads_numbered

/-- What is in parentheses is read as a group and takes its number last. -/
theorem reads_grouping (h : Reads d g.expression (Ends 0) u n e n') (hu : Begins u) :
    Reads (d + 1) (primary g) (Ends 10) (parenthesized u) n (.grouping n' e) (n' + 1) := by
  refine reads_noArrowHead.bind (u := []) (v := parenthesized u) ?_ fun k hk =>
    ⟨lacks_cons.mpr (by decide), startsArrow_grouping hu fun t ht => (hk t ht).1⟩
  iterate 8 refine reads_otherAny (by decide) ?_
  refine reads_taken (mark_kind _) (h.bind (reads_close (mark_kind _) reads_numbered) fun k _ => ?_)
  exact ends_closer (by decide)

/-- Entries in braces are read as a map, if no key stands twice. -/
theorem reads_map {entries : List (Token × Expr)} {us : List (List Token)}
    (hentries : ReadsEach d (fun _ => mapEntry g) (Ends 0) 0 us n entries n')
    (hus : ∀ u ∈ us, u ≠ [] ∧ Lacks .rightBrace u) (hkeys : entries.foldl putEntry [] = entries) :
    Reads (d + 1) (primary g) stop (braced (separated us)) n (.map n' entries) (n' + 1) := by
  refine reads_plain ?_ (by decide)
  iterate 9 refine reads_otherAny (by decide) ?_
  refine reads_taken (mark_kind _) ((reads_enclosed (by decide) hentries hus (mark_kind .rightBrace)
    (fun k => ends_closer (by decide)) fun k => ends_closer (by decide)).followed ?_)
  dsimp only
  rw [hkeys]
  exact reads_numbered

/-- A key, a colon and a value are read as an entry. -/
theorem reads_mapEntry {key : Token} (hkey : key.kind = .identifier)
    (h : Reads c g.expression (Ends 0) u n e n') :
    Reads c (mapEntry g) (Ends 0) (key :: mark .colon :: u) n (key, e) n' :=
  reads_close hkey (reads_close (mark_kind _) (h.followed reads_pure))

/-- Parameters with an arrow behind them are read as a head. -/
theorem reads_arrowHead {params : List Token} (hparams : Params params) :
    Reads c arrowHead? stop (paramTokens params ++ [mark .arrow]) n
      (some (params, mark .arrow)) n := by
  refine reads_other (by decide) (reads_get (q := do
    let _ ← expect .leftParen "Expect '(' before parameters."
    let params ← parameters
    let arrow ← expect .arrow "Expect '->' after parameters."
    pure (some (params, arrow))) (fun s k hrest _ => ?_) ?_)
  · have harrow : startsArrow s.rest = true := by
      rw [hrest]
      show startsArrow ((paramTokens params ++ [mark .arrow]) ++ k) = true
      rw [List.append_assoc]
      exact startsArrow_params hparams
    rw [harrow]
    rfl
  · have hparameters : Reads c parameters anything _ n params n := reads_parameters hparams
    exact reads_close (mark_kind _) (hparameters.bind
      (reads_close (mark_kind _) reads_pure) fun _ _ => trivial)

/-- A head and a block are read as an anonymous function. -/
theorem reads_lambda {params : List Token} {body : List Stmt} (hparams : Params params)
    (hbody : Reads d g.block anything (u ++ [mark .rightBrace]) n body n') :
    Reads (d + 1) (primary g) stop (paramTokens params ++ mark .arrow :: braced u) n
      (.lambda n' (.mk (Token.named "anonymous" 0) params body true)) (n' + 1) := by
  have hhead : Reads (d + 1) arrowHead? anything _ n _ n := reads_arrowHead hparams
  rw [List.append_cons]
  refine hhead.bind ?_ fun _ _ => trivial
  refine Reads.followed (a := body) ?_ reads_numbered
  exact reads_taken (mark_kind _) (hbody.stops fun _ _ => trivial)

end Primary

end ScriptEngine.Parser
