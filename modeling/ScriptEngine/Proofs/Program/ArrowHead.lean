import ScriptEngine.Proofs.Program.Position
import ScriptEngine.Proofs.Program.Reading

/-!
# Heads of arrow functions

Whether an arrow function comes next is told by looking ahead over any number of tokens, and then
its head is read once more by other productions. `ArrowHead` says which tokens are such a head: an
arrow alone, or names in parentheses with a comma between each two and an arrow behind them. The
look ahead finds exactly these (`startsArrow_iff`), however the tokens end and wherever the position
stands, since a look past the last token sees the end of the source, which is no part of a head.
What it has found is then read to its end.
-/

namespace ScriptEngine.Parser

open Position (Cursor Reader script)

/-! ## The tokens of a head -/

/-- Any number of names with a comma in front of each: the names, and all the tokens. -/
inductive MoreNames : List Token → List Token → Prop where
  | nil : MoreNames [] []
  | cons {comma name : Token} {names text : List Token} (hcomma : comma.kind = .comma)
      (hname : name.kind = .identifier) (hmore : MoreNames names text) :
      MoreNames (name :: names) (comma :: name :: text)

/-- Names in parentheses with a comma between each two: the names, and all the tokens. -/
inductive Parameters : List Token → List Token → Prop where
  | none {opening closing : Token} (hopening : opening.kind = .leftParen)
      (hclosing : closing.kind = .rightParen) : Parameters [] [opening, closing]
  | some {opening name closing : Token} {names text : List Token}
      (hopening : opening.kind = .leftParen) (hname : name.kind = .identifier)
      (hmore : MoreNames names text) (hclosing : closing.kind = .rightParen) :
      Parameters (name :: names) (opening :: name :: (text ++ [closing]))

/-- Parameters begin with an opening parenthesis. -/
theorem Parameters.opening {params text : List Token} {t : Token}
    (h : Parameters params (t :: text)) : t.kind = .leftParen := by
  cases h <;> assumption

/-- The head of an arrow function: its parameters, and all the tokens. -/
inductive ArrowHead : List Token → List Token → Prop where
  | bare {arrow : Token} (harrow : arrow.kind = .arrow) : ArrowHead [] [arrow]
  | list {params text : List Token} {arrow : Token} (hparams : Parameters params text)
      (harrow : arrow.kind = .arrow) : ArrowHead params (text ++ [arrow])

/-- The error at every parameter that comes behind the greatest number there may be, if `count`
parameters precede these. -/
def surplus (count : Nat) (params : List Token) : List SyntaxError :=
  (params.drop (maxArguments - count)).map (⟨·, "Can't have more than 255 parameters."⟩)

/-- The first of some parameters is one too many if as many as there may be precede it. -/
theorem surplus_cons (count : Nat) (param : Token) (params : List Token) :
    surplus count (param :: params) =
      (if count ≥ maxArguments then [⟨param, "Can't have more than 255 parameters."⟩] else []) ++
        surplus (count + 1) params := by
  unfold surplus
  split
  · next hfull =>
    have hnone : maxArguments - count = 0 := by omega
    have hnone' : maxArguments - (count + 1) = 0 := by omega
    rw [hnone, hnone']
    rfl
  · next hroom =>
    have hsome : maxArguments - count = maxArguments - (count + 1) + 1 := by omega
    rw [hsome]
    rfl

/-- Without parameters none is one too many. -/
theorem surplus_nil (count : Nat) : surplus count [] = [] :=
  congrArg (List.map _) List.drop_nil

/-- The error at a parameter that comes behind `count` others. -/
theorem surplus_one (count : Nat) (name : Token) :
    surplus count [name] =
      if count ≥ maxArguments then [⟨name, "Can't have more than 255 parameters."⟩] else [] := by
  rw [surplus_cons, surplus_nil, List.append_nil]

/-- The errors at some parameters are those at the first and those at the others. -/
theorem surplus_split (count : Nat) (name : Token) (names : List Token) :
    surplus count (name :: names) = surplus count [name] ++ surplus (count + 1) names := by
  rw [surplus_cons, surplus_one]

/-! ## Looking ahead -/

section

variable {l text rest names : List Token} {closing : Token}

/-- The look ahead passes all names and stops at the closing parenthesis. -/
theorem afterNames_moreNames (h : MoreNames names text) (hclosing : closing.kind = .rightParen) :
    afterNames (text ++ closing :: rest) = closing :: rest := by
  induction h with
  | nil =>
    have hno : (closing.kind = .comma) = False := by simp [hclosing]
    cases rest with
    | nil => rfl
    | cons t rest => simp [afterNames, hno]
  | cons hcomma hname _ ih =>
    rw [List.cons_append, List.cons_append, afterNames, if_pos (by simp [hcomma, hname])]
    exact ih

/-- The names that are passed over are those that stand there. -/
theorem exists_moreNames (l : List Token) :
    ∃ names text, MoreNames names text ∧ l = text ++ afterNames l := by
  induction l using afterNames.induct with
  | case1 comma name rest hnames ih =>
    obtain ⟨names, text, hmore, hrest⟩ := ih
    rw [Bool.and_eq_true, decide_eq_true_eq, decide_eq_true_eq] at hnames
    refine ⟨name :: names, comma :: name :: text, .cons hnames.1 hnames.2 hmore, ?_⟩
    rw [afterNames, if_pos (by simp [hnames.1, hnames.2])]
    exact congrArg (comma :: name :: ·) hrest
  | case2 comma name rest hnames =>
    refine ⟨[], [], .nil, ?_⟩
    rw [afterNames, if_neg hnames]
    rfl
  | case3 l hshort =>
    refine ⟨[], [], .nil, ?_⟩
    rw [afterNames]
    · rfl
    · exact hshort

/-- What closes a head is a closing parenthesis and an arrow. -/
theorem closesArrowHead_iff :
    closesArrowHead l = true ↔ ∃ closing arrow rest, l = closing :: arrow :: rest ∧
      closing.kind = .rightParen ∧ arrow.kind = .arrow := by
  constructor
  · intro h
    match l with
    | [] => cases h
    | [t] => cases h
    | closing :: arrow :: rest =>
      rw [closesArrowHead, Bool.and_eq_true, decide_eq_true_eq, decide_eq_true_eq] at h
      exact ⟨closing, arrow, rest, rfl, h⟩
  · rintro ⟨closing, arrow, rest, rfl, hclosing, harrow⟩
    simp [closesArrowHead, hclosing, harrow]

/-- The look ahead finds exactly a list of parameters with an arrow behind it. -/
theorem startsArrow_iff :
    startsArrow l = true ↔ ∃ params text arrow rest, l = text ++ arrow :: rest ∧
      Parameters params text ∧ arrow.kind = .arrow := by
  constructor
  · intro h
    match l with
    | [] => cases h
    | [t] => simp [startsArrow] at h
    | opening :: name :: more =>
      rw [startsArrow, Bool.and_eq_true, decide_eq_true_eq] at h
      obtain ⟨hopening, hcloses⟩ := h
      split at hcloses
      · next hname =>
        obtain ⟨closing, arrow, rest, hafter, hclosing, harrow⟩ := closesArrowHead_iff.mp hcloses
        obtain ⟨names, text, hmore, hsplit⟩ := exists_moreNames more
        refine ⟨_, _, arrow, rest, ?_, .some hopening hname hmore hclosing, harrow⟩
        rw [hsplit, hafter]
        simp
      · obtain ⟨closing, arrow, rest, hafter, hclosing, harrow⟩ := closesArrowHead_iff.mp hcloses
        obtain ⟨rfl, rfl⟩ := List.cons.inj hafter
        exact ⟨[], [opening, name], arrow, rest, rfl, .none hopening hclosing, harrow⟩
  · rintro ⟨params, text, arrow, rest, rfl, hparams, harrow⟩
    cases hparams with
    | @none opening closing hopening hclosing =>
      simp [startsArrow, closesArrowHead, hopening, hclosing, harrow]
    | @some opening name closing names text hopening hname hmore hclosing =>
      have hafter : afterNames (text ++ closing :: arrow :: rest) = closing :: arrow :: rest :=
        afterNames_moreNames hmore hclosing
      have hcloses := closesArrowHead_iff.mpr ⟨closing, arrow, rest, hafter, hclosing, harrow⟩
      simp only [List.cons_append, List.append_assoc, startsArrow, hopening, decide_true,
        Bool.true_and, hname, if_true]
      exact hcloses

/-- Tokens that begin with no head begin with no arrow and no list of parameters with one. -/
theorem headless_of_not (h : ∀ params head rest, l = head ++ rest → ¬ ArrowHead params head) :
    (∀ t ∈ l.head?, t.kind ≠ .arrow) ∧ startsArrow l = false := by
  refine ⟨fun t ht harrow => ?_, Bool.eq_false_iff.mpr fun hstarts => ?_⟩
  · obtain ⟨rest, rfl⟩ := List.head?_eq_some_iff.mp ht
    exact h [] [t] rest rfl (.bare harrow)
  · obtain ⟨params, text, arrow, rest, rfl, hparams, harrow⟩ := startsArrow_iff.mp hstarts
    exact h params (text ++ [arrow]) rest (by simp) (.list hparams harrow)

end

/-! ## By position -/

namespace Position

/-- What stands from the position on: some tokens, and the last of them is an end. -/
structure Cursor.Faces (c : Cursor) (l : List Token) : Prop where
  drop : c.tokens.drop c.current = l
  ends : l.getLast?.map (·.kind) = some .eof

/-- The cursor behind some tokens that were read with some errors. -/
def Cursor.behind (c : Cursor) (count : Nat) (errors : List SyntaxError) : Cursor :=
  { c with current := c.current + count, errors := c.errors ++ errors }

/-- Reading some tokens, one more and then others is reading them all. -/
theorem Cursor.behind_next_behind (c : Cursor) (m n : Nat) (es fs : List SyntaxError) :
    (c.behind m es).next.behind n fs = c.behind (m + 1 + n) (es ++ fs) := by
  simp only [Cursor.behind, Cursor.next, List.append_assoc, Nat.add_assoc]

/-- Stepping on is reading one token without an error. -/
theorem Cursor.next_eq_behind (c : Cursor) : c.next = c.behind 1 [] :=
  congrArg (Cursor.mk c.tokens (c.current + 1) · c.nextId) (List.append_nil _).symm

namespace Cursor.Faces

variable {c : Cursor} {l rest : List Token} {t : Token} {kind : TokenKind}

/-- Behind a token that is not the end the others stand. -/
theorem next (h : c.Faces (t :: l)) (ht : t.kind ≠ .eof) : c.next.Faces l where
  drop := by
    show c.tokens.drop (c.current + 1) = l
    rw [← List.drop_drop, h.drop]
    rfl
  ends := by
    have hends := h.ends
    cases l with
    | nil => exact absurd (Option.some.inj hends) ht
    | cons u l => rwa [List.getLast?_cons_cons] at hends

/-- The token at the position is the first of those that stand there. -/
theorem current (h : c.Faces (t :: l)) : c.tokens[c.current]? = some t := by
  rw [← List.head?_drop, h.drop]
  rfl

/-- Noting errors does not move the position. -/
theorem noted (h : c.Faces l) (errors : List SyntaxError) :
    Cursor.Faces { c with errors := errors } l :=
  ⟨h.drop, h.ends⟩

/-- Looking at the next token answers with it. -/
theorem peek (h : c.Faces (t :: l)) : Position.peek c = some (.ok t, c) :=
  tokenAt_of_some h.current

/-- Asking for the end compares the next token with it. -/
theorem isAtEnd (h : c.Faces (t :: l)) :
    Position.isAtEnd c = some (.ok (decide (t.kind = .eof)), c) := by
  rw [Position.isAtEnd, bind_of_ok h.peek]
  rfl

/-- Asking for a kind of token compares the next one with it. -/
theorem check (h : c.Faces (t :: l)) (hkind : kind ≠ .eof) :
    Position.check kind c = some (.ok (decide (t.kind = kind)), c) := by
  rw [Position.check, bind_of_ok h.isAtEnd]
  by_cases heof : t.kind = .eof
  · rw [heof, decide_eq_false (Ne.symm hkind)]
    rfl
  · show (if decide (t.kind = .eof) = true then _ else _ : Reader Bool) c = _
    rw [if_neg (by simpa using heof), bind_of_ok h.peek]
    rfl

/-- Stepping on answers with the token that was next. -/
theorem advance (h : c.Faces (t :: l)) (ht : t.kind ≠ .eof) :
    Position.advance c = some (.ok t, c.next) := by
  rw [Position.advance, bind_of_ok h.isAtEnd, decide_eq_false ht]
  exact tokenAt_of_some h.current

/-- A token of the kind is read, and any other left. -/
theorem matchToken (h : c.Faces (t :: l)) (hkind : kind ≠ .eof) :
    Position.matchToken kind c =
      if t.kind = kind then some (.ok true, c.next) else some (.ok false, c) := by
  rw [Position.matchToken, bind_of_ok (h.check hkind)]
  by_cases ht : t.kind = kind
  · show (if decide (t.kind = kind) = true then _ else _ : Reader Bool) c = _
    rw [if_pos ht, if_pos (by simpa using ht), bind_of_ok (h.advance (ht ▸ hkind))]
    rfl
  · show (if decide (t.kind = kind) = true then _ else _ : Reader Bool) c = _
    rw [if_neg ht, if_neg (by simpa using ht)]
    rfl

/-- A token that is demanded is read if it is there. -/
theorem consume (h : c.Faces (t :: l)) (hkind : kind ≠ .eof) (ht : t.kind = kind)
    (message : String) : Position.consume kind message c = some (.ok t, c.next) := by
  rw [Position.consume, bind_of_ok (h.check hkind), decide_eq_true ht]
  exact h.advance (ht ▸ hkind)

/-- A look ahead sees the token that stands there; past the last token it sees an end. -/
theorem peekNth (h : c.Faces l) (n : Nat) :
    ∃ t, Position.peekNth n c = some (.ok t, c) ∧
      ∀ kind ≠ .eof, t.kind = kind ↔ (l.drop n).head?.any (·.kind = kind) = true := by
  have hget : (get : Reader Cursor) c = some (.ok c, c) := rfl
  have hlength := congrArg List.length h.drop
  rw [List.length_drop] at hlength
  have hends := h.ends
  rw [Position.peekNth, bind_of_ok hget]
  rcases Nat.lt_or_ge n l.length with hlt | hge
  · have hmin : min (c.current + n) (c.tokens.length - 1) = c.current + n := by omega
    have hat : c.tokens[c.current + n]? = some l[n] := by
      rw [← List.getElem?_eq_getElem hlt, ← h.drop, List.getElem?_drop]
    refine ⟨l[n], hmin ▸ tokenAt_of_some hat, fun kind _ => ?_⟩
    rw [List.head?_drop, List.getElem?_eq_getElem hlt]
    exact decide_eq_true_iff.symm
  · obtain ⟨last, hlast, hkind⟩ := Option.map_eq_some_iff.mp hends
    have hne : 0 < l.length := by
      cases l with
      | nil => cases hlast
      | cons t l => exact Nat.succ_pos _
    have hmin : min (c.current + n) (c.tokens.length - 1) = c.current + (l.length - 1) := by omega
    have hat : c.tokens[c.current + (l.length - 1)]? = some last := by
      rw [← List.getElem?_drop, h.drop, ← List.getLast?_eq_getElem?, hlast]
    refine ⟨last, hmin ▸ tokenAt_of_some hat, fun kind hne => ?_⟩
    rw [List.drop_eq_nil_of_le hge, hkind]
    exact ⟨fun heq => absurd heq.symm hne, fun hnone => nomatch hnone⟩

/-! ### The look ahead -/

/-- A comma and a name behind it are passed together. -/
theorem namesEnd_step (h : c.Faces l) (n : Nat) :
    script.namesEnd n c = match l.drop n with
      | comma :: name :: _ =>
        if comma.kind = .comma && name.kind = .identifier then script.namesEnd (n + 2) c
        else some (.ok n, c)
      | _ => some (.ok n, c) := by
  obtain ⟨t, hpeek, ht⟩ := h.peekNth n
  obtain ⟨u, hpeek', hu⟩ := h.peekNth (n + 1)
  have hcomma := ht .comma (by decide)
  have hname := hu .identifier (by decide)
  rw [← List.drop_drop] at hname
  rw [Language.namesEnd, bind_of_ok hpeek]
  show (if t.kind = .comma then _ else _ : Reader Nat) c = _
  generalize l.drop n = ahead at hcomma hname
  by_cases htc : t.kind = .comma
  · rw [if_pos htc, bind_of_ok hpeek']
    show (if u.kind = .identifier then _ else _ : Reader Nat) c = _
    match ahead with
    | [] => exact nomatch hcomma.mp htc
    | [x] => rw [if_neg (by simp [hname])]; rfl
    | x :: y :: rest =>
      have hx : x.kind = .comma := by simpa using hcomma.mp htc
      by_cases hui : u.kind = .identifier
      · have hy : y.kind = .identifier := by simpa using hname.mp hui
        rw [if_pos hui]
        simp only [hx, hy, decide_true, Bool.and_self, if_true]
      · have hy : ¬ y.kind = .identifier := fun hy => hui (hname.mpr (by simp [hy]))
        rw [if_neg hui]
        simp only [hy, decide_false, Bool.and_false, Bool.false_eq_true, if_false]
        rfl
  · rw [if_neg htc]
    match ahead with
    | [] | [x] => rfl
    | x :: y :: rest =>
      have hx : ¬ x.kind = .comma := fun hx => htc (hcomma.mpr (by simp [hx]))
      simp only [hx, decide_false, Bool.false_and, Bool.false_eq_true, if_false]
      rfl

/-- Behind the names stands what the production finds there. -/
theorem namesEnd (h : c.Faces l) (ahead : List Token) :
    ∀ {n : Nat}, l.drop n = ahead →
      ∃ m, l.drop m = afterNames ahead ∧ script.namesEnd n c = some (.ok m, c) := by
  induction ahead using afterNames.induct with
  | case1 comma name rest hnames ih =>
    intro n hn
    have hrest : l.drop (n + 2) = rest := by
      rw [← List.drop_drop, hn]
      rfl
    obtain ⟨m, hafter, hend⟩ := ih hrest
    refine ⟨m, ?_, ?_⟩
    · rw [afterNames, if_pos hnames]
      exact hafter
    · rw [h.namesEnd_step, hn]
      exact (if_pos hnames).trans hend
  | case2 comma name rest hnames =>
    intro n hn
    refine ⟨n, ?_, ?_⟩
    · rw [afterNames, if_neg hnames]
      exact hn
    · rw [h.namesEnd_step, hn]
      exact if_neg hnames
  | case3 ahead hshort =>
    intro n hn
    refine ⟨n, ?_, ?_⟩
    · rw [afterNames]
      · exact hn
      · exact hshort
    · rw [h.namesEnd_step, hn]
      split
      · next comma name rest => exact (hshort comma name rest rfl).elim
      · rfl

/-- Whether the names are closed and an arrow follows. -/
theorem arrowBehind (h : c.Faces l) (n : Nat) :
    (do
      if (← Position.peekNth n).kind = .rightParen then
        let t ← Position.peekNth (n + 1)
        pure (t.kind = .arrow)
      else pure false : Reader Bool) c = some (.ok (closesArrowHead (l.drop n)), c) := by
  obtain ⟨t, hpeek, ht⟩ := h.peekNth n
  obtain ⟨u, hpeek', hu⟩ := h.peekNth (n + 1)
  have hclose := ht .rightParen (by decide)
  have harrow := hu .arrow (by decide)
  rw [← List.drop_drop] at harrow
  have hcloses : closesArrowHead (l.drop n) =
      (decide (t.kind = .rightParen) && decide (u.kind = .arrow)) := by
    generalize l.drop n = ahead at hclose harrow
    match ahead with
    | [] | [x] | x :: y :: rest => simp [closesArrowHead, hclose, harrow]
  rw [bind_of_ok hpeek, hcloses]
  show (if t.kind = .rightParen then _ else _ : Reader Bool) c = _
  by_cases htc : t.kind = .rightParen
  · rw [if_pos htc, bind_of_ok hpeek', decide_eq_true htc]
    rfl
  · rw [if_neg htc, decide_eq_false htc]
    rfl

/-- The look ahead answers whether a head begins, and moves nothing. -/
theorem arrowAhead (h : c.Faces l) :
    script.arrowAhead c = some (.ok (startsArrow l), c) := by
  match l, h with
  | [], h => exact nomatch h.ends
  | opening :: more, h =>
    rw [Language.arrowAhead, bind_of_ok (h.check (by decide))]
    show (if decide (opening.kind = .leftParen) = true then _ else _ : Reader Bool) c = _
    by_cases hopening : opening.kind = .leftParen
    · obtain ⟨t, hpeek, ht⟩ := h.peekNth 1
      have hname := ht .identifier (by decide)
      rw [if_pos (decide_eq_true hopening), bind_of_ok hpeek]
      show (if t.kind = .identifier then _ else _ : Reader Bool) c = _
      match more with
      | [] =>
        rw [if_neg (by simp [hname]), startsArrow, Bool.and_false]
        exact h.arrowBehind 1
      | name :: more =>
        have hstarts : startsArrow (opening :: name :: more) = closesArrowHead
            (if name.kind = .identifier then afterNames more else name :: more) := by
          show (decide (opening.kind = .leftParen) && _) = _
          rw [decide_eq_true hopening, Bool.true_and]
        have hsame : t.kind = .identifier ↔ name.kind = .identifier := by simp [hname]
        rw [hstarts]
        by_cases hnamed : name.kind = .identifier
        · obtain ⟨m, hafter, hend⟩ := h.namesEnd more (n := 2) rfl
          rw [if_pos (hsame.mpr hnamed), if_pos hnamed, bind_of_ok hend, ← hafter]
          exact h.arrowBehind m
        · rw [if_neg (mt hsame.mp hnamed), if_neg hnamed]
          exact h.arrowBehind 1
    · have hstarts : startsArrow (opening :: more) = false := by
        show (decide (opening.kind = .leftParen) && _) = false
        rw [decide_eq_false hopening, Bool.false_and]
      rw [hstarts, if_neg (by simpa using hopening)]
      rfl

/-! ### The head -/

/-- A parameter that is one too many is an error at the next token, and reading goes on. -/
theorem checkRoom (h : c.Faces (t :: l)) (count : Nat) (message : String) :
    Position.checkRoom count message c =
      some (.ok (), { c with
        errors := c.errors ++ if count ≥ maxArguments then [⟨t, message⟩] else [] }) := by
  unfold Position.checkRoom
  split
  · rw [bind_of_ok h.peek]
    rfl
  · rw [List.append_nil]
    rfl

/-- One name is read, and then a comma if there is one. -/
theorem parametersFrom_step {name : Token} (h : c.Faces (name :: l))
    (hname : name.kind = .identifier) (done : List Token) :
    Cursor.Faces (c.behind 1 (surplus done.length [name])) l ∧
      script.parametersFrom done c =
        (do
          if ← Position.matchToken .comma then script.parametersFrom (done ++ [name])
          else pure (done ++ [name]) : Reader (List Token))
          (c.behind 1 (surplus done.length [name])) := by
  have hnoted := h.noted (c.errors ++ surplus done.length [name])
  refine ⟨hnoted.next (by rw [hname]; decide), ?_⟩
  have hroom := h.checkRoom done.length "Can't have more than 255 parameters."
  rw [← surplus_one] at hroom
  rw [Language.parametersFrom, bind_of_ok hroom, bind_of_ok (hnoted.consume (by decide) hname _)]
  rfl

/-- Names are read up to the parenthesis behind them. -/
theorem parametersFrom {closing : Token} {names text : List Token} (hmore : MoreNames names text)
    (hclosing : closing.kind = .rightParen) :
    ∀ {c : Cursor} {name : Token} (done : List Token), name.kind = .identifier →
      c.Faces (name :: (text ++ closing :: rest)) →
      Cursor.Faces (c.behind (text.length + 1) (surplus done.length (name :: names)))
          (closing :: rest) ∧
        script.parametersFrom done c = some (.ok (done ++ name :: names),
          c.behind (text.length + 1) (surplus done.length (name :: names))) := by
  induction hmore with
  | nil =>
    intro c name done hname h
    obtain ⟨hbehind, hread⟩ := h.parametersFrom_step hname done
    have hmatch := hbehind.matchToken (show TokenKind.comma ≠ .eof by decide)
    rw [if_neg (by rw [hclosing]; decide)] at hmatch
    refine ⟨hbehind, ?_⟩
    rw [hread, bind_of_ok hmatch]
    rfl
  | @cons comma next names text hcomma hnext _ ih =>
    intro c name done hname h
    obtain ⟨hbehind, hread⟩ := h.parametersFrom_step hname done
    have hmatch := hbehind.matchToken (show TokenKind.comma ≠ .eof by decide)
    rw [if_pos hcomma] at hmatch
    obtain ⟨hend, hrest⟩ := ih (done ++ [name]) hnext (hbehind.next (by rw [hcomma]; decide))
    have hcursor : (c.behind 1 (surplus done.length [name])).next.behind (text.length + 1)
        (surplus (done ++ [name]).length (next :: names)) =
          c.behind ((comma :: next :: text).length + 1)
            (surplus done.length (name :: next :: names)) := by
      have hlength : 1 + 1 + (text.length + 1) = (comma :: next :: text).length + 1 := by
        rw [List.length_cons, List.length_cons]
        omega
      rw [Cursor.behind_next_behind, surplus_split done.length name (next :: names),
        List.length_append, List.length_singleton, hlength]
    rw [hcursor] at hend hrest
    refine ⟨hend, ?_⟩
    rw [hread, bind_of_ok hmatch]
    show script.parametersFrom (done ++ [name]) _ = _
    rw [hrest, List.append_assoc]
    rfl

/-- A list of parameters is read behind its opening parenthesis. -/
theorem parameters {opening : Token} {params text : List Token}
    (hparams : Parameters params (opening :: text)) (h : c.Faces (text ++ rest)) :
    Cursor.Faces (c.behind text.length (surplus 0 params)) rest ∧
      script.parameters c = some (.ok params, c.behind text.length (surplus 0 params)) := by
  cases hparams with
  | @none _ closing hopening hclosing =>
    have hread := h.consume (by decide) hclosing "Expect ')' after parameters."
    have hnext : c.next = c.behind [closing].length (surplus 0 []) := c.next_eq_behind
    rw [hnext] at hread
    refine ⟨hnext ▸ h.next (by rw [hclosing]; decide), ?_⟩
    rw [Language.parameters, bind_of_ok (h.check (by decide)), decide_eq_true hclosing, if_pos rfl,
      pure_bind]
    exact (bind_of_ok hread).trans rfl
  | @some _ name closing names text hopening hname hmore hclosing =>
    rw [List.cons_append, List.append_assoc] at h
    obtain ⟨hend, hread⟩ := parametersFrom hmore hclosing [] hname h
    have hclose := hend.consume (by decide) hclosing "Expect ')' after parameters."
    have hcursor : (c.behind (text.length + 1) (surplus 0 (name :: names))).next =
        c.behind (name :: (text ++ [closing])).length (surplus 0 (name :: names)) := by
      rw [List.length_cons, List.length_append, List.length_singleton]
      rfl
    have hcheck := h.check (show TokenKind.rightParen ≠ .eof by decide)
    rw [decide_eq_false (by rw [hname]; decide)] at hcheck
    rw [← hcursor]
    refine ⟨hend.next (by rw [hclosing]; decide), ?_⟩
    rw [Language.parameters, bind_of_ok hcheck, if_neg Bool.false_ne_true, bind_of_ok hread]
    exact (bind_of_ok hclose).trans rfl

end Cursor.Faces

/-- Parameters in parentheses and an arrow behind them are read to the end. -/
theorem Cursor.Faces.list {c : Cursor} {params text rest : List Token} {arrow : Token}
    (h : c.Faces (text ++ arrow :: rest)) (hparams : Parameters params text)
    (harrow : arrow.kind = .arrow) :
    (do
      let _ ← Position.advance
      let params ← script.parameters
      let _ ← Position.consume .arrow "Expect '->' after parameters."
      pure params : Reader (List Token)) c =
        some (.ok params, c.behind (text.length + 1) (surplus 0 params)) := by
  cases text with
  | nil => cases hparams
  | cons opening text =>
    have hopening := hparams.opening
    have hplain : opening.kind ≠ .eof := by rw [hopening]; decide
    obtain ⟨hend, hread⟩ := (h.next hplain).parameters hparams
    have hcursor : (c.next.behind text.length (surplus 0 params)).next =
        c.behind ((opening :: text).length + 1) (surplus 0 params) :=
      congrArg (Cursor.mk c.tokens · _ c.nextId) (by
        show c.current + 1 + text.length + 1 = c.current + (text.length + 1 + 1)
        omega)
    rw [bind_of_ok (h.advance hplain), bind_of_ok hread,
      bind_of_ok (hend.consume (by decide) harrow _), hcursor]
    rfl

/-- A head of an arrow function is read as a whole, and nothing is read where there is none. -/
theorem Cursor.Faces.arrowParameters {c : Cursor} {l : List Token} (h : c.Faces l) :
    (∀ params head rest, l = head ++ rest → ArrowHead params head →
      script.arrowParameters c =
        some (.ok (some params), c.behind head.length (surplus 0 params))) ∧
    ((∀ params head rest, l = head ++ rest → ¬ ArrowHead params head) →
      script.arrowParameters c = some (.ok none, c)) := by
  match l, h with
  | [], h => exact nomatch h.ends
  | t :: l, h =>
    have hmatch := h.matchToken (show TokenKind.arrow ≠ .eof by decide)
    have hahead := h.arrowAhead
    constructor
    · intro params head rest hl hhead
      cases hhead with
      | @bare arrow harrow =>
        obtain ⟨rfl, rfl⟩ := List.cons.inj hl
        rw [if_pos harrow] at hmatch
        rw [Language.arrowParameters, bind_of_ok hmatch, if_pos rfl]
        exact congrArg (fun c' => some (Except.ok (some []), c')) c.next_eq_behind
      | @list _ text arrow hparams harrow =>
        have hsplit : t :: l = text ++ arrow :: rest := by rw [hl]; simp
        have hlength : (text ++ [arrow]).length = text.length + 1 := List.length_append
        have hstarts := startsArrow_iff.mpr ⟨_, _, _, _, hsplit, hparams, harrow⟩
        have hopening : t.kind ≠ .arrow := by
          cases text with
          | nil => cases hparams
          | cons opening text =>
            obtain ⟨rfl, -⟩ := List.cons.inj hsplit
            rw [hparams.opening]
            decide
        rw [if_neg hopening] at hmatch
        rw [hstarts] at hahead
        have hread := bind_of_ok (f := fun params => pure (some params))
          (Cursor.Faces.list (hsplit ▸ h) hparams harrow)
        simp only [bind_assoc, pure_bind] at hread
        rw [Language.arrowParameters, bind_of_ok hmatch, if_neg Bool.false_ne_true,
          bind_of_ok hahead, if_pos rfl, hlength, hread]
        rfl
    · intro hnone
      obtain ⟨harrow, hstarts⟩ := headless_of_not hnone
      rw [if_neg (harrow t rfl)] at hmatch
      rw [hstarts] at hahead
      rw [Language.arrowParameters, bind_of_ok hmatch, if_neg Bool.false_ne_true,
        bind_of_ok hahead]
      rfl

end Position

/-! ## By the tokens that are left -/

/-- From one state to another, tokens were read up to `rest` and errors were noted. -/
structure Passed (s s' : ParseState) (rest : List Token) (errors : List SyntaxError) : Prop where
  rest : s'.rest = rest
  stop : s'.stop = s.stop
  errors : s'.errors = errors.reverse ++ s.errors
  nextId : s'.nextId = s.nextId

namespace Passed

variable {s s' s'' : ParseState} {t : Token} {l l' rest names text : List Token}
  {es fs : List SyntaxError} {kind : TokenKind}

/-- Nothing was read and nothing noted. -/
theorem refl (hs : s.rest = l) : Passed s s l [] := ⟨hs, rfl, rfl, rfl⟩

/-- What was read and noted in two parts was read and noted. -/
theorem trans (h : Passed s s' l es) (h' : Passed s' s'' l' fs) : Passed s s'' l' (es ++ fs) where
  rest := h'.rest
  stop := h'.stop.trans h.stop
  errors := by rw [h'.errors, h.errors, List.reverse_append, List.append_assoc]
  nextId := h'.nextId.trans h.nextId

/-- The first token was read, and nothing noted. -/
theorem tail (hs : s.rest = t :: l) : Passed s s.tail l [] :=
  ⟨congrArg List.tail hs, rfl, rfl, rfl⟩

/-- A token that is demanded is read if it comes next. -/
theorem expect (hs : s.rest = t :: l) (ht : t.kind = kind) (message : String) :
    Parser.expect kind message s = .ok t s.tail := by
  have hread := acceptAny?_take hs (List.mem_singleton.mpr ht)
  exact (bind_after hread).trans rfl

theorem checkRoom (hs : s.rest = t :: l) (count : Nat) (message : String) :
    ∃ s', Parser.checkRoom count message s = .ok () s' ∧
      Passed s s' (t :: l) (if count ≥ maxArguments then [⟨t, message⟩] else []) := by
  unfold Parser.checkRoom
  split
  · have hpeek : peek s = .ok t s := by
      show EStateM.Result.ok (s.rest.head?.getD s.stop) s = _
      rw [hs]
      rfl
    exact ⟨_, bind_after hpeek, hs, rfl, rfl, rfl⟩
  · exact ⟨s, rfl, .refl hs⟩

/-- The production of one parameter reads a name. -/
theorem parameter (hs : s.rest = t :: l) (ht : t.kind = .identifier) (count : Nat) :
    ∃ s', Parser.parameter count s = .ok t s' ∧ Passed s s' l (surplus count [t]) := by
  obtain ⟨s', hroom, hpassed⟩ := checkRoom hs count "Can't have more than 255 parameters."
  have hread := expect hpassed.rest ht "Expect parameter name."
  refine ⟨s'.tail, (bind_after hroom).trans hread, ?_⟩
  have hboth := hpassed.trans (tail hpassed.rest)
  rwa [List.append_nil, ← surplus_one] at hboth

/-- Names are read up to the parenthesis behind them. The bound on the rounds is large enough, since
each name has a comma in front of it. -/
theorem moreItems {closing : Token} (hmore : MoreNames names text)
    (hclosing : closing.kind = .rightParen) :
    ∀ {s : ParseState} {bound : Nat} (done : List Token), text.length ≤ bound →
      s.rest = text ++ closing :: rest →
      ∃ s', Parser.moreItems Parser.parameter bound done s = .ok (done.reverse ++ names) s' ∧
        Passed s s' (closing :: rest) (surplus done.length names) := by
  induction hmore with
  | nil =>
    intro s bound done _ hs
    rw [List.append_nil, surplus_nil]
    refine ⟨s, ?_, .refl hs⟩
    cases bound with
    | zero => rfl
    | succ bound =>
      have hskip : accept? .comma s = .ok none s := by
        refine acceptAny?_skip hs ?_
        rw [hclosing]
        decide
      exact (bind_after hskip).trans rfl
  | @cons comma name names text hcomma hname _ ih =>
    intro s bound done hbound hs
    cases bound with
    | zero => cases hbound
    | succ bound =>
      have hread : accept? .comma s = .ok (some comma) s.tail :=
        acceptAny?_take hs (List.mem_singleton.mpr hcomma)
      have htail := tail hs
      obtain ⟨s₁, hone, hpassed⟩ := parameter htail.rest hname done.length
      obtain ⟨s₂, hrest, hpassed'⟩ :=
        ih (name :: done) (Nat.le_of_succ_le (Nat.le_of_succ_le_succ hbound)) hpassed.rest
      refine ⟨s₂, ?_, ?_⟩
      · rw [List.reverse_cons, List.append_assoc] at hrest
        exact (bind_after hread).trans ((bind_after hone).trans hrest)
      · rw [surplus_split]
        exact (htail.trans hpassed).trans hpassed'

/-- A list of parameters is read behind its opening parenthesis. -/
theorem parameters {opening : Token} {params : List Token}
    (hparams : Parameters params (opening :: text)) (hs : s.rest = text ++ rest) :
    ∃ s', Parser.parameters s = .ok params s' ∧ Passed s s' rest (surplus 0 params) := by
  cases hparams with
  | @none _ closing _ hclosing =>
    have hcheck : check .rightParen s = .ok true s := by
      show EStateM.Result.ok (s.rest.head?.any _) s = _
      rw [hs]
      exact congrArg (EStateM.Result.ok · s) (decide_eq_true hclosing)
    have hread := expect hs hclosing "Expect ')' after parameters."
    refine ⟨s.tail, ?_, tail hs⟩
    exact (bind_after hcheck).trans ((bind_after hread).trans rfl)
  | @some _ name closing names text _ hname hmore hclosing =>
    rw [List.cons_append, List.append_assoc] at hs
    have hcheck : check .rightParen s = .ok false s := by
      show EStateM.Result.ok (s.rest.head?.any _) s = _
      rw [hs]
      exact congrArg (EStateM.Result.ok · s) (decide_eq_false (by rw [hname]; decide))
    obtain ⟨s₁, hone, hpassed⟩ := parameter hs hname 0
    have hbound : text.length ≤ s₁.count := by
      rw [s₁.count_eq, hpassed.rest, List.length_append]
      exact Nat.le_add_right _ _
    obtain ⟨s₂, hmany, hpassed'⟩ := moreItems hmore hclosing [name] hbound hpassed.rest
    have hremaining : remaining s₁ = .ok s₁.count s₁ := rfl
    have hitems : commaList Parser.parameter s = .ok (name :: names) s₂ :=
      (bind_after hone).trans ((bind_after hremaining).trans hmany)
    have hread := expect hpassed'.rest hclosing "Expect ')' after parameters."
    refine ⟨s₂.tail, ?_, ?_⟩
    · exact (bind_after hcheck).trans ((bind_after hitems).trans ((bind_after hread).trans rfl))
    · have hall := (hpassed.trans hpassed').trans (tail hpassed'.rest)
      rw [List.append_nil] at hall
      rw [surplus_split]
      exact hall

end Passed

/-- The production reads a head of an arrow function as a whole, and nothing where there is none. -/
theorem arrowHead?_cases (s : ParseState) :
    (∀ params head rest, s.rest = head ++ rest → ArrowHead params head →
      ∃ arrow s', arrowHead? s = .ok (some (params, arrow)) s' ∧ head.getLast? = some arrow ∧
        Passed s s' rest (surplus 0 params)) ∧
    ((∀ params head rest, s.rest = head ++ rest → ¬ ArrowHead params head) →
      arrowHead? s = .ok none s) := by
  constructor
  · intro params head rest hs hhead
    cases hhead with
    | @bare arrow harrow =>
      have hread : accept? .arrow s = .ok (some arrow) s.tail :=
        acceptAny?_take hs (List.mem_singleton.mpr harrow)
      exact ⟨arrow, s.tail, (bind_after hread).trans rfl, rfl, .tail hs⟩
    | @list _ text arrow hparams harrow =>
      rw [List.append_assoc, List.singleton_append] at hs
      cases text with
      | nil => cases hparams
      | cons opening text =>
        have hskip : accept? .arrow s = .ok none s := by
          refine acceptAny?_skip hs ?_
          rw [hparams.opening]
          decide
        have hstarts := startsArrow_iff.mpr ⟨_, _, _, _, hs, hparams, harrow⟩
        have hopen := Passed.expect hs hparams.opening "Expect '(' before parameters."
        obtain ⟨s₁, hread, hpassed⟩ := Passed.parameters hparams (Passed.tail hs).rest
        have hclose := Passed.expect hpassed.rest harrow "Expect '->' after parameters."
        refine ⟨arrow, s₁.tail, ?_, List.getLast?_concat, ?_⟩
        · refine (bind_after hskip).trans ?_
          show (if startsArrow s.rest = true then _ else _ : Parser (Option _)) s = _
          rw [if_pos hstarts, bind_after hopen, bind_after hread, bind_after hclose]
          rfl
        · have hall := ((Passed.tail hs).trans hpassed).trans (.tail hpassed.rest)
          rwa [List.nil_append, List.append_nil] at hall
  · intro hnone
    obtain ⟨harrow, hstarts⟩ := headless_of_not hnone
    have hskip : accept? .arrow s = .ok none s := by
      cases hs : s.rest with
      | nil => exact acceptAny?_nil hs
      | cons t l =>
        rw [hs] at harrow
        exact acceptAny?_skip hs fun hkind => harrow t rfl (List.mem_singleton.mp hkind)
    refine (bind_after hskip).trans ?_
    show (if startsArrow s.rest = true then _ else pure none : Parser (Option _)) s = _
    rw [hstarts]
    rfl

/-! ## Every position -/

/-- A source that is read by position has an end behind its tokens. -/
theorem Position.start_ends (firstId : ExprId) (tokens : List Token) :
    (Position.start firstId tokens).tokens.getLast?.map (·.kind) = some .eof := by
  unfold Position.start
  dsimp only
  split
  · next hends => exact hends
  · rw [List.getLast?_concat]
    rfl

/-- Inside the tokens of a source the position faces those that are left. -/
theorem Position.Cursor.faces {c : Cursor} (hends : c.tokens.getLast?.map (·.kind) = some .eof)
    (hinside : c.current < c.tokens.length) : c.Faces (c.tokens.drop c.current) := by
  refine ⟨rfl, ?_⟩
  rw [List.getLast?_drop, if_neg (Nat.not_le_of_lt hinside)]
  exact hends

/-- At every position of every list of tokens, a head of an arrow function is recognised exactly
where one stands, and then just its tokens are read. Elsewhere there is no head, nothing is read and
no error is noted. What the look ahead has accepted is read without failing. The parser that takes
tokens from the front of a list does the same. -/
theorem arrowHead_exact {firstId : ExprId} {tokens : List Token} {c : Cursor}
    (htokens : c.tokens = (Position.start firstId tokens).tokens)
    (hinside : c.current < c.tokens.length) :
    (∀ params c', script.arrowParameters c = some (.ok (some params), c') ↔
      ∃ head rest, c.tokens.drop c.current = head ++ rest ∧ ArrowHead params head ∧
        c' = c.behind head.length (surplus 0 params)) ∧
    ((∀ params head rest, c.tokens.drop c.current = head ++ rest → ¬ ArrowHead params head) →
      script.arrowParameters c = some (.ok none, c)) ∧
    (∃ ahead, script.arrowAhead c = some (.ok ahead, c) ∧
      (ahead = true → ∃ params c',
        (do
          let _ ← Position.advance
          let params ← script.parameters
          let _ ← Position.consume .arrow "Expect '->' after parameters."
          pure params : Reader (List Token)) c = some (.ok params, c'))) ∧
    ∀ s : ParseState,
      (∀ params head rest, s.rest = head ++ rest → ArrowHead params head →
        ∃ arrow s', arrowHead? s = .ok (some (params, arrow)) s' ∧ head.getLast? = some arrow ∧
          Passed s s' rest (surplus 0 params)) ∧
      ((∀ params head rest, s.rest = head ++ rest → ¬ ArrowHead params head) →
        arrowHead? s = .ok none s) := by
  have hfaces := Position.Cursor.faces (htokens ▸ Position.start_ends firstId tokens) hinside
  obtain ⟨hfound, hmissing⟩ := hfaces.arrowParameters
  refine ⟨fun params c' => ⟨fun hread => ?_, ?_⟩, hmissing,
    ⟨_, hfaces.arrowAhead, fun hstarts => ?_⟩, arrowHead?_cases⟩
  · by_cases hhead : ∃ params head rest, c.tokens.drop c.current = head ++ rest ∧
        ArrowHead params head
    · obtain ⟨params', head, rest, hsplit, hhead⟩ := hhead
      cases hread.symm.trans (hfound params' head rest hsplit hhead)
      exact ⟨head, rest, hsplit, hhead, rfl⟩
    · have hnone := hmissing fun params head rest hsplit h => hhead ⟨params, head, rest, hsplit, h⟩
      cases hread.symm.trans hnone
  · rintro ⟨head, rest, hsplit, hhead, rfl⟩
    exact hfound params head rest hsplit hhead
  · obtain ⟨params, text, arrow, rest, hsplit, hparams, harrow⟩ := startsArrow_iff.mp hstarts
    exact ⟨params, _, (hsplit ▸ hfaces).list hparams harrow⟩

/-- Two parentheses, two names with a comma between them, a parenthesis and an arrow. -/
def nestedHead : List Token :=
  [Writing.mark .leftParen, Writing.mark .leftParen, Token.named "a" 1, Writing.mark .comma,
    Token.named "b" 1, Writing.mark .rightParen, Writing.mark .arrow]

/-- The head begins at the second parenthesis and not at the first one. -/
theorem arrowHead_exact_nested :
    script.arrowParameters { Position.start 0 nestedHead with current := 1 } =
        some (.ok (some [Token.named "a" 1, Token.named "b" 1]),
          { Position.start 0 nestedHead with current := 7 }) ∧
      script.arrowParameters (Position.start 0 nestedHead) =
        some (.ok none, Position.start 0 nestedHead) := by
  have hsecond := (@arrowHead_exact 0 nestedHead { Position.start 0 nestedHead with current := 1 }
    rfl (by decide)).1
  have hfirst := (@arrowHead_exact 0 nestedHead (Position.start 0 nestedHead) rfl (by decide)).2.1
  constructor
  · have hparams : Parameters [Token.named "a" 1, Token.named "b" 1]
        [Writing.mark .leftParen, Token.named "a" 1, Writing.mark .comma, Token.named "b" 1,
          Writing.mark .rightParen] :=
      .some rfl rfl (.cons rfl rfl .nil) rfl
    exact (hsecond _ _).mpr ⟨_, [Token.endOf 0], rfl, .list hparams rfl, rfl⟩
  · refine hfirst fun params head rest hsplit hhead => ?_
    cases hhead with
    | bare harrow =>
      obtain ⟨rfl, -⟩ := List.cons.inj hsplit
      cases harrow
    | list hparams harrow =>
      rw [List.append_assoc, List.singleton_append] at hsplit
      have hstarts := startsArrow_iff.mpr ⟨_, _, _, rest, hsplit, hparams, harrow⟩
      exact absurd hstarts (by decide)

end ScriptEngine.Parser
