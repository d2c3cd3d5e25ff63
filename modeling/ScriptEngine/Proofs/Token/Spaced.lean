import ScriptEngine.Proofs.Token.Joining
import ScriptEngine.Proofs.Token.Longest

/-!
# Tokens apart from their surroundings

What a token is depends on its own text alone. A sign that could begin a pair stands alone when a
space follows, a number or a word does not reach over a space, and a string ends where it ended
before, whatever stands inside it. So a token that was cut off some text is cut off again from its
own text with a space behind it, with the same kind and the same value (`Cuts.spaced`), and the
tokens of a source are those of their texts with single spaces between them (`scan_spaced`).
-/

namespace ScriptEngine.Token

variable {line : Nat} {c : Char} {text rest v : List Char} {p : Piece}

/-- A token without the line on which it stands. -/
def unplaced (t : Token) : TokenKind × String × Option TokenLiteral :=
  (t.kind, t.lexeme, t.literal)

/-! ## One token -/

/-- No pair of signs has a space in it. -/
theorem space_ne_second {second : Char} {pair alone : TokenKind}
    (h : paired? c = some (second, pair, alone)) : ' ' ≠ second := by
  unfold paired? at h
  split at h <;> cases h <;> decide

/-- A fraction ends where a space stands. -/
theorem takeFraction_spaced (s v : List Char) :
    takeFraction ((takeFraction s).1 ++ ' ' :: v) = ((takeFraction s).1, ' ' :: v) := by
  rcases takeFraction_cases s with hnone | ⟨es, hne, hes, hsome⟩
  · rw [hnone]
    exact takeFraction_of_ne (by decide) v
  · obtain ⟨e, es, rfl⟩ := List.exists_cons_of_ne_nil hne
    obtain ⟨he, hes⟩ := List.forall_mem_cons.mp hes
    rw [hsome, List.cons_append, List.cons_append, takeFraction, if_pos he,
      List.takeWhile_append_of_pos hes, List.dropWhile_append_of_pos hes]
    simp

/-- What a text begins with ends again where it ended. -/
theorem takeWhile_kept {α : Type} {p : α → Bool} {a : α} (ha : p a = false) (s v : List α) :
    (s.takeWhile p ++ a :: v).takeWhile p = s.takeWhile p ∧
      (s.takeWhile p ++ a :: v).dropWhile p = a :: v := by
  have hall : ∀ b ∈ s.takeWhile p, p b :=
    fun b hb => List.all_eq_true.mp List.all_takeWhile b hb
  rw [List.takeWhile_append_of_pos hall, List.dropWhile_append_of_pos hall]
  simp [ha]

/-- The digits of a number end where its fraction or a space stands. -/
theorem takeWhile_digits_spaced (s v : List Char) :
    (s.takeWhile Char.isDigit ++ (takeFraction (s.dropWhile Char.isDigit)).1 ++
        ' ' :: v).takeWhile Char.isDigit = s.takeWhile Char.isDigit ∧
      (s.takeWhile Char.isDigit ++ (takeFraction (s.dropWhile Char.isDigit)).1 ++
        ' ' :: v).dropWhile Char.isDigit =
          (takeFraction (s.dropWhile Char.isDigit)).1 ++ ' ' :: v := by
  have hdigits : ∀ d ∈ s.takeWhile Char.isDigit, d.isDigit :=
    fun d hd => List.all_eq_true.mp List.all_takeWhile d hd
  rw [List.append_assoc, List.takeWhile_append_of_pos hdigits, List.dropWhile_append_of_pos hdigits]
  rcases takeFraction_cases (s.dropWhile Char.isDigit) with hnone | ⟨es, -, -, hsome⟩
  · rw [hnone]
    exact ⟨List.append_nil _, rfl⟩
  · rw [hsome]
    exact ⟨List.append_nil _, rfl⟩

/-- A token that was cut off some text is cut off again from its own text and a space, and the
space is left. -/
theorem Cuts.spaced {kind : TokenKind} {literal : Option TokenLiteral} (h : Cuts line text p rest)
    (hp : p.kind = .token kind literal) (line' : Nat) (v : List Char) :
    ∃ q, Cuts line' (p.text ++ ' ' :: v) q (' ' :: v) ∧ q.kind = p.kind ∧ q.text = p.text := by
  cases h with
  | single _ h => exact ⟨_, .single (' ' :: v) h, rfl, rfl⟩
  | pair _ h => exact ⟨_, .pair (' ' :: v) h, rfl, rfl⟩
  | alone h =>
    exact ⟨_, .alone h fun hhead => space_ne_second h (Option.some.inj hhead), rfl, rfl⟩
  | slash => exact ⟨_, .slash fun hhead => absurd (Option.some.inj hhead) (by decide), rfl, rfl⟩
  | @string c _ body _ hc h =>
    obtain ⟨hquotes, hwhole⟩ := splitQuoted_first h
    have htext : body ++ [c] ++ ' ' :: v = body ++ c :: ' ' :: v := by simp
    exact ⟨_, .string hc (splitQuoted_of_quotesEscaped hquotes hwhole htext), rfl, rfl⟩
  | @number c rest _ hc htext =>
    obtain ⟨htake, hdrop⟩ := takeWhile_digits_spaced rest v
    have hcut := @Cuts.number line' c (rest.takeWhile Char.isDigit ++
      (takeFraction (rest.dropWhile Char.isDigit)).1 ++ ' ' :: v) _ hc rfl
    rw [htake, hdrop, takeFraction_spaced] at hcut
    subst htext
    exact ⟨_, hcut, rfl, rfl⟩
  | @word c rest _ hc htext =>
    obtain ⟨htake, hdrop⟩ := takeWhile_kept (p := isNameChar) (a := ' ') (by decide) rest v
    have hcut := @Cuts.word line' c (rest.takeWhile isNameChar ++ ' ' :: v) _ hc rfl
    rw [htake, hdrop] at hcut
    subst htext
    exact ⟨_, hcut, rfl, rfl⟩
  | comment | lineBreak | space | unterminated | unexpected => cases hp

/-! ## All tokens of a source -/

/-- What is cut off is the first of the pieces. -/
theorem Cuts.pieces_eq (h : Cuts line text p rest) :
    pieces line text = p :: pieces p.line rest := by
  obtain ⟨c, s, rfl⟩ : ∃ c s, text = c :: s := by cases h <;> exact ⟨_, _, rfl⟩
  rw [pieces, h.nextPiece_eq]

/-- The texts of tokens, each with a space behind it. -/
def spaced (ts : List Token) : List Char := ts.flatMap fun t => t.lexeme.toList ++ [' ']

/-- A piece with the kind and the text of a token is that token, on its own line. -/
theorem Piece.token?_of_kind {t : Token} (hkind : p.kind = .token t.kind t.literal)
    (htext : p.text = t.lexeme.toList) : p.token? = some { t with line := p.line } := by
  unfold Piece.token?
  rw [hkind, htext, String.ofList_toList]

/-- A piece that is a token is no error. -/
theorem Piece.error?_of_kind {kind : TokenKind} {literal : Option TokenLiteral}
    (hkind : p.kind = .token kind literal) : p.error? = none := by
  unfold Piece.error?
  rw [hkind]

/-- Tokens that come from anywhere are read back from their texts with spaces behind them. -/
theorem pieces_spaced {ts : List Token}
    (h : ∀ t ∈ ts, ∃ line s, ∃ p ∈ pieces line s, p.token? = some t) (line : Nat) :
    (∀ p ∈ pieces line (spaced ts), p.error? = none) ∧
      ((pieces line (spaced ts)).filterMap Piece.token?).map unplaced = ts.map unplaced := by
  induction ts generalizing line with
  | nil =>
    rw [spaced, List.flatMap_nil, pieces]
    exact ⟨fun p hp => (List.not_mem_nil hp).elim, rfl⟩
  | cons t ts ih =>
    obtain ⟨⟨line₀, s, p, hp, ht⟩, hts⟩ := List.forall_mem_cons.mp h
    obtain ⟨_, _, _, hcut₀⟩ := cuts_of_mem hp
    obtain ⟨hkind, htext, -⟩ := Piece.of_token? ht
    obtain ⟨q, hcut, hqkind, hqtext⟩ := hcut₀.spaced hkind line (spaced ts)
    have hsplit : spaced (t :: ts) = p.text ++ ' ' :: spaced ts := by
      rw [htext, spaced, List.flatMap_cons, List.append_assoc]
      rfl
    have hspace : Cuts q.line (' ' :: spaced ts) ⟨.blank, [' '], q.line⟩ (spaced ts) :=
      .space _ (.inl rfl)
    obtain ⟨herrors, htokens⟩ := ih hts q.line
    rw [hsplit, hcut.pieces_eq, hspace.pieces_eq]
    constructor
    · refine List.forall_mem_cons.mpr ⟨Piece.error?_of_kind (hqkind.trans hkind), ?_⟩
      exact List.forall_mem_cons.mpr ⟨rfl, herrors⟩
    · rw [List.filterMap_cons, Piece.token?_of_kind (hqkind.trans hkind) (hqtext.trans htext)]
      exact congrArg (unplaced t :: ·) htokens

/-- Words with a blank behind each are words with blanks between them and one behind. -/
theorem intercalate_spaces (words : List (List Char)) :
    [' '].intercalate (words ++ [[]]) = words.flatMap (· ++ [' ']) := by
  induction words with
  | nil => rfl
  | cons w words ih =>
    rw [List.flatMap_cons, ← ih]
    cases words with
    | nil => simp
    | cons w' words => rw [List.cons_append, List.cons_append, List.intercalate_cons_cons]

/-- The end of a source has no text, so a space stands behind every other token. -/
theorem toList_joined (ts : List Token) (line : Nat) :
    (" ".intercalate ((ts ++ [endOf line]).map (·.lexeme))).toList = spaced ts := by
  rw [String.toList_intercalate, List.map_append, List.map_append]
  show [' '].intercalate (_ ++ [[]]) = _
  rw [intercalate_spaces, spaced, List.flatMap_map, List.flatMap_map]

/-- The texts of the tokens of a source with single spaces between them are read as the same
tokens: the kinds, the texts and the values are the same, and only the lines may differ. -/
theorem scan_spaced {source : String} {tokens : List Token} (h : scan source = .ok tokens) :
    ∃ again, scan (" ".intercalate (tokens.map (·.lexeme))) = .ok again ∧
      again.map unplaced = tokens.map unplaced := by
  rcases scan_cases source with ⟨-, hok⟩ | ⟨-, herror⟩
  · cases h.symm.trans hok
    have hpieces : ∀ t ∈ (pieces 1 source.toList).filterMap Piece.token?,
        ∃ line s, ∃ p ∈ pieces line s, p.token? = some t :=
      fun t ht => ⟨1, source.toList, List.mem_filterMap.mp ht⟩
    obtain ⟨hnone, hagain⟩ := pieces_spaced hpieces 1
    rw [← toList_joined _ (endLine source)] at hnone hagain
    generalize " ".intercalate _ = joined at hnone hagain ⊢
    rcases scan_cases joined with ⟨-, hscan⟩ | ⟨hsome, -⟩
    · refine ⟨_, hscan, ?_⟩
      rw [List.map_append, List.map_append, hagain]
      rfl
    · exact absurd (List.filterMap_eq_nil_iff.mpr hnone) hsome
  · cases h.symm.trans herror

/-- Signs that could form other pairs, and a string with a comment mark, an unknown escape and a
line break in it. -/
theorem scan_spaced_signs :
    ∃ tokens again, scan "a!=='//\\q\n'" = .ok tokens ∧
      " ".intercalate (tokens.map (·.lexeme)) = "a != = '//\\q\n' " ∧
      scan "a != = '//\\q\n' " = .ok again ∧ again.map unplaced = tokens.map unplaced := by
  have hscan : scan "a!=='//\\q\n'" = .ok [⟨.identifier, "a", none, 1⟩,
      ⟨.bangEqual, "!=", none, 1⟩, ⟨.equal, "=", none, 1⟩,
      ⟨.string, "'//\\q\n'", some (.string "//\\q\n"), 2⟩, endOf 2] := by
    cbv
  obtain ⟨again, hagain, hsame⟩ := scan_spaced hscan
  exact ⟨_, again, hscan, by decide, hagain, hsame⟩

end ScriptEngine.Token
