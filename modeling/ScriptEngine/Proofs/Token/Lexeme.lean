import ScriptEngine.Proofs.Token.Escape
import ScriptEngine.Proofs.Token.Piece

/-!
# The texts of pieces

Most kinds of token have a fixed text, two of them have two (`TokenKind.spellings`). Names, numbers
and strings are told by their form, and a name is none of the fixed texts (`Lexeme`). Every piece
that is cut off a text is a whole token, a blank, a comment or the text of an error (`Cuts.fits`).
-/

namespace ScriptEngine

/-- The fixed texts of a kind of token. -/
def TokenKind.spellings : TokenKind → List String
  | .leftParen => ["("]
  | .rightParen => [")"]
  | .leftBrace => ["\x7b"]
  | .rightBrace => ["\x7d"]
  | .leftBracket => ["["]
  | .rightBracket => ["]"]
  | .comma => [","]
  | .dot => ["."]
  | .colon => [":"]
  | .semicolon => [";"]
  | .caret => ["^"]
  | .percent => ["%"]
  | .star => ["*"]
  | .slash => ["/"]
  | .plus => ["+"]
  | .minus => ["-"]
  | .pipe => ["|"]
  | .ampersand => ["&"]
  | .bang => ["!"]
  | .bangEqual => ["!="]
  | .equal => ["="]
  | .equalEqual => ["=="]
  | .greater => [">"]
  | .greaterEqual => [">="]
  | .less => ["<"]
  | .lessEqual => ["<="]
  | .arrow => ["->"]
  | .or => ["||", "or"]
  | .and => ["&&", "and"]
  | .trueWord => ["true"]
  | .falseWord => ["false"]
  | .nullWord => ["null"]
  | .varWord => ["var"]
  | .constWord => ["const"]
  | .printWord => ["print"]
  | .ifWord => ["if"]
  | .elseWord => ["else"]
  | .whileWord => ["while"]
  | .forWord => ["for"]
  | .functionWord => ["function"]
  | .returnWord => ["return"]
  | .classWord => ["class"]
  | .thisWord => ["this"]
  | .superWord => ["super"]
  | .extendsWord => ["extends"]
  | .fromWord => ["from"]
  | .importWord => ["import"]
  | .asWord => ["as"]
  | .exportWord => ["export"]
  | .tryWord => ["try"]
  | .catchWord => ["catch"]
  | .finallyWord => ["finally"]
  | .throwWord => ["throw"]
  | .identifier => []
  | .string => []
  | .number => []
  | .eof => []

namespace Token

variable {line : Nat} {c second : Char} {s text rest : List Char} {p : Piece}
  {kind pair alone : TokenKind}

/-- A text that spells a token of a kind. -/
inductive Lexeme : TokenKind → List Char → Prop where
  | fixed {kind : TokenKind} {text : List Char} (h : String.ofList text ∈ kind.spellings) :
      Lexeme kind text
  | name {c : Char} {s : List Char} (hc : isNameStart c) (hs : ∀ d ∈ s, isNameChar d)
      (hfree : ∀ kind : TokenKind, String.ofList (c :: s) ∉ kind.spellings) :
      Lexeme .identifier (c :: s)
  | integer {ds : List Char} (hne : ds ≠ []) (hds : ∀ d ∈ ds, d.isDigit) : Lexeme .number ds
  | decimal {ds es : List Char} (hne : ds ≠ []) (hds : ∀ d ∈ ds, d.isDigit) (hne' : es ≠ [])
      (hes : ∀ d ∈ es, d.isDigit) : Lexeme .number (ds ++ '.' :: es)
  | string {quote : Char} {body : List Char} (hquote : isQuote quote)
      (hquotes : QuotesEscaped quote body) (hwhole : Whole body) :
      Lexeme .string (quote :: (body ++ [quote]))

/-- The end of a source has no text. -/
theorem not_lexeme_eof (text : List Char) : ¬ Lexeme .eof text := by
  intro h
  cases h with
  | fixed h => cases h

/-! ## Fixed texts -/

/-- A character that is a token is a spelling of it. -/
theorem mem_spellings_single (h : single? c = some kind) : String.ofList [c] ∈ kind.spellings := by
  unfold single? at h
  split at h <;> cases h <;> decide

theorem mem_spellings_paired (h : paired? c = some (second, pair, alone)) :
    String.ofList [c, second] ∈ pair.spellings ∧ String.ofList [c] ∈ alone.spellings := by
  unfold paired? at h
  split at h <;> cases h <;> decide

/-- A keyword is a spelling of its token. -/
theorem mem_spellings_keyword {word : String} (h : TokenKind.keyword? word = some kind) :
    word ∈ kind.spellings := by
  unfold TokenKind.keyword? at h
  split at h <;> cases h <;> decide

/-- What begins like a name and has a fixed text is a reserved word. -/
theorem not_mem_spellings_word (hc : isNameStart c)
    (h : TokenKind.keyword? (String.ofList (c :: s)) = none) (kind : TokenKind) :
    String.ofList (c :: s) ∉ kind.spellings := by
  intro hmem
  -- A fixed text is a reserved word or begins with another character.
  have hfixed : kind.spellings.all (fun word => (TokenKind.keyword? word).isSome ||
      word.toList.head?.any (!isNameStart ·)) := by
    cases kind <;> decide
  have hword := List.all_eq_true.mp hfixed _ hmem
  rw [h, String.toList_ofList] at hword
  change (false || !isNameStart c) = true at hword
  rw [hc] at hword
  cases hword

/-! ## Numbers -/

/-- A fraction is missing, or a point with digits behind it. -/
theorem takeFraction_cases (s : List Char) :
    (takeFraction s).1 = [] ∨
      ∃ es, es ≠ [] ∧ (∀ d ∈ es, d.isDigit) ∧ (takeFraction s).1 = '.' :: es := by
  unfold takeFraction
  split
  · next d rest =>
    split
    · next hd =>
      refine .inr ⟨d :: rest.takeWhile Char.isDigit, by simp, ?_, rfl⟩
      intro x hx
      rcases List.mem_cons.mp hx with rfl | hx
      · exact hd
      · exact List.all_eq_true.mp List.all_takeWhile x hx
    · exact .inl rfl
  · exact .inl rfl

/-- Digits with a fraction behind them are the text of a number. -/
theorem lexeme_number (hc : c.isDigit) (s : List Char) :
    Lexeme .number (c :: s.takeWhile Char.isDigit ++
      (takeFraction (s.dropWhile Char.isDigit)).1) := by
  have hdigits : ∀ d ∈ c :: s.takeWhile Char.isDigit, d.isDigit := by
    intro d hd
    rcases List.mem_cons.mp hd with rfl | hd
    · exact hc
    · exact List.all_eq_true.mp List.all_takeWhile d hd
  rcases takeFraction_cases (s.dropWhile Char.isDigit) with hnone | ⟨es, hne, hes, hsome⟩
  · rw [hnone, List.append_nil]
    exact .integer (by simp) hdigits
  · rw [hsome]
    exact .decimal (by simp) hdigits hne hes

/-- Digits are taken up to a point or the end. -/
theorem takeWhile_digits {ds s : List Char} (hds : ∀ d ∈ ds, d.isDigit)
    (hs : s = [] ∨ s.head? = some '.') :
    (ds ++ s).takeWhile Char.isDigit = ds ∧ (ds ++ s).dropWhile Char.isDigit = s := by
  rw [List.takeWhile_append_of_pos hds, List.dropWhile_append_of_pos hds]
  rcases hs with rfl | hs
  · exact ⟨List.append_nil ds, rfl⟩
  · obtain ⟨es, rfl⟩ := List.head?_eq_some_iff.mp hs
    exact ⟨List.append_nil ds, rfl⟩

/-- The text of a number denotes one. -/
theorem Lexeme.unsigned? (h : Lexeme .number text) :
    Decimal.unsigned? text = some (numberValue text) := by
  have hsome : ∃ x, Decimal.unsigned? text = some x := by
    unfold Decimal.unsigned?
    cases h with
    | fixed h => cases h
    | integer hne hds =>
      obtain ⟨htake, hdrop⟩ := takeWhile_digits hds (.inl rfl)
      rw [List.append_nil] at htake hdrop
      simp [htake, hdrop, hne, Decimal.takeFraction, Decimal.exponent?]
    | @decimal ds es hne hds hne' hes =>
      obtain ⟨htake, hdrop⟩ := takeWhile_digits (s := '.' :: es) hds (.inr rfl)
      obtain ⟨htake', hdrop'⟩ := takeWhile_digits hes (.inl rfl)
      rw [List.append_nil] at htake' hdrop'
      simp [htake, hdrop, htake', hdrop', hne, Decimal.takeFraction, Decimal.exponent?]
  obtain ⟨x, hx⟩ := hsome
  unfold numberValue
  rw [hx]
  rfl

/-! ## Errors -/

/-- The character begins a fixed text. -/
def beginsFixed (c : Char) : Bool :=
  (single? c).isSome || (paired? c).isSome || c == '/' || isNameStart c

/-- Every spelling begins with a character that may begin one. -/
theorem beginsFixed_of_mem_spellings {word : String} (h : word ∈ kind.spellings) :
    word.toList.head?.any beginsFixed := by
  have hall : kind.spellings.all fun word => word.toList.head?.any beginsFixed := by
    cases kind <;> decide
  exact List.all_eq_true.mp hall word h

theorem Unexpected.not_beginsFixed (h : Unexpected c) : beginsFixed c = false := by
  unfold beginsFixed
  rw [h.single, h.paired, h.name, beq_eq_false_iff_ne.mpr h.slash]
  rfl

/-- No token begins with an unexpected character. -/
theorem Unexpected.not_lexeme (h : Unexpected c) (kind : TokenKind) (s : List Char) :
    ¬ Lexeme kind (c :: s) := by
  intro hlexeme
  generalize htext : c :: s = text at hlexeme
  cases hlexeme with
  | fixed hmem =>
    have hfirst := beginsFixed_of_mem_spellings hmem
    rw [String.toList_ofList, ← htext] at hfirst
    change beginsFixed c = true at hfirst
    rw [h.not_beginsFixed] at hfirst
    cases hfirst
  | name hc =>
    cases htext
    rw [h.name] at hc
    cases hc
  | integer hne hds =>
    subst htext
    have hdigit := hds c List.mem_cons_self
    rw [h.digit] at hdigit
    cases hdigit
  | @decimal ds es hne hds =>
    obtain ⟨d, ds', rfl⟩ := List.exists_cons_of_ne_nil hne
    cases htext
    have hdigit := hds c List.mem_cons_self
    rw [h.digit] at hdigit
    cases hdigit
  | string hquote =>
    cases htext
    exact h.quote hquote

/-! ## Pieces -/

/-- What a piece of each kind is, if the text `after` follows it: a token with a text of its kind,
and the value of this text if it is a number; one blank; a comment up to the end of its line; or an
error, which is a character that begins no other piece, or a string that does not end. -/
def Piece.Fits (p : Piece) (after : List Char) : Prop :=
  match p.kind with
  | .token kind literal =>
    Lexeme kind p.text ∧
      (kind = .number →
        ∃ x, Decimal.unsigned? p.text = some x ∧ literal = some (.number x))
  | .blank => ∃ c, p.text = [c] ∧ (isSpace c ∨ c = '\n')
  | .comment =>
    ∃ body, p.text = '/' :: '/' :: body ∧ '\n' ∉ body ∧ (after = [] ∨ after.head? = some '\n')
  | .bad (.unexpectedCharacter c) =>
    p.text = [c] ∧ (∀ kind s, ¬ Lexeme kind (c :: s)) ∧ ¬ isSpace c ∧ c ≠ '\n'
  | .bad .unterminatedString =>
    ∃ quote body, p.text = quote :: body ∧ isQuote quote ∧ QuotesEscaped quote body ∧ after = []

/-- A comment ends where its line ends. -/
theorem dropWhile_line (s : List Char) :
    s.dropWhile (· != '\n') = [] ∨ (s.dropWhile (· != '\n')).head? = some '\n' := by
  cases h : (s.dropWhile (· != '\n')).head? with
  | none => exact .inl (List.head?_eq_none_iff.mp h)
  | some c =>
    have hc := List.head?_dropWhile_not (· != '\n') s
    rw [h] at hc
    have hbreak : c = '\n' := by simpa using hc
    exact .inr (congrArg some hbreak)

/-- A token of fixed text is what its kind says. -/
theorem fits_fixed {kind : TokenKind} {literal : Option TokenLiteral}
    (h : String.ofList text ∈ kind.spellings) (after : List Char) :
    Piece.Fits ⟨.token kind literal, text, line⟩ after := by
  refine ⟨.fixed h, ?_⟩
  rintro rfl
  cases h

/-- What is cut off a text is a piece of its kind. -/
theorem Cuts.fits (h : Cuts line text p rest) : p.Fits rest := by
  cases h with
  | single rest h => exact fits_fixed (mem_spellings_single h) rest
  | pair rest h => exact fits_fixed (mem_spellings_paired h).1 rest
  | alone h => exact fits_fixed (mem_spellings_paired h).2 rest
  | slash => exact fits_fixed (List.mem_singleton.mpr rfl) rest
  | comment rest =>
    refine ⟨_, rfl, ?_, dropWhile_line rest⟩
    intro hmem
    exact ne_break_of_all (by decide) hmem rfl
  | lineBreak rest => exact ⟨'\n', rfl, .inr rfl⟩
  | space rest h => exact ⟨_, rfl, .inl h⟩
  | string hc h =>
    obtain ⟨hquotes, hwhole⟩ := splitQuoted_first h
    exact ⟨.string hc hquotes hwhole, fun hkind => nomatch hkind⟩
  | unterminated hc h => exact ⟨_, _, rfl, hc, splitQuoted_none h hc.ne_slash, rfl⟩
  | @number c rest text hc htext =>
    subst htext
    have hnumber := lexeme_number hc rest
    exact ⟨hnumber, fun _ => ⟨_, hnumber.unsigned?, rfl⟩⟩
  | @word c rest text hc htext =>
    subst htext
    have hrest : ∀ d ∈ rest.takeWhile isNameChar, isNameChar d :=
      fun d hd => List.all_eq_true.mp List.all_takeWhile d hd
    cases hword : TokenKind.keyword? (String.ofList (c :: rest.takeWhile isNameChar)) with
    | some kind => exact fits_fixed (mem_spellings_keyword hword) _
    | none => exact ⟨.name hc hrest (not_mem_spellings_word hc hword), fun hkind => nomatch hkind⟩
  | unexpected rest h => exact ⟨rfl, h.not_lexeme, h.space, h.lineBreak⟩

/-- A token that is cut off a text is spelled as its kind says. -/
theorem Cuts.lexeme {literal : Option TokenLiteral} (h : Cuts line text p rest)
    (hp : p.kind = .token kind literal) : Lexeme kind p.text := by
  have hfits := h.fits
  unfold Piece.Fits at hfits
  rw [hp] at hfits
  exact hfits.1

/-- No piece of a text is the end of a source. -/
theorem kind_ne_eof {t : Token} (hp : p ∈ pieces line s) (ht : p.token? = some t) :
    t.kind ≠ .eof := by
  intro heof
  obtain ⟨line', text, rest, hcut⟩ := cuts_of_mem hp
  have hlexeme := hcut.lexeme (Piece.of_token? ht).1
  rw [heof] at hlexeme
  exact not_lexeme_eof _ hlexeme

end Token

end ScriptEngine
