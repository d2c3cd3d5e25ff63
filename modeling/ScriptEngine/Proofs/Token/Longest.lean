import Mathlib
import ScriptEngine.Proofs.Token.Lexeme

/-!
# The longest token

A source has many partitions into tokens: a name is a row of shorter names, and a pair of signs is
two signs. The pieces are the longest ones. No token that begins where a piece does reaches beyond
the piece (`Lexeme.length_le`).
-/

namespace ScriptEngine.Token

variable {line : Nat} {c : Char} {s r t body rest after : List Char} {kind : TokenKind} {p : Piece}

/-! ## The piece that a character begins -/

/-- The characters that are blanks or begin fixed texts, reserved words apart. -/
def marks : List Char := "()\x7b\x7d[],.:;^%*+-|&!=<>/ \r\t\n".toList

/-- A character that is no mark begins no fixed token, comment or blank. -/
theorem not_mark (hc : c ∉ marks) :
    single? c = none ∧ paired? c = none ∧ c ≠ '/' ∧ c ≠ '\n' ∧
      ¬ (c = ' ' ∨ c = '\r' ∨ c = '\t') := by
  refine ⟨?_, ?_, ?_, ?_, ?_⟩
  · cases h : single? c with
    | none => rfl
    | some kind =>
      unfold single? at h
      split at h <;> first | cases h; done | exact absurd (by decide) hc
  · cases h : paired? c with
    | none => rfl
    | some three =>
      unfold paired? at h
      split at h <;> first | cases h; done | exact absurd (by decide) hc
  · rintro rfl
    exact hc (by decide)
  · rintro rfl
    exact hc (by decide)
  · rintro (rfl | rfl | rfl) <;> exact hc (by decide)

/-- A class of characters without marks has none. -/
theorem not_mark_of_class {p : Char → Bool} (hp : marks.all fun d => !p d) (hc : p c) :
    c ∉ marks := by
  intro hmem
  have hfalse := List.all_eq_true.mp hp c hmem
  rw [hc] at hfalse
  cases hfalse

theorem not_digit_of_name (hc : isNameStart c) : ¬ c.isDigit := by
  intro hdigit
  have hcode := hdigit
  simp only [isNameStart, Char.isAlpha, Char.isUpper, Char.isLower, Char.isDigit, Bool.or_eq_true,
    Bool.and_eq_true, decide_eq_true_eq, beq_iff_eq] at hc hcode
  have hlast : c.toNat ≤ 57 := hcode.2
  rcases hc with (hupper | hlower) | rfl
  · have hfirst : 65 ≤ c.toNat := hupper.1
    omega
  · have hfirst : 97 ≤ c.toNat := hlower.1
    omega
  · cases hdigit

/-- A class of characters without quotes has none. -/
theorem not_quote_of_class {p : Char → Bool} (hsingle : p '\'' = false) (hdouble : p '"' = false)
    (hc : p c) : ¬ (c = '\'' ∨ c = '"') := by
  rintro (rfl | rfl)
  · rw [hsingle] at hc
    cases hc
  · rw [hdouble] at hc
    cases hc

/-- A character that may begin a pair is not in the table of single ones. -/
theorem single?_of_paired? {three : Char × TokenKind × TokenKind} (h : paired? c = some three) :
    single? c = none := by
  unfold paired? at h
  split at h <;> cases h <;> rfl

/-- There is one way to cut the first piece off a text: the next one. -/
theorem Cuts.nextPiece_eq (h : Cuts line (c :: rest) p after) :
    nextPiece line c rest = (p, after) := by
  unfold nextPiece
  cases h with
  | single rest h => rw [h]
  | pair rest h =>
    rw [single?_of_paired? h, h]
    exact if_pos rfl
  | @alone _ second _ _ rest h hnext =>
    rw [single?_of_paired? h, h]
    cases rest with
    | nil => rfl
    | cons d rest => exact if_neg fun hd => hnext (congrArg some hd)
  | comment rest => rfl
  | @slash rest hnext =>
    cases rest with
    | nil => rfl
    | cons d rest =>
      have hd : d ≠ '/' := fun hd => hnext (congrArg some hd)
      simp [single?, paired?, hd]
  | lineBreak rest => rfl
  | space rest h => rcases h with rfl | rfl | rfl <;> rfl
  | string hc h | unterminated hc h =>
    have hmark : c ∉ marks := by rcases hc with rfl | rfl <;> decide
    obtain ⟨hsingle, hpaired, hslash, hbreak, hspace⟩ := not_mark hmark
    rw [hsingle, hpaired]
    dsimp only
    rw [if_neg hslash, if_neg hbreak, if_neg hspace, if_pos (show c = '\'' ∨ c = '"' from hc), h]
  | number hc htext =>
    obtain ⟨hsingle, hpaired, hslash, hbreak, hspace⟩ :=
      not_mark (not_mark_of_class (by decide) hc)
    rw [hsingle, hpaired, htext]
    dsimp only
    rw [if_neg hslash, if_neg hbreak, if_neg hspace, if_neg (not_quote_of_class rfl rfl hc),
      if_pos hc]
  | word hc htext =>
    obtain ⟨hsingle, hpaired, hslash, hbreak, hspace⟩ :=
      not_mark (not_mark_of_class (by decide) hc)
    rw [hsingle, hpaired, htext]
    dsimp only
    rw [if_neg hslash, if_neg hbreak, if_neg hspace, if_neg (not_quote_of_class rfl rfl hc),
      if_neg (not_digit_of_name hc), if_pos hc]
  | unexpected rest h =>
    rw [h.single, h.paired]
    dsimp only
    have hspace : ¬ (c = ' ' ∨ c = '\r' ∨ c = '\t') := h.space
    have hquote : ¬ (c = '\'' ∨ c = '"') := h.quote
    rw [if_neg h.slash, if_neg h.lineBreak, if_neg hspace, if_neg hquote,
      if_neg (Bool.eq_false_iff.mp h.digit), if_neg (Bool.eq_false_iff.mp h.name)]

theorem text_nextPiece_name (hc : isNameStart c) :
    (nextPiece line c rest).1.text = c :: rest.takeWhile isNameChar := by
  rw [(Cuts.word hc rfl).nextPiece_eq]

/-- A number goes on as long as it can. -/
theorem text_nextPiece_digit (hc : c.isDigit) :
    (nextPiece line c rest).1.text =
      (c :: rest).takeWhile Char.isDigit ++
        (takeFraction ((c :: rest).dropWhile Char.isDigit)).1 := by
  rw [(Cuts.number hc rfl).nextPiece_eq, List.takeWhile_cons_of_pos hc,
    List.dropWhile_cons_of_pos hc]

theorem text_nextPiece_quote (hc : isQuote c) (h : splitQuoted c rest = some (body, r)) :
    (nextPiece line c rest).1.text = c :: (body ++ [c]) := by
  rw [(Cuts.string hc h).nextPiece_eq]

/-- Two characters that are a token are taken together. -/
theorem text_nextPiece_pair {second : Char} {pair alone : TokenKind}
    (h : paired? c = some (second, pair, alone)) :
    (nextPiece line c (second :: rest)).1.text = [c, second] := by
  rw [(Cuts.pair rest h).nextPiece_eq]

/-! ## Tokens -/

/-- A front of the class is no longer than what is taken. -/
theorem length_le_takeWhile {p : Char → Bool} (h : ∀ d ∈ s, p d) (r : List Char) :
    s.length ≤ ((s ++ r).takeWhile p).length := by
  rw [List.takeWhile_append_of_pos h, List.length_append]
  omega

/-- A fixed text is one character, a pair of signs or a reserved word. -/
def oneOrPairOrWord : List Char → Bool
  | [] => false
  | c :: s => s.isEmpty || (paired? c).any (fun three => s == [three.1]) ||
    (isNameStart c && s.all isNameChar)

/-- Every fixed text is one character, two that belong together, or a word. -/
theorem fixed_cases {word : String} (h : word ∈ kind.spellings) : oneOrPairOrWord word.toList := by
  have hall : kind.spellings.all fun word => oneOrPairOrWord word.toList := by
    cases kind <;> decide
  exact List.all_eq_true.mp hall word h

/-- No token that begins where a piece does is longer than the piece. -/
theorem Lexeme.length_le (h : Lexeme kind t) (hs : c :: rest = t ++ r) (line : Nat) :
    t.length ≤ (nextPiece line c rest).1.text.length := by
  cases h with
  | fixed h =>
    have hform := fixed_cases h
    rw [String.toList_ofList] at hform
    cases t with
    | nil => cases hform
    | cons d s =>
      obtain ⟨rfl, rfl⟩ := List.cons.inj hs
      unfold oneOrPairOrWord at hform
      rw [Bool.or_eq_true, Bool.or_eq_true, Bool.and_eq_true] at hform
      rcases hform with (hone | hpair) | ⟨hc, hall⟩
      · rw [List.isEmpty_iff.mp hone]
        exact List.length_pos_iff.mpr (nextPiece_text_ne_nil _ _ _)
      · cases hpaired : paired? c with
        | none =>
          rw [hpaired] at hpair
          cases hpair
        | some three =>
          obtain ⟨second, pair, alone⟩ := three
          rw [hpaired] at hpair
          rw [eq_of_beq (show (s == [second]) = true from hpair)]
          exact Nat.le_of_eq (congrArg List.length (text_nextPiece_pair hpaired)).symm
      · rw [text_nextPiece_name hc, List.length_cons, List.length_cons]
        exact Nat.succ_le_succ (length_le_takeWhile (List.all_eq_true.mp hall) r)
  | @name d s hc hs' =>
    obtain ⟨rfl, rfl⟩ := List.cons.inj hs
    rw [text_nextPiece_name hc, List.length_cons, List.length_cons]
    exact Nat.succ_le_succ (length_le_takeWhile hs' r)
  | integer hne hds =>
    obtain ⟨d, ds, rfl⟩ := List.exists_cons_of_ne_nil hne
    obtain ⟨rfl, rfl⟩ := List.cons.inj hs
    have hwhole := length_le_takeWhile hds r
    rw [text_nextPiece_digit (hds c List.mem_cons_self), List.length_append]
    exact Nat.le_trans hwhole (Nat.le_add_right _ _)
  | @decimal ds es hne hds hne' hes =>
    obtain ⟨d, ds, rfl⟩ := List.exists_cons_of_ne_nil hne
    obtain ⟨e, es, rfl⟩ := List.exists_cons_of_ne_nil hne'
    obtain ⟨rfl, hrest⟩ := List.cons.inj hs
    have htext : c :: rest = (c :: ds) ++ '.' :: e :: (es ++ r) := by
      rw [hrest]
      simp
    obtain ⟨htake, hdrop⟩ := takeWhile_digits hds (s := '.' :: e :: (es ++ r)) (.inr rfl)
    obtain ⟨he, hes⟩ := List.forall_mem_cons.mp hes
    have hfraction := length_le_takeWhile hes r
    rw [text_nextPiece_digit (hds c List.mem_cons_self), htext, htake, hdrop, takeFraction,
      if_pos he]
    simp only [List.length_append, List.length_cons]
    omega
  | @string quote body hquote hquotes hwhole =>
    obtain ⟨rfl, hrest⟩ := List.cons.inj hs
    have hbody : rest = body ++ c :: r := by
      rw [hrest]
      simp
    have hsplit := splitQuoted_of_quotesEscaped hquotes hwhole hbody
    exact Nat.le_of_eq (congrArg List.length (text_nextPiece_quote hquote hsplit)).symm

end ScriptEngine.Token
