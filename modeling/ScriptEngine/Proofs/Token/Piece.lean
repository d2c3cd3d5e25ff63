import ScriptEngine.Token.Lexer

/-!
# What a piece of source can be

`Cuts` says once for all in which ways the first piece of a text can be cut off, with one
constructor for each kind of piece. `nextPiece` cuts off a piece in one of these ways
(`cuts_nextPiece`), and so every piece of a source was cut off the text that it begins
(`pieces_split`).
-/

namespace ScriptEngine.Token

variable {line : Nat} {c : Char} {s rest : List Char} {p : Piece} {ps qs : List Piece}

/-- Blanks that are no line breaks. -/
def isSpace (c : Char) : Prop := c = ' ' ∨ c = '\r' ∨ c = '\t'

/-- The characters that stand around a string. -/
def isQuote (c : Char) : Prop := c = '\'' ∨ c = '"'

theorem isQuote.ne_slash (h : isQuote c) : '\\' ≠ c := by
  rcases h with rfl | rfl
  · decide
  · decide

theorem isQuote.ne_break (h : isQuote c) : c ≠ '\n' := by
  rcases h with rfl | rfl
  · decide
  · decide

/-- The character begins none of the pieces that a text can have, errors apart. -/
structure Unexpected (c : Char) : Prop where
  single : single? c = none
  paired : paired? c = none
  slash : c ≠ '/'
  lineBreak : c ≠ '\n'
  space : ¬ isSpace c
  quote : ¬ isQuote c
  digit : c.isDigit = false
  name : isNameStart c = false

/-- The text that is the second argument begins on `line`; the piece is cut off it, and the last
argument is what is left. -/
inductive Cuts (line : Nat) : List Char → Piece → List Char → Prop where
  | single {c : Char} {kind : TokenKind} (rest : List Char) (h : single? c = some kind) :
      Cuts line (c :: rest) ⟨.token kind none, [c], line⟩ rest
  | pair {c second : Char} {pair alone : TokenKind} (rest : List Char)
      (h : paired? c = some (second, pair, alone)) :
      Cuts line (c :: second :: rest) ⟨.token pair none, [c, second], line⟩ rest
  | alone {c second : Char} {pair alone : TokenKind} {rest : List Char}
      (h : paired? c = some (second, pair, alone)) (hnext : rest.head? ≠ some second) :
      Cuts line (c :: rest) ⟨.token alone none, [c], line⟩ rest
  | comment (rest : List Char) :
      Cuts line ('/' :: '/' :: rest) ⟨.comment, '/' :: '/' :: rest.takeWhile (· != '\n'), line⟩
        (rest.dropWhile (· != '\n'))
  | slash {rest : List Char} (hnext : rest.head? ≠ some '/') :
      Cuts line ('/' :: rest) ⟨.token .slash none, ['/'], line⟩ rest
  | lineBreak (rest : List Char) : Cuts line ('\n' :: rest) ⟨.blank, ['\n'], line + 1⟩ rest
  | space {c : Char} (rest : List Char) (h : isSpace c) :
      Cuts line (c :: rest) ⟨.blank, [c], line⟩ rest
  | string {c : Char} {rest body after : List Char} (hc : isQuote c)
      (h : splitQuoted c rest = some (body, after)) :
      Cuts line (c :: rest)
        ⟨.token .string (some (.string (String.ofList (decodeQuoted body)))), c :: (body ++ [c]),
          line + lineBreaks body⟩ after
  | unterminated {c : Char} {rest : List Char} (hc : isQuote c) (h : splitQuoted c rest = none) :
      Cuts line (c :: rest) ⟨.bad .unterminatedString, c :: rest, line + lineBreaks rest⟩ []
  | number {c : Char} {rest text : List Char} (hc : c.isDigit)
      (htext : text = c :: rest.takeWhile Char.isDigit ++
        (takeFraction (rest.dropWhile Char.isDigit)).1) :
      Cuts line (c :: rest) ⟨.token .number (some (.number (numberValue text))), text, line⟩
        (takeFraction (rest.dropWhile Char.isDigit)).2
  | word {c : Char} {rest text : List Char} (hc : isNameStart c)
      (htext : text = c :: rest.takeWhile isNameChar) :
      Cuts line (c :: rest)
        ⟨.token ((TokenKind.keyword? (String.ofList text)).getD .identifier) none, text, line⟩
        (rest.dropWhile isNameChar)
  | unexpected {c : Char} (rest : List Char) (h : Unexpected c) :
      Cuts line (c :: rest) ⟨.bad (.unexpectedCharacter c), [c], line⟩ rest

/-- The next piece is cut off the front of the source. -/
theorem cuts_nextPiece (line : Nat) (c : Char) (rest : List Char) :
    Cuts line (c :: rest) (nextPiece line c rest).1 (nextPiece line c rest).2 := by
  unfold nextPiece
  cases hsingle : single? c with
  | some kind => exact .single rest hsingle
  | none =>
    cases hpaired : paired? c with
    | some three =>
      obtain ⟨second, pair, alone⟩ := three
      cases rest with
      | nil => exact .alone hpaired (by simp)
      | cons d after =>
        dsimp only
        split
        · next hd =>
          subst hd
          exact .pair after hpaired
        · next hd => exact .alone hpaired fun h => hd (Option.some.inj h)
    | none =>
      dsimp only
      split
      · next hslash =>
        subst hslash
        split
        · exact .comment _
        · next hnext =>
          refine .slash fun h => ?_
          obtain ⟨after, rfl⟩ := List.head?_eq_some_iff.mp h
          exact hnext after rfl
      next hslash =>
      split
      · next hbreak =>
        subst hbreak
        exact .lineBreak rest
      next hbreak =>
      split
      · next hspace => exact .space rest hspace
      next hspace =>
      split
      · next hquote =>
        split
        · next hsplit => exact .string hquote hsplit
        · next hsplit => exact .unterminated hquote hsplit
      next hquote =>
      split
      · next hdigit => exact .number hdigit rfl
      next hdigit =>
      split
      · next hname => exact .word hname rfl
      next hname =>
      exact .unexpected rest ⟨hsingle, hpaired, hslash, hbreak, hspace, hquote,
        Bool.eq_false_iff.mpr hdigit, Bool.eq_false_iff.mpr hname⟩

/-- No piece is empty. -/
theorem Cuts.text_ne_nil {text : List Char} (h : Cuts line text p rest) : p.text ≠ [] := by
  cases h with
  | number _ htext | word _ htext =>
    subst htext
    simp
  | _ => simp

/-- There is no line break among characters of a class without it. -/
theorem ne_break_of_all {q : Char → Bool} (hq : q '\n' = false) (h : c ∈ s.takeWhile q) :
    c ≠ '\n' := by
  rintro rfl
  rw [List.all_eq_true.mp List.all_takeWhile _ h] at hq
  cases hq

/-- A piece that is a token has the text and the line of it. -/
theorem Piece.of_token? {t : Token} (h : p.token? = some t) :
    p.kind = .token t.kind t.literal ∧ p.text = t.lexeme.toList ∧ p.line = t.line := by
  obtain ⟨kind, text, line⟩ := p
  cases kind with
  | token kind literal =>
    cases h
    exact ⟨rfl, String.toList_ofList.symm, rfl⟩
  | blank | comment | bad => cases h

theorem lastLine_cons (line : Nat) (p : Piece) (ps : List Piece) :
    lastLine line (p :: ps) = lastLine p.line ps := by
  unfold lastLine
  rw [List.getLast?_cons]
  cases ps.getLast? <;> rfl

/-- The last line is that of the last piece. -/
theorem lastLine_append (line : Nat) (ps : List Piece) (q : Piece) (qs : List Piece) :
    lastLine line (ps ++ q :: qs) = lastLine q.line qs := by
  induction ps generalizing line with
  | nil => exact lastLine_cons line q qs
  | cons p ps ih =>
    rw [List.cons_append, lastLine_cons]
    exact ih p.line

/-- Each piece of a text is the next one where it begins, on the line reached before it. -/
theorem pieces_next (h : pieces line s = ps ++ p :: qs) :
    ∃ c rest, p.text ++ qs.flatMap (·.text) = c :: rest ∧
      nextPiece (lastLine line ps) c rest = (p, qs.flatMap (·.text)) := by
  fun_induction pieces line s generalizing ps with
  | case1 => simp at h
  | case2 line c rest step =>
    rename_i ih
    cases ps with
    | nil =>
      obtain ⟨rfl, rfl⟩ := List.cons.inj h
      rw [flatMap_text_pieces]
      exact ⟨c, rest, append_nextPiece line c rest, rfl⟩
    | cons q ps =>
      obtain ⟨rfl, hrest⟩ := List.cons.inj h
      rw [lastLine_cons]
      exact ih hrest

/-- Each piece of a text was cut off what it begins. -/
theorem pieces_split (h : pieces line s = ps ++ p :: qs) :
    Cuts (lastLine line ps) (p.text ++ qs.flatMap (·.text)) p (qs.flatMap (·.text)) := by
  obtain ⟨c, rest, htext, hnext⟩ := pieces_next h
  have hcut := cuts_nextPiece (lastLine line ps) c rest
  rw [hnext, ← htext] at hcut
  exact hcut

/-- The line on which the end of a source stands. -/
def endLine (source : String) : Nat := lastLine 1 (pieces 1 source.toList)

/-- A source has tokens or lexical errors. -/
theorem scan_cases (source : String) :
    ((pieces 1 source.toList).filterMap Piece.error? = [] ∧
      scan source =
        .ok ((pieces 1 source.toList).filterMap Piece.token? ++ [endOf (endLine source)])) ∨
    ((pieces 1 source.toList).filterMap Piece.error? ≠ [] ∧
      scan source = .error ((pieces 1 source.toList).filterMap Piece.error?)) := by
  unfold scan
  dsimp only
  split
  · next herrors => exact .inl ⟨herrors, rfl⟩
  · next herrors => exact .inr ⟨herrors, rfl⟩

/-- A token of a source that is not its end is a piece of it. -/
theorem exists_piece {source : String} {tokens : List Token} (hscan : scan source = .ok tokens)
    {t : Token} (ht : t ∈ tokens) (hkind : t.kind ≠ .eof) :
    ∃ p ∈ pieces 1 source.toList, p.token? = some t := by
  rcases scan_cases source with ⟨-, hok⟩ | ⟨-, herror⟩
  · cases hscan.symm.trans hok
    rcases List.mem_append.mp ht with ht | ht
    · exact List.mem_filterMap.mp ht
    · rw [List.mem_singleton.mp ht] at hkind
      exact absurd rfl hkind
  · cases hscan.symm.trans herror

/-- Every piece is cut off what is left of the source somewhere. -/
theorem cuts_of_mem (h : p ∈ pieces line s) : ∃ line' rest after, Cuts line' rest p after := by
  obtain ⟨ps, qs, hsplit⟩ := List.append_of_mem h
  exact ⟨_, _, _, pieces_split hsplit⟩

end ScriptEngine.Token
