import Mathlib
import ScriptEngine.Proofs.Token.Lexeme

/-!
# The lines of tokens

Each piece of source moves the line on by the line breaks in it, but for those that are escaped in
a string (`Cuts.line_add`). So the line reached after some pieces counts the line breaks of their
texts, but for the escaped ones (`lastLine_add`), and the line of a token counts those that stand
before its last character (`lines_count_breaks`). A source without escaped line breaks has every
token on the line on which it ends.
-/

namespace ScriptEngine.Token

variable {line start : Nat} {c d : Char} {s text rest : List Char} {p : Piece} {t : Token}
  {ps qs : List Piece}

/-! ## What one piece adds -/

/-- Without a line break none is escaped. -/
theorem escapedBreaks_eq_zero (h : '\n' ∉ s) : escapedBreaks s = 0 := by
  have hsum := lineBreaks_add_escapedBreaks s
  rw [List.count_eq_zero.mpr h] at hsum
  omega

/-- A character behind a text that is no line break adds no escaped one. -/
theorem escapedBreaks_concat (hd : d ≠ '\n') (s : List Char) :
    escapedBreaks (s ++ [d]) = escapedBreaks s := by
  unfold escapedBreaks
  rw [List.length_append, List.length_singleton, List.range_succ, List.countP_append]
  have hlast : [s.length].countP
      (fun i => decide ((s ++ [d])[i]? = some '\n' ∧ Escaped (s ++ [d]) i)) = 0 := by
    simp [hd]
  rw [hlast, Nat.add_zero]
  apply List.countP_congr
  intro i hi
  have hlt := List.mem_range.mp hi
  simp only [decide_eq_true_eq]
  rw [List.getElem?_append_left hlt, escaped_append_right (Nat.le_of_lt hlt)]

/-- There is no line break in a fraction. -/
theorem ne_break_takeFraction (h : c ∈ (takeFraction s).1) : c ≠ '\n' := by
  rcases takeFraction_cases s with hnone | ⟨es, -, hes, hsome⟩
  · rw [hnone] at h
    cases h
  · rw [hsome] at h
    rcases List.mem_cons.mp h with rfl | h
    · decide
    · rintro rfl
      exact absurd (hes _ h) (by decide)

/-- No character of a pair is a line break. -/
theorem ne_break_paired {second : Char} {pair alone : TokenKind}
    (h : paired? c = some (second, pair, alone)) : c ≠ '\n' ∧ second ≠ '\n' := by
  unfold paired? at h
  split at h <;> cases h <;> decide

theorem ne_break_single {kind : TokenKind} (h : single? c = some kind) : c ≠ '\n' := by
  rintro rfl
  cases h

/-- Line breaks stand in blanks and in strings only. -/
theorem Cuts.breaks (h : Cuts line text p rest) :
    ((∀ c ∈ p.text, c ≠ '\n') ∧ p.line = line) ∨
    (p.kind = .blank ∧ p.text = ['\n'] ∧ p.line = line + 1) ∨
    (∃ quote body, isQuote quote ∧ p.token?.isSome ∧ p.text = quote :: (body ++ [quote]) ∧
      p.line = line + lineBreaks body) ∨
    (∃ quote body, isQuote quote ∧ p.kind = .bad .unterminatedString ∧ p.text = quote :: body ∧
      p.line = line + lineBreaks body) := by
  cases h with
  | single rest h =>
    left
    simp [ne_break_single h]
  | pair rest h =>
    left
    simp [ne_break_paired h]
  | alone h =>
    left
    simp [ne_break_paired h]
  | comment rest =>
    left
    refine ⟨?_, rfl⟩
    intro c hc
    simp only [List.mem_cons] at hc
    rcases hc with rfl | rfl | hc
    · decide
    · decide
    · exact ne_break_of_all (by decide) hc
  | slash =>
    left
    simp
  | lineBreak rest =>
    right
    left
    exact ⟨rfl, rfl, rfl⟩
  | space rest h =>
    left
    rcases h with rfl | rfl | rfl <;> simp
  | string hquote hsplit =>
    right
    right
    left
    exact ⟨_, _, hquote, rfl, rfl, rfl⟩
  | unterminated hquote hsplit =>
    right
    right
    right
    exact ⟨_, _, hquote, rfl, rfl, rfl⟩
  | number hc htext =>
    left
    subst htext
    refine ⟨?_, rfl⟩
    intro c hmem
    rcases List.mem_append.mp hmem with hmem | hmem
    · rcases List.mem_cons.mp hmem with rfl | hmem
      · rintro rfl
        cases hc
      · exact ne_break_of_all (by decide) hmem
    · exact ne_break_takeFraction hmem
  | word hc htext =>
    left
    subst htext
    refine ⟨?_, rfl⟩
    intro c hmem
    rcases List.mem_cons.mp hmem with rfl | hmem
    · rintro rfl
      cases hc
    · exact ne_break_of_all (by decide) hmem
  | unexpected rest h =>
    left
    simp [h.lineBreak]

/-- A piece moves the line on by the line breaks in its text, but for the escaped ones. -/
theorem Cuts.line_add (h : Cuts line text p rest) :
    p.line + escapedBreaks p.text = line + p.text.count '\n' := by
  rcases h.breaks with ⟨hplain, hline⟩ | ⟨-, htext, hline⟩ |
    ⟨quote, body, hquote, -, htext, hline⟩ | ⟨quote, body, hquote, -, htext, hline⟩
  · have hnone : '\n' ∉ p.text := fun hmem => hplain _ hmem rfl
    rw [hline, escapedBreaks_eq_zero hnone, List.count_eq_zero.mpr hnone]
  · rw [hline, htext]
    rfl
  · have hsum := lineBreaks_add_escapedBreaks body
    have hend : [quote].count '\n' = 0 := by simp [hquote.ne_break]
    rw [hline, htext, escapedBreaks_cons hquote.ne_slash.symm, escapedBreaks_concat hquote.ne_break,
      List.count_cons_of_ne hquote.ne_break, List.count_append]
    omega
  · have hsum := lineBreaks_add_escapedBreaks body
    rw [hline, htext, escapedBreaks_cons hquote.ne_slash.symm,
      List.count_cons_of_ne hquote.ne_break]
    omega

/-- A token has a last character, and it is no line break. -/
theorem Cuts.last_of_token (h : Cuts line text p rest) (ht : p.token? = some t) :
    ∃ init d, t.lexeme.toList = init ++ [d] ∧ d ≠ '\n' := by
  rw [← (Piece.of_token? ht).2.1]
  rcases h.breaks with ⟨hplain, -⟩ | ⟨hkind, -⟩ | ⟨quote, body, hquote, -, htext, -⟩ |
    ⟨quote, body, -, hkind, -⟩
  · obtain ⟨init, d, hlast⟩ := (List.eq_nil_or_concat p.text).resolve_left h.text_ne_nil
    rw [List.concat_eq_append] at hlast
    refine ⟨init, d, hlast, hplain d ?_⟩
    rw [hlast]
    exact List.mem_append_right init (List.mem_singleton_self d)
  · rw [(Piece.of_token? ht).1] at hkind
    cases hkind
  · exact ⟨quote :: body, quote, htext, hquote.ne_break⟩
  · rw [(Piece.of_token? ht).1] at hkind
    cases hkind

/-! ## What many pieces add -/

/-- The line reached after some pieces of a text counts the line breaks in them, but for the
escaped ones. -/
theorem lastLine_add (h : pieces line s = ps ++ qs) :
    lastLine line ps + (ps.map fun p => escapedBreaks p.text).sum =
      line + (ps.flatMap (·.text)).count '\n' := by
  induction ps using List.reverseRecOn generalizing qs with
  | nil => rfl
  | append_singleton ps p ih =>
    have hsplit : pieces line s = ps ++ p :: qs := by
      rw [h, List.append_assoc]
      rfl
    have hbefore := ih hsplit
    have hpiece := (pieces_split hsplit).line_add
    rw [lastLine_append]
    show p.line + _ = _
    rw [List.map_append, List.sum_append, List.flatMap_append, List.count_append]
    simp only [List.map_cons, List.map_nil, List.sum_cons, List.sum_nil, List.flatMap_cons,
      List.flatMap_nil, List.append_nil]
    omega

/-- The line of a piece counts the line breaks to its end, but for the escaped ones. -/
theorem line_add_of_split (h : pieces line s = ps ++ p :: qs) :
    p.line + ((ps ++ [p]).map fun p => escapedBreaks p.text).sum =
      line + (ps.flatMap (·.text) ++ p.text).count '\n' := by
  have hsplit : pieces line s = (ps ++ [p]) ++ qs := by
    rw [h, List.append_assoc, List.singleton_append]
  have hsum := lastLine_add hsplit
  rw [lastLine_append, List.flatMap_append, List.flatMap_singleton] at hsum
  exact hsum

/-! ## The tokens of a source -/

/-- The tokens among pieces that begin at a position, each with the position at which it begins. -/
def placedFrom (start : Nat) : List Piece → List (Nat × Token)
  | [] => []
  | p :: ps => (p.token?.map (start, ·)).toList ++ placedFrom (start + p.text.length) ps

/-- The tokens of a source, each with the position of its first character. -/
def placed (source : String) : List (Nat × Token) := placedFrom 0 (pieces 1 source.toList)

/-- The placed tokens are the tokens of the pieces. -/
theorem map_snd_placedFrom (start : Nat) (ps : List Piece) :
    (placedFrom start ps).map (·.2) = ps.filterMap Piece.token? := by
  induction ps generalizing start with
  | nil => rfl
  | cons p ps ih =>
    rw [placedFrom, List.map_append, ih]
    cases h : p.token? with
    | none => rw [List.filterMap_cons_none h]; rfl
    | some t => rw [List.filterMap_cons_some h]; rfl

/-- The piece that a token with a position is. -/
theorem placedFrom_split {before after : List (Nat × Token)} {i : Nat}
    (h : placedFrom start ps = before ++ (i, t) :: after) :
    ∃ xs p ys, ps = xs ++ p :: ys ∧ p.token? = some t ∧
      i = start + (xs.flatMap (·.text)).length ∧ before.map (·.2) = xs.filterMap Piece.token? := by
  induction ps generalizing start before with
  | nil => simp [placedFrom] at h
  | cons p ps ih =>
    rw [placedFrom] at h
    -- The token is in a later piece.
    have hlater : ∀ {front}, placedFrom (start + p.text.length) ps = front ++ (i, t) :: after →
        ∃ xs q ys, p :: ps = (p :: xs) ++ q :: ys ∧ q.token? = some t ∧
          i = start + ((p :: xs).flatMap (·.text)).length ∧
          front.map (·.2) = xs.filterMap Piece.token? := by
      intro front hfront
      obtain ⟨xs, q, ys, rfl, hq, hi, hbefore⟩ := ih hfront
      refine ⟨xs, q, ys, rfl, hq, ?_, hbefore⟩
      rw [List.flatMap_cons, List.length_append]
      omega
    cases hp : p.token? with
    | none =>
      rw [hp] at h
      obtain ⟨xs, q, ys, hps, hq, hi, hbefore⟩ := hlater h
      exact ⟨p :: xs, q, ys, hps, hq, hi, by rw [hbefore, List.filterMap_cons_none hp]⟩
    | some u =>
      rw [hp] at h
      cases before with
      | nil =>
        cases h
        exact ⟨[], p, ps, rfl, hp, rfl, rfl⟩
      | cons first before =>
        obtain ⟨hfirst, hrest⟩ := List.cons.inj h
        obtain ⟨xs, q, ys, hps, hq, hi, hbefore⟩ := hlater hrest
        refine ⟨p :: xs, q, ys, hps, hq, hi, ?_⟩
        rw [List.map_cons, ← hfirst, hbefore, List.filterMap_cons_some hp]

/-- The number of line breaks in tokens that are escaped. -/
def uncounted (ts : List Token) : Nat := (ts.map fun t => escapedBreaks t.lexeme.toList).sum

/-- The breaks that are not counted add up. -/
theorem uncounted_append (ts us : List Token) :
    uncounted (ts ++ us) = uncounted ts + uncounted us := by
  unfold uncounted
  rw [List.map_append, List.sum_append]

/-- Line breaks are escaped in tokens only, if there is no error. -/
theorem Cuts.no_escapedBreaks (h : Cuts line text p rest) (ht : p.token? = none)
    (he : p.error? = none) : escapedBreaks p.text = 0 := by
  rcases h.breaks with ⟨hplain, -⟩ | ⟨-, htext, -⟩ | ⟨-, -, -, hsome, -⟩ | ⟨-, -, -, hkind, -⟩
  · exact escapedBreaks_eq_zero fun hmem => hplain _ hmem rfl
  · rw [htext]
    rfl
  · rw [ht] at hsome
    cases hsome
  · unfold Piece.error? at he
    rw [hkind] at he
    cases he

/-- All escaped line breaks stand in tokens. -/
theorem sum_escapedBreaks (h : ∀ p ∈ ps, p.token? = none → escapedBreaks p.text = 0) :
    (ps.map fun p => escapedBreaks p.text).sum = uncounted (ps.filterMap Piece.token?) := by
  induction ps with
  | nil => rfl
  | cons p ps ih =>
    obtain ⟨hp, hps⟩ := List.forall_mem_cons.mp h
    rw [List.map_cons, List.sum_cons, ih hps]
    cases ht : p.token? with
    | none => rw [hp ht, List.filterMap_cons_none ht, Nat.zero_add]
    | some t =>
      rw [List.filterMap_cons_some ht, (Piece.of_token? ht).2.1]
      rfl

/-- What stands before a token, the token and what stands behind it are the source. -/
theorem placed_split {source : String} {before after : List (Nat × Token)}
    (h : placed source = before ++ (start, t) :: after) :
    ∃ xs p ys, pieces 1 source.toList = xs ++ p :: ys ∧ p.token? = some t ∧
      before.map (·.2) = xs.filterMap Piece.token? ∧ start = (xs.flatMap (·.text)).length ∧
      source.toList = xs.flatMap (·.text) ++ (t.lexeme.toList ++ ys.flatMap (·.text)) := by
  obtain ⟨xs, p, ys, hsplit, ht, hstart, hbefore⟩ := placedFrom_split h
  refine ⟨xs, p, ys, hsplit, ht, hbefore, by omega, ?_⟩
  rw [← flatMap_text_pieces 1 source.toList, hsplit, List.flatMap_append, List.flatMap_cons,
    (Piece.of_token? ht).2.1]

/-- The line of a token counts the line breaks of the source before its last character, but for
those that are escaped in a string, and so does the line of the end for the whole source. -/
theorem lines_count_breaks {source : String} {tokens : List Token}
    (hscan : scan source = .ok tokens) :
    ∃ last, tokens = (placed source).map (·.2) ++ [endOf last] ∧
      last + uncounted tokens = 1 + source.toList.count '\n' ∧
      ∀ before start t after, placed source = before ++ (start, t) :: after →
        (source.toList.drop start).take t.lexeme.length = t.lexeme.toList ∧
          t.line + uncounted (before.map (·.2) ++ [t]) =
            1 + (source.toList.take (start + t.lexeme.length - 1)).count '\n' := by
  rcases scan_cases source with ⟨herrors, hok⟩ | ⟨-, herror⟩
  · cases hscan.symm.trans hok
    have hzero : ∀ p ∈ pieces 1 source.toList, p.token? = none → escapedBreaks p.text = 0 := by
      intro p hp ht
      obtain ⟨line, text, rest, hcut⟩ := cuts_of_mem hp
      exact hcut.no_escapedBreaks ht (List.filterMap_eq_nil_iff.mp herrors p hp)
    refine ⟨endLine source, ?_, ?_, ?_⟩
    · rw [placed, map_snd_placedFrom]
    · have htotal := lastLine_add (List.append_nil (pieces 1 source.toList)).symm
      rw [flatMap_text_pieces, sum_escapedBreaks hzero] at htotal
      rw [uncounted_append]
      exact htotal
    · intro before start t after hplaced
      obtain ⟨xs, p, ys, hsplit, ht, hbefore, rfl, hsource⟩ := placed_split hplaced
      obtain ⟨init, d, hlast, hd⟩ := (pieces_split hsplit).last_of_token ht
      have hlength : t.lexeme.length = init.length + 1 := by
        rw [← String.length_toList, hlast, List.length_append, List.length_singleton]
      have htake : source.toList.take ((xs.flatMap (·.text)).length + t.lexeme.length - 1) =
          xs.flatMap (·.text) ++ init := by
        rw [hsource, hlast, List.append_assoc, ← List.append_assoc]
        apply List.take_left'
        rw [List.length_append, hlength]
        rfl
      have htokens : (xs ++ [p]).filterMap Piece.token? = before.map (·.2) ++ [t] := by
        rw [List.filterMap_append, hbefore, List.filterMap_cons_some ht, List.filterMap_nil]
      have hsum := line_add_of_split hsplit
      rw [sum_escapedBreaks, htokens, (Piece.of_token? ht).2.1, (Piece.of_token? ht).2.2, hlast,
        ← List.append_assoc, List.count_append, List.count_singleton, if_neg (by simpa using hd)]
        at hsum
      · constructor
        · rw [hsource, List.drop_left]
          exact List.take_left' (String.length_toList ..)
        · rw [htake]
          exact hsum
      · intro q hq
        apply hzero
        rw [hsplit]
        rcases List.mem_append.mp hq with hq | hq
        · exact List.mem_append_left _ hq
        · rw [List.mem_singleton.mp hq]
          exact List.mem_append_right _ (List.mem_cons_self ..)
  · cases hscan.symm.trans herror

/-- A name on the third line, behind a string on the first two lines and a comment. -/
theorem lines_count_breaks_comment :
    ∃ s x, scan "'a\nb' // c\nx" = .ok [s, x, endOf 3] ∧
      placed "'a\nb' // c\nx" = [(0, s), (11, x)] ∧
      x.line + uncounted [s, x] = 1 + ("'a\nb' // c\nx".toList.take 11).count '\n' := by
  have hscan : scan "'a\nb' // c\nx" = .ok [⟨.string, "'a\nb'", some (.string "a\nb"), 2⟩,
      ⟨.identifier, "x", none, 3⟩, endOf 3] := by
    cbv
  have hplaced : placed "'a\nb' // c\nx" = [(0, ⟨.string, "'a\nb'", some (.string "a\nb"), 2⟩)] ++
      (11, ⟨.identifier, "x", none, 3⟩) :: [] := by
    cbv
  obtain ⟨last, -, -, hlines⟩ := lines_count_breaks hscan
  exact ⟨_, _, hscan, hplaced, (hlines _ _ _ _ hplaced).2⟩

/-- A name on the second line has the number of the first, if the line break before it is escaped
in a string. -/
theorem escaped_break_uncounted :
    scan "'\\\n' x" = .ok [⟨.string, "'\\\n'", some (.string "\\\n"), 1⟩,
        ⟨.identifier, "x", none, 1⟩, endOf 1] ∧
      placed "'\\\n' x" = [(0, ⟨.string, "'\\\n'", some (.string "\\\n"), 1⟩),
        (5, ⟨.identifier, "x", none, 1⟩)] ∧
      1 + ("'\\\n' x".toList.take 5).count '\n' = 2 :=
  ⟨by cbv, by cbv, by decide⟩

end ScriptEngine.Token
