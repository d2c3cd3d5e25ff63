import Mathlib
import ScriptEngine.Proofs.Program.Parsed
import ScriptEngine.Proofs.Token.Lexeme

/-!
# Sources below each other

A line break ends whatever piece of source stands before it, unless that is a string. So the pieces
of a source in which every string is closed stay the same when a line break and another source
follow, and the pieces of the other source are the same on other lines (`pieces_joined`). Two
sources without lexical errors give the tokens of the first and then those of the second on other
lines (`scan_below`); if there are errors in them, they are the errors of both (`scan_joined`).
-/

namespace ScriptEngine

open ScriptEngine.Parser Relabeling Writing

/-- A lexical error that stands some lines further down. -/
def LexicalError.below (k : Nat) (e : LexicalError) : LexicalError := { e with line := e.line + k }

namespace Token

/-! ## What a line break ends -/

section

variable {α : Type} {p : α → Bool} {a : α}

/-- What is taken ends at a character of another kind, whatever stands behind it. -/
theorem takeWhile_stop (ha : p a = false) (l v : List α) :
    (l ++ a :: v).takeWhile p = l.takeWhile p := by
  induction l with
  | nil => exact List.takeWhile_cons_of_neg (by simp [ha])
  | cons b l ih => rw [List.cons_append, List.takeWhile_cons, List.takeWhile_cons, ih]

theorem dropWhile_stop (ha : p a = false) (l v : List α) :
    (l ++ a :: v).dropWhile p = l.dropWhile p ++ a :: v := by
  induction l with
  | nil => exact List.dropWhile_cons_of_neg (by simp [ha])
  | cons b l ih =>
    rw [List.cons_append, List.dropWhile_cons, List.dropWhile_cons]
    split
    · exact ih
    · rfl

end

variable {line : Nat} {c quote : Char} {s rest body after v : List Char}

/-- Without a point there is no fraction. -/
theorem takeFraction_of_ne (hc : c ≠ '.') (s : List Char) :
    takeFraction (c :: s) = ([], c :: s) := by
  unfold takeFraction
  split
  · next heq => exact absurd (List.cons.inj heq).1 hc
  · rfl

theorem takeFraction_stop (s v : List Char) :
    takeFraction (s ++ '\n' :: v) = ((takeFraction s).1, (takeFraction s).2 ++ '\n' :: v) := by
  cases s with
  | nil => rfl
  | cons c s =>
    by_cases hc : c = '.'
    · subst hc
      cases s with
      | nil => rfl
      | cons d s =>
        rw [List.cons_append, List.cons_append, takeFraction, takeFraction]
        split
        · rw [takeWhile_stop (by decide), dropWhile_stop (by decide)]
        · rfl
    · rw [List.cons_append, takeFraction_of_ne hc, takeFraction_of_ne hc]
      rfl

/-- A string that is closed does not depend on what follows. -/
theorem splitQuoted_append_right (h : splitQuoted quote s = some (body, after)) (v : List Char) :
    splitQuoted quote (s ++ v) = some (body, after ++ v) := by
  fun_induction splitQuoted quote s generalizing body with
  | case1 => cases h
  | case2 rest =>
    cases h
    rw [List.cons_append, splitQuoted.eq_def]
    exact if_pos rfl
  | case3 => cases h
  | case4 d rest hne ih =>
    obtain ⟨⟨b, a⟩, hs, heq⟩ := Option.map_eq_some_iff.mp h
    cases heq
    rw [List.cons_append, List.cons_append, splitQuoted.eq_def]
    dsimp only
    rw [if_neg hne, if_pos rfl, ih hs]
    rfl
  | case5 e rest hne hslash ih =>
    obtain ⟨⟨b, a⟩, hs, heq⟩ := Option.map_eq_some_iff.mp h
    cases heq
    rw [List.cons_append, splitQuoted.eq_def]
    dsimp only
    rw [if_neg hne, if_neg hslash, ih hs]
    rfl

/-- A piece that is not a string without an end. -/
def Piece.Closed (p : Piece) : Prop := p.kind ≠ .bad .unterminatedString

theorem Piece.closed_of_error? {p : Piece} (h : p.error? = none) : p.Closed := by
  intro hkind
  obtain ⟨kind, text, line⟩ := p
  cases hkind
  cases h

/-- A line break ends every piece that is closed. -/
theorem nextPiece_stop (h : (nextPiece line c rest).1.Closed) (v : List Char) :
    nextPiece line c (rest ++ '\n' :: v) =
      ((nextPiece line c rest).1, (nextPiece line c rest).2 ++ '\n' :: v) := by
  unfold nextPiece at h ⊢
  cases hsingle : single? c with
  | some kind => rfl
  | none =>
    rw [hsingle] at h
    cases hpaired : paired? c with
    | some three =>
      obtain ⟨second, pair, alone⟩ := three
      have hsecond : '\n' ≠ second := by
        unfold paired? at hpaired
        split at hpaired <;> cases hpaired <;> decide
      cases rest with
      | nil => exact if_neg hsecond
      | cons d after =>
        dsimp only [List.cons_append]
        split
        · rfl
        · rfl
    | none =>
      rw [hpaired] at h
      dsimp only at h ⊢
      by_cases hslash : c = '/'
      · rw [if_pos hslash, if_pos hslash]
        cases rest with
        | nil => rfl
        | cons d rest =>
          by_cases hd : d = '/'
          · subst hd
            simp only [List.cons_append, takeWhile_stop (p := (· != '\n')) (a := '\n') (by decide),
              dropWhile_stop (p := (· != '\n')) (a := '\n') (by decide)]
          · simp [hd]
      rw [if_neg hslash] at h
      rw [if_neg hslash, if_neg hslash]
      split
      · rfl
      · next hbreak =>
        rw [if_neg hbreak] at h
        split
        · rfl
        · next hblank =>
          rw [if_neg hblank] at h
          split
          · next hquote =>
            rw [if_pos hquote] at h
            cases hsplit : splitQuoted c rest with
            | none =>
              rw [hsplit] at h
              exact absurd rfl h
            | some parts =>
              rw [splitQuoted_append_right hsplit]
          · split
            · rw [takeWhile_stop (by decide), dropWhile_stop (by decide), takeFraction_stop]
            · split
              · rw [takeWhile_stop (by decide), dropWhile_stop (by decide)]
              · rfl

/-! ## Other lines -/

/-- A token that stands some lines further down. -/
def below (k : Nat) (t : Token) : Token := { t with line := t.line + k }

/-- A piece of source that stands some lines further down. -/
def Piece.below (k : Nat) (p : Piece) : Piece := { p with line := p.line + k }

/-- The token of a piece is shifted with it. -/
theorem Piece.token?_below (k : Nat) (p : Piece) :
    (p.below k).token? = p.token?.map (Token.below k) := by
  obtain ⟨kind, text, line⟩ := p
  cases kind <;> rfl

theorem Piece.error?_below (k : Nat) (p : Piece) :
    (p.below k).error? = p.error?.map (LexicalError.below k) := by
  obtain ⟨kind, text, line⟩ := p
  cases kind <;> rfl

/-- The next piece of a source further down is the same, further down. -/
theorem nextPiece_below (k line : Nat) (c : Char) (rest : List Char) :
    nextPiece (line + k) c rest =
      ((nextPiece line c rest).1.below k, (nextPiece line c rest).2) := by
  unfold nextPiece
  cases single? c with
  | some kind => rfl
  | none =>
    cases paired? c with
    | some three =>
      obtain ⟨second, pair, alone⟩ := three
      cases rest with
      | nil => rfl
      | cons d after =>
        dsimp only
        split <;> rfl
    | none =>
      dsimp only
      split
      · split <;> rfl
      split
      · rw [Nat.add_right_comm]
        rfl
      split
      · rfl
      split
      · split
        · rw [Nat.add_right_comm]
          rfl
        · rw [Nat.add_right_comm]
          rfl
      split
      · rfl
      split <;> rfl

theorem pieces_below (k line : Nat) (s : List Char) :
    pieces (line + k) s = (pieces line s).map (Piece.below k) := by
  fun_induction pieces line s with
  | case1 line => rw [pieces, List.map_nil]
  | case2 line c rest step ih =>
    rw [pieces, nextPiece_below, List.map_cons, ← ih]
    rfl

theorem lastLine_below (k line : Nat) (ps : List Piece) :
    lastLine (line + k) (ps.map (Piece.below k)) = lastLine line ps + k := by
  induction ps generalizing line with
  | nil => rfl
  | cons p ps ih =>
    rw [List.map_cons, lastLine_cons, lastLine_cons]
    exact ih p.line

/-- A line break and another source behind one in which every string is closed. -/
theorem pieces_append (line : Nat) (s v : List Char) (h : ∀ p ∈ pieces line s, p.Closed) :
    pieces line (s ++ '\n' :: v) = pieces line s ++
      ⟨.blank, ['\n'], lastLine line (pieces line s) + 1⟩ ::
        pieces (lastLine line (pieces line s) + 1) v := by
  fun_induction pieces line s with
  | case1 line =>
    rw [List.nil_append, pieces]
    rfl
  | case2 line c rest step ih =>
    obtain ⟨hstep, hrest⟩ := List.forall_mem_cons.mp h
    rw [List.cons_append, pieces, nextPiece_stop hstep, lastLine_cons, List.cons_append, ← ih hrest]

/-! ## Sources -/

theorem solid_pieces (line : Nat) (s : List Char) :
    Solid ((pieces line s).filterMap Piece.token?) := by
  intro t ht
  obtain ⟨p, hp, htoken⟩ := List.mem_filterMap.mp ht
  exact kind_ne_eof hp htoken

/-- The tokens of a source are read to its end if no piece of it is an error. -/
theorem scan_eq_ok {source : String} {tokens : List Token} (h : scan source = .ok tokens) :
    (∀ p ∈ pieces 1 source.toList, p.error? = none) ∧
      beforeEnd tokens = (pieces 1 source.toList).filterMap Piece.token? := by
  rcases scan_cases source with ⟨herrors, hscan⟩ | ⟨-, hscan⟩
  · cases h.symm.trans hscan
    exact ⟨List.filterMap_eq_nil_iff.mp herrors, beforeEnd_append_end (solid_pieces _ _) _⟩
  · cases h.symm.trans hscan

/-- A source whose pieces have no error is scanned to their tokens. -/
theorem scan_of_pieces {source : String}
    (h : ∀ p ∈ pieces 1 source.toList, p.error? = none) :
    ∃ tokens, scan source = .ok tokens ∧
      beforeEnd tokens = (pieces 1 source.toList).filterMap Piece.token? := by
  rcases scan_cases source with ⟨-, hscan⟩ | ⟨herrors, -⟩
  · exact ⟨_, hscan, beforeEnd_append_end (solid_pieces _ _) _⟩
  · exact absurd (List.filterMap_eq_nil_iff.mpr h) herrors

section

variable {first second : String}

/-- The pieces of two sources, the second one below the first. -/
theorem pieces_joined (h : ∀ p ∈ pieces 1 first.toList, p.Closed) (second : String) :
    pieces 1 (first ++ "\n" ++ second).toList =
      pieces 1 first.toList ++ ⟨.blank, ['\n'], endLine first + 1⟩ ::
        (pieces 1 second.toList).map (Piece.below (endLine first)) := by
  have hchars : (first ++ "\n" ++ second).toList = first.toList ++ '\n' :: second.toList := by
    simp
  rw [hchars, pieces_append 1 first.toList second.toList h, ← pieces_below, Nat.add_comm 1]
  rfl

/-- Joined sources have the lines of both. -/
theorem endLine_joined (h : ∀ p ∈ pieces 1 first.toList, p.Closed) (second : String) :
    endLine (first ++ "\n" ++ second) = endLine second + endLine first := by
  unfold endLine
  rw [pieces_joined h, lastLine_append]
  show lastLine (endLine first + 1) _ = _
  rw [Nat.add_comm, lastLine_below]
  rfl

/-- Joined sources have the tokens of both, those of the second further down. -/
theorem tokens_joined (h : ∀ p ∈ pieces 1 first.toList, p.Closed) (second : String) :
    (pieces 1 (first ++ "\n" ++ second).toList).filterMap Piece.token? =
      (pieces 1 first.toList).filterMap Piece.token? ++
        ((pieces 1 second.toList).filterMap Piece.token?).map (below (endLine first)) := by
  rw [pieces_joined h, List.filterMap_append, List.filterMap_cons, List.filterMap_map,
    List.map_filterMap]
  refine congrArg (_ ++ ·) (List.filterMap_congr fun p _ => ?_)
  exact p.token?_below (endLine first)

/-- Joined sources have the errors of both, those of the second further down. -/
theorem errors_joined (h : ∀ p ∈ pieces 1 first.toList, p.Closed) (second : String) :
    (pieces 1 (first ++ "\n" ++ second).toList).filterMap Piece.error? =
      (pieces 1 first.toList).filterMap Piece.error? ++
        ((pieces 1 second.toList).filterMap Piece.error?).map
          (LexicalError.below (endLine first)) := by
  rw [pieces_joined h, List.filterMap_append, List.filterMap_cons, List.filterMap_map,
    List.map_filterMap]
  refine congrArg (_ ++ ·) (List.filterMap_congr fun p _ => ?_)
  exact p.error?_below (endLine first)

/-- The tokens of two sources, the second one below the first. -/
theorem scan_below {ts us : List Token} (hfirst : scan first = .ok ts)
    (hsecond : scan second = .ok us) :
    ∃ k all, scan (first ++ "\n" ++ second) = .ok all ∧
      beforeEnd all = beforeEnd ts ++ (beforeEnd us).map (lines (· + k)).token := by
  obtain ⟨hnone, hts⟩ := scan_eq_ok hfirst
  obtain ⟨hnone', hus⟩ := scan_eq_ok hsecond
  have hclosed : ∀ p ∈ pieces 1 first.toList, p.Closed := by
    intro p hp
    exact Piece.closed_of_error? (hnone p hp)
  have herrors : ∀ p ∈ pieces 1 (first ++ "\n" ++ second).toList, p.error? = none := by
    rw [← List.filterMap_eq_nil_iff, errors_joined hclosed, List.filterMap_eq_nil_iff.mpr hnone,
      List.filterMap_eq_nil_iff.mpr hnone']
    rfl
  obtain ⟨all, hscan, hall⟩ := scan_of_pieces herrors
  refine ⟨endLine first, all, hscan, ?_⟩
  rw [hall, tokens_joined hclosed, hts, hus]
  rfl

/-- If no lexical error of a source is a string without an end, all its strings are closed. -/
theorem closed_of_errors
    (h : ∀ errors, scan first = .error errors → ∀ e ∈ errors, e.cause ≠ .unterminatedString) :
    ∀ p ∈ pieces 1 first.toList, p.Closed := by
  intro p hp hkind
  have herror : p.error? = some ⟨.unterminatedString, p.line⟩ := by
    unfold Piece.error?
    rw [hkind]
  have hmem := List.mem_filterMap.mpr ⟨p, hp, herror⟩
  rcases scan_cases first with ⟨herrors, -⟩ | ⟨-, hscan⟩
  · rw [herrors] at hmem
    cases hmem
  · exact h _ hscan _ hmem rfl

/-- The lexical errors that the scan of a source reports. -/
def reported : Except (List LexicalError) (List Token) → List LexicalError
  | .ok _ => []
  | .error errors => errors

/-- Two sources, the second one below the first, are read as each is read alone, if the first does
not end in an unterminated string: if both have tokens, these are the tokens of the first without
its end and then those of the second, and otherwise the lexical errors of the first and then those
of the second. What comes from the second stands further down by the line on which the first
ends. -/
theorem scan_joined (first second : String)
    (h : ∀ errors, scan first = .error errors → ∀ e ∈ errors, e.cause ≠ .unterminatedString) :
    (∀ ts, scan first = .ok ts → ts.getLast? = some (endOf (endLine first))) ∧
      scan (first ++ "\n" ++ second) =
        match scan first, scan second with
        | .ok ts, .ok us => .ok (ts.dropLast ++ us.map (below (endLine first)))
        | a, b => .error (reported a ++ (reported b).map (LexicalError.below (endLine first))) := by
  have hclosed := closed_of_errors h
  have herrors := errors_joined hclosed second
  constructor
  · intro ts hts
    rcases scan_cases first with ⟨-, hscan⟩ | ⟨-, hscan⟩
    · cases hts.symm.trans hscan
      exact List.getLast?_concat
    · cases hts.symm.trans hscan
  rcases scan_cases (first ++ "\n" ++ second) with ⟨hnone, hscan⟩ | ⟨hsome, hscan⟩
  · -- No piece of the whole is an error, so none is in either source.
    rw [hnone] at herrors
    obtain ⟨hfirst, hsecond⟩ := List.append_eq_nil_iff.mp herrors.symm
    rcases scan_cases first with ⟨-, hts⟩ | ⟨hne, -⟩
    · rcases scan_cases second with ⟨-, hus⟩ | ⟨hne, -⟩
      · rw [hscan, hts, hus, tokens_joined hclosed, endLine_joined hclosed]
        show _ = Except.ok _
        rw [List.dropLast_concat, List.map_append, List.append_assoc]
        rfl
      · exact absurd (List.map_eq_nil_iff.mp hsecond) hne
    · exact absurd hfirst hne
  · rw [herrors] at hsome
    rw [hscan, herrors]
    rcases scan_cases first with ⟨hfirst, hts⟩ | ⟨-, hts⟩
    · rcases scan_cases second with ⟨hsecond, -⟩ | ⟨-, hus⟩
      · rw [hfirst, hsecond] at hsome
        exact absurd rfl hsome
      · rw [hts, hus, hfirst]
        rfl
    · rw [hts]
      rcases scan_cases second with ⟨hsecond, hus⟩ | ⟨-, hus⟩
      · rw [hus, hsecond]
        rfl
      · rw [hus]
        rfl

/-- A minus sign and a greater sign on two lines are no arrow, and errors are those of both
sources. -/
theorem scan_joined_arrow :
    (∀ errors, scan "a # -" = .error errors → ∀ e ∈ errors, e.cause ≠ .unterminatedString) ∧
      scan ("a # -" ++ "\n" ++ "> @") =
        .error [⟨.unexpectedCharacter '#', 1⟩, ⟨.unexpectedCharacter '@', 2⟩] := by
  have hfirst : scan "a # -" = .error [⟨.unexpectedCharacter '#', 1⟩] := by cbv
  have hsecond : scan "> @" = .error [⟨.unexpectedCharacter '@', 1⟩] := by cbv
  have hline : endLine "a # -" = 1 := by cbv
  have hclosed : ∀ errors, scan "a # -" = .error errors →
      ∀ e ∈ errors, e.cause ≠ .unterminatedString := by
    intro errors herrors e he hcause
    cases hfirst.symm.trans herrors
    rw [List.mem_singleton.mp he] at hcause
    cases hcause
  have hjoined := (scan_joined "a # -" "> @" hclosed).2
  rw [hfirst, hsecond, hline] at hjoined
  exact ⟨hclosed, hjoined⟩

end

end Token

end ScriptEngine
