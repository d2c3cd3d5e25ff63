import ScriptEngine.Proofs.Token.Longest
import ScriptEngine.Proofs.Token.Position

/-!
# A source is taken apart without loss

Reading a source takes one piece after the other off it, each where the one before ends, and each
is a whole token, a blank, a comment or the text of an error (`Piece.Fits`), and the longest one. If
there is no error, the texts of the tokens with the blanks and comments between them spell the
source (`Spelled`). This holds of every source (`pieces_partition`).
-/

namespace ScriptEngine.Token

variable {line : Nat} {c : Char} {s text rest : List Char} {p : Piece} {ps : List Piece}

/-- A text that tokens spell with blanks and comments around them. -/
inductive Spelled : List Token → List Char → Prop where
  | done : Spelled [] []
  | blank {ts : List Token} {c : Char} {s : List Char} (hc : isSpace c ∨ c = '\n')
      (h : Spelled ts s) : Spelled ts (c :: s)
  | comment {ts : List Token} {body s : List Char} (hbody : '\n' ∉ body)
      (hend : s = [] ∨ s.head? = some '\n') (h : Spelled ts s) :
      Spelled ts ('/' :: '/' :: (body ++ s))
  | token {t : Token} {ts : List Token} {s : List Char} (ht : Lexeme t.kind t.lexeme.toList)
      (h : Spelled ts s) : Spelled (t :: ts) (t.lexeme.toList ++ s)

/-- A piece that fits and is no error goes on with what spells the text behind it. -/
theorem Piece.Fits.spelled (h : p.Fits s) (herror : p.error? = none)
    (hs : Spelled (ps.filterMap Piece.token?) s) :
    Spelled ((p :: ps).filterMap Piece.token?) (p.text ++ s) := by
  obtain ⟨kind, text, line⟩ := p
  cases kind with
  | token kind literal =>
    obtain ⟨hlexeme, -⟩ := h
    have htoken := Spelled.token (t := ⟨kind, String.ofList text, literal, line⟩)
      (by rw [String.toList_ofList]; exact hlexeme) hs
    rw [String.toList_ofList] at htoken
    exact htoken
  | blank =>
    obtain ⟨c, htext, hc⟩ := h
    cases htext
    exact .blank hc hs
  | comment =>
    obtain ⟨body, htext, hbody, hend⟩ := h
    cases htext
    exact .comment hbody hend hs
  | bad => cases herror

/-- The pieces of a text without errors are spelled by the tokens among them. -/
theorem spelled_pieces (line : Nat) (s : List Char)
    (herrors : (pieces line s).filterMap Piece.error? = []) :
    Spelled ((pieces line s).filterMap Piece.token?) s := by
  fun_induction pieces line s with
  | case1 => exact .done
  | case2 line c rest step =>
    rename_i ih
    have hnone := List.filterMap_eq_nil_iff.mp herrors
    have hrest : (pieces step.1.line step.2).filterMap Piece.error? = [] :=
      List.filterMap_eq_nil_iff.mpr fun p hp => hnone p (List.mem_cons_of_mem _ hp)
    rw [← append_nextPiece line c rest]
    exact (cuts_nextPiece line c rest).fits.spelled (hnone _ List.mem_cons_self) (ih hrest)

/-! ## A whole source -/

/-- Reading by position meets each piece where the pieces before it end. -/
theorem readPiece?_split {before after : List Piece} (h : pieces line s = before ++ p :: after) :
    Position.readPiece? s (before.flatMap (·.text)).length (lastLine line before) =
      some (p, (before.flatMap (·.text)).length + p.text.length) := by
  obtain ⟨c, rest, htext, hnext⟩ := pieces_next h
  have hdrop : s.drop (before.flatMap (·.text)).length = c :: rest := by
    rw [← flatMap_text_pieces line s, h, List.flatMap_append, List.drop_left, List.flatMap_cons,
      htext]
  rw [Position.readPiece?_eq hdrop, hnext]

/-- No token that begins where a piece of a text does is longer than the piece. -/
theorem Lexeme.le_of_split {kind : TokenKind} {t r : List Char} {before after : List Piece}
    (h : Lexeme kind t) (hsplit : pieces line s = before ++ p :: after)
    (ht : p.text ++ after.flatMap (·.text) = t ++ r) : t.length ≤ p.text.length := by
  obtain ⟨c, rest, htext, hnext⟩ := pieces_next hsplit
  have hle := h.length_le (htext.symm.trans ht) (lastLine line before)
  rw [hnext] at hle
  exact hle

/-- Every source is read to its end and never behind it, piece by piece in order, and the pieces
are the source. Each is a token, a blank, a comment or an error, and no longer token begins where it
does. A source without errors is spelled by its tokens, of which only the last one is the end;
otherwise the errors are all reported. -/
theorem pieces_partition (source : String) :
    Position.readFrom? source.toList 0 1 = some (pieces 1 source.toList) ∧
    (pieces 1 source.toList).flatMap (·.text) = source.toList ∧
    (∀ before p after, pieces 1 source.toList = before ++ p :: after →
      Position.readPiece? source.toList (before.flatMap (·.text)).length (lastLine 1 before) =
          some (p, (before.flatMap (·.text)).length + p.text.length) ∧
        p.text ≠ [] ∧ p.Fits (after.flatMap (·.text)) ∧
        ∀ kind t rest, Lexeme kind t → p.text ++ after.flatMap (·.text) = t ++ rest →
          t.length ≤ p.text.length) ∧
    match scan source with
    | .ok tokens =>
      ∃ ts line, tokens = ts ++ [endOf line] ∧
        ts = (pieces 1 source.toList).filterMap Piece.token? ∧
        (∀ t ∈ ts, t.kind ≠ .eof) ∧ Spelled ts source.toList
    | .error errors =>
      errors ≠ [] ∧ errors = (pieces 1 source.toList).filterMap Piece.error? := by
  refine ⟨?_, flatMap_text_pieces 1 source.toList, ?_, ?_⟩
  · rw [Position.readFrom?_eq, List.drop_zero]
  · intro before p after hsplit
    have hcut := pieces_split hsplit
    refine ⟨readPiece?_split hsplit, hcut.text_ne_nil, hcut.fits, ?_⟩
    intro kind t rest hlexeme ht
    exact hlexeme.le_of_split hsplit ht
  · rcases scan_cases source with ⟨herrors, hok⟩ | ⟨herrors, herror⟩
    · rw [hok]
      refine ⟨_, _, rfl, rfl, ?_, spelled_pieces 1 source.toList herrors⟩
      intro t ht
      obtain ⟨p, hp, htoken⟩ := List.mem_filterMap.mp ht
      exact kind_ne_eof hp htoken
    · rw [herror]
      exact ⟨herrors, rfl⟩

end ScriptEngine.Token
