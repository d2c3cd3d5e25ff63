import ScriptEngine.Token.Lexer
import ScriptEngine.Proofs.Scope.Mark

/-!
# How tokens are spelled

A word of a source is a reserved word or an identifier, never both, and it has no parentheses in
it. So no identifier is spelled like one of the names under which `this` and the superclasses are
bound.
-/

namespace ScriptEngine

open Scope

/-- What the kind of a token says about its source text. -/
def Token.Proper (t : Token) : Prop :=
  (t.kind = .identifier → Plain t.lexeme) ∧ (t.kind = .superWord → t.lexeme = "super") ∧
    (t.kind = .thisWord → t.lexeme = "this")

namespace Token

/-- A kind that says nothing about the source text. -/
def Free (kind : TokenKind) : Prop :=
  kind ≠ .identifier ∧ kind ≠ .superWord ∧ kind ≠ .thisWord

/-- A token of a kind whose text is free is proper. -/
theorem proper_of_free {t : Token} (h : Free t.kind) : t.Proper :=
  ⟨fun hk => absurd hk h.1, fun hk => absurd hk h.2.1, fun hk => absurd hk h.2.2⟩

theorem free_single? {c : Char} {kind : TokenKind} (h : single? c = some kind) : Free kind := by
  unfold single? at h
  split at h
  all_goals simp only [Option.some.injEq, reduceCtorEq] at h
  all_goals subst h; exact ⟨by decide, by decide, by decide⟩

/-- Tokens of one or two characters are free. -/
theorem free_paired? {c second : Char} {pair alone : TokenKind}
    (h : paired? c = some (second, pair, alone)) : Free pair ∧ Free alone := by
  unfold paired? at h
  split at h
  all_goals simp only [Option.some.injEq, Prod.mk.injEq, reduceCtorEq] at h
  all_goals
    obtain ⟨-, rfl, rfl⟩ := h
    exact ⟨⟨by decide, by decide, by decide⟩, ⟨by decide, by decide, by decide⟩⟩

theorem keyword?_ne_identifier (word : String) :
    TokenKind.keyword? word ≠ some .identifier := by
  unfold TokenKind.keyword?
  split <;> simp

/-- Only one word names the superclass. -/
theorem keyword?_super {word : String} (h : TokenKind.keyword? word = some .superWord) :
    word = "super" := by
  unfold TokenKind.keyword? at h
  split at h <;> simp_all

theorem keyword?_this {word : String} (h : TokenKind.keyword? word = some .thisWord) :
    word = "this" := by
  unfold TokenKind.keyword? at h
  split at h <;> simp_all

/-- A word that is no reserved word, made of characters that may stand in a name. -/
theorem plain_word {word : String} (hkey : TokenKind.keyword? word = none)
    (hchars : ∀ c ∈ word.toList, isNameChar c = true) : Plain word := by
  refine ⟨?_, ?_, ?_⟩
  · rintro rfl
    exact absurd hkey (by decide)
  · rintro rfl
    exact absurd hkey (by decide)
  -- The superclasses are bound under names with parentheses.
  · rintro className rfl
    have hparen : '(' ∈ (superBinding className).toList := by
      simp [superBinding]
    exact absurd (hchars '(' hparen) (by decide)

/-- What may begin a name may stand in it. -/
theorem isNameChar_of_start {c : Char} (h : isNameStart c = true) : isNameChar c = true := by
  simp [isNameChar, h]

/-- The token that a word is. -/
theorem proper_word (c : Char) (rest : List Char) (line : Nat) (h : isNameStart c = true) :
    Token.Proper ⟨(TokenKind.keyword? (String.ofList (c :: rest.takeWhile isNameChar))).getD
      .identifier, String.ofList (c :: rest.takeWhile isNameChar), none, line⟩ := by
  -- A word whose kind is that of a reserved word is one.
  have hreserved : ∀ kind, kind ≠ .identifier →
      (TokenKind.keyword? (String.ofList (c :: rest.takeWhile isNameChar))).getD .identifier =
        kind →
      TokenKind.keyword? (String.ofList (c :: rest.takeWhile isNameChar)) = some kind := by
    intro kind hne hkind
    cases hkey : TokenKind.keyword? (String.ofList (c :: rest.takeWhile isNameChar)) with
    | none =>
      rw [hkey] at hkind
      exact absurd hkind.symm hne
    | some kind' =>
      rw [hkey, Option.getD_some] at hkind
      rw [hkind]
  refine ⟨?_, fun hkind => keyword?_super (hreserved _ (by decide) hkind),
    fun hkind => keyword?_this (hreserved _ (by decide) hkind)⟩
  · intro hkind
    dsimp only at hkind ⊢
    cases hkey : TokenKind.keyword? (String.ofList (c :: rest.takeWhile isNameChar)) with
    | none =>
      refine plain_word hkey fun d hd => ?_
      simp only [String.toList_ofList, List.mem_cons] at hd
      rcases hd with rfl | hd
      · exact isNameChar_of_start h
      · exact List.all_eq_true.mp List.all_takeWhile d hd
    -- A reserved word has a kind of its own.
    | some kind =>
      rw [hkey, Option.getD_some] at hkind
      exact absurd (hkind ▸ hkey) (keyword?_ne_identifier _)

/-- The token that a piece is, if it is one, is spelled as its kind says. -/
def Piece.Proper (p : Piece) : Prop :=
  ∀ t, p.token? = some t → t.Proper

/-- A piece that holds a free token is proper. -/
theorem Piece.proper_of_free {kind : TokenKind} {literal : Option TokenLiteral}
    {text : List Char} {line : Nat} (h : Free kind) :
    Piece.Proper ⟨.token kind literal, text, line⟩ := by
  intro t ht
  simp only [Piece.token?, Option.some.injEq] at ht
  subst ht
  exact Token.proper_of_free h

/-- The next piece of any source is proper. -/
theorem proper_nextPiece (line : Nat) (c : Char) (rest : List Char) :
    (nextPiece line c rest).1.Proper := by
  have hnone : ∀ p : Piece, p.token? = none → p.Proper := by
    intro p hp t ht
    rw [hp] at ht
    exact absurd ht (by simp)
  unfold nextPiece
  split
  · next kind hkind => exact Piece.proper_of_free (free_single? hkind)
  · next second pair alone _ hpair =>
    obtain ⟨hp, ha⟩ := free_paired? hpair
    split
    · exact Piece.proper_of_free ha
    · split
      · exact Piece.proper_of_free hp
      · exact Piece.proper_of_free ha
  · split
    · split
      · exact hnone _ rfl
      · exact Piece.proper_of_free ⟨by decide, by decide, by decide⟩
    · split
      · exact hnone _ rfl
      · split
        · exact hnone _ rfl
        · split
          · split
            · exact Piece.proper_of_free ⟨by decide, by decide, by decide⟩
            · exact hnone _ rfl
          · split
            · exact Piece.proper_of_free ⟨by decide, by decide, by decide⟩
            · split
              -- Only here is a piece a word; every kind above is free.
              · next hname =>
                intro t ht
                simp only [Piece.token?, Option.some.injEq] at ht
                subst ht
                exact proper_word c rest line hname
              · exact hnone _ rfl

theorem proper_pieces (line : Nat) (s : List Char) : ∀ p ∈ pieces line s, p.Proper := by
  fun_induction pieces line s with
  | case1 => simp
  | case2 line c rest step ih =>
    intro p hp
    rcases List.mem_cons.mp hp with rfl | hp
    · exact proper_nextPiece line c rest
    · exact ih p hp

/-- Every token of a source is spelled as its kind says. -/
theorem proper_scan {source : String} {tokens : List Token} (h : scan source = .ok tokens) :
    ∀ t ∈ tokens, t.Proper := by
  unfold scan at h
  dsimp only at h
  split at h
  · simp only [Except.ok.injEq] at h
    subst h
    intro t ht
    rcases List.mem_append.mp ht with ht | ht
    · obtain ⟨p, hp, hpt⟩ := List.mem_filterMap.mp ht
      exact proper_pieces 1 _ p hp t hpt
    · rw [List.mem_singleton.mp ht]
      exact proper_of_free (t := endOf _) ⟨by simp [endOf], by simp [endOf], by simp [endOf]⟩
  · exact absurd h (by simp)

end Token

end ScriptEngine
