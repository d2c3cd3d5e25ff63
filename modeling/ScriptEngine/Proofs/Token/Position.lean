import ScriptEngine.Proofs.Token.Decoding

/-!
# Reading a source by position

`pieces` takes a source apart as a list. A source can also be read with a position that moves over
it, and then two things may go wrong: a character may be taken where there is none, and the null
character, which a look behind the end shows, may be mistaken for one that stands there. Here
taking a character behind the end, or a text that reaches behind it, has no result. Reading by
position has a result for every source, and it is the pieces (`readFrom?_eq`).
-/

namespace ScriptEngine.Token.Position

section

variable (s : List Char)

/-- The character at a position, or the null character behind the end. -/
def look (i : Nat) : Char := (s[i]?).getD '\x00'

/-- The position is the end of the text. -/
def AtEnd (i : Nat) : Prop := s.length ≤ i

instance (i : Nat) : Decidable (AtEnd s i) := inferInstanceAs (Decidable (_ ≤ _))

/-- A character stands at a position. -/
def Ahead (i : Nat) (c : Char) : Prop := look s i = c ∧ ¬ AtEnd s i

instance (i : Nat) (c : Char) : Decidable (Ahead s i c) := inferInstanceAs (Decidable (_ ∧ _))

/-- The text from one position to another one that is not behind the end. -/
def slice? (start stop : Nat) : Option (List Char) :=
  if start ≤ stop ∧ stop ≤ s.length then some ((s.take stop).drop start) else none

/-- Takes characters as long as a test of the position holds. -/
def takeWhile? (test : Nat → Bool) (i : Nat) : Option Nat :=
  if test i then
    if i < s.length then takeWhile? test (i + 1) else none
  else some i
termination_by s.length - i

/-- The character named by a code point in braces, if there is one at the position. -/
def codePointAt? (i : Nat) : Option Char :=
  if look s i = '\x7b' then
    (slice? s (i + 1) (i + 5)).bind fun digits =>
      if s[i + 5]? = some '\x7d' then codePoint? digits else none
  else none

/-- Takes what stands behind a backslash: the next position and what has been read. -/
def takeEscape? (i : Nat) : Option (Nat × List Char) :=
  (s[i]?).map fun d =>
    match simpleEscape? d with
    | some e => (i + 1, [e])
    | none =>
      if d = 'u' then
        match codePointAt? s (i + 1) with
        | some e => (i + 7, [e])
        | none => (i + 1, ['\\', 'u'])
      else (i + 1, ['\\', d])

theorem takeEscape?_lt {i j : Nat} {text : List Char} (h : takeEscape? s i = some (j, text)) :
    i < j := by
  obtain ⟨d, -, heq⟩ := Option.map_eq_some_iff.mp h
  split at heq
  · cases heq
    omega
  · split at heq
    · split at heq
      · cases heq
        omega
      · cases heq
        omega
    · cases heq
      omega

/-- Takes the rest of a string up to its closing quote: the position of the quote, or of the end
of the text, the line reached and what has been read. -/
def takeString? (quote : Char) (i line : Nat) (value : List Char) :
    Option (Nat × Nat × List Char) :=
  if look s i ≠ quote ∧ ¬ AtEnd s i then
    match s[i]? with
    | none => none
    | some c =>
      if c = '\n' then takeString? quote (i + 1) (line + 1) (value ++ [c])
      else if c = '\\' ∧ ¬ AtEnd s (i + 1) then
        match _h : takeEscape? s (i + 1) with
        | none => none
        | some (j, text) => takeString? quote j line (value ++ text)
      else takeString? quote (i + 1) line (value ++ [c])
  else some (i, line, value)
termination_by s.length - i
decreasing_by
  all_goals simp only [AtEnd] at *
  · omega
  · have := takeEscape?_lt s _h
    omega
  · omega

/-- A piece that reaches to a position, and the position. -/
def piece? (start : Nat) (kind : PieceKind) (stop line : Nat) : Option (Piece × Nat) :=
  (slice? s start stop).map fun text => (⟨kind, text, line⟩, stop)

/-- Reads a string behind its opening quote. -/
def readString? (quote : Char) (start line : Nat) : Option (Piece × Nat) :=
  (takeString? s quote (start + 1) line []).bind fun (i, line, value) =>
    if AtEnd s i then piece? s start (.bad .unterminatedString) i line
    else
      (s[i]?).bind fun _ =>
        piece? s start (.token .string (some (.string (String.ofList value)))) (i + 1) line

/-- Takes the fraction of a number. -/
def takeFraction? (i : Nat) : Option Nat :=
  if look s i = '.' ∧ (look s (i + 1)).isDigit then
    (s[i]?).bind fun _ => takeWhile? s (fun j => (look s j).isDigit) (i + 1)
  else some i

/-- Reads a number behind its first digit. -/
def readNumber? (start line : Nat) : Option (Piece × Nat) :=
  (takeWhile? s (fun j => (look s j).isDigit) (start + 1)).bind fun i =>
    (takeFraction? s i).bind fun j =>
      (slice? s start j).bind fun text =>
        piece? s start (.token .number (some (.number (numberValue text)))) j line

/-- Reads a name or a reserved word behind its first character. -/
def readWord? (start line : Nat) : Option (Piece × Nat) :=
  (takeWhile? s (fun j => isNameChar (look s j)) (start + 1)).bind fun i =>
    (slice? s start i).bind fun text =>
      piece? s start (.token ((TokenKind.keyword? (String.ofList text)).getD .identifier) none) i
        line

/-- Reads a comment behind its two slashes. -/
def readComment? (start line : Nat) : Option (Piece × Nat) :=
  (takeWhile? s (fun j => look s j ≠ '\n' ∧ ¬ AtEnd s j) (start + 2)).bind fun i =>
    piece? s start .comment i line

/-- Reads the piece that begins at a position, and gives the position behind it. -/
def readPiece? (start line : Nat) : Option (Piece × Nat) :=
  (s[start]?).bind fun c =>
    match single? c, paired? c with
    | some kind, _ => piece? s start (.token kind none) (start + 1) line
    | none, some (second, pair, alone) =>
      if Ahead s (start + 1) second then piece? s start (.token pair none) (start + 2) line
      else piece? s start (.token alone none) (start + 1) line
    | none, none =>
      if c = '/' then
        if Ahead s (start + 1) '/' then readComment? s start line
        else piece? s start (.token .slash none) (start + 1) line
      else if c = '\n' then piece? s start .blank (start + 1) (line + 1)
      else if c = ' ' ∨ c = '\r' ∨ c = '\t' then piece? s start .blank (start + 1) line
      else if c = '\'' ∨ c = '"' then readString? s c start line
      else if c.isDigit then readNumber? s start line
      else if isNameStart c then readWord? s start line
      else piece? s start (.bad (.unexpectedCharacter c)) (start + 1) line

end

variable {s t rest after body text : List Char} {i line start : Nat} {c quote : Char}

/-! ## Looking and taking

What stands at a position is the beginning of what is left when the text before it is dropped. -/

theorem drop_succ (h : s.drop i = c :: rest) : s.drop (i + 1) = rest := by
  rw [← List.drop_drop, h]
  rfl

theorem drop_add (h : s.drop i = t ++ rest) : s.drop (i + t.length) = rest := by
  rw [← List.drop_drop, h, List.drop_left]

theorem getElem?_of_drop (h : s.drop i = c :: rest) : s[i]? = some c := by
  rw [← List.head?_drop, h]
  rfl

/-- At a position with a character left it is the one that is looked at. -/
theorem look_of_drop (h : s.drop i = c :: rest) : look s i = c := by
  unfold look
  rw [getElem?_of_drop h]
  rfl

/-- At the end the null character is looked at. -/
theorem look_end (h : s.drop i = []) : look s i = '\x00' := by
  unfold look
  rw [← List.head?_drop, h]
  rfl

theorem atEnd_iff : AtEnd s i ↔ s.drop i = [] := List.drop_eq_nil_iff.symm

theorem not_atEnd (h : s.drop i = c :: rest) : ¬ AtEnd s i := by
  rw [atEnd_iff, h]
  exact List.cons_ne_nil c rest

/-- A character is ahead if it is the first that is left. -/
theorem ahead_iff (h : s.drop i = t) : Ahead s i c ↔ t.head? = some c := by
  unfold Ahead
  cases t with
  | nil => simp [atEnd_iff.mpr h]
  | cons d t => simp [look_of_drop h, not_atEnd h]

/-- A slice up to a later position is what stands between. -/
theorem slice?_of_drop (h : s.drop i = text ++ after) (hne : text ≠ []) :
    slice? s i (i + text.length) = some text := by
  have hlength := congrArg List.length h
  have hpos := List.length_pos_iff.mpr hne
  rw [List.length_drop, List.length_append] at hlength
  unfold slice?
  rw [if_pos ⟨by omega, by omega⟩, List.drop_take, h, Nat.add_sub_cancel_left]
  exact congrArg some List.take_left

/-- A piece up to a later position has the text between. -/
theorem piece?_of_drop {kind : PieceKind} (h : s.drop start = text ++ after) (hne : text ≠ []) :
    piece? s start kind (start + text.length) line =
      some (⟨kind, text, line⟩, start + text.length) := by
  unfold piece?
  rw [slice?_of_drop h hne]
  rfl

/-- A test that holds only where there is a character of a class takes all of them and no more. -/
theorem takeWhile?_eq {test : Nat → Bool} {p : Char → Bool} (hend : ∀ i, s.drop i = [] → ¬ test i)
    (htest : ∀ i c rest, s.drop i = c :: rest → test i = p c) (i : Nat) :
    takeWhile? s test i = some (i + ((s.drop i).takeWhile p).length) := by
  generalize hdrop : s.drop i = t
  induction t generalizing i with
  | nil =>
    rw [takeWhile?, if_neg (hend i hdrop)]
    rfl
  | cons c t ih =>
    rw [takeWhile?, htest i c t hdrop]
    cases hc : p c with
    | false =>
      rw [List.takeWhile_cons_of_neg (by simp [hc])]
      rfl
    | true =>
      have hlt : i < s.length := Nat.lt_of_not_le (not_atEnd hdrop)
      rw [if_pos rfl, if_pos hlt, ih (i + 1) (drop_succ hdrop), List.takeWhile_cons_of_pos hc,
        List.length_cons]
      congr 1
      omega

/-- The null character is in none of the classes of names and numbers, so that the end of the text
stops them. -/
theorem takeWhile?_class {p : Char → Bool} (hp : p '\x00' = false) (i : Nat) :
    takeWhile? s (fun j => p (look s j)) i = some (i + ((s.drop i).takeWhile p).length) := by
  apply takeWhile?_eq
  · intro j hj
    rw [look_end hj, hp]
    decide
  · intro j c rest hj
    rw [look_of_drop hj]

/-- A comment has null characters in it, so that its end is looked for. -/
theorem takeWhile?_comment (i : Nat) :
    takeWhile? s (fun j => look s j ≠ '\n' ∧ ¬ AtEnd s j) i =
      some (i + ((s.drop i).takeWhile (· != '\n')).length) := by
  apply takeWhile?_eq
  · intro j hj
    simp [atEnd_iff.mpr hj]
  · intro j c rest hj
    simp [look_of_drop hj, not_atEnd hj, bne]
    rfl

/-- A fraction is taken by position as it is from the list. -/
theorem takeFraction?_eq (i : Nat) :
    takeFraction? s i = some (i + (takeFraction (s.drop i)).1.length) := by
  unfold takeFraction?
  cases hdrop : s.drop i with
  | nil =>
    rw [look_end hdrop]
    rfl
  | cons c rest =>
    have hrest := drop_succ hdrop
    rw [look_of_drop hdrop]
    by_cases hc : c = '.'
    · subst hc
      cases rest with
      | nil =>
        rw [look_end hrest]
        rfl
      | cons d rest =>
        rw [look_of_drop hrest, takeFraction]
        cases hd : d.isDigit with
        | false => simp
        | true =>
          rw [if_pos ⟨rfl, rfl⟩, getElem?_of_drop hdrop, if_pos rfl, Option.bind_some,
            takeWhile?_class (by decide), hrest, List.takeWhile_cons_of_pos hd]
          simp only [List.length_cons]
          congr 1
          omega
    · rw [if_neg fun h => hc h.1, takeFraction.eq_def]
      split
      · next heq => exact absurd (List.cons.inj heq).1 hc
      · rfl

/-! ## Strings -/

/-- The text between two positions stands in front of the text behind them. -/
theorem drop_of_slice? {stop : Nat} (h : slice? s start stop = some text) :
    s.drop start = text ++ s.drop stop ∧ text.length = stop - start := by
  unfold slice? at h
  split at h
  · next hle =>
    cases h
    constructor
    · rw [List.drop_take, show stop = start + (stop - start) by omega, ← List.drop_drop,
        Nat.add_sub_cancel_left, List.take_append_drop]
    · rw [List.length_drop, List.length_take]
      omega
  · cases h

/-- A look ahead for a code point sees what stands there. -/
theorem codePointAt?_iff {e : Char} (hdrop : s.drop i = t) :
    codePointAt? s i = some e ↔ ∃ after, braced? t = some (e, after) := by
  unfold codePointAt?
  constructor
  · intro h
    split at h
    · next hbrace =>
      obtain ⟨digits, hslice, h⟩ := Option.bind_eq_some_iff.mp h
      split at h
      · next hclose =>
        obtain ⟨hdigits, hlength⟩ := drop_of_slice? hslice
        obtain ⟨after, hafter⟩ : ∃ after, s.drop (i + 5) = '\x7d' :: after := by
          rw [← List.head?_drop] at hclose
          exact List.head?_eq_some_iff.mp hclose
        cases t with
        | nil =>
          rw [look_end hdrop] at hbrace
          cases hbrace
        | cons c t =>
          rw [look_of_drop hdrop] at hbrace
          rw [← drop_succ hdrop, hdigits, hafter, hbrace]
          obtain ⟨w, x, y, z, rfl⟩ : ∃ w x y z, digits = [w, x, y, z] := by
            rcases digits with _ | ⟨w, _ | ⟨x, _ | ⟨y, _ | ⟨z, _ | ⟨_, _⟩⟩⟩⟩⟩ <;>
              simp only [List.length_cons, List.length_nil] at hlength <;> try omega
            exact ⟨w, x, y, z, rfl⟩
          exact ⟨after, braced?_iff.mpr ⟨_, rfl, codePoint?_iff.mp h⟩⟩
      · cases h
    · cases h
  · rintro ⟨after, hbraced⟩
    obtain ⟨ds, rfl, hcode⟩ := braced?_iff.mp hbraced
    obtain ⟨w, x, y, z, rfl⟩ := hcode.four
    have hdigits := drop_succ hdrop
    have hslice : slice? s (i + 1) (i + 5) = some [w, x, y, z] :=
      slice?_of_drop (show s.drop (i + 1) = [w, x, y, z] ++ '\x7d' :: after from hdigits) (by simp)
    have hclose : s.drop (i + 5) = '\x7d' :: after := drop_add (t := [w, x, y, z]) hdigits
    rw [look_of_drop hdrop, if_pos rfl, hslice, Option.bind_some,
      if_pos (getElem?_of_drop hclose), codePoint?_iff.mpr hcode]

section

variable {d e : Char}

/-- A letter of the table is read as its character. -/
theorem takeEscape?_letter (hdrop : s.drop i = d :: rest) (h : simpleEscape? d = some e) :
    takeEscape? s i = some (i + 1, [e]) := by
  unfold takeEscape?
  rw [getElem?_of_drop hdrop, Option.map_some, h]

/-- A code point in braces is read as its character. -/
theorem takeEscape?_codePoint (hdrop : s.drop i = 'u' :: rest)
    (h : braced? rest = some (e, after)) : takeEscape? s i = some (i + 7, [e]) := by
  unfold takeEscape?
  rw [getElem?_of_drop hdrop, Option.map_some, (codePointAt?_iff (drop_succ hdrop)).mpr ⟨after, h⟩]
  rfl

/-- Any other character behind a backslash is kept with it. -/
theorem takeEscape?_kept (hdrop : s.drop i = d :: rest) (hletter : simpleEscape? d = none)
    (hcode : d = 'u' → braced? rest = none) : takeEscape? s i = some (i + 1, ['\\', d]) := by
  unfold takeEscape?
  rw [getElem?_of_drop hdrop, Option.map_some, hletter]
  dsimp only
  split
  · next hd =>
    subst hd
    cases h : codePointAt? s (i + 1) with
    | none => rfl
    | some e =>
      obtain ⟨after, hbraced⟩ := (codePointAt?_iff (drop_succ hdrop)).mp h
      cases (hcode rfl).symm.trans hbraced
  · rfl

end

/-- The part of a text that belongs to a string which has been opened before it: all of it, if the
string does not end. -/
def inside (quote : Char) (t : List Char) : List Char :=
  ((splitQuoted quote t).map (·.1)).getD t

/-- A plain character is inside the literal. -/
theorem inside_plain (hquote : c ≠ quote) (hc : c ≠ '\\') (t : List Char) :
    inside quote (c :: t) = c :: inside quote t := by
  unfold inside
  rw [splitQuoted.eq_def]
  dsimp only
  rw [if_neg hquote, if_neg hc]
  cases splitQuoted quote t <;> rfl

theorem inside_pair (hquote : '\\' ≠ quote) (d : Char) (t : List Char) :
    inside quote ('\\' :: d :: t) = '\\' :: d :: inside quote t := by
  unfold inside
  rw [splitQuoted.eq_def]
  dsimp only
  rw [if_neg hquote, if_pos rfl]
  cases splitQuoted quote t <;> rfl

theorem inside_append {ds : List Char} (h : ∀ c ∈ ds, c ≠ quote ∧ c ≠ '\\') (t : List Char) :
    inside quote (ds ++ t) = ds ++ inside quote t := by
  induction ds with
  | nil => rfl
  | cons c ds ih =>
    obtain ⟨hc, hds⟩ := List.forall_mem_cons.mp h
    rw [List.cons_append, inside_plain hc.1 hc.2, ih hds]
    rfl

/-- A string takes all of a code point. -/
theorem inside_codePoint {ds : List Char} {e : Char} (hquote : isQuote quote)
    (h : ReadCode ds e) (t : List Char) :
    inside quote ('\\' :: 'u' :: '\x7b' :: (ds ++ '\x7d' :: t)) =
      '\\' :: 'u' :: '\x7b' :: (ds ++ '\x7d' :: inside quote t) := by
  have hplain : '\x7b' ≠ quote ∧ '\x7d' ≠ quote ∧ quote ∉ ds := by
    rcases hquote with rfl | rfl
    · exact ⟨by decide, by decide, h.not_mem rfl (by decide)⟩
    · exact ⟨by decide, by decide, h.not_mem rfl (by decide)⟩
  obtain ⟨hopen, hclose, hds⟩ := hplain
  rw [inside_pair hquote.ne_slash, inside_plain hopen (by decide), inside_append,
    inside_plain hclose (by decide)]
  intro c hc
  exact ⟨fun h => hds (h ▸ hc), h.ne_slash c hc⟩

/-- Behind a backslash at the end there is nothing to escape. -/
theorem inside_slash (hquote : '\\' ≠ quote) : inside quote ['\\'] = ['\\'] := by
  unfold inside
  rw [splitQuoted.eq_def]
  dsimp only
  rw [if_neg hquote]
  rfl

/-- What a string takes of a text stands at its beginning. -/
theorem exists_inside (quote : Char) (t : List Char) : ∃ after, t = inside quote t ++ after := by
  unfold inside
  cases h : splitQuoted quote t with
  | none => exact ⟨[], (List.append_nil t).symm⟩
  | some parts => exact ⟨quote :: parts.2, (splitQuoted_append h).symm⟩

/-- What is no code point in a text is none in the string that begins the text. -/
theorem braced?_inside (h : braced? t = none) (quote : Char) : braced? (inside quote t) = none := by
  obtain ⟨after, ht⟩ := exists_inside quote t
  cases hbraced : braced? (inside quote t) with
  | none => rfl
  | some found =>
    obtain ⟨e, r⟩ := found
    obtain ⟨ds, hinside, hcode⟩ := braced?_iff.mp hbraced
    have hfound : t = '\x7b' :: (ds ++ '\x7d' :: (r ++ after)) := by
      rw [hinside, List.cons_append, List.append_assoc] at ht
      exact ht
    cases h.symm.trans (braced?_iff.mpr ⟨ds, hfound, hcode⟩)

theorem inside_quote (quote : Char) (t : List Char) : inside quote (quote :: t) = [] := by
  unfold inside
  rw [splitQuoted.eq_def]
  dsimp only
  rw [if_pos rfl]
  rfl

/-- A plain character is counted if it is a line break. -/
theorem lineBreaks_cons (hc : c ≠ '\\') (t : List Char) :
    lineBreaks (c :: t) = lineBreaks t + if c = '\n' then 1 else 0 := by
  rw [lineBreaks.eq_def]
  dsimp only
  rw [if_neg hc]
  split <;> rfl

/-- An escaped line break is not counted. -/
theorem lineBreaks_pair (d : Char) (t : List Char) :
    lineBreaks ('\\' :: d :: t) = lineBreaks t := by
  rw [lineBreaks.eq_def]
  rfl

/-- Plain characters without a line break are not counted. -/
theorem lineBreaks_append {ds : List Char} (h : ∀ c ∈ ds, c ≠ '\\' ∧ c ≠ '\n') (t : List Char) :
    lineBreaks (ds ++ t) = lineBreaks t := by
  induction ds with
  | nil => rfl
  | cons c ds ih =>
    obtain ⟨hc, hds⟩ := List.forall_mem_cons.mp h
    rw [List.cons_append, lineBreaks_cons hc.1, if_neg hc.2, Nat.add_zero, ih hds]

/-- There is no line break in a code point. -/
theorem lineBreaks_codePoint {ds : List Char} {e : Char} (h : ReadCode ds e) (t : List Char) :
    lineBreaks ('\\' :: 'u' :: '\x7b' :: (ds ++ '\x7d' :: t)) = lineBreaks t := by
  rw [lineBreaks_pair, lineBreaks_cons (by decide), lineBreaks_append, lineBreaks_cons (by decide)]
  · rfl
  · intro c hc
    exact ⟨h.ne_slash c hc, fun hbreak => h.not_mem rfl (by decide) (hbreak ▸ hc)⟩

/-- A string is read up to its quote or to the end of the text. -/
theorem takeString?_stop (value : List Char) (h : look s i = quote ∨ AtEnd s i) :
    takeString? s quote i line value = some (i, line, value) := by
  rw [takeString?.eq_def, if_neg]
  rintro ⟨hlook, hend⟩
  rcases h with h | h
  · exact hlook h
  · exact hend h

/-- A character that begins no escape is taken as it is. -/
theorem takeString?_char (value : List Char) (hdrop : s.drop i = c :: rest) (hquote : c ≠ quote)
    (hc : c ≠ '\\' ∨ rest = []) :
    takeString? s quote i line value =
      takeString? s quote (i + 1) (line + if c = '\n' then 1 else 0) (value ++ [c]) := by
  rw [takeString?.eq_def, look_of_drop hdrop, if_pos ⟨hquote, not_atEnd hdrop⟩,
    getElem?_of_drop hdrop]
  dsimp only
  split
  · rfl
  · rw [if_neg]
    · rfl
    · rintro ⟨hslash, hend⟩
      rcases hc with hc | hc
      · exact hc hslash
      · exact hend (atEnd_iff.mpr ((drop_succ hdrop).trans hc))

/-- A backslash is taken with what it escapes. -/
theorem takeString?_escape {d : Char} {j : Nat} (value : List Char)
    (hdrop : s.drop i = '\\' :: d :: rest) (hquote : '\\' ≠ quote)
    (hescape : takeEscape? s (i + 1) = some (j, text)) :
    takeString? s quote i line value = takeString? s quote j line (value ++ text) := by
  rw [takeString?.eq_def, look_of_drop hdrop, if_pos ⟨hquote, not_atEnd hdrop⟩,
    getElem?_of_drop hdrop]
  dsimp only
  rw [if_neg (by decide), if_pos ⟨rfl, not_atEnd (drop_succ hdrop)⟩]
  split
  · next heq => cases heq.symm.trans hescape
  · next heq =>
    cases heq.symm.trans hescape
    rfl

/-- What one escape takes: the text `x` of it, which belongs to the string, holds no line break that
is counted, and stands for what is read. -/
theorem takeEscape?_eq {d : Char} (hquote : isQuote quote) (hdrop : s.drop i = '\\' :: d :: t) :
    ∃ x text after, takeEscape? s (i + 1) = some (i + x.length, text) ∧
      s.drop (i + x.length) = after ∧ after.length < ('\\' :: d :: t).length ∧
      inside quote ('\\' :: d :: t) = x ++ inside quote after ∧
      lineBreaks (x ++ inside quote after) = lineBreaks (inside quote after) ∧
      decodeQuoted (x ++ inside quote after) = text ++ decodeQuoted (inside quote after) := by
  have hd := drop_succ hdrop
  have hlt : t.length < ('\\' :: d :: t).length := by
    simp only [List.length_cons]
    omega
  cases hletter : simpleEscape? d with
  | some e =>
    exact ⟨['\\', d], [e], t, takeEscape?_letter hd hletter, drop_succ hd, hlt,
      inside_pair hquote.ne_slash d t, lineBreaks_pair d _, decodeQuoted_letter hletter _⟩
  | none =>
    by_cases hcode : ∃ e after, d = 'u' ∧ braced? t = some (e, after)
    · obtain ⟨e, after, rfl, hbraced⟩ := hcode
      obtain ⟨ds, rfl, hread⟩ := braced?_iff.mp hbraced
      obtain ⟨w, x, y, z, rfl⟩ := hread.four
      have hafter : s.drop (i + 8) = after :=
        drop_add (t := ['\\', 'u', '\x7b', w, x, y, z, '\x7d']) hdrop
      exact ⟨['\\', 'u', '\x7b', w, x, y, z, '\x7d'], [e], after, takeEscape?_codePoint hd hbraced,
        hafter, (braced?_length hbraced).trans hlt, inside_codePoint hquote hread after,
        lineBreaks_codePoint hread _, decodeQuoted_codePoint (braced?_iff.mpr ⟨_, rfl, hread⟩)⟩
    · have hnone : d = 'u' → braced? t = none := by
        rintro rfl
        cases hbraced : braced? t with
        | none => rfl
        | some found => exact absurd ⟨_, _, rfl, hbraced⟩ hcode
      exact ⟨['\\', d], ['\\', d], t, takeEscape?_kept hd hletter hnone, drop_succ hd, hlt,
        inside_pair hquote.ne_slash d t, lineBreaks_pair d _,
        decodeQuoted_kept hletter fun hu => braced?_inside (hnone hu) quote⟩

/-- Reading a string by position takes what belongs to it, counts the line breaks in it and decodes
it. The induction is on what is left of the text, since an escape may take more than one step. -/
theorem takeString?_eq (hquote : isQuote quote) (hdrop : s.drop i = t) (line : Nat)
    (value : List Char) :
    takeString? s quote i line value =
      some (i + (inside quote t).length, line + lineBreaks (inside quote t),
        value ++ decodeQuoted (inside quote t)) := by
  induction hn : t.length using Nat.strong_induction_on generalizing t i line value with
  | _ n ih =>
  subst hn
  cases t with
  | nil =>
    rw [takeString?_stop value (.inr (atEnd_iff.mpr hdrop)), show inside quote [] = [] from rfl,
      decodeQuoted, List.append_nil]
    rfl
  | cons c t =>
    by_cases hcq : c = quote
    · subst hcq
      rw [takeString?_stop value (.inl (look_of_drop hdrop)), inside_quote, decodeQuoted,
        List.append_nil]
      rfl
    by_cases hslash : c = '\\'
    · subst hslash
      cases t with
      | nil =>
        rw [takeString?_char value hdrop hcq (.inr rfl), takeString?_stop _
          (.inr (atEnd_iff.mpr (drop_succ hdrop))), inside_slash hcq, decodeQuoted.eq_def ['\\']]
        rfl
      | cons d t =>
        obtain ⟨x, text, after, hescape, hafter, hlt, hinside, hbreaks, hdecoded⟩ :=
          takeEscape?_eq hquote hdrop
        rw [takeString?_escape value hdrop hcq hescape, ih after.length hlt hafter _ _ rfl, hinside,
          hbreaks, hdecoded, List.length_append, List.append_assoc, Nat.add_assoc]
    · rw [takeString?_char value hdrop hcq (.inl hslash),
        ih t.length (Nat.lt_succ_self _) (drop_succ hdrop) _ _ rfl, inside_plain hcq hslash,
        lineBreaks_cons hslash, decodeQuoted_plain hslash, List.append_assoc]
      simp only [List.length_cons, List.singleton_append]
      congr 2
      · omega
      · congr 1
        omega

/-- A text that ends the string it is in has its quote behind the string. -/
theorem splitQuoted_inside (h : splitQuoted quote t = some (body, after)) :
    inside quote t = body ∧ t = body ++ quote :: after := by
  unfold inside
  rw [h]
  exact ⟨rfl, (splitQuoted_append h).symm⟩

/-! ## Pieces -/

section

variable (hdrop : s.drop i = c :: rest) (line : Nat)

include hdrop

/-- A string that ends is read as a token with its decoding. -/
theorem readString?_some (hquote : isQuote c) (h : splitQuoted c rest = some (body, after)) :
    readString? s c i line =
      some (⟨.token .string (some (.string (String.ofList (decodeQuoted body)))),
        c :: (body ++ [c]), line + lineBreaks body⟩, i + (c :: (body ++ [c])).length) := by
  obtain ⟨hinside, htext⟩ := splitQuoted_inside h
  have hclose : s.drop (i + 1 + body.length) = c :: after :=
    drop_add ((drop_succ hdrop).trans htext)
  have hstop : i + 1 + body.length + 1 = i + (c :: (body ++ [c])).length := by
    rw [List.length_cons, List.length_append, List.length_singleton]
    omega
  unfold readString?
  rw [takeString?_eq hquote (drop_succ hdrop), Option.bind_some, hinside, List.nil_append]
  dsimp only
  rw [if_neg (not_atEnd hclose), getElem?_of_drop hclose, Option.bind_some, hstop]
  have hstring : s.drop i = c :: (body ++ [c]) ++ after := by
    rw [hdrop, htext]
    simp
  exact piece?_of_drop hstring (by simp)

/-- A string that does not end is read as an error. -/
theorem readString?_none (hquote : isQuote c) (h : splitQuoted c rest = none) :
    readString? s c i line =
      some (⟨.bad .unterminatedString, c :: rest, line + lineBreaks rest⟩,
        i + (c :: rest).length) := by
  have hinside : inside c rest = rest := by
    unfold inside
    rw [h]
    rfl
  have hend : s.drop (i + 1 + rest.length) = [] :=
    drop_add ((drop_succ hdrop).trans (List.append_nil rest).symm)
  have hstop : i + 1 + rest.length = i + (c :: rest).length := by
    rw [List.length_cons]
    omega
  unfold readString?
  rw [takeString?_eq hquote (drop_succ hdrop), Option.bind_some, hinside]
  dsimp only
  rw [if_pos (atEnd_iff.mpr hend), hstop]
  have hopened : s.drop i = c :: rest ++ [] := by
    rw [hdrop, List.append_nil]
  exact piece?_of_drop hopened (by simp)

/-- A number is read as a token with its value. -/
theorem readNumber?_eq {text : List Char} (htext : text = c :: rest.takeWhile Char.isDigit ++
      (takeFraction (rest.dropWhile Char.isDigit)).1) :
    readNumber? s i line =
      some (⟨.token .number (some (.number (numberValue text))), text, line⟩,
        i + text.length) := by
  have hrest := drop_succ hdrop
  have hfraction : s.drop (i + 1 + (rest.takeWhile Char.isDigit).length) =
      rest.dropWhile Char.isDigit :=
    drop_add (hrest.trans List.takeWhile_append_dropWhile.symm)
  have hnumber : s.drop i = text ++ (takeFraction (rest.dropWhile Char.isDigit)).2 := by
    rw [hdrop, htext, List.append_assoc, takeFraction_append, List.cons_append,
      List.takeWhile_append_dropWhile]
  have hstop : i + 1 + (rest.takeWhile Char.isDigit).length +
      (takeFraction (rest.dropWhile Char.isDigit)).1.length = i + text.length := by
    rw [htext, List.length_append, List.length_cons]
    omega
  have hne : text ≠ [] := by simp [htext]
  unfold readNumber?
  rw [takeWhile?_class (by decide), hrest, Option.bind_some, takeFraction?_eq, hfraction,
    Option.bind_some, hstop, slice?_of_drop hnumber hne, Option.bind_some]
  exact piece?_of_drop hnumber hne

/-- A word is read as a keyword or a name. -/
theorem readWord?_eq {text : List Char} (htext : text = c :: rest.takeWhile isNameChar) :
    readWord? s i line =
      some (⟨.token ((TokenKind.keyword? (String.ofList text)).getD .identifier) none, text, line⟩,
        i + text.length) := by
  have hword : s.drop i = text ++ rest.dropWhile isNameChar := by
    rw [hdrop, htext, List.cons_append, List.takeWhile_append_dropWhile]
  have hstop : i + 1 + (rest.takeWhile isNameChar).length = i + text.length := by
    rw [htext, List.length_cons]
    omega
  have hne : text ≠ [] := by simp [htext]
  unfold readWord?
  rw [takeWhile?_class (by decide), drop_succ hdrop, Option.bind_some, hstop,
    slice?_of_drop hword hne, Option.bind_some]
  exact piece?_of_drop hword hne

/-- A comment is read up to the end of the line. -/
theorem readComment?_eq (h : rest = '/' :: after) :
    readComment? s i line =
      some (⟨.comment, c :: '/' :: after.takeWhile (· != '\n'), line⟩,
        i + (c :: '/' :: after.takeWhile (· != '\n')).length) := by
  subst h
  have hstop : i + 2 + (after.takeWhile (· != '\n')).length =
      i + (c :: '/' :: after.takeWhile (· != '\n')).length := by
    simp only [List.length_cons]
    omega
  have hcomment : s.drop i =
      c :: '/' :: after.takeWhile (· != '\n') ++ after.dropWhile (· != '\n') := by
    rw [hdrop, List.cons_append, List.cons_append, List.takeWhile_append_dropWhile]
  unfold readComment?
  rw [takeWhile?_comment, drop_succ (drop_succ hdrop), Option.bind_some, hstop]
  exact piece?_of_drop hcomment (by simp)

/-- Reading a piece by position gives the piece that is cut off what begins there. -/
theorem readPiece?_eq :
    readPiece? s i line =
      some ((nextPiece line c rest).1, i + (nextPiece line c rest).1.text.length) := by
  have hone : ∀ {kind line'}, piece? s i kind (i + 1) line' = some (⟨kind, [c], line'⟩, i + 1) :=
    piece?_of_drop (show s.drop i = [c] ++ rest from hdrop) (by simp)
  have hahead : ∀ {d}, Ahead s (i + 1) d ↔ rest.head? = some d := ahead_iff (drop_succ hdrop)
  unfold readPiece? nextPiece
  rw [getElem?_of_drop hdrop, Option.bind_some]
  cases single? c with
  | some kind => exact hone
  | none =>
    cases paired? c with
    | some three =>
      obtain ⟨second, pair, alone⟩ := three
      dsimp only
      cases rest with
      | nil =>
        rw [if_neg (by simp [hahead])]
        exact hone
      | cons d after =>
        dsimp only
        by_cases hd : d = second
        · rw [if_pos (hahead.mpr (congrArg some hd)), if_pos hd]
          exact piece?_of_drop (show s.drop i = [c, d] ++ after from hdrop) (by simp)
        · rw [if_neg fun h => hd (Option.some.inj (hahead.mp h)), if_neg hd]
          exact hone
    | none =>
      dsimp only
      split
      · by_cases hnext : rest.head? = some '/'
        · obtain ⟨after, rfl⟩ := List.head?_eq_some_iff.mp hnext
          rw [if_pos (hahead.mpr rfl)]
          exact readComment?_eq hdrop line rfl
        · rw [if_neg (mt hahead.mp hnext)]
          split
          · exact absurd rfl hnext
          · exact hone
      split
      · exact hone
      split
      · exact hone
      split
      · next hquote =>
        split
        · next hsplit => exact readString?_some hdrop line hquote hsplit
        · next hsplit => exact readString?_none hdrop line hquote hsplit
      split
      · exact readNumber?_eq hdrop line rfl
      split
      · exact readWord?_eq hdrop line rfl
      · exact hone

end

/-- What is read is not empty. -/
theorem readPiece?_lt {p : Piece} {j : Nat} (hend : ¬ AtEnd s i)
    (h : readPiece? s i line = some (p, j)) : i < j := by
  obtain ⟨c, rest, hdrop⟩ := List.exists_cons_of_ne_nil (mt atEnd_iff.mpr hend)
  cases h.symm.trans (readPiece?_eq hdrop line)
  have := List.length_pos_iff.mpr (nextPiece_text_ne_nil line c rest)
  omega

/-- Reads the pieces from a position on to the end of the text. -/
def readFrom? (s : List Char) (i line : Nat) : Option (List Piece) :=
  if AtEnd s i then some []
  else
    match _h : readPiece? s i line with
    | none => none
    | some (p, j) => (readFrom? s j p.line).map (p :: ·)
termination_by s.length - i
decreasing_by
  next hend =>
  have hlt := readPiece?_lt hend _h
  simp only [AtEnd] at hend
  omega

/-- Reading by position never goes behind the end of a text, and it gives the pieces of it. -/
theorem readFrom?_eq (s : List Char) (i line : Nat) :
    readFrom? s i line = some (pieces line (s.drop i)) := by
  generalize hdrop : s.drop i = t
  fun_induction pieces line t generalizing i with
  | case1 => rw [readFrom?, if_pos (atEnd_iff.mpr hdrop)]
  | case2 line c rest step =>
    rename_i ih
    have hread := readPiece?_eq hdrop line
    have hnext : s.drop (i + step.1.text.length) = step.2 :=
      drop_add (hdrop.trans (append_nextPiece line c rest).symm)
    rw [readFrom?, if_neg (not_atEnd hdrop)]
    split
    · next heq => cases heq.symm.trans hread
    · next heq =>
      cases heq.symm.trans hread
      rw [ih _ hnext]
      rfl

end ScriptEngine.Token.Position
