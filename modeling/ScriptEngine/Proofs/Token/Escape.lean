import ScriptEngine.Token.Lexer

/-!
# Escaped characters

A backslash in a string literal takes the next character with it, so a character is escaped if the
number of backslashes right before it is odd (`Escaped`). A literal ends at the first quote of its
kind that is not escaped (`splitQuoted_first`), and its line breaks are counted but for those that
are escaped (`lineBreaks_add_escapedBreaks`).
-/

namespace ScriptEngine.Token

variable {c d quote : Char} {s body after : List Char} {i : Nat}

/-! ## Characters behind a backslash -/

/-- The number of backslashes at the end of a text. -/
def slashesAtEnd (s : List Char) : Nat := (s.reverse.takeWhile (· == '\\')).length

/-- The character at a position of a text is taken into an escape by the backslash before it. -/
def Escaped (s : List Char) (i : Nat) : Prop := slashesAtEnd (s.take i) % 2 = 1

instance (s : List Char) (i : Nat) : Decidable (Escaped s i) :=
  inferInstanceAs (Decidable (_ = _))

/-- A plain character in front leaves the backslashes at the end. -/
theorem slashesAtEnd_cons (hc : c ≠ '\\') (s : List Char) :
    slashesAtEnd (c :: s) = slashesAtEnd s := by
  unfold slashesAtEnd
  rw [List.reverse_cons, List.takeWhile_append]
  split
  · next hall => simp [hc, hall]
  · rfl

/-- A pair in front leaves their number even or odd. -/
theorem slashesAtEnd_pair (d : Char) (s : List Char) :
    slashesAtEnd ('\\' :: d :: s) % 2 = slashesAtEnd s % 2 := by
  unfold slashesAtEnd
  rw [List.reverse_cons, List.reverse_cons, List.append_assoc, List.takeWhile_append]
  split
  · next hall =>
    -- Backslashes only: if the next character is one too, there are two more of them.
    by_cases hd : d = '\\'
    · simp [hd, hall]
    · simp [hd, hall]
  · rfl

/-- The first character is not escaped. -/
@[simp] theorem not_escaped_zero (s : List Char) : ¬ Escaped s 0 := by
  simp [Escaped, slashesAtEnd]

/-- What stands behind a backslash is escaped. -/
@[simp] theorem escaped_one (s : List Char) : Escaped ('\\' :: s) 1 := by
  simp [Escaped, slashesAtEnd]

/-- A plain character in front escapes nothing. -/
theorem escaped_cons (hc : c ≠ '\\') : Escaped (c :: s) (i + 1) ↔ Escaped s i := by
  unfold Escaped
  rw [List.take_succ_cons, slashesAtEnd_cons hc]

@[simp] theorem escaped_pair : Escaped ('\\' :: d :: s) (i + 2) ↔ Escaped s i := by
  unfold Escaped
  rw [List.take_succ_cons, List.take_succ_cons, slashesAtEnd_pair]

/-- What follows a character has no part in whether it is escaped. -/
theorem escaped_append_right (h : i ≤ s.length) (after : List Char) :
    Escaped (s ++ after) i ↔ Escaped s i := by
  unfold Escaped
  rw [List.take_append_of_le_length h]

/-- A text that does not end in a backslash that begins an escape. -/
def Whole (s : List Char) : Prop := ¬ Escaped s s.length

/-- A literal is whole behind a plain character as it is without it. -/
theorem whole_cons (hc : c ≠ '\\') : Whole (c :: s) ↔ Whole s :=
  not_congr (escaped_cons hc)

theorem whole_pair : Whole ('\\' :: d :: s) ↔ Whole s :=
  not_congr escaped_pair

/-! ## Where a literal ends -/

/-- The quotes in a text are all escaped. -/
def QuotesEscaped (quote : Char) (s : List Char) : Prop :=
  ∀ i, s[i]? = some quote → Escaped s i

theorem quotesEscaped_nil (quote : Char) : QuotesEscaped quote [] := by
  intro i hi
  simp at hi

/-- A plain character in front leaves all quotes escaped. -/
theorem QuotesEscaped.cons (h : QuotesEscaped quote s) (hquote : c ≠ quote) (hc : c ≠ '\\') :
    QuotesEscaped quote (c :: s) := by
  intro i hi
  cases i with
  | zero => exact absurd (Option.some.inj hi) hquote
  | succ i => exact (escaped_cons hc).mpr (h i hi)

theorem QuotesEscaped.pair (h : QuotesEscaped quote s) (hquote : '\\' ≠ quote) (d : Char) :
    QuotesEscaped quote ('\\' :: d :: s) := by
  intro i hi
  match i with
  | 0 => exact absurd (Option.some.inj hi) hquote
  | 1 => exact escaped_one _
  | i + 2 => exact escaped_pair.mpr (h i hi)

/-- A literal ends at the first quote that is not escaped. -/
theorem splitQuoted_first (h : splitQuoted quote s = some (body, after)) :
    QuotesEscaped quote body ∧ Whole body := by
  fun_induction splitQuoted quote s generalizing body with
  | case1 => cases h
  | case2 rest =>
    cases h
    exact ⟨quotesEscaped_nil quote, not_escaped_zero []⟩
  | case3 => cases h
  | case4 d rest hne ih =>
    obtain ⟨⟨b, a⟩, hs, heq⟩ := Option.map_eq_some_iff.mp h
    cases heq
    obtain ⟨hquotes, hend⟩ := ih hs
    exact ⟨hquotes.pair hne d, whole_pair.mpr hend⟩
  | case5 c rest hne hslash ih =>
    obtain ⟨⟨b, a⟩, hs, heq⟩ := Option.map_eq_some_iff.mp h
    cases heq
    obtain ⟨hquotes, hend⟩ := ih hs
    exact ⟨hquotes.cons hne hslash, (whole_cons hslash).mpr hend⟩

/-- What stands before a quote and holds no quote that could end it is a literal. -/
theorem splitQuoted_of_quotesEscaped (hquotes : QuotesEscaped quote body) (hwhole : Whole body)
    (hs : s = body ++ quote :: after) :
    splitQuoted quote s = some (body, after) := by
  fun_induction splitQuoted quote s generalizing body with
  | case1 => simp at hs
  | case2 rest =>
    cases body with
    | nil =>
      cases hs
      rfl
    | cons c body =>
      cases hs
      exact absurd (hquotes 0 rfl) (not_escaped_zero _)
  | case3 hne =>
    cases body with
    | nil =>
      cases hs
      exact absurd rfl hne
    | cons c body => simp at hs
  | case4 d rest hne ih =>
    rcases body with _ | ⟨c, _ | ⟨e, body⟩⟩
    · cases hs
      exact absurd rfl hne
    · cases hs
      exact absurd (escaped_one []) hwhole
    · cases hs
      have hrest : QuotesEscaped quote body := fun i hi => escaped_pair.mp (hquotes (i + 2) hi)
      rw [ih hrest (whole_pair.mp hwhole) rfl]
      rfl
  | case5 c rest hne hslash ih =>
    cases body with
    | nil =>
      cases hs
      exact absurd rfl hne
    | cons d body =>
      cases hs
      have hrest : QuotesEscaped quote body :=
        fun i hi => (escaped_cons hslash).mp (hquotes (i + 1) hi)
      rw [ih hrest ((whole_cons hslash).mp hwhole) rfl]
      rfl

/-- If a literal does not end, all quotes behind its beginning are escaped. -/
theorem splitQuoted_none (h : splitQuoted quote s = none) (hquote : '\\' ≠ quote) :
    QuotesEscaped quote s := by
  fun_induction splitQuoted quote s with
  | case1 => exact quotesEscaped_nil quote
  | case2 rest => cases h
  | case3 =>
    intro i hi
    cases i with
    | zero => exact absurd (Option.some.inj hi) hquote
    | succ i => simp at hi
  | case4 d rest hne ih => exact (ih (Option.map_eq_none_iff.mp h)).pair hne d
  | case5 c rest hne hslash ih => exact (ih (Option.map_eq_none_iff.mp h)).cons hne hslash

/-! ## Line breaks -/

/-- The number of line breaks in a text that are escaped. -/
def escapedBreaks (s : List Char) : Nat :=
  (List.range s.length).countP fun i => s[i]? = some '\n' ∧ Escaped s i

/-- A plain character in front adds no escaped line break. -/
theorem escapedBreaks_cons (hc : c ≠ '\\') (s : List Char) :
    escapedBreaks (c :: s) = escapedBreaks s := by
  unfold escapedBreaks
  rw [List.length_cons, List.range_succ_eq_map, List.countP_cons, List.countP_map]
  simp [Function.comp_def, escaped_cons hc]

/-- A pair adds one if it is a line break that is escaped. -/
theorem escapedBreaks_pair (d : Char) (s : List Char) :
    escapedBreaks ('\\' :: d :: s) = escapedBreaks s + if d = '\n' then 1 else 0 := by
  unfold escapedBreaks
  rw [List.length_cons, List.length_cons, List.range_succ_eq_map, List.range_succ_eq_map,
    List.map_cons, List.map_map, List.countP_cons, List.countP_cons, List.countP_map]
  simp [Function.comp_def]

/-- The line breaks of a literal are those that are counted and those that are escaped. -/
theorem lineBreaks_add_escapedBreaks (s : List Char) :
    lineBreaks s + escapedBreaks s = s.count '\n' := by
  fun_induction lineBreaks s with
  | case1 => rfl
  | case2 => decide
  | case3 d rest ih =>
    rw [escapedBreaks_pair, List.count_cons_of_ne (by decide), List.count_cons, ← ih]
    simp only [beq_iff_eq]
    omega
  | case4 rest hne ih =>
    rw [escapedBreaks_cons (by decide), List.count_cons_self, ← ih]
    omega
  | case5 c rest hslash hbreak ih =>
    rw [escapedBreaks_cons hslash, List.count_cons_of_ne hbreak, ih]

end ScriptEngine.Token
