import Mathlib
import ScriptEngine.Proofs.Token.Lexeme

/-!
# What string literals stand for

What the text between the quotes of a literal stands for is a relation, `Decodes`, with one
constructor for each way in which the text can go on. The decoding of a literal is the only one that
it allows, if the four characters in the braces of a code point are hexadecimal digits, or three of
them behind a plus sign (`decodes_iff`). Unless such a plus sign stands in it, it is the only one
for hexadecimal digits alone (`Decodes.hex_iff`).
-/

namespace ScriptEngine.Token

variable {c d e : Char} {s t ds after : List Char} {i n : Nat}

/-! ## What a literal stands for -/

/-- The escapes of one letter and what they stand for. -/
def letterEscapes : List (Char × Char) :=
  [('b', '\x08'), ('f', '\x0c'), ('r', '\r'), ('n', '\n'), ('t', '\t'), ('v', '\x0b'),
    ('0', '\x00'), ('\\', '\\'), ('\'', '\''), ('"', '"')]

/-- The character `c` is a hexadecimal digit of value `n`. -/
def HexDigit (c : Char) (n : Nat) : Prop :=
  "0123456789abcdef".toList[n]? = some c ∨ "0123456789ABCDEF".toList[n]? = some c

/-- Four hexadecimal digits and the character that has their value as its code point. -/
inductive HexCode : List Char → Char → Prop where
  | digits {w x y z e : Char} {k l m n : Nat} (hw : HexDigit w k) (hx : HexDigit x l)
      (hy : HexDigit y m) (hz : HexDigit z n)
      (he : e.toNat = k * 16 ^ 3 + l * 16 ^ 2 + m * 16 + n) : HexCode [w, x, y, z] e

/-- A plus sign, three hexadecimal digits and the character that has their value as its code
point. -/
inductive SignedCode : List Char → Char → Prop where
  | digits {x y z e : Char} {l m n : Nat} (hx : HexDigit x l) (hy : HexDigit y m)
      (hz : HexDigit z n) (he : e.toNat = l * 16 ^ 2 + m * 16 + n) : SignedCode ['+', x, y, z] e

/-- What the text between the quotes of a literal stands for, if the text in the braces of a code
point and the character that it names are related by `code`. A backslash that begins no escape is
kept, with the character after it. -/
inductive Decodes (code : List Char → Char → Prop) : List Char → List Char → Prop where
  | done : Decodes code [] []
  | plain {c : Char} {s t : List Char} (hc : c ≠ '\\') (h : Decodes code s t) :
      Decodes code (c :: s) (c :: t)
  | letter {d e : Char} {s t : List Char} (hd : (d, e) ∈ letterEscapes) (h : Decodes code s t) :
      Decodes code ('\\' :: d :: s) (e :: t)
  | codePoint {e : Char} {ds s t : List Char} (hds : code ds e) (h : Decodes code s t) :
      Decodes code ('\\' :: 'u' :: '\x7b' :: (ds ++ '\x7d' :: s)) (e :: t)
  | kept {d : Char} {s t : List Char} (hletter : ∀ e, (d, e) ∉ letterEscapes)
      (hcode : ∀ ds e r, d = 'u' → s = '\x7b' :: (ds ++ '\x7d' :: r) → ¬ code ds e)
      (h : Decodes code s t) : Decodes code ('\\' :: d :: s) ('\\' :: d :: t)

/-- The letters with a meaning behind a backslash are those of the table. -/
theorem simpleEscape?_iff : simpleEscape? d = some e ↔ (d, e) ∈ letterEscapes := by
  unfold simpleEscape? letterEscapes
  constructor
  · intro h
    split at h <;> cases h <;> decide
  · intro h
    simp only [List.mem_cons, Prod.mk.injEq, List.not_mem_nil, or_false] at h
    rcases h with ⟨rfl, rfl⟩ | ⟨rfl, rfl⟩ | ⟨rfl, rfl⟩ | ⟨rfl, rfl⟩ | ⟨rfl, rfl⟩ | ⟨rfl, rfl⟩ |
      ⟨rfl, rfl⟩ | ⟨rfl, rfl⟩ | ⟨rfl, rfl⟩ | ⟨rfl, rfl⟩ <;> rfl

/-- A letter without a meaning is not in the table. -/
theorem not_mem_letterEscapes (h : simpleEscape? d = none) (e : Char) : (d, e) ∉ letterEscapes := by
  intro he
  cases h.symm.trans (simpleEscape?_iff.mpr he)

/-- A text without backslashes stands for itself. -/
theorem decodes_self {code : List Char → Char → Prop} (h : ∀ c ∈ s, c ≠ '\\') :
    Decodes code s s := by
  induction s with
  | nil => exact .done
  | cons c s ih =>
    obtain ⟨hc, hs⟩ := List.forall_mem_cons.mp h
    exact .plain hc (ih hs)

/-- The characters of a range are those with the code points of a range. -/
theorem eq_ofNat_of_le {a b : Char} (h : a ≤ c ∧ c ≤ b) :
    ∃ k, a.toNat ≤ k ∧ k ≤ b.toNat ∧ c = Char.ofNat k :=
  ⟨c.toNat, h.1, h.2, (Char.ofNat_toNat c).symm⟩

/-- The digits that are read are the hexadecimal ones. -/
theorem hexDigit?_iff : hexDigit? c = some n ↔ HexDigit c n := by
  constructor
  · intro h
    unfold hexDigit? at h
    split at h
    · next hc =>
      obtain ⟨k, hlow, hhigh, rfl⟩ := eq_ofNat_of_le hc
      have hfirst : 48 ≤ k := hlow
      have hlast : k ≤ 57 := hhigh
      cases h
      interval_cases k <;> exact .inl rfl
    split at h
    · next hc =>
      obtain ⟨k, hlow, hhigh, rfl⟩ := eq_ofNat_of_le hc
      have hfirst : 97 ≤ k := hlow
      have hlast : k ≤ 102 := hhigh
      cases h
      interval_cases k <;> exact .inl rfl
    split at h
    · next hc =>
      obtain ⟨k, hlow, hhigh, rfl⟩ := eq_ofNat_of_le hc
      have hfirst : 65 ≤ k := hlow
      have hlast : k ≤ 70 := hhigh
      cases h
      interval_cases k <;> exact .inr rfl
    · cases h
  · intro h
    have hn : n < 16 := by
      rcases h with h | h
      · exact (List.getElem?_eq_some_iff.mp h).1
      · exact (List.getElem?_eq_some_iff.mp h).1
    rcases h with h | h
    · interval_cases n <;> cases h <;> rfl
    · interval_cases n <;> cases h <;> rfl

theorem not_hexDigit_plus (n : Nat) : ¬ HexDigit '+' n := by
  intro h
  cases hexDigit?_iff.mpr h

/-- The characters with a code point are those of which it is the number. -/
theorem charOfCode?_iff :
    (if n.isValidChar then some (Char.ofNat n) else none) = some e ↔ e.toNat = n := by
  constructor
  · intro h
    split at h
    · next hn =>
      cases h
      unfold Char.ofNat
      rw [dif_pos hn]
      rfl
    · cases h
  · rintro rfl
    rw [if_pos (show e.toNat.isValidChar from e.valid), Char.ofNat_toNat]

/-- One more digit counts as units, and those before it sixteen times as much. -/
theorem hexValue?_append (ds : List Char) (d : Char) :
    hexValue? (ds ++ [d]) = some n ↔
      ∃ k l, hexValue? ds = some k ∧ HexDigit d l ∧ n = k * 16 + l := by
  unfold hexValue?
  rw [List.foldlM_append]
  simp only [Option.bind_eq_bind, Option.bind_eq_some_iff, List.foldlM_cons, List.foldlM_nil]
  constructor
  · rintro ⟨k, hk, m, hm, hn⟩
    obtain ⟨l, hl, rfl⟩ := Option.map_eq_some_iff.mp hm
    exact ⟨k, l, hk, hexDigit?_iff.mp hl, (Option.some.inj hn).symm⟩
  · rintro ⟨k, l, hk, hl, rfl⟩
    exact ⟨k, hk, _, Option.map_eq_some_iff.mpr ⟨l, hexDigit?_iff.mpr hl, rfl⟩, rfl⟩

/-- Three digits are read by their places. -/
theorem hexValue?_three {x y z : Char} :
    hexValue? [x, y, z] = some n ↔
      ∃ l m o, HexDigit x l ∧ HexDigit y m ∧ HexDigit z o ∧ n = l * 16 ^ 2 + m * 16 + o := by
  constructor
  · intro h
    obtain ⟨k, o, hxy, hz, rfl⟩ := (hexValue?_append [x, y] z).mp h
    obtain ⟨k, m, hfirst, hy, rfl⟩ := (hexValue?_append [x] y).mp hxy
    obtain ⟨k, l, hnil, hx, rfl⟩ := (hexValue?_append [] x).mp hfirst
    cases hnil
    exact ⟨l, m, o, hx, hy, hz, by omega⟩
  · rintro ⟨l, m, o, hx, hy, hz, rfl⟩
    have hfirst := (hexValue?_append [] x).mpr ⟨0, l, rfl, hx, rfl⟩
    have hsecond := (hexValue?_append [x] y).mpr ⟨_, m, hfirst, hy, rfl⟩
    exact (hexValue?_append [x, y] z).mpr ⟨_, o, hsecond, hz, by omega⟩

/-- Four digits are read by their places. -/
theorem hexValue?_four {w x y z : Char} :
    hexValue? [w, x, y, z] = some n ↔
      ∃ k l m o, HexDigit w k ∧ HexDigit x l ∧ HexDigit y m ∧ HexDigit z o ∧
        n = k * 16 ^ 3 + l * 16 ^ 2 + m * 16 + o := by
  constructor
  · intro h
    obtain ⟨p, o, hwxy, hz, rfl⟩ := (hexValue?_append [w, x, y] z).mp h
    obtain ⟨k, l, m, hw, hx, hy, rfl⟩ := hexValue?_three.mp hwxy
    exact ⟨k, l, m, o, hw, hx, hy, hz, by omega⟩
  · rintro ⟨k, l, m, o, hw, hx, hy, hz, rfl⟩
    have hthree := hexValue?_three.mpr ⟨k, l, m, hw, hx, hy, rfl⟩
    exact (hexValue?_append [w, x, y] z).mpr ⟨_, o, hthree, hz, by omega⟩

/-- The text in the braces of a code point that is read, and the character that it names. -/
def ReadCode (ds : List Char) (e : Char) : Prop := HexCode ds e ∨ SignedCode ds e

theorem ReadCode.four (h : ReadCode ds e) : ∃ w x y z, ds = [w, x, y, z] := by
  rcases h with h | h
  · cases h
    exact ⟨_, _, _, _, rfl⟩
  · cases h
    exact ⟨_, _, _, _, rfl⟩

/-- The code points that are read are those that may be. -/
theorem codePoint?_iff {w x y z : Char} :
    codePoint? [w, x, y, z] = some e ↔ ReadCode [w, x, y, z] e := by
  unfold codePoint? ReadCode
  simp only [Option.bind_eq_some_iff, charOfCode?_iff]
  by_cases hw : w = '+'
  · subst hw
    show (∃ n, hexValue? [x, y, z] = some n ∧ e.toNat = n) ↔ _
    constructor
    · rintro ⟨n, hn, he⟩
      obtain ⟨l, m, o, hx, hy, hz, rfl⟩ := hexValue?_three.mp hn
      exact .inr (.digits hx hy hz he)
    · rintro (h | h)
      · cases h with
        | digits hplus => exact absurd hplus (not_hexDigit_plus _)
      · cases h with
        | digits hx hy hz he => exact ⟨_, hexValue?_three.mpr ⟨_, _, _, hx, hy, hz, rfl⟩, he⟩
  · have hhead : ¬ [w, x, y, z].head? = some '+' := fun h => hw (Option.some.inj h)
    rw [if_neg hhead]
    constructor
    · rintro ⟨n, hn, he⟩
      obtain ⟨k, l, m, o, hw, hx, hy, hz, rfl⟩ := hexValue?_four.mp hn
      exact .inl (.digits hw hx hy hz he)
    · rintro (h | h)
      · cases h with
        | digits hw hx hy hz he =>
          exact ⟨_, hexValue?_four.mpr ⟨_, _, _, _, hw, hx, hy, hz, rfl⟩, he⟩
      · cases h with
        | digits => exact absurd rfl hw

/-- A code point is read in braces only. -/
theorem braced?_iff :
    braced? s = some (e, after) ↔
      ∃ ds, s = '\x7b' :: (ds ++ '\x7d' :: after) ∧ ReadCode ds e := by
  constructor
  · intro h
    unfold braced? at h
    split at h
    · next w x y z rest =>
      obtain ⟨f, hcode, heq⟩ := Option.map_eq_some_iff.mp h
      cases heq
      exact ⟨[w, x, y, z], rfl, codePoint?_iff.mp hcode⟩
    · cases h
  · rintro ⟨ds, rfl, hcode⟩
    obtain ⟨w, x, y, z, rfl⟩ := hcode.four
    show (codePoint? [w, x, y, z]).map _ = _
    rw [codePoint?_iff.mpr hcode]
    rfl

/-- In the braces of a code point are hexadecimal digits and plus signs only. -/
theorem ReadCode.not_mem (h : ReadCode ds e) (hdigit : hexDigit? c = none) (hplus : c ≠ '+') :
    c ∉ ds := by
  have hnone : ∀ {x k}, HexDigit x k → c ≠ x := by
    rintro x k hx rfl
    cases hdigit.symm.trans (hexDigit?_iff.mpr hx)
  rcases h with h | h
  · cases h with
    | digits hw hx hy hz => simp [hnone hw, hnone hx, hnone hy, hnone hz]
  · cases h with
    | digits hx hy hz => simp [hplus, hnone hx, hnone hy, hnone hz]

/-- No character of a code point is a backslash. -/
theorem ReadCode.ne_slash (h : ReadCode ds e) : ∀ c ∈ ds, c ≠ '\\' := by
  rintro c hc rfl
  exact h.not_mem rfl (by decide) hc

/-- Which characters are escaped does not change behind plain ones. -/
theorem escaped_append (h : ∀ c ∈ ds, c ≠ '\\') :
    Escaped (ds ++ s) (ds.length + i) ↔ Escaped s i := by
  induction ds with
  | nil => rw [List.nil_append, List.length_nil, Nat.zero_add]
  | cons c ds ih =>
    obtain ⟨hc, hds⟩ := List.forall_mem_cons.mp h
    rw [List.cons_append, List.length_cons, Nat.add_right_comm, escaped_cons hc, ih hds]

theorem escaped_codePoint (h : ReadCode ds e) :
    Escaped ('\\' :: 'u' :: '\x7b' :: (ds ++ '\x7d' :: s)) (ds.length + 4 + i) ↔ Escaped s i := by
  rw [show ds.length + 4 + i = (ds.length + (i + 1)) + 1 + 2 by omega, escaped_pair,
    escaped_cons (by decide), escaped_append h.ne_slash, escaped_cons (by decide)]

theorem length_codePoint (ds s : List Char) :
    ('\\' :: 'u' :: '\x7b' :: (ds ++ '\x7d' :: s)).length = ds.length + 4 + s.length := by
  simp only [List.length_cons, List.length_append]
  omega

/-- A literal is whole if what stands behind a code point is. -/
theorem whole_codePoint (h : ReadCode ds e) :
    Whole ('\\' :: 'u' :: '\x7b' :: (ds ++ '\x7d' :: s)) ↔ Whole s := by
  unfold Whole
  rw [length_codePoint, escaped_codePoint h]

/-! ## The decoding of a literal -/

/-- A plain character stands for itself. -/
theorem decodeQuoted_plain (hc : c ≠ '\\') (s : List Char) :
    decodeQuoted (c :: s) = c :: decodeQuoted s := by
  rw [decodeQuoted.eq_def]
  exact if_neg hc

/-- A letter of the table stands for its character. -/
theorem decodeQuoted_letter (h : simpleEscape? d = some e) (s : List Char) :
    decodeQuoted ('\\' :: d :: s) = e :: decodeQuoted s := by
  rw [decodeQuoted.eq_def]
  simp [h]

/-- A code point in braces stands for its character. -/
theorem decodeQuoted_codePoint (h : braced? s = some (e, after)) :
    decodeQuoted ('\\' :: 'u' :: s) = e :: decodeQuoted after := by
  rw [decodeQuoted.eq_def]
  dsimp only
  rw [if_pos rfl, show simpleEscape? 'u' = none from rfl]
  dsimp only
  rw [if_pos rfl]
  split
  · next heq =>
    cases heq.symm.trans h
    rfl
  · next heq => cases heq.symm.trans h

theorem decodeQuoted_kept (hletter : simpleEscape? d = none)
    (hcode : d = 'u' → braced? s = none) :
    decodeQuoted ('\\' :: d :: s) = '\\' :: d :: decodeQuoted s := by
  rw [decodeQuoted.eq_def]
  dsimp only
  rw [if_pos rfl, hletter]
  dsimp only
  split
  · next hd =>
    split
    · next heq => cases heq.symm.trans (hcode hd)
    · rfl
  · rfl

/-- A backslash begins no escape with a character if it begins none of one letter, and no code
point. -/
theorem braced?_eq_none
    (h : ∀ ds e r, s = '\x7b' :: (ds ++ '\x7d' :: r) → ¬ ReadCode ds e) : braced? s = none := by
  cases hbraced : braced? s with
  | none => rfl
  | some found =>
    obtain ⟨e, r⟩ := found
    obtain ⟨ds, hs, hcode⟩ := braced?_iff.mp hbraced
    exact absurd hcode (h ds e r hs)

theorem simpleEscape?_eq_none (h : ∀ e, (d, e) ∉ letterEscapes) : simpleEscape? d = none := by
  cases hletter : simpleEscape? d with
  | none => rfl
  | some e => exact absurd (simpleEscape?_iff.mp hletter) (h e)

/-- A text stands for nothing but what it is decoded to. -/
theorem Decodes.eq_decodeQuoted (h : Decodes ReadCode s t) : t = decodeQuoted s := by
  induction h with
  | done => rw [decodeQuoted]
  | plain hc _ ih => rw [decodeQuoted_plain hc, ih]
  | letter hd _ ih => rw [decodeQuoted_letter (simpleEscape?_iff.mpr hd), ih]
  | codePoint hds _ ih => rw [decodeQuoted_codePoint (braced?_iff.mpr ⟨_, rfl, hds⟩), ih]
  | kept hletter hcode _ ih =>
    rw [decodeQuoted_kept (simpleEscape?_eq_none hletter)
      fun hd => braced?_eq_none fun ds e r => hcode ds e r hd, ih]

/-- A text that is whole stands for what it is decoded to. -/
theorem decodes_decodeQuoted (h : Whole s) : Decodes ReadCode s (decodeQuoted s) := by
  fun_induction decodeQuoted s with
  | case1 => exact .done
  | case2 => exact absurd (escaped_one []) h
  | case3 d rest e hletter ih =>
    exact .letter (simpleEscape?_iff.mp hletter) (ih (whole_pair.mp h))
  | case4 rest e after hbraced _ ih =>
    obtain ⟨ds, rfl, hcode⟩ := braced?_iff.mp hbraced
    exact .codePoint hcode (ih ((whole_codePoint hcode).mp h))
  | case5 rest hbraced hletter ih =>
    refine .kept (not_mem_letterEscapes hletter) ?_ (ih (whole_pair.mp h))
    rintro ds e after - rfl hcode
    cases hbraced.symm.trans (braced?_iff.mpr ⟨ds, rfl, hcode⟩)
  | case6 d rest hletter hd ih =>
    exact .kept (not_mem_letterEscapes hletter) (fun _ _ _ hu => absurd hu hd)
      (ih (whole_pair.mp h))
  | case7 c rest hc ih => exact .plain hc (ih ((whole_cons hc).mp h))

/-- A text is decoded as the escapes in it say, and in no other way. -/
theorem decodes_iff (h : Whole s) : Decodes ReadCode s t ↔ t = decodeQuoted s := by
  constructor
  · exact Decodes.eq_decodeQuoted
  · rintro rfl
    exact decodes_decodeQuoted h

/-! ## Code points with a plus sign -/

/-- A code point with a plus sign stands in a text. -/
def SignedEscape (s : List Char) : Prop :=
  ∃ before ds e after, s = before ++ '\\' :: 'u' :: '\x7b' :: (ds ++ '\x7d' :: after) ∧
    ¬ Escaped s before.length ∧ SignedCode ds e

/-- A sign behind a plain character was there before. -/
theorem SignedEscape.cons (h : SignedEscape s) (hc : c ≠ '\\') : SignedEscape (c :: s) := by
  obtain ⟨before, ds, e, after, rfl, hbefore, hcode⟩ := h
  exact ⟨c :: before, ds, e, after, rfl, fun h => hbefore ((escaped_cons hc).mp h), hcode⟩

theorem SignedEscape.pair (h : SignedEscape s) (d : Char) : SignedEscape ('\\' :: d :: s) := by
  obtain ⟨before, ds, e, after, rfl, hbefore, hcode⟩ := h
  exact ⟨'\\' :: d :: before, ds, e, after, rfl, fun h => hbefore (escaped_pair.mp h), hcode⟩

theorem SignedEscape.codePoint (h : SignedEscape s) (hds : ReadCode ds e) :
    SignedEscape ('\\' :: 'u' :: '\x7b' :: (ds ++ '\x7d' :: s)) := by
  obtain ⟨before, ds', e', after, rfl, hbefore, hcode⟩ := h
  refine ⟨'\\' :: 'u' :: '\x7b' :: (ds ++ '\x7d' :: before), ds', e', after, by simp, ?_, hcode⟩
  intro hescaped
  apply hbefore
  apply (escaped_codePoint hds).mp
  rw [length_codePoint] at hescaped
  exact hescaped

/-- Unless a code point with a plus sign stands in a text, only hexadecimal digits matter. -/
theorem Decodes.hex_iff (h : ¬ SignedEscape s) : Decodes HexCode s t ↔ Decodes ReadCode s t := by
  constructor
  · intro hd
    induction hd with
    | done => exact .done
    | plain hc _ ih => exact .plain hc (ih fun hs => h (hs.cons hc))
    | letter hletter _ ih => exact .letter hletter (ih fun hs => h (hs.pair _))
    | codePoint hds _ ih => exact .codePoint (.inl hds) (ih fun hs => h (hs.codePoint (.inl hds)))
    | kept hletter hcode _ ih =>
      refine .kept hletter ?_ (ih fun hs => h (hs.pair _))
      rintro ds e r rfl rfl (hhex | hsigned)
      · exact hcode ds e r rfl rfl hhex
      · exact h ⟨[], ds, e, r, rfl, not_escaped_zero _, hsigned⟩
  · intro hd
    induction hd with
    | done => exact .done
    | plain hc _ ih => exact .plain hc (ih fun hs => h (hs.cons hc))
    | letter hletter _ ih => exact .letter hletter (ih fun hs => h (hs.pair _))
    | codePoint hds _ ih =>
      rcases hds with hhex | hsigned
      · exact .codePoint hhex (ih fun hs => h (hs.codePoint (.inl hhex)))
      · exact absurd ⟨[], _, _, _, rfl, not_escaped_zero _, hsigned⟩ h
    | kept hletter hcode _ ih =>
      refine .kept hletter ?_ (ih fun hs => h (hs.pair _))
      intro ds e r hd hs hhex
      exact hcode ds e r hd hs (.inl hhex)

/-! ## String tokens -/

/-- A string token was cut off a text that begins with a quote. -/
theorem Cuts.quoted {line : Nat} {text rest : List Char} {p : Piece} {x : Token}
    (h : Cuts line text p rest) (hx : p.token? = some x) (hkind : x.kind = .string) :
    ∃ quote body, isQuote quote ∧ (QuotesEscaped quote body ∧ Whole body) ∧
      x.lexeme = String.ofList (quote :: (body ++ [quote])) ∧
      x.literal = some (.string (String.ofList (decodeQuoted body))) := by
  -- The kinds with fixed texts are other ones.
  have hfixed : ∀ word, word ∉ x.kind.spellings := by
    intro word hword
    rw [hkind] at hword
    cases hword
  cases h with
  | string hquote hsplit =>
    cases hx
    exact ⟨_, _, hquote, splitQuoted_first hsplit, rfl, rfl⟩
  | single rest hsingle =>
    cases hx
    exact absurd (mem_spellings_single hsingle) (hfixed _)
  | pair rest hpaired =>
    cases hx
    exact absurd (mem_spellings_paired hpaired).1 (hfixed _)
  | alone hpaired =>
    cases hx
    exact absurd (mem_spellings_paired hpaired).2 (hfixed _)
  | @word c rest text hc htext =>
    cases hx
    cases hword : TokenKind.keyword? (String.ofList text) with
    | none =>
      rw [hword] at hkind
      cases hkind
    | some kind =>
      refine absurd ?_ (hfixed (String.ofList text))
      rw [hword]
      exact mem_spellings_keyword hword
  | slash | number =>
    cases hx
    cases hkind
  | comment | lineBreak | space | unterminated | unexpected => cases hx

/-- The literal of a string token is what the text between its quotes stands for, and the token
ends at the first quote of its kind that is not escaped. The braces of a code point hold exactly
four hexadecimal digits, but for one defect: a plus sign may stand in place of the first. -/
theorem string_literals_decoded {source : String} {tokens : List Token}
    (hscan : scan source = .ok tokens) {x : Token} (hx : x ∈ tokens) (hkind : x.kind = .string) :
    ∃ quote body text, isQuote quote ∧ x.lexeme = String.ofList (quote :: (body ++ [quote])) ∧
      x.literal = some (.string text) ∧
      (∀ i, body[i]? = some quote → Escaped body i) ∧ ¬ Escaped body body.length ∧
      (∀ t, Decodes ReadCode body t ↔ t = text.toList) ∧
      (¬ SignedEscape body → ∀ t, Decodes HexCode body t ↔ t = text.toList) := by
  have hend : x.kind ≠ .eof := by
    rw [hkind]
    decide
  obtain ⟨p, hp, htoken⟩ := exists_piece hscan hx hend
  obtain ⟨line, rest, after, hcut⟩ := cuts_of_mem hp
  obtain ⟨quote, body, hquote, ⟨hquotes, hwhole⟩, hlexeme, hliteral⟩ := hcut.quoted htoken hkind
  have hread : ∀ t, Decodes ReadCode body t ↔ t = (String.ofList (decodeQuoted body)).toList := by
    intro t
    rw [String.toList_ofList]
    exact decodes_iff hwhole
  refine ⟨quote, body, _, hquote, hlexeme, hliteral, hquotes, hwhole, hread, ?_⟩
  intro hsigned t
  exact (Decodes.hex_iff hsigned).trans (hread t)

/-- An escaped quote, an escape of one letter and a code point. -/
theorem string_literals_decoded_escapes :
    ∃ x, scan "'it\\'s\\n\\u\x7b0041\x7d'" = .ok [x, endOf 1] ∧ x.kind = .string ∧
      x.literal = some (.string "it's\nA") ∧
      ∃ quote body, x.lexeme = String.ofList (quote :: (body ++ [quote])) ∧
        ¬ Escaped body body.length ∧ ∀ t, Decodes ReadCode body t ↔ t = "it's\nA".toList := by
  have hscan : scan "'it\\'s\\n\\u\x7b0041\x7d'" = .ok [⟨.string, "'it\\'s\\n\\u\x7b0041\x7d'",
      some (.string "it's\nA"), 1⟩, endOf 1] := by
    cbv
  obtain ⟨quote, body, text, -, hlexeme, hliteral, -, hwhole, hread, -⟩ :=
    string_literals_decoded hscan (List.mem_cons_self ..) rfl
  cases hliteral
  exact ⟨_, hscan, rfl, rfl, quote, body, hlexeme, hwhole, hread⟩

/-- A plus sign in front of three digits is read as a code point, although it is no hexadecimal
digit. -/
theorem plus_sign_read :
    scan "'\\u\x7b+041\x7d'" =
        .ok [⟨.string, "'\\u\x7b+041\x7d'", some (.string "A"), 1⟩, endOf 1] ∧
      ¬ Decodes HexCode ['\\', 'u', '\x7b', '+', '0', '4', '1', '\x7d'] ['A'] ∧
      Decodes HexCode ['\\', 'u', '\x7b', '+', '0', '4', '1', '\x7d']
        ['\\', 'u', '\x7b', '+', '0', '4', '1', '\x7d'] := by
  have hcode : ∀ ds e r, ['\x7b', '+', '0', '4', '1', '\x7d'] = '\x7b' :: (ds ++ '\x7d' :: r) →
      ¬ HexCode ds e := by
    rintro _ e r heq ⟨hw, -, -, -⟩
    cases heq
    exact not_hexDigit_plus _ hw
  refine ⟨by cbv, ?_, ?_⟩
  · generalize hs : ['\x7b', '+', '0', '4', '1', '\x7d'] = s
    intro h
    cases h with
    | letter hletter => exact absurd hletter (by decide)
    | codePoint hds => exact hcode _ _ _ hs hds
  · apply Decodes.kept
    · exact not_mem_letterEscapes rfl
    · intro ds e r _ heq
      exact hcode ds e r heq
    · exact decodes_self (by simp)

end ScriptEngine.Token
