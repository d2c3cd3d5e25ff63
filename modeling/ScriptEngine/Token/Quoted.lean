/-!
# String literals

The text between the quotes of a string literal: where it ends, how many lines it spans and what
it stands for. A backslash takes the next character with it, so an escaped quote does not end the
literal and an escaped line break is not counted as a line.
-/

namespace ScriptEngine.Token

/-- The body of a literal up to its closing quote, and what follows the quote. There is none if
the text ends first. -/
def splitQuoted (quote : Char) : List Char → Option (List Char × List Char)
  | [] => none
  | c :: rest =>
    if c = quote then some ([], rest)
    else if c = '\\' then
      match rest with
      | [] => none
      | d :: rest => (splitQuoted quote rest).map fun (body, after) => (c :: d :: body, after)
    else (splitQuoted quote rest).map fun (body, after) => (c :: body, after)

/-- The number of line breaks in a body, escaped ones apart. -/
def lineBreaks : List Char → Nat
  | [] => 0
  | c :: rest =>
    if c = '\\' then
      match rest with
      | [] => 0
      | _ :: rest => lineBreaks rest
    else if c = '\n' then lineBreaks rest + 1
    else lineBreaks rest

/-- The character that a one-letter escape stands for. -/
def simpleEscape? (c : Char) : Option Char :=
  match c with
  | 'b' => some '\x08'
  | 'f' => some '\x0c'
  | 'r' => some '\r'
  | 'n' => some '\n'
  | 't' => some '\t'
  | 'v' => some '\x0b'
  | '0' => some '\x00'
  | '\\' => some '\\'
  | '\'' => some '\''
  | '"' => some '"'
  | _ => none

/-- The value of a hexadecimal digit. -/
def hexDigit? (c : Char) : Option Nat :=
  if '0' ≤ c ∧ c ≤ '9' then some (c.toNat - '0'.toNat)
  else if 'a' ≤ c ∧ c ≤ 'f' then some (c.toNat - 'a'.toNat + 10)
  else if 'A' ≤ c ∧ c ≤ 'F' then some (c.toNat - 'A'.toNat + 10)
  else none

/-- The number that hexadecimal digits spell. -/
def hexValue? (ds : List Char) : Option Nat :=
  ds.foldlM (fun n d => (hexDigit? d).map (n * 16 + ·)) 0

/-- The character with the code point spelled by four characters: hexadecimal digits, the first
of which may be a plus sign instead. -/
def codePoint? (ds : List Char) : Option Char :=
  let digits := if ds.head? = some '+' then ds.drop 1 else ds
  (hexValue? digits).bind fun n => if n.isValidChar then some (Char.ofNat n) else none

/-- A code point in braces at the start of a text, and what follows it. -/
def braced? : List Char → Option (Char × List Char)
  | '\x7b' :: a :: b :: c :: d :: '\x7d' :: rest =>
    (codePoint? [a, b, c, d]).map fun ch => (ch, rest)
  | _ => none

/-- A code point in braces leaves less of the source. -/
theorem braced?_length {s rest : List Char} {c : Char} (h : braced? s = some (c, rest)) :
    rest.length < s.length := by
  unfold braced? at h
  split at h
  · simp only [Option.map_eq_some_iff, Prod.mk.injEq] at h
    obtain ⟨_, _, _, rfl⟩ := h
    simp only [List.length_cons]
    omega
  · simp at h

/-- What a body stands for. A backslash that begins no known escape is kept, with the character
after it. -/
def decodeQuoted : List Char → List Char
  | [] => []
  | c :: rest =>
    if c = '\\' then
      match rest with
      | [] => [c]
      | d :: rest =>
        match simpleEscape? d with
        | some e => e :: decodeQuoted rest
        | none =>
          if d = 'u' then
            match _h : braced? rest with
            | some (e, rest) => e :: decodeQuoted rest
            | none => c :: d :: decodeQuoted rest
          else c :: d :: decodeQuoted rest
    else c :: decodeQuoted rest
termination_by s => s.length
decreasing_by
  all_goals simp only [List.length_cons]
  any_goals omega
  have := braced?_length _h
  omega

/-- The body, the quote and what follows it are the whole. -/
theorem splitQuoted_append {quote : Char} {s body after : List Char}
    (h : splitQuoted quote s = some (body, after)) : body ++ quote :: after = s := by
  fun_induction splitQuoted quote s generalizing body with
  | case1 => simp at h
  | case2 rest => simp_all
  | case3 => simp at h
  | case4 d rest _ ih =>
    simp only [Option.map_eq_some_iff, Prod.mk.injEq] at h
    obtain ⟨⟨b, a⟩, hs, rfl, rfl⟩ := h
    simp [ih hs]
  | case5 c rest _ _ ih =>
    simp only [Option.map_eq_some_iff, Prod.mk.injEq] at h
    obtain ⟨⟨b, a⟩, hs, rfl, rfl⟩ := h
    simp [ih hs]

end ScriptEngine.Token
