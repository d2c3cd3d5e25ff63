/-!
# Blank characters

Which characters count as blank, and text without the blanks around it. The set is Unicode's
`White_Space` property: the controls from tab to carriage return, the space, and the spaces and
separators outside ASCII.
-/

namespace ScriptEngine.Text

/-- The characters of the `White_Space` property. -/
def isBlank (c : Char) : Bool :=
  let n := c.toNat
  (9 ≤ n && n ≤ 13) || n == 0x20 || n == 0x85 || n == 0xA0 || n == 0x1680 ||
    (0x2000 ≤ n && n ≤ 0x200A) || n == 0x2028 || n == 0x2029 || n == 0x202F ||
    n == 0x205F || n == 0x3000

/-- A list without its leading and trailing elements that satisfy `p`. -/
def trimWhile {α : Type} (p : α → Bool) (xs : List α) : List α :=
  ((xs.dropWhile p).reverse.dropWhile p).reverse

/-- Text without the blanks before and after it. -/
def trim (s : String) : String :=
  String.ofList (trimWhile isBlank s.toList)

end ScriptEngine.Text
