/-!
# Replacing inside text

The first place where one text occurs in another, replaced by a third.
-/

namespace ScriptEngine.Text

/-- `replaceFirst search replacement text` puts `replacement` where `search` first occurs in
`text`. The empty text occurs at the very start. Without an occurrence nothing changes. -/
def replaceFirst (search replacement : List Char) : List Char → List Char
  | [] => if search.isEmpty then replacement else []
  | c :: rest =>
    if search.isPrefixOf (c :: rest) then replacement ++ (c :: rest).drop search.length
    else c :: replaceFirst search replacement rest

end ScriptEngine.Text
