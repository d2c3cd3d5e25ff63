import ScriptEngine.Text.CaseTable

/-!
# Text in capitals and in small letters

Full case mapping: a character may become several. The small form of a capital sigma depends on
its surroundings: at the end of a word it is the final form, elsewhere the ordinary one. A sigma
ends a word when a letter with case stands before it and none after it, where apostrophes, marks
and other ignorable characters are passed over.
-/

namespace ScriptEngine.Text

/-- The image of a code point that lies on the run. -/
def CaseRun.image? (run : CaseRun) (n : Nat) : Option Char :=
  if run.first ≤ n && n ≤ run.last && (n - run.first) % run.step == 0 then
    some (Char.ofNat (n + run.shift).toNat)
  else none

/-- The mapping of one character given by expansions and runs, the expansions first. A
character that neither mentions is its own image. -/
def mapCase (expansions : List (Nat × List Nat)) (runs : List CaseRun) (c : Char) : List Char :=
  match expansions.lookup c.toNat with
  | some cs => cs.map Char.ofNat
  | none => [(runs.findSome? (·.image? c.toNat)).getD c]

/-- The capital form of a character. -/
def upperChar (c : Char) : List Char :=
  mapCase upperExpansions upperRuns c

/-- The small form of a character, whatever stands around it. -/
def lowerChar (c : Char) : List Char :=
  mapCase lowerExpansions lowerRuns c

/-- Text in capitals. -/
def toUpper (s : String) : String :=
  String.ofList (s.toList.flatMap upperChar)

/-- Whether a code point lies in one of the ranges. -/
def inRanges (ranges : List (Nat × Nat)) (c : Char) : Bool :=
  ranges.any fun r => r.1 ≤ c.toNat && c.toNat ≤ r.2

/-- Whether the first character that is not passed over has case. -/
def meetsCased (cs : List Char) : Bool :=
  ((cs.dropWhile (inRanges caseIgnorableRanges)).head?.map (inRanges casedRanges)).getD false

/-- Small letters for `rest`, where `before` is what precedes it, nearest character first. -/
def lowerAfter (before : List Char) : List Char → List Char
  | [] => []
  | c :: rest =>
    (if c == 'Σ' then [if meetsCased before && !meetsCased rest then 'ς' else 'σ']
      else lowerChar c) ++ lowerAfter (c :: before) rest

/-- Text in small letters. -/
def toLower (s : String) : String :=
  String.ofList (lowerAfter [] s.toList)

end ScriptEngine.Text
