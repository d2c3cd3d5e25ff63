import ScriptEngine.Heap

/-!
# Equality of values

Built-in instances are compared by what they hold: arrays item by item, maps key by key and
errors by their message. Everything else is compared by identity.

A map finds a scalar key by its canonical form, without looking into the heap, and any other key
by this same equality. While a map takes in a new key it is locked: a comparison that comes
across it, other than with itself, fails.
-/

namespace ScriptEngine

/-- The canonical form of a scalar key. Both zeros have one form. -/
inductive ScalarKey where
  | null
  | number (bits : UInt64)
  | string (text : String)
  | boolean (value : Bool)
deriving DecidableEq

/-- The canonical form of a value, if it is a scalar that equals itself. -/
def Value.scalarKey? : Value → Option ScalarKey
  | .null => some .null
  | .datum (.number x) => if x.isNaN then none else some (.number (if x == 0 then 0 else x.toBits))
  | .datum (.string s) => some (.string s)
  | .datum (.boolean b) => some (.boolean b)
  | _ => none

namespace MapCell

/-- Whether a stored key is the one looked for, where `same` compares keys without a canonical
form. -/
def matchesKey (same : Value → Value → Bool) (key stored : Value) : Bool :=
  match key.scalarKey?, stored.scalarKey? with
  | some k, some s => k = s
  | none, none => same stored key
  | _, _ => false

/-- The value of a key. -/
def get? (same : Value → Value → Bool) (cell : MapCell) (key : Value) : Option Value :=
  (cell.entries.find? fun e => matchesKey same key e.1).map (·.2)

/-- Replaces the value of a key in place, or appends a new entry. -/
def putEntry (same : Value → Value → Bool) (key value : Value) :
    List (Value × Value) → List (Value × Value)
  | [] => [(key, value)]
  | (k, v) :: rest =>
    if matchesKey same key k then (k, value) :: rest
    else (k, v) :: putEntry same key value rest

/-- A map with the value of a key set. -/
def insert (same : Value → Value → Bool) (cell : MapCell) (key value : Value) : MapCell :=
  ⟨putEntry same key value cell.entries⟩

end MapCell

namespace Heap

/-- Equality of values that refer to each other at most `depth` cells deep, while the map
`locked?`, if any, takes in a key. -/
def equalsUpTo (h : Heap) (locked? : Option MapId) : Nat → Value → Value → Bool
  | 0, _, _ => false
  | depth + 1, a, b =>
    let same := h.equalsUpTo locked? depth
    match a, b with
    | .null, .null => true
    | .cls c, .cls d => c.id == d.id
    | .object i, .object j => i == j
    | .function f, .function g => f.id == g.id
    | .native f, .native g => f.id == g.id
    | .builtinClass c, .builtinClass d => c == d
    | .imported i, .imported j => i == j
    | .datum (.number x), .datum (.number y) => x == y
    | .datum (.string s), .datum (.string t) => s == t
    | .datum (.boolean p), .datum (.boolean q) => p == q
    | .datum (.array i), .datum (.array j) =>
      i == j ||
        ((h.array i).items.size == (h.array j).items.size &&
          ((h.array i).items.toList.zip (h.array j).items.toList).all fun p => same p.1 p.2)
    | .datum (.map i), .datum (.map j) =>
      i == j ||
        (locked? != some i && locked? != some j &&
          (h.map i).entries.length == (h.map j).entries.length &&
            (h.map i).entries.all fun e =>
              ((h.map j).get? same e.1).any fun v => same v e.2)
    | .datum (.error i), .datum (.error j) =>
      i == j || same (h.error i).message (h.error j).message
    | .datum .logger, .datum .logger => true
    | _, _ => false

/-- Equality of values. -/
def equals (h : Heap) (a b : Value) : Bool :=
  h.equalsUpTo none h.depthBound a b

/-- The value of a key in a map. -/
def mapGet? (h : Heap) (id : MapId) (key : Value) : Option Value :=
  (h.map id).get? h.equals key

/-- A heap in which a key of a map is set. The map is locked while its keys are compared. -/
def mapInsert (h : Heap) (id : MapId) (key value : Value) : Heap :=
  let cell := (h.map id).insert (h.equalsUpTo (some id) h.depthBound) key value
  h.modifyMap id fun _ => cell

end Heap

end ScriptEngine
