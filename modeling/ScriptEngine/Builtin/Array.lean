import ScriptEngine.Store

/-!
# The class `Array`

A list that grows, usable as a queue and as a stack, with an optional limit on its length. An
index may be any number: a position is a whole number from zero up to `maxLength`, and where an
index may count back from the end, a negative one is added to the length first.
-/

namespace ScriptEngine.Builtin.Array

open ScriptEngine

/-- A new array with the given items. -/
def ofItems (items : Array Value) : Action Datum := do
  let id ← Action.onHeap fun h => h.newArray (.ofItems items)
  pure (.array id)

/-- The array made from the arguments of the class: an empty one, or one with the items of
another array. -/
def construct (args : List Value) : Action Datum := do
  match args.head? with
  | none => ofItems #[]
  | some (.datum (.array id)) => ofItems ((← Action.heap).array id).items
  | some value => if value.isTruthy then throw .expectedArray else ofItems #[]

/-- An argument that must be there. -/
def valueArgument (args : List Value) (index : Nat) : Action Value :=
  Action.orRefuse args[index]? .expectedValue

/-- An argument that must be an index. -/
def indexArgument (args : List Value) (index : Nat) : Action Float :=
  match (args[index]? : Option Value) with
  | none => throw .expectedIndex
  | some .null => throw .expectedIndex
  | some value => Action.orRefuse value.number? .expectedNumericArgument

/-- Positions lie below this bound. -/
def maxLength : Nat := Nat.pow 2 24

/-- A whole number as a position. -/
def position? (i : Int) : Option Nat :=
  if 0 ≤ i ∧ i < maxLength then some i.toNat else none

/-- The position of an index that counts from the start. -/
def slot? (index : Float) : Option Nat :=
  (Number.toInt? index).bind position?

/-- The position of an index that may count back from the end of an array of length `length`. A
negative index with a fraction is first rounded by the addition. -/
def relativeSlot? (index : Float) (length : Nat) : Option Nat :=
  match Number.toInt? index with
  | some i => position? (if i < 0 then length + i else i)
  | none => if index < 0 then slot? (Float.ofNat length + index) else none

/-- Why an item cannot be stored at a position: the array would outgrow its limit. -/
def storeFault? (cell : ArrayCell) (position : Nat) : Option BuiltinFault :=
  if cell.items.size ≤ position ∧ cell.maxSize.any (position + 1 > ·) then some .arrayFull
  else none

/-- Stores an item at a position. Past the end, the gap is filled with `null`. -/
def store (cell : ArrayCell) (position : Nat) (value : Value) : ArrayCell :=
  if position < cell.items.size then
    { cell with items := cell.items.setIfInBounds position value }
  else
    let gap := Array.replicate (position - cell.items.size) Value.null
    { cell with items := (cell.items ++ gap).push value }

/-- Inserts an item at a position, at the end if the position lies past it. -/
def insertAt (cell : ArrayCell) (position : Nat) (value : Value) : ArrayCell :=
  let front := cell.items.extract 0 position
  let back := cell.items.extract position cell.items.size
  { cell with items := front.push value ++ back }

/-- The position of the first item that equals a value. -/
def indexOf? (h : Heap) (id : ArrayId) (value : Value) : Option Nat :=
  (h.array id).items.findIdx? fun item => h.equals item value

/-- Changes an array. -/
def modifyCell (id : ArrayId) (f : ArrayCell → ArrayCell) : Action Unit :=
  Action.modifyHeap fun h => h.modifyArray id f

/-- Stores an item in an array, if its limit allows. -/
def storeItem (id : ArrayId) (position : Nat) (value : Value) : Action Unit := do
  match storeFault? ((← Action.heap).array id) position with
  | some fault => throw fault
  | none => modifyCell id fun cell => store cell position value

/-- The item at a position, `null` if there is none. -/
def itemAt (cell : ArrayCell) (position? : Option Nat) : Value :=
  (position?.bind fun i => cell.items[i]?).getD .null

/-- The limit that an argument sets. -/
def sizeArgument (args : List Value) : Action (Option Nat) :=
  match args.head? with
  | none => throw .expectedSize
  | some .null => pure none
  | some value =>
    return some (Number.toSize (← Action.orRefuse value.number? .expectedNumericArgument))

/-- The methods of arrays. -/
def call (id : ArrayId) (method : String) (args : List Value) : Action Value := do
  match method with
  | "contains" =>
    return .boolean (indexOf? (← Action.heap) id (args[0]?.getD .null)).isSome
  | "indexOf" =>
    match indexOf? (← Action.heap) id (args[0]?.getD .null) with
    | some i => return .number (Float.ofNat i)
    | none => return .number (-1)
  | "remove" =>
    let i ← Action.orRefuse (indexOf? (← Action.heap) id (args[0]?.getD .null)) .valueNotFound
    modifyCell id fun cell =>
      { cell with items := cell.items.eraseIdxIfInBounds i }
    return .null
  | "setMaxSize" =>
    let size ← sizeArgument args
    modifyCell id fun cell => { cell with maxSize := size }
    return .null
  | "enqueue" | "add" | "push" =>
    let value ← valueArgument args 0
    if ((← Action.heap).array id).isFull then throw .arrayFull
    modifyCell id fun cell =>
      { cell with items := cell.items.push value }
    return .null
  | "dequeue" =>
    let first ← Action.orRefuse ((← Action.heap).array id).items[0]? .arrayEmpty
    modifyCell id fun cell =>
      { cell with items := cell.items.eraseIdxIfInBounds 0 }
    return first
  | "peek" | "front" => return itemAt ((← Action.heap).array id) (some 0)
  | "pop" =>
    let last ← Action.orRefuse ((← Action.heap).array id).items.back? .arrayEmpty
    modifyCell id fun cell => { cell with items := cell.items.pop }
    return last
  | "top" => Action.orRefuse ((← Action.heap).array id).items.back? .arrayEmpty
  | "isFull" => return .boolean ((← Action.heap).array id).isFull
  | "isEmpty" => return .boolean ((← Action.heap).array id).items.isEmpty
  | "size" | "length" => return .number (Float.ofNat ((← Action.heap).array id).items.size)
  | "get" =>
    let index ← indexArgument args 0
    return itemAt ((← Action.heap).array id) (slot? index)
  | "set" =>
    let index ← indexArgument args 0
    let position ← Action.orRefuse (slot? index) .indexOutOfRange
    storeItem id position (args[1]?.getD .null)
    return .null
  | "insertAt" =>
    let index ← indexArgument args 0
    let value ← valueArgument args 1
    let length := ((← Action.heap).array id).items.size
    let position := min ((relativeSlot? index length).getD 0) length
    modifyCell id fun cell => insertAt cell position value
    return .null
  | "removeAt" =>
    let index ← indexArgument args 0
    let length := ((← Action.heap).array id).items.size
    match relativeSlot? index length with
    | some i =>
      modifyCell id fun cell =>
        { cell with items := cell.items.eraseIdxIfInBounds i }
      return .null
    | none => return .null
  | "clear" =>
    modifyCell id fun cell => { cell with items := #[] }
    return .null
  | "__getitem__" =>
    let index ← indexArgument args 0
    let cell := (← Action.heap).array id
    return itemAt cell (relativeSlot? index cell.items.size)
  | "__setitem__" =>
    let index ← indexArgument args 0
    let length := ((← Action.heap).array id).items.size
    let position ← Action.orRefuse (relativeSlot? index length) .indexOutOfRange
    storeItem id position (args[1]?.getD .null)
    return .null
  | method => throw (.undefinedMethod method)

end ScriptEngine.Builtin.Array
