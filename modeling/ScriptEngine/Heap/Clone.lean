import ScriptEngine.Heap.Equality

/-!
# Copies of built-in instances

A copy of an array, map or error has cells of its own all the way down, through everything that
built-in instances hold. Values of other kinds inside it are shared. A map is copied by putting
its entries, copied, into a new map one after the other.
-/

namespace ScriptEngine.Heap

/-- A copy of a built-in instance whose parts lie at most `depth` cells deep. -/
def cloneUpTo : Nat → Datum → StateM Heap Datum
  | 0, d => pure d
  | depth + 1, d => do
    let copy : Value → StateM Heap Value
      | .datum d => return .datum (← cloneUpTo depth d)
      | v => pure v
    match d with
    | .array id => do
      let cell := (← get).array id
      let items ← cell.items.toList.mapM copy
      let (new, h) := (← get).newArray ⟨items.toArray, cell.maxSize⟩
      set h
      pure (.array new)
    | .map id => do
      let entries ← ((← get).map id).entries.mapM fun e => do
        let key ← copy e.1
        let value ← copy e.2
        pure (key, value)
      let h ← get
      let cell := entries.foldl (fun cell e => cell.insert h.equals e.1 e.2) (⟨[]⟩ : MapCell)
      let (new, h) := h.newMap cell
      set h
      pure (.map new)
    | .error id => do
      let cell := (← get).error id
      let message ← copy cell.message
      let (new, h) := (← get).newError ⟨message, cell.token?⟩
      set h
      pure (.error new)
    | d => pure d

/-- A copy of a built-in instance. -/
def clone (h : Heap) (d : Datum) : Datum × Heap :=
  cloneUpTo h.depthBound d h

end ScriptEngine.Heap
