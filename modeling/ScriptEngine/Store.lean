import ScriptEngine.Fault
import ScriptEngine.Heap.Equality
import ScriptEngine.Heap.Display
import ScriptEngine.Heap.Clone

/-!
# What built-in functions work on

The heap, the lines written so far and the clock. A built-in function either answers with a
value or refuses, and in both cases leaves a store behind.
-/

namespace ScriptEngine

/-- The heap, the lines printed so far and the time in nanoseconds. -/
structure Store where
  heap : Heap
  output : Array String
  clock : Nat

/-- A computation of a built-in function. -/
abbrev Action := EStateM BuiltinFault Store

namespace Action

/-- Reads the heap. -/
def heap : Action Heap := do
  pure (← get).heap

/-- Changes the heap. -/
def modifyHeap (f : Heap → Heap) : Action Unit :=
  modify fun s => { s with heap := f s.heap }

/-- Changes the heap and answers with something. -/
def onHeap {α : Type} (f : Heap → α × Heap) : Action α :=
  modifyGet fun s =>
    let (a, h) := f s.heap
    (a, { s with heap := h })

/-- Writes a line. -/
def print (line : String) : Action Unit :=
  modify fun s => { s with output := s.output.push line }

/-- The time between two readings of the clock, in nanoseconds. -/
def clockTick : Nat := 1000

/-- Reads the clock. Every reading moves it on, so that a program that waits for time to pass
comes to an end. -/
def readClock : Action Nat :=
  modifyGet fun s => (s.clock, { s with clock := s.clock + clockTick })

/-- Answers with a value that is there, or refuses. -/
def orRefuse {α : Type} (a? : Option α) (fault : BuiltinFault) : Action α :=
  match a? with
  | some a => pure a
  | none => throw fault

end Action

end ScriptEngine
