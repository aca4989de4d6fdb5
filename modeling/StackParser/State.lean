import StackParser.Cursor
import StackParser.Keyed
import StackParser.ParseError

/-!
# Parse states

* `State` : a cursor in the input, the stack of values, the context, the label of the parser that ran last, an error if
  that parser failed, and a warning left by a repetition that stopped;
* `State.advance`, `State.push`, `State.dropLast`, `State.collectLast`, … : the operations parsers are made of.

A state is a value: what a failed attempt did to its own copy is never seen by another attempt.
-/

namespace StackParser

/-- Values that parsers keep under names. -/
abbrev Context := Keyed Value

structure State where
  cursor : Cursor
  /-- The values pushed so far, the latest last. -/
  stack : List Value
  context : Context
  /-- The label of the parser that ran last. -/
  name : String
  error : Option ParseError
  warning : Option ParseError

namespace State

def start (input : String) : State where
  cursor := .ofString input
  stack := []
  context := .empty
  name := ""
  error := none
  warning := none

instance : Inhabited State := ⟨start ""⟩

def failed (s : State) : Bool := s.error.isSome

def fail (s : State) (e : ParseError) : State := { s with error := some e }

/-! ## Input -/

def advance (s : State) (n : Nat) : State := { s with cursor := s.cursor.advance n }

/-- Moves past the next `n` characters, or past one if fewer remain. -/
def skip (s : State) (n : Nat) : State := if (s.cursor.peek n).isSome then s.advance n else s.advance 1

/-! ## Stack -/

def push (s : State) (v : Value) : State := { s with stack := s.stack ++ [v] }

def dropLast (s : State) : State := { s with stack := s.stack.dropLast }

def dropFirst (s : State) : State := { s with stack := s.stack.tail }

/-- Takes the latest `n` values off the stack, if there are as many. -/
def dropLatest (s : State) (n : Nat) : State :=
  if n ≤ s.stack.length then { s with stack := s.stack.take (s.stack.length - n) } else s

/-- The latest `n` values, in the order they were pushed, if there are as many. -/
def latest? (s : State) (n : Nat) : Option (List Value) :=
  if n ≤ s.stack.length then some (s.stack.drop (s.stack.length - n)) else none

/-- Replaces the latest `n` values by one made of them. -/
def collectLast (s : State) (n : Nat) (f : List Value → Value) : State :=
  { s with stack := s.stack.take (s.stack.length - n) ++ [f (s.stack.drop (s.stack.length - n))] }

/-! ## Context -/

def setContext (s : State) (key : String) (v : Value) : State :=
  { s with context := s.context.insert key v }

def removeContext (s : State) (key : String) : State := { s with context := s.context.erase key }

/-! ## What each operation changes -/

theorem failed_eq_false_iff {s : State} : s.failed = false ↔ s.error = none := by
  rw [failed, Option.isSome_eq_false_iff, Option.isNone_iff_eq_none]

@[simp] theorem failed_fail (s : State) (e : ParseError) : (s.fail e).failed = true := rfl

@[simp] theorem cursor_fail (s : State) (e : ParseError) : (s.fail e).cursor = s.cursor := rfl

@[simp] theorem stack_fail (s : State) (e : ParseError) : (s.fail e).stack = s.stack := rfl

@[simp] theorem cursor_advance (s : State) (n : Nat) : (s.advance n).cursor = s.cursor.advance n := rfl

@[simp] theorem stack_advance (s : State) (n : Nat) : (s.advance n).stack = s.stack := rfl

@[simp] theorem failed_advance (s : State) (n : Nat) : (s.advance n).failed = s.failed := rfl

@[simp] theorem advance_zero (s : State) : s.advance 0 = s := by
  rw [advance, Cursor.advance_zero]

@[simp] theorem stack_push (s : State) (v : Value) : (s.push v).stack = s.stack ++ [v] := rfl

@[simp] theorem cursor_push (s : State) (v : Value) : (s.push v).cursor = s.cursor := rfl

@[simp] theorem failed_push (s : State) (v : Value) : (s.push v).failed = s.failed := rfl

theorem collectLast_append (s : State) (below items : List Value) (f : List Value → Value)
    (h : s.stack = below ++ items) :
    s.collectLast items.length f = { s with stack := below ++ [f items] } := by
  simp [collectLast, h]

end State

end StackParser
