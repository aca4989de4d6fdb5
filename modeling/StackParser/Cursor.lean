/-!
# Cursors: a place in a text

* `Cursor` : a text cut in two at a place, the characters before it (nearest first) and those after it;
* `Cursor.text`, `Cursor.index`, `Cursor.byteOffset` : the whole text, and the place counted in characters and in bytes;
* `Cursor.peek`, `Cursor.advance` : looking at the next characters and moving past them. A look beyond the end is
  absent, a move beyond the end stops there.
-/

namespace StackParser

/-- A text cut at a place. -/
structure Cursor where
  /-- The characters before the place, nearest first. -/
  before : List Char
  /-- The characters still to be read. -/
  after : List Char
  deriving DecidableEq

namespace Cursor

def ofList (cs : List Char) : Cursor := ⟨[], cs⟩

def ofString (text : String) : Cursor := ofList text.toList

instance : Inhabited Cursor := ⟨ofList []⟩

def chars (c : Cursor) : List Char := c.before.reverse ++ c.after

def text (c : Cursor) : String := String.ofList c.chars

def remaining (c : Cursor) : String := String.ofList c.after

def index (c : Cursor) : Nat := c.before.length

/-- The number of UTF-8 bytes before the place. -/
def byteOffset (c : Cursor) : Nat := (String.ofList c.before.reverse).utf8ByteSize

def size (c : Cursor) : Nat := c.before.length + c.after.length

def atEnd (c : Cursor) : Bool := c.after.isEmpty

def peekChar (c : Cursor) : Option Char := c.after.head?

def peek (c : Cursor) (n : Nat) : Option (List Char) :=
  let next := c.after.take n
  if next.length = n then some next else none

/-- The place `n` characters on, or the end of the text. -/
def advance (c : Cursor) (n : Nat) : Cursor :=
  ⟨(c.after.take n).reverse ++ c.before, c.after.drop n⟩

/-! ## Looking ahead -/

theorem peek_eq (c : Cursor) (n : Nat) :
    c.peek n = if n ≤ c.after.length then some (c.after.take n) else none := by
  simp only [peek, List.length_take]
  by_cases h : n ≤ c.after.length
  · rw [Nat.min_eq_left h, if_pos rfl, if_pos h]
  · rw [if_neg (by omega), if_neg h]

/-- A look-ahead finds exactly the texts that the rest of the input begins with. -/
theorem peek_length_eq_some_iff {c : Cursor} {cs : List Char} : c.peek cs.length = some cs ↔ cs <+: c.after := by
  rw [peek_eq, List.prefix_iff_eq_take]
  split
  · exact ⟨fun h => (Option.some.inj h).symm, fun h => congrArg some h.symm⟩
  · rename_i hn
    refine ⟨fun h => (nomatch h), fun h => absurd ?_ hn⟩
    have := congrArg List.length h
    rw [List.length_take] at this
    omega

/-! ## Moving keeps the text -/

@[simp] theorem chars_ofList (cs : List Char) : (ofList cs).chars = cs := rfl

@[simp] theorem index_ofList (cs : List Char) : (ofList cs).index = 0 := rfl

@[simp] theorem chars_advance (c : Cursor) (n : Nat) : (c.advance n).chars = c.chars := by
  simp [advance, chars, List.append_assoc, List.take_append_drop]

@[simp] theorem after_advance (c : Cursor) (n : Nat) : (c.advance n).after = c.after.drop n := rfl

@[simp] theorem index_advance (c : Cursor) (n : Nat) :
    (c.advance n).index = c.index + min n c.after.length := by
  simp [advance, index]; omega

@[simp] theorem advance_zero (c : Cursor) : c.advance 0 = c := by simp [advance]

theorem advance_advance (c : Cursor) (m n : Nat) : (c.advance m).advance n = c.advance (m + n) := by
  simp only [advance, mk.injEq, List.drop_drop]
  rw [List.take_add, List.reverse_append, List.append_assoc]
  simp

theorem atEnd_iff {c : Cursor} : c.atEnd = true ↔ c.after = [] := by simp [atEnd]

theorem length_chars (c : Cursor) : c.chars.length = c.size := by simp [chars, size]

theorem size_eq (c : Cursor) : c.size = c.index + c.after.length := rfl

end Cursor

end StackParser
