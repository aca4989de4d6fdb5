import StackParser.Grammar

/-!
# Instructions

`Instructions.grammar` : lines of an operation code with an optional operand, each read as an `Instruction` record.
-/

namespace StackParser

inductive OpCode where
  | noop
  | addX
  deriving DecidableEq, Inhabited, Repr

namespace OpCode

def text : OpCode → String
  | .noop => "Noop"
  | .addX => "AddX"

def family : Family OpCode where
  name := "OpCode"
  table := [("noop", .noop), ("addx", .addX)]
  variantName := text

end OpCode

namespace Instructions

def instructionShape : Shape where
  name := "Instruction"
  fields := [⟨"op", OpCode.family.type, .required⟩, ⟨"operand", .int, .optional⟩]

def instruction : Grammar :=
  .record instructionShape (.sequenceOf [
    .ofFamily OpCode.family,
    .optional (.sequenceOf [.space, .integer]),
    .optional .lineEnd])

def grammar : Grammar := .tillEnd instruction

end Instructions

end StackParser
