import StackParser.State

/-!
# Parsers

A parser is a label and a function on states. `Parser.parse` runs it: a failed state passes through unchanged, and in either
case the state afterwards carries the parser's label.
-/

namespace StackParser

/-- A label, and what the parser does to a state that has not failed. -/
structure Parser where
  label : String
  run : State → State

namespace Parser

/-- Runs `p`, unless the state has failed already, and leaves its label on the state. -/
def parse (p : Parser) (s : State) : State :=
  { (if s.failed then s else p.run s) with name := p.label }

/-- The labels of several parsers as they stand in the label of a compound one. -/
def joinLabels (ps : List Parser) : String := ", ".intercalate (ps.map Parser.label)

@[simp] theorem name_parse (p : Parser) (s : State) : (p.parse s).name = p.label := rfl

theorem parse_of_failed (p : Parser) {s : State} (h : s.failed = true) :
    p.parse s = { s with name := p.label } := by
  simp [parse, h]

theorem parse_of_not_failed (p : Parser) {s : State} (h : s.failed = false) :
    p.parse s = { p.run s with name := p.label } := by
  simp [parse, h]

end Parser

end StackParser
