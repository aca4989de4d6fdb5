import StackParser.Parser.Basic

/-!
# Repetition

* `Parser.oneOrMore` : as many times as the parser succeeds and moves on. The failure that ends it becomes the warning of
  the state before;
* `Parser.tillEnd` : to the end of the input. A failure ends it, and so does an application that does not move on.

Each round leaves fewer characters to read, so both loops end.
-/

namespace StackParser

/-- Whether `t` has fewer characters left than `s`. -/
def State.movedOn (t s : State) : Prop := t.cursor.after.length < s.cursor.after.length

instance (t s : State) : Decidable (t.movedOn s) := inferInstanceAs (Decidable (_ < _))

namespace Parser

/-- Runs `p` while it succeeds and moves on. -/
def runWhile (p : Parser) (s : State) : State :=
  if s.cursor.atEnd then s
  else
    let next := p.parse s
    match next.error with
    | some e => { s with warning := some e }
    | none => if next.movedOn s then runWhile p next else next
termination_by s.cursor.after.length

/-- Any number of times, none included. -/
def oneOrMore (p : Parser) : Parser where
  label := "one_or_more(" ++ p.label ++ ")"
  run := runWhile p

/-- Runs `p` until the input is read. -/
def runTillEnd (p : Parser) (s : State) : State :=
  if s.cursor.atEnd then { s with warning := none }
  else
    let next := p.parse s
    if next.failed then next
    else if next.movedOn s then runTillEnd p next
    else next.fail (.noProgress next.warning)
termination_by s.cursor.after.length

def tillEnd (p : Parser) : Parser where
  label := "parse_till_end(" ++ p.label ++ ")"
  run := runTillEnd p

end Parser

end StackParser
