import StackParser.Parser.Basic

/-!
# One parser after the other

`Parser.sequenceOf` and `Parser.times`. What the elements before the first failure pushed stays on the failed state.
-/

namespace StackParser.Parser

/-- Runs the parsers one after the other. Once one has failed the others let its state through. -/
def runAll (ps : List Parser) (s : State) : State := ps.foldl (fun s p => p.parse s) s

def sequenceOf (ps : List Parser) : Parser where
  label := "sequence_of(" ++ joinLabels ps ++ ")"
  run := runAll ps

/-- Runs `p` up to `n` times, and stops when it fails. -/
def runTimes (p : Parser) : Nat → State → State
  | 0, s => s
  | n + 1, s =>
    let next := p.parse s
    if next.failed then next else runTimes p n next

def times (n : Nat) (p : Parser) : Parser where
  label := "repeat(" ++ toString n ++ ", " ++ p.label ++ ")"
  run := runTimes p n

end StackParser.Parser
