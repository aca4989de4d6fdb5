import StackParser.Grammar
import StackParser.Report

/-!
# What a parse comes to

`Grammar.parseState` and `Grammar.parseAll` : the state, or the values, that a successful parse leaves, and the report on
one that fails.
-/

namespace StackParser.Grammar

/-- The state after a successful parse, or the report on its failure. -/
def parseState (g : Grammar) (s : State) (source : String) : Except Report State :=
  match Report.ofState? (g.parse s) source with
  | some report => .error report
  | none => .ok (g.parse s)

/-- The values that parsing a whole text leaves. -/
def parseAll (g : Grammar) (input source : String) : Except Report (List Value) :=
  (g.parseState (.start input) source).map State.stack

end StackParser.Grammar
