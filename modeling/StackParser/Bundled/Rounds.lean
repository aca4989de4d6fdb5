import StackParser.Grammar
import StackParser.Bundled.Game

/-!
# Rounds of rock, paper, scissors

* `Rounds.ofMoves` : lines of two moves, each read as a `Round` record;
* `Rounds.ofOutcomes` : lines of a move and an outcome. The response is the move that brings the outcome about.
-/

namespace StackParser

namespace Rounds

def roundShape : Shape where
  name := "Round"
  fields := [⟨"opponent", Move.family.type, .required⟩, ⟨"response", Move.family.type, .required⟩]

/-- Replaces the outcome on top of the stack by the response to the move below it. -/
def respond : Action := fun stack context =>
  let below := stack.dropLast
  match (stack.getLast?.bind Outcome.family.ofValue?) with
  | none => ⟨below, context, some (.custom "Expected an outcome keyword")⟩
  | some wanted =>
    match below.getLast?.bind Move.family.ofValue? with
    | some opponent => ⟨below ++ [Move.family.value (wanted.responseTo opponent)], context, none⟩
    | none =>
      let found := (below.getLast?.map Value.typeName).getD "nothing"
      ⟨below, context, some (.custom ("Expected opponent move of type keyword Move but got: " ++ found))⟩

def outcomeResponse : Grammar := .action "outcome_response" (.ofFamily Outcome.family) respond

/-- One line; `response` reads the second column. -/
def round (response : Grammar) : Grammar :=
  .record roundShape (.sequenceOf [.ofFamily Move.family, .space, response, .optional .lineEnd])

def ofMoves : Grammar := .tillEnd (round (.ofFamily Move.family))

def ofOutcomes : Grammar := .tillEnd (round outcomeResponse)

end Rounds

end StackParser
