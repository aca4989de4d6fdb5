import StackParser.Family

/-!
# Rock, paper, scissors

`Move` and `Outcome` : what a player plays and how a round ends for the player, with their families of keywords.
`Outcome.responseTo` is the move that brings an outcome about.
-/

namespace StackParser

inductive Move where
  | rock
  | paper
  | scissors
  deriving DecidableEq, Inhabited, Repr

inductive Outcome where
  | lose
  | draw
  | win
  deriving DecidableEq, Inhabited, Repr

namespace Move

/-- The move that `m` wins against. -/
def beats : Move → Move
  | .rock => .scissors
  | .paper => .rock
  | .scissors => .paper

/-- The move that wins against `m`. -/
def losesTo : Move → Move
  | .rock => .paper
  | .paper => .scissors
  | .scissors => .rock

def text : Move → String
  | .rock => "Rock"
  | .paper => "Paper"
  | .scissors => "Scissors"

/-- Each move has a letter for either column. -/
def family : Family Move where
  name := "Move"
  table := [("A", .rock), ("B", .paper), ("C", .scissors), ("X", .rock), ("Y", .paper), ("Z", .scissors)]
  variantName := text

end Move

namespace Outcome

/-- The move that ends a round against `opponent` with this outcome. -/
def responseTo (o : Outcome) (opponent : Move) : Move :=
  match o with
  | .lose => opponent.beats
  | .draw => opponent
  | .win => opponent.losesTo

def text : Outcome → String
  | .lose => "Lose"
  | .draw => "Draw"
  | .win => "Win"

def family : Family Outcome where
  name := "Outcome"
  table := [("X", .lose), ("Y", .draw), ("Z", .win)]
  variantName := text

end Outcome

end StackParser
