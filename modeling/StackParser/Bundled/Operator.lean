import StackParser.Family

/-!
# Operators on levels

`Operator` : the two operations on 64-bit numbers, with their family of keywords. `Operator.apply` has no result where
the number does not fit.
-/

namespace StackParser

inductive Operator where
  | add
  | multiply
  deriving DecidableEq, Inhabited, Repr

namespace Operator

/-- The number within 64 bits, if it fits. -/
def fit? (n : Int) : Option Int64 :=
  if -9223372036854775808 ≤ n ∧ n ≤ 9223372036854775807 then some (.ofInt n) else none

/-- The new level from the old one; without an operand the old level is the operand. Nothing if it does not fit. -/
def apply (op : Operator) (old : Int64) (operand : Option Int64) : Option Int64 :=
  let right := operand.getD old
  match op with
  | .add => fit? (old.toInt + right.toInt)
  | .multiply => fit? (old.toInt * right.toInt)

def text : Operator → String
  | .add => "Add"
  | .multiply => "Multiply"

def family : Family Operator where
  name := "Operator"
  table := [("+", .add), ("*", .multiply)]
  variantName := text

end Operator

end StackParser
