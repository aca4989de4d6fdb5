import StackParser.Decimal.Binary

/-!
# The fewest digits that read back

`Binary.shortest` : of the decimals that read back as a number, one with the fewest digits, and of those the nearest. For
1, 2, … 17 digits the two neighbours of the number on that grid are tested; the first grid with a hit wins. What is left
open is an exact tie between two hits, which `Tie` settles.
-/

namespace StackParser.Decimal

inductive Tie where
  | toEven
  | up
  deriving DecidableEq

/-- The least `k` with `x < 10 ^ k`, for `x` not zero. The first guess comes from the binary logarithm and is at most
two too small. -/
def Binary.scale (x : Binary) : Int :=
  let guess := ((x.mantissa.log2 : Int) + x.exponent) * 30103 / 100000
  if compareScaled 1 guess x.mantissa x.exponent == .gt then guess
  else if compareScaled 1 (guess + 1) x.mantissa x.exponent == .gt then guess + 1
  else guess + 2

/-- `x / 10 ^ e`, rounded down. -/
def Binary.gridFloor (x : Binary) (e : Int) : Nat :=
  (x.mantissa * Nat.pow 2 x.exponent.toNat * Nat.pow 10 (-e).toNat) /
    (Nat.pow 2 (-x.exponent).toNat * Nat.pow 10 e.toNat)

/-- The multiple of `10 ^ e` to take for `x`, if a neighbour of `x` on that grid reads back. -/
def Binary.onGrid? (x : Binary) (tie : Tie) (e : Int) : Option Scaled :=
  let n := x.gridFloor e
  let below : Scaled := ⟨n, e⟩
  let above : Scaled := ⟨n + 1, e⟩
  match x.readsBack below, x.readsBack above with
  | false, false => none
  | true, false => some below
  | false, true => some above
  | true, true =>
    match compareScaled (2 * n + 1) e x.mantissa (x.exponent + 1) with
    | .gt => some below
    | .lt => some above
    | .eq =>
      match tie with
      | .up => some above
      | .toEven => some (if n % 2 = 0 then below else above)

def Binary.exact (x : Binary) : Scaled :=
  if 0 ≤ x.exponent then ⟨x.mantissa * Nat.pow 2 x.exponent.toNat, 0⟩
  else ⟨x.mantissa * Nat.pow 5 (-x.exponent).toNat, x.exponent⟩

/-- The same decimal without trailing zeros. -/
def Scaled.strip (d : Scaled) : Scaled :=
  if 0 < d.digits ∧ d.digits % 10 = 0 then Scaled.strip ⟨d.digits / 10, d.exponent + 1⟩ else d
termination_by d.digits
decreasing_by exact Nat.div_lt_self (by omega) (by omega)

/-- The decimal with the fewest digits that reads back as `x`. -/
def Binary.shortest (x : Binary) (tie : Tie) : Scaled :=
  if x.mantissa = 0 then ⟨0, 0⟩
  else
    let k := x.scale
    let hit? := (List.range 17).findSome? fun (n : Nat) => x.onGrid? tie (k - (n + 1))
    (hit?.getD x.exact).strip

end StackParser.Decimal
