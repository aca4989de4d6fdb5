/-!
# Floating-point numbers as exact fractions

* `Binary` : a finite non-negative number `mantissa * 2 ^ exponent`, and which gap lies below it;
* `Scaled` : a decimal `digits * 10 ^ exponent`;
* `Binary.readsBack` : whether a decimal lies among the reals that round to the number (to nearest, ties to even).

All comparisons are between natural numbers.
-/

namespace StackParser.Decimal

/-- A finite non-negative 64-bit floating-point number. -/
structure Binary where
  mantissa : Nat
  exponent : Int
  /-- The gap to the number below is half the gap to the number above. -/
  narrowBelow : Bool

/-- The number with these bits, the sign left out. Its exponent field is not all ones. -/
def Binary.ofBits (bits : UInt64) : Binary :=
  let field := ((bits >>> 52) &&& 0x7FF).toNat
  let fraction := (bits &&& 0xFFFFFFFFFFFFF).toNat
  if field = 0 then ⟨fraction, -1074, false⟩
  else ⟨0x10000000000000 + fraction, (field : Int) - 1075, fraction == 0 && field > 1⟩

/-- The decimal `digits * 10 ^ exponent`. -/
structure Scaled where
  digits : Nat
  exponent : Int
  deriving DecidableEq, Repr

/-- Compares `a * 10 ^ i` with `b * 2 ^ j`. -/
def compareScaled (a : Nat) (i : Int) (b : Nat) (j : Int) : Ordering :=
  compare (a * Nat.pow 10 i.toNat * Nat.pow 2 (-j).toNat) (b * Nat.pow 2 j.toNat * Nat.pow 10 (-i).toNat)

/-- Whether `d` lies among the reals that round to `x`. The two ends belong to them when the mantissa is even. -/
def Binary.readsBack (x : Binary) (d : Scaled) : Bool :=
  let low := if x.narrowBelow then 4 * x.mantissa - 1 else 4 * x.mantissa - 2
  let atLow := compareScaled d.digits d.exponent low (x.exponent - 2)
  let atHigh := compareScaled d.digits d.exponent (4 * x.mantissa + 2) (x.exponent - 2)
  let even := x.mantissa % 2 == 0
  (atLow == .gt || even && atLow == .eq) && (atHigh == .lt || even && atHigh == .eq)

end StackParser.Decimal
