import StackParser.Decimal.Shortest

/-!
# How a floating-point number is laid out

`Layout` collects what differs from one output format to the next; `Layout.write` writes a finite number. The digits are
always the fewest that read back.
-/

namespace StackParser.Decimal

/-- The decisions of one output format. -/
structure Layout where
  /-- Whether a number whose leading digit stands for `10 ^ e` is written without an exponent. -/
  positional : Int → Bool
  /-- Whether a whole number written without an exponent ends in `.0`. -/
  pointZero : Bool
  tie : Tie

namespace Layout

/-- Digits with the point put in or zeros added, so that no exponent is needed. -/
def plain (pointZero : Bool) (digits : List Char) (exponent : Int) : List Char :=
  if 0 ≤ exponent then
    digits ++ List.replicate exponent.toNat '0' ++ if pointZero then ['.', '0'] else []
  else
    let places := (-exponent).toNat
    if places < digits.length then
      digits.take (digits.length - places) ++ '.' :: digits.drop (digits.length - places)
    else ['0', '.'] ++ List.replicate (places - digits.length) '0' ++ digits

/-- The leading digit, the others behind a point, and the signed exponent of the leading digit. -/
def scientific (digits : List Char) (leading : Int) : List Char :=
  let fraction := if digits.length ≤ 1 then [] else '.' :: digits.drop 1
  let sign := if leading < 0 then '-' else '+'
  digits.take 1 ++ fraction ++ ['e', sign] ++ Nat.toDigits 10 leading.natAbs

/-- Writes a non-negative decimal. -/
def scaled (l : Layout) (d : Scaled) : List Char :=
  let digits := Nat.toDigits 10 d.digits
  let leading := d.exponent + digits.length - 1
  if l.positional leading then plain l.pointZero digits d.exponent else scientific digits leading

/-- Writes a finite number; a negative zero keeps its sign. -/
def write (l : Layout) (x : Float) : List Char :=
  let bits := x.toBits
  let magnitude := l.scaled ((Binary.ofBits bits).shortest l.tie)
  if bits >>> 63 = 0 then magnitude else '-' :: magnitude

end Layout

end StackParser.Decimal
