/-!
# Reading numbers

* `readInt?` : an optional minus sign and at least one digit;
* `readFloat?` : an optional sign, then digits with at most one point among them and at least one digit, an optional
  exponent; or the names of the infinity and of NaN in any case.
-/

namespace StackParser.Decimal

def ofDigits (digits : List Char) : Nat := Nat.ofDigitChars 10 digits 0

def spanDigits (cs : List Char) : List Char × List Char :=
  (cs.takeWhile Char.isDigit, cs.dropWhile Char.isDigit)

/-- Reads unsigned digits, at least one and nothing else. -/
def readNat? (cs : List Char) : Option Nat :=
  if cs.isEmpty || !cs.all Char.isDigit then none else some (ofDigits cs)

/-- Reads digits after an optional minus sign. -/
def readInt? : List Char → Option Int
  | '-' :: cs => (readNat? cs).map fun n => -(n : Int)
  | cs => (readNat? cs).map Int.ofNat

/-- The floating-point number nearest to `digits * 10 ^ exponent`. A number far out of range is decided by its magnitude
alone. -/
def nearest (digits : Nat) (exponent : Int) : Float :=
  let magnitude := exponent + (Nat.toDigits 10 digits).length
  if digits = 0 || magnitude < -400 then 0.0
  else if magnitude > 400 then Float.ofBits 0x7FF0000000000000
  else Float.ofScientific digits (exponent < 0) exponent.natAbs

/-- Reads the exponent of a decimal, `none` if the text is no exponent; no text at all stands for zero. -/
def readExponent? : List Char → Option Int
  | [] => some 0
  | e :: cs =>
    if e = 'e' ∨ e = 'E' then
      match cs with
      | '+' :: ds => (readNat? ds).map Int.ofNat
      | ds => readInt? ds
    else none

/-- Reads an unsigned decimal with an optional fraction and exponent. -/
def readUnsigned? (cs : List Char) : Option Float :=
  let (whole, rest) := spanDigits cs
  let (fraction, rest) :=
    match rest with
    | '.' :: rest => spanDigits rest
    | _ => ([], rest)
  if whole.isEmpty && fraction.isEmpty then none
  else (readExponent? rest).map fun e => nearest (ofDigits (whole ++ fraction)) (e - fraction.length)

/-- Reads a number without its sign, or the name of a special one. -/
def readMagnitude? (cs : List Char) : Option Float :=
  let lower := String.ofList (cs.map Char.toLower)
  if lower = "inf" ∨ lower = "infinity" then some (Float.ofBits 0x7FF0000000000000)
  else if lower = "nan" then some (Float.ofBits 0x7FF8000000000000)
  else readUnsigned? cs

def readFloat? : List Char → Option Float
  | '-' :: cs => (readMagnitude? cs).map Neg.neg
  | '+' :: cs => readMagnitude? cs
  | cs => readMagnitude? cs

end StackParser.Decimal
