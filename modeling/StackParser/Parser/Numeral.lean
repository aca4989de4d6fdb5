import StackParser.Parser.Terminal
import StackParser.Decimal.Reading

/-!
# Numbers

`NumberKind.scan` is the longest text that looks like a number of the kind, `NumberKind.value?` the value of such a text,
absent when it has no digit or is out of range. `Parser.number` puts the two together.
-/

namespace StackParser

def signPart : List Char → List Char
  | '-' :: _ => ['-']
  | _ => []

namespace NumberKind

/-- The longest text at the front that looks like a number: an optional minus sign and digits and, for floating-point
numbers, a point with further digits. A point never comes first. -/
def scan (kind : NumberKind) (cs : List Char) : List Char :=
  let sign := signPart cs
  let unsigned := cs.drop sign.length
  let whole := sign ++ unsigned.takeWhile Char.isDigit
  match kind, unsigned.dropWhile Char.isDigit with
  | .float, '.' :: rest => if whole.isEmpty then [] else whole ++ '.' :: rest.takeWhile Char.isDigit
  | _, _ => whole

def value? (kind : NumberKind) (cs : List Char) : Option Value :=
  match kind with
  | .int => (Decimal.readInt? cs).bind fun n =>
      if -2147483648 ≤ n ∧ n ≤ 2147483647 then some (.int (Int32.ofInt n)) else none
  | .long => (Decimal.readInt? cs).bind fun n =>
      if -9223372036854775808 ≤ n ∧ n ≤ 9223372036854775807 then some (.long (Int64.ofInt n)) else none
  | .float => (Decimal.readFloat? cs).map .float

end NumberKind

def Parser.number (kind : NumberKind) : Parser where
  label := "number(" ++ kind.text ++ ")"
  run s :=
    let cs := kind.scan s.cursor.after
    if cs.isEmpty then s.fail (.notANumber (foundText s.cursor.peekChar))
    else
      match kind.value? cs with
      | some v => (s.advance cs.length).push v
      | none => s.fail (.invalidNumber (String.ofList cs) kind)

end StackParser
