import StackParser.Decimal.Reading
import StackParser.Decimal.Binary

/-!
# What a JSON text says

* `Document` : a document as its reader sees it. A number is the rational number it stands for, and the members of an
  object keep their order and may repeat a name;
* `Document.read?` : reads a whole text, `none` if it is not JSON. The reader is strict: white space is space, tab, line
  feed and carriage return; a number has no leading zero and digits on both sides of its point; a control character in a
  string is escaped, and the escape of a surrogate is one half of a pair;
* `Document.readValue?`, `Document.readText?`, `Document.readNumber?` : read one part at the front, and give back the rest.
-/

namespace StackParser

/-- The number a decimal stands for. -/
def Decimal.Scaled.value (d : Scaled) : Rat :=
  mkRat (d.digits * Nat.pow 10 d.exponent.toNat : Nat) (Nat.pow 10 (-d.exponent).toNat)

inductive Document where
  | null
  | bool (b : Bool)
  | number (value : Rat)
  | string (text : String)
  | array (items : List Document)
  | object (members : List (String × Document))

namespace Document

/-! ## White space -/

/-- What may stand between the parts of a document. -/
def isSpace (c : Char) : Bool := c == ' ' || c == '\t' || c == '\n' || c == '\r'

def skipSpace (cs : List Char) : List Char := cs.dropWhile isSpace

/-! ## Numbers -/

/-- Digits, at least one. -/
def readDigits? (cs : List Char) : Option (List Char × List Char) :=
  let (digits, rest) := Decimal.spanDigits cs
  if digits.isEmpty then none else some (digits, rest)

def readMinus : List Char → Bool × List Char
  | '-' :: cs => (true, cs)
  | cs => (false, cs)

/-- The digits in front of the point. A zero is followed by none. -/
def readWhole? (cs : List Char) : Option (List Char × List Char) := do
  let (digits, rest) ← readDigits? cs
  if digits.head? = some '0' ∧ digits.length ≠ 1 then none else some (digits, rest)

/-- The digits behind the point, if there is one. -/
def readFraction? : List Char → Option (List Char × List Char)
  | '.' :: cs => readDigits? cs
  | cs => some ([], cs)

/-- The digits of an exponent with its sign, which may be missing. -/
def readSigned? : List Char → Option (Int × List Char)
  | '-' :: cs => (readDigits? cs).map fun r => (-(Decimal.ofDigits r.1 : Int), r.2)
  | '+' :: cs => (readDigits? cs).map fun r => ((Decimal.ofDigits r.1 : Int), r.2)
  | cs => (readDigits? cs).map fun r => ((Decimal.ofDigits r.1 : Int), r.2)

def readExponent? : List Char → Option (Int × List Char)
  | [] => some (0, [])
  | c :: cs => if c = 'e' ∨ c = 'E' then readSigned? cs else some (0, c :: cs)

/-- The number that its parts stand for. -/
def numberOf (negative : Bool) (whole fraction : List Char) (exponent : Int) : Rat :=
  let magnitude := Decimal.Scaled.value ⟨Decimal.ofDigits (whole ++ fraction), exponent - fraction.length⟩
  if negative then -magnitude else magnitude

def readNumber? (cs : List Char) : Option (Rat × List Char) := do
  let (negative, cs) := readMinus cs
  let (whole, cs) ← readWhole? cs
  let (fraction, cs) ← readFraction? cs
  let (exponent, cs) ← readExponent? cs
  some (numberOf negative whole fraction exponent, cs)

/-! ## Strings -/

def hexDigit? (c : Char) : Option Nat :=
  if c.isDigit then some (c.toNat - 0x30)
  else if 'a' ≤ c ∧ c ≤ 'f' then some (c.toNat - 0x57)
  else if 'A' ≤ c ∧ c ≤ 'F' then some (c.toNat - 0x37)
  else none

def readHex? : List Char → Option (Nat × List Char)
  | a :: b :: c :: d :: rest => do
    let a ← hexDigit? a
    let b ← hexDigit? b
    let c ← hexDigit? c
    let d ← hexDigit? d
    some (0x1000 * a + 0x100 * b + 0x10 * c + d, rest)
  | _ => none

/-- The other half of a surrogate pair that begins with `high`. -/
def readLowHalf? (high : Nat) : List Char → Option (Char × List Char)
  | '\\' :: 'u' :: cs => do
    let (low, rest) ← readHex? cs
    if 0xDC00 ≤ low ∧ low < 0xE000 then
      some (Char.ofNat (0x10000 + 0x400 * (high - 0xD800) + (low - 0xDC00)), rest)
    else none
  | _ => none

/-- The character that a code in hexadecimal digits stands for. -/
def readCode? (cs : List Char) : Option (Char × List Char) := do
  let (n, rest) ← readHex? cs
  if 0xD800 ≤ n ∧ n < 0xDC00 then readLowHalf? n rest
  else if 0xDC00 ≤ n ∧ n < 0xE000 then none
  else some (Char.ofNat n, rest)

def escaped? : Char → Option Char
  | '"' => some '"'
  | '\\' => some '\\'
  | '/' => some '/'
  | 'b' => some '\x08'
  | 'f' => some '\x0c'
  | 'n' => some '\n'
  | 'r' => some '\r'
  | 't' => some '\t'
  | _ => none

/-- One character of a string, as itself or escaped. -/
def readChar? : List Char → Option (Char × List Char)
  | [] => none
  | ['\\'] => none
  | '\\' :: 'u' :: cs => readCode? cs
  | '\\' :: c :: cs => (escaped? c).map fun x => (x, cs)
  | c :: cs => if c = '"' ∨ c.toNat < 0x20 then none else some (c, cs)

/-- The characters of a string up to the closing quote, at most `fuel - 1` of them. -/
def readText? : Nat → List Char → Option (List Char × List Char)
  | 0, _ => none
  | _ + 1, '"' :: cs => some ([], cs)
  | fuel + 1, cs => do
    let (c, cs) ← readChar? cs
    let (text, cs) ← readText? fuel cs
    some (c :: text, cs)

/-- A string behind its opening quote. -/
def readString? (cs : List Char) : Option (String × List Char) :=
  (readText? cs.length cs).map fun r => (String.ofList r.1, r.2)

/-! ## Arrays and objects -/

section

variable {α : Type} (part? : List Char → Option (α × List Char)) (closing : Char)

/-- Parts with commas between them, at least one and at most `fuel`, and the closing bracket. -/
def readParts? : Nat → List Char → Option (List α × List Char)
  | 0, _ => none
  | fuel + 1, cs => do
    let (x, cs) ← part? cs
    match skipSpace cs with
    | [] => none
    | c :: cs =>
      if c = closing then some ([x], cs)
      else if c = ',' then do
        let (xs, cs) ← readParts? fuel cs
        some (x :: xs, cs)
      else none

/-- Parts behind the opening bracket, or none at all. -/
def readBracketed? (fuel : Nat) (cs : List Char) : Option (List α × List Char) :=
  match skipSpace cs with
  | [] => none
  | c :: rest => if c = closing then some ([], rest) else readParts? part? closing fuel cs

end

/-- A name, a colon and what `value?` reads. -/
def readMember? {α : Type} (value? : List Char → Option (α × List Char)) (cs : List Char) :
    Option ((String × α) × List Char) :=
  match skipSpace cs with
  | '"' :: cs => do
    let (name, cs) ← readString? cs
    match skipSpace cs with
    | ':' :: cs => (value? cs).map fun r => ((name, r.1), r.2)
    | _ => none
  | _ => none

/-! ## Documents -/

/-- The words that are documents. -/
def words : List (List Char × Document) :=
  [(['n', 'u', 'l', 'l'], .null), (['t', 'r', 'u', 'e'], .bool true), (['f', 'a', 'l', 's', 'e'], .bool false)]

def readWord? (cs : List Char) : Option (Document × List Char) :=
  words.findSome? fun w => if w.1.isPrefixOf cs then some (w.2, cs.drop w.1.length) else none

/-- One document. Neither its depth nor the number of parts in one of its brackets comes up to `fuel`. -/
def readValue? : Nat → List Char → Option (Document × List Char)
  | 0, _ => none
  | fuel + 1, cs =>
    match skipSpace cs with
    | '"' :: cs => (readString? cs).map fun r => (.string r.1, r.2)
    | '[' :: cs => (readBracketed? (readValue? fuel) ']' fuel cs).map fun r => (.array r.1, r.2)
    | '\x7b' :: cs => (readBracketed? (readMember? (readValue? fuel)) '\x7d' fuel cs).map fun r => (.object r.1, r.2)
    | cs => readWord? cs <|> (readNumber? cs).map fun r => (.number r.1, r.2)

/-- A whole text. Every bracket and every part takes a character, so its length is enough fuel. -/
def read? (cs : List Char) : Option Document :=
  (readValue? cs.length cs).bind fun r => if (skipSpace r.2).isEmpty then some r.1 else none

end Document

end StackParser
