import StackParser.Value
import StackParser.Keyed
import StackParser.Decimal.Layout

/-!
# JSON

* `Json` : a JSON document as a tree; the members of an object keep their order and may repeat a name;
* `Json.compact`, `Json.pretty` : its text without white space, and with one item on a line;
* `Value.toJson`, `Json.ofOutput` : values, and what a parse leaves, as documents.
-/

namespace StackParser

/-- A JSON document. A number is held as its text. -/
inductive Json where
  | null
  | number (text : List Char)
  | string (text : String)
  | array (items : List Json)
  | object (members : List (String × Json))
  deriving Inhabited

namespace Json

/-! ## Strings -/

/-- Four hexadecimal digits, for a control character. -/
def hexEscape (n : Nat) : List Char :=
  let digits := Nat.toDigits 16 n
  ['\\', 'u'] ++ List.replicate (4 - digits.length) '0' ++ digits

/-- Only the quote, the backslash and the controls are escaped. -/
def escape (c : Char) : List Char :=
  match c with
  | '"' => ['\\', '"']
  | '\\' => ['\\', '\\']
  | '\x08' => ['\\', 'b']
  | '\t' => ['\\', 't']
  | '\n' => ['\\', 'n']
  | '\x0c' => ['\\', 'f']
  | '\r' => ['\\', 'r']
  | _ => if c.toNat < 0x20 then hexEscape c.toNat else [c]

def quote (text : String) : List Char := '"' :: text.toList.flatMap escape ++ ['"']

/-! ## Documents -/

mutual

/-- The text without white space. -/
def compact : Json → List Char
  | .null => ['n', 'u', 'l', 'l']
  | .number text => text
  | .string text => quote text
  | .array items => '[' :: [','].intercalate (compactItems items) ++ [']']
  | .object members => '\x7b' :: [','].intercalate (compactMembers members) ++ ['\x7d']

def compactItems : List Json → List (List Char)
  | [] => []
  | j :: js => compact j :: compactItems js

def compactMembers : List (String × Json) → List (List Char)
  | [] => []
  | (name, j) :: rest => (quote name ++ ':' :: compact j) :: compactMembers rest

end

def newLine (depth : Nat) : List Char := '\n' :: List.replicate (2 * depth) ' '

/-- Parts between brackets, one on a line; brackets with nothing between them stay together. -/
def bracketed (opening closing : Char) (depth : Nat) (parts : List (List Char)) : List Char :=
  if parts.isEmpty then [opening, closing]
  else
    opening :: newLine (depth + 1) ++ (',' :: newLine (depth + 1)).intercalate parts ++ newLine depth ++ [closing]

mutual

/-- The text with one item or member on a line, `depth` levels inside other documents. -/
def pretty : Json → Nat → List Char
  | .null, _ => ['n', 'u', 'l', 'l']
  | .number text, _ => text
  | .string text, _ => quote text
  | .array items, depth => bracketed '[' ']' depth (prettyItems items (depth + 1))
  | .object members, depth => bracketed '\x7b' '\x7d' depth (prettyMembers members (depth + 1))

def prettyItems : List Json → Nat → List (List Char)
  | [], _ => []
  | j :: js, depth => pretty j depth :: prettyItems js depth

def prettyMembers : List (String × Json) → Nat → List (List Char)
  | [], _ => []
  | (name, j) :: rest, depth => (quote name ++ [':', ' '] ++ pretty j depth) :: prettyMembers rest depth

end

def compactText (j : Json) : String := String.ofList j.compact

def prettyText (j : Json) : String := String.ofList (j.pretty 0)

end Json

/-! ## Values -/

/-- Numbers from `0.00001` up to sixteen digits have no exponent, and whole ones end in `.0`; a tie goes to the even
digit. -/
def Decimal.Layout.json : Decimal.Layout where
  positional := fun leading => -5 ≤ leading ∧ leading ≤ 15
  pointZero := true
  tie := .toEven

/-- A number, or null where JSON has none. -/
def Json.ofFloat (x : Float) : Json :=
  if x.isNaN || x.isInf then .null else .number (Decimal.Layout.json.write x)

def Json.ofInt (n : Int) : Json := .number (toString n).toList

namespace Value

mutual

def toJson : Value → Json
  | .char c => .string (String.singleton c)
  | .str text => .string text
  | .int n => .ofInt n.toInt
  | .long n => .ofInt n.toInt
  | .float x => .ofFloat x
  | .list items => .array (itemsToJson items)
  | .record _ fields => .object (fieldsToJson fields)
  | .keyword k => .object [("family", .string k.family), ("name", .string k.name)]

def itemsToJson : List Value → List Json
  | [] => []
  | v :: vs => toJson v :: itemsToJson vs

def fieldsToJson : List (String × Value) → List (String × Json)
  | [] => []
  | (name, v) :: rest => (name, toJson v) :: fieldsToJson rest

end

end Value

/-- What a parse leaves: the values of the stack and the entries of the context. -/
def Json.ofOutput (stack : List Value) (context : Keyed Value) : Json :=
  .object [
    ("values", .array (stack.map Value.toJson)),
    ("context", .object (context.entries.map fun (key, v) => (key, v.toJson)))]

end StackParser
