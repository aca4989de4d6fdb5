import StackParser.Text.Unprintable

/-!
# Quoted text

`quoted` : a text between double quotes on one printable line. The escapes are the backslash forms of the quote, the
backslash and the common controls; every other unprintable character is written by its number.
-/

namespace StackParser

def hexDigits (n : Nat) : List Char := Nat.toDigits 16 n

namespace Quoted

/-- How quoted text writes one character. -/
def escape (c : Char) : List Char :=
  match c with
  | '\x00' => ['\\', '0']
  | '\t' => ['\\', 't']
  | '\r' => ['\\', 'r']
  | '\n' => ['\\', 'n']
  | '\\' => ['\\', '\\']
  | '"' => ['\\', '"']
  | _ => if isUnprintable c then ['\\', 'u', '\x7b'] ++ hexDigits c.toNat ++ ['\x7d'] else [c]

end Quoted

/-- `text` between double quotes, with its special characters escaped. -/
def quoted (text : String) : String :=
  String.ofList ('"' :: text.toList.flatMap Quoted.escape ++ ['"'])

end StackParser
