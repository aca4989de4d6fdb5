import StackParser.Parser.Basic
import StackParser.Text.Blank
import StackParser.Text.Alphabetic

/-!
# Parsers of single units of text

`Parser.char`, `Parser.literal`, `Parser.spaces` (fixed texts), `Parser.letter`, `Parser.word`, `Parser.lineEnd`. A
captured unit is pushed as a value. One that does not match fails where it began and tells what it found there, with
one exception: a carriage return without its line feed is read.
-/

namespace StackParser

/-- The character found in the input, as an error tells it. -/
def foundText : Option Char → String
  | some c => String.singleton c
  | none => "null"

namespace Parser

def char (c : Char) (captured : Bool) : Parser where
  label := "char(" ++ String.singleton c ++ ")"
  run s :=
    if s.cursor.peekChar = some c then
      if captured then (s.advance 1).push (.char c) else s.advance 1
    else s.fail (.mismatch ("'" ++ String.singleton c ++ "'") (foundText s.cursor.peekChar))

/-- Reads exactly the characters `cs`. A mismatch tells as many of the next characters, or all that are left. -/
def fixedText (cs : List Char) (captured : Bool) (s : State) : State :=
  if cs.isPrefixOf s.cursor.after then
    if captured then (s.advance cs.length).push (.str (String.ofList cs)) else s.advance cs.length
  else
    s.fail (.mismatch ("'" ++ String.ofList cs ++ "'") (String.ofList (s.cursor.after.take cs.length)))

def literal (text : String) (captured : Bool) : Parser where
  label := "literal(" ++ text ++ ")"
  run := fixedText text.toList captured

/-- Exactly `n` spaces; more may follow. -/
def spaces (n : Nat) (captured : Bool) : Parser where
  label := if n = 1 then "space()" else "spaces(" ++ toString n ++ ")"
  run := fixedText (List.replicate n ' ') captured

/-- One letter of any script. -/
def letter : Parser where
  label := "letter()"
  run s :=
    match s.cursor.peekChar with
    | some c => if isLetter c then (s.advance 1).push (.char c) else s.fail (.mismatch "letter" (foundText c))
    | none => s.fail (.mismatch "letter" (foundText none))

/-- The longest run of characters that are not blank; there must be one. -/
def word : Parser where
  label := "word()"
  run s :=
    let cs := s.cursor.after.takeWhile fun c => !isBlank c
    if cs.isEmpty then s.fail (.mismatch "string of any length" (foundText s.cursor.peekChar))
    else (s.advance cs.length).push (.str (String.ofList cs))

/-- A line feed, or a carriage return and a line feed. -/
def lineEnd : Parser where
  label := "line_end()"
  run s :=
    match s.cursor.after with
    | '\n' :: _ => s.advance 1
    | '\r' :: '\n' :: _ => s.advance 2
    | '\r' :: rest => (s.advance 1).fail (.mismatch "'\\n'" (foundText rest.head?))
    | rest => s.fail (.mismatch "'\\r' or '\\n'" (foundText rest.head?))

end Parser

end StackParser
