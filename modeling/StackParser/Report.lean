import StackParser.State

/-!
# Reports on failed parses

`Report.ofState?` : the report on a state, if it has failed. It points at the character where the parser stood, in bytes.
-/

namespace StackParser

/-- A failure with the place in the text to show. -/
structure Report where
  error : ParseError
  /-- The label of the parser that failed. -/
  label : String
  /-- The first byte of the character pointed at. -/
  offset : Nat
  /-- The number of its bytes; zero at the end of the text. -/
  length : Nat
  source : String
  text : String

namespace Report

/-- The report on a failed state over the text of that source. -/
def ofState? (s : State) (source : String) : Option Report :=
  s.error.map fun e => {
    error := e
    label := s.name
    offset := s.cursor.byteOffset
    length := (s.cursor.peekChar.map Char.utf8Size).getD 0
    source := source
    text := s.cursor.text }

/-- The advice of the error, if it has one, and the parser that was running. -/
def help (r : Report) : String :=
  match r.error.help with
  | some advice => advice ++ " (while running " ++ r.label ++ ")"
  | none => "while running " ++ r.label

/-- The words put at the place in the text. -/
def pointer (r : Report) : String :=
  match r.error.category with
  | .matching => "unexpected input here"
  | .alternation => "no single alternative matched here"
  | .progress => "parsing stalled here"
  | .assembly => "record assembled here"
  | .grammar => "rejected here"

end Report

end StackParser
