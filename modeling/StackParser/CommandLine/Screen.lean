import StackParser.Bundled.Catalogue
import StackParser.Value.Display

/-!
# What the command line shows

`Screen.values` : the values and the context a parse leaves, one on a line, and a line that counts them; `Screen.grammars` :
the list of bundled grammars. Where the terminal has colours, the first column and the count are coloured.
-/

namespace StackParser.CommandLine

/-- A colour of the terminal, by its digit in escape sequences. -/
structure Paint where
  colour : Char
  bold : Bool

namespace Paint

def green : Paint := ⟨'2', true⟩

def yellow : Paint := ⟨'3', true⟩

def cyan : Paint := ⟨'6', false⟩

def apply (p : Paint) (colours : Bool) (text : String) : String :=
  if colours then
    "\x1b[0m" ++ (if p.bold then "\x1b[1m" else "") ++ "\x1b[3" ++ String.singleton p.colour ++ "m" ++ text ++ "\x1b[0m"
  else text

end Paint

namespace Screen

def padLeft (n : Nat) (text : String) : String := String.ofList (List.replicate (n - text.length) ' ') ++ text

def padRight (n : Nat) (text : String) : String := text ++ String.ofList (List.replicate (n - text.length) ' ')

/-- One line for each value, with its place on the stack. -/
def valueLines (colours : Bool) (stack : List Value) : List String :=
  stack.zipIdx.map fun (v, i) => Paint.cyan.apply colours (padLeft 4 (toString i)) ++ "  " ++ v.display ++ "\n"

def contextLines (colours : Bool) (context : Context) : List String :=
  context.entries.map fun (key, v) => Paint.yellow.apply colours key ++ " = " ++ v.display ++ "\n"

/-- The line that counts values and entries. -/
def summary (values entries : Nat) : String :=
  "parsed " ++ toString values ++ " value(s), " ++ toString entries ++ " context " ++
    (if entries = 1 then "entry" else "entries") ++ "\n"

def values (colours : Bool) (stack : List Value) (context : Context) : String :=
  String.join (valueLines colours stack) ++ String.join (contextLines colours context) ++
    Paint.green.apply colours (summary stack.length context.entries.length)

/-- One line for each grammar, the names in a column as wide as the longest. -/
def grammars (colours : Bool) (entries : List Catalogue.Entry) : String :=
  let width := (entries.map fun e => e.name.length).foldl max 0
  String.join (entries.map fun e =>
    Paint.green.apply colours (padRight width e.name) ++ "  " ++ e.description ++ "\n")

def usage : String :=
  "Run bundled parser-combinator grammars over text files.\n\n" ++
  "Usage: kumi [--trace] parse <GRAMMAR> <FILE> [--json]\n" ++
  "       kumi [--trace] list\n" ++
  "       kumi --help | --version\n"

def version : String := "kumi 0.1.0\n"

end Screen

end StackParser.CommandLine
