import StackParser.Value

/-!
# Why a parse fails

* `ParseError` : one constructor for each cause;
* `ParseError.message`, `ParseError.code`, `ParseError.help` : what a user is told;
* `Category` : the five groups of causes, which the code names and the report words its label by.
-/

namespace StackParser

inductive NumberKind where
  | int
  | long
  | float
  deriving DecidableEq, Inhabited, Repr

def NumberKind.text : NumberKind → String
  | .int => "int"
  | .long => "long"
  | .float => "float"

inductive ParseError where
  /-- The input does not go on as expected. -/
  | mismatch (expected found : String)
  /-- No number stands here. -/
  | notANumber (found : String)
  /-- The text looks like a number and is none of that kind. -/
  | invalidNumber (text : String) (kind : NumberKind)
  /-- No alternative succeeds; each is named with its own error. -/
  | exhausted (failures : List (String × ParseError))
  /-- Several alternatives succeed. -/
  | ambiguous (branches : List String)
  /-- An iteration succeeds without moving; the warning it carries is kept. -/
  | noProgress (warning : Option ParseError)
  /-- The stack holds fewer values than the shape has fields. -/
  | arity (shape : String) (expected actual : Nat)
  /-- A value on the stack has not the type of its field. -/
  | fieldType (shape field : String) (expected found : ValueType)
  /-- A cause that only the grammar knows. -/
  | custom (message : String)
  deriving Inhabited, Repr

inductive Category where
  | matching
  | alternation
  | progress
  | assembly
  | grammar
  deriving DecidableEq, Inhabited, Repr

def Category.text : Category → String
  | .matching => "match"
  | .alternation => "alternation"
  | .progress => "progress"
  | .assembly => "assembly"
  | .grammar => "grammar"

namespace ParseError

/-! ## Messages -/

mutual

def message : ParseError → String
  | .mismatch expected found => "Expected " ++ expected ++ " but received '" ++ found ++ "'"
  | .notANumber found => "Expected number but got '" ++ found ++ "'"
  | .invalidNumber text kind =>
    "Expected " ++ kind.text ++ " but '" ++ text ++ "' is not a valid " ++ kind.text
  | .exhausted failures =>
    "Expected only one parser to match but received none:" ++ String.join (failureLines failures)
  | .ambiguous branches =>
    "Expected only one parser to match but received: " ++ ", ".intercalate branches
  | .noProgress warning =>
    "Parser did not move between iterations (warning: " ++ warningText warning ++ ")"
  | .arity _ expected actual =>
    "Expected parser results to contain " ++ toString expected ++ " results but contained: " ++ toString actual
  | .fieldType _ field expected found =>
    "Expected field '" ++ field ++ "' of type " ++ expected.text ++ " but got: " ++ found.text
  | .custom message => message

/-- One line for each failed alternative, each with a line feed in front. -/
def failureLines : List (String × ParseError) → List String
  | [] => []
  | (label, e) :: rest => ("\n" ++ message e ++ " (" ++ label ++ ")") :: failureLines rest

def warningText : Option ParseError → String
  | none => "none"
  | some e => message e

end

/-! ## Categories, codes and advice -/

def category : ParseError → Category
  | .mismatch .. | .notANumber .. | .invalidNumber .. => .matching
  | .exhausted .. | .ambiguous .. => .alternation
  | .noProgress .. => .progress
  | .arity .. | .fieldType .. => .assembly
  | .custom .. => .grammar

/-- The last part of the code, which names the cause. -/
def codeSuffix : ParseError → String
  | .mismatch .. => "mismatch"
  | .notANumber .. => "not_a_number"
  | .invalidNumber .. => "invalid_number"
  | .exhausted .. => "exhausted"
  | .ambiguous .. => "ambiguous"
  | .noProgress .. => "no_progress"
  | .arity .. => "arity_mismatch"
  | .fieldType .. => "type_mismatch"
  | .custom .. => "custom"

def code (e : ParseError) : String := "kumi::" ++ e.category.text ++ "::" ++ e.codeSuffix

/-- Advice to the author of the grammar. -/
def help : ParseError → Option String
  | .ambiguous .. => some "alternatives of one_of must be mutually exclusive on this input"
  | .noProgress .. =>
    some "the grammar succeeded without consuming input; wrap a consuming parser around it"
  | .arity shape .. | .fieldType shape .. =>
    some ("check that the grammar pushes the fields of `" ++ shape ++ "` in declaration order")
  | _ => none

end ParseError

end StackParser
