import StackParser.Value
import StackParser.Decimal.Layout

/-!
# Values as text

`Value.display` : the one-line text of a value. A text stands between double quotes as it is, nothing escaped.
-/

namespace StackParser

/-- Numbers in displayed values never have an exponent, and whole ones no point; a tie between two digits goes up. -/
def Decimal.Layout.displayed : Decimal.Layout where
  positional := fun _ => true
  pointZero := false
  tie := .up

def displayFloat (x : Float) : String :=
  if x.isNaN then "NaN"
  else if x.isInf then (if x < 0 then "-inf" else "inf")
  else String.ofList (Decimal.Layout.displayed.write x)

def Keyword.display (k : Keyword) : String := k.family ++ "::" ++ k.name

namespace Value

mutual

def display : Value → String
  | .char c => "'" ++ String.singleton c ++ "'"
  | .str text => "\"" ++ text ++ "\""
  | .int n => toString n.toInt
  | .long n => toString n.toInt
  | .float x => displayFloat x
  | .list items => "[" ++ ", ".intercalate (displayItems items) ++ "]"
  | .record shape fields => shape ++ " \x7b" ++ ",".intercalate (displayFields fields) ++ " \x7d"
  | .keyword k => k.display

def displayItems : List Value → List String
  | [] => []
  | v :: vs => display v :: displayItems vs

def displayFields : List (String × Value) → List String
  | [] => []
  | (name, v) :: rest => (" " ++ name ++ ": " ++ display v) :: displayFields rest

end

theorem displayItems_eq_map (vs : List Value) : displayItems vs = vs.map display := by
  induction vs with
  | nil => simp [displayItems]
  | cons v vs ih => simp [displayItems, ih]

theorem displayFields_eq_map (fields : List (String × Value)) :
    displayFields fields = fields.map fun e => " " ++ e.1 ++ ": " ++ e.2.display := by
  induction fields with
  | nil => simp [displayFields]
  | cons e fields ih => simp [displayFields, ih]

end Value

end StackParser
