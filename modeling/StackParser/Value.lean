/-!
# Values

* `Value` : what parsers push onto the stack: characters, texts, numbers of three widths, lists, records and keywords;
* `ValueType` : the type a record field asks for. A record type names its shape and a keyword type its family;
* `Value.type`, `ValueType.accepts`, and the accessors `Value.char?`, …, `Value.keyword?`.

Equality of values is equality of content, with floating-point numbers compared as numbers: NaN equals nothing, and the
two zeros are equal.
-/

namespace StackParser

structure Keyword where
  family : String
  name : String
  deriving DecidableEq, Inhabited, Repr

inductive Value where
  | char (c : Char)
  | str (text : String)
  | int (n : Int32)
  | long (n : Int64)
  | float (x : Float)
  | list (items : List Value)
  | record (shape : String) (fields : List (String × Value))
  | keyword (k : Keyword)
  deriving Inhabited, Repr

inductive ValueType where
  | char
  | string
  | int
  | long
  | float
  | list
  | record (shape : String)
  | keyword (family : String)
  deriving DecidableEq, Inhabited, Repr

namespace ValueType

/-- The type as messages name it. -/
def text : ValueType → String
  | .char => "char"
  | .string => "string"
  | .int => "int"
  | .long => "long"
  | .float => "float"
  | .list => "list"
  | .record shape => "record " ++ shape
  | .keyword family => "keyword " ++ family

end ValueType

namespace Value

def type : Value → ValueType
  | .char _ => .char
  | .str _ => .string
  | .int _ => .int
  | .long _ => .long
  | .float _ => .float
  | .list _ => .list
  | .record shape _ => .record shape
  | .keyword k => .keyword k.family

/-- The type without the name of a shape or family. -/
def typeName : Value → String
  | .char _ => "char"
  | .str _ => "string"
  | .int _ => "int"
  | .long _ => "long"
  | .float _ => "float"
  | .list _ => "list"
  | .record _ _ => "record"
  | .keyword _ => "keyword"

end Value

/-- Whether `v` has exactly the type `t`; an `int` is no `long`. -/
def ValueType.accepts (t : ValueType) (v : Value) : Bool := v.type == t

namespace Value

/-! ## Accessors -/

def char? : Value → Option Char
  | .char c => some c
  | _ => none

def str? : Value → Option String
  | .str text => some text
  | _ => none

def int? : Value → Option Int32
  | .int n => some n
  | _ => none

/-- The 64-bit number, also of an `int`. -/
def long? : Value → Option Int64
  | .int n => some n.toInt64
  | .long n => some n
  | _ => none

def float? : Value → Option Float
  | .float x => some x
  | _ => none

def list? : Value → Option (List Value)
  | .list items => some items
  | _ => none

def record? : Value → Option (String × List (String × Value))
  | .record shape fields => some (shape, fields)
  | _ => none

def keyword? : Value → Option Keyword
  | .keyword k => some k
  | _ => none

/-- The first field of that name, if the value is a record that has one. -/
def field? (name : String) : Value → Option Value
  | .record _ fields => fields.lookup name
  | _ => none

/-! ## Equality -/

mutual

def beq : Value → Value → Bool
  | .char a, .char b => a == b
  | .str a, .str b => a == b
  | .int a, .int b => a == b
  | .long a, .long b => a == b
  | .float a, .float b => a == b
  | .list a, .list b => beqItems a b
  | .record s a, .record t b => s == t && beqFields a b
  | .keyword a, .keyword b => a == b
  | _, _ => false

def beqItems : List Value → List Value → Bool
  | [], [] => true
  | a :: as, b :: bs => beq a b && beqItems as bs
  | _, _ => false

def beqFields : List (String × Value) → List (String × Value) → Bool
  | [], [] => true
  | (m, a) :: as, (n, b) :: bs => m == n && beq a b && beqFields as bs
  | _, _ => false

end

instance : BEq Value := ⟨beq⟩

end Value

end StackParser
