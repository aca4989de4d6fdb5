import StackParser.State

/-!
# Shapes of records

* `Shape` : the name of a record type and its fields in order, each with a type and a `Presence`;
* `Shape.assemble` : makes the latest values on the stack into one record. All fields are tried first; if their values are
  not there, the required fields alone are, and defaults fill in. An assembly that fails leaves the stack as it was.
-/

namespace StackParser

/-- Whether a value for the field has to be on the stack. -/
inductive Presence where
  | required
  /-- A record without this field is complete. -/
  | optional
  /-- A record made without a value for this field gets the default, whatever its type. -/
  | defaulted (value : Value)
  deriving Inhabited

structure Field where
  name : String
  type : ValueType
  presence : Presence
  deriving Inhabited

def Field.mandatory (f : Field) : Bool :=
  match f.presence with
  | .required => true
  | _ => false

structure Shape where
  name : String
  fields : List Field
  deriving Inhabited

namespace Shape

def type (shape : Shape) : ValueType := .record shape.name

/-- The fields that every record of this shape has from the stack. -/
def mandatory (shape : Shape) : List Field := shape.fields.filter Field.mandatory

/-- The error for the first field whose value has another type. -/
def mistyped? (shape : Shape) : List Field → List Value → Option ParseError
  | f :: fs, v :: vs =>
    if f.type.accepts v then shape.mistyped? fs vs
    else some (.fieldType shape.name f.name f.type v.type)
  | _, _ => none

/-- Why the latest values of a stack are no values for these fields, if they are not. -/
def misfit? (shape : Shape) (fields : List Field) (stack : List Value) : Option ParseError :=
  if stack.length < fields.length then some (.arity shape.name fields.length stack.length)
  else shape.mistyped? fields (stack.drop (stack.length - fields.length))

def fillAll (fields : List Field) (values : List Value) : List (String × Value) :=
  (fields.map Field.name).zip values

/-- A value for every required field, in order, and the defaults of the others. -/
def fillMandatory : List Field → List Value → List (String × Value)
  | [], _ => []
  | f :: fs, vs =>
    match f.presence, vs with
    | .required, v :: vs => (f.name, v) :: fillMandatory fs vs
    | .required, [] => fillMandatory fs []
    | .optional, vs => fillMandatory fs vs
    | .defaulted d, vs => (f.name, d) :: fillMandatory fs vs

/-- Makes the latest values of the stack into a record of this shape. -/
def assemble (shape : Shape) (s : State) : State :=
  if s.failed then s
  else
    match shape.misfit? shape.fields s.stack with
    | none => s.collectLast shape.fields.length fun vs => .record shape.name (fillAll shape.fields vs)
    | some e =>
      if shape.mandatory.length = shape.fields.length then s.fail e
      else
        match shape.misfit? shape.mandatory s.stack with
        | none =>
          s.collectLast shape.mandatory.length fun vs => .record shape.name (fillMandatory shape.fields vs)
        | some _ => s.fail e

end Shape

end StackParser
