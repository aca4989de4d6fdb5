import StackParser.Value

/-!
# Families of keywords

`Family α` : the keywords for the values of a type `α`. Its table says which token of the input stands for which value;
several tokens may stand for one. `Family.ofValue?` finds the value of `α` again from the keyword on the stack.
-/

namespace StackParser

/-- A closed set of words that stand for the values of `α`. -/
structure Family (α : Type) where
  name : String
  /-- Each token with what it stands for. -/
  table : List (String × α)
  variantName : α → String

namespace Family

variable {α : Type}

def keyword (F : Family α) (a : α) : Keyword := ⟨F.name, F.variantName a⟩

def value (F : Family α) (a : α) : Value := .keyword (F.keyword a)

def type (F : Family α) : ValueType := .keyword F.name

def tokens (F : Family α) : List (String × String) := F.table.map fun (token, a) => (token, F.variantName a)

/-- What a keyword stands for, if it is of this family and a token of the table stands for the same. -/
def ofKeyword? (F : Family α) (k : Keyword) : Option α :=
  if k.family = F.name then (F.table.map Prod.snd).find? fun a => F.variantName a == k.name
  else none

def ofValue? (F : Family α) (v : Value) : Option α := v.keyword?.bind F.ofKeyword?

end Family

end StackParser
