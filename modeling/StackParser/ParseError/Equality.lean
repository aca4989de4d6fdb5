import StackParser.ParseError

/-!
# Equality of errors

`ParseError.beq` compares two errors, with all errors inside them. It decides equality.
-/

namespace StackParser.ParseError

mutual

def beq : ParseError → ParseError → Bool
  | .mismatch e f, .mismatch e' f' => e == e' && f == f'
  | .notANumber f, .notANumber f' => f == f'
  | .invalidNumber t k, .invalidNumber t' k' => t == t' && k == k'
  | .exhausted fs, .exhausted fs' => beqFailures fs fs'
  | .ambiguous bs, .ambiguous bs' => bs == bs'
  | .noProgress w, .noProgress w' => beqWarning w w'
  | .arity s e a, .arity s' e' a' => s == s' && e == e' && a == a'
  | .fieldType s f e t, .fieldType s' f' e' t' => s == s' && f == f' && e == e' && t == t'
  | .custom m, .custom m' => m == m'
  | _, _ => false

def beqFailures : List (String × ParseError) → List (String × ParseError) → Bool
  | [], [] => true
  | (l, e) :: fs, (l', e') :: fs' => l == l' && beq e e' && beqFailures fs fs'
  | _, _ => false

def beqWarning : Option ParseError → Option ParseError → Bool
  | none, none => true
  | some e, some e' => beq e e'
  | _, _ => false

end

instance : BEq ParseError := ⟨beq⟩

/-! ## `beq` decides equality -/

mutual

theorem eq_of_beq : ∀ {a b : ParseError}, beq a b = true → a = b := by
  intro a b h
  cases a <;> cases b <;> simp only [beq, Bool.and_eq_true, beq_iff_eq, reduceCtorEq] at h ⊢ <;>
    first
    | contradiction
    | (simp_all; done)
    | exact congrArg _ (failures_eq_of_beq h)
    | exact congrArg _ (warning_eq_of_beq h)

theorem failures_eq_of_beq : ∀ {a b : List (String × ParseError)}, beqFailures a b = true → a = b
  | [], [], _ => rfl
  | (l, e) :: a, (l', e') :: b, h => by
    simp only [beqFailures, Bool.and_eq_true, beq_iff_eq] at h
    rw [h.1.1, eq_of_beq h.1.2, failures_eq_of_beq h.2]
  | [], _ :: _, h => by simp [beqFailures] at h
  | _ :: _, [], h => by simp [beqFailures] at h

theorem warning_eq_of_beq : ∀ {a b : Option ParseError}, beqWarning a b = true → a = b
  | none, none, _ => rfl
  | some e, some e', h => by
    simp only [beqWarning] at h
    rw [eq_of_beq h]
  | none, some _, h => by simp [beqWarning] at h
  | some _, none, h => by simp [beqWarning] at h

end

mutual

theorem beq_self : ∀ a : ParseError, beq a a = true
  | .mismatch .. | .notANumber .. | .invalidNumber .. | .ambiguous .. | .arity .. | .fieldType .. | .custom .. => by
    simp [beq]
  | .exhausted fs => by simp [beq, failures_beq_self fs]
  | .noProgress w => by simp [beq, warning_beq_self w]

theorem failures_beq_self : ∀ a : List (String × ParseError), beqFailures a a = true
  | [] => rfl
  | (l, e) :: a => by simp [beqFailures, beq_self e, failures_beq_self a]

theorem warning_beq_self : ∀ a : Option ParseError, beqWarning a a = true
  | none => rfl
  | some e => by simp [beqWarning, beq_self e]

end

instance : LawfulBEq ParseError where
  eq_of_beq := eq_of_beq
  rfl := beq_self _

instance : DecidableEq ParseError := fun a b => decidable_of_iff (a == b) beq_iff_eq

end StackParser.ParseError
