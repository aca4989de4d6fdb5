import StackParser.ParseError

/-!
# Errors inside errors

* `ParseError.Within d e` : `d` is `e` or an error inside it, at any depth. Errors hold others as the failures of
  alternatives and as the warning of an application that stalled;
* `ParseError.Only P e` : `e` and all errors inside it satisfy `P`.
-/

namespace StackParser.ParseError

/-- `d` is `e` or stands inside it. -/
inductive Within (d : ParseError) : ParseError → Prop where
  | self : Within d d
  | failure {failures : List (String × ParseError)} {label : String} {e : ParseError} :
    (label, e) ∈ failures → Within d e → Within d (.exhausted failures)
  | warning {e : ParseError} : Within d e → Within d (.noProgress (some e))

/-- `e` and all errors inside it satisfy `P`. -/
def Only (P : ParseError → Prop) (e : ParseError) : Prop := ∀ d, d.Within e → P d

/-- Whether errors of this cause hold no others. -/
def isLeaf : ParseError → Bool
  | .exhausted _ | .noProgress _ => false
  | _ => true

variable {P : ParseError → Prop}

theorem only_of_isLeaf {e : ParseError} (hleaf : e.isLeaf = true) (h : P e) : e.Only P := by
  intro d hd
  cases hd with
  | self => exact h
  | failure _ _ => exact nomatch hleaf
  | warning _ => exact nomatch hleaf

theorem only_exhausted {failures : List (String × ParseError)} (h : P (.exhausted failures))
    (hparts : ∀ f ∈ failures, f.2.Only P) : (exhausted failures).Only P := by
  intro d hd
  cases hd with
  | self => exact h
  | failure hmem hd => exact hparts _ hmem d hd

theorem only_noProgress {warning : Option ParseError} (h : P (.noProgress warning))
    (hpart : ∀ e, warning = some e → e.Only P) : (noProgress warning).Only P := by
  intro d hd
  cases hd with
  | self => exact h
  | warning hd => exact hpart _ rfl d hd

end StackParser.ParseError
