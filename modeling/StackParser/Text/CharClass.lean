/-!
# Classes of characters

`CharClass` : a set of code points, given by ascending closed ranges; `CharClass.contains` looks a character up, and
`CharClass.contains_iff` : it finds those that are in one of the ranges. The classes of the library are in the modules named
for them (`Blank`, `Alphabetic`, `Unprintable`).
-/

namespace StackParser

/-- Whether the ranges are ascending, non-empty and apart. -/
def CharClass.ascending : List (Nat × Nat) → Bool
  | [] => true
  | [(lo, hi)] => lo ≤ hi
  | (lo, hi) :: (lo', hi') :: rest => lo ≤ hi && hi + 1 < lo' && ascending ((lo', hi') :: rest)

/-- A set of characters as closed ranges of code points. -/
structure CharClass where
  ranges : List (Nat × Nat)
  ascend : CharClass.ascending ranges = true := by decide +kernel

namespace CharClass

/-- Looks `n` up in ascending ranges, and stops at the first range that begins above it. -/
def inRanges : List (Nat × Nat) → Nat → Bool
  | [], _ => false
  | (lo, hi) :: rest, n => if n < lo then false else n ≤ hi || inRanges rest n

def contains (k : CharClass) (c : Char) : Bool := inRanges k.ranges c.toNat

/-- All ranges of an ascending list begin where the first one does, or above. -/
theorem le_of_ascending {r : Nat × Nat} {rest : List (Nat × Nat)} (h : ascending (r :: rest) = true) :
    ∀ r' ∈ r :: rest, r.1 ≤ r'.1 := by
  induction rest generalizing r with
  | nil => simp
  | cons next rest ih =>
    simp only [ascending, Bool.and_eq_true, decide_eq_true_eq] at h
    obtain ⟨⟨hr, hnext⟩, hrest⟩ := h
    intro r' hr'
    rcases List.mem_cons.1 hr' with rfl | hr'
    · exact Nat.le_refl _
    · exact Nat.le_trans (by omega) (ih hrest r' hr')

theorem ascending_tail {r : Nat × Nat} {rest : List (Nat × Nat)} (h : ascending (r :: rest) = true) :
    ascending rest = true := by
  cases rest with
  | nil => rfl
  | cons next rest => exact (Bool.and_eq_true_iff.1 h).2

theorem inRanges_iff {ranges : List (Nat × Nat)} (h : ascending ranges = true) (n : Nat) :
    inRanges ranges n = true ↔ ∃ r ∈ ranges, r.1 ≤ n ∧ n ≤ r.2 := by
  induction ranges with
  | nil => simp [inRanges]
  | cons r rest ih =>
    have hrest := ih (ascending_tail h)
    unfold inRanges
    split
    · rename_i hbelow
      constructor
      · exact nofun
      · intro ⟨r', hr', hlo, _⟩
        have hle := le_of_ascending h r' hr'
        omega
    · rename_i hreached
      simp [hrest, Nat.le_of_not_lt hreached]

theorem contains_iff (k : CharClass) (c : Char) :
    k.contains c = true ↔ ∃ r ∈ k.ranges, r.1 ≤ c.toNat ∧ c.toNat ≤ r.2 := inRanges_iff k.ascend c.toNat

end CharClass

end StackParser
