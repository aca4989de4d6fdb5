import Mathlib.Logic.ExistsUnique
import StackParser.ParseError.Equality
import StackParser.Proofs.Forward

/-!
# How a repetition ends

A repetition applies a parser again and again. It ends at the end of the input, at an application that fails, or at one
that succeeds without moving on, and for every parser that only moves forward it does end.

* `Parser.trail p s n` : the state after `n` applications;
* `Parser.Advances p s n` : the first `n` applications all succeed and move on, so that a repetition goes on after them.
  There are at most as many as characters are left (`Advances.length_add_le`);
* `Ending` : the three ways to end and after how many applications. Exactly one holds (`Ending.existsUnique_holds`);
* `Ending.state` : the state that `Parser.tillEnd` makes of each (`runTillEnd_eq`).
-/

namespace StackParser

namespace Parser

/-- The state after `n` applications of `p`. -/
def trail (p : Parser) (s : State) : Nat → State
  | 0 => s
  | n + 1 => p.parse (p.trail s n)

/-- The first `n` applications begin before the end, succeed, and leave the cursor at another place. -/
def Advances (p : Parser) (s : State) (n : Nat) : Prop :=
  ∀ i < n, (p.trail s i).cursor.atEnd = false ∧ (p.trail s (i + 1)).failed = false ∧
    (p.trail s (i + 1)).cursor.index ≠ (p.trail s i).cursor.index

instance (p : Parser) (s : State) (n : Nat) : Decidable (p.Advances s n) :=
  inferInstanceAs (Decidable (∀ i < n, _))

variable {p : Parser} {s : State}

theorem movedOn_iff (hp : p.Forward) (s : State) :
    (p.parse s).movedOn s ↔ (p.parse s).cursor.index ≠ s.cursor.index :=
  (hp s).index_ne_iff.symm

namespace Advances

theorem zero : p.Advances s 0 := fun _ hi => absurd hi (Nat.not_lt_zero _)

theorem mono {m n : Nat} (h : p.Advances s n) (hmn : m ≤ n) : p.Advances s m :=
  fun i hi => h i (Nat.lt_of_lt_of_le hi hmn)

theorem succ_iff {n : Nat} : p.Advances s (n + 1) ↔ p.Advances s n ∧
    (p.trail s n).cursor.atEnd = false ∧ (p.trail s (n + 1)).failed = false ∧
      (p.trail s (n + 1)).cursor.index ≠ (p.trail s n).cursor.index := by
  constructor
  · intro h
    exact ⟨h.mono (Nat.le_succ n), h n (Nat.lt_succ_self n)⟩
  · rintro ⟨h, hn⟩ i hi
    rcases Nat.lt_succ_iff_lt_or_eq.1 hi with hi | rfl
    · exact h i hi
    · exact hn

/-- Every application that moves on takes a character of those that are left. -/
theorem length_add_le (hp : p.Forward) {n : Nat} (h : p.Advances s n) :
    (p.trail s n).cursor.after.length + n ≤ s.cursor.after.length := by
  induction n with
  | zero => exact Nat.le_refl _
  | succ n ih =>
    obtain ⟨h, -, -, hmoved⟩ := succ_iff.1 h
    have hless : (p.trail s (n + 1)).cursor.after.length < (p.trail s n).cursor.after.length :=
      (movedOn_iff hp _).2 hmoved
    have := ih h
    omega

/-- After the last of them, the next application begins at the end, fails or does not move on. -/
theorem exists_last (hp : p.Forward) (s : State) : ∃ n, p.Advances s n ∧ ¬ p.Advances s (n + 1) := by
  refine Classical.byContradiction fun hno => ?_
  have hall : ∀ n, p.Advances s n := by
    intro n
    induction n with
    | zero => exact zero
    | succ n ih => exact Decidable.byContradiction fun hn => hno ⟨n, ih, hn⟩
  have := (hall (s.cursor.after.length + 1)).length_add_le hp
  omega

/-- Two last applications are the same one. -/
theorem last_unique {m n : Nat} (hm : p.Advances s m) (hm' : ¬ p.Advances s (m + 1)) (hn : p.Advances s n)
    (hn' : ¬ p.Advances s (n + 1)) : m = n := by
  rcases Nat.lt_trichotomy m n with h | h | h
  · exact absurd (hn.mono h) hm'
  · exact h
  · exact absurd (hm.mono h) hn'

end Advances

end Parser

/-! ## Endings -/

/-- How a repetition ends, with the number of applications that moved on before. -/
inductive Ending where
  /-- The input is read. -/
  | finished (n : Nat)
  /-- The next application fails. -/
  | broken (n : Nat)
  /-- The next application succeeds and does not move on. -/
  | stalled (n : Nat)
  deriving DecidableEq, Repr

namespace Ending

open StackParser.Parser

def count : Ending → Nat
  | finished n | broken n | stalled n => n

/-- The repetition of `p` from `s` ends in this way. -/
def Holds (p : Parser) (s : State) : Ending → Prop
  | finished n => p.Advances s n ∧ (p.trail s n).cursor.atEnd = true
  | broken n => p.Advances s n ∧ (p.trail s n).cursor.atEnd = false ∧ (p.trail s (n + 1)).failed = true
  | stalled n => p.Advances s n ∧ (p.trail s n).cursor.atEnd = false ∧ (p.trail s (n + 1)).failed = false ∧
      (p.trail s (n + 1)).cursor.index = (p.trail s n).cursor.index

instance (p : Parser) (s : State) : (e : Ending) → Decidable (e.Holds p s)
  | finished _ => inferInstanceAs (Decidable (_ ∧ _))
  | broken _ => inferInstanceAs (Decidable (_ ∧ _))
  | stalled _ => inferInstanceAs (Decidable (_ ∧ _))

variable {p : Parser} {s : State} {e : Ending}

theorem Holds.advances (h : e.Holds p s) : p.Advances s e.count := by
  cases e with
  | finished n => exact h.1
  | broken n => exact h.1
  | stalled n => exact h.1

theorem Holds.not_advances (h : e.Holds p s) : ¬ p.Advances s (e.count + 1) := by
  intro hnext
  obtain ⟨-, hbefore, hsuccess, hmoved⟩ := Advances.succ_iff.1 hnext
  cases e with
  | finished n => exact Bool.false_ne_true (hbefore.symm.trans h.2)
  | broken n => exact Bool.false_ne_true (hsuccess.symm.trans h.2.2)
  | stalled n => exact hmoved h.2.2.2

theorem exists_holds (hp : p.Forward) (s : State) : ∃ e : Ending, e.Holds p s := by
  obtain ⟨n, hn, hlast⟩ := Advances.exists_last hp s
  cases hend : (p.trail s n).cursor.atEnd with
  | true => exact ⟨finished n, hn, hend⟩
  | false =>
    cases hfail : (p.trail s (n + 1)).failed with
    | true => exact ⟨broken n, hn, hend, hfail⟩
    | false =>
      refine ⟨stalled n, hn, hend, hfail, Decidable.byContradiction fun hmoved => hlast ?_⟩
      exact Advances.succ_iff.2 ⟨hn, hend, hfail, hmoved⟩

theorem Holds.unique {e₁ e₂ : Ending} (h₁ : e₁.Holds p s) (h₂ : e₂.Holds p s) : e₁ = e₂ := by
  have hcount := Advances.last_unique h₁.advances h₁.not_advances h₂.advances h₂.not_advances
  -- after the same number of applications, two kinds disagree on the place or on the next application
  cases e₁ <;> cases e₂ <;> simp only [count] at hcount <;> subst hcount <;>
    first
    | rfl
    | exact absurd (h₁.2.symm.trans h₂.2.1) (by decide)
    | exact absurd (h₂.2.symm.trans h₁.2.1) (by decide)
    | exact absurd (h₁.2.2.symm.trans h₂.2.2.1) (by decide)
    | exact absurd (h₂.2.2.symm.trans h₁.2.2.1) (by decide)

/-- A repetition of a parser that only moves forward ends in exactly one way. -/
theorem existsUnique_holds (hp : p.Forward) (s : State) : ∃! e : Ending, e.Holds p s := by
  obtain ⟨e, he⟩ := exists_holds hp s
  exact ⟨e, he, fun _ h => h.unique he⟩

/-- What a repetition to the end of the input makes of each ending. -/
def state (p : Parser) (s : State) : Ending → State
  | finished n => { p.trail s n with warning := none }
  | broken n => p.trail s (n + 1)
  | stalled n => (p.trail s (n + 1)).fail (.noProgress (p.trail s (n + 1)).warning)

end Ending

namespace Parser

variable {p : Parser} {s : State}

/-! ## While it moves on -/

theorem runWhile_of_atEnd (h : s.cursor.atEnd = true) : runWhile p s = s := by
  rw [runWhile, if_pos h]

theorem runWhile_of_error {e : ParseError} (hs : s.cursor.atEnd = false) (h : (p.parse s).error = some e) :
    runWhile p s = { s with warning := some e } := by
  rw [runWhile, if_neg (ne_true_of_eq_false hs)]
  dsimp only
  rw [h]

theorem runWhile_of_not_movedOn (hs : s.cursor.atEnd = false) (h : (p.parse s).error = none)
    (hm : ¬ (p.parse s).movedOn s) : runWhile p s = p.parse s := by
  rw [runWhile, if_neg (ne_true_of_eq_false hs)]
  dsimp only
  rw [h]
  dsimp only
  rw [if_neg hm]

theorem runWhile_of_movedOn (hs : s.cursor.atEnd = false) (h : (p.parse s).error = none)
    (hm : (p.parse s).movedOn s) : runWhile p s = runWhile p (p.parse s) := by
  rw [runWhile, if_neg (ne_true_of_eq_false hs)]
  dsimp only
  rw [h]
  dsimp only
  rw [if_pos hm]

/-! ## To the end of the input -/

theorem runTillEnd_of_atEnd (h : s.cursor.atEnd = true) : runTillEnd p s = { s with warning := none } := by
  rw [runTillEnd, if_pos h]

theorem runTillEnd_of_failed (hs : s.cursor.atEnd = false) (h : (p.parse s).failed = true) :
    runTillEnd p s = p.parse s := by
  rw [runTillEnd, if_neg (ne_true_of_eq_false hs)]
  dsimp only
  rw [if_pos h]

theorem runTillEnd_of_not_movedOn (hs : s.cursor.atEnd = false) (h : (p.parse s).failed = false)
    (hm : ¬ (p.parse s).movedOn s) : runTillEnd p s = (p.parse s).fail (.noProgress (p.parse s).warning) := by
  rw [runTillEnd, if_neg (ne_true_of_eq_false hs)]
  dsimp only
  rw [if_neg (ne_true_of_eq_false h), if_neg hm]

theorem runTillEnd_of_movedOn (hs : s.cursor.atEnd = false) (h : (p.parse s).failed = false)
    (hm : (p.parse s).movedOn s) : runTillEnd p s = runTillEnd p (p.parse s) := by
  rw [runTillEnd, if_neg (ne_true_of_eq_false hs)]
  dsimp only
  rw [if_neg (ne_true_of_eq_false h), if_pos hm]

/-- The loop goes through the applications that move on. -/
theorem runTillEnd_trail (hp : p.Forward) {n : Nat} (h : p.Advances s n) :
    runTillEnd p s = runTillEnd p (p.trail s n) := by
  induction n with
  | zero => rfl
  | succ n ih =>
    obtain ⟨h, hbefore, hsuccess, hmoved⟩ := Advances.succ_iff.1 h
    rw [ih h]
    exact runTillEnd_of_movedOn hbefore hsuccess ((movedOn_iff hp _).2 hmoved)

theorem runTillEnd_eq (hp : p.Forward) {e : Ending} (h : e.Holds p s) : runTillEnd p s = e.state p s := by
  rw [runTillEnd_trail hp h.advances]
  cases e with
  | finished n => exact runTillEnd_of_atEnd h.2
  | broken n => exact runTillEnd_of_failed h.2.1 h.2.2
  | stalled n =>
    exact runTillEnd_of_not_movedOn h.2.1 h.2.2.1 fun hm => (movedOn_iff hp _).1 hm h.2.2.2

theorem tillEnd_parse (hp : p.Forward) (hs : s.failed = false) {e : Ending} (h : e.Holds p s) :
    (tillEnd p).parse s = { e.state p s with name := (tillEnd p).label } := by
  rw [parse_of_not_failed _ hs]
  unfold tillEnd
  dsimp only
  rw [runTillEnd_eq hp h]

end Parser

/-- Parsing to the end of the input applies a grammar until one of three things happens: the input is read, an
application fails, or one succeeds where it began. Exactly one of them does happen, and it decides the result. -/
theorem Grammar.tillEnd_result (g : Grammar) (s : State) (hs : s.failed = false) :
    (∃! e : Ending, e.Holds g.parser s) ∧
    (∀ e : Ending, e.Holds g.parser s →
      (tillEnd g).parse s = { e.state g.parser s with name := (tillEnd g).label }) ∧
    (((tillEnd g).parse s).failed = false →
      ((tillEnd g).parse s).cursor.atEnd = true ∧ ((tillEnd g).parse s).warning = none ∧
        ∀ n, ¬ (Ending.stalled n).Holds g.parser s) := by
  have hresult : ∀ e : Ending, e.Holds g.parser s →
      (tillEnd g).parse s = { e.state g.parser s with name := (tillEnd g).label } :=
    fun e he => Parser.tillEnd_parse g.forward hs he
  refine ⟨Ending.existsUnique_holds g.forward s, hresult, fun hsuccess => ?_⟩
  obtain ⟨e, he⟩ := Ending.exists_holds g.forward s
  rw [hresult e he] at hsuccess ⊢
  cases e with
  | finished n => exact ⟨he.2, rfl, fun m hm => Ending.noConfusion (he.unique hm)⟩
  | broken n => exact absurd (he.2.2.symm.trans hsuccess) (by decide)
  | stalled n => exact nomatch hsuccess

/-- An optional number stalls in front of a letter, after one application that moved on. -/
theorem Grammar.tillEnd_result_of_stall :
    (State.start "12x").failed = false ∧
    (∃! e : Ending, e.Holds (optional integer).parser (.start "12x")) ∧
    (Ending.stalled 1).Holds (optional integer).parser (.start "12x") ∧
    ((tillEnd (optional integer)).parse (.start "12x")).error = some (.noProgress none) := by
  have hstall : (Ending.stalled 1).Holds (optional integer).parser (.start "12x") := by decide +kernel
  obtain ⟨hunique, hresult, -⟩ := Grammar.tillEnd_result (optional integer) (.start "12x") rfl
  refine ⟨rfl, hunique, hstall, ?_⟩
  rw [hresult _ hstall]
  decide +kernel

end StackParser
