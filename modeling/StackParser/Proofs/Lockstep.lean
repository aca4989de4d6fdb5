import Mathlib.Data.List.Forall2
import StackParser.Proofs.Repetition

/-!
# Two parses side by side

* `Parser.Follows R p q` : run on states that `R` relates, `p` and `q` leave such states again;
* `Lockstep R` : `R` tells the same of failure and of what is left to read, and not much of labels and warnings. Two
  combinators that decide by these then go the same way, and keep to `R` if their parts do (`Follows.sequenceOf`, …).
-/

namespace StackParser

/-- What a relation of states needs so that two parses which keep to it take the same decisions. -/
structure Lockstep (R : State → State → Prop) : Prop where
  failed {s t : State} : R s t → t.failed = s.failed
  after {s t : State} : R s t → t.cursor.after = s.cursor.after
  rename {s t : State} (name name' : String) : R s t → R { s with name := name } { t with name := name' }
  /-- A repetition that has read the input takes the warning back. -/
  clear {s t : State} : R s t → R { s with warning := none } { t with warning := none }
  /-- A repetition that goes back warns of the application that failed. -/
  warn {s t s' t' : State} : R s t → R s' t' → R { s with warning := s'.error } { t with warning := t'.error }
  stall {s t : State} : R s t → R (s.fail (.noProgress s.warning)) (t.fail (.noProgress t.warning))

namespace Lockstep

variable {R : State → State → Prop} {s t s' t' : State}

theorem atEnd (hR : Lockstep R) (h : R s t) : t.cursor.atEnd = s.cursor.atEnd := by
  unfold Cursor.atEnd
  rw [hR.after h]

theorem movedOn (hR : Lockstep R) (h : R s t) (h' : R s' t') : t'.movedOn t ↔ s'.movedOn s := by
  unfold State.movedOn
  rw [hR.after h, hR.after h']

end Lockstep

namespace Parser

/-- On related states `p` and `q` come to related states. -/
def Follows (R : State → State → Prop) (p q : Parser) : Prop := ∀ s t : State, R s t → R (p.parse s) (q.parse t)

namespace Follows

variable {R : State → State → Prop} {p q : Parser} {ps qs : List Parser} {s t : State}

/-- It is enough to look at the runs on states that have not failed. -/
theorem of_run (hR : Lockstep R)
    (h : ∀ s t : State, R s t → s.failed = false → t.failed = false → R (p.run s) (q.run t)) : Follows R p q := by
  intro s t hst
  have hfailed := hR.failed hst
  cases hs : s.failed with
  | true =>
    rw [p.parse_of_failed hs, q.parse_of_failed (hfailed.trans hs)]
    exact hR.rename _ _ hst
  | false =>
    rw [p.parse_of_not_failed hs, q.parse_of_not_failed (hfailed.trans hs)]
    exact hR.rename _ _ (h s t hst hs (hfailed.trans hs))

theorem runAll (hps : List.Forall₂ (Follows R) ps qs) (h : R s t) : R (Parser.runAll ps s) (Parser.runAll qs t) := by
  induction hps generalizing s t with
  | nil => exact h
  | cons hp _ ih => exact ih (hp _ _ h)

theorem sequenceOf (hR : Lockstep R) (hps : List.Forall₂ (Follows R) ps qs) :
    Follows R (Parser.sequenceOf ps) (Parser.sequenceOf qs) :=
  of_run hR fun _ _ h _ _ => runAll hps h

theorem runTimes (hR : Lockstep R) (hp : Follows R p q) (n : Nat) (h : R s t) :
    R (Parser.runTimes p n s) (Parser.runTimes q n t) := by
  induction n generalizing s t with
  | zero => exact h
  | succ n ih =>
    have hnext := hp s t h
    unfold Parser.runTimes
    dsimp only
    rw [hR.failed hnext]
    split
    · exact hnext
    · exact ih hnext

theorem times (hR : Lockstep R) (n : Nat) (hp : Follows R p q) : Follows R (Parser.times n p) (Parser.times n q) :=
  of_run hR fun _ _ h _ _ => runTimes hR hp n h

theorem optional (hR : Lockstep R) (hp : Follows R p q) : Follows R (Parser.optional p) (Parser.optional q) := by
  refine of_run hR fun s t h _ _ => ?_
  have hnext := hp s t h
  unfold Parser.optional
  dsimp only
  rw [hR.failed hnext]
  split
  · exact h
  · exact hnext

/-- The two loops go round as often, since each round begins in related states. -/
theorem runWhile (hR : Lockstep R) (hp : Follows R p q) (s : State) :
    ∀ t, R s t → R (Parser.runWhile p s) (Parser.runWhile q t) := by
  fun_induction Parser.runWhile p s with
  | case1 s hend =>
    intro t h
    rw [runWhile_of_atEnd ((hR.atEnd h).trans hend)]
    exact h
  | case2 s hend next e he =>
    intro t h
    have hnext : R next (q.parse t) := hp s t h
    have hfail : (q.parse t).failed = true := (hR.failed hnext).trans (by rw [State.failed, he]; rfl)
    obtain ⟨e', he'⟩ := Option.isSome_iff_exists.1 hfail
    rw [runWhile_of_error ((hR.atEnd h).trans (Bool.of_not_eq_true hend)) he', ← he, ← he']
    exact hR.warn h hnext
  | case3 s hend next hnone hmoved ih =>
    intro t h
    have hnext : R next (q.parse t) := hp s t h
    have hsuccess : (q.parse t).failed = false := (hR.failed hnext).trans (State.failed_eq_false_iff.2 hnone)
    rw [runWhile_of_movedOn ((hR.atEnd h).trans (Bool.of_not_eq_true hend)) (State.failed_eq_false_iff.1 hsuccess)
      ((hR.movedOn h hnext).2 hmoved)]
    exact ih _ hnext
  | case4 s hend next hnone hmoved =>
    intro t h
    have hnext : R next (q.parse t) := hp s t h
    have hsuccess : (q.parse t).failed = false := (hR.failed hnext).trans (State.failed_eq_false_iff.2 hnone)
    have hstalled : ¬ (q.parse t).movedOn t := fun ht => hmoved ((hR.movedOn h hnext).1 ht)
    rw [runWhile_of_not_movedOn ((hR.atEnd h).trans (Bool.of_not_eq_true hend)) (State.failed_eq_false_iff.1 hsuccess)
      hstalled]
    exact hnext

theorem oneOrMore (hR : Lockstep R) (hp : Follows R p q) : Follows R (Parser.oneOrMore p) (Parser.oneOrMore q) :=
  of_run hR fun s t h _ _ => runWhile hR hp s t h

theorem runTillEnd (hR : Lockstep R) (hp : Follows R p q) (s : State) :
    ∀ t, R s t → R (Parser.runTillEnd p s) (Parser.runTillEnd q t) := by
  fun_induction Parser.runTillEnd p s with
  | case1 s hend =>
    intro t h
    rw [runTillEnd_of_atEnd ((hR.atEnd h).trans hend)]
    exact hR.clear h
  | case2 s hend next hfail =>
    intro t h
    have hnext : R next (q.parse t) := hp s t h
    rw [runTillEnd_of_failed ((hR.atEnd h).trans (Bool.of_not_eq_true hend)) ((hR.failed hnext).trans hfail)]
    exact hnext
  | case3 s hend next hfail hmoved ih =>
    intro t h
    have hnext : R next (q.parse t) := hp s t h
    rw [runTillEnd_of_movedOn ((hR.atEnd h).trans (Bool.of_not_eq_true hend))
      ((hR.failed hnext).trans (Bool.of_not_eq_true hfail)) ((hR.movedOn h hnext).2 hmoved)]
    exact ih _ hnext
  | case4 s hend next hfail hmoved =>
    intro t h
    have hnext : R next (q.parse t) := hp s t h
    have hstalled : ¬ (q.parse t).movedOn t := fun ht => hmoved ((hR.movedOn h hnext).1 ht)
    rw [runTillEnd_of_not_movedOn ((hR.atEnd h).trans (Bool.of_not_eq_true hend))
      ((hR.failed hnext).trans (Bool.of_not_eq_true hfail)) hstalled]
    exact hR.stall hnext

theorem tillEnd (hR : Lockstep R) (hp : Follows R p q) : Follows R (Parser.tillEnd p) (Parser.tillEnd q) :=
  of_run hR fun s t h _ _ => runTillEnd hR hp s t h

end Follows

end Parser

end StackParser
