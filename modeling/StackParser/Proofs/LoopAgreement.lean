import StackParser.Proofs.Repetition

/-!
# The two repetitions compared

A repetition to the end of the input and one that goes on while it can apply a parser in the same way. They part only in
what they make of the stop.

* `State.Agrees t s` : the same cursor, stack and context;
* `Ending.kept` : the state that `Parser.oneOrMore` makes of each way to end (`Parser.runWhile_eq`), where `Ending.state` is
  the one that `Parser.tillEnd` makes of it;
* `Ending.failed_state_iff`, `Ending.atEnd_kept_iff` : each of the two tells whether the input was read;
* `Grammar.tillEnd_agrees_oneOrMore` : what the one result says of the other.
-/

namespace StackParser

/-- The same cursor, the same values on the stack and the same context. -/
structure State.Agrees (t s : State) : Prop where
  cursor : t.cursor = s.cursor
  stack : t.stack = s.stack
  context : t.context = s.context

/-- A later place of the same index is the same place. -/
theorem Cursor.Reaches.eq_of_index_eq {c d : Cursor} (h : c.Reaches d) (hindex : d.index = c.index) : d = c := by
  obtain ⟨n, rfl⟩ := h
  rw [index_advance] at hindex
  have hmin : min n c.after.length = 0 := by omega
  have htake : c.after.take n = [] := by
    rw [← List.length_eq_zero_iff, List.length_take, hmin]
  have hdrop : c.after.drop n = c.after := by simpa [htake] using List.take_append_drop n c.after
  simp [Cursor.advance, htake, hdrop]

namespace Ending

variable {p : Parser} {s : State} {e : Ending}

/-- What a repetition that goes on while it can makes of each ending: a failure is taken back and becomes a warning. -/
def kept (p : Parser) (s : State) : Ending → State
  | finished n => p.trail s n
  | broken n => { p.trail s n with warning := (p.trail s (n + 1)).error }
  | stalled n => p.trail s (n + 1)

end Ending

namespace Parser

variable {p : Parser} {s : State}

/-- A repetition goes on from successes only. -/
theorem Advances.failed_trail {n : Nat} (h : p.Advances s n) (hs : s.failed = false) : (p.trail s n).failed = false := by
  cases n with
  | zero => exact hs
  | succ n => exact (h n (Nat.lt_succ_self n)).2.1

/-- The loop goes through the applications that move on. -/
theorem runWhile_trail (hp : p.Forward) {n : Nat} (h : p.Advances s n) : runWhile p s = runWhile p (p.trail s n) := by
  induction n with
  | zero => rfl
  | succ n ih =>
    obtain ⟨h, hbefore, hsuccess, hmoved⟩ := Advances.succ_iff.1 h
    rw [ih h]
    exact runWhile_of_movedOn hbefore (State.failed_eq_false_iff.1 hsuccess) ((movedOn_iff hp _).2 hmoved)

theorem runWhile_eq (hp : p.Forward) {e : Ending} (h : e.Holds p s) : runWhile p s = e.kept p s := by
  rw [runWhile_trail hp h.advances]
  cases e with
  | finished n => exact runWhile_of_atEnd h.2
  | broken n =>
    obtain ⟨d, hd⟩ := Option.isSome_iff_exists.1 h.2.2
    rw [Ending.kept, hd]
    exact runWhile_of_error h.2.1 hd
  | stalled n =>
    obtain ⟨-, hbefore, hsuccess, hplace⟩ := h
    exact runWhile_of_not_movedOn hbefore (State.failed_eq_false_iff.1 hsuccess) fun hm =>
      (movedOn_iff hp _).1 hm hplace

theorem oneOrMore_parse (hp : p.Forward) (hs : s.failed = false) {e : Ending} (h : e.Holds p s) :
    (oneOrMore p).parse s = { e.kept p s with name := (oneOrMore p).label } := by
  rw [parse_of_not_failed _ hs]
  unfold oneOrMore
  dsimp only
  rw [runWhile_eq hp h]

end Parser

namespace Ending

variable {p : Parser} {s : State} {e : Ending}

theorem Holds.failed_kept (h : e.Holds p s) (hs : s.failed = false) : (e.kept p s).failed = false := by
  cases e with
  | finished n => exact h.advances.failed_trail hs
  | broken n => exact h.advances.failed_trail hs
  | stalled n => exact h.2.2.1

/-- A repetition to the end of the input succeeds only in one way. -/
theorem Holds.failed_state_iff (h : e.Holds p s) (hs : s.failed = false) :
    (e.state p s).failed = false ↔ ∃ n, e = finished n := by
  cases e with
  | finished n => exact ⟨fun _ => ⟨n, rfl⟩, fun _ => h.advances.failed_trail hs⟩
  | broken n => simp [state, h.2.2]
  | stalled n => simp [state]

/-- An application that stalls stands where it began, which was not the end. -/
theorem Holds.atEnd_kept_iff (hp : p.Forward) (h : e.Holds p s) :
    (e.kept p s).cursor.atEnd = true ↔ ∃ n, e = finished n := by
  cases e with
  | finished n => exact ⟨fun _ => ⟨n, rfl⟩, fun _ => h.2⟩
  | broken n => simp [kept, h.2.1]
  | stalled n =>
    have hplace : (p.trail s (n + 1)).cursor = (p.trail s n).cursor := (hp (p.trail s n)).eq_of_index_eq h.2.2.2
    simp [kept, hplace, h.2.1]

end Ending

/-- The two repetitions of a grammar take the same applications. The one to the end of the input succeeds exactly if the
other ends there, with the same result. If it fails, the failure is the warning of the other, which stands before the
application that failed; or both stand behind an application that did not move on. -/
theorem Grammar.tillEnd_agrees_oneOrMore (g : Grammar) (s : State) (hs : s.failed = false) :
    let d := (tillEnd g).parse s
    let m := (oneOrMore g).parse s
    m.failed = false ∧ (d.failed = false ↔ m.cursor.atEnd = true) ∧ (d.failed = false → d.Agrees m) ∧
    (d.failed = true →
      (∃ n, (Ending.broken n).Holds g.parser s ∧ d.error = m.warning ∧ m.Agrees (g.parser.trail s n)) ∨
      (∃ n, (Ending.stalled n).Holds g.parser s ∧ d.error = some (.noProgress m.warning) ∧ d.Agrees m)) := by
  intro d m
  obtain ⟨e, he⟩ := Ending.exists_holds g.forward s
  have hd : d = { e.state g.parser s with name := (tillEnd g).label } := Parser.tillEnd_parse g.forward hs he
  have hm : m = { e.kept g.parser s with name := (oneOrMore g).label } := Parser.oneOrMore_parse g.forward hs he
  have hsuccess : d.failed = false ↔ ∃ n, e = .finished n := hd ▸ he.failed_state_iff hs
  have hend : m.cursor.atEnd = true ↔ ∃ n, e = .finished n := hm ▸ he.atEnd_kept_iff g.forward
  refine ⟨hm ▸ he.failed_kept hs, hsuccess.trans hend.symm, fun hdone => ?_, fun hfail => ?_⟩
  · obtain ⟨n, rfl⟩ := hsuccess.1 hdone
    rw [hd, hm]
    exact ⟨rfl, rfl, rfl⟩
  · cases e with
    | finished n =>
      have hdone := hsuccess.2 ⟨n, rfl⟩
      exact absurd (hdone.symm.trans hfail) Bool.false_ne_true
    | broken n =>
      refine .inl ⟨n, he, ?_⟩
      rw [hd, hm]
      exact ⟨rfl, rfl, rfl, rfl⟩
    | stalled n =>
      refine .inr ⟨n, he, ?_⟩
      rw [hd, hm]
      exact ⟨rfl, rfl, rfl, rfl⟩

/-- Two numbers with a comma behind each. The third number is missing: this is the error of the one repetition and the
warning of the other. -/
theorem Grammar.tillEnd_agrees_oneOrMore_items :
    let item := sequenceOf [integer, skipChar ',']
    let s := State.start "1,2,x"
    let d := (tillEnd item).parse s
    let m := (oneOrMore item).parse s
    s.failed = false ∧ d.failed = true ∧ (Ending.broken 2).Holds item.parser s ∧
      d.error = some (.notANumber "x") ∧ m.warning = some (.notANumber "x") ∧ m.failed = false ∧
      m.Agrees (item.parser.trail s 2) := by
  intro item s d m
  have hbroken : (Ending.broken 2).Holds item.parser s := by decide +kernel
  have hfail : d.failed = true := by decide +kernel
  have herror : d.error = some (.notANumber "x") := by decide +kernel
  obtain ⟨hkept, -, -, hstop⟩ := tillEnd_agrees_oneOrMore item s rfl
  rcases hstop hfail with ⟨n, hn, hwarning, hagrees⟩ | ⟨n, hn, -⟩
  · obtain rfl : n = 2 := Ending.broken.inj (hn.unique hbroken)
    exact ⟨rfl, hfail, hbroken, herror, hwarning.symm.trans herror, hkept, hagrees⟩
  · exact Ending.noConfusion (hn.unique hbroken)

end StackParser
