import StackParser.Proofs.LoopAgreement
import StackParser.Proofs.Progress

/-!
# Going back to before a failure

An optional parser and a repetition never fail. Where the parser they run does, they go back to the state it began with.

* `Parser.optional_parse_of_success`, `Parser.optional_parse_of_failed` : the two outcomes of an optional parser;
* `Parser.SameOutcome p q` : `q` succeeds where `p` does, in the same way, and fails with the same error. What it does to the
  state when it fails is its own;
* `Parser.runWhile_congr` : a repetition does not tell two such parsers apart;
* `Grammar.recovery_points` : what an optional part and a repetition leave, for every way to end.
-/

namespace StackParser

namespace Parser

variable {p q : Parser} {s : State}

/-! ## Optional parts -/

theorem optional_parse_of_success (h : (p.parse s).failed = false) :
    (optional p).parse s = { p.parse s with name := (optional p).label } := by
  have hs : s.failed = false := not_failed_of_parse h
  rw [parse_of_not_failed _ hs]
  unfold optional
  dsimp only
  rw [if_neg (ne_true_of_eq_false h)]

theorem optional_parse_of_failed (hs : s.failed = false) (h : (p.parse s).failed = true) :
    (optional p).parse s = { s with name := (optional p).label } := by
  rw [parse_of_not_failed _ hs]
  unfold optional
  dsimp only
  rw [if_pos h]

theorem failed_optional (hs : s.failed = false) : ((optional p).parse s).failed = false := by
  cases h : (p.parse s).failed with
  | false =>
    rw [optional_parse_of_success h]
    exact h
  | true =>
    rw [optional_parse_of_failed hs h]
    exact hs

/-! ## What a failure leaves behind -/

/-- On every state the two parsers have the same error, or none and the same result. -/
structure SameOutcome (p q : Parser) : Prop where
  error : ∀ s, (q.parse s).error = (p.parse s).error
  success : ∀ s, (p.parse s).failed = false → q.parse s = p.parse s

namespace SameOutcome

theorem success_of_none (h : SameOutcome p q) (hnone : (p.parse s).error = none) : q.parse s = p.parse s :=
  h.success s (State.failed_eq_false_iff.2 hnone)

theorem optional_parse (h : SameOutcome p q) (hs : s.failed = false) :
    (optional q).parse s = { (optional p).parse s with name := (optional q).label } := by
  have hq : (q.parse s).failed = (p.parse s).failed := by rw [State.failed, h.error, State.failed]
  cases hp : (p.parse s).failed with
  | false => rw [optional_parse_of_success hp, optional_parse_of_success (hq.trans hp), h.success s hp]
  | true => rw [optional_parse_of_failed hs hp, optional_parse_of_failed hs (hq.trans hp)]

end SameOutcome

/-- Each round keeps of a failure only the error, and of a success everything. -/
theorem runWhile_congr (h : SameOutcome p q) (s : State) : runWhile q s = runWhile p s := by
  fun_induction runWhile p s with
  | case1 s hend => rw [runWhile_of_atEnd hend]
  | case2 s hend next e he => rw [runWhile_of_error (Bool.of_not_eq_true hend) ((h.error s).trans he)]
  | case3 s hend next hnone hmoved ih =>
    have hnext : q.parse s = next := h.success_of_none hnone
    rw [← ih, ← hnext]
    exact runWhile_of_movedOn (Bool.of_not_eq_true hend) (hnext ▸ hnone) (hnext ▸ hmoved)
  | case4 s hend next hnone hmoved =>
    have hnext : q.parse s = next := h.success_of_none hnone
    rw [← hnext]
    exact runWhile_of_not_movedOn (Bool.of_not_eq_true hend) (hnext ▸ hnone) (hnext ▸ hmoved)

theorem SameOutcome.oneOrMore_parse (h : SameOutcome p q) (hs : s.failed = false) :
    (oneOrMore q).parse s = { (oneOrMore p).parse s with name := (oneOrMore q).label } := by
  rw [parse_of_not_failed _ hs, parse_of_not_failed _ hs]
  unfold oneOrMore
  dsimp only
  rw [runWhile_congr h]

end Parser

/-- An optional part and a repetition never fail. An optional part leaves what it makes of the state, or the state as it
was. A repetition ends in exactly one way: at the end of the input, in front of an application that fails, with its error
as the warning, or behind one that does not move on. Of an application that fails nothing else is seen: a grammar that
does otherwise with the state when it fails gives the same result. -/
theorem Grammar.recovery_points (g : Grammar) (s : State) (hs : s.failed = false) :
    let o := (optional g).parse s
    let m := (oneOrMore g).parse s
    o.failed = false ∧ m.failed = false ∧
    ((g.parse s).failed = false → o = { g.parse s with name := (optional g).label }) ∧
    ((g.parse s).failed = true → o = { s with name := (optional g).label }) ∧
    (∃! e : Ending, e.Holds g.parser s) ∧
    (∀ e : Ending, e.Holds g.parser s → m = { e.kept g.parser s with name := (oneOrMore g).label }) ∧
    ∀ h : Grammar, g.parser.SameOutcome h.parser →
      (optional h).parse s = { o with name := (optional h).label } ∧
      (oneOrMore h).parse s = { m with name := (oneOrMore h).label } := by
  intro o m
  have hkept : ∀ e : Ending, e.Holds g.parser s → m = { e.kept g.parser s with name := (oneOrMore g).label } :=
    fun e he => Parser.oneOrMore_parse g.forward hs he
  have hm : m.failed = false := by
    obtain ⟨e, he⟩ := Ending.exists_holds g.forward s
    rw [hkept e he]
    exact he.failed_kept hs
  refine ⟨Parser.failed_optional hs, hm, Parser.optional_parse_of_success, Parser.optional_parse_of_failed hs,
    Ending.existsUnique_holds g.forward s, hkept, fun h hsame => ?_⟩
  exact ⟨hsame.optional_parse hs, hsame.oneOrMore_parse hs⟩

/-- Letters with a comma behind each. The second comma is missing, and the letter in front of it, which has been read and
pushed by then, is given back. A parser that reads and pushes before it fails is as good as one that only fails. -/
theorem Grammar.recovery_points_letters :
    let item := sequenceOf [letter, skipChar ',']
    let s := State.start "a,bc"
    let refusal := ParseError.custom "no"
    let noisy := custom "refuse" [.nextChar, .push (.char 'x'), .fail refusal]
    let quiet := custom "refuse" [.fail refusal]
    s.failed = false ∧ (Ending.broken 1).Holds item.parser s ∧
    (oneOrMore item).parse s = { item.parse s with
      name := (oneOrMore item).label
      warning := some (.mismatch "','" "c") } ∧
    (item.parse (item.parse s)).stack.length = 2 ∧ ((oneOrMore item).parse s).stack.length = 1 ∧
    noisy.parser.SameOutcome quiet.parser ∧
    (oneOrMore quiet).parse s = { (oneOrMore noisy).parse s with name := (oneOrMore quiet).label } := by
  intro item s refusal noisy quiet
  have hbroken : (Ending.broken 1).Holds item.parser s := by decide +kernel
  obtain ⟨-, -, -, -, -, hkept, -⟩ := recovery_points item s rfl
  have hwarning : (item.parser.trail s 2).error = some (.mismatch "','" "c") := by decide +kernel
  have hresult := hkept _ hbroken
  rw [Ending.kept, hwarning] at hresult
  have hnoisy : ∀ t : State, t.error = none → (noisy.parse t).error = some refusal := by
    rintro ⟨cursor, stack, context, name, error, warning⟩ rfl
    rfl
  have hsame : noisy.parser.SameOutcome quiet.parser := by
    constructor
    · rintro ⟨cursor, stack, context, name, none | e, warning⟩
      · rfl
      · rfl
    · intro t hsuccess
      have ht := State.failed_eq_false_iff.1 (Parser.not_failed_of_parse hsuccess)
      have herror := (hnoisy t ht).symm.trans (State.failed_eq_false_iff.1 hsuccess)
      exact absurd herror (by simp)
  obtain ⟨-, -, -, -, -, -, hcongr⟩ := recovery_points noisy s rfl
  refine ⟨rfl, hbroken, hresult, by decide +kernel, ?_, hsame, (hcongr quiet hsame).2⟩
  rw [hresult]
  decide +kernel

end StackParser
