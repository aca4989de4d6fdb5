import Mathlib.Data.List.Perm.Basic
import StackParser.Proofs.Progress

/-!
# The winners of a choice

A choice goes by the alternatives that succeed, and neither their order nor their grouping says which these are.

* `Parser.winners`, `Parser.failures` : the alternatives that succeed, and what the others fail with;
* `Parser.oneOf_parse_of_winner`, `…_of_no_winner`, `…_of_winners` : a choice with one winner, with none, with several;
* `ParseError.Reordered` : two reports of a failed choice that differ in order only;
* `Parser.winners_blocks` : the only winner wins in its block, and its block wins among the blocks;
* `Parser.oneOf_rearranged` : a choice among the same alternatives in another order, or in blocks.
-/

namespace StackParser

/-- The same report of a choice, in another order. -/
inductive ParseError.Reordered : ParseError → ParseError → Prop where
  | exhausted {failures failures' : List (String × ParseError)} :
    failures'.Perm failures → Reordered (.exhausted failures) (.exhausted failures')
  | ambiguous {branches branches' : List String} :
    branches'.Perm branches → Reordered (.ambiguous branches) (.ambiguous branches')

namespace Parser

variable {p : Parser} {ps qs : List Parser} {s : State}

def winners (ps : List Parser) (s : State) : List Parser := ps.filter fun p => !(p.parse s).failed

def failures (ps : List Parser) (s : State) : List (String × ParseError) :=
  ps.filterMap fun p => (p.parse s).error.map fun e => (p.label, e)

theorem winners_cons_of_failed (h : (p.parse s).failed = true) : winners (p :: ps) s = winners ps s := by
  rw [winners, List.filter_cons, h]
  rfl

theorem winners_cons_of_success (h : (p.parse s).failed = false) : winners (p :: ps) s = p :: winners ps s := by
  rw [winners, List.filter_cons, h]
  rfl

theorem winners_append (ps qs : List Parser) (s : State) : winners (ps ++ qs) s = winners ps s ++ winners qs s :=
  List.filter_append ..

/-! ## The three outcomes of a choice -/

theorem oneOf_parse_of_winner (hs : s.failed = false) (h : winners ps s = [p]) :
    (oneOf ps).parse s = { p.parse s with name := (oneOf ps).label } := by
  have hrun : (oneOf ps).run s = p.parse s := by
    show choose s (ps.map fun p => p.parse s) = _
    rw [choose_trials, ← winners, h]
  rw [parse_of_not_failed _ hs, hrun]

theorem oneOf_parse_of_no_winner (hs : s.failed = false) (h : winners ps s = []) : (oneOf ps).parse s =
    { s with name := (oneOf ps).label, error := some (.exhausted (failures ps s)) } := by
  have hrun : (oneOf ps).run s = s.fail (.exhausted (failures ps s)) := by
    show choose s (ps.map fun p => p.parse s) = _
    rw [choose_trials, ← winners, h]
    rfl
  rw [parse_of_not_failed _ hs, hrun]
  rfl

theorem oneOf_run_of_winners (h : 2 ≤ (winners ps s).length) :
    (oneOf ps).run s = s.fail (.ambiguous ((winners ps s).map label)) := by
  show choose s (ps.map fun p => p.parse s) = _
  rw [choose_trials, ← winners]
  match hw : winners ps s with
  | [] => rw [hw] at h; simp at h
  | [p] => rw [hw] at h; simp at h
  | p :: q :: rest => rfl

theorem oneOf_parse_of_winners (hs : s.failed = false) (h : 2 ≤ (winners ps s).length) : (oneOf ps).parse s =
    { s with name := (oneOf ps).label, error := some (.ambiguous ((winners ps s).map label)) } := by
  rw [parse_of_not_failed _ hs, oneOf_run_of_winners h]
  rfl

/-- A choice succeeds exactly if it has one winner. -/
theorem failed_oneOf_iff (hs : s.failed = false) :
    ((oneOf ps).parse s).failed = false ↔ ∃ p, winners ps s = [p] := by
  constructor
  · intro h
    match hw : winners ps s with
    | [] =>
      rw [oneOf_parse_of_no_winner hs hw] at h
      exact nomatch h
    | [p] => exact ⟨p, rfl⟩
    | p :: q :: rest =>
      rw [oneOf_parse_of_winners hs (by rw [hw]; simp)] at h
      exact nomatch h
  · rintro ⟨p, hp⟩
    have hmem : p ∈ winners ps s := hp ▸ List.mem_singleton_self p
    have hsuccess : (p.parse s).failed = false := by simpa using (List.mem_filter.1 hmem).2
    rw [oneOf_parse_of_winner hs hp]
    exact hsuccess

/-! ## Another order -/

theorem winners_perm (h : qs.Perm ps) (s : State) : (winners qs s).Perm (winners ps s) := h.filter _

theorem failures_perm (h : qs.Perm ps) (s : State) : (failures qs s).Perm (failures ps s) := h.filterMap _

/-- The reports of a choice that fails, in either order of the alternatives. -/
theorem exists_reordered (hs : s.failed = false) (h : qs.Perm ps) (hfail : ((oneOf ps).parse s).failed = true) :
    ∃ e e' : ParseError, e.Reordered e' ∧
      (oneOf ps).parse s = { s with name := (oneOf ps).label, error := some e } ∧
      (oneOf qs).parse s = { s with name := (oneOf qs).label, error := some e' } := by
  have hwinners := winners_perm h s
  match hw : winners ps s with
  | [] =>
    have hw' : winners qs s = [] := (hw ▸ hwinners).eq_nil
    exact ⟨_, _, .exhausted (failures_perm h s), oneOf_parse_of_no_winner hs hw, oneOf_parse_of_no_winner hs hw'⟩
  | [p] => exact absurd ((failed_oneOf_iff hs).2 ⟨p, hw⟩) (ne_false_of_eq_true hfail)
  | p :: q :: rest =>
    have hlength : 2 ≤ (winners ps s).length := by rw [hw]; simp
    have hlength' : 2 ≤ (winners qs s).length := by rwa [hwinners.length_eq]
    exact ⟨_, _, .ambiguous (hwinners.map label), oneOf_parse_of_winners hs hlength,
      oneOf_parse_of_winners hs hlength'⟩

/-! ## Blocks -/

/-- Blocks without a winner fail. -/
theorem winners_blocks_of_none {blocks : List (List Parser)} (hs : s.failed = false)
    (h : winners blocks.flatten s = []) : winners (blocks.map oneOf) s = [] := by
  induction blocks with
  | nil => rfl
  | cons block blocks ih =>
    rw [List.flatten_cons, winners_append, List.append_eq_nil_iff] at h
    have hfail : ((oneOf block).parse s).failed = true := by rw [oneOf_parse_of_no_winner hs h.1]; rfl
    rw [List.map_cons, winners_cons_of_failed hfail, ih h.2]

/-- The only winner of all blocks is the only winner of its block, and this block is the only one that succeeds. -/
theorem winners_blocks {blocks : List (List Parser)} (hs : s.failed = false) (h : winners blocks.flatten s = [p]) :
    ∃ block, winners block s = [p] ∧ winners (blocks.map oneOf) s = [oneOf block] := by
  induction blocks with
  | nil => exact absurd h (by simp [winners])
  | cons block blocks ih =>
    rw [List.flatten_cons, winners_append, List.append_eq_singleton_iff] at h
    rcases h with ⟨hnone, hlater⟩ | ⟨hone, hnone⟩
    · obtain ⟨b, hb, hblocks⟩ := ih hlater
      have hfail : ((oneOf block).parse s).failed = true := by rw [oneOf_parse_of_no_winner hs hnone]; rfl
      exact ⟨b, hb, by rw [List.map_cons, winners_cons_of_failed hfail, hblocks]⟩
    · have hsuccess : ((oneOf block).parse s).failed = false := (failed_oneOf_iff hs).2 ⟨p, hone⟩
      refine ⟨block, hone, ?_⟩
      rw [List.map_cons, winners_cons_of_success hsuccess, winners_blocks_of_none hs hnone]

/-- A choice among the same alternatives in another order succeeds where the first one does, with the same result, and
fails where it fails, with the same report but for the order. A choice that succeeds also succeeds when the alternatives
are put into blocks, with the same result. -/
theorem oneOf_rearranged (ps : List Parser) (s : State) (hs : s.failed = false) :
    (∀ qs : List Parser, qs.Perm ps →
      ((oneOf qs).parse s).failed = ((oneOf ps).parse s).failed ∧
      (((oneOf ps).parse s).failed = false →
        (oneOf qs).parse s = { (oneOf ps).parse s with name := (oneOf qs).label }) ∧
      (((oneOf ps).parse s).failed = true → ∃ e e' : ParseError, e.Reordered e' ∧
        (oneOf ps).parse s = { s with name := (oneOf ps).label, error := some e } ∧
        (oneOf qs).parse s = { s with name := (oneOf qs).label, error := some e' })) ∧
    (∀ blocks : List (List Parser), blocks.flatten = ps → ((oneOf ps).parse s).failed = false →
      (oneOf (blocks.map oneOf)).parse s = { (oneOf ps).parse s with name := (oneOf (blocks.map oneOf)).label }) := by
  constructor
  · intro qs hperm
    have hsuccess : ((oneOf ps).parse s).failed = false →
        (oneOf qs).parse s = { (oneOf ps).parse s with name := (oneOf qs).label } := by
      intro h
      obtain ⟨p, hp⟩ := (failed_oneOf_iff hs).1 h
      have hp' : winners qs s = [p] := List.perm_singleton.1 (hp ▸ winners_perm hperm s)
      rw [oneOf_parse_of_winner hs hp, oneOf_parse_of_winner hs hp']
    refine ⟨?_, hsuccess, exists_reordered hs hperm⟩
    cases hfailed : ((oneOf ps).parse s).failed with
    | false =>
      rw [hsuccess hfailed]
      exact hfailed
    | true =>
      obtain ⟨e, e', -, -, hfail⟩ := exists_reordered hs hperm hfailed
      rw [hfail]
      rfl
  · rintro blocks rfl hsuccess
    obtain ⟨p, hp⟩ := (failed_oneOf_iff hs).1 hsuccess
    obtain ⟨block, hblock, hblocks⟩ := winners_blocks hs hp
    rw [oneOf_parse_of_winner hs hp, oneOf_parse_of_winner hs hblocks, oneOf_parse_of_winner hs hblock]

/-- Of `ac` the letter is the winner, also from behind and out of its block; on `-` all three fail. With two winners in one
block it is the other way round: all three of the pair, the letter and the word succeed on `ab`, but the block of the first
two fails by that, and the word wins. -/
theorem oneOf_rearranged_letters :
    let pair := sequenceOf [letter, char 'b' true]
    let ps := [pair, letter, number .int]
    let qs := [number .int, letter, pair]
    let blocks := [[pair, letter], [], [number .int]]
    (State.start "ac").failed = false ∧ qs.Perm ps ∧ blocks.flatten = ps ∧
    ((oneOf ps).parse (.start "ac")).failed = false ∧ ((oneOf ps).parse (.start "-")).failed = true ∧
    ((oneOf qs).parse (.start "ac")).stack = ((oneOf ps).parse (.start "ac")).stack ∧
    ((oneOf (blocks.map oneOf)).parse (.start "ac")).stack = ((oneOf ps).parse (.start "ac")).stack ∧
    (∃ e e' : ParseError, e.Reordered e' ∧
      ((oneOf ps).parse (.start "-")).error = some e ∧ ((oneOf qs).parse (.start "-")).error = some e') ∧
    ((oneOf [pair, letter, word]).parse (.start "ab")).failed = true ∧
    ((oneOf ([[pair, letter], [word]].map oneOf)).parse (.start "ab")).stack = [.str "ab"] := by
  intro pair ps qs blocks
  have hperm : qs.Perm ps := List.reverse_perm ps
  have hsuccess : ((oneOf ps).parse (.start "ac")).failed = false := by decide +kernel
  have hfail : ((oneOf ps).parse (.start "-")).failed = true := by decide +kernel
  obtain ⟨horder, hblocks⟩ := oneOf_rearranged ps (.start "ac") rfl
  obtain ⟨horder', -⟩ := oneOf_rearranged ps (.start "-") rfl
  obtain ⟨-, hresult, -⟩ := horder qs hperm
  obtain ⟨-, -, hreport⟩ := horder' qs hperm
  obtain ⟨e, e', he, hps, hqs⟩ := hreport hfail
  refine ⟨rfl, hperm, rfl, hsuccess, hfail, ?_, ?_, ⟨e, e', he, ?_, ?_⟩, by decide +kernel, ?_⟩
  · rw [hresult hsuccess]
  · rw [hblocks blocks rfl hsuccess]
  · rw [hps]
  · rw [hqs]
  · rfl

end Parser

end StackParser
