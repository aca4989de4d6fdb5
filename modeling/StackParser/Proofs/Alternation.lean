import Mathlib.Data.List.Forall2
import Mathlib.Logic.ExistsUnique
import StackParser.ParseError.Equality
import StackParser.Proofs.Reading
import StackParser.Proofs.Winners

/-!
# Exactly one alternative

Every alternative is tried on the same state, so what comes of a choice is decided by which of them succeed there.

* `Parser.Succeeds ps s i` : the alternative at place `i` succeeds on `s`;
* `Parser.oneOf_run_of_unique`, `Parser.oneOf_run_of_two` : the alternative that succeeds alone is the result, and several
  that succeed are named;
* `Parser.exists_failures` : where all fail, each has left its label and its error;
* `Parser.oneOf_result` : these three cases are all there are.
-/

namespace StackParser.Parser

variable {ps : List Parser} {s : State}

def Succeeds (ps : List Parser) (s : State) (i : Fin ps.length) : Prop := (ps[i].parse s).failed = false

instance (ps : List Parser) (s : State) : DecidablePred (Succeeds ps s) :=
  fun i => inferInstanceAs (Decidable ((ps[i].parse s).failed = false))

theorem mem_take_iff {i : Fin ps.length} {p : Parser} :
    p ∈ ps.take i ↔ ∃ j : Fin ps.length, j < i ∧ ps[j] = p := by
  rw [List.mem_take_iff_getElem]
  constructor
  · rintro ⟨j, hj, rfl⟩
    exact ⟨⟨j, by omega⟩, by simp [Fin.lt_def]; omega, rfl⟩
  · rintro ⟨j, hj, rfl⟩
    exact ⟨j, by rw [Fin.lt_def] at hj; omega, rfl⟩

theorem mem_drop_iff {i : Fin ps.length} {p : Parser} :
    p ∈ ps.drop (i + 1) ↔ ∃ j : Fin ps.length, i < j ∧ ps[j] = p := by
  rw [List.mem_drop_iff_getElem]
  constructor
  · rintro ⟨j, hj, rfl⟩
    exact ⟨⟨i + 1 + j, by omega⟩, by simp [Fin.lt_def]; omega, rfl⟩
  · rintro ⟨j, hj, rfl⟩
    rw [Fin.lt_def] at hj
    refine ⟨j - (i + 1), by omega, ?_⟩
    have hplace : (i : Nat) + 1 + (j - (i + 1)) = j := by omega
    simp [hplace]

/-- The alternative that succeeds alone is the result. -/
theorem oneOf_run_of_unique {i : Fin ps.length} (hi : Succeeds ps s i) (honly : ∀ j, Succeeds ps s j → j = i) :
    (oneOf ps).run s = ps[i].parse s := by
  have hfail : ∀ j : Fin ps.length, j ≠ i → (ps[j].parse s).failed = true := by
    intro j hj
    exact Bool.of_not_eq_false fun hsuccess => hj (honly j hsuccess)
  have hbefore : ∀ q ∈ ps.take i, (q.parse s).failed = true := by
    intro q hq
    obtain ⟨j, hj, rfl⟩ := mem_take_iff.1 hq
    exact hfail j (Fin.ne_of_lt hj)
  have hafter : ∀ q ∈ ps.drop (i + 1), (q.parse s).failed = true := by
    intro q hq
    obtain ⟨j, hj, rfl⟩ := mem_drop_iff.1 hq
    exact hfail j (Fin.ne_of_gt hj)
  have hsplit : ps.take i ++ ps[i] :: ps.drop (i + 1) = ps := by simp
  have h := oneOf_run_of_only hi hbefore hafter
  rwa [hsplit] at h

/-- Several that succeed are named, and the state is the one they began with. -/
theorem oneOf_run_of_two {i j : Fin ps.length} (hij : i < j) (hi : Succeeds ps s i) (hj : Succeeds ps s j) :
    (oneOf ps).run s = s.fail (.ambiguous ((ps.filter fun p => !(p.parse s).failed).map label)) := by
  have hfirst : ps[i] ∈ (ps.take j).filter fun p => !(p.parse s).failed := by
    rw [List.mem_filter, mem_take_iff]
    exact ⟨⟨i, hij, rfl⟩, by rw [hi]; rfl⟩
  have hwinners : (ps.filter fun p => !(p.parse s).failed) =
      ((ps.take j).filter fun p => !(p.parse s).failed) ++
        ps[j] :: (ps.drop (j + 1)).filter fun p => !(p.parse s).failed := by
    have hj' : (!(ps[j].parse s).failed) = true := by rw [hj]; rfl
    have hsplit : ps = ps.take j ++ ps[j] :: ps.drop (j + 1) := by simp
    conv_lhs => rw [hsplit]
    rw [List.filter_append, List.filter_cons, if_pos hj']
  have hlength : 2 ≤ (ps.filter fun p => !(p.parse s).failed).length := by
    have hpos := List.length_pos_of_mem hfirst
    rw [hwinners, List.length_append, List.length_cons]
    omega
  exact oneOf_run_of_winners hlength

/-- Where all alternatives fail, each has left its label and its error. -/
theorem exists_failures (h : ∀ p ∈ ps, (p.parse s).failed = true) :
    ∃ failures, List.Forall₂ (fun p failure => failure.1 = p.label ∧ (p.parse s).error = some failure.2) ps failures ∧
      (oneOf ps).run s = s.fail (.exhausted failures) := by
  have hfailures : ∃ failures,
      List.Forall₂ (fun p failure => failure.1 = p.label ∧ (p.parse s).error = some failure.2) ps failures ∧
        ((ps.map fun p => p.parse s).filterMap fun t => t.error.map fun e => (t.name, e)) = failures := by
    induction ps with
    | nil => exact ⟨[], .nil, rfl⟩
    | cons p ps ih =>
      obtain ⟨hp, hps⟩ := List.forall_mem_cons.1 h
      obtain ⟨e, he⟩ := Option.isSome_iff_exists.1 hp
      obtain ⟨failures, hall, heq⟩ := ih hps
      refine ⟨(p.label, e) :: failures, .cons ⟨rfl, he⟩ hall, ?_⟩
      rw [List.map_cons, List.filterMap_cons, heq, he]
      rfl
  obtain ⟨failures, hall, rfl⟩ := hfailures
  exact ⟨_, hall, oneOf_run_of_none h⟩

/-- A choice succeeds exactly if one alternative does and no other, and it is then what this one makes of the state. If none
succeeds, each is reported with its label and its error; if several do, these are named. In both cases the state is left
as it was. -/
theorem oneOf_result (ps : List Parser) (s : State) (hs : s.failed = false) :
    (((oneOf ps).parse s).failed = false ↔ ∃! i, Succeeds ps s i) ∧
    (∀ i, Succeeds ps s i → (∀ j, Succeeds ps s j → j = i) →
      (oneOf ps).parse s = { ps[i].parse s with name := (oneOf ps).label }) ∧
    ((∀ i, ¬ Succeeds ps s i) → ∃ failures,
      List.Forall₂ (fun p failure => failure.1 = p.label ∧ (p.parse s).error = some failure.2) ps failures ∧
        (oneOf ps).parse s = { s with name := (oneOf ps).label, error := some (.exhausted failures) }) ∧
    (∀ i j, i < j → Succeeds ps s i → Succeeds ps s j →
      (oneOf ps).parse s = { s with
        name := (oneOf ps).label
        error := some (.ambiguous ((ps.filter fun p => !(p.parse s).failed).map label)) }) := by
  rw [parse_of_not_failed _ hs]
  have hone : ∀ i, Succeeds ps s i → (∀ j, Succeeds ps s j → j = i) → (oneOf ps).run s = ps[i].parse s :=
    fun i hi honly => oneOf_run_of_unique hi honly
  have hnone : (∀ i, ¬ Succeeds ps s i) → ∃ failures,
      List.Forall₂ (fun p failure => failure.1 = p.label ∧ (p.parse s).error = some failure.2) ps failures ∧
        (oneOf ps).run s = s.fail (.exhausted failures) := by
    intro h
    refine exists_failures fun p hp => ?_
    obtain ⟨i, hi, rfl⟩ := List.mem_iff_getElem.1 hp
    exact Bool.of_not_eq_false (h ⟨i, hi⟩)
  have htwo : ∀ i j, i < j → Succeeds ps s i → Succeeds ps s j → (oneOf ps).run s =
      s.fail (.ambiguous ((ps.filter fun p => !(p.parse s).failed).map label)) :=
    fun i j hij hi hj => oneOf_run_of_two hij hi hj
  refine ⟨⟨fun hsuccess => ?_, ?_⟩, fun i hi honly => by rw [hone i hi honly], fun h => ?_, fun i j hij hi hj => ?_⟩
  · have hsuccess : ((oneOf ps).run s).failed = false := hsuccess
    by_cases hany : ∃ i, Succeeds ps s i
    · obtain ⟨i, hi⟩ := hany
      refine ⟨i, hi, fun j hj => ?_⟩
      rcases Nat.lt_trichotomy j i with hlt | heq | hlt
      · simp [htwo j i hlt hj hi] at hsuccess
      · exact Fin.ext heq
      · simp [htwo i j hlt hi hj] at hsuccess
    · obtain ⟨failures, -, hrun⟩ := hnone fun i hi => hany ⟨i, hi⟩
      simp [hrun] at hsuccess
  · rintro ⟨i, hi, honly⟩
    show ((oneOf ps).run s).failed = false
    rw [hone i hi honly]
    exact hi
  · obtain ⟨failures, hall, hrun⟩ := hnone h
    exact ⟨failures, hall, by rw [hrun]; rfl⟩
  · rw [htwo i j hij hi hj]
    rfl

/-- A letter and a `b`, a letter, a number. On `ac` the first has read the letter when it fails, and the second is left; on
`ab` both succeed; on `-` none does, and the number has read the sign. -/
theorem oneOf_result_letters :
    let ps := [sequenceOf [letter, char 'b' true], letter, number .int]
    (State.start "ac").failed = false ∧
    (∃! i, Succeeds ps (.start "ac") i) ∧
    ((oneOf ps).parse (.start "ac")).stack = (letter.parse (.start "ac")).stack ∧
    ((oneOf ps).parse (.start "ab")).error =
      some (.ambiguous ["sequence_of(letter(), char(b))", "letter()"]) ∧
    ((oneOf ps).parse (.start "-")).error = some (.exhausted [
      ("sequence_of(letter(), char(b))", .mismatch "letter" "-"), ("letter()", .mismatch "letter" "-"),
      ("number(int)", .invalidNumber "-" .int)]) ∧
    ((oneOf ps).parse (.start "-")).cursor.index = 0 := by
  intro ps
  have honly : ∀ j, Succeeds ps (.start "ac") j → j = (⟨1, by decide⟩ : Fin 3) := by decide +kernel
  obtain ⟨hunique, hone, -, -⟩ := oneOf_result ps (.start "ac") rfl
  obtain ⟨-, -, -, htwo⟩ := oneOf_result ps (.start "ab") rfl
  obtain ⟨-, -, hnone, -⟩ := oneOf_result ps (.start "-") rfl
  have hfirst : Succeeds ps (.start "ab") ⟨0, by decide⟩ := by decide +kernel
  have hsecond : Succeeds ps (.start "ab") ⟨1, by decide⟩ := by decide +kernel
  obtain ⟨failures, -, hresult⟩ := hnone (by decide +kernel)
  refine ⟨rfl, hunique.1 (by decide +kernel), ?_, ?_, ?_, ?_⟩
  · rw [hone ⟨1, by decide⟩ (by decide +kernel) honly]
    rfl
  · rw [htwo _ _ (by decide) hfirst hsecond]
    decide +kernel
  · decide +kernel
  · rw [hresult]
    rfl

end StackParser.Parser
