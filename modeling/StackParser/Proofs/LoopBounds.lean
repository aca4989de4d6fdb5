import Mathlib.Data.List.Forall2
import StackParser.Proofs.Contract
import StackParser.Proofs.Metering
import StackParser.Proofs.Repetition

/-!
# Every loop of a parse ends

A loop goes on as long as it moves on, and there are only so many characters to move on over.

* `LoopRun.Within r` : the rounds are no more than the characters that were left, and these no more than `r`;
* `Metered.Gives r m a` : if loops may take `r` rounds, `m` gives `a`, and its loops are all within `r`. There is a rule
  for each way to put computations together;
* `Metered.Descends` : what has to be known of the condition and the body of a loop, and `Descends.loop` : what follows;
* `Metered.Counts r f p` : on states with `r` characters left at most, `f` gives what `p` makes of them;
* `Grammar.loops_bounded` : every loop in a parse is within the characters that are left, and the parse ends.
-/

namespace StackParser

/-- A loop that has as many rounds at most as characters to read, of which there are `r` at most. -/
def LoopRun.Within (r : Nat) (run : LoopRun) : Prop := run.rounds ≤ run.left ∧ run.left ≤ r

theorem Cursor.length_pos {c : Cursor} (h : c.atEnd = false) : 0 < c.after.length := by
  rw [List.length_pos_iff]
  intro hnil
  rw [Cursor.atEnd_iff.2 hnil] at h
  exact Bool.false_ne_true h.symm

namespace Metered

variable {α β σ γ : Type} {r : Nat}

theorem bind_apply {m : Metered α} {f : α → Metered β} {cap : Nat} {a : α} {log : List LoopRun}
    (h : m cap = some (a, log)) : (m >>= f) cap = (f a cap).map fun (b, log') => (b, log ++ log') := by
  show ((m cap).bind fun (a, log) => (f a cap).map fun (b, log') => (b, log ++ log')) = _
  rw [h, Option.bind_some]

/-- Where a loop may take `r` rounds, `m` gives `a`, and all its loops are within `r`. -/
def Gives (r : Nat) (m : Metered α) (a : α) : Prop :=
  ∃ log : List LoopRun, (∀ cap, r ≤ cap → m cap = some (a, log)) ∧ ∀ run ∈ log, run.Within r

namespace Gives

theorem pure (a : α) : Gives r (Pure.pure a) a := ⟨[], fun _ _ => rfl, fun _ h => nomatch h⟩

theorem bind {m : Metered α} {f : α → Metered β} {a : α} {b : β} (hm : Gives r m a) (hf : Gives r (f a) b) :
    Gives r (m >>= f) b := by
  obtain ⟨log, hm, hlog⟩ := hm
  obtain ⟨log', hf, hlog'⟩ := hf
  refine ⟨log ++ log', fun cap hcap => ?_, List.forall_mem_append.2 ⟨hlog, hlog'⟩⟩
  rw [bind_apply (hm cap hcap), hf cap hcap]
  rfl

end Gives

/-! ## Loops -/

/-- What ends a loop. As long as `inv` holds, a round takes the measure down, and neither a round nor the end of the loop
changes what the loop is going to give, which is `goal`. -/
structure Descends (r : Nat) (cond : σ → Option γ) (body : σ → γ → Metered (ForInStep σ)) (inv : σ → Prop)
    (measure : σ → Nat) (close : ForInStep σ → β) (goal : σ → β) : Prop where
  stop : ∀ s, inv s → cond s = none → close (.yield s) = goal s
  round : ∀ s c, inv s → cond s = some c →
    (∃ t, Gives r (body s c) (.done t) ∧ 0 < measure s ∧ close (.done t) = goal s) ∨
      ∃ t, Gives r (body s c) (.yield t) ∧ measure t < measure s ∧ inv t ∧ goal t = goal s

namespace Descends

variable {cond : σ → Option γ} {body : σ → γ → Metered (ForInStep σ)} {inv : σ → Prop} {measure : σ → Nat}
  {close : ForInStep σ → β} {goal : σ → β}

/-- By induction on the measure. Any fuel that is no less will do, and what is given does not depend on it. -/
theorem rounds (h : Descends r cond body inv measure close goal) (s : σ) (hs : inv s) :
    ∃ exit n log, close exit = goal s ∧ n ≤ measure s ∧ (∀ run ∈ log, LoopRun.Within r run) ∧
      ∀ cap fuel, r ≤ cap → measure s ≤ fuel → Metered.rounds cond body fuel s cap = some ((exit, n), log) := by
  induction hk : measure s using Nat.strongRecOn generalizing s with
  | ind k ih =>
    cases hc : cond s with
    | none =>
      refine ⟨.yield s, 0, [], h.stop s hs hc, Nat.zero_le k, by simp, fun cap fuel _ _ => ?_⟩
      rw [rounds_of_none hc]
      rfl
    | some c =>
      rcases h.round s c hs hc with ⟨t, ⟨log, hbody, hlog⟩, hpos, hclose⟩ | ⟨t, ⟨log, hbody, hlog⟩, hless, ht, hgoal⟩
      · refine ⟨.done t, 1, log ++ [], hclose, by omega, by simpa using hlog, fun cap fuel hcap hfuel => ?_⟩
        obtain ⟨fuel, rfl⟩ : ∃ n, fuel = n + 1 := ⟨fuel - 1, by omega⟩
        rw [rounds_of_some hc, bind_apply (hbody cap hcap)]
        rfl
      · obtain ⟨exit, n, log', hclose, hn, hlog', hrest⟩ := ih (measure t) (by omega) t ht rfl
        have hboth : ∀ run ∈ log ++ (log' ++ []), LoopRun.Within r run := by
          simpa using List.forall_mem_append.2 ⟨hlog, hlog'⟩
        refine ⟨exit, n + 1, log ++ (log' ++ []), hclose.trans hgoal, by omega, hboth, fun cap fuel hcap hfuel => ?_⟩
        obtain ⟨fuel, rfl⟩ : ∃ n, fuel = n + 1 := ⟨fuel - 1, by omega⟩
        rw [rounds_of_some hc, bind_apply (hbody cap hcap)]
        dsimp only
        rw [bind_apply (hrest cap fuel hcap (by omega))]
        rfl

/-- A loop that starts with no more to go down than there are characters left has no more rounds than these. -/
theorem loop (h : Descends r cond body inv measure close goal) {left : Nat} {s : σ} (hs : inv s)
    (hleft : measure s ≤ left) (hr : left ≤ r) :
    ∃ exit, Gives r (Metered.loop left cond body s) exit ∧ close exit = goal s := by
  obtain ⟨exit, n, log, hclose, hn, hlog, hrounds⟩ := h.rounds s hs
  refine ⟨exit, ⟨log ++ [⟨left, n⟩], fun cap hcap => ?_, ?_⟩, hclose⟩
  · unfold Metered.loop
    rw [hrounds cap cap hcap (by omega)]
    rfl
  · have hlast : LoopRun.Within r ⟨left, n⟩ := ⟨Nat.le_trans hn hleft, hr⟩
    simpa using List.forall_mem_append.2 ⟨hlog, List.forall_mem_singleton.2 hlast⟩

end Descends

/-! ## Scans -/

/-- The text and the state behind it, once everything that `take` takes behind the text has been taken. -/
def gathered (take : List Char → List Char → List Char) (taken : List Char × State) : List Char × State :=
  (taken.1 ++ take taken.1 taken.2.cursor.after, taken.2.advance (take taken.1 taken.2.cursor.after).length)

variable {take : List Char → List Char → List Char} {taken : List Char × State}

theorem gathered_of_nil (h : take taken.1 taken.2.cursor.after = []) : gathered take taken = taken := by
  unfold gathered
  rw [h, List.append_nil, List.length_nil, State.advance_zero]

theorem gathered_of_cons {c : Char} {cs : List Char} (hafter : taken.2.cursor.after = c :: cs)
    (h : take taken.1 (c :: cs) = c :: take (taken.1 ++ [c]) cs) :
    gathered take (takeChar taken c) = gathered take taken := by
  have hrest : (taken.2.advance 1).cursor.after = cs := by
    rw [State.cursor_advance, Cursor.after_advance, hafter]
    rfl
  have hadvance : ∀ n, (taken.2.advance 1).advance n = taken.2.advance (n + 1) := by
    intro n
    unfold State.advance
    rw [Cursor.advance_advance, Nat.add_comm]
  unfold gathered takeChar
  dsimp only
  rw [hrest, hafter, h, hadvance, List.append_assoc]
  rfl

theorem length_takeChar_lt {c : Char} {cs : List Char} (hafter : taken.2.cursor.after = c :: cs) :
    (takeChar taken c).2.cursor.after.length < taken.2.cursor.after.length := by
  show (taken.2.cursor.after.drop 1).length < taken.2.cursor.after.length
  rw [hafter]
  simp

/-- A word ends at a blank. -/
theorem descends_word : Descends r (fun taken => taken.2.cursor.peekChar.filter fun c => !isBlank c)
    (fun taken c => pure (.yield (takeChar taken c))) (fun _ => True) (fun taken => taken.2.cursor.after.length)
    ForInStep.value (gathered fun _ => List.takeWhile fun c => !isBlank c) where
  stop taken _ hnone := by
    show taken = _
    refine (gathered_of_nil ?_).symm
    unfold Cursor.peekChar at hnone
    cases hafter : taken.2.cursor.after with
    | nil => rfl
    | cons c cs =>
      rw [hafter, List.head?_cons, Option.filter_eq_none_iff] at hnone
      exact List.takeWhile_cons_of_neg (p := fun c => !isBlank c) (hnone c rfl)
  round taken c _ hc := by
    obtain ⟨hpeek, hblank⟩ := Option.filter_eq_some_iff.1 hc
    obtain ⟨cs, hafter⟩ := List.head?_eq_some_iff.1 hpeek
    exact .inr ⟨takeChar taken c, .pure _, length_takeChar_lt hafter, trivial,
      gathered_of_cons hafter (List.takeWhile_cons_of_pos hblank)⟩

/-- A number ends at a character that is refused. -/
theorem descends_number (kind : NumberKind) : Descends r (fun taken => taken.2.cursor.peekChar)
    (fun taken c => pure (if kind.accepts taken.1 c then .yield (takeChar taken c) else .done taken)) (fun _ => True)
    (fun taken => taken.2.cursor.after.length) ForInStep.value (gathered kind.taken) where
  stop taken _ hnone := by
    have hafter : taken.2.cursor.after = [] := List.head?_eq_none_iff.1 hnone
    show taken = _
    refine (gathered_of_nil ?_).symm
    rw [hafter]
    rfl
  round taken c _ hc := by
    obtain ⟨cs, hafter⟩ := List.head?_eq_some_iff.1 hc
    by_cases haccepts : kind.accepts taken.1 c = true
    · refine .inr ⟨takeChar taken c, ?_, length_takeChar_lt hafter, trivial, ?_⟩
      · rw [if_pos haccepts]
        exact .pure _
      · exact gathered_of_cons hafter (NumberKind.taken_of_accepts haccepts cs)
    · refine .inl ⟨taken, ?_, ?_, ?_⟩
      · rw [if_neg haccepts]
        exact .pure _
      · rw [hafter]
        exact Nat.succ_pos _
      · show taken = _
        refine (gathered_of_nil ?_).symm
        rw [hafter]
        exact NumberKind.taken_of_refuses haccepts cs

/-! ## Parsers -/

/-- On a state with no more than `r` characters left, `f` gives what `p` makes of it. -/
def Counts (r : Nat) (f : State → Metered State) (p : Parser) : Prop :=
  ∀ s : State, s.cursor.after.length ≤ r → Gives r (f s) (p.parse s)

namespace Counts

variable {p : Parser} {f : State → Metered State} {s : State}

theorem of_run {run : State → Metered State}
    (h : ∀ s : State, s.failed = false → s.cursor.after.length ≤ r → Gives r (run s) (p.run s)) :
    Counts r (stamp p.label run) p := by
  intro s hs
  unfold stamp
  cases hfailed : s.failed with
  | true =>
    rw [Parser.parse_of_failed p hfailed]
    exact (Gives.pure s).bind (.pure _)
  | false =>
    rw [Parser.parse_of_not_failed p hfailed]
    exact (h s hfailed hs).bind (.pure _)

theorem plain (p : Parser) : Counts r (stamp p.label fun s => pure (p.run s)) p := of_run fun _ _ _ => .pure _

theorem word : Counts r (stamp Parser.word.label Metered.word) Parser.word := by
  refine of_run fun s _ hs => ?_
  obtain ⟨exit, hexit, hvalue⟩ := descends_word.loop (s := ([], s)) trivial (Nat.le_refl _) hs
  refine hexit.bind ?_
  rw [hvalue]
  unfold Parser.word
  dsimp only [gathered]
  rw [List.nil_append]
  split
  · rename_i hempty
    rw [List.isEmpty_iff.1 hempty, List.length_nil, State.advance_zero]
    exact .pure _
  · exact .pure _

theorem number (kind : NumberKind) :
    Counts r (stamp (Parser.number kind).label (Metered.number kind)) (.number kind) := by
  refine of_run fun s _ hs => ?_
  obtain ⟨exit, hexit, hvalue⟩ := (descends_number kind).loop (s := ([], s)) trivial (Nat.le_refl _) hs
  refine hexit.bind ?_
  rw [hvalue]
  unfold Parser.number
  dsimp only [gathered]
  rw [List.nil_append, NumberKind.taken_eq_scan]
  split
  · rename_i hempty
    rw [List.isEmpty_iff.1 hempty, List.length_nil, State.advance_zero]
    exact .pure _
  · cases kind.value? (kind.scan s.cursor.after) with
    | some v => exact .pure _
    | none => exact .pure _

/-! ### Combinators -/

theorem once (hf : Counts r f p) (combine : Parser → Parser)
    (hcombine : ∀ (q q' : Parser) (s : State), q.parse s = q'.parse s → (combine q).run s = (combine q').run s) :
    Counts r (stamp (combine p).label (Metered.once f combine)) (combine p) := by
  refine of_run fun s hfailed hs => ?_
  have hready : (Parser.ready (p.parse s)).parse s = p.parse s := by
    rw [Parser.parse_of_not_failed _ hfailed]
    rfl
  refine (hf s hs).bind ?_
  rw [hcombine _ _ s hready]
  exact .pure _

theorem optional (hf : Counts r f p) :
    Counts r (stamp (Parser.optional p).label (Metered.once f .optional)) (.optional p) :=
  once hf _ fun q q' s h => by unfold Parser.optional; dsimp only; rw [h]

theorem group (hf : Counts r f p) :
    Counts r (stamp (Parser.group p).label (Metered.once f .group)) (.group p) :=
  once hf _ fun q q' s h => by unfold Parser.group Parser.collect; dsimp only; rw [h]

theorem list (hf : Counts r f p) :
    Counts r (stamp (Parser.list p).label (Metered.once f .list)) (.list p) :=
  once hf _ fun q q' s h => by unfold Parser.list Parser.collect; dsimp only; rw [h]

theorem record (shape : Shape) (hf : Counts r f p) :
    Counts r (stamp (Parser.record shape p).label (Metered.once f (.record shape))) (.record shape p) :=
  once hf _ fun q q' s h => by unfold Parser.record; dsimp only; rw [h]

theorem action (name : String) (g : Action) (hf : Counts r f p) :
    Counts r (stamp (Parser.action name p g).label (Metered.once f (.action name · g))) (.action name p g) :=
  once hf (.action name · g) fun q q' s h => by unfold Parser.action; dsimp only; rw [h]

theorem sequence {fs : List (State → Metered State)} {ps : List Parser} (hfs : List.Forall₂ (Counts r) fs ps)
    (hps : ∀ p ∈ ps, p.Forward) (hs : s.cursor.after.length ≤ r) :
    Gives r (Metered.sequence fs s) (Parser.runAll ps s) := by
  induction hfs generalizing s with
  | nil => exact .pure s
  | @cons f p fs ps hf _ ih =>
    obtain ⟨hp, hps⟩ := List.forall_mem_cons.1 hps
    exact (hf s hs).bind (ih hps (Nat.le_trans (hp s).length_le hs))

theorem sequenceOf {fs : List (State → Metered State)} {ps : List Parser} (hfs : List.Forall₂ (Counts r) fs ps)
    (hps : ∀ p ∈ ps, p.Forward) :
    Counts r (stamp (Parser.sequenceOf ps).label (Metered.sequence fs)) (.sequenceOf ps) :=
  of_run fun _ _ hs => sequence hfs hps hs

theorem oneOf {fs : List (State → Metered State)} {ps : List Parser} (hfs : List.Forall₂ (Counts r) fs ps) :
    Counts r (stamp (Parser.oneOf ps).label (Metered.choice fs)) (.oneOf ps) := by
  refine of_run fun s _ hs => ?_
  have htrials : Gives r (fs.mapM' fun f => f s) (ps.map fun p => p.parse s) := by
    induction hfs with
    | nil => exact .pure []
    | cons hf _ ih => exact (hf s hs).bind (ih.bind (.pure _))
  exact htrials.bind (.pure _)

theorem runTimes (hf : Counts r f p) (hp : p.Forward) (n : Nat) (hs : s.cursor.after.length ≤ r) :
    Gives r (Metered.times f n s) (Parser.runTimes p n s) := by
  induction n generalizing s with
  | zero => exact .pure s
  | succ n ih =>
    refine (hf s hs).bind ?_
    unfold Parser.runTimes
    dsimp only
    split
    · exact .pure _
    · exact ih (Nat.le_trans (hp s).length_le hs)

theorem times (hf : Counts r f p) (hp : p.Forward) (n : Nat) :
    Counts r (stamp (Parser.times n p).label (Metered.times f n)) (.times n p) :=
  of_run fun _ _ hs => runTimes hf hp n hs

/-! ### Repetitions -/

/-- What comes of the last two states: the first with a warning if the second has failed, and else what is made of the
second. -/
def settle (finish : State → State) (states : State × State) : State :=
  match states.2.error with
  | some e => { states.1 with warning := some e }
  | none => finish states.2

theorem settle_of_error {finish : State → State} {states : State × State} {e : ParseError}
    (h : states.2.error = some e) : settle finish states = { states.1 with warning := some e } := by
  rw [settle, h]

theorem settle_of_success {finish : State → State} {states : State × State} (h : states.2.error = none) :
    settle finish states = finish states.2 := by
  rw [settle, h]

/-- Each round but the last leaves fewer characters to read. -/
theorem descends_oneOrMore (hf : Counts r f p) (hp : p.Forward) : Descends r
    (fun states => if states.2.failed || states.2.cursor.atEnd then none else some ())
    (fun states _ => applyAgain f states) (fun states => states.2.cursor.after.length ≤ r)
    (fun states => if states.2.failed then 0 else states.2.cursor.after.length)
    (fun exit => settle id exit.value) (settle (Parser.runWhile p)) where
  stop states _ hnone := by
    show settle id states = _
    cases herror : states.2.error with
    | some e => rw [settle_of_error herror, settle_of_error herror]
    | none =>
      have hend : states.2.cursor.atEnd = true := by
        by_contra hmore
        simp [State.failed, herror, hmore] at hnone
      rw [settle_of_success herror, settle_of_success herror, Parser.runWhile_of_atEnd hend]
      rfl
  round states _ hs hsome := by
    obtain ⟨hsuccess, hmore⟩ : states.2.failed = false ∧ states.2.cursor.atEnd = false := by
      simpa using hsome
    have hround : Gives r (applyAgain f states)
        (if !(p.parse states.2).failed && (p.parse states.2).cursor.index == states.2.cursor.index
          then .done (states.2, p.parse states.2) else .yield (states.2, p.parse states.2)) :=
      (hf states.2 hs).bind (.pure _)
    have hlength : (p.parse states.2).cursor.after.length ≤ r := Nat.le_trans (hp states.2).length_le hs
    rw [settle_of_success (State.failed_eq_false_iff.1 hsuccess), if_neg (ne_true_of_eq_false hsuccess)]
    cases hnext : (p.parse states.2).error with
    | some e =>
      -- the loop has another round before it, which its condition refuses: the measure is zero
      have hfail : (p.parse states.2).failed = true := by simp [State.failed, hnext]
      rw [hfail] at hround
      refine .inr ⟨_, hround, ?_, hlength, ?_⟩
      · rw [if_pos hfail]
        exact Cursor.length_pos hmore
      · rw [settle_of_error hnext, Parser.runWhile_of_error hmore hnext]
    | none =>
      have hgoes : (p.parse states.2).failed = false := State.failed_eq_false_iff.2 hnext
      by_cases hstay : (p.parse states.2).cursor.index = states.2.cursor.index
      · have hstalled : ¬ (p.parse states.2).movedOn states.2 :=
          fun hm => (Parser.movedOn_iff hp states.2).1 hm hstay
        rw [hgoes, hstay, beq_self_eq_true] at hround
        refine .inl ⟨_, hround, Cursor.length_pos hmore, ?_⟩
        rw [Parser.runWhile_of_not_movedOn hmore hnext hstalled]
        exact settle_of_success hnext
      · have hmoved : (p.parse states.2).movedOn states.2 := (Parser.movedOn_iff hp states.2).2 hstay
        rw [hgoes, beq_eq_false_iff_ne.2 hstay] at hround
        refine .inr ⟨_, hround, ?_, hlength, ?_⟩
        · rw [if_neg (ne_true_of_eq_false hgoes)]
          exact hmoved
        · rw [settle_of_success hnext, Parser.runWhile_of_movedOn hmore hnext hmoved]

theorem oneOrMore (hf : Counts r f p) (hp : p.Forward) :
    Counts r (stamp (Parser.oneOrMore p).label (Metered.oneOrMore f)) (.oneOrMore p) := by
  refine of_run fun s hfailed hs => ?_
  obtain ⟨exit, hexit, hvalue⟩ := (descends_oneOrMore hf hp).loop (s := (s, s)) hs (by simp [hfailed]) hs
  refine hexit.bind ?_
  have hrun : settle id exit.value = Parser.runWhile p s :=
    hvalue.trans (settle_of_success (State.failed_eq_false_iff.1 hfailed))
  show Gives r _ (Parser.runWhile p s)
  rw [← hrun]
  obtain ⟨previous, current⟩ := exit.value
  dsimp only
  cases herror : current.error with
  | some e =>
    rw [settle_of_error herror]
    exact .pure _
  | none =>
    rw [settle_of_success herror]
    exact .pure _

theorem descends_tillEnd (hf : Counts r f p) (hp : p.Forward) : Descends r
    (fun s => if s.cursor.atEnd then none else some ()) (fun s _ => applyOn f s)
    (fun s => s.cursor.after.length ≤ r) (fun s => s.cursor.after.length)
    (fun | .done t => t | .yield t => { t with warning := none }) (Parser.runTillEnd p) where
  stop s _ hnone := by
    cases hend : s.cursor.atEnd with
    | true => rw [Parser.runTillEnd_of_atEnd hend]
    | false => simp [hend] at hnone
  round s _ hs hsome := by
    have hmore : s.cursor.atEnd = false := by simpa using hsome
    have hround : Gives r (applyOn f s) (if (p.parse s).failed then .done (p.parse s)
        else if (p.parse s).cursor.index = s.cursor.index then
          .done ((p.parse s).fail (.noProgress (p.parse s).warning))
        else .yield (p.parse s)) := (hf s hs).bind (.pure _)
    by_cases hfail : (p.parse s).failed = true
    · rw [if_pos hfail] at hround
      refine .inl ⟨_, hround, Cursor.length_pos hmore, ?_⟩
      rw [Parser.runTillEnd_of_failed hmore hfail]
    · have hgoes : (p.parse s).failed = false := Bool.of_not_eq_true hfail
      rw [if_neg hfail] at hround
      by_cases hstay : (p.parse s).cursor.index = s.cursor.index
      · have hstalled : ¬ (p.parse s).movedOn s := fun hm => (Parser.movedOn_iff hp s).1 hm hstay
        rw [if_pos hstay] at hround
        refine .inl ⟨_, hround, Cursor.length_pos hmore, ?_⟩
        rw [Parser.runTillEnd_of_not_movedOn hmore hgoes hstalled]
      · have hmoved : (p.parse s).movedOn s := (Parser.movedOn_iff hp s).2 hstay
        rw [if_neg hstay] at hround
        refine .inr ⟨_, hround, hmoved, Nat.le_trans (hp s).length_le hs, ?_⟩
        rw [Parser.runTillEnd_of_movedOn hmore hgoes hmoved]

theorem tillEnd (hf : Counts r f p) (hp : p.Forward) :
    Counts r (stamp (Parser.tillEnd p).label (Metered.tillEnd f)) (.tillEnd p) := by
  refine of_run fun s _ hs => ?_
  obtain ⟨exit, hexit, hvalue⟩ := (descends_tillEnd hf hp).loop (s := s) hs (Nat.le_refl _) hs
  refine hexit.bind ?_
  show Gives r _ (Parser.runTillEnd p s)
  rw [← hvalue]
  cases exit with
  | done t => exact .pure _
  | yield t => exact .pure _

end Counts

end Metered

/-! ## Grammars -/

open Metered (Gives Counts)

section

variable {r : Nat}

mutual

/-- The loops of a grammar are counted right, and they end in time. -/
theorem Grammar.counts : ∀ g : Grammar, Counts r g.metered g.parser
  | .char c captured => by rw [Grammar.metered]; exact Counts.plain (.char c captured)
  | .literal text captured => by rw [Grammar.metered]; exact Counts.plain (.literal text captured)
  | .letter => by rw [Grammar.metered]; exact Counts.plain .letter
  | .word => by rw [Grammar.metered]; exact Counts.word
  | .number kind => by rw [Grammar.metered]; exact Counts.number kind
  | .spaces n captured => by rw [Grammar.metered]; exact Counts.plain (.spaces n captured)
  | .lineEnd => by rw [Grammar.metered]; exact Counts.plain .lineEnd
  | .sequenceOf gs => by
    rw [Grammar.metered]
    exact Counts.sequenceOf (Grammar.all_count gs) (Grammar.forward_all gs)
  | .oneOf gs => by rw [Grammar.metered]; exact Counts.oneOf (Grammar.all_count gs)
  | .optional g => by rw [Grammar.metered]; exact Counts.optional g.counts
  | .group g => by rw [Grammar.metered]; exact Counts.group g.counts
  | .list g => by rw [Grammar.metered]; exact Counts.list g.counts
  | .times n g => by rw [Grammar.metered]; exact Counts.times g.counts g.forward n
  | .oneOrMore g => by rw [Grammar.metered]; exact Counts.oneOrMore g.counts g.forward
  | .tillEnd g => by rw [Grammar.metered]; exact Counts.tillEnd g.counts g.forward
  | .stringMap table => by rw [Grammar.metered]; exact Counts.plain (.stringMap table)
  | .keyword family tokens => by rw [Grammar.metered]; exact Counts.plain (.keyword family tokens)
  | .record shape g => by rw [Grammar.metered]; exact Counts.record shape g.counts
  | .action name g f => by rw [Grammar.metered]; exact Counts.action name f g.counts
  | .custom label steps => by
    rw [Grammar.metered]
    refine Counts.of_run fun s _ hs => ?_
    exact (Step.all_count steps (Session.From.ofState s) hs).bind (.pure _)

theorem Grammar.all_count : ∀ gs : List Grammar,
    List.Forall₂ (Counts r) (Grammar.allMetered gs) (Grammar.parsers gs)
  | [] => by rw [Grammar.allMetered, Grammar.parsers]; exact .nil
  | g :: gs => by rw [Grammar.allMetered, Grammar.parsers]; exact .cons g.counts (Grammar.all_count gs)

theorem Step.counts : ∀ (step : Step) {c : Cursor} {session : Session}, session.From c → c.after.length ≤ r →
    Gives r (step.metered session) (step.run session)
  | .parse g, _, session, h, hc => by
    rw [Step.metered, Step.run]
    exact (g.counts session.state (Nat.le_trans h.state.length_le hc)).bind (.pure _)
  | .parseOrKeep g _, _, session, h, hc => by
    rw [Step.metered, Step.run]
    exact (g.counts session.state (Nat.le_trans h.state.length_le hc)).bind (.pure _)
  | .nextChar, _, _, _, _ => .pure _
  | .nextChars _, _, _, _, _ => .pure _
  | .advance _, _, _, _, _ => .pure _
  | .push _, _, _, _, _ => .pure _
  | .popLast, _, _, _, _ => .pure _
  | .popFirst, _, _, _, _ => .pure _
  | .takeLast _, _, _, _, _ => .pure _
  | .lookUp _, _, _, _, _ => .pure _
  | .setContext .., _, _, _, _ => .pure _
  | .removeContext _, _, _, _, _ => .pure _
  | .replaceContext _, _, _, _, _ => .pure _
  | .fail _, _, _, _, _ => .pure _
  | .requireTop .., _, _, _, _ => .pure _
  | .assemble _, _, _, _, _ => .pure _
  | .save _, _, _, _, _ => .pure _
  | .load _, _, _, _, _ => .pure _
  | .observe _, _, _, _, _ => .pure _

theorem Step.all_count : ∀ (steps : List Step) {c : Cursor} {session : Session}, session.From c → c.after.length ≤ r →
    Gives r (Step.allMetered steps session) (Step.runAll steps session)
  | [], _, _, _, _ => .pure _
  | step :: steps, _, session, h, hc => by
    rw [Step.allMetered, Step.runAll]
    refine (step.counts h hc).bind ?_
    split
    · exact .pure _
    · exact Step.all_count steps (step.from_run h) hc

end

end

/-- Every parse ends. Let `r` characters be left. It is enough that loops may take `r` rounds for the parse to be carried
out to its end, and no loop takes more rounds than there were characters left when it started, `r` at most. -/
theorem Grammar.loops_bounded (g : Grammar) (s : State) :
    let r := s.cursor.size - s.cursor.index
    ∃ log : List LoopRun, (∀ cap, r ≤ cap → g.metered s cap = some (g.parse s, log)) ∧
      ∀ run ∈ log, run.rounds ≤ run.left ∧ run.left ≤ r := by
  intro r
  have hr : r = s.cursor.after.length := by
    show s.cursor.size - s.cursor.index = _
    rw [Cursor.size_eq]
    omega
  rw [hr]
  exact g.counts s (Nat.le_refl _)

/-- A custom parser reads letters, goes back and reads a word. The loops stand in the order in which they end: letters and
word twice, the second time in a trial that fails, then the number, and the loop around them all. -/
theorem Grammar.loops_bounded_twice :
    let twice := custom "twice" [.save "start", .parse (oneOrMore letter), .load "start", .parse word]
    let g := tillEnd (oneOf [twice, sequenceOf [space, integer]])
    let s := State.start "ab 12"
    ∃ log : List LoopRun, s.cursor.size - s.cursor.index = 5 ∧ g.metered s 5 = some (g.parse s, log) ∧
      log = [⟨5, 3⟩, ⟨5, 2⟩, ⟨3, 1⟩, ⟨3, 0⟩, ⟨2, 2⟩, ⟨5, 2⟩] ∧
      ∀ run ∈ log, run.rounds ≤ run.left ∧ run.left ≤ 5 := by
  intro twice g s
  obtain ⟨log, hparse, hbounds⟩ := loops_bounded g s
  have hleft : s.cursor.size - s.cursor.index = 5 := by decide
  have hlog : (g.metered s 5).map Prod.snd = some [⟨5, 3⟩, ⟨5, 2⟩, ⟨3, 1⟩, ⟨3, 0⟩, ⟨2, 2⟩, ⟨5, 2⟩] := by decide +kernel
  rw [hleft] at hbounds
  rw [hparse 5 (Nat.le_of_eq hleft)] at hlog
  exact ⟨log, hleft, hparse 5 (Nat.le_of_eq hleft), Option.some.inj hlog, hbounds⟩

end StackParser
