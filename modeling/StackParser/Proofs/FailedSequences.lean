import StackParser.Proofs.Findings
import StackParser.Proofs.SureAssembly

/-!
# What a failure leaves on the stack

* `Parser.Total p` : `p` never fails; `Parser.Silent p` : a success of `p` leaves the stack as it was; `Parser.Tidy p` :
  a failure does, as that of a single unit of text (`Tidy.of_local`). There is one rule for each combinator;
* `Grammar.Tidy` : no part of a grammar may fail behind values that another part has pushed, so that its parser is tidy
  (`Grammar.parser_tidy`);
* `Grammar.total`, `Grammar.silent`, `Grammar.isTidy` : what can be seen of this from the tree (`Grammar.tidy_of_isTidy`);
* `Grammar.stack_of_first_failure` : a sequence that fails has the stack that its first failing part leaves, which is the
  one that this part has found if it is tidy;
* `Grammar.stack_of_broken_pair` : a part that is a sequence itself may leave values when it fails.
-/

namespace StackParser

theorem Shape.stack_assemble_of_failed {shape : Shape} {s : State} (h : (shape.assemble s).failed = true) :
    (shape.assemble s).stack = s.stack := by
  revert h
  unfold assemble
  split
  · exact fun _ => rfl
  · rename_i hs
    split
    · exact fun h => absurd h hs
    · split
      · exact fun _ => rfl
      · split
        · exact fun h => absurd h hs
        · exact fun _ => rfl

namespace Parser

def Total (p : Parser) : Prop := ∀ s : State, s.failed = false → (p.parse s).failed = false

def Silent (p : Parser) : Prop := ∀ s : State, (p.parse s).failed = false → (p.parse s).stack = s.stack

/-- Where `p` fails, the stack is as it was. -/
def Tidy (p : Parser) : Prop := ∀ s : State, (p.parse s).failed = true → (p.parse s).stack = s.stack

/-- Where `p` succeeds, a record of the shape can be made of what is on the stack. -/
def Completes (shape : Shape) (p : Parser) : Prop :=
  ∀ s : State, (p.parse s).failed = false → (shape.assemble (p.parse s)).failed = false

variable {p : Parser} {ps : List Parser} {s : State}

/-- It is enough to look at the run on states that have not failed. -/
theorem Total.of_run (h : ∀ s : State, s.failed = false → (p.run s).failed = false) : p.Total := by
  intro s hs
  rw [failed_parse hs]
  exact h s hs

/-- Failed states are let through, so that it is enough to look at the others. -/
theorem Tidy.of_parse
    (h : ∀ s : State, s.failed = false → (p.parse s).failed = true → (p.parse s).stack = s.stack) : p.Tidy := by
  intro s hfail
  cases hs : s.failed with
  | true => rw [p.parse_of_failed hs]
  | false => exact h s hs hfail

theorem Tidy.of_run (h : ∀ s : State, s.failed = false → (p.run s).failed = true → (p.run s).stack = s.stack) :
    p.Tidy := by
  refine of_parse fun s hs hfail => ?_
  rw [failed_parse hs] at hfail
  rw [p.parse_of_not_failed hs]
  exact h s hs hfail

theorem Total.tidy (h : p.Total) : p.Tidy :=
  .of_parse fun s hs hfail => absurd hfail (ne_true_of_eq_false (h s hs))

/-- What is decided by the text that is left fails with the stack it has found. -/
theorem Tidy.of_local (h : p.Local) : p.Tidy := by
  refine of_parse fun s hs hfail => ?_
  obtain ⟨f, hf, -⟩ := h s s hs hs rfl
  rw [hf] at hfail ⊢
  cases f with
  | accept n vs => exact absurd hfail (ne_true_of_eq_false hs)
  | reject n e => rfl

/-! ## Fixed texts -/

theorem Total.literal {text : String} (h : text = "") (captured : Bool) : (Parser.literal text captured).Total :=
  fun _ hs => (failed_literal hs).2 (h ▸ List.nil_prefix)

theorem Total.spaces {n : Nat} (h : n = 0) (captured : Bool) : (Parser.spaces n captured).Total :=
  of_run fun _ hs => (failed_fixedText hs).2 (h ▸ List.nil_prefix)

/-! ## One after the other -/

theorem stack_runAll_of_failed (hs : s.failed = true) : (runAll ps s).stack = s.stack := by
  obtain ⟨_, h⟩ : ∃ name, runAll ps s = { s with name := name } := runAll_of_failed hs
  rw [h]

namespace Total

theorem runAll (h : ∀ p ∈ ps, p.Total) (hs : s.failed = false) : (Parser.runAll ps s).failed = false := by
  induction ps generalizing s with
  | nil => exact hs
  | cons p ps ih =>
    obtain ⟨hp, hps⟩ := List.forall_mem_cons.1 h
    exact ih hps (hp s hs)

theorem sequenceOf (h : ∀ p ∈ ps, p.Total) : (Parser.sequenceOf ps).Total := of_run fun _ => runAll h

theorem runTimes {n : Nat} (h : n = 0 ∨ p.Total) (hs : s.failed = false) : (Parser.runTimes p n s).failed = false := by
  induction n generalizing s with
  | zero => exact hs
  | succ n ih =>
    have htotal := h.resolve_left n.succ_ne_zero
    have hnext := htotal s hs
    unfold Parser.runTimes
    dsimp only
    rw [if_neg (ne_true_of_eq_false hnext)]
    exact ih (.inr htotal) hnext

theorem times {n : Nat} (h : n = 0 ∨ p.Total) : (Parser.times n p).Total := of_run fun _ => runTimes h

end Total

namespace Tidy

/-- Only the first part of the sequence may fail. -/
theorem head (hp : p.Tidy) (hps : ∀ q ∈ ps, q.Total) : (Parser.sequenceOf (p :: ps)).Tidy := by
  refine of_run fun s _ hfail => ?_
  cases hfirst : (p.parse s).failed with
  | true => exact (stack_runAll_of_failed hfirst).trans (hp s hfirst)
  | false =>
    have hothers := Total.runAll hps hfirst
    exact absurd hfail (ne_true_of_eq_false hothers)

/-- The first part pushes nothing that could be left behind. -/
theorem cons (hp : p.Tidy) (hsilent : p.Silent) (hps : (Parser.sequenceOf ps).Tidy) :
    (Parser.sequenceOf (p :: ps)).Tidy := by
  refine of_run fun s _ hfail => ?_
  cases hfirst : (p.parse s).failed with
  | true => exact (stack_runAll_of_failed hfirst).trans (hp s hfirst)
  | false =>
    have hothers := hps (p.parse s)
    rw [(Parser.sequenceOf ps).parse_of_not_failed hfirst] at hothers
    exact (hothers hfail).trans (hsilent s hfirst)

theorem runTimes (hp : p.Tidy) {n : Nat} (hn : n ≤ 1 ∨ p.Silent) (hs : s.failed = false)
    (hfail : (Parser.runTimes p n s).failed = true) : (Parser.runTimes p n s).stack = s.stack := by
  induction n generalizing s with
  | zero => exact absurd hfail (ne_true_of_eq_false hs)
  | succ n ih =>
    unfold Parser.runTimes at hfail ⊢
    dsimp only at hfail ⊢
    cases hfirst : (p.parse s).failed with
    | true =>
      rw [if_pos rfl]
      exact hp s hfirst
    | false =>
      rw [hfirst, if_neg Bool.false_ne_true] at hfail
      rw [if_neg Bool.false_ne_true]
      rcases hn with hn | hsilent
      · obtain rfl : n = 0 := by omega
        exact absurd hfail (ne_true_of_eq_false hfirst)
      · exact (ih (.inr hsilent) hfirst hfail).trans (hsilent s hfirst)

theorem times (hp : p.Tidy) {n : Nat} (hn : n ≤ 1 ∨ p.Silent) : (Parser.times n p).Tidy :=
  of_run fun _ => hp.runTimes hn

end Tidy

/-! ## Alternatives -/

/-- The trials are made on states of their own, and none is kept if there is not exactly one success. -/
theorem Tidy.oneOf (ps : List Parser) : (Parser.oneOf ps).Tidy := by
  refine of_run fun s hs hfail => ?_
  obtain ⟨e, he⟩ := oneOf_of_failed hs ((failed_parse hs).trans hfail)
  rw [he]
  rfl

theorem context_oneOf_of_failed (hfail : ((Parser.oneOf ps).parse s).failed = true) :
    ((Parser.oneOf ps).parse s).context = s.context := by
  cases hs : s.failed with
  | true => rw [parse_of_failed _ hs]
  | false =>
    obtain ⟨e, he⟩ := oneOf_of_failed hs hfail
    rw [parse_of_not_failed _ hs, he]
    rfl

theorem Total.optional (p : Parser) : (Parser.optional p).Total := by
  refine of_run fun s hs => ?_
  unfold Parser.optional
  dsimp only
  split
  · exact hs
  · exact Bool.of_not_eq_true ‹_›

/-! ## Repetition -/

theorem Total.runWhile (hs : s.failed = false) : (Parser.runWhile p s).failed = false := by
  fun_induction Parser.runWhile p s with
  | case1 s _ => exact hs
  | case2 s _ next e _ => exact hs
  | case3 s _ next hnone _ ih => exact ih (State.failed_eq_false_iff.2 hnone)
  | case4 s _ next hnone _ => exact State.failed_eq_false_iff.2 hnone

theorem Total.oneOrMore (p : Parser) : (Parser.oneOrMore p).Total := of_run fun _ => runWhile

theorem Tidy.runTillEnd (hp : p.Tidy) (hsilent : p.Silent) (hs : s.failed = false) :
    (Parser.runTillEnd p s).failed = true → (Parser.runTillEnd p s).stack = s.stack := by
  fun_induction Parser.runTillEnd p s with
  | case1 s _ => exact fun hfail => absurd hfail (ne_true_of_eq_false hs)
  | case2 s _ next _ => exact hp s
  | case3 s _ next hnext _ ih =>
    have hnext' := Bool.of_not_eq_true hnext
    exact fun hfail => (ih hnext' hfail).trans (hsilent s hnext')
  | case4 s _ next hnext _ => exact fun _ => hsilent s (Bool.of_not_eq_true hnext)

theorem Tidy.tillEnd (hp : p.Tidy) (hsilent : p.Silent) : (Parser.tillEnd p).Tidy :=
  of_run fun _ => hp.runTillEnd hsilent

/-! ## Collections and records -/

theorem Tidy.collect (hp : p.Tidy) (keepEmpty : Bool) (hfail : (Parser.collect p keepEmpty s).failed = true) :
    (Parser.collect p keepEmpty s).stack = s.stack := by
  rw [failed_collect] at hfail
  unfold Parser.collect
  dsimp only
  rw [if_pos hfail]
  exact hp s hfail

theorem Tidy.group (hp : p.Tidy) : (Parser.group p).Tidy := of_run fun _ _ => hp.collect false

theorem Tidy.list (hp : p.Tidy) : (Parser.list p).Tidy := of_run fun _ _ => hp.collect true

theorem Total.group (h : p.Total) : (Parser.group p).Total := of_run fun s hs => failed_collect.trans (h s hs)

theorem Total.list (h : p.Total) : (Parser.list p).Total := of_run fun s hs => failed_collect.trans (h s hs)

/-- A record that is not assembled leaves what its parser has pushed, so this has to be nothing. -/
theorem Tidy.record {shape : Shape} (hp : p.Tidy) (h : p.Silent ∨ p.Completes shape) :
    (Parser.record shape p).Tidy := by
  refine of_run fun s _ hfail => ?_
  have hstack : ((Parser.record shape p).run s).stack = (p.parse s).stack := Shape.stack_assemble_of_failed hfail
  refine hstack.trans ?_
  cases hinner : (p.parse s).failed with
  | true => exact hp s hinner
  | false =>
    rcases h with hsilent | hcompletes
    · exact hsilent s hinner
    · exact absurd hfail (ne_true_of_eq_false (hcompletes s hinner))

theorem Total.record {shape : Shape} (h : p.Total) (hcompletes : p.Completes shape) : (Parser.record shape p).Total :=
  of_run fun s hs => hcompletes s (h s hs)

end Parser

/-! ## Grammars -/

namespace Grammar

mutual

/-- No part of the grammar may fail behind values that another part has pushed. -/
def Tidy : Grammar → Prop
  | .sequenceOf gs => SequenceTidy gs
  | .group g | .list g => g.Tidy
  | .times n g => (Parser.times n g.parser).Total ∨ g.Tidy ∧ (n ≤ 1 ∨ g.parser.Silent)
  | .tillEnd g => g.Tidy ∧ g.parser.Silent
  | .record shape g => g.Tidy ∧ (g.parser.Silent ∨ g.parser.Completes shape)
  | .action .. | .custom .. => False
  | _ => True

/-- The same for parts one after the other: what may fail has only silent parts in front. -/
def SequenceTidy : List Grammar → Prop
  | [] => True
  | g :: gs => g.Tidy ∧ ((∀ p ∈ parsers gs, p.Total) ∨ g.parser.Silent ∧ SequenceTidy gs)

end

mutual

theorem parser_tidy : ∀ g : Grammar, g.Tidy → g.parser.Tidy
  | .char .., _ | .literal .., _ | .letter, _ | .word, _ | .number _, _ | .spaces .., _ | .lineEnd, _ | .stringMap _, _
  | .keyword .., _ => .of_local (parser_local _ rfl)
  | .sequenceOf gs, h => sequenceTidy_parsers gs h
  | .oneOf _, _ => .oneOf _
  | .optional _, _ => (Parser.Total.optional _).tidy
  | .group g, h => (parser_tidy g h).group
  | .list g, h => (parser_tidy g h).list
  | .times n g, h => by
    rcases h with htotal | ⟨hg, hn⟩
    · exact htotal.tidy
    · exact (parser_tidy g hg).times hn
  | .oneOrMore _, _ => (Parser.Total.oneOrMore _).tidy
  | .tillEnd g, h => (parser_tidy g h.1).tillEnd h.2
  | .record _ g, h => (parser_tidy g h.1).record h.2
  | .action .., h => h.elim
  | .custom .., h => h.elim

theorem sequenceTidy_parsers : ∀ gs : List Grammar, SequenceTidy gs → (Parser.sequenceOf (parsers gs)).Tidy
  | [], _ => (Parser.Total.sequenceOf (List.forall_mem_nil _)).tidy
  | g :: gs, h => by
    obtain ⟨hg, htotal | ⟨hsilent, hgs⟩⟩ := h
    · exact (parser_tidy g hg).head htotal
    · exact (parser_tidy g hg).cons hsilent (sequenceTidy_parsers gs hgs)

end

/-! ## What is seen from the tree -/

mutual

def total : Grammar → Bool
  | .literal text _ => text = ""
  | .spaces n _ => n = 0
  | .optional _ | .oneOrMore _ => true
  | .sequenceOf gs => allTotal gs
  | .group g | .list g => g.total
  | .times n g => n = 0 || g.total
  | .record shape g => g.total && g.assembles shape
  | _ => false

def allTotal : List Grammar → Bool
  | [] => true
  | g :: gs => g.total && allTotal gs

end

def silent (g : Grammar) : Bool := g.wellTyped && g.signature? = some []

mutual

/-- Whether it is seen that `g` is tidy. -/
def isTidy : Grammar → Bool
  | .sequenceOf gs => isTidySequence gs
  | .group g | .list g => g.isTidy
  | .times n g => (Grammar.times n g).total || (g.isTidy && (n ≤ 1 || g.silent))
  | .tillEnd g => g.isTidy && g.silent
  | .record shape g => g.isTidy && (g.silent || g.assembles shape)
  | .action .. | .custom .. => false
  | _ => true

def isTidySequence : List Grammar → Bool
  | [] => true
  | g :: gs => g.isTidy && (allTotal gs || (g.silent && isTidySequence gs))

end

mutual

theorem parser_total : ∀ g : Grammar, g.total = true → g.parser.Total
  | .literal text captured, h => .literal (of_decide_eq_true h) captured
  | .spaces n captured, h => .spaces (of_decide_eq_true h) captured
  | .optional _, _ => .optional _
  | .oneOrMore _, _ => .oneOrMore _
  | .sequenceOf gs, h => .sequenceOf (allTotal_parsers gs h)
  | .group g, h => (parser_total g h).group
  | .list g, h => (parser_total g h).list
  | .times n g, h => .times <| (Bool.or_eq_true_iff.1 h).imp of_decide_eq_true (parser_total g)
  | .record shape g, h => by
    obtain ⟨hg, hassembles⟩ := Bool.and_eq_true_iff.1 h
    exact (parser_total g hg).record fun _ => failed_assemble hassembles

theorem allTotal_parsers : ∀ gs : List Grammar, allTotal gs = true → ∀ p ∈ parsers gs, p.Total
  | [], _, _, hp => nomatch hp
  | g :: gs, h, p, hp => by
    obtain ⟨hg, hgs⟩ := Bool.and_eq_true_iff.1 h
    rcases List.mem_cons.1 hp with rfl | hp
    · exact parser_total g hg
    · exact allTotal_parsers gs hgs p hp

end

/-- What a well-typed grammar leaves on the stack lies on top of what it has found there. -/
theorem exists_stack_eq_append {g : Grammar} (hg : g.wellTyped = true) (s : State) :
    ∃ vs, (g.parse s).stack = s.stack ++ vs ∧ ((g.parse s).failed = false → Layer.ofSignature g.signature? vs) :=
  (pushes_signature anyError g hg).exists_stack_eq_append s

theorem parser_silent {g : Grammar} (hg : g.silent = true) : g.parser.Silent := by
  obtain ⟨htyped, hsig⟩ := Bool.and_eq_true_iff.1 hg
  intro s hsuccess
  obtain ⟨vs, hstack, hvs⟩ := exists_stack_eq_append htyped s
  have hnil := hvs hsuccess
  rw [of_decide_eq_true hsig] at hnil
  rw [Layer.types_nil_iff.1 hnil, List.append_nil] at hstack
  exact hstack

mutual

theorem tidy_of_isTidy : ∀ g : Grammar, g.isTidy = true → g.Tidy
  | .char .., _ | .literal .., _ | .letter, _ | .word, _ | .number _, _ | .spaces .., _ | .lineEnd, _ | .stringMap _, _
  | .keyword .., _ | .oneOf _, _ | .optional _, _ | .oneOrMore _, _ => trivial
  | .sequenceOf gs, h => sequenceTidy_of_isTidySequence gs h
  | .group g, h => tidy_of_isTidy g h
  | .list g, h => tidy_of_isTidy g h
  | .times n g, h => by
    refine (Bool.or_eq_true_iff.1 h).imp (parser_total (.times n g)) fun h => ?_
    obtain ⟨hg, hn⟩ := Bool.and_eq_true_iff.1 h
    exact ⟨tidy_of_isTidy g hg, (Bool.or_eq_true_iff.1 hn).imp of_decide_eq_true parser_silent⟩
  | .tillEnd g, h => by
    obtain ⟨hg, hsilent⟩ := Bool.and_eq_true_iff.1 h
    exact ⟨tidy_of_isTidy g hg, parser_silent hsilent⟩
  | .record shape g, h => by
    obtain ⟨hg, hrecord⟩ := Bool.and_eq_true_iff.1 h
    exact ⟨tidy_of_isTidy g hg, (Bool.or_eq_true_iff.1 hrecord).imp parser_silent fun h _ => failed_assemble h⟩
  | .action .., h => nomatch h
  | .custom .., h => nomatch h

theorem sequenceTidy_of_isTidySequence : ∀ gs : List Grammar, isTidySequence gs = true → SequenceTidy gs
  | [], _ => trivial
  | g :: gs, h => by
    obtain ⟨hg, hothers⟩ := Bool.and_eq_true_iff.1 h
    refine ⟨tidy_of_isTidy g hg, (Bool.or_eq_true_iff.1 hothers).imp (allTotal_parsers gs) fun hothers => ?_⟩
    obtain ⟨hsilent, hgs⟩ := Bool.and_eq_true_iff.1 hothers
    exact ⟨parser_silent hsilent, sequenceTidy_of_isTidySequence gs hgs⟩

end

/-! ## The first part that fails -/

/-- The parts `before` succeed on `s`, and `g` fails on what they leave. -/
structure FirstFailure (before : List Grammar) (g : Grammar) (s : State) : Prop where
  succeeds : ((Grammar.sequenceOf before).parse s).failed = false
  fails : (g.parse ((Grammar.sequenceOf before).parser.run s)).failed = true

theorem run_sequenceOf_append (before after : List Grammar) (g : Grammar) (s : State) :
    (Grammar.sequenceOf (before ++ g :: after)).parser.run s =
      Parser.runAll (parsers after) (g.parse ((Grammar.sequenceOf before).parser.run s)) := by
  change Parser.runAll (parsers (before ++ g :: after)) s =
    Parser.runAll (parsers after) (g.parse (Parser.runAll (parsers before) s))
  rw [parsers_eq_map, parsers_eq_map, parsers_eq_map, List.map_append, Parser.runAll, List.foldl_append]
  rfl

/-- A sequence that fails has a first part that does. -/
theorem exists_firstFailure {gs : List Grammar} {s : State} (hs : s.failed = false)
    (h : ((Grammar.sequenceOf gs).parse s).failed = true) :
    ∃ before g after, gs = before ++ g :: after ∧ FirstFailure before g s := by
  induction gs generalizing s with
  | nil =>
    have hnil : ((Grammar.sequenceOf []).parse s).failed = false := (Parser.failed_parse hs).trans hs
    exact absurd h (ne_true_of_eq_false hnil)
  | cons g gs ih =>
    cases hg : (g.parse s).failed with
    | true => exact ⟨[], g, gs, rfl, (Parser.failed_parse hs).trans hs, hg⟩
    | false =>
      have hothers : ((Grammar.sequenceOf gs).parse (g.parse s)).failed = true := by
        rw [parse, Parser.failed_parse hg]
        rwa [parse, Parser.failed_parse hs] at h
      obtain ⟨before, g', after, rfl, hbefore, hfails⟩ := ih hg hothers
      refine ⟨g :: before, g', after, rfl, ?_, hfails⟩
      rw [parse, Parser.failed_parse hs]
      rwa [parse, Parser.failed_parse hg] at hbefore

/-- A sequence that fails has a first part that does, and keeps the stack that this part leaves. It is the stack that the
parts before have left if the first part that fails is tidy, and else it may have more values on top. -/
theorem stack_of_first_failure (gs : List Grammar) (s : State) (hs : s.failed = false) :
    (((Grammar.sequenceOf gs).parse s).failed = true →
      ∃ before g after, gs = before ++ g :: after ∧ FirstFailure before g s) ∧
    ∀ before g after, gs = before ++ g :: after → FirstFailure before g s →
      ((Grammar.sequenceOf gs).parse s).failed = true ∧
      ((Grammar.sequenceOf gs).parse s).stack = (g.parse ((Grammar.sequenceOf before).parser.run s)).stack ∧
      (g.Tidy → ((Grammar.sequenceOf gs).parse s).stack = ((Grammar.sequenceOf before).parse s).stack) ∧
      (g.wellTyped = true → ((Grammar.sequenceOf before).parse s).stack <+: ((Grammar.sequenceOf gs).parse s).stack) := by
  refine ⟨exists_firstFailure hs, ?_⟩
  rintro before g after rfl ⟨-, hfails⟩
  have hbefore : ((Grammar.sequenceOf before).parse s).stack = ((Grammar.sequenceOf before).parser.run s).stack := by
    rw [parse, Parser.parse_of_not_failed _ hs]
  have hstack : ((Grammar.sequenceOf (before ++ g :: after)).parse s).stack =
      (g.parse ((Grammar.sequenceOf before).parser.run s)).stack := by
    rw [parse, Parser.parse_of_not_failed _ hs, run_sequenceOf_append]
    exact Parser.stack_runAll_of_failed hfails
  refine ⟨?_, hstack, fun htidy => ?_, fun htyped => ?_⟩
  · rw [parse, Parser.failed_parse hs, run_sequenceOf_append]
    exact Parser.failed_runAll hfails
  · rw [hstack, hbefore]
    exact parser_tidy g htidy _ hfails
  · obtain ⟨vs, hvs, -⟩ := exists_stack_eq_append htyped ((Grammar.sequenceOf before).parser.run s)
    rw [hstack, hbefore, hvs]
    exact List.prefix_append _ _

/-- The second entry is cut off, and the record of the first one stays. The number in an entry is optional. -/
theorem stack_of_first_failure_entry :
    let shape : Shape := ⟨"Entry", [⟨"name", .string, .required⟩, ⟨"size", .long, .optional⟩]⟩
    let entry := Grammar.record shape (.sequenceOf [.skip "dir ", .word, .optional (.sequenceOf [.space, .long])])
    let s := { State.start "dir a 7dir" with stack := [.char 'y'] }
    ((Grammar.sequenceOf [entry, entry]).parse s).failed = true ∧ entry.Tidy ∧
      ((Grammar.sequenceOf [entry, entry]).parse s).stack = ((Grammar.sequenceOf [entry]).parse s).stack := by
  intro shape entry s
  have hfirst : FirstFailure [entry] entry s := ⟨by decide +kernel, by decide +kernel⟩
  obtain ⟨hfail, -, hstack, -⟩ := (stack_of_first_failure [entry, entry] s rfl).2 [entry] entry [] rfl hfirst
  have htidy : entry.Tidy := tidy_of_isTidy entry (by decide)
  exact ⟨hfail, htidy, hstack htidy⟩

/-- The first letter of the pair stays on the stack, though the pair is the first part and fails. -/
theorem stack_of_broken_pair :
    let pair := Grammar.sequenceOf [.char 'a' true, .char 'b' true]
    let s := State.start "ax"
    pair.wellTyped = true ∧ s.failed = false ∧ FirstFailure [] pair s ∧
      ((Grammar.sequenceOf [pair]).parse s).failed = true ∧
      ((Grammar.sequenceOf [pair]).parse s).stack ≠ ((Grammar.sequenceOf []).parse s).stack := by
  intro pair s
  have hlength : ((Grammar.sequenceOf [pair]).parse s).stack.length = 1 := by decide +kernel
  refine ⟨by decide, rfl, ⟨by decide +kernel, by decide +kernel⟩, by decide +kernel, fun hstack => ?_⟩
  rw [hstack] at hlength
  exact absurd hlength (by decide +kernel)

end Grammar

end StackParser
