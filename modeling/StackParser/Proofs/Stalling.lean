import StackParser.Proofs.FailedSequences

/-!
# Repetitions that cannot stall

A repetition to the end of the input fails with an error of its own if an application succeeds where it began.

* `ParseError.Unstalled e`, `State.Unstalled s` : no stall is the error, or an error inside it;
* `Parser.NeverStalls p` : `p` brings up no error of a stall. There is one rule for each parser and combinator. A repetition
  to the end has to consume with each application;
* `Grammar.stallFree` : a tree without repetitions to the end and without parsers that do more than push;
* `Grammar.progress_of_consuming` : a consuming grammar moves on with each success, so that its repetition does not stall.
-/

namespace StackParser

/-- The error is none of a stall, and no error inside it is. -/
def ParseError.Unstalled (e : ParseError) : Prop := e.Only fun d => d.category ≠ .progress

/-- If the state has failed, it is not for a stall. -/
def State.Unstalled (s : State) : Prop := ∀ e, s.error = some e → e.Unstalled

theorem ParseError.mismatches_unstalled : Mismatches fun d => d.category ≠ .progress where
  mismatch _ _ := nofun
  notANumber _ := nofun
  invalidNumber _ _ := nofun
  exhausted _ := nofun

theorem ParseError.isLeaf_of_assembly {e : ParseError} (h : e.category = .assembly) : e.isLeaf = true := by
  cases e with
  | arity | fieldType => rfl
  | _ => exact nomatch h

namespace Shape

variable {shape : Shape} {fields : List Field} {vs : List Value} {e : ParseError}

theorem category_of_mistyped? (h : shape.mistyped? fields vs = some e) : e.category = .assembly := by
  fun_induction mistyped? shape fields vs with
  | case1 f fs v vs _ ih => exact ih h
  | case2 f fs v vs _ => exact Option.some.inj h ▸ rfl
  | case3 fields vs _ => exact nomatch h

/-- Values that do not fit the fields are an error of assembly. -/
theorem category_of_misfit? (h : shape.misfit? fields vs = some e) : e.category = .assembly := by
  unfold misfit? at h
  split at h
  · exact Option.some.inj h ▸ rfl
  · exact category_of_mistyped? h

end Shape

namespace State.Unstalled

variable {s : State}

theorem of_not_failed (hs : s.failed = false) : s.Unstalled := by
  intro e he
  rw [failed_eq_false_iff.1 hs] at he
  exact nomatch he

theorem fail {e : ParseError} (he : e.Unstalled) : (s.fail e).Unstalled := fun _ hd => Option.some.inj hd ▸ he

theorem failLeaf {e : ParseError} (hleaf : e.isLeaf = true) (he : e.category ≠ .progress) : (s.fail e).Unstalled :=
  fail (ParseError.only_of_isLeaf hleaf he)

end State.Unstalled

namespace Parser

/-- No error that `p` brings up is one of a stall. -/
def NeverStalls (p : Parser) : Prop := ∀ s : State, s.Unstalled → (p.parse s).Unstalled

namespace NeverStalls

variable {p : Parser} {ps : List Parser} {s : State}

theorem of_not_failed (h : ∀ s : State, s.failed = false → (p.parse s).Unstalled) : p.NeverStalls := by
  intro s hs
  cases hfail : s.failed with
  | true =>
    rw [p.parse_of_failed hfail]
    exact hs
  | false => exact h s hfail

theorem of_run (h : ∀ s : State, s.failed = false → (p.run s).Unstalled) : p.NeverStalls := of_not_failed fun s hs => by
  rw [p.parse_of_not_failed hs]
  exact h s hs

theorem of_total (h : p.Total) : p.NeverStalls := of_not_failed fun s hs => .of_not_failed (h s hs)

/-- The error of what is decided by the text that is left does not depend on the warning, which may be one of a stall. -/
theorem of_local {W : Layer} (hlocal : p.Local) (h : p.Pushes (fun d => d.category ≠ .progress) W) :
    p.NeverStalls := by
  refine of_not_failed fun s hs => ?_
  let t : State := { s with warning := none }
  have hnone : ∀ d, t.warning = some d → d.Unstalled := by simp [t]
  have hsound := h.sound t.stack t (.start hs hnone)
  have herror : (p.parse t).error = (p.parse s).error := hlocal.error_eq hs hs rfl
  exact fun e he => hsound.error e (herror.trans he)

/-! ## Combinators -/

theorem runAll (hps : ∀ p ∈ ps, p.NeverStalls) (hs : s.Unstalled) : (Parser.runAll ps s).Unstalled := by
  induction ps generalizing s with
  | nil => exact hs
  | cons p ps ih =>
    obtain ⟨hp, hps⟩ := List.forall_mem_cons.1 hps
    exact ih hps (hp s hs)

theorem sequenceOf (hps : ∀ p ∈ ps, p.NeverStalls) : (Parser.sequenceOf ps).NeverStalls :=
  of_run fun _ hs => runAll hps (.of_not_failed hs)

theorem runTimes (hp : p.NeverStalls) (n : Nat) (hs : s.Unstalled) : (Parser.runTimes p n s).Unstalled := by
  induction n generalizing s with
  | zero => exact hs
  | succ n ih =>
    unfold Parser.runTimes
    dsimp only
    split
    · exact hp s hs
    · exact ih (hp s hs)

theorem times (n : Nat) (hp : p.NeverStalls) : (Parser.times n p).NeverStalls :=
  of_run fun _ hs => hp.runTimes n (.of_not_failed hs)

theorem oneOf (hps : ∀ p ∈ ps, p.NeverStalls) : (Parser.oneOf ps).NeverStalls := by
  refine of_run fun s hs => ?_
  unfold Parser.oneOf
  dsimp only
  rw [choose_trials]
  split
  · rename_i p hp
    have hmem : p ∈ ps.filter fun p => !(p.parse s).failed := by simp [hp]
    exact hps p (List.mem_filter.1 hmem).1 s (.of_not_failed hs)
  · refine .fail (ParseError.only_exhausted (ParseError.mismatches_unstalled.exhausted _) fun f hf => ?_)
    obtain ⟨p, hp, hmap⟩ := List.mem_filterMap.1 hf
    obtain ⟨e, he, rfl⟩ := Option.map_eq_some_iff.1 hmap
    exact hps p hp s (.of_not_failed hs) e he
  · exact .failLeaf rfl nofun

theorem collect (hp : p.NeverStalls) (keepEmpty : Bool) (hs : s.failed = false) :
    (Parser.collect p keepEmpty s).Unstalled := by
  have hnext := hp s (.of_not_failed hs)
  unfold Parser.collect
  dsimp only
  split
  · exact hnext
  · split
    · exact hnext
    · exact hnext

theorem group (hp : p.NeverStalls) : (Parser.group p).NeverStalls := of_run fun _ => hp.collect false

theorem list (hp : p.NeverStalls) : (Parser.list p).NeverStalls := of_run fun _ => hp.collect true

theorem record (shape : Shape) (hp : p.NeverStalls) : (Parser.record shape p).NeverStalls := by
  refine of_run fun s hs => ?_
  change (shape.assemble (p.parse s)).Unstalled
  cases hnext : (p.parse s).failed with
  | true =>
    rw [Shape.assemble, if_pos hnext]
    exact hp s (.of_not_failed hs)
  | false =>
    rcases shape.assemble_cases hnext with ⟨base, vs, -, -, heq⟩ | ⟨base, vs, -, -, -, heq⟩ | ⟨e, hmisfit, heq⟩
    · rw [heq]
      exact .of_not_failed hnext
    · rw [heq]
      exact .of_not_failed hnext
    · rw [heq]
      have hassembly := Shape.category_of_misfit? hmisfit
      exact .failLeaf (ParseError.isLeaf_of_assembly hassembly) (by simp [hassembly])

/-- Where each success moves on, a repetition to the end fails only with an error of its part. -/
theorem runTillEnd (hp : p.NeverStalls) (hconsumes : p.Consumes) (hs : s.failed = false) :
    (Parser.runTillEnd p s).Unstalled := by
  fun_induction Parser.runTillEnd p s with
  | case1 s _ => exact .of_not_failed hs
  | case2 s _ next _ => exact hp s (.of_not_failed hs)
  | case3 s _ next hnext _ ih => exact ih (Bool.of_not_eq_true hnext)
  | case4 s _ next hnext hstalled => exact absurd (hconsumes s (Bool.of_not_eq_true hnext)) hstalled

theorem tillEnd (hp : p.NeverStalls) (hconsumes : p.Consumes) : (Parser.tillEnd p).NeverStalls :=
  of_run fun _ => hp.runTillEnd hconsumes

end NeverStalls

end Parser

namespace Grammar

mutual

/-- Whether there is no repetition to the end inside, and no parser that does more than push. -/
def stallFree : Grammar → Bool
  | .sequenceOf gs | .oneOf gs => allStallFree gs
  | .optional g | .group g | .list g | .times _ g | .oneOrMore g | .record _ g => g.stallFree
  | .tillEnd _ | .action .. | .custom .. => false
  | _ => true

def allStallFree : List Grammar → Bool
  | [] => true
  | g :: gs => g.stallFree && allStallFree gs

end

open StackParser.Parser (Local Pushes Total)
open ParseError (mismatches_unstalled)

mutual

theorem neverStalls : ∀ g : Grammar, g.stallFree = true → g.parser.NeverStalls
  | .char c captured, _ => .of_local (Local.char c captured) (Pushes.char mismatches_unstalled c captured)
  | .literal text captured, _ => .of_local (Local.literal text captured) (Pushes.literal mismatches_unstalled text captured)
  | .letter, _ => .of_local Local.letter (Pushes.letter mismatches_unstalled)
  | .word, _ => .of_local Local.word (Pushes.word mismatches_unstalled)
  | .number kind, _ => .of_local (Local.number kind) (Pushes.number mismatches_unstalled kind)
  | .spaces n captured, _ => .of_local (Local.spaces n captured) (Pushes.spaces mismatches_unstalled n captured)
  | .lineEnd, _ => .of_local Local.lineEnd (Pushes.lineEnd mismatches_unstalled)
  | .stringMap table, _ => .of_local (Local.stringMap table) (Pushes.stringMap mismatches_unstalled (.inl nofun))
  | .keyword family tokens, _ =>
    .of_local (Local.keyword family tokens) (Pushes.keyword mismatches_unstalled family (.inl nofun))
  | .sequenceOf gs, h => .sequenceOf (all_neverStall gs h)
  | .oneOf gs, h => .oneOf (all_neverStall gs h)
  | .optional _, _ => .of_total (Total.optional _)
  | .oneOrMore _, _ => .of_total (Total.oneOrMore _)
  | .group g, h => (neverStalls g h).group
  | .list g, h => (neverStalls g h).list
  | .times n g, h => (neverStalls g h).times n
  | .record shape g, h => (neverStalls g h).record shape

theorem all_neverStall : ∀ gs : List Grammar, allStallFree gs = true → ∀ p ∈ parsers gs, p.NeverStalls
  | g :: gs, h, p, hp => by
    obtain ⟨hg, hgs⟩ := Bool.and_eq_true_iff.1 h
    rcases List.mem_cons.1 hp with rfl | hp
    · exact neverStalls g hg
    · exact all_neverStall gs hgs p hp

end

/-- A success of a consuming grammar ends further on than it began. If moreover there is no repetition to the end in the
grammar, then its own repetition to the end does not stall: no error of it is one of a stall, or has one inside. -/
theorem progress_of_consuming (g : Grammar) (s : State) (hg : g.consuming = true) (hs : s.failed = false) :
    ((g.parse s).failed = false → s.cursor.index < (g.parse s).cursor.index) ∧
    (g.stallFree = true → ∀ e, ((tillEnd g).parse s).error = some e → ∀ w, ¬ (ParseError.noProgress w).Within e) := by
  have hconsumes := consumes g hg
  refine ⟨fun hsuccess => ?_, fun hfree e he w hw => ?_⟩
  · have hreach : s.cursor.Reaches (g.parse s).cursor := g.forward s
    have hle := hreach.index_le
    have hne := hreach.index_ne_iff.2 (hconsumes s hsuccess)
    omega
  · have hnever : (tillEnd g).parser.NeverStalls := (neverStalls g hfree).tillEnd hconsumes
    exact hnever s (.of_not_failed hs) e he _ hw rfl

/-- An item begins with an optional number and may be one of two forms, and each form has one part that reads. The third
item has none of them, and the error tells both failures. -/
theorem progress_of_consuming_items :
    let form (c : Char) := sequenceOf [optional integer, group (times 2 (char c false)), oneOrMore (spaces 0 true)]
    let item := oneOf [form 'a', form 'b']
    let s := State.start "12aabbcc"
    item.consuming = true ∧ s.failed = false ∧ item.stallFree = true ∧
      ((item.parse s).failed = false ∧ s.cursor.index < (item.parse s).cursor.index) ∧
      ∃ e, ((tillEnd item).parse s).error = some e ∧ e.category = .alternation ∧
        ∀ w, ¬ (ParseError.noProgress w).Within e := by
  intro form item s
  have hsuccess : (item.parse s).failed = false := by decide +kernel
  have hfail : (((tillEnd item).parse s).error.map ParseError.category) = some .alternation := by decide +kernel
  obtain ⟨e, he, hcategory⟩ := Option.map_eq_some_iff.1 hfail
  obtain ⟨hmoved, hstall⟩ := progress_of_consuming item s rfl rfl
  exact ⟨rfl, rfl, rfl, ⟨hsuccess, hmoved hsuccess⟩, e, he, hcategory, hstall rfl e he⟩

end Grammar

end StackParser
