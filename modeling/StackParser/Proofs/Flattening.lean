import StackParser.Proofs.Surroundings

/-!
# Sequences within sequences

* `Nest` : a tree of sequences and repetitions over parsers of any kind, with its `Nest.parser` and its `Nest.leaves` from left
  to right, those of a repetition as often as it repeats them;
* `State.unlabelled` : a state but for the label that the parser before has left on it;
* `Parser.IgnoresLabel p` : `p` does not look at that label. No grammar does (`Grammar.ignoresLabel`);
* `Parser.SameRun ps qs` : the parsers `ps` one after the other do what the parsers `qs` do. A repetition is a sequence of copies
  (`unlabelled_times`), and two such lists can be put behind two others (`SameRun.append`);
* `Nest.parse_flattened` : a tree does what the sequence of its leaves does, if these do not look at the label;
* `Nest.stack_of_spied_label` : else it may not.
-/

namespace StackParser

/-! ## Labels -/

def State.unlabelled (s : State) : State := { s with name := "" }

theorem State.eq_of_unlabelled {s t : State} (h : s.unlabelled = t.unlabelled) (hname : s.name = t.name) : s = t := by
  cases s
  cases t
  simp only [unlabelled, mk.injEq] at h ⊢
  exact ⟨h.1, h.2.1, h.2.2.1, hname, h.2.2.2.2⟩

namespace Parser

variable {p : Parser} {ps qs ps' qs' : List Parser} {s t : State}

theorem unlabelled_parse_of_failed (hs : s.failed = true) : (p.parse s).unlabelled = s.unlabelled := by
  rw [p.parse_of_failed hs]
  rfl

theorem unlabelled_parse_of_not_failed (hs : s.failed = false) : (p.parse s).unlabelled = (p.run s).unlabelled := by
  rw [p.parse_of_not_failed hs]
  rfl

/-- What `p` does is the same under whatever label it begins. -/
def IgnoresLabel (p : Parser) : Prop := ∀ (s : State) (name : String), p.parse { s with name := name } = p.parse s

theorem IgnoresLabel.parse_eq (hp : p.IgnoresLabel) (h : s.unlabelled = t.unlabelled) : p.parse s = p.parse t := by
  rw [← hp s "", ← hp t ""]
  exact congrArg p.parse h

/-! ## One after the other -/

theorem runAll_append (ps qs : List Parser) (s : State) : runAll (ps ++ qs) s = runAll qs (runAll ps s) :=
  List.foldl_append

theorem unlabelled_runAll_of_failed (hs : s.failed = true) : (runAll ps s).unlabelled = s.unlabelled := by
  obtain ⟨_, h⟩ : ∃ name, runAll ps s = { s with name := name } := runAll_of_failed hs
  rw [h]
  rfl

/-- Parsers that do not look at the label go on alike. -/
theorem unlabelled_runAll_congr (hps : ∀ p ∈ ps, p.IgnoresLabel) (h : s.unlabelled = t.unlabelled) :
    (runAll ps s).unlabelled = (runAll ps t).unlabelled := by
  cases ps with
  | nil => exact h
  | cons p ps =>
    have hfirst := (hps p List.mem_cons_self).parse_eq h
    exact congrArg (fun u => (runAll ps u).unlabelled) hfirst

theorem unlabelled_sequenceOf (ps : List Parser) (s : State) :
    ((sequenceOf ps).parse s).unlabelled = (runAll ps s).unlabelled := by
  cases hs : s.failed with
  | true => rw [unlabelled_parse_of_failed hs, unlabelled_runAll_of_failed hs]
  | false => exact unlabelled_parse_of_not_failed hs

/-- A repetition that stops at a failure comes to the state that further copies would let through. -/
theorem unlabelled_runTimes (p : Parser) (n : Nat) (s : State) :
    (runTimes p n s).unlabelled = (runAll (List.replicate n p) s).unlabelled := by
  induction n generalizing s with
  | zero => rfl
  | succ n ih =>
    unfold runTimes
    dsimp only
    split
    · rename_i hfailed
      exact (unlabelled_runAll_of_failed hfailed).symm
    · exact ih (p.parse s)

theorem unlabelled_times (n : Nat) (p : Parser) (s : State) :
    ((times n p).parse s).unlabelled = (runAll (List.replicate n p) s).unlabelled := by
  cases hs : s.failed with
  | true => rw [unlabelled_parse_of_failed hs, unlabelled_runAll_of_failed hs]
  | false => exact (unlabelled_parse_of_not_failed hs).trans (unlabelled_runTimes p n s)

/-- One after the other, `ps` do what `qs` do. -/
def SameRun (ps qs : List Parser) : Prop := ∀ s : State, (runAll ps s).unlabelled = (runAll qs s).unlabelled

namespace SameRun

theorem append (h : SameRun ps qs) (h' : SameRun ps' qs') (hps' : ∀ p ∈ ps', p.IgnoresLabel) :
    SameRun (ps ++ ps') (qs ++ qs') := by
  intro s
  rw [runAll_append, runAll_append]
  calc (runAll ps' (runAll ps s)).unlabelled
      = (runAll ps' (runAll qs s)).unlabelled := unlabelled_runAll_congr hps' (h s)
    _ = (runAll qs' (runAll qs s)).unlabelled := h' _

/-- A list of parsers that do what `p` does, any number of times. -/
theorem replicate (h : SameRun ps [p]) (n : Nat) (hps : ∀ q ∈ ps, q.IgnoresLabel) :
    SameRun (List.replicate n ps).flatten (List.replicate n p) := by
  induction n with
  | zero => exact fun _ => rfl
  | succ n ih =>
    have hcopies : ∀ q ∈ (List.replicate n ps).flatten, q.IgnoresLabel := by
      intro q hq
      obtain ⟨copy, hcopy, hq⟩ := List.mem_flatten.1 hq
      exact hps q (List.eq_of_mem_replicate hcopy ▸ hq)
    rw [List.replicate_succ, List.flatten_cons, List.replicate_succ]
    show SameRun (ps ++ (List.replicate n ps).flatten) ([p] ++ List.replicate n p)
    exact h.append ih hcopies

end SameRun

end Parser

/-! ## Grammars -/

/-- No grammar looks at the label: it is part of what surrounds a parse. -/
theorem Grammar.ignoresLabel (g : Grammar) : g.parser.IgnoresLabel := by
  intro s name
  let bare : Surroundings := ⟨[], [], none⟩
  have hbare : bare.Bare := ⟨rfl, rfl⟩
  have hstart : bare.Around s { s with name := name } := ⟨by rw [List.append_nil], rfl, rfl, rfl, rfl⟩
  have hend : bare.Around (g.parser.parse s) (g.parser.parse { s with name := name }) := g.blind (.inl hbare) _ _ hstart
  have hnothing : (g.parser.parse s).behind [] g.parser.label = g.parser.parse s := by
    unfold State.behind
    rw [List.append_nil]
    rfl
  exact (hend.eq_behind hbare).trans hnothing

/-! ## Trees -/

/-- Sequences and repetitions, one within the other, over parsers of any kind. -/
inductive Nest where
  | leaf (p : Parser)
  | sequenceOf (ts : List Nest)
  | times (n : Nat) (t : Nest)

namespace Nest

mutual

def parser : Nest → Parser
  | .leaf p => p
  | .sequenceOf ts => .sequenceOf (parsers ts)
  | .times n t => .times n t.parser

def parsers : List Nest → List Parser
  | [] => []
  | t :: ts => t.parser :: parsers ts

end

mutual

def leaves : Nest → List Parser
  | .leaf p => [p]
  | .sequenceOf ts => allLeaves ts
  | .times n t => (List.replicate n t.leaves).flatten

def allLeaves : List Nest → List Parser
  | [] => []
  | t :: ts => t.leaves ++ allLeaves ts

end

mutual

theorem sameRun_leaves : ∀ t : Nest, (∀ p ∈ t.leaves, p.IgnoresLabel) → Parser.SameRun t.leaves [t.parser]
  | .leaf _, _ => fun _ => rfl
  | .sequenceOf ts, h => fun s =>
    (sameRun_allLeaves ts h s).trans (Parser.unlabelled_sequenceOf (parsers ts) s).symm
  | .times 0 t, _ => fun s => (Parser.unlabelled_times 0 t.parser s).symm
  | .times (n + 1) t, h => by
    have ht : ∀ p ∈ t.leaves, p.IgnoresLabel := fun p hp =>
      h p (List.mem_flatten.2 ⟨t.leaves, List.mem_replicate.2 ⟨n.succ_ne_zero, rfl⟩, hp⟩)
    intro s
    have hcopies := (sameRun_leaves t ht).replicate (n + 1) ht s
    exact hcopies.trans (Parser.unlabelled_times (n + 1) t.parser s).symm

theorem sameRun_allLeaves : ∀ ts : List Nest, (∀ p ∈ allLeaves ts, p.IgnoresLabel) →
    Parser.SameRun (allLeaves ts) (parsers ts)
  | [], _ => fun _ => rfl
  | t :: ts, h => by
    obtain ⟨ht, hts⟩ := List.forall_mem_append.1 h
    show Parser.SameRun (t.leaves ++ allLeaves ts) ([t.parser] ++ parsers ts)
    exact (sameRun_leaves t ht).append (sameRun_allLeaves ts hts) hts

end

/-- **A tree does what the sequence of its leaves does**, whether it succeeds or fails at one of them: it comes to the same
place, with the same stack and context, the same error and the same warning. Only the label is that of the other parser. The
leaves are any parsers that do not look at the label left by the one before, from which the nesting could be told. All
grammars are such parsers. -/
theorem parse_flattened :
    (∀ g : Grammar, g.parser.IgnoresLabel) ∧
    ∀ t : Nest, (∀ p ∈ t.leaves, p.IgnoresLabel) → ∀ s : State,
      (Parser.sequenceOf t.leaves).parse s =
        { t.parser.parse s with name := (Parser.sequenceOf t.leaves).label } := by
  refine ⟨Grammar.ignoresLabel, fun t ht s => State.eq_of_unlabelled ?_ rfl⟩
  calc ((Parser.sequenceOf t.leaves).parse s).unlabelled
      = (Parser.runAll t.leaves s).unlabelled := Parser.unlabelled_sequenceOf t.leaves s
    _ = (t.parser.parse s).unlabelled := sameRun_leaves t ht s

/-- A letter and twice a number and a space. The second space is missing; the sequence without parts and the repetition that
repeats nothing have no leaves. -/
theorem parse_flattened_spaces :
    let pair := sequenceOf [leaf Grammar.integer.parser, sequenceOf [], leaf Grammar.space.parser]
    let t := sequenceOf [leaf Grammar.letter.parser, times 2 pair, times 0 (leaf Grammar.word.parser)]
    let s := State.start "a1 2x"
    (∀ p ∈ t.leaves, p.IgnoresLabel) ∧ t.leaves.length = 5 ∧
      (t.parser.parse s).error = some (.mismatch "' '" "x") ∧ (t.parser.parse s).cursor.index = 4 ∧
      (t.parser.parse s).stack.map Value.type = [.char, .int, .int] ∧
      (Parser.sequenceOf t.leaves).parse s =
        { t.parser.parse s with name := (Parser.sequenceOf t.leaves).label } := by
  intro pair t s
  have hleaves : ∀ p ∈ t.leaves, p.IgnoresLabel := by
    simp [t, pair, leaves, allLeaves, List.replicate, Grammar.ignoresLabel]
  exact ⟨hleaves, rfl, by decide +kernel, by decide +kernel, by decide +kernel, parse_flattened.2 t hleaves s⟩

/-- A leaf that pushes the label it finds tells the tree from the sequence of its leaves. -/
theorem stack_of_spied_label :
    let spy : Parser := ⟨"spy()", fun s => s.push (.str s.name)⟩
    let t := sequenceOf [sequenceOf [leaf Grammar.letter.parser], leaf spy]
    let s := State.start "a"
    t.leaves = [Grammar.letter.parser, spy] ∧ (t.parser.parse s).failed = false ∧
      ((Parser.sequenceOf t.leaves).parse s).failed = false ∧
      (t.parser.parse s).stack ≠ ((Parser.sequenceOf t.leaves).parse s).stack := by
  intro spy t s
  have htree : (t.parser.parse s).stack.getLast?.bind Value.str? = some "sequence_of(letter())" := by decide +kernel
  have hleaves : ((Parser.sequenceOf t.leaves).parse s).stack.getLast?.bind Value.str? = some "letter()" := by decide +kernel
  refine ⟨rfl, by decide +kernel, by decide +kernel, fun hstack => ?_⟩
  rw [hstack, hleaves] at htree
  exact absurd htree (by decide)

end Nest

end StackParser
