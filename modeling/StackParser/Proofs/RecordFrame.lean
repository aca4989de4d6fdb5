import StackParser.Proofs.Assembly
import StackParser.Proofs.FailedSequences

/-!
# What a record is made of

* `Shape.taken` : how many of the latest values a record takes, which depends on the types of what lies on the stack;
* `Shape.assemble_taken` : an assembly replaces as many values by one record with these values and defaults;
* `Grammar.additive` : no record is assembled in the grammar, and nothing in it does more than push;
* `Grammar.stack_of_record` : the stack below stays, with just the record on top, exactly if the grammar has pushed as many
  values as the record takes;
* `Grammar.stack_of_record_below` : a record may take a value that was there before.
-/

namespace StackParser

namespace Shape

variable {shape : Shape} {fields : List Field} {vs : List Value} {filled : List (String × Value)} {s : State}

/-- How many of the latest values an assembly takes: one for each field where their types are those of the fields, and
else one for each mandatory field. -/
def taken (shape : Shape) (stack : List Value) : Nat :=
  if shape.fields.map Field.type <:+ stack.map Value.type then shape.fields.length else shape.mandatory.length

theorem taken_of_fields {stack : List Value} (h : shape.misfit? shape.fields stack = none) :
    shape.taken stack = shape.fields.length :=
  if_pos (misfit?_eq_none_iff_suffix.1 h)

theorem taken_of_mandatory {stack : List Value} (h : shape.misfit? shape.fields stack ≠ none) :
    shape.taken stack = shape.mandatory.length :=
  if_neg fun hsuffix => h (misfit?_eq_none_iff_suffix.2 hsuffix)

/-- Each of the named values is the default of the field of this name, or one of `vs`. -/
def FilledFrom (fields : List Field) (vs : List Value) (filled : List (String × Value)) : Prop :=
  ∀ name v, (name, v) ∈ filled → ∃ f ∈ fields, f.name = name ∧ (v ∈ vs ∨ f.presence = .defaulted v)

theorem filledFrom_fillAll (fields : List Field) (vs : List Value) : FilledFrom fields vs (fillAll fields vs) := by
  intro name v hmem
  obtain ⟨hname, hv⟩ := List.of_mem_zip hmem
  obtain ⟨f, hf, hname⟩ := List.mem_map.1 hname
  exact ⟨f, hf, hname, .inl hv⟩

namespace FilledFrom

/-- With a further field, whose value may be a further one. -/
theorem later {f : Field} {vs' : List Value} (h : FilledFrom fields vs filled) (hvs : vs ⊆ vs') :
    FilledFrom (f :: fields) vs' filled := by
  intro name v hmem
  obtain ⟨g, hg, hname, hv⟩ := h name v hmem
  exact ⟨g, List.mem_cons_of_mem _ hg, hname, hv.imp_left fun hv => hvs hv⟩

theorem cons {f : Field} {w : Value} (h : FilledFrom (f :: fields) vs filled)
    (hw : w ∈ vs ∨ f.presence = .defaulted w) : FilledFrom (f :: fields) vs ((f.name, w) :: filled) := by
  intro name v hmem
  rcases List.mem_cons.1 hmem with heq | hmem
  · obtain ⟨rfl, rfl⟩ := Prod.mk.injEq .. ▸ heq
    exact ⟨f, List.mem_cons_self, rfl, hw⟩
  · exact h name v hmem

end FilledFrom

theorem filledFrom_fillMandatory (fields : List Field) (vs : List Value) :
    FilledFrom fields vs (fillMandatory fields vs) := by
  fun_induction fillMandatory fields vs with
  | case1 vs => exact fun _ _ hmem => nomatch hmem
  | case2 f fields v vs hrequired ih => exact (ih.later (List.subset_cons_self ..)).cons (.inl List.mem_cons_self)
  | case3 f fields hrequired ih => exact ih.later (List.Subset.refl _)
  | case4 f fields vs hoptional ih => exact ih.later (List.Subset.refl _)
  | case5 f fields vs d hdefault ih => exact (ih.later (List.Subset.refl _)).cons (.inr hdefault)

/-- What an assembly puts in the place of what it takes. -/
theorem assemble_taken (h : (shape.assemble s).failed = false) :
    ∃ base used filled, s.stack = base ++ used ∧ used.length = shape.taken s.stack ∧
      (shape.assemble s).stack = base ++ [.record shape.name filled] ∧ FilledFrom shape.fields used filled := by
  have hs : s.failed = false := by
    by_contra hs
    rw [Parser.failed_assemble (Bool.of_not_eq_false hs)] at h
    exact Bool.false_ne_true h.symm
  rcases assemble_cases shape hs with
    ⟨base, used, hstack, htypes, heq⟩ | ⟨base, used, hmisfit, hstack, htypes, heq⟩ | ⟨e, -, heq⟩
  · refine ⟨base, used, _, hstack, ?_, congrArg State.stack heq, filledFrom_fillAll _ _⟩
    rw [taken_of_fields (misfit?_eq_none_iff.2 ⟨base, used, hstack, htypes⟩)]
    simpa using congrArg List.length htypes
  · refine ⟨base, used, _, hstack, ?_, congrArg State.stack heq, filledFrom_fillMandatory _ _⟩
    rw [taken_of_mandatory hmisfit]
    simpa using congrArg List.length htypes
  · rw [heq] at h
    exact absurd h.symm Bool.false_ne_true

end Shape

namespace Grammar

mutual

/-- Whether no record is assembled in `g` and no parser in it does more than push. -/
def additive : Grammar → Bool
  | .sequenceOf gs | .oneOf gs => allAdditive gs
  | .optional g | .group g | .list g | .times _ g | .oneOrMore g | .tillEnd g => g.additive
  | .record .. | .action .. | .custom .. => false
  | _ => true

def allAdditive : List Grammar → Bool
  | [] => true
  | g :: gs => g.additive && allAdditive gs

end

mutual

theorem wellTyped_of_additive : ∀ g : Grammar, g.additive = true → g.wellTyped = true
  | .sequenceOf gs, h | .oneOf gs, h => allWellTyped_of_allAdditive gs h
  | .optional g, h | .group g, h | .list g, h | .times _ g, h | .oneOrMore g, h | .tillEnd g, h =>
    wellTyped_of_additive g h
  | .record .., h | .action .., h | .custom .., h => nomatch h
  | .char .., _ | .literal .., _ | .letter, _ | .word, _ | .number _, _ | .spaces .., _ | .lineEnd, _
  | .stringMap _, _ | .keyword .., _ => rfl

theorem allWellTyped_of_allAdditive : ∀ gs : List Grammar, allAdditive gs = true → allWellTyped gs = true
  | [], _ => rfl
  | g :: gs, h => by
    obtain ⟨hg, hgs⟩ := Bool.and_eq_true_iff.1 h
    exact Bool.and_eq_true_iff.2 ⟨wellTyped_of_additive g hg, allWellTyped_of_allAdditive gs hgs⟩

end

/-- A record that is made of what an additive grammar leaves takes the place of as many of the latest values as
`Shape.taken` says, and its fields come from these and from defaults. The stack below stays as it was, with just the
record on top, exactly if the grammar has pushed this number of values. -/
theorem stack_of_record (shape : Shape) (g : Grammar) (s : State) (hg : g.additive = true)
    (h : ((Grammar.record shape g).parse s).failed = false) :
    ∃ vs, (g.parse s).stack = s.stack ++ vs ∧
      (∃ base used filled, s.stack ++ vs = base ++ used ∧ used.length = shape.taken (s.stack ++ vs) ∧
        ((Grammar.record shape g).parse s).stack = base ++ [.record shape.name filled] ∧
        Shape.FilledFrom shape.fields used filled) ∧
      ((∃ filled, ((Grammar.record shape g).parse s).stack = s.stack ++ [.record shape.name filled] ∧
          Shape.FilledFrom shape.fields vs filled) ↔
        vs.length = shape.taken (s.stack ++ vs)) := by
  obtain ⟨vs, hstack, -⟩ := exists_stack_eq_append (wellTyped_of_additive g hg) s
  have hs := Parser.not_failed_of_parse h
  have hrun : ((Grammar.record shape g).parse s).stack = (shape.assemble (g.parse s)).stack := by
    rw [parse, Parser.parse_of_not_failed _ hs]
    rfl
  have hassembled : (shape.assemble (g.parse s)).failed = false := (Parser.failed_parse hs).symm.trans h
  rw [hrun]
  obtain ⟨base, used, filled, hsplit, hused, hresult, hfilled⟩ := Shape.assemble_taken hassembled
  rw [hstack] at hsplit hused
  refine ⟨vs, hstack, ⟨base, used, filled, hsplit, hused, hresult, hfilled⟩, ?_, fun hlength => ?_⟩
  · rintro ⟨filled', hresult', -⟩
    have hbase : base.length = s.stack.length := by
      have hlengths := congrArg List.length (hresult.symm.trans hresult')
      simpa using hlengths
    have hvs : vs.length = used.length := by
      have hlengths := congrArg List.length hsplit
      rw [List.length_append, List.length_append] at hlengths
      omega
    exact hvs.trans hused
  · obtain ⟨rfl, rfl⟩ := List.append_inj' hsplit (hlength.trans hused.symm)
    exact ⟨filled, hresult, hfilled⟩

/-- The steps are left out, and of the two numbers below neither is taken for them. -/
theorem stack_of_record_move :
    let move : Shape := ⟨"Move", [⟨"direction", .char, .required⟩, ⟨"steps", .int, .defaulted (.int 1)⟩]⟩
    let s := { State.start "U" with stack := [.char 'R', .int 4] }
    ∃ filled, ((Grammar.record move .letter).parse s).stack = s.stack ++ [.record "Move" filled] ∧
      Shape.FilledFrom move.fields [.char 'U'] filled := by
  intro move s
  obtain ⟨vs, hstack, -, hiff⟩ := stack_of_record move .letter s rfl (by decide +kernel)
  have hpushed : (letter.parse s).stack = s.stack ++ [.char 'U'] := by rfl
  obtain rfl : vs = [.char 'U'] := List.append_cancel_left (hstack.symm.trans hpushed)
  exact hiff.2 (by decide +kernel)

/-- The text below becomes the first field, though the word that was read is enough for the mandatory one. -/
theorem stack_of_record_below :
    let pair : Shape := ⟨"Pair", [⟨"a", .string, .required⟩, ⟨"b", .string, .optional⟩]⟩
    let s := { State.start "y" with stack := [.str "x"] }
    Grammar.word.additive = true ∧ s.failed = false ∧ ((Grammar.record pair .word).parse s).failed = false ∧
      ¬∃ filled, ((Grammar.record pair .word).parse s).stack = s.stack ++ [.record "Pair" filled] := by
  intro pair s
  refine ⟨rfl, rfl, by decide +kernel, ?_⟩
  rintro ⟨filled, hstack⟩
  have hlength : ((Grammar.record pair .word).parse s).stack.length = 1 := by decide +kernel
  rw [hstack, List.length_append] at hlength
  exact absurd hlength (by simp [s])

end Grammar

end StackParser
