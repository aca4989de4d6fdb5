import StackParser.Shape

/-!
# When a record is assembled

* `Shape.misfit?_eq_none_iff` : values fit fields exactly if the latest values have the types of the fields, in order;
* `Shape.assemble_of_fields` : a stack that ends in values for all fields gets the full record in their place;
* `Shape.assemble_of_mandatory` : one that ends in values for the mandatory fields only gets a record with defaults;
* `Shape.assemble_cases` : nothing else happens but a failure that leaves the stack alone.
-/

namespace StackParser

theorem ValueType.accepts_iff {t : ValueType} {v : Value} : t.accepts v = true ↔ v.type = t := beq_iff_eq

namespace Shape

variable {shape : Shape} {fields : List Field} {base vs : List Value} {s : State}

theorem mistyped?_eq_none_iff (h : vs.length = fields.length) :
    shape.mistyped? fields vs = none ↔ vs.map Value.type = fields.map Field.type := by
  induction fields generalizing vs with
  | nil =>
    rw [List.length_nil, List.length_eq_zero_iff] at h
    subst h
    exact ⟨fun _ => rfl, fun _ => rfl⟩
  | cons f fields ih =>
    obtain ⟨v, vs, rfl⟩ := List.exists_cons_of_length_eq_add_one h
    have htail : vs.length = fields.length := by simpa using h
    rw [mistyped?, List.map_cons, List.map_cons, List.cons.injEq]
    by_cases htype : v.type = f.type
    · rw [if_pos (ValueType.accepts_iff.2 htype), ih htail]
      exact ⟨fun hrest => ⟨htype, hrest⟩, fun hboth => hboth.2⟩
    · rw [if_neg fun haccepts => htype (ValueType.accepts_iff.1 haccepts)]
      exact ⟨fun hsome => (nomatch hsome), fun hboth => absurd hboth.1 htype⟩

/-- The values on top are those that are compared. -/
theorem misfit?_append (h : vs.length = fields.length) :
    shape.misfit? fields (base ++ vs) = shape.mistyped? fields vs := by
  rw [misfit?, if_neg (by rw [List.length_append]; omega), List.length_append, ← h, Nat.add_sub_cancel,
    List.drop_left]

theorem misfit?_eq_none_iff {stack : List Value} : shape.misfit? fields stack = none ↔
    ∃ base vs, stack = base ++ vs ∧ vs.map Value.type = fields.map Field.type := by
  constructor
  · intro h
    have hlength : fields.length ≤ stack.length := by
      refine Nat.le_of_not_lt fun hlt => ?_
      rw [misfit?, if_pos hlt] at h
      exact nomatch h
    have hsplit := (List.take_append_drop (stack.length - fields.length) stack).symm
    have hdrop : (stack.drop (stack.length - fields.length)).length = fields.length := by
      rw [List.length_drop]
      omega
    rw [misfit?, if_neg (Nat.not_lt_of_le hlength)] at h
    exact ⟨_, _, hsplit, (mistyped?_eq_none_iff hdrop).1 h⟩
  · rintro ⟨base, vs, rfl, htypes⟩
    have hlength : vs.length = fields.length := by simpa using congrArg List.length htypes
    rw [misfit?_append hlength]
    exact (mistyped?_eq_none_iff hlength).2 htypes

theorem misfit?_eq_none_iff_suffix {stack : List Value} :
    shape.misfit? fields stack = none ↔ fields.map Field.type <:+ stack.map Value.type := by
  rw [misfit?_eq_none_iff, List.suffix_map_iff]
  constructor
  · rintro ⟨base, vs, rfl, htypes⟩
    exact ⟨vs, List.suffix_append _ _, htypes.symm⟩
  · rintro ⟨vs, ⟨base, rfl⟩, htypes⟩
    exact ⟨base, vs, rfl, htypes.symm⟩

theorem assemble_of_fields (hs : s.failed = false) (hstack : s.stack = base ++ vs)
    (htypes : vs.map Value.type = shape.fields.map Field.type) :
    shape.assemble s = { s with stack := base ++ [.record shape.name (fillAll shape.fields vs)] } := by
  have hlength : vs.length = shape.fields.length := by simpa using congrArg List.length htypes
  have hfit : shape.misfit? shape.fields s.stack = none := misfit?_eq_none_iff.2 ⟨base, vs, hstack, htypes⟩
  rw [assemble, if_neg (ne_true_of_eq_false hs), hfit, ← hlength]
  exact s.collectLast_append base vs _ hstack

theorem assemble_of_mandatory (hs : s.failed = false) (hstack : s.stack = base ++ vs)
    (hmisfit : shape.misfit? shape.fields s.stack ≠ none)
    (hfewer : shape.mandatory.length ≠ shape.fields.length)
    (htypes : vs.map Value.type = shape.mandatory.map Field.type) :
    shape.assemble s = { s with stack := base ++ [.record shape.name (fillMandatory shape.fields vs)] } := by
  have hlength : vs.length = shape.mandatory.length := by simpa using congrArg List.length htypes
  have hfit : shape.misfit? shape.mandatory s.stack = none := misfit?_eq_none_iff.2 ⟨base, vs, hstack, htypes⟩
  obtain ⟨e, he⟩ := Option.ne_none_iff_exists'.1 hmisfit
  rw [assemble, if_neg (ne_true_of_eq_false hs), he]
  dsimp only
  rw [if_neg hfewer, hfit, ← hlength]
  exact s.collectLast_append base vs _ hstack

/-- All that an assembly does: it makes a record of values for all fields, or else of values for the mandatory ones, or
it fails with the reason why there are no values for all fields. -/
theorem assemble_cases (shape : Shape) (hs : s.failed = false) :
    (∃ base vs, s.stack = base ++ vs ∧ vs.map Value.type = shape.fields.map Field.type ∧
      shape.assemble s = { s with stack := base ++ [.record shape.name (fillAll shape.fields vs)] }) ∨
    (∃ base vs, shape.misfit? shape.fields s.stack ≠ none ∧ s.stack = base ++ vs ∧
      vs.map Value.type = shape.mandatory.map Field.type ∧
      shape.assemble s = { s with stack := base ++ [.record shape.name (fillMandatory shape.fields vs)] }) ∨
    ∃ e, shape.misfit? shape.fields s.stack = some e ∧ shape.assemble s = s.fail e := by
  cases hall : shape.misfit? shape.fields s.stack with
  | none =>
    obtain ⟨base, vs, hstack, htypes⟩ := misfit?_eq_none_iff.1 hall
    exact .inl ⟨base, vs, hstack, htypes, assemble_of_fields hs hstack htypes⟩
  | some e =>
    have hmisfit : shape.misfit? shape.fields s.stack ≠ none := by simp [hall]
    by_cases hfewer : shape.mandatory.length = shape.fields.length
    · refine .inr (.inr ⟨e, rfl, ?_⟩)
      simp [assemble, hs, hall, hfewer]
    · cases hmandatory : shape.misfit? shape.mandatory s.stack with
      | none =>
        obtain ⟨base, vs, hstack, htypes⟩ := misfit?_eq_none_iff.1 hmandatory
        exact .inr (.inl ⟨base, vs, by simp, hstack, htypes,
          assemble_of_mandatory hs hstack hmisfit hfewer htypes⟩)
      | some e' =>
        refine .inr (.inr ⟨e, rfl, ?_⟩)
        simp [assemble, hs, hall, hfewer, hmandatory]

/-- Values do not fit fields of which the last asks for another type than the last value has. -/
theorem misfit?_ne_none_of_getLast? {stack : List Value}
    (h : stack.getLast?.map Value.type ≠ fields.getLast?.map Field.type) (hfields : fields ≠ []) :
    shape.misfit? fields stack ≠ none := by
  intro hfit
  obtain ⟨base, vs, rfl, htypes⟩ := misfit?_eq_none_iff.1 hfit
  have hvs : vs ≠ [] := by
    rintro rfl
    exact hfields (List.map_eq_nil_iff.1 htypes.symm)
  have hlast : (base ++ vs).getLast? = vs.getLast? := by
    rw [List.getLast?_append, List.getLast?_eq_some_getLast hvs, Option.some_or]
  refine h ?_
  rw [hlast, ← List.getLast?_map, ← List.getLast?_map, htypes]

end Shape

end StackParser
