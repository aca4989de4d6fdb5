import StackParser.Proofs.Conformance

/-!
# What exactly an assembly does

* `Shape.Completes` : fields with the values they get in a record that is made of values for the mandatory ones;
* `Shape.exists_completes` : the filling of a record takes the values in this way;
* `Shape.exists_of_mistyped?` : a type error is about the first field whose value has another type;
* `Shape.assemble_exact` : which record an assembly makes of which values, and what it says where it makes none.
-/

namespace StackParser

theorem Field.mandatory_iff {f : Field} : f.mandatory = true ↔ f.presence = .required := by
  unfold Field.mandatory
  split <;> simp_all

theorem Field.settled_iff {f : Field} : f.settled = true ↔ f.presence ≠ .optional := by
  unfold Field.settled
  split <;> simp_all

namespace Shape

variable {shape : Shape} {fields : List Field} {vs : List Value} {s : State} {e : ParseError}

/-! ## Records with defaults -/

/-- The fields of a record that is made of the values `vs` for the mandatory fields: in the order of the shape, each mandatory
field with the next of `vs`, and each field that has a default with this. An optional field without one is left out. -/
structure Completes (fields : List Field) (vs : List Value) (entries : List (Field × Value)) : Prop where
  settled : entries.map Prod.fst = fields.filter Field.settled
  values : (entries.filter fun e => e.1.mandatory).map Prod.snd = vs
  defaults : ∀ e ∈ entries, ∀ d, e.1.presence = .defaulted d → e.2 = d

namespace Completes

variable {f : Field} {entries : List (Field × Value)}

theorem nil : Completes [] [] [] := ⟨rfl, rfl, fun _ he => nomatch he⟩

theorem required (hf : f.presence = .required) (v : Value) (h : Completes fields vs entries) :
    Completes (f :: fields) (v :: vs) ((f, v) :: entries) where
  settled := by
    have hsettled : f.settled = true := by simp [Field.settled_iff, hf]
    rw [List.map_cons, List.filter_cons_of_pos hsettled, h.settled]
  values := by
    have hmandatory : f.mandatory = true := by simp [Field.mandatory_iff, hf]
    simp [hmandatory, h.values]
  defaults := by
    refine List.forall_mem_cons.2 ⟨fun d hd => ?_, h.defaults⟩
    rw [hf] at hd
    exact nomatch hd

theorem optional (hf : f.presence = .optional) (h : Completes fields vs entries) : Completes (f :: fields) vs entries where
  settled := by
    have hsettled : ¬ f.settled = true := by simp [Field.settled_iff, hf]
    rw [List.filter_cons_of_neg hsettled, h.settled]
  values := h.values
  defaults := h.defaults

theorem defaulted {d : Value} (hf : f.presence = .defaulted d) (h : Completes fields vs entries) :
    Completes (f :: fields) vs ((f, d) :: entries) where
  settled := by
    have hsettled : f.settled = true := by simp [Field.settled_iff, hf]
    rw [List.map_cons, List.filter_cons_of_pos hsettled, h.settled]
  values := by
    have hmandatory : ¬ f.mandatory = true := by simp [Field.mandatory_iff, hf]
    simp [hmandatory, h.values]
  defaults := by
    refine List.forall_mem_cons.2 ⟨fun d' hd => ?_, h.defaults⟩
    rw [hf] at hd
    exact Presence.defaulted.inj hd

end Completes

/-- The filling goes through all fields and takes a value for each mandatory one, and these are as many as were counted. -/
theorem exists_completes (h : vs.length = (fields.filter Field.mandatory).length) : ∃ entries,
    Completes fields vs entries ∧ fillMandatory fields vs = entries.map fun e => (e.1.name, e.2) := by
  induction fields generalizing vs with
  | nil =>
    obtain rfl : vs = [] := List.length_eq_zero_iff.1 h
    exact ⟨[], .nil, rfl⟩
  | cons f fields ih =>
    cases hf : f.presence with
    | required =>
      have hmandatory : f.mandatory = true := by simp [Field.mandatory_iff, hf]
      rw [List.filter_cons_of_pos hmandatory, List.length_cons] at h
      obtain ⟨v, vs, rfl⟩ := List.exists_cons_of_length_eq_add_one h
      obtain ⟨entries, hentries, hfilled⟩ := ih (Nat.succ.inj h)
      exact ⟨_, hentries.required hf v, by simp [fillMandatory, hf, hfilled]⟩
    | optional =>
      have hmandatory : ¬ f.mandatory = true := by simp [Field.mandatory_iff, hf]
      rw [List.filter_cons_of_neg hmandatory] at h
      obtain ⟨entries, hentries, hfilled⟩ := ih h
      exact ⟨_, hentries.optional hf, by simp [fillMandatory, hf, hfilled]⟩
    | defaulted d =>
      have hmandatory : ¬ f.mandatory = true := by simp [Field.mandatory_iff, hf]
      rw [List.filter_cons_of_neg hmandatory] at h
      obtain ⟨entries, hentries, hfilled⟩ := ih h
      exact ⟨_, hentries.defaulted hf, by simp [fillMandatory, hf, hfilled]⟩

/-! ## Type errors -/

/-- The error is about the first field whose value has another type. -/
theorem exists_of_mistyped? (h : vs.length = fields.length) (he : shape.mistyped? fields vs = some e) :
    ∃ before f after us v ws, fields = before ++ f :: after ∧ vs = us ++ v :: ws ∧
      us.map Value.type = before.map Field.type ∧ v.type ≠ f.type ∧ ws.length = after.length ∧
      e = .fieldType shape.name f.name f.type v.type := by
  induction fields generalizing vs with
  | nil => exact nomatch he
  | cons f fields ih =>
    obtain ⟨v, vs, rfl⟩ := List.exists_cons_of_length_eq_add_one h
    have hlength : vs.length = fields.length := Nat.succ.inj h
    rw [mistyped?] at he
    by_cases htype : v.type = f.type
    · rw [if_pos (ValueType.accepts_iff.2 htype)] at he
      obtain ⟨before, g, after, us, w, ws, rfl, rfl, htypes, hrest⟩ := ih hlength he
      exact ⟨f :: before, g, after, v :: us, w, ws, rfl, rfl, by simp [htype, htypes], hrest⟩
    · rw [if_neg fun haccepts => htype (ValueType.accepts_iff.1 haccepts)] at he
      exact ⟨[], f, fields, [], v, vs, rfl, rfl, rfl, htype, hlength, (Option.some.inj he).symm⟩

/-! ## Assembly -/

/-- With values neither for all fields nor for the mandatory ones, the assembly fails for the reason that it found when it
looked for all. -/
theorem assemble_of_misfit (hs : s.failed = false) (he : shape.misfit? shape.fields s.stack = some e)
    (hmandatory : ¬ (shape.mandatory.length < shape.fields.length ∧
      shape.mandatory.map Field.type <:+ s.stack.map Value.type)) : shape.assemble s = s.fail e := by
  rcases assemble_cases shape hs with
    ⟨base, vs, hstack, htypes, -⟩ | ⟨base, vs, hmisfit, hstack, htypes, -⟩ | ⟨e', he', hresult⟩
  · rw [misfit?_eq_none_iff.2 ⟨base, vs, hstack, htypes⟩] at he
    exact nomatch he
  · have hfit : shape.misfit? shape.mandatory s.stack = none := misfit?_eq_none_iff.2 ⟨base, vs, hstack, htypes⟩
    have hfewer : shape.mandatory.length < shape.fields.length := by
      refine Nat.lt_of_le_of_ne (List.length_filter_le ..) fun hall => hmisfit ?_
      have hsame : shape.mandatory = shape.fields := (List.filter_sublist ..).eq_of_length hall
      rwa [hsame] at hfit
    exact absurd ⟨hfewer, misfit?_eq_none_iff_suffix.1 hfit⟩ hmandatory
  · rw [hresult, Option.some.inj (he'.symm.trans he)]

/-- An assembly takes the latest values for all fields if their types are those of the fields, and makes a record of them in
order. Otherwise it takes those for the mandatory fields, if these are fewer and the types are theirs, and adds the
defaults that there are. Otherwise it leaves the stack alone, and tells that there are fewer values than fields, or which
is the first field whose value has another type. What lies below is left alone in any case, and so is all else. -/
theorem assemble_exact (shape : Shape) (s : State) (hs : s.failed = false) :
    (∀ base vs, s.stack = base ++ vs → vs.map Value.type = shape.fields.map Field.type →
      ∃ filled : List (String × Value), filled.map Prod.fst = shape.fields.map Field.name ∧ filled.map Prod.snd = vs ∧
        shape.assemble s = { s with stack := base ++ [.record shape.name filled] }) ∧
    (¬ shape.fields.map Field.type <:+ s.stack.map Value.type → shape.mandatory.length < shape.fields.length →
      ∀ base vs, s.stack = base ++ vs → vs.map Value.type = shape.mandatory.map Field.type →
      ∃ entries, Completes shape.fields vs entries ∧
        shape.assemble s = { s with
          stack := base ++ [.record shape.name (entries.map fun e => (e.1.name, e.2))] }) ∧
    (¬ shape.fields.map Field.type <:+ s.stack.map Value.type →
      ¬ (shape.mandatory.length < shape.fields.length ∧
        shape.mandatory.map Field.type <:+ s.stack.map Value.type) →
      (s.stack.length < shape.fields.length →
        shape.assemble s = s.fail (.arity shape.name shape.fields.length s.stack.length)) ∧
      (shape.fields.length ≤ s.stack.length →
        ∃ before f after base us v ws, shape.fields = before ++ f :: after ∧ s.stack = base ++ (us ++ v :: ws) ∧
          us.map Value.type = before.map Field.type ∧ v.type ≠ f.type ∧ ws.length = after.length ∧
          shape.assemble s = s.fail (.fieldType shape.name f.name f.type v.type))) := by
  refine ⟨fun base vs hstack htypes => ?_, fun hmisfit hfewer base vs hstack htypes => ?_, fun hmisfit hmandatory =>
    ⟨fun hfew => ?_, fun hmany => ?_⟩⟩
  · have hlength : vs.length = shape.fields.length := by simpa using congrArg List.length htypes
    refine ⟨fillAll shape.fields vs, ?_, ?_, assemble_of_fields hs hstack htypes⟩
    · exact List.map_fst_zip (by simp [hlength])
    · exact List.map_snd_zip (by simp [hlength])
  · have hlength : vs.length = shape.mandatory.length := by simpa using congrArg List.length htypes
    have hnone : shape.misfit? shape.fields s.stack ≠ none := fun hnone => hmisfit (misfit?_eq_none_iff_suffix.1 hnone)
    obtain ⟨entries, hentries, hfilled⟩ := exists_completes hlength
    exact ⟨entries, hentries, hfilled ▸ assemble_of_mandatory hs hstack hnone (Nat.ne_of_lt hfewer) htypes⟩
  · have he : shape.misfit? shape.fields s.stack = some (.arity shape.name shape.fields.length s.stack.length) := by
      rw [misfit?, if_pos hfew]
    exact assemble_of_misfit hs he hmandatory
  · obtain ⟨e, he⟩ := Option.ne_none_iff_exists'.1 fun hnone => hmisfit (misfit?_eq_none_iff_suffix.1 hnone)
    have hsplit := (List.take_append_drop (s.stack.length - shape.fields.length) s.stack).symm
    have hlength : (s.stack.drop (s.stack.length - shape.fields.length)).length = shape.fields.length := by
      rw [List.length_drop]
      omega
    have hmistyped := he
    rw [misfit?, if_neg (Nat.not_lt_of_le hmany)] at hmistyped
    obtain ⟨before, f, after, us, v, ws, hfields, hvalues, htypes, htype, hafter, rfl⟩ :=
      exists_of_mistyped? hlength hmistyped
    rw [hvalues] at hsplit
    exact ⟨before, f, after, _, us, v, ws, hfields, hsplit, htypes, htype, hafter, assemble_of_misfit hs he hmandatory⟩

/-- A default in front of the mandatory fields and an optional field between them. With values for all four, and with values
for two; with one value; and with four of which the second is no direction. -/
theorem assemble_exact_move :
    let move : Shape := ⟨"Move", [⟨"steps", .int, .defaulted (.int 1)⟩, ⟨"direction", .char, .required⟩,
      ⟨"note", .string, .optional⟩, ⟨"speed", .int, .required⟩]⟩
    let below : Value := .str "x"
    let s (vs : List Value) := { State.start "" with stack := vs }
    let all := [Value.int 3, .char 'U', .str "n", .int 5]
    let two := [Value.char 'U', .int 5]
    let four := [Value.int 1, .int 2, .int 3, .int 4]
    (s (below :: all)).failed = false ∧ (s (below :: two)).failed = false ∧ (s [below]).failed = false ∧
    (s four).failed = false ∧
    (∃ filled : List (String × Value), filled.map Prod.snd = all ∧
      (move.assemble (s (below :: all))).stack = [below, .record "Move" filled]) ∧
    (∃ entries, Completes move.fields two entries ∧
      (move.assemble (s (below :: two))).stack = [below, .record "Move" (entries.map fun e => (e.1.name, e.2))]) ∧
    move.assemble (s [below]) = (s [below]).fail (.arity "Move" 4 1) ∧
    move.assemble (s four) = (s four).fail (.fieldType "Move" "direction" .char .int) := by
  intro move below s all two four
  obtain ⟨hall, -, -⟩ := assemble_exact move (s (below :: all)) rfl
  obtain ⟨-, htwo, -⟩ := assemble_exact move (s (below :: two)) rfl
  obtain ⟨-, -, hone⟩ := assemble_exact move (s [below]) rfl
  obtain ⟨filled, -, hvalues, hresult⟩ := hall [below] all rfl rfl
  obtain ⟨entries, hentries, hresult'⟩ := htwo (by decide) (by decide) [below] two rfl rfl
  refine ⟨rfl, rfl, rfl, rfl, ⟨filled, hvalues, ?_⟩, ⟨entries, hentries, ?_⟩, ?_, rfl⟩
  · rw [hresult]
    rfl
  · rw [hresult']
    rfl
  · exact (hone (by decide) (by decide)).1 (by decide)

end Shape

end StackParser
