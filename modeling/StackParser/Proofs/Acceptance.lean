import StackParser.Proofs.Reading

/-!
# What a success says of the text

`Parser.Yields p R` : where `p` succeeds, it reads a part `cs` of the text in front of a part `rest`, pushes values `vs` and
turns the context `c` into `d`, such that `R cs rest c vs d`. There is one rule for each parser and combinator;
`Passage.next` is one passage after another, and `Passage.Repeated` any number of them.
-/

namespace StackParser

/-- How the text that is read, the text behind it, the context before, the values pushed and the context after hang
together. -/
abbrev Passage := List Char → List Char → Context → List Value → Context → Prop

namespace Passage

/-- The context is left alone. -/
def still (R : List Char → List Char → List Value → Prop) : Passage := fun cs rest c vs d => R cs rest vs ∧ d = c

/-- First as `R` says, then as `S` says. -/
def next (R S : Passage) : Passage := fun cs rest c vs d =>
  ∃ first second us ws e, cs = first ++ second ∧ vs = us ++ ws ∧ R first (second ++ rest) c us e ∧ S second rest e ws d

/-- Several times as `R` says. -/
inductive Repeated (R : Passage) (rest : List Char) : List Char → Context → List Value → Context → Prop where
  | nil (c : Context) : Repeated R rest [] c [] c
  | cons {cs ds : List Char} {c d e : Context} {vs ws : List Value} : R cs (ds ++ rest) c vs d →
    Repeated R rest ds d ws e → Repeated R rest (cs ++ ds) c (vs ++ ws) e

end Passage

namespace Parser

/-- What `p` reads, pushes and does to the context where it succeeds is as `R` says. -/
def Yields (p : Parser) (R : Passage) : Prop :=
  ∀ s : State, (p.parse s).failed = false → ∃ cs rest vs, s.cursor.after = cs ++ rest ∧
    s.Becomes (p.parse s) cs.length vs (p.parse s).context ∧ R cs rest s.context vs (p.parse s).context

variable {p q : Parser} {ps : List Parser} {R S : Passage}

theorem Refuses.absurd {s : State} {cs : List Char} (h : p.Refuses cs) (hs : (p.parse s).failed = false)
    (hafter : s.cursor.after = cs) : False := by
  rw [h s (not_failed_of_parse hs) hafter] at hs
  exact nomatch hs

namespace Yields

theorem mono (h : p.Yields R) (hRS : ∀ cs rest c vs d, R cs rest c vs d → S cs rest c vs d) : p.Yields S := by
  intro s hs
  obtain ⟨cs, rest, vs, hafter, hbecomes, hR⟩ := h s hs
  exact ⟨cs, rest, vs, hafter, hbecomes, hRS _ _ _ _ _ hR⟩

/-- It is enough to know what is read. -/
theorem of_reads {R : List Char → List Char → List Value → Prop}
    (h : ∀ s : State, (p.parse s).failed = false →
      ∃ cs rest vs, s.cursor.after = cs ++ rest ∧ p.Reads cs rest vs ∧ R cs rest vs) :
    p.Yields (.still R) := by
  intro s hs
  obtain ⟨cs, rest, vs, hafter, hreads, hR⟩ := h s hs
  have hbecomes := hreads s.context s (not_failed_of_parse hs) hafter rfl
  exact ⟨cs, rest, vs, hafter, hbecomes.context ▸ hbecomes, hR, hbecomes.context⟩

/-! ## Terminals -/

theorem skipChar (x : Char) : (Grammar.skipChar x).parser.Yields (.still fun cs _ vs => cs = [x] ∧ vs = []) := by
  refine of_reads fun s hs => ?_
  have hhead : ¬ ∀ y ∈ s.cursor.after.head?, y ≠ x := fun h => (Refuses.skipChar h).absurd hs rfl
  simp only [not_forall, ne_eq, not_not] at hhead
  obtain ⟨y, hy, rfl⟩ := hhead
  obtain ⟨rest, hrest⟩ := List.head?_eq_some_iff.1 hy
  exact ⟨[y], rest, [], hrest, Grammar.reads_skipChar y rest, rfl, rfl⟩

theorem skip (text : String) :
    (Grammar.skip text).parser.Yields (.still fun cs _ vs => cs = text.toList ∧ vs = []) := by
  refine of_reads fun s hs => ?_
  obtain ⟨rest, hrest⟩ := (failed_literal (not_failed_of_parse hs)).1 hs
  exact ⟨text.toList, rest, [], hrest.symm, Grammar.reads_skip text rest, rfl, rfl⟩

theorem space : Grammar.space.parser.Yields (.still fun cs _ vs => cs = [' '] ∧ vs = []) := by
  refine of_reads fun s hs => ?_
  have hprefix : List.replicate 1 ' ' <+: s.cursor.after :=
    Decidable.byContradiction fun h => (Refuses.spaces h).absurd hs rfl
  obtain ⟨rest, hrest⟩ := hprefix
  exact ⟨[' '], rest, [], hrest.symm, Grammar.reads_space rest, rfl, rfl⟩

theorem word : Parser.word.Yields (.still fun cs rest vs => cs ≠ [] ∧ (∀ x ∈ cs, isBlank x = false) ∧
    StopsAt (fun x => !isBlank x) rest ∧ vs = [.str (String.ofList cs)]) := by
  refine of_reads fun s hs => ?_
  have hne : s.cursor.after.takeWhile (fun x => !isBlank x) ≠ [] := by
    intro hnil
    rw [failed_parse (not_failed_of_parse hs), Parser.word] at hs
    simp [hnil] at hs
  have hall : ∀ x ∈ s.cursor.after.takeWhile (fun x => !isBlank x), isBlank x = false := by
    intro x hx
    simpa using List.all_eq_true.1 List.all_takeWhile x hx
  have hstop := stopsAt_dropWhile (p := fun x => !isBlank x) s.cursor.after
  exact ⟨_, _, _, List.takeWhile_append_dropWhile.symm, Reads.word hne hall hstop, hne, hall, hstop, rfl⟩

theorem number {kind : NumberKind} (hkind : kind ≠ .float) :
    (Parser.number kind).Yields (.still fun cs rest vs => ∃ (m : Numeral) (v : Value), cs = m.text ∧
      StopsAt Char.isDigit rest ∧ kind.hold? m.value = some v ∧ vs = [v]) := by
  refine of_reads fun s hs => ?_
  have hsome : ¬ ∀ (m : Numeral) (rest : List Char), s.cursor.after = m.text ++ rest → StopsAt Char.isDigit rest →
      kind.hold? m.value = none := fun h => (Refuses.number hkind h).absurd hs rfl
  simp only [not_forall] at hsome
  obtain ⟨m, rest, hafter, hstop, hm⟩ := hsome
  obtain ⟨v, hv⟩ := Option.ne_none_iff_exists'.1 hm
  exact ⟨m.text, rest, [v], hafter, Reads.number m hv hstop, m, v, rfl, hstop, hv, rfl⟩

theorem lineEnd : Parser.lineEnd.Yields (.still fun cs _ vs => (∃ b : LineBreak, cs = b.text) ∧ vs = []) := by
  refine of_reads fun s hs => ?_
  have hbreak : ¬ ∀ b : LineBreak, ¬ b.text <+: s.cursor.after := fun h => (Refuses.lineEnd h).absurd hs rfl
  simp only [not_forall, not_not] at hbreak
  obtain ⟨b, rest, hrest⟩ := hbreak
  exact ⟨b.text, rest, [], hrest.symm, Reads.lineEnd b rest, ⟨b, rfl⟩, rfl⟩

/-- A line end that may be missing is missing only where there is none. -/
theorem optional_lineEnd : (Parser.optional .lineEnd).Yields (.still fun cs rest vs =>
    ((∃ b : LineBreak, cs = b.text) ∨ (cs = [] ∧ ∀ b : LineBreak, ¬ b.text <+: rest)) ∧ vs = []) := by
  refine of_reads fun s _ => ?_
  by_cases hbreak : ∀ b : LineBreak, ¬ b.text <+: s.cursor.after
  · exact ⟨[], s.cursor.after, [], rfl, Grammar.reads_no_lineEnd hbreak, .inr ⟨rfl, hbreak⟩, rfl⟩
  · simp only [not_forall, not_not] at hbreak
    obtain ⟨b, rest, hrest⟩ := hbreak
    exact ⟨b.text, rest, [], hrest.symm, Grammar.reads_optional_lineEnd b rest, .inl ⟨b, rfl⟩, rfl⟩

theorem keyword (family : String) {tokens : List (String × String)} (hapart : Pushes.KeysApart tokens) :
    (Parser.keyword family tokens).Yields (.still fun cs _ vs =>
      ∃ e ∈ tokens, cs = e.1.toList ∧ vs = [.keyword ⟨family, e.2⟩]) := by
  refine of_reads fun s hs => ?_
  have htoken : ¬ ∀ e ∈ tokens, ¬ e.1.toList <+: s.cursor.after := fun h => (Refuses.keyword family h).absurd hs rfl
  simp only [not_forall, not_not] at htoken
  obtain ⟨e, he, rest, hrest⟩ := htoken
  exact ⟨e.1.toList, rest, _, hrest.symm, Reads.keyword family he hapart rest, e, he, rfl, rfl⟩

theorem ofFamily {α : Type} {F : Family α} (hapart : Pushes.KeysApart F.tokens) :
    (Grammar.ofFamily F).parser.Yields (.still fun cs _ vs =>
      ∃ entry ∈ F.table, cs = entry.1.toList ∧ vs = [F.value entry.2]) := by
  refine (keyword F.name hapart).mono ?_
  rintro cs rest c vs d ⟨⟨e, he, rfl, rfl⟩, rfl⟩
  obtain ⟨entry, hentry, rfl⟩ := List.mem_map.1 he
  exact ⟨⟨entry, hentry, rfl, rfl⟩, rfl⟩

/-! ## Combinators -/

theorem nil : (sequenceOf []).Yields (.still fun cs _ vs => cs = [] ∧ vs = []) :=
  of_reads fun s _ => ⟨[], s.cursor.after, [], rfl, fun c => Turns.nil _ c, rfl, rfl⟩

theorem cons (hp : p.Yields R) (hps : (sequenceOf ps).Yields S) : (sequenceOf (p :: ps)).Yields (R.next S) := by
  intro s hs
  have hfirst := head_of_sequenceOf hs
  have hstart := not_failed_of_parse hs
  have hothers : ((sequenceOf ps).parse (p.parse s)).failed = false := by
    rw [failed_parse hfirst]
    rwa [failed_parse hstart] at hs
  obtain ⟨first, behind, us, hafter, hbecomes, hR⟩ := hp s hfirst
  obtain ⟨second, rest, ws, hafter', hbecomes', hS⟩ := hps (p.parse s) hothers
  obtain rfl : behind = second ++ rest := (hbecomes.after_eq hafter).symm.trans hafter'
  have hall : (sequenceOf (p :: ps)).parse s =
      { (sequenceOf ps).parse (p.parse s) with name := (sequenceOf (p :: ps)).label } := by
    rw [parse_of_not_failed _ hstart, parse_of_not_failed _ hfirst]
    rfl
  refine ⟨first ++ second, rest, us ++ ws, ?_, ?_, first, second, us, ws, _, rfl, rfl, hR, ?_⟩
  · rw [hafter, List.append_assoc]
  · rw [hall, List.length_append]
    exact (hbecomes.trans hbecomes').rename _
  · rw [hall]
    exact hS

theorem last (hp : p.Yields R) : (sequenceOf [p]).Yields R := by
  refine (cons hp nil).mono ?_
  rintro cs rest c vs d ⟨first, second, us, ws, e, rfl, rfl, hR, ⟨rfl, rfl⟩, rfl⟩
  rwa [List.append_nil, List.append_nil]

/-- A first part that only reads over a fixed text. -/
theorem silent {text : List Char} (hp : p.Yields (.still fun cs _ vs => cs = text ∧ vs = []))
    (hps : (sequenceOf ps).Yields R) :
    (sequenceOf (p :: ps)).Yields fun cs rest c vs d => ∃ ds, cs = text ++ ds ∧ R ds rest c vs d := by
  refine (cons hp hps).mono ?_
  rintro cs rest c vs d ⟨first, ds, us, ws, e, rfl, rfl, ⟨⟨rfl, rfl⟩, rfl⟩, hR⟩
  exact ⟨ds, rfl, hR⟩

theorem oneOf (h : ∀ p ∈ ps, p.Yields R) : (oneOf ps).Yields R := by
  intro s hs
  have hstart := not_failed_of_parse hs
  obtain ⟨p, hp, hsuccess, hrun⟩ := oneOf_winner hs
  obtain ⟨cs, rest, vs, hafter, hbecomes, hR⟩ := h p hp s hsuccess
  have hall : (Parser.oneOf ps).parse s = { p.parse s with name := (Parser.oneOf ps).label } := by
    rw [parse_of_not_failed _ hstart, hrun]
  rw [hall]
  exact ⟨cs, rest, vs, hafter, hbecomes.rename _, hR⟩

theorem either (hp : p.Yields R) (hq : q.Yields R) : (Parser.oneOf [p, q]).Yields R :=
  oneOf (List.forall_mem_cons.2 ⟨hp, List.forall_mem_singleton.2 hq⟩)

theorem list (h : p.Yields R) :
    (Parser.list p).Yields fun cs rest c vs d => ∃ us, vs = [.list us] ∧ R cs rest c us d := by
  intro s hs
  have hstart := not_failed_of_parse hs
  have hinner : (p.parse s).failed = false := by
    refine Bool.of_not_eq_true fun hfail => ?_
    rw [failed_parse hstart] at hs
    change (collect p true s).failed = false at hs
    rw [collect, if_pos hfail, hfail] at hs
    exact nomatch hs
  obtain ⟨cs, rest, us, hafter, hbecomes, hR⟩ := h s hinner
  have hall := becomes_list hstart hbecomes
  exact ⟨cs, rest, [.list us], hafter, hall.context ▸ hall, us, rfl, hall.context ▸ hR⟩

theorem record {shape : Shape} (h : p.Yields R)
    (hmakes : ∀ cs rest c vs d, R cs rest c vs d → ∃ v, shape.Makes vs v ∧ S cs rest c [v] d) :
    (Parser.record shape p).Yields S := by
  intro s hs
  obtain ⟨cs, rest, us, hafter, hbecomes, hR⟩ := h s (inner_of_record hs)
  obtain ⟨v, hv, hS⟩ := hmakes _ _ _ _ _ hR
  have hall := becomes_record (not_failed_of_parse hs) hbecomes hv
  exact ⟨cs, rest, [v], hafter, hall.context ▸ hall, hall.context ▸ hS⟩

/-- The function has the last word. -/
theorem action (name : String) {f : Action} (h : p.Yields R)
    (hf : ∀ base cs rest c us e, R cs rest c us e → (f (base ++ us) e).error = none →
      ∃ vs d, f (base ++ us) e = ⟨base ++ vs, d, none⟩ ∧ S cs rest c vs d) :
    (Parser.action name p f).Yields S := by
  intro s hs
  have hinner := inner_of_action hs
  have hstart := not_failed_of_parse hs
  obtain ⟨cs, rest, us, hafter, hbecomes, hR⟩ := h s hinner
  have hdone : (f (s.stack ++ us) (p.parse s).context).error = none := by
    rw [failed_parse hstart] at hs
    unfold Parser.action at hs
    dsimp only at hs
    rwa [hinner, if_neg Bool.false_ne_true, State.act, hbecomes.stack, State.failed, Option.isSome_eq_false_iff,
      Option.isNone_iff_eq_none] at hs
  obtain ⟨vs, d, heffect, hS⟩ := hf _ _ _ _ _ _ hR hdone
  have hall := becomes_action name hstart hbecomes heffect
  exact ⟨cs, rest, vs, hafter, hall.context ▸ hall, hall.context ▸ hS⟩

/-! ## Repetition -/

theorem runWhile (h : p.Yields R) {s : State} (hs : s.failed = false) : ∃ cs rest vs, s.cursor.after = cs ++ rest ∧
    s.Becomes (Parser.runWhile p s) cs.length vs (Parser.runWhile p s).context ∧
      R.Repeated rest cs s.context vs (Parser.runWhile p s).context := by
  fun_induction Parser.runWhile p s with
  | case1 s _ => exact ⟨[], s.cursor.after, [], rfl, .refl hs, .nil _⟩
  | case2 s _ next e _ =>
    have hrefl := State.Becomes.refl hs
    exact ⟨[], s.cursor.after, [], rfl, ⟨hrefl.success, hrefl.cursor, hrefl.stack, rfl⟩, .nil _⟩
  | case3 s _ next hnone _ ih =>
    have hnext : next.failed = false := by rw [State.failed, hnone]; rfl
    obtain ⟨cs, behind, vs, hafter, hbecomes, hR⟩ := h s hnext
    obtain ⟨ds, rest, ws, hafter', hbecomes', hall⟩ := ih hnext
    obtain rfl : behind = ds ++ rest := (hbecomes.after_eq hafter).symm.trans hafter'
    refine ⟨cs ++ ds, rest, vs ++ ws, by rw [hafter, List.append_assoc], ?_, .cons hR hall⟩
    rw [List.length_append]
    exact hbecomes.trans hbecomes'
  | case4 s _ next hnone _ =>
    have hnext : next.failed = false := by rw [State.failed, hnone]; rfl
    obtain ⟨cs, rest, vs, hafter, hbecomes, hR⟩ := h s hnext
    have hall : R.Repeated rest (cs ++ []) s.context (vs ++ []) next.context := .cons hR (.nil _)
    rw [List.append_nil, List.append_nil] at hall
    exact ⟨cs, rest, vs, hafter, hbecomes, hall⟩

theorem oneOrMore (h : p.Yields R) : (Parser.oneOrMore p).Yields fun cs rest => R.Repeated rest cs := by
  intro s hs
  have hstart := not_failed_of_parse hs
  obtain ⟨cs, rest, vs, hafter, hbecomes, hR⟩ := h.runWhile hstart
  rw [parse_of_not_failed _ hstart]
  exact ⟨cs, rest, vs, hafter, hbecomes.rename _, hR⟩

theorem runTillEnd (h : p.Yields R) {s : State} (hs : s.failed = false)
    (hsuccess : (Parser.runTillEnd p s).failed = false) : ∃ cs vs, s.cursor.after = cs ∧
      s.Becomes (Parser.runTillEnd p s) cs.length vs (Parser.runTillEnd p s).context ∧
        R.Repeated [] cs s.context vs (Parser.runTillEnd p s).context := by
  fun_induction Parser.runTillEnd p s with
  | case1 s hend =>
    have hnil : s.cursor.after = [] := List.isEmpty_iff.1 hend
    have hrefl := State.Becomes.refl hs
    exact ⟨[], [], hnil, ⟨hrefl.success, hrefl.cursor, hrefl.stack, rfl⟩, .nil _⟩
  | case2 s _ next hfail =>
    simp [hfail] at hsuccess
  | case3 s _ next hnext _ ih =>
    have hnext' : next.failed = false := Bool.of_not_eq_true hnext
    obtain ⟨cs, behind, vs, hafter, hbecomes, hR⟩ := h s hnext'
    obtain ⟨ds, ws, hafter', hbecomes', hall⟩ := ih hnext' hsuccess
    obtain rfl : behind = ds := (hbecomes.after_eq hafter).symm.trans hafter'
    have hR' : R cs (behind ++ []) s.context vs next.context := by rwa [List.append_nil]
    refine ⟨cs ++ behind, vs ++ ws, hafter, ?_, .cons hR' hall⟩
    rw [List.length_append]
    exact hbecomes.trans hbecomes'
  | case4 s _ next _ _ => exact absurd hsuccess (by simp)

theorem tillEnd (h : p.Yields R) :
    (Parser.tillEnd p).Yields fun cs rest c vs d => rest = [] ∧ R.Repeated [] cs c vs d := by
  intro s hs
  have hstart := not_failed_of_parse hs
  rw [failed_parse hstart] at hs
  obtain ⟨cs, vs, hafter, hbecomes, hR⟩ := h.runTillEnd hstart hs
  rw [parse_of_not_failed _ hstart]
  exact ⟨cs, [], vs, hafter.trans (List.append_nil _).symm, hbecomes.rename _, rfl, hR⟩

end Yields

end Parser

end StackParser
