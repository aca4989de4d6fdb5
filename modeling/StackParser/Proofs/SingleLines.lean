import StackParser.Bundled.Catalogue
import StackParser.Proofs.NumberTexts
import StackParser.Proofs.RecordFrame
import StackParser.Proofs.ValueInvariants
import StackParser.Value.Display

/-!
# Values on one line

Texts stand in displayed values as they are, so a value takes one line only if no text in it has a line feed:

* `OneLine text` : there is no line feed in the text; `Value.OneLine` : nor in the displayed value. This comes down to its parts;
* `State.OneLine` : all values on the stack and in the context take one line, and so do the keys of the context;
* `Grammar.StaysOnLine` : the grammar captures no line feed, and there is none in its tables and shapes. Its actions keep to
  values and keys of one line;
* `Grammar.oneLine_parse` : such a grammar keeps to values and keys of one line, and the bundled grammars are such
  (`Catalogue.staysOnLine`, `Catalogue.oneLine_run`).
-/

namespace StackParser

/-! ## Texts -/

/-- There is no line feed in the text. -/
def OneLine (text : String) : Prop := '\n' ∉ text.toList

instance (text : String) : Decidable (OneLine text) := inferInstanceAs (Decidable (¬ _))

section Texts

variable {a b sep : String} {parts : List String}

theorem oneLine_append : OneLine (a ++ b) ↔ OneLine a ∧ OneLine b := by
  rw [OneLine, String.toList_append, List.mem_append, not_or]
  rfl

theorem oneLine_ofList {cs : List Char} : OneLine (String.ofList cs) ↔ '\n' ∉ cs := by
  rw [OneLine, String.toList_ofList]

theorem oneLine_of_notBlank {cs : List Char} (h : ∀ c ∈ cs, isBlank c = false) : OneLine (String.ofList cs) :=
  oneLine_ofList.2 fun hfeed => absurd (h _ hfeed) (by decide)

theorem oneLine_intercalate (hsep : OneLine sep) : OneLine (sep.intercalate parts) ↔ ∀ part ∈ parts, OneLine part := by
  induction parts with
  | nil => simp [OneLine]
  | cons part parts ih =>
    cases parts with
    | nil => simp
    | cons next parts =>
      rw [String.intercalate_cons_cons, oneLine_append, oneLine_append, ih, and_iff_left hsep]
      exact List.forall_mem_cons.symm

end Texts

theorem NumberText.not_mem_text (m : NumberText) : '\n' ∉ m.text := by
  have hdigits : ∀ ds : List Char, (∀ c ∈ ds, c.isDigit = true) → '\n' ∉ ds := fun ds hds hfeed =>
    absurd (hds _ hfeed) (by decide)
  have hsign : '\n' ∉ m.sign := by
    unfold sign
    split <;> simp
  have hpoint : '\n' ∉ m.point := by
    unfold point
    split
    · simp
    · simpa using hdigits _ m.isDigit_fraction
  have hpower : '\n' ∉ m.power := by
    unfold power
    cases m.exponent with
    | none => simp
    | some e =>
      have hexponent := hdigits _ (Decimal.isDigit_toDigits e.natAbs)
      simp only [Option.elim_some]
      split <;> simpa using hexponent
  simp [text, hsign, hdigits _ m.isDigit_whole, hpoint, hpower]

theorem oneLine_toString (n : Int) : OneLine (toString n) := by
  rw [OneLine, ← NumberText.text_ofInt]
  exact NumberText.not_mem_text _

theorem oneLine_displayFloat (x : Float) : OneLine (displayFloat x) := by
  obtain ⟨m, hm, -⟩ := NumberText.exists_write .displayed x
  unfold displayFloat
  split
  · decide
  · split
    · split <;> decide
    · rw [oneLine_ofList, ← hm]
      exact m.not_mem_text

/-! ## Values -/

namespace Value

def OneLine (v : Value) : Prop := StackParser.OneLine v.display

instance (v : Value) : Decidable v.OneLine := inferInstanceAs (Decidable (StackParser.OneLine _))

theorem oneLine_char {c : Char} : (Value.char c).OneLine ↔ c ≠ '\n' := by
  simp [OneLine, StackParser.OneLine, display, eq_comm]

theorem oneLine_str {text : String} : (Value.str text).OneLine ↔ StackParser.OneLine text := by
  simp [OneLine, StackParser.OneLine, display]

theorem oneLine_keyword {k : Keyword} :
    (Value.keyword k).OneLine ↔ StackParser.OneLine k.family ∧ StackParser.OneLine k.name := by
  simp [OneLine, StackParser.OneLine, display, Keyword.display]

theorem oneLine_list {items : List Value} : (Value.list items).OneLine ↔ ∀ v ∈ items, v.OneLine := by
  have hsep : StackParser.OneLine ", " := by decide
  have hedges : StackParser.OneLine "[" ∧ StackParser.OneLine "]" := by decide
  rw [OneLine, display, displayItems_eq_map, oneLine_append, oneLine_append, oneLine_intercalate hsep]
  simp [hedges, OneLine]

/-- The name of the shape, the names of the fields and their values. -/
theorem oneLine_record {shape : String} {fields : List (String × Value)} : (Value.record shape fields).OneLine ↔
    StackParser.OneLine shape ∧ ∀ e ∈ fields, StackParser.OneLine e.1 ∧ e.2.OneLine := by
  have hsep : StackParser.OneLine "," := by decide
  have hbraces : StackParser.OneLine " \x7b" ∧ StackParser.OneLine " \x7d" := by decide
  have hmarks : StackParser.OneLine " " ∧ StackParser.OneLine ": " := by decide
  rw [OneLine, display, displayFields_eq_map, oneLine_append, oneLine_append, oneLine_append, oneLine_intercalate hsep]
  simp only [List.forall_mem_map, oneLine_append, hbraces, hmarks, true_and, and_true]
  rfl

theorem oneLine_of_value? {kind : NumberKind} {cs : List Char} {v : Value} (h : kind.value? cs = some v) : v.OneLine := by
  have htype := NumberKind.type_of_value? h
  cases v with
  | int n => exact oneLine_toString n.toInt
  | long n => exact oneLine_toString n.toInt
  | float x => exact oneLine_displayFloat x
  | _ => cases kind <;> exact nomatch htype

end Value

/-! ## States -/

/-- All values take one line, and so do the keys of the context. -/
structure State.OneLine (s : State) : Prop extends s.Holds Value.OneLine where
  keys : ∀ e ∈ s.context.entries, StackParser.OneLine e.1

theorem State.oneLine_start (input : String) : (State.start input).OneLine where
  stack _ hv := nomatch hv
  context _ he := nomatch he
  keys _ he := nomatch he

theorem State.OneLine.invariant : State.Invariant Value.OneLine State.OneLine where
  congr h hstack hcontext := { h.toHolds.congr hstack hcontext with keys := hcontext ▸ h.keys }
  push h hv := { h.toHolds.push hv with keys := h.keys }
  dropLast h := { h.toHolds.dropLast with keys := h.keys }
  collectLast n h := { h.toHolds.collectLast n fun _ => Value.oneLine_list.2 with keys := h.keys }

namespace State.OneLine

variable {s : State} {f : Action}

/-- An action that keeps to values of one line, and puts them under keys of one line. -/
theorem act (hs : s.OneLine) (hvalues : f.Keeps Value.OneLine)
    (hkeys : ∀ e ∈ (f s.stack s.context).context.entries, e ∈ s.context.entries ∨ StackParser.OneLine e.1) :
    (s.act f).OneLine where
  toHolds := hvalues s hs.toHolds
  keys e he := (hkeys e he).elim (hs.keys e) id

end State.OneLine

/-! ## Shapes -/

def Field.OneLine (f : Field) : Prop := StackParser.OneLine f.name ∧
  match f.presence with
  | .defaulted v => v.OneLine
  | .required | .optional => True

instance : (f : Field) → Decidable f.OneLine
  | ⟨_, _, .required⟩ | ⟨_, _, .optional⟩ => inferInstanceAs (Decidable (_ ∧ True))
  | ⟨_, _, .defaulted v⟩ => inferInstanceAs (Decidable (_ ∧ v.OneLine))

structure Shape.OneLine (shape : Shape) : Prop where
  name : StackParser.OneLine shape.name
  fields : ∀ f ∈ shape.fields, f.OneLine

namespace Shape.OneLine

variable {shape : Shape} {s : State}

theorem record (h : shape.OneLine) {used : List Value} {filled : List (String × Value)} (hused : ∀ v ∈ used, v.OneLine)
    (hfilled : FilledFrom shape.fields used filled) : (Value.record shape.name filled).OneLine := by
  refine Value.oneLine_record.2 ⟨h.name, fun e he => ?_⟩
  obtain ⟨f, hf, hname, hv | hdefault⟩ := hfilled e.1 e.2 he
  · exact ⟨hname ▸ (h.fields f hf).1, hused e.2 hv⟩
  · obtain ⟨hfield, hvalue⟩ := h.fields f hf
    rw [hdefault] at hvalue
    exact ⟨hname ▸ hfield, hvalue⟩

/-- Values below and a record made of the values above. -/
theorem onTop (h : shape.OneLine) (hs : s.OneLine) {base used : List Value} {filled : List (String × Value)}
    (hstack : s.stack = base ++ used) (hfilled : FilledFrom shape.fields used filled) :
    State.OneLine { s with stack := base ++ [.record shape.name filled] } where
  stack v hv := by
    have hbelow : ∀ v ∈ base ++ used, v.OneLine := hstack ▸ hs.stack
    obtain ⟨hbase, hused⟩ := List.forall_mem_append.1 hbelow
    rcases List.mem_append.1 hv with hv | hv
    · exact hbase v hv
    · exact List.mem_singleton.1 hv ▸ h.record hused hfilled
  context := hs.context
  keys := hs.keys

theorem assemble (h : shape.OneLine) (hs : s.OneLine) : (shape.assemble s).OneLine := by
  by_cases hfailed : s.failed = true
  · rw [Shape.assemble, if_pos hfailed]
    exact hs
  rcases Shape.assemble_cases shape (Bool.of_not_eq_true hfailed) with
    ⟨base, used, hstack, -, heq⟩ | ⟨base, used, -, hstack, -, heq⟩ | ⟨e, -, heq⟩
  · rw [heq]
    exact h.onTop hs hstack (filledFrom_fillAll _ _)
  · rw [heq]
    exact h.onTop hs hstack (filledFrom_fillMandatory _ _)
  · rw [heq]
    exact State.OneLine.invariant.fail hs e

end Shape.OneLine

/-! ## Actions and grammars -/

/-- The action keeps to values and keys of one line. -/
def Action.StaysOnLine (f : Action) : Prop := ∀ s : State, s.OneLine → (s.act f).OneLine

namespace Grammar

mutual

/-- Whether what the grammar brings in takes one line: the units that it captures, the keys and values of its tables, the
texts of its shapes, and what its actions bring in. -/
def StaysOnLine : Grammar → Prop
  | .char c captured => captured = true → c ≠ '\n'
  | .literal text captured => captured = true → OneLine text
  | .sequenceOf gs | .oneOf gs => AllStayOnLine gs
  | .optional g | .group g | .list g | .times _ g | .oneOrMore g | .tillEnd g => g.StaysOnLine
  | .stringMap table => ∀ e ∈ table, OneLine e.1 ∧ e.2.OneLine
  | .keyword family tokens => OneLine family ∧ ∀ e ∈ tokens, OneLine e.1 ∧ OneLine e.2
  | .record shape g => shape.OneLine ∧ g.StaysOnLine
  | .action _ g f => f.StaysOnLine ∧ g.StaysOnLine
  | .custom .. => False
  | .letter | .word | .number _ | .spaces .. | .lineEnd => True

def AllStayOnLine : List Grammar → Prop
  | [] => True
  | g :: gs => g.StaysOnLine ∧ AllStayOnLine gs

end

open State.OneLine (invariant)

mutual

theorem keeps_oneLine : ∀ g : Grammar, g.StaysOnLine → g.parser.Keeps State.OneLine
  | .char c captured, h => .char invariant c captured fun hcaptured => Value.oneLine_char.2 (h hcaptured)
  | .literal text captured, h => .literal invariant text captured fun hcaptured => Value.oneLine_str.2 (h hcaptured)
  | .letter, _ => .letter invariant fun c hc => Value.oneLine_char.2 (by rintro rfl; exact absurd hc (by decide))
  | .word, _ => .word invariant fun cs hcs => Value.oneLine_str.2 (oneLine_of_notBlank hcs)
  | .number kind, _ => .number invariant kind fun _ _ => Value.oneLine_of_value?
  | .spaces n captured, _ => .spaces invariant n captured fun _ =>
    Value.oneLine_str.2 (oneLine_ofList.2 (by simp [List.mem_replicate]))
  | .lineEnd, _ => .lineEnd invariant
  | .sequenceOf gs, h => .sequenceOf invariant (all_keep_oneLine gs h)
  | .oneOf gs, h => .oneOf invariant (all_keep_oneLine gs h)
  | .optional g, h => (keeps_oneLine g h).optional invariant
  | .group g, h => (keeps_oneLine g h).group invariant
  | .list g, h => (keeps_oneLine g h).list invariant
  | .times n g, h => (keeps_oneLine g h).times invariant n
  | .oneOrMore g, h => (keeps_oneLine g h).oneOrMore invariant
  | .tillEnd g, h => (keeps_oneLine g h).tillEnd invariant
  | .stringMap _, h => .stringMap invariant fun e he => ⟨Value.oneLine_str.2 (h e he).1, (h e he).2⟩
  | .keyword family _, h => .keyword invariant family fun e he =>
    ⟨Value.oneLine_str.2 (h.2 e he).1, Value.oneLine_keyword.2 ⟨h.1, (h.2 e he).2⟩⟩
  | .record _ g, h => (keeps_oneLine g h.2).record invariant fun _ => h.1.assemble
  | .action name g _, h => (keeps_oneLine g h.2).action invariant name h.1

theorem all_keep_oneLine : ∀ gs : List Grammar, AllStayOnLine gs → ∀ p ∈ parsers gs, p.Keeps State.OneLine
  | [], _, _, hp => nomatch hp
  | g :: gs, h, p, hp => by
    rcases List.mem_cons.1 hp with rfl | hp
    · exact keeps_oneLine g h.1
    · exact all_keep_oneLine gs h.2 p hp

end

/-- A grammar that stays on the line leaves values and keys of one line, whether it succeeds or fails. -/
theorem oneLine_parse (g : Grammar) (hg : g.StaysOnLine) (s : State) (hs : s.OneLine) : (g.parse s).OneLine :=
  keeps_oneLine g hg s hs

end Grammar

/-! ## The bundled grammars -/

theorem Family.oneLine_value {α : Type} {family : Family α} (hname : OneLine family.name)
    (hvariants : ∀ a, OneLine (family.variantName a)) (a : α) : (family.value a).OneLine :=
  Value.oneLine_keyword.2 ⟨hname, hvariants a⟩

theorem Rounds.respond_staysOnLine : respond.StaysOnLine := by
  intro s hs
  have hmoves : ∀ move : Move, (Move.family.value move).OneLine :=
    Family.oneLine_value (by decide) fun move => by cases move <;> decide
  refine hs.act (respond_keeps_of_moves hmoves) fun e he => .inl ?_
  unfold respond at he
  dsimp only at he
  split at he
  · exact he
  · split at he <;> exact he

namespace Directory

theorem oneLine_path {names : List Value} (h : ∀ v ∈ names, v.OneLine) : OneLine (path names) := by
  have hslash : OneLine "/" := by decide
  rw [path, oneLine_append, oneLine_intercalate hslash]
  refine ⟨hslash, fun text htext => ?_⟩
  obtain ⟨v, hv, hvtext⟩ := List.mem_filterMap.1 htext
  cases v with
  | str name =>
    cases hvtext
    exact Value.oneLine_str.1 (h _ hv)
  | _ => simp [Value.str?] at hvtext

end Directory

namespace Transcript

theorem enterTarget_staysOnLine : enterTarget.StaysOnLine := by
  intro s hs
  refine hs.act (enterTarget_keeps_of_list fun _ => Value.oneLine_list) fun e he => ?_
  unfold enterTarget Directory.change at he
  split at he
  · rename_i target _
    cases hresolve : Directory.resolve s.context target with
    | ok names =>
      rw [hresolve] at he
      rcases Keyed.mem_insertEntry he with rfl | he
      · have hkey : OneLine Directory.workingKey := by decide
        exact .inr hkey
      · exact .inl he
    | error refusal =>
      rw [hresolve] at he
      exact .inl he
  · exact .inl he

theorem fileListing_staysOnLine : fileListing.StaysOnLine := by
  intro s hs
  refine hs.act fileListing_keeps fun e he => ?_
  unfold fileListing at he
  split at he
  · exact .inl he
  · rename_i names hworking
    split at he
    · rcases Keyed.mem_insertEntry he with rfl | he
      · have hmark : OneLine Directory.listingMark := by decide
        have hnames := Value.oneLine_list.1 (hs.context _ (Directory.mem_of_working? hworking))
        exact .inr (oneLine_append.2 ⟨hmark, Directory.oneLine_path hnames⟩)
      · exact .inl he
    · exact .inl he

end Transcript

theorem Catalogue.staysOnLine : ∀ e ∈ entries, e.grammar.StaysOnLine := by
  have hmove : (Grammar.ofFamily Move.family).StaysOnLine := ⟨by decide, by decide⟩
  have houtcome : (Grammar.ofFamily Outcome.family).StaysOnLine := ⟨by decide, by decide⟩
  have hopcode : (Grammar.ofFamily OpCode.family).StaysOnLine := ⟨by decide, by decide⟩
  have hoperator : (Grammar.ofFamily Operator.family).StaysOnLine := ⟨by decide, by decide⟩
  have hround : Rounds.roundShape.OneLine := ⟨by decide, by decide⟩
  have hinstruction : Instructions.instructionShape.OneLine := ⟨by decide, by decide⟩
  have hdir : Transcript.dirShape.OneLine := ⟨by decide, by decide⟩
  have hfile : Transcript.fileShape.OneLine := ⟨by decide, by decide⟩
  have hoperation : Monkeys.operationShape.OneLine := ⟨by decide, by decide⟩
  have hmonkey : Monkeys.monkeyShape.OneLine := ⟨by decide, by decide⟩
  simp [entries, Grammar.StaysOnLine, Grammar.AllStayOnLine, Grammar.space, Grammar.skip, Grammar.skipChar,
    Grammar.integer, Grammar.long,
    Rounds.ofMoves, Rounds.ofOutcomes, Rounds.round, Rounds.outcomeResponse, hmove, houtcome, hround,
    Rounds.respond_staysOnLine,
    Instructions.grammar, Instructions.instruction, hopcode, hinstruction,
    Transcript.grammar, Transcript.command, Transcript.changeDirectory, Transcript.listDirectory, Transcript.entry,
    hdir, hfile, Transcript.enterTarget_staysOnLine, Transcript.fileListing_staysOnLine,
    Monkeys.grammar, Monkeys.monkey, Monkeys.header, Monkeys.items, Monkeys.item, Monkeys.operation,
    Monkeys.divisibility, Monkeys.throwTarget, hoperator, hoperation, hmonkey]

/-- Whatever the text, and whether the parse succeeds or fails. -/
theorem Catalogue.oneLine_run {e : Entry} (he : e ∈ entries) (text : String) : (e.grammar.run text).OneLine :=
  e.grammar.oneLine_parse (staysOnLine e he) _ (State.oneLine_start text)

end StackParser
