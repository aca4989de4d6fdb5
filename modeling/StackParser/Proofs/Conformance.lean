import StackParser.Bundled.Catalogue
import StackParser.Proofs.RecordFrame
import StackParser.Proofs.ValueInvariants

/-!
# Records conform to their shapes

* `Value.Within d v` : `d` is `v` or stands inside it, at any depth of lists and records;
* `Shape.Describes` : named values are the fields of a record of this shape, with or without its optional fields;
* `Schema` : shapes under pairwise different names, whose defaults are what they should be. A value conforms to it
  (`Value.ConformsTo`) if each record inside has the name of one of the shapes and is described by it;
* `Grammar.KeepsTo S` : the grammar assembles records of the schema's shapes only, and the values that its tables and
  actions bring in conform;
* `Grammar.conforms_parse` : such a grammar leaves values that conform, whether it succeeds or fails.
-/

namespace StackParser

/-- `d` is `v` or stands inside it. -/
inductive Value.Within (d : Value) : Value → Prop where
  | self : Within d d
  | item {items : List Value} {v : Value} : v ∈ items → Within d v → Within d (.list items)
  | field {shape : String} {fields : List (String × Value)} {e : String × Value} :
    e ∈ fields → Within d e.2 → Within d (.record shape fields)

/-! ## Fields of records -/

/-- Whether a record that is made of values for the mandatory fields only has the field. -/
def Field.settled (f : Field) : Bool :=
  match f.presence with
  | .optional => false
  | _ => true

namespace Shape

def asked (fields : List Field) : List (String × ValueType) := fields.map fun f => (f.name, f.type)

def given (filled : List (String × Value)) : List (String × ValueType) := filled.map fun e => (e.1, e.2.type)

/-- The named values are those of all fields in order, or of all but the optional ones without a default, each of
exactly the type of its field. -/
def Describes (shape : Shape) (filled : List (String × Value)) : Prop :=
  given filled = asked shape.fields ∨ given filled = asked (shape.fields.filter Field.settled)

instance (shape : Shape) (filled : List (String × Value)) : Decidable (shape.Describes filled) :=
  inferInstanceAs (Decidable (_ ∨ _))

variable {fields : List Field} {vs : List Value}

theorem given_fillAll (h : vs.map Value.type = fields.map Field.type) : given (fillAll fields vs) = asked fields := by
  unfold given fillAll asked
  induction fields generalizing vs with
  | nil => simp
  | cons f fields ih =>
    cases vs with
    | nil => simp at h
    | cons v vs =>
      obtain ⟨hv, hvs⟩ := List.cons.inj h
      simp [ih hvs, hv]

/-- The check of the mandatory fields and the filling of a record agree on which value is whose. -/
theorem given_fillMandatory (h : vs.map Value.type = (fields.filter Field.mandatory).map Field.type)
    (hdefault : ∀ f ∈ fields, ∀ d, f.presence = .defaulted d → d.type = f.type) :
    given (fillMandatory fields vs) = asked (fields.filter Field.settled) := by
  unfold given asked
  induction fields generalizing vs with
  | nil => simp [fillMandatory]
  | cons f fields ih =>
    obtain ⟨hf, hfields⟩ := List.forall_mem_cons.1 hdefault
    cases hpresence : f.presence with
    | required =>
      have hmandatory : f.mandatory = true := by simp [Field.mandatory, hpresence]
      have hsettled : f.settled = true := by simp [Field.settled, hpresence]
      rw [List.filter_cons_of_pos hmandatory, List.map_cons] at h
      cases vs with
      | nil => simp at h
      | cons v vs =>
        obtain ⟨hv, hvs⟩ := List.cons.inj h
        simp [fillMandatory, hpresence, hsettled, ih hvs hfields, hv]
    | optional =>
      have hmandatory : f.mandatory = false := by simp [Field.mandatory, hpresence]
      have hsettled : f.settled = false := by simp [Field.settled, hpresence]
      rw [List.filter_cons_of_neg (by simp [hmandatory])] at h
      simp [fillMandatory, hpresence, hsettled, ih h hfields]
    | defaulted d =>
      have hmandatory : f.mandatory = false := by simp [Field.mandatory, hpresence]
      have hsettled : f.settled = true := by simp [Field.settled, hpresence]
      rw [List.filter_cons_of_neg (by simp [hmandatory])] at h
      simp [fillMandatory, hpresence, hsettled, ih h hfields, hf d hpresence]

end Shape

/-! ## Schemas -/

def Shape.find? (shapes : List Shape) (name : String) : Option Shape := shapes.find? fun shape => shape.name == name

/-- Every record inside has the name of one of the shapes and is described by it. -/
def Value.ConformsTo (shapes : List Shape) (v : Value) : Prop :=
  ∀ name filled, (Value.record name filled).Within v →
    ∃ shape, Shape.find? shapes name = some shape ∧ shape.Describes filled

/-- Shapes under pairwise different names. A default has the type of its field and conforms itself. -/
structure Schema where
  shapes : List Shape
  distinct : (shapes.map Shape.name).Nodup
  defaults : ∀ shape ∈ shapes, ∀ f ∈ shape.fields, ∀ d, f.presence = .defaulted d →
    d.type = f.type ∧ d.ConformsTo shapes

namespace Value.ConformsTo

variable {shapes : List Shape}

theorem of_list {items : List Value} (h : ∀ v ∈ items, v.ConformsTo shapes) : (Value.list items).ConformsTo shapes := by
  intro name filled hwithin
  cases hwithin with
  | item hv hwithin => exact h _ hv name filled hwithin

theorem of_record (shape : Shape) {filled : List (String × Value)} (hshape : Shape.find? shapes shape.name = some shape)
    (hdescribes : shape.Describes filled) (h : ∀ e ∈ filled, e.2.ConformsTo shapes) :
    (Value.record shape.name filled).ConformsTo shapes := by
  intro name filled' hwithin
  cases hwithin with
  | self => exact ⟨shape, hshape, hdescribes⟩
  | field he hwithin => exact h _ he name filled' hwithin

end Value.ConformsTo

theorem Value.Inherited.conformsTo (shapes : List Shape) : Value.Inherited (Value.ConformsTo shapes) where
  single v hv := by
    intro name filled hwithin
    cases hwithin <;> simp [Value.isSingle] at hv
  list _ := ConformsTo.of_list

namespace Schema

variable {S : Schema} {shape : Shape}

theorem find?_of_mem (h : shape ∈ S.shapes) : Shape.find? S.shapes shape.name = some shape := by
  obtain ⟨before, after, heq⟩ := List.append_of_mem h
  have hdistinct := S.distinct
  rw [heq, List.map_append, List.map_cons, List.nodup_append] at hdistinct
  unfold Shape.find?
  rw [heq, List.find?_append, List.find?_eq_none.2, Option.none_or, List.find?_cons_of_pos (by simp)]
  intro other hother
  have hne := hdistinct.2.2 other.name (List.mem_map_of_mem hother) shape.name List.mem_cons_self
  simpa using hne

variable {s : State}

/-- Values that conform, and defaults, make a record that conforms. -/
theorem holds_filled (h : shape ∈ S.shapes) (hs : s.Holds (Value.ConformsTo S.shapes)) {base used : List Value}
    {filled : List (String × Value)} (hstack : s.stack = base ++ used) (hdescribes : shape.Describes filled)
    (hfrom : Shape.FilledFrom shape.fields used filled) :
    State.Holds (Value.ConformsTo S.shapes) { s with stack := base ++ [.record shape.name filled] } where
  stack v hv := by
    rcases List.mem_append.1 hv with hv | hv
    · exact hs.stack v (by simp [hstack, hv])
    · rw [List.mem_singleton.1 hv]
      refine Value.ConformsTo.of_record shape (find?_of_mem h) hdescribes fun e he => ?_
      obtain ⟨f, hf, -, hused | hdefault⟩ := hfrom e.1 e.2 he
      · exact hs.stack e.2 (by simp [hstack, hused])
      · exact (S.defaults shape h f hf e.2 hdefault).2
  context := hs.context

theorem holds_assemble (h : shape ∈ S.shapes) (hs : s.Holds (Value.ConformsTo S.shapes)) :
    (shape.assemble s).Holds (Value.ConformsTo S.shapes) := by
  by_cases hfailed : s.failed = true
  · rw [Shape.assemble, if_pos hfailed]
    exact hs
  rcases Shape.assemble_cases shape (Bool.of_not_eq_true hfailed) with
    ⟨base, used, hstack, htypes, heq⟩ | ⟨base, used, -, hstack, htypes, heq⟩ | ⟨e, -, heq⟩
  · rw [heq]
    exact holds_filled h hs hstack (.inl (Shape.given_fillAll htypes)) (Shape.filledFrom_fillAll _ _)
  · have hdefaults : ∀ f ∈ shape.fields, ∀ d, f.presence = .defaulted d → d.type = f.type :=
      fun f hf d hd => (S.defaults shape h f hf d hd).1
    rw [heq]
    exact holds_filled h hs hstack (.inr (Shape.given_fillMandatory htypes hdefaults))
      (Shape.filledFrom_fillMandatory _ _)
  · rw [heq]
    exact hs.fail e

end Schema

/-! ## Grammars -/

namespace Grammar

mutual

/-- Whether records of the schema's shapes only are assembled, and what tables and actions bring in conforms. -/
def KeepsTo (S : Schema) : Grammar → Prop
  | .sequenceOf gs | .oneOf gs => AllKeepTo S gs
  | .optional g | .group g | .list g | .times _ g | .oneOrMore g | .tillEnd g => g.KeepsTo S
  | .stringMap table => ∀ e ∈ table, e.2.ConformsTo S.shapes
  | .record shape g => shape ∈ S.shapes ∧ g.KeepsTo S
  | .action _ g f => f.Keeps (Value.ConformsTo S.shapes) ∧ g.KeepsTo S
  | .custom .. => False
  | _ => True

def AllKeepTo (S : Schema) : List Grammar → Prop
  | [] => True
  | g :: gs => g.KeepsTo S ∧ AllKeepTo S gs

end

variable {S : Schema}

/-- Conformance of all values is an invariant. -/
theorem conforming (shapes : List Shape) :
    State.Invariant (Value.ConformsTo shapes) (State.Holds (Value.ConformsTo shapes)) :=
  State.Holds.invariant (Value.Inherited.conformsTo shapes).list

/-- Values that hold no others conform to any schema. -/
theorem conforms_single {v : Value} (hv : v.isSingle = true) : v.ConformsTo S.shapes :=
  (Value.Inherited.conformsTo S.shapes).single v hv

mutual

theorem keeps_conforming : ∀ g : Grammar, g.KeepsTo S → g.parser.Keeps (State.Holds (Value.ConformsTo S.shapes))
  | .char c captured, _ => .char (conforming _) c captured fun _ => conforms_single rfl
  | .literal text captured, _ => .literal (conforming _) text captured fun _ => conforms_single rfl
  | .letter, _ => .letter (conforming _) fun _ _ => conforms_single rfl
  | .word, _ => .word (conforming _) fun _ _ => conforms_single rfl
  | .number kind, _ => .number (conforming _) kind fun _ _ hv => conforms_single (NumberKind.isSingle_of_value? hv)
  | .spaces n captured, _ => .spaces (conforming _) n captured fun _ => conforms_single rfl
  | .lineEnd, _ => .lineEnd (conforming _)
  | .sequenceOf gs, h => .sequenceOf (conforming _) (all_keep_conforming gs h)
  | .oneOf gs, h => .oneOf (conforming _) (all_keep_conforming gs h)
  | .optional g, h => (keeps_conforming g h).optional (conforming _)
  | .group g, h => (keeps_conforming g h).group (conforming _)
  | .list g, h => (keeps_conforming g h).list (conforming _)
  | .times n g, h => (keeps_conforming g h).times (conforming _) n
  | .oneOrMore g, h => (keeps_conforming g h).oneOrMore (conforming _)
  | .tillEnd g, h => (keeps_conforming g h).tillEnd (conforming _)
  | .stringMap _, h => .stringMap (conforming _) fun e he => ⟨conforms_single rfl, h e he⟩
  | .keyword family _, _ => .keyword (conforming _) family fun _ _ => ⟨conforms_single rfl, conforms_single rfl⟩
  | .record _ g, h => (keeps_conforming g h.2).record (conforming _) fun _ => Schema.holds_assemble h.1
  | .action name g _, h => (keeps_conforming g h.2).action (conforming _) name h.1

theorem all_keep_conforming : ∀ gs : List Grammar, AllKeepTo S gs →
    ∀ p ∈ parsers gs, p.Keeps (State.Holds (Value.ConformsTo S.shapes))
  | [], _, _, hp => nomatch hp
  | g :: gs, h, p, hp => by
    rcases List.mem_cons.1 hp with rfl | hp
    · exact keeps_conforming g h.1
    · exact all_keep_conforming gs h.2 p hp

end

end Grammar

/-! ## The bundled grammars -/

section Actions

variable {shapes : List Shape}

theorem Value.ConformsTo.list_iff {items : List Value} :
    (Value.list items).ConformsTo shapes ↔ ∀ v ∈ items, v.ConformsTo shapes :=
  ⟨fun h _ hv name filled hwithin => h name filled (.item hv hwithin), of_list⟩

theorem Rounds.respond_keeps : Action.Keeps (Value.ConformsTo shapes) Rounds.respond :=
  respond_keeps_of_moves fun _ => (Value.Inherited.conformsTo shapes).single _ rfl

theorem Transcript.enterTarget_keeps : Action.Keeps (Value.ConformsTo shapes) Transcript.enterTarget :=
  enterTarget_keeps_of_list fun _ => Value.ConformsTo.list_iff

end Actions

namespace Catalogue

def schema : Schema where
  shapes := [Rounds.roundShape, Instructions.instructionShape, Transcript.dirShape, Transcript.fileShape,
    Monkeys.operationShape, Monkeys.monkeyShape]
  distinct := by decide
  defaults := by
    have hnone : ∀ shape ∈ [Rounds.roundShape, Instructions.instructionShape, Transcript.dirShape,
        Transcript.fileShape, Monkeys.operationShape, Monkeys.monkeyShape],
        ∀ f ∈ shape.fields, f.settled = f.mandatory := by decide
    intro shape hshape f hf d hd
    have hf' := hnone shape hshape f hf
    simp [Field.settled, Field.mandatory, hd] at hf'

theorem keepsTo_schema : ∀ e ∈ entries, e.grammar.KeepsTo schema := by
  simp [entries, schema, Grammar.KeepsTo, Grammar.AllKeepTo, Rounds.ofMoves, Rounds.ofOutcomes, Rounds.round,
    Rounds.outcomeResponse, Rounds.respond_keeps, Instructions.grammar, Instructions.instruction,
    Transcript.grammar, Transcript.command, Transcript.changeDirectory, Transcript.listDirectory, Transcript.entry,
    Transcript.enterTarget_keeps, Transcript.fileListing_keeps, Monkeys.grammar, Monkeys.monkey, Monkeys.header,
    Monkeys.items, Monkeys.item, Monkeys.operation, Monkeys.divisibility, Monkeys.throwTarget,
    Grammar.ofFamily, Grammar.space, Grammar.skip, Grammar.skipChar, Grammar.integer, Grammar.long]

end Catalogue

/-- All values that a grammar leaves conform to a schema if it assembles records of the schema's shapes only and the
values before and in its tables conform. So each record has the fields of its shape, in order and of their types. -/
theorem Grammar.conforms_parse (S : Schema) (g : Grammar) (s : State) (hg : g.KeepsTo S)
    (hs : s.Holds (Value.ConformsTo S.shapes)) : (g.parse s).Holds (Value.ConformsTo S.shapes) :=
  keeps_conforming g hg s hs

/-- The block breaks off in its fourth line: what stays is the listing from before, the number, the items and the record
of the operation, which has no operand. -/
theorem Grammar.conforms_parse_broken :
    let text := "Monkey 0:\n  Starting items: 79, 98\n  Operation: new = old * old\n  Test: none\n"
    let s := { State.start text with stack := [.list [.record "Dir" [("name", .str "a")]]] }
    Monkeys.grammar.KeepsTo Catalogue.schema ∧ s.Holds (Value.ConformsTo Catalogue.schema.shapes) ∧
      (Monkeys.grammar.parse s).failed = true ∧
      (Monkeys.grammar.parse s).stack.map Value.type = [.list, .int, .list, Monkeys.operationShape.type] ∧
      (Monkeys.grammar.parse s).Holds (Value.ConformsTo Catalogue.schema.shapes) := by
  intro text s
  have hgrammar : Monkeys.grammar.KeepsTo Catalogue.schema :=
    Catalogue.keepsTo_schema Catalogue.entries[4] (List.getElem_mem _)
  have hname : (Value.str "a").ConformsTo Catalogue.schema.shapes := (Value.Inherited.conformsTo _).single _ rfl
  have hdir : (Value.record "Dir" [("name", .str "a")]).ConformsTo Catalogue.schema.shapes :=
    Value.ConformsTo.of_record Transcript.dirShape rfl (by decide) (by simpa using hname)
  have hs : s.Holds (Value.ConformsTo Catalogue.schema.shapes) := by
    refine ⟨?_, fun e he => nomatch he⟩
    simpa [s] using Value.ConformsTo.of_list (by simpa using hdir)
  exact ⟨hgrammar, hs, by decide +kernel, by decide +kernel, conforms_parse Catalogue.schema Monkeys.grammar s hgrammar hs⟩

end StackParser
