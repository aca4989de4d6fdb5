import StackParser.Bundled.Catalogue
import StackParser.ParseError.Equality
import StackParser.Proofs.Rules

/-!
# What the bundled grammars raise

* `ParseError.FromText C` : the input is to blame, or the grammar has a message that satisfies `C`;
* `Shape.fits_lastOptional` : a record whose last field is optional, with or without a value for it;
* what a round of each loop adds to the stack: `Rounds.pushes_round`, `Instructions.pushes_instruction`,
  `Monkeys.pushes_monkey`, `Transcript.pushes_command`. Each reads something: `Rounds.round_consumes`, …;
* `Catalogue.mayRaise_of_parse` : in no bundled grammar do alternatives compete, does a loop stall, or is a record
  assembled from the wrong values. The only messages of their own are those of a refused directory, in the terminal's.
-/

namespace StackParser

/-- The input is to blame, or the grammar has a message that satisfies `C`. -/
def ParseError.FromText (C : String → Prop) : ParseError → Prop
  | .mismatch .. | .notANumber .. | .invalidNumber .. | .exhausted .. => True
  | .ambiguous .. | .noProgress .. | .arity .. | .fieldType .. => False
  | .custom message => C message

theorem ParseError.mismatches_fromText (C : String → Prop) : Mismatches (FromText C) where
  mismatch _ _ := trivial
  notANumber _ := trivial
  invalidNumber _ _ := trivial
  exhausted _ := trivial

/-- The message tells why there is no directory to go to. -/
def Transcript.IsRefusal (message : String) : Prop := ∃ refusal : Directory.Refusal, message = refusal.message

/-- Values of the mandatory fields, with a value of the last field or without. -/
def Layer.lastOptional (shape : Shape) (f : Field) : Layer := fun vs =>
  vs.map Value.type = shape.mandatory.map Field.type ∨ vs.map Value.type = (shape.mandatory ++ [f]).map Field.type

/-- Without a value for the last field the value before it is on top, and it has another type: so the attempt with all
fields fails whatever lies below. -/
theorem Shape.fits_lastOptional {shape : Shape} {f : Field} (hfields : shape.fields = shape.mandatory ++ [f])
    (hmandatory : shape.mandatory ≠ []) (htype : shape.mandatory.getLast?.map Field.type ≠ some f.type) :
    shape.Fits (Layer.lastOptional shape f) := by
  intro s base vs hf hstack hvs
  rcases hvs with htypes | htypes
  · have hne : vs ≠ [] := by
      rintro rfl
      exact hmandatory (List.map_eq_nil_iff.1 htypes.symm)
    have hlast : s.stack.getLast?.map Value.type = shape.mandatory.getLast?.map Field.type := by
      rw [hstack, List.getLast?_append, List.getLast?_eq_some_getLast hne, Option.some_or,
        ← List.getLast?_eq_some_getLast hne, ← List.getLast?_map, ← List.getLast?_map, htypes]
    have hfewer : shape.mandatory.length ≠ shape.fields.length := by
      rw [hfields, List.length_append]
      simp
    refine ⟨_, assemble_of_mandatory hf hstack (misfit?_ne_none_of_getLast? ?_ ?_) hfewer htypes⟩
    · rw [hlast, hfields, List.getLast?_concat]
      exact htype
    · rw [hfields]
      exact List.concat_ne_nil _ _
  · rw [← hfields] at htypes
    exact ⟨_, assemble_of_fields hf hstack htypes⟩

theorem Layer.types_string {vs : List Value} (h : Layer.types [.string] vs) : ∃ text, vs = [.str text] := by
  obtain ⟨v, rfl, hv⟩ := List.map_eq_singleton_iff.1 h
  cases v with
  | str text => exact ⟨text, rfl⟩
  | _ => exact nomatch hv

theorem Layer.types_list {vs : List Value} (h : Layer.types [.list] vs) : ∃ items, vs = [.list items] := by
  obtain ⟨v, rfl, hv⟩ := List.map_eq_singleton_iff.1 h
  cases v with
  | list items => exact ⟨items, rfl⟩
  | _ => exact nomatch hv

section Bundled

variable {C : String → Prop} {U V W : Layer}

open ParseError (FromText mismatches_fromText)

/-! ## Common forms -/

namespace Grammar

theorem pushes_skip (text : String) : (skip text).parser.Pushes (FromText C) (Layer.types []) :=
  (Parser.Pushes.literal (mismatches_fromText C) text false).mono fun _ => Parser.Pushes.types_of_text

theorem pushes_spaces (n : Nat) : (spaces n false).parser.Pushes (FromText C) (Layer.types []) :=
  (Parser.Pushes.spaces (mismatches_fromText C) n false).mono fun _ => Parser.Pushes.types_of_text

theorem pushes_skipChar (c : Char) : (skipChar c).parser.Pushes (FromText C) (Layer.types []) :=
  .char (mismatches_fromText C) c false

theorem pushes_number (kind : NumberKind) :
    (number kind).parser.Pushes (FromText C) (Layer.types [kind.type]) :=
  .number (mismatches_fromText C) kind

theorem pushes_word : word.parser.Pushes (FromText C) (Layer.types [.string]) := .word (mismatches_fromText C)

theorem pushes_lineEnd : lineEnd.parser.Pushes (FromText C) (Layer.types []) := .lineEnd (mismatches_fromText C)

theorem pushes_optional_lineEnd : (optional lineEnd).parser.Pushes (FromText C) (Layer.types []) :=
  Meets.optional pushes_lineEnd fun _ => id

/-- A keyword of a family in which no token begins with another. -/
theorem pushes_ofFamily {α : Type} {F : Family α} (hapart : Parser.Pushes.KeysApart F.tokens) :
    (ofFamily F).parser.Pushes (FromText C) fun vs => ∃ a, vs = [F.value a] := by
  refine (Parser.Pushes.keyword (mismatches_fromText C) F.name (.inr hapart)).mono fun vs hvs => ?_
  obtain ⟨e, he, rfl⟩ := hvs
  obtain ⟨⟨token, a⟩, -, rfl⟩ := List.mem_map.1 he
  exact ⟨a, rfl⟩

theorem pushes_type_ofFamily {α : Type} {F : Family α} (hapart : Parser.Pushes.KeysApart F.tokens) :
    (ofFamily F).parser.Pushes (FromText C) (Layer.types [F.type]) := by
  refine (pushes_ofFamily hapart).mono fun vs hvs => ?_
  obtain ⟨a, rfl⟩ := hvs
  rfl

/-- The loop of a bundled grammar: its body leaves what it finds alone and reads something. -/
theorem meets_tillEnd {g : Grammar} (h : g.parser.Pushes (FromText C) W) (hconsumes : g.parser.Consumes) :
    Meets (FromText C) Layer.any Layer.any (tillEnd g).parse :=
  Meets.tillEnd h.ontoAny (.inr hconsumes)

end Grammar

open Grammar

/-! ## Rounds -/

namespace Rounds

theorem round_consumes (response : Grammar) : (round response).parser.Consumes := consumes _ rfl

/-- `response` finds the keyword of the opponent's move on top. -/
theorem pushes_round {response : Grammar}
    (h : Meets (FromText C) (fun vs => ∃ m, vs = [Move.family.value m])
      (Layer.types [Move.family.type, Move.family.type]) response.parse) :
    (round response).parser.Pushes (FromText C) (Layer.types [roundShape.type]) := by
  refine .record (.sequenceOf ?_) roundShape.fits_fields
  apply Meets.cons (pushes_ofFamily (by decide))
  apply Meets.cons ((pushes_spaces 1).anywhere _)
  apply Meets.cons h
  apply Meets.cons (pushes_optional_lineEnd.anywhere _)
  exact Meets.nil

theorem meets_ofMoves : Meets (FromText C) Layer.any Layer.any ofMoves.parse := by
  refine meets_tillEnd (pushes_round ?_) (round_consumes _)
  refine ((pushes_type_ofFamily (by decide)).ontoTypes [Move.family.type]).mono (fun vs hvs => ?_) fun _ => id
  obtain ⟨m, rfl⟩ := hvs
  rfl

theorem respond_eq (base : List Value) (context : Context) (m : Move) (o : Outcome) :
    respond (base ++ [Move.family.value m, Outcome.family.value o]) context =
      ⟨base ++ [Move.family.value m, Move.family.value (o.responseTo m)], context, none⟩ := by
  have hmove : Move.family.ofValue? (Move.family.value m) = some m := by cases m <;> rfl
  have houtcome : Outcome.family.ofValue? (Outcome.family.value o) = some o := by cases o <;> rfl
  have hsplit : base ++ [Move.family.value m, Outcome.family.value o] =
      (base ++ [Move.family.value m]) ++ [Outcome.family.value o] := by simp
  unfold respond
  dsimp only
  rw [hsplit, List.getLast?_concat, List.dropLast_concat, Option.bind_some, houtcome]
  dsimp only
  rw [List.getLast?_concat, Option.bind_some, hmove]
  dsimp only
  rw [List.append_assoc]
  rfl

theorem respond_meets : Action.Meets (FromText C)
    (fun vs => ∃ m o, vs = [Move.family.value m, Outcome.family.value o])
    (Layer.types [Move.family.type, Move.family.type]) respond where
  error base vs context e hvs he := by
    obtain ⟨m, o, rfl⟩ := hvs
    rw [respond_eq] at he
    exact nomatch he
  keeps base vs context hvs := by
    obtain ⟨m, o, rfl⟩ := hvs
    rw [respond_eq]
    exact List.prefix_append _ _
  adds base vs context hvs _ := by
    obtain ⟨m, o, rfl⟩ := hvs
    rw [respond_eq]
    exact ⟨_, rfl, rfl⟩

theorem meets_ofOutcomes : Meets (FromText C) Layer.any Layer.any ofOutcomes.parse := by
  refine meets_tillEnd (pushes_round (Meets.action _ ?_ respond_meets)) (round_consumes _)
  refine ((pushes_ofFamily (by decide)).onto _).mono (fun _ => id) fun vs hvs => ?_
  obtain ⟨_, _, rfl, ⟨m, rfl⟩, o, rfl⟩ := hvs
  exact ⟨m, o, rfl⟩

end Rounds

/-! ## Instructions -/

namespace Instructions

theorem instruction_consumes : instruction.parser.Consumes := consumes _ rfl

theorem fits_instruction :
    instructionShape.Fits (Layer.lastOptional instructionShape ⟨"operand", .int, .optional⟩) :=
  Shape.fits_lastOptional rfl (by decide) (by decide)

theorem pushes_instruction : instruction.parser.Pushes (FromText C) (Layer.types [instructionShape.type]) := by
  have hoperand : (Grammar.sequenceOf [.space, .integer]).parser.Pushes (FromText C) (Layer.types [.int]) := by
    apply Meets.sequenceOf
    apply Meets.cons (pushes_spaces 1)
    apply Meets.cons (pushes_number .int)
    exact Meets.nil
  have hoptional : Meets (FromText C) (Layer.types [OpCode.family.type])
      (Layer.lastOptional instructionShape ⟨"operand", .int, .optional⟩)
      (Grammar.optional (.sequenceOf [.space, .integer])).parse := by
    refine Meets.optional ?_ fun _ => .inl
    exact (hoperand.ontoTypes [OpCode.family.type]).mono (fun _ => id) fun _ => .inr
  refine .record (.sequenceOf ?_) fits_instruction
  apply Meets.cons (pushes_type_ofFamily (by decide))
  apply Meets.cons hoptional
  apply Meets.cons (pushes_optional_lineEnd.anywhere _)
  exact Meets.nil

theorem meets_grammar : Meets (FromText C) Layer.any Layer.any grammar.parse :=
  meets_tillEnd pushes_instruction instruction_consumes

end Instructions

/-! ## Troops -/

namespace Monkeys

theorem pushes_header : header.parser.Pushes (FromText C) (Layer.types [.int]) := by
  apply Meets.sequenceOf
  apply Meets.cons (pushes_skip _)
  apply Meets.cons (pushes_number .int)
  apply Meets.cons ((pushes_skipChar ':').anywhere _)
  apply Meets.cons (pushes_lineEnd.anywhere _)
  exact Meets.nil

theorem pushes_item : item.parser.Pushes (FromText C) (Layer.types [.long]) := by
  have hcomma : (Grammar.sequenceOf [.skipChar ',', .space]).parser.Pushes (FromText C) (Layer.types []) := by
    apply Meets.sequenceOf
    apply Meets.cons (pushes_skipChar ',')
    apply Meets.cons (pushes_spaces 1)
    exact Meets.nil
  apply Meets.sequenceOf
  apply Meets.cons (pushes_number .long)
  apply Meets.cons (Meets.optional (hcomma.anywhere _) fun _ => id)
  exact Meets.nil

theorem pushes_items : items.parser.Pushes (FromText C) (Layer.types [.list]) := by
  have hlist : (Grammar.list (.oneOrMore item)).parser.Pushes (FromText C) (Layer.types [.list]) :=
    Parser.Pushes.list ((Meets.oneOrMore pushes_item.ontoAny).fromAny _)
  apply Meets.sequenceOf
  apply Meets.cons (pushes_spaces 2)
  apply Meets.cons (pushes_skip _)
  apply Meets.cons hlist
  apply Meets.cons (pushes_lineEnd.anywhere _)
  exact Meets.nil

theorem fits_operation : operationShape.Fits (Layer.lastOptional operationShape ⟨"operand", .long, .optional⟩) :=
  Shape.fits_lastOptional rfl (by decide) (by decide)

/-- A number does not begin with an `o`. -/
theorem operands_exclude : Grammar.long.parser.Excludes (Grammar.skip "old").parser := by
  refine (Parser.Begins.number .long).excludes (Parser.Begins.literal false rfl) ?_
  rintro c hc rfl
  exact absurd hc (by decide)

theorem pushes_operation : operation.parser.Pushes (FromText C) (Layer.types [operationShape.type]) := by
  have hoperand : Meets (FromText C) (Layer.types [Operator.family.type])
      (Layer.lastOptional operationShape ⟨"operand", .long, .optional⟩)
      (Grammar.oneOf [.long, .skip "old"]).parse := by
    refine Meets.either (mismatches_fromText C) ?_ ?_ operands_exclude
    · exact ((pushes_number .long).ontoTypes [Operator.family.type]).mono (fun _ => id) fun _ => .inr
    · exact ((pushes_skip "old").anywhere _).mono (fun _ => id) fun _ => .inl
  refine .record (.sequenceOf ?_) fits_operation
  apply Meets.cons (pushes_spaces 2)
  apply Meets.cons (pushes_skip _)
  apply Meets.cons (pushes_type_ofFamily (by decide))
  apply Meets.cons ((pushes_spaces 1).anywhere _)
  apply Meets.cons hoperand
  apply Meets.cons (pushes_lineEnd.anywhere _)
  exact Meets.nil

theorem pushes_divisibility : divisibility.parser.Pushes (FromText C) (Layer.types [.long]) := by
  apply Meets.sequenceOf
  apply Meets.cons (pushes_spaces 2)
  apply Meets.cons (pushes_skip _)
  apply Meets.cons (pushes_number .long)
  apply Meets.cons (pushes_lineEnd.anywhere _)
  exact Meets.nil

theorem pushes_throwTarget : throwTarget.parser.Pushes (FromText C) (Layer.types [.int]) := by
  have hcase : (Grammar.oneOf [.skip "true: ", .skip "false: "]).parser.Pushes (FromText C) (Layer.types []) :=
    Meets.either (mismatches_fromText C) (pushes_skip _) (pushes_skip _)
      (Parser.Excludes.literal (by decide) (by decide))
  apply Meets.sequenceOf
  apply Meets.cons (pushes_spaces 4)
  apply Meets.cons (pushes_skip _)
  apply Meets.cons hcase
  apply Meets.cons (pushes_skip _)
  apply Meets.cons (pushes_number .int)
  apply Meets.cons (pushes_optional_lineEnd.anywhere _)
  exact Meets.nil

theorem pushes_monkey : monkey.parser.Pushes (FromText C) (Layer.types [monkeyShape.type]) := by
  have hthrows : (Grammar.times 2 throwTarget).parser.Pushes (FromText C) (Layer.types [.int, .int]) :=
    pushes_throwTarget.timesTypes 2
  refine .record (.sequenceOf ?_) monkeyShape.fits_fields
  apply Meets.cons pushes_header
  apply Meets.cons (pushes_items.ontoTypes _)
  apply Meets.cons (pushes_operation.ontoTypes _)
  apply Meets.cons (pushes_divisibility.ontoTypes _)
  apply Meets.cons (hthrows.ontoTypes _)
  apply Meets.cons (pushes_optional_lineEnd.anywhere _)
  exact Meets.nil

theorem monkey_consumes : monkey.parser.Consumes := consumes _ rfl

theorem meets_grammar : Meets (FromText C) Layer.any Layer.any grammar.parse :=
  meets_tillEnd pushes_monkey monkey_consumes

end Monkeys

/-! ## Transcripts -/

namespace Transcript

theorem enterTarget_eq (base : List Value) (target : String) (context : Context) :
    enterTarget (base ++ [.str target]) context =
      match Directory.change context target with
      | .ok context => ⟨base, context, none⟩
      | .error refusal => ⟨base, context, some (.custom refusal.message)⟩ := by
  cases hchange : Directory.change context target with
  | ok context' => simp [enterTarget, hchange]
  | error refusal => simp [enterTarget, hchange]

theorem fileListing_eq (base items : List Value) (context : Context) :
    fileListing (base ++ [.list items]) context =
      match Directory.working? context with
      | .ok names => ⟨base, Directory.file context names items, none⟩
      | .error refusal => ⟨base ++ [.list items], context, some (.custom refusal.message)⟩ := by
  cases hworking : Directory.working? context with
  | ok names => simp [fileListing, hworking]
  | error refusal => simp [fileListing, hworking]

theorem enterTarget_meets (hC : ∀ refusal : Directory.Refusal, C refusal.message) :
    Action.Meets (FromText C) (Layer.types [.string]) (Layer.types []) enterTarget where
  error base vs context e hvs he := by
    obtain ⟨target, rfl⟩ := Layer.types_string hvs
    rw [enterTarget_eq] at he
    split at he
    · exact nomatch he
    · exact Option.some.inj he ▸ ParseError.only_of_isLeaf rfl (hC _)
  keeps base vs context hvs := by
    obtain ⟨target, rfl⟩ := Layer.types_string hvs
    rw [enterTarget_eq]
    split <;> exact List.prefix_rfl
  adds base vs context hvs _ := by
    obtain ⟨target, rfl⟩ := Layer.types_string hvs
    rw [enterTarget_eq]
    split <;> exact ⟨[], (List.append_nil _).symm, rfl⟩

theorem fileListing_meets (hC : ∀ refusal : Directory.Refusal, C refusal.message) :
    Action.Meets (FromText C) (Layer.types [.list]) (Layer.types []) fileListing where
  error base vs context e hvs he := by
    obtain ⟨items, rfl⟩ := Layer.types_list hvs
    rw [fileListing_eq] at he
    split at he
    · exact nomatch he
    · exact Option.some.inj he ▸ ParseError.only_of_isLeaf rfl (hC _)
  keeps base vs context hvs := by
    obtain ⟨items, rfl⟩ := Layer.types_list hvs
    rw [fileListing_eq]
    split
    · exact List.prefix_rfl
    · exact List.prefix_append _ _
  adds base vs context hvs hdone := by
    obtain ⟨items, rfl⟩ := Layer.types_list hvs
    rw [fileListing_eq] at hdone ⊢
    split at hdone
    · exact ⟨[], (List.append_nil _).symm, rfl⟩
    · exact nomatch hdone

theorem pushes_changeDirectory (hC : ∀ refusal : Directory.Refusal, C refusal.message) :
    changeDirectory.parser.Pushes (FromText C) (Layer.types []) := by
  refine Meets.action (V := Layer.types [.string]) _ (.sequenceOf ?_) (enterTarget_meets hC)
  apply Meets.cons (pushes_skip _)
  apply Meets.cons (pushes_spaces 1)
  apply Meets.cons pushes_word
  apply Meets.cons (pushes_optional_lineEnd.anywhere _)
  exact Meets.nil

theorem pushes_dirLine : (Grammar.record dirShape
    (.sequenceOf [.skip "dir ", .word, .optional .lineEnd])).parser.Pushes (FromText C)
      (Layer.types [dirShape.type]) := by
  refine .record (.sequenceOf ?_) dirShape.fits_fields
  apply Meets.cons (pushes_skip _)
  apply Meets.cons pushes_word
  apply Meets.cons (pushes_optional_lineEnd.anywhere _)
  exact Meets.nil

theorem pushes_fileLine : (Grammar.record fileShape
    (.sequenceOf [.long, .space, .word, .optional .lineEnd])).parser.Pushes (FromText C)
      (Layer.types [fileShape.type]) := by
  refine .record (.sequenceOf ?_) fileShape.fits_fields
  apply Meets.cons (pushes_number .long)
  apply Meets.cons ((pushes_spaces 1).anywhere _)
  apply Meets.cons (pushes_word.ontoTypes _)
  apply Meets.cons (pushes_optional_lineEnd.anywhere _)
  exact Meets.nil

/-- A directory begins with a `d`, and a file with its size. -/
theorem pushes_entry : entry.parser.Pushes (FromText C) Layer.any := by
  refine Meets.either (mismatches_fromText C) ?_ ?_ ?_
  · exact pushes_dirLine.mono fun _ _ => trivial
  · exact pushes_fileLine.mono fun _ _ => trivial
  · refine (Parser.Begins.record _ (.sequenceOf (.literal false rfl))).excludes
      (Parser.Begins.record _ (.sequenceOf (.number .long))) ?_
    rintro c rfl
    decide

theorem pushes_listDirectory (hC : ∀ refusal : Directory.Refusal, C refusal.message) :
    listDirectory.parser.Pushes (FromText C) (Layer.types []) := by
  have hlist : (Grammar.list (.oneOrMore entry)).parser.Pushes (FromText C) (Layer.types [.list]) :=
    Parser.Pushes.list ((Meets.oneOrMore pushes_entry.ontoAny).fromAny _)
  refine Meets.action (V := Layer.types [.list]) _ (.sequenceOf ?_) (fileListing_meets hC)
  apply Meets.cons (pushes_skip _)
  apply Meets.cons pushes_lineEnd
  apply Meets.cons hlist
  exact Meets.nil

theorem commands_exclude : changeDirectory.parser.Excludes listDirectory.parser := by
  refine (Parser.Begins.action _ _ (.sequenceOf (.literal false rfl))).excludes
    (Parser.Begins.action _ _ (.sequenceOf (.literal false rfl))) ?_
  rintro c rfl
  decide

theorem pushes_command (hC : ∀ refusal : Directory.Refusal, C refusal.message) :
    command.parser.Pushes (FromText C) (Layer.types []) := by
  have heither : (Grammar.oneOf [changeDirectory, listDirectory]).parser.Pushes (FromText C) (Layer.types []) :=
    Meets.either (mismatches_fromText C) (pushes_changeDirectory hC) (pushes_listDirectory hC) commands_exclude
  apply Meets.sequenceOf
  apply Meets.cons (pushes_skipChar '$')
  apply Meets.cons (pushes_spaces 1)
  apply Meets.cons heither
  exact Meets.nil

theorem command_consumes : command.parser.Consumes := consumes _ rfl

theorem meets_grammar (hC : ∀ refusal : Directory.Refusal, C refusal.message) :
    Meets (FromText C) Layer.any Layer.any grammar.parse :=
  meets_tillEnd (pushes_command hC) command_consumes

end Transcript

end Bundled

/-! ## All of them -/

namespace Catalogue

/-- What may go wrong in a run of a bundled grammar. -/
def Entry.MayRaise (entry : Entry) : ParseError → Prop :=
  ParseError.FromText fun message => entry.name = "terminal" ∧ Transcript.IsRefusal message

theorem Entry.meets_grammar {entry : Entry} (h : entry ∈ entries) :
    Meets entry.MayRaise Layer.any Layer.any entry.grammar.parse := by
  simp only [entries, List.mem_cons, List.not_mem_nil, or_false] at h
  rcases h with rfl | rfl | rfl | rfl | rfl
  · exact Rounds.meets_ofMoves
  · exact Rounds.meets_ofOutcomes
  · exact Instructions.meets_grammar
  · exact Transcript.meets_grammar fun refusal => ⟨rfl, refusal, rfl⟩
  · exact Monkeys.meets_grammar

/-- A bundled grammar that starts without a warning raises an error, at any depth, only where the text is to blame or,
in the terminal's, a directory. -/
theorem mayRaise_of_parse (entry : Entry) (hentry : entry ∈ entries) (s : State) (hs : s.failed = false)
    (hw : s.warning = none) (e d : ParseError) (he : (entry.grammar.parse s).error = some e) (hd : d.Within e) :
    entry.MayRaise d := by
  have hstart : s.Sound entry.MayRaise s.stack (Layer.types []) := by
    refine State.Sound.start hs fun w hw' => ?_
    exact nomatch hw.symm.trans hw'
  exact ((entry.meets_grammar hentry).sound s.stack s (hstart.mono fun _ _ => trivial)).error e he d hd

/-- A listing before any directory was entered, with a value on the stack. -/
theorem mayRaise_of_parse_listing : ∃ terminal ∈ entries,
    (terminal.grammar.parse { State.start "$ ls\n" with stack := [.str "a"] }).error = some (.exhausted [
      (Transcript.changeDirectory.label, .mismatch "'cd'" "ls"),
      (Transcript.listDirectory.label, .custom Directory.Refusal.unset.message)]) ∧
    terminal.MayRaise (.custom Directory.Refusal.unset.message) := by
  have hmem : entries[3] ∈ entries := List.getElem_mem _
  have herror : (entries[3].grammar.parse { State.start "$ ls\n" with stack := [.str "a"] }).error =
      some (.exhausted [
        (Transcript.changeDirectory.label, .mismatch "'cd'" "ls"),
        (Transcript.listDirectory.label, .custom Directory.Refusal.unset.message)]) := by
    decide +kernel
  refine ⟨entries[3], hmem, herror, mayRaise_of_parse _ hmem _ rfl rfl _ _ herror ?_⟩
  exact .failure (List.mem_cons_of_mem _ List.mem_cons_self) .self

end Catalogue

end StackParser
