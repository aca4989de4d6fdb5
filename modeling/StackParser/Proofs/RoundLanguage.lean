import StackParser.Bundled.Rounds
import StackParser.Proofs.Acceptance
import StackParser.Proofs.BundledErrors

/-!
# The languages of rounds

* `Rounds.Token` : the six letters, with the move each stands for and, for the last three, the outcome;
* `Rounds.Line` : a round as it can be written, with its `text` and the `record` of its two moves. `Line.answered` has the
  letter of the response in place of the letter of an outcome;
* `Rounds.Column response admits resolve` : `response` reads the letters that `admits` lets in, and a line counts as
  `resolve` of it. Moves are such a column, and so are outcomes (`column_moves`, `column_outcomes`);
* `Rounds.languages` : exactly the texts made of rounds are read, as the records of the rounds. Rounds with outcomes are read
  as the rounds that they are answered by.
-/

namespace StackParser.Rounds

/-- A letter of either column. -/
inductive Token where
  | a
  | b
  | c
  | x
  | y
  | z
  deriving DecidableEq, Repr

namespace Token

def text : Token → String
  | a => "A"
  | b => "B"
  | c => "C"
  | x => "X"
  | y => "Y"
  | z => "Z"

def move : Token → Move
  | a | x => .rock
  | b | y => .paper
  | c | z => .scissors

/-- Only the last three letters stand for an outcome. -/
def outcome? : Token → Option Outcome
  | x => some .lose
  | y => some .draw
  | z => some .win
  | _ => none

def ofMove : Move → Token
  | .rock => a
  | .paper => b
  | .scissors => c

theorem move_ofMove (m : Move) : (ofMove m).move = m := by cases m <;> rfl

theorem mem_moves (t : Token) : (t.text, t.move) ∈ Move.family.table := by cases t <;> decide

theorem exists_of_mem_moves {entry : String × Move} (h : entry ∈ Move.family.table) :
    ∃ t : Token, entry = (t.text, t.move) := by
  simp only [Move.family, List.mem_cons, List.not_mem_nil, or_false] at h
  rcases h with rfl | rfl | rfl | rfl | rfl | rfl
  · exact ⟨a, rfl⟩
  · exact ⟨b, rfl⟩
  · exact ⟨c, rfl⟩
  · exact ⟨x, rfl⟩
  · exact ⟨y, rfl⟩
  · exact ⟨z, rfl⟩

theorem mem_outcomes {t : Token} {o : Outcome} (h : t.outcome? = some o) : (t.text, o) ∈ Outcome.family.table := by
  cases t <;> cases h <;> decide

theorem exists_of_mem_outcomes {entry : String × Outcome} (h : entry ∈ Outcome.family.table) :
    ∃ t : Token, entry.1 = t.text ∧ t.outcome? = some entry.2 := by
  simp only [Outcome.family, List.mem_cons, List.not_mem_nil, or_false] at h
  rcases h with rfl | rfl | rfl
  · exact ⟨x, rfl, rfl⟩
  · exact ⟨y, rfl, rfl⟩
  · exact ⟨z, rfl, rfl⟩

end Token

structure Line where
  opponent : Token
  response : Token
  lineBreak : Option LineBreak

namespace Line

def text (l : Line) : List Char :=
  l.opponent.text.toList ++ ([' '] ++ (l.response.text.toList ++ LineBreak.optional l.lineBreak))

def record (l : Line) : Value :=
  .record "Round" [("opponent", Move.family.value l.opponent.move), ("response", Move.family.value l.response.move)]

/-- The line with the response that brings its outcome about. -/
def answered (l : Line) : Line :=
  match l.response.outcome? with
  | some o => { l with response := .ofMove (o.responseTo l.opponent.move) }
  | none => l

end Line

def textOf (lines : List Line) : List Char := lines.flatMap Line.text

open Grammar
open StackParser.Parser (Reads Yields)

variable {response : Grammar} {admits : Token → Prop} {resolve : Line → Line} {lines : List Line} {rest : List Char}

theorem not_lineBreak_textOf (lines : List Line) (b : LineBreak) : ¬ b.text <+: textOf lines := by
  cases lines with
  | nil => exact Parser.not_lineBreak_prefix_nil b
  | cons l lines =>
    rw [textOf, List.flatMap_cons, Line.text]
    cases l.opponent <;> cases b <;> simp [Token.text, LineBreak.text]

/-! ## The second column -/

/-- `response` reads the letters that `admits` lets in. What it makes of a letter behind the move of a line is the response
of the line that is resolved. -/
structure Column (response : Grammar) (admits : Token → Prop) (resolve : Line → Line) : Prop where
  opponent : ∀ l, (resolve l).opponent = l.opponent
  reads : ∀ (l : Line) (s : State) (rest : List Char), admits l.response → s.failed = false →
    s.cursor.after = l.response.text.toList ++ rest → s.stack.getLast? = some (Move.family.value l.opponent.move) →
    s.Becomes (response.parser.parse s) l.response.text.toList.length [Move.family.value (resolve l).response.move]
      s.context
  yields : response.parser.Yields (.still fun cs _ vs =>
    ∃ (t : Token) (m : Move), admits t ∧ cs = t.text.toList ∧ vs = [Move.family.value m])

theorem yields_move : (ofFamily Move.family).parser.Yields (.still fun cs _ vs =>
    ∃ t : Token, cs = t.text.toList ∧ vs = [Move.family.value t.move]) := by
  refine (Yields.ofFamily (by decide)).mono ?_
  rintro cs rest c vs d ⟨⟨entry, hentry, rfl, rfl⟩, rfl⟩
  obtain ⟨t, rfl⟩ := Token.exists_of_mem_moves hentry
  exact ⟨⟨t, rfl, rfl⟩, rfl⟩

theorem column_moves : Column (ofFamily Move.family) (fun _ => True) id where
  opponent _ := rfl
  reads l s rest _ hs hafter _ := reads_ofFamily (by decide) l.response.mem_moves rest s.context s hs hafter rfl
  yields := by
    refine yields_move.mono ?_
    rintro cs rest c vs d ⟨⟨t, rfl, rfl⟩, rfl⟩
    exact ⟨⟨t, t.move, trivial, rfl, rfl⟩, rfl⟩

/-- An outcome is answered only behind a move, and then the response takes its place. -/
theorem respond_of_accepted {base : List Value} {context : Context} {o : Outcome}
    (h : (respond (base ++ [Outcome.family.value o]) context).error = none) :
    ∃ m : Move, respond (base ++ [Outcome.family.value o]) context = ⟨base ++ [Move.family.value m], context, none⟩ := by
  have houtcome : Outcome.family.ofValue? (Outcome.family.value o) = some o := by cases o <;> rfl
  unfold respond at h ⊢
  dsimp only at h ⊢
  rw [List.getLast?_concat, List.dropLast_concat, Option.bind_some, houtcome] at h ⊢
  dsimp only at h ⊢
  cases hmove : base.getLast?.bind Move.family.ofValue? with
  | none =>
    rw [hmove] at h
    exact nomatch h
  | some m => exact ⟨o.responseTo m, rfl⟩

theorem column_outcomes : Column outcomeResponse (fun t => t.outcome?.isSome) Line.answered where
  opponent l := by
    rw [Line.answered]
    split <;> rfl
  reads l s rest hadmits hs hafter htop := by
    obtain ⟨o, ho⟩ := Option.isSome_iff_exists.1 hadmits
    obtain ⟨base, hbase⟩ := List.getLast?_eq_some_iff.1 htop
    have hread := reads_ofFamily (by decide) (Token.mem_outcomes ho) rest s.context s hs hafter rfl
    have hanswered : (Line.answered l).response.move = o.responseTo l.opponent.move := by
      rw [Line.answered, ho]
      exact Token.move_ofMove _
    refine Parser.becomes_action _ hs hread ?_
    rw [hanswered, hbase, List.append_assoc, List.append_assoc]
    exact respond_eq base s.context l.opponent.move o
  yields := by
    have houtcome : (ofFamily Outcome.family).parser.Yields (.still fun cs _ vs =>
        ∃ (t : Token) (o : Outcome), t.outcome? = some o ∧ cs = t.text.toList ∧ vs = [Outcome.family.value o]) := by
      refine (Yields.ofFamily (by decide)).mono ?_
      rintro cs rest c vs d ⟨⟨⟨token, o⟩, hentry, rfl, rfl⟩, rfl⟩
      obtain ⟨t, rfl, ht⟩ := Token.exists_of_mem_outcomes hentry
      exact ⟨⟨t, o, ht, rfl, rfl⟩, rfl⟩
    refine Yields.action _ houtcome ?_
    rintro base cs rest c us e ⟨⟨t, o, ht, rfl, rfl⟩, rfl⟩ hdone
    obtain ⟨m, hm⟩ := respond_of_accepted hdone
    exact ⟨_, _, hm, ⟨t, m, by rw [ht]; rfl, rfl, rfl⟩, rfl⟩

/-! ## Rounds -/

theorem makes_round (m m' : Move) : roundShape.Makes [Move.family.value m, Move.family.value m']
    (.record "Round" [("opponent", Move.family.value m), ("response", Move.family.value m')]) :=
  Shape.Makes.all rfl

/-- The response is read with the move of its own line on top, whatever lies below. -/
theorem reads_round (h : Column response admits resolve) {l : Line} (hl : admits l.response)
    (hbreak : (Grammar.optional .lineEnd).parser.Reads (LineBreak.optional l.lineBreak) rest []) :
    (round response).parser.Reads l.text rest [(resolve l).record] := by
  have hparts : (Grammar.sequenceOf [.ofFamily Move.family, .space, response, .optional .lineEnd]).parser.Reads l.text
      rest [Move.family.value l.opponent.move, Move.family.value (resolve l).response.move] := by
    intro c s hs hafter hc
    subst hc
    rw [Line.text, List.append_assoc, List.append_assoc, List.append_assoc] at hafter
    have hmove := reads_ofFamily (by decide) l.opponent.mem_moves _ s.context s hs hafter rfl
    have hspace := reads_space _ _ _ hmove.success (hmove.after_eq hafter) hmove.context
    have hafter' := hspace.after_eq (hmove.after_eq hafter)
    have hresponse := h.reads l _ _ hl hspace.success hafter' (by
      rw [hspace.stack, hmove.stack, List.append_nil, List.getLast?_concat])
    rw [hspace.context] at hresponse
    have hend := (Reads.last hbreak) _ _ hresponse.success (hresponse.after_eq hafter') hresponse.context
    have hall := Parser.becomes_cons hs hmove <| Parser.becomes_cons hmove.success hspace <|
      Parser.becomes_cons hspace.success hresponse hend
    rw [Line.text, List.length_append, List.length_append, List.length_append]
    exact hall
  have hmakes := makes_round l.opponent.move (resolve l).response.move
  rw [← h.opponent l] at hmakes
  exact fun c => (hparts c).record (h.opponent l ▸ hmakes)

theorem readsAll_lines (h : Column response admits resolve) (hlines : ∀ l ∈ lines, admits l.response) (c : Context) :
    (round response).parser.TurnsAll [] (textOf lines) c (lines.map fun l => (resolve l).record) c := by
  induction lines with
  | nil => exact .nil c
  | cons l lines ih =>
    obtain ⟨hl, hothers⟩ := List.forall_mem_cons.1 hlines
    have hbreak : (Grammar.optional .lineEnd).parser.Reads (LineBreak.optional l.lineBreak) (textOf lines ++ []) [] := by
      rw [List.append_nil]
      cases l.lineBreak with
      | none => exact reads_no_lineEnd (not_lineBreak_textOf lines)
      | some b => exact reads_optional_lineEnd b _
    refine .cons ?_ (reads_round h hl hbreak c) (ih hothers)
    rw [Line.text]
    cases l.opponent <;> simp [Token.text]

theorem run_lines (h : Column response admits resolve) (hlines : ∀ l ∈ lines, admits l.response) {text : String}
    (htext : text.toList = textOf lines) : ((Grammar.tillEnd (round response)).run text).failed = false ∧
      ((Grammar.tillEnd (round response)).run text).stack = lines.map fun l => (resolve l).record := by
  have hall : (Grammar.tillEnd (round response)).parser.Turns text.toList [] .empty
      (lines.map fun l => (resolve l).record) .empty := by
    rw [htext]
    exact Parser.Turns.tillEnd (readsAll_lines h hlines .empty)
  obtain ⟨hsuccess, -, hstack, -⟩ := run_of_turns hall
  exact ⟨hsuccess, hstack⟩

theorem yields_round (h : Column response admits resolve) : (round response).parser.Yields (.still fun cs _ _ =>
    ∃ l : Line, admits l.response ∧ cs = l.text) := by
  refine Yields.record (Yields.cons yields_move <| Yields.silent Yields.space <| Yields.cons h.yields <|
    Yields.last Yields.optional_lineEnd) ?_
  rintro cs rest c vs d ⟨first, _, us, _, e, rfl, rfl, ⟨⟨t, rfl, rfl⟩, rfl⟩, ds, rfl, second, ending, us', ws, e', rfl, rfl,
    ⟨⟨t', m, ht', rfl, rfl⟩, rfl⟩, ⟨hending, rfl⟩, rfl⟩
  refine ⟨_, makes_round t.move m, ?_, rfl⟩
  rcases hending with ⟨b, rfl⟩ | ⟨rfl, -⟩
  · exact ⟨⟨t, t', some b⟩, ht', rfl⟩
  · exact ⟨⟨t, t', none⟩, ht', rfl⟩

theorem lines_of_repeated {cs : List Char} {c d : Context} {vs : List Value} (h : Passage.Repeated
    (.still fun cs _ _ => ∃ l : Line, admits l.response ∧ cs = l.text) rest cs c vs d) :
    ∃ lines, cs = textOf lines ∧ ∀ l ∈ lines, admits l.response := by
  induction h with
  | nil c => exact ⟨[], rfl, fun _ hl => nomatch hl⟩
  | cons hfirst _ ih =>
    obtain ⟨⟨l, hl, rfl⟩, -⟩ := hfirst
    obtain ⟨lines, rfl, hlines⟩ := ih
    exact ⟨l :: lines, rfl, List.forall_mem_cons.2 ⟨hl, hlines⟩⟩

theorem exists_lines (h : Column response admits resolve) {text : String}
    (hsuccess : ((Grammar.tillEnd (round response)).run text).failed = false) :
    ∃ lines, text.toList = textOf lines ∧ ∀ l ∈ lines, admits l.response := by
  obtain ⟨cs, rest, vs, hafter, -, rfl, hall⟩ := Yields.tillEnd (yields_round h) (.start text) hsuccess
  have htext : text.toList = cs := hafter.trans (List.append_nil cs)
  exact htext ▸ lines_of_repeated hall

/-- Exactly the texts made of rounds are read, and leave the records of the rounds. With outcomes, exactly those whose second
letters all stand for outcomes are read, and leave the records that the answered rounds leave when they are read. -/
theorem languages (text : String) :
    ((ofMoves.run text).failed = false ↔ ∃ lines, text.toList = textOf lines) ∧
    ((ofOutcomes.run text).failed = false ↔
      ∃ lines, text.toList = textOf lines ∧ ∀ l ∈ lines, l.response.outcome?.isSome) ∧
    ∀ lines, text.toList = textOf lines →
      (ofMoves.run text).stack = lines.map Line.record ∧
      ((∀ l ∈ lines, l.response.outcome?.isSome) →
        (ofOutcomes.run text).stack = (lines.map Line.answered).map Line.record ∧
        (ofMoves.run (String.ofList (textOf (lines.map Line.answered)))).failed = false ∧
        (ofMoves.run (String.ofList (textOf (lines.map Line.answered)))).stack = (ofOutcomes.run text).stack) := by
  have hmoves : ∀ (text : String) (lines : List Line), text.toList = textOf lines →
      (ofMoves.run text).failed = false ∧ (ofMoves.run text).stack = lines.map Line.record := fun _ _ htext =>
    run_lines column_moves (fun _ _ => trivial) htext
  refine ⟨⟨fun hsuccess => ?_, ?_⟩, ⟨exists_lines column_outcomes, ?_⟩, fun lines htext => ⟨?_, fun hlines => ?_⟩⟩
  · obtain ⟨lines, htext, -⟩ := exists_lines column_moves hsuccess
    exact ⟨lines, htext⟩
  · rintro ⟨lines, htext⟩
    exact (hmoves text lines htext).1
  · rintro ⟨lines, htext, hlines⟩
    exact (run_lines column_outcomes hlines htext).1
  · exact (hmoves text lines htext).2
  · obtain ⟨hanswered, hrecords⟩ := hmoves _ (lines.map Line.answered) String.toList_ofList
    obtain ⟨-, hstack⟩ := run_lines column_outcomes hlines htext
    have hsame : (ofOutcomes.run text).stack = (lines.map Line.answered).map Line.record := by
      rw [List.map_map]
      exact hstack
    exact ⟨hsame, hanswered, hrecords.trans hsame.symm⟩

/-- Paper wins against rock, and draws against itself. -/
theorem languages_pair :
    let text := "A Z\r\nB Y"
    let lines : List Line := [⟨.a, .z, some .returnFeed⟩, ⟨.b, .y, none⟩]
    text.toList = textOf lines ∧ (ofOutcomes.run text).failed = false ∧
      (ofOutcomes.run text).stack = [Line.record ⟨.a, .b, some .returnFeed⟩, Line.record ⟨.b, .b, none⟩] := by
  intro text lines
  have htext : text.toList = textOf lines := by decide +kernel
  have houtcomes : ∀ l ∈ lines, l.response.outcome?.isSome := by decide
  obtain ⟨-, haccepted, hrecords⟩ := languages text
  exact ⟨htext, haccepted.2 ⟨lines, htext, houtcomes⟩, ((hrecords lines htext).2 houtcomes).1⟩

end StackParser.Rounds
