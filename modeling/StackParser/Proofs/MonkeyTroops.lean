import StackParser.Proofs.MonkeyLines

/-!
# Troops of monkeys that are accepted

* `Monkeys.Block` : six lines of a monkey as they can be written, with the `text` and the `record` that stands for it;
* `Monkeys.run_blocks`, `Monkeys.exists_blocks` : exactly the texts made of blocks are accepted, and leave the records of the
  blocks;
* `Block.Attributed b v` : the record `v` throws where the lines of the two cases say;
* `Monkeys.targets_of_accepted` : this holds of a block exactly if it has a line for each case, and that of the true case
  comes first or makes no difference.
-/

namespace StackParser.Monkeys

/-- The lines of a monkey. A blank line may follow the last of them, if that one has its end. -/
structure Block where
  id : Literal .int
  idBreak : LineBreak
  items : List Item
  apart : items.IsChain Item.Apart
  itemsBreak : LineBreak
  operation : Operation
  divisor : Literal .long
  divisorBreak : LineBreak
  first : Throw
  second : Throw
  blank : Option LineBreak
  ended : second.lineBreak = none → blank = none

namespace Block

def text (b : Block) : List Char :=
  ("Monkey ".toList ++ (b.id.text ++ (':' :: b.idBreak.text))) ++
  (("  Starting items: ".toList ++ (itemsText b.items ++ b.itemsBreak.text)) ++
  (b.operation.text ++
  (("  Test: divisible by ".toList ++ (b.divisor.text ++ b.divisorBreak.text)) ++
  ((b.first.text ++ b.second.text) ++
  LineBreak.optional b.blank))))

/-- The first of the two lines of throws is taken for the true case, whatever it says. -/
def record (b : Block) : Value :=
  .record "Monkey" [
    ("id", b.id.value),
    ("items", .list (b.items.map Item.value)),
    ("operation", b.operation.record),
    ("divisor", b.divisor.value),
    ("if_true", b.first.target.value),
    ("if_false", b.second.target.value)]

/-- Nothing that follows is read as a part of the block. -/
def Ends (b : Block) (rest : List Char) : Prop :=
  b.second.Ends (LineBreak.optional b.blank ++ rest) ∧ (b.blank = none → ∀ b' : LineBreak, ¬ b'.text <+: rest)

theorem makes_record (b : Block) : monkeyShape.Makes [b.id.value, .list (b.items.map Item.value), b.operation.record,
    b.divisor.value, b.first.target.value, b.second.target.value] b.record := by
  refine Shape.Makes.all ?_
  simp only [List.map_cons, List.map_nil, Literal.type_value]
  rfl

end Block

def textOf (blocks : List Block) : List Char := blocks.flatMap Block.text

open StackParser.Parser (Exact Turns Yields)

variable {rest : List Char} {blocks : List Block} {text : String}

/-! ## Blocks -/

theorem exact_throws : (Grammar.times 2 throwTarget).parser.Exact fun cs rest vs => ∃ t t' : Throw,
    cs = t.text ++ t'.text ∧ vs = [t.target.value, t'.target.value] ∧ t'.Ends rest := by
  refine (Exact.times_succ exact_throwTarget <| Exact.times_succ exact_throwTarget <| Exact.times_zero _).congr
    fun cs rest vs => ⟨?_, ?_⟩
  · rintro ⟨⟨t, rfl, rfl, -⟩, ⟨⟨t', rfl, rfl, hends⟩, ⟨rfl, rfl⟩, rfl, rfl⟩, rfl, rfl⟩
    exact ⟨t, t', by rw [List.append_nil], rfl, hends⟩
  · rintro ⟨t, t', rfl, rfl, hends⟩
    have hfirst : t.Ends (t'.text ++ [] ++ rest) := fun _ => ⟨stopsAt_cons.2 rfl, fun b => by
      cases b <;> exact fun ⟨_, hmore⟩ => nomatch hmore⟩
    have hsecond : t'.Ends ([] ++ rest) := hends
    exact ⟨⟨t, rfl, rfl, hfirst⟩, ⟨⟨t', rfl, rfl, hsecond⟩, ⟨rfl, rfl⟩, rfl, rfl⟩, by rw [List.append_nil], rfl⟩

theorem exact_monkey : monkey.parser.Exact fun cs rest vs => ∃ b : Block,
    cs = b.text ∧ vs = [b.record] ∧ b.Ends rest := by
  have hparts := Exact.cons exact_header <| Exact.cons exact_items <| Exact.cons exact_operation <|
    Exact.cons exact_divisibility <| Exact.cons exact_throws <| Exact.last .optional_lineEnd
  refine Exact.record hparts ?_ ?_
  · rintro cs rest vs ⟨⟨id, idBreak, rfl, rfl⟩, ⟨⟨items, itemsBreak, happart, rfl, rfl⟩, ⟨⟨operation, rfl, rfl⟩,
      ⟨⟨divisor, divisorBreak, rfl, rfl⟩, ⟨⟨first, second, rfl, rfl, hends⟩, ⟨blank, rfl, rfl, hblank⟩, rfl, rfl⟩, rfl, rfl⟩,
      rfl, rfl⟩, rfl, rfl⟩, rfl, rfl⟩
    have hended : second.lineBreak = none → blank = none := by
      intro hnone
      cases blank with
      | none => rfl
      | some b => exact absurd (List.prefix_append _ _) ((hends hnone).2 b)
    let b : Block := ⟨id, idBreak, items, happart, itemsBreak, operation, divisor, divisorBreak, first, second, blank, hended⟩
    exact ⟨b.record, b.makes_record, b, rfl, rfl, hends, hblank⟩
  · rintro cs rest ws ⟨b, rfl, rfl, hends, hblank⟩
    refine ⟨_, _, ?_, b.makes_record, rfl⟩
    exact ⟨⟨b.id, b.idBreak, rfl, rfl⟩, ⟨⟨b.items, b.itemsBreak, b.apart, rfl, rfl⟩, ⟨⟨b.operation, rfl, rfl⟩,
      ⟨⟨b.divisor, b.divisorBreak, rfl, rfl⟩, ⟨⟨b.first, b.second, rfl, rfl, hends⟩, ⟨b.blank, rfl, rfl, hblank⟩, rfl, rfl⟩,
      rfl, rfl⟩, rfl, rfl⟩, rfl, rfl⟩, rfl, rfl⟩

/-! ## Troops -/

/-- The text of blocks is empty or begins with a letter. -/
theorem Block.ends_textOf (b : Block) (blocks : List Block) : b.Ends (textOf blocks) := by
  have hhead : ∀ c ∈ (textOf blocks).head?, c = 'M' := by
    cases blocks with
    | nil => exact nofun
    | cons next blocks => exact fun c hc => (Option.some.inj hc).symm
  have hbreak : ∀ b' : LineBreak, ¬ b'.text <+: textOf blocks := by
    rintro b' ⟨more, hmore⟩
    cases b' with
    | feed => exact absurd (hhead '\n' (by rw [← hmore]; rfl)) (by decide)
    | returnFeed => exact absurd (hhead '\r' (by rw [← hmore]; rfl)) (by decide)
  refine ⟨fun hnone => ?_, fun _ => hbreak⟩
  rw [b.ended hnone]
  refine ⟨fun c hc => ?_, hbreak⟩
  rw [hhead c hc]
  rfl

theorem readsAll_blocks (blocks : List Block) (c : Context) :
    monkey.parser.TurnsAll [] (textOf blocks) c (blocks.map Block.record) c := by
  induction blocks with
  | nil => exact .nil c
  | cons b blocks ih =>
    have hends : b.Ends (textOf blocks ++ []) := by
      rw [List.append_nil]
      exact b.ends_textOf blocks
    exact .cons (List.cons_ne_nil _ _) (exact_monkey.reads ⟨b, rfl, rfl, hends⟩ c) ih

theorem run_blocks (h : text.toList = textOf blocks) :
    (grammar.run text).failed = false ∧ (grammar.run text).stack = blocks.map Block.record := by
  have hall : grammar.parser.Turns text.toList [] .empty (blocks.map Block.record) .empty := by
    rw [h]
    exact Turns.tillEnd (readsAll_blocks blocks .empty)
  obtain ⟨hsuccess, -, hstack, -⟩ := Grammar.run_of_turns hall
  exact ⟨hsuccess, hstack⟩

theorem blocks_of_repeated {cs : List Char} {c d : Context} {vs : List Value} (h : Passage.Repeated
    (.still fun cs rest vs => ∃ b : Block, cs = b.text ∧ vs = [b.record] ∧ b.Ends rest) rest cs c vs d) :
    ∃ blocks, cs = textOf blocks := by
  induction h with
  | nil c => exact ⟨[], rfl⟩
  | cons hfirst _ ih =>
    obtain ⟨⟨b, rfl, -⟩, -⟩ := hfirst
    obtain ⟨blocks, rfl⟩ := ih
    exact ⟨b :: blocks, rfl⟩

theorem exists_blocks (h : (grammar.run text).failed = false) : ∃ blocks, text.toList = textOf blocks := by
  obtain ⟨cs, rest, vs, hafter, -, rfl, hall⟩ := Yields.tillEnd exact_monkey.yields (.start text) h
  have htext : text.toList = cs := hafter.trans (List.append_nil cs)
  exact htext ▸ blocks_of_repeated hall

/-! ## Where the items are thrown -/

namespace Block

/-- What the lines of a case say. -/
def targets (b : Block) (branch : Bool) : List Value :=
  ([b.first, b.second].filter fun t => t.branch == branch).map fun t => t.target.value

/-- There is one line for each case, and the record has what it says. -/
structure Attributed (b : Block) (v : Value) : Prop where
  ifTrue : ∃ n, b.targets true = [n] ∧ v.field? "if_true" = some n
  ifFalse : ∃ n, b.targets false = [n] ∧ v.field? "if_false" = some n

/-- The record has what the first and the second line say. -/
theorem attributed_record (b : Block) : b.Attributed b.record ↔
    b.targets true = [b.first.target.value] ∧ b.targets false = [b.second.target.value] := by
  constructor
  · rintro ⟨⟨n, htrue, hn⟩, m, hfalse, hm⟩
    exact ⟨Option.some.inj hn ▸ htrue, Option.some.inj hm ▸ hfalse⟩
  · rintro ⟨htrue, hfalse⟩
    exact ⟨⟨_, htrue, rfl⟩, _, hfalse, rfl⟩

theorem attributed_record_iff (b : Block) : b.Attributed b.record ↔ b.first.branch ≠ b.second.branch ∧
    (b.first.branch = true ∨ b.first.target.value = b.second.target.value) := by
  rw [b.attributed_record]
  cases h₁ : b.first.branch <;> cases h₂ : b.second.branch <;> simp [targets, h₁, h₂, eq_comm]

end Block

/-- Exactly the texts made of blocks are accepted, and leave the records of the blocks. A record throws where the lines of
the two cases say exactly if there is a line for each case, and that of the true case comes first or both say the same. -/
theorem targets_of_accepted (text : String) :
    ((grammar.run text).failed = false ↔ ∃ blocks, text.toList = textOf blocks) ∧
    ∀ blocks, text.toList = textOf blocks → (grammar.run text).stack = blocks.map Block.record ∧
      ∀ b ∈ blocks, (b.Attributed b.record ↔ b.first.branch ≠ b.second.branch ∧
        (b.first.branch = true ∨ b.first.target.value = b.second.target.value)) := by
  refine ⟨⟨exists_blocks, ?_⟩, fun blocks htext => ⟨(run_blocks htext).2, fun b _ => b.attributed_record_iff⟩⟩
  rintro ⟨blocks, htext⟩
  exact (run_blocks htext).1

/-- A block that does without a comma between its items and without the end of its last line. -/
theorem targets_of_accepted_signed :
    let text :=
      "Monkey 0:" ++ "\n" ++
      "  Starting items: 79-98" ++ "\r\n" ++
      "  Operation: new = old + old" ++ "\n" ++
      "  Test: divisible by 23" ++ "\n" ++
      "    If true: throw to monkey 2" ++
      "    If false: throw to monkey 3"
    let b : Block := {
      id := .ofInt32 0
      idBreak := .feed
      items := [⟨.ofInt64 79, false⟩, ⟨.ofInt64 (-98), false⟩]
      apart := .cons_cons (.inr rfl) (.singleton _)
      itemsBreak := .returnFeed
      operation := ⟨.add, none, .feed⟩
      divisor := .ofInt64 23
      divisorBreak := .feed
      first := ⟨true, .ofInt32 2, none⟩
      second := ⟨false, .ofInt32 3, none⟩
      blank := none
      ended := fun _ => rfl }
    text.toList = textOf [b] ∧ (grammar.run text).failed = false ∧ (grammar.run text).stack = [b.record] ∧
      b.Attributed b.record := by
  intro text b
  have htext : text.toList = textOf [b] := by
    simp only [text, String.toList_append]
    decide +kernel
  obtain ⟨haccepted, hblocks⟩ := targets_of_accepted text
  obtain ⟨hstack, hattributed⟩ := hblocks [b] htext
  exact ⟨htext, haccepted.2 ⟨[b], htext⟩, hstack, (hattributed b List.mem_cons_self).2 ⟨Bool.noConfusion, .inl rfl⟩⟩

/-- A block with the line of the false case first. Its record throws to 3 in the true case, and the line says 2. -/
theorem targets_exchanged :
    let text :=
      "Monkey 0:" ++ "\n" ++
      "  Starting items: 79, 98" ++ "\n" ++
      "  Operation: new = old * 19" ++ "\n" ++
      "  Test: divisible by 23" ++ "\n" ++
      "    If false: throw to monkey 3" ++ "\n" ++
      "    If true: throw to monkey 2" ++ "\n"
    let b : Block := {
      id := .ofInt32 0
      idBreak := .feed
      items := [⟨.ofInt64 79, true⟩, ⟨.ofInt64 98, false⟩]
      apart := .cons_cons (.inl rfl) (.singleton _)
      itemsBreak := .feed
      operation := ⟨.multiply, some (.ofInt64 19), .feed⟩
      divisor := .ofInt64 23
      divisorBreak := .feed
      first := ⟨false, .ofInt32 3, some .feed⟩
      second := ⟨true, .ofInt32 2, some .feed⟩
      blank := none
      ended := nofun }
    text.toList = textOf [b] ∧ b.targets true = [.int 2] ∧ b.targets false = [.int 3] ∧
      (grammar.run text).failed = false ∧ ∃ v, (grammar.run text).stack = [v] ∧
        v.field? "if_true" = some (.int 3) ∧ v.field? "if_false" = some (.int 2) ∧ ¬ b.Attributed v := by
  intro text b
  have htext : text.toList = textOf [b] := by
    simp only [text, String.toList_append]
    decide +kernel
  obtain ⟨hsuccess, hstack⟩ := run_blocks htext
  refine ⟨htext, rfl, rfl, hsuccess, b.record, hstack, rfl, rfl, fun hattributed => ?_⟩
  obtain ⟨-, htrue | hsame⟩ := b.attributed_record_iff.1 hattributed
  · exact Bool.noConfusion htrue
  · exact absurd (Value.int.inj hsame) (by decide)

end StackParser.Monkeys
