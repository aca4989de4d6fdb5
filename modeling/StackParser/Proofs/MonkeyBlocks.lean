import StackParser.Proofs.MonkeyTroops

/-!
# Monkeys written down and read back

* `Monkeys.Monkey` : what a block says, with its six `lines` and the `record` that stands for it;
* `Monkeys.document` : the lines of a troop, with a blank line between each two blocks. It is made of blocks as they can be
  written (`Monkeys.exists_block`, `Monkeys.blocks_of_document`);
* `Monkeys.parse_document` : a troop that is written down is read as the records of its monkeys, whichever way each line
  is ended, and whether or not the last one is.
-/

namespace StackParser

namespace Monkeys

/-- What a block says. An operation without an operand has the old level on both sides. -/
structure Monkey where
  id : Int32
  items : List Int64
  operator : Operator
  operand : Option Int64
  divisor : Int64
  ifTrue : Int32
  ifFalse : Int32

namespace Monkey

def itemsText (items : List Int64) : String := ", ".intercalate (items.map toString)

def operandText (operand : Option Int64) : String := operand.elim "old" toString

def lines (m : Monkey) : List String := [
  "Monkey " ++ toString m.id ++ ":",
  "  Starting items: " ++ itemsText m.items,
  "  Operation: new = old " ++ m.operator.token ++ " " ++ operandText m.operand,
  "  Test: divisible by " ++ toString m.divisor,
  "    If true: throw to monkey " ++ toString m.ifTrue,
  "    If false: throw to monkey " ++ toString m.ifFalse]

def operation (m : Monkey) : Value :=
  .record "Operation" (("operator", Operator.family.value m.operator) ::
    (m.operand.map fun n => ("operand", Value.long n)).toList)

def record (m : Monkey) : Value :=
  .record "Monkey" [
    ("id", .int m.id),
    ("items", .list (m.items.map Value.long)),
    ("operation", m.operation),
    ("divisor", .long m.divisor),
    ("if_true", .int m.ifTrue),
    ("if_false", .int m.ifFalse)]

end Monkey

def document (monkeys : List Monkey) : List String := [""].intercalate (monkeys.map Monkey.lines)

open Grammar

/-! ## Blocks -/

/-- Items with a comma behind all but the last. -/
def Item.ofList : List Int64 → List Item
  | [] => []
  | [n] => [⟨.ofInt64 n, false⟩]
  | n :: m :: ns => ⟨.ofInt64 n, true⟩ :: ofList (m :: ns)

namespace Item

theorem value_ofList (ns : List Int64) : (ofList ns).map value = ns.map Value.long := by
  fun_induction ofList ns with
  | case1 => rfl
  | case2 n => rfl
  | case3 n m ns ih => exact congrArg _ ih

theorem apart_ofList (ns : List Int64) : (ofList ns).IsChain Apart := by
  fun_induction ofList ns with
  | case1 => exact .nil
  | case2 n => exact .singleton _
  | case3 n m ns ih => exact List.isChain_cons.2 ⟨fun _ _ => .inl rfl, ih⟩

theorem text_ofList (ns : List Int64) : itemsText (ofList ns) = (Monkey.itemsText ns).toList := by
  fun_induction ofList ns with
  | case1 => rfl
  | case2 n => simp [itemsText, text, commaText, Monkey.itemsText, Literal.text_ofInt64]
  | case3 n m ns ih =>
    rw [itemsText, List.flatMap_cons, ← itemsText, ih]
    simp [text, commaText, Monkey.itemsText, Literal.text_ofInt64, String.toList_intercalate]

end Item

theorem text_operand (operand : Option Int64) :
    Operation.operandText (operand.map .ofInt64) = (Monkey.operandText operand).toList := by
  cases operand with
  | none => rfl
  | some n => exact Literal.text_ofInt64 n

theorem record_operation (m : Monkey) (b : LineBreak) :
    Operation.record ⟨m.operator, m.operand.map .ofInt64, b⟩ = m.operation := by
  rw [Operation.record, Monkey.operation, Option.map_map]
  rfl

/-- The block of a monkey, with the line ends that are written. -/
def Monkey.block (m : Monkey) (b₁ b₂ b₃ b₄ b₅ : LineBreak) (ending blank : Option LineBreak)
    (h : ending = none → blank = none) : Block where
  id := .ofInt32 m.id
  idBreak := b₁
  items := Item.ofList m.items
  apart := Item.apart_ofList m.items
  itemsBreak := b₂
  operation := ⟨m.operator, m.operand.map .ofInt64, b₃⟩
  divisor := .ofInt64 m.divisor
  divisorBreak := b₄
  first := ⟨true, .ofInt32 m.ifTrue, some b₅⟩
  second := ⟨false, .ofInt32 m.ifFalse, ending⟩
  blank := blank
  ended := h

/-- The lines of a monkey are a block, also if the last one lacks its end. -/
theorem exists_block (m : Monkey) {opening : List Char} (hopening : Ended (m.lines.take 5) opening)
    (ending blank : Option LineBreak) (hended : ending = none → blank = none) : ∃ b : Block,
      b.text = opening ++ (("    If false: throw to monkey " ++ toString m.ifFalse).toList ++
        (LineBreak.optional ending ++ LineBreak.optional blank)) ∧
      b.record = m.record := by
  obtain ⟨b₁, cs₁, rfl, h₁⟩ := Ended.cons_iff.1 hopening
  obtain ⟨b₂, cs₂, rfl, h₂⟩ := Ended.cons_iff.1 h₁
  obtain ⟨b₃, cs₃, rfl, h₃⟩ := Ended.cons_iff.1 h₂
  obtain ⟨b₄, cs₄, rfl, h₄⟩ := Ended.cons_iff.1 h₃
  obtain ⟨b₅, cs₅, rfl, h₅⟩ := Ended.cons_iff.1 h₄
  obtain rfl := Ended.nil_iff.1 h₅
  refine ⟨m.block b₁ b₂ b₃ b₄ b₅ ending blank hended, ?_, ?_⟩
  · unfold Block.text Monkey.block Operation.text Throw.text Throw.word
    simp [text_operand, Item.text_ofList, Literal.text_ofInt32, Literal.text_ofInt64, LineBreak.optional]
  · simp only [Block.record, Monkey.block, Monkey.record, Item.value_ofList, record_operation]
    rfl

/-- The lines of the last monkey of a text. -/
theorem exists_block_last (m : Monkey) {cs : List Char} (h : Written m.lines cs) :
    ∃ b : Block, cs = b.text ∧ b.record = m.record := by
  have hlines : m.lines = m.lines.take 5 ++ ["    If false: throw to monkey " ++ toString m.ifFalse] := rfl
  rw [hlines] at h
  obtain ⟨opening, last, rfl, hopening, hlast⟩ := h.of_append
  rcases Written.last_iff.1 hlast with rfl | ⟨e, rfl⟩
  · obtain ⟨b, htext, hrecord⟩ := exists_block m hopening none none fun _ => rfl
    exact ⟨b, by rw [htext]; simp [LineBreak.optional], hrecord⟩
  · obtain ⟨b, htext, hrecord⟩ := exists_block m hopening (some e) none fun _ => rfl
    exact ⟨b, by rw [htext]; simp [LineBreak.optional], hrecord⟩

/-- The lines of a monkey with the blank line behind them. -/
theorem exists_block_blank (m : Monkey) {cs : List Char} (h : Ended (m.lines ++ [""]) cs) :
    ∃ b : Block, cs = b.text ∧ b.record = m.record := by
  have hlines : m.lines ++ [""] =
      m.lines.take 5 ++ (["    If false: throw to monkey " ++ toString m.ifFalse, ""]) := rfl
  rw [hlines] at h
  obtain ⟨opening, last, rfl, hopening, hlast⟩ := Ended.append_iff.1 h
  obtain ⟨e, _, rfl, hblank⟩ := Ended.cons_iff.1 hlast
  obtain ⟨e', _, rfl, hnil⟩ := Ended.cons_iff.1 hblank
  obtain rfl := Ended.nil_iff.1 hnil
  obtain ⟨b, htext, hrecord⟩ := exists_block m hopening (some e) (some e') nofun
  exact ⟨b, by rw [htext]; simp [LineBreak.optional], hrecord⟩

/-! ## Troops -/

theorem document_cons (m next : Monkey) (monkeys : List Monkey) :
    document (m :: next :: monkeys) = (m.lines ++ [""]) ++ document (next :: monkeys) := by
  simp [document, List.intercalate]

theorem document_eq_cons (m : Monkey) (monkeys : List Monkey) :
    ∃ more, document (m :: monkeys) = ("Monkey " ++ toString m.id ++ ":") :: more := by
  cases monkeys with
  | nil => exact ⟨m.lines.tail, by simp [document, List.intercalate, Monkey.lines]⟩
  | cons next monkeys => exact ⟨_, document_cons m next monkeys⟩

theorem blocks_of_document (monkeys : List Monkey) {cs : List Char} (h : Written (document monkeys) cs) :
    ∃ blocks, cs = textOf blocks ∧ blocks.map Block.record = monkeys.map Monkey.record := by
  induction monkeys generalizing cs with
  | nil => exact ⟨[], Written.nil_iff.1 h, rfl⟩
  | cons m monkeys ih =>
    cases monkeys with
    | nil =>
      have hlines : document [m] = m.lines := by simp [document, List.intercalate]
      rw [hlines] at h
      obtain ⟨b, rfl, hrecord⟩ := exists_block_last m h
      exact ⟨[b], by simp [textOf], congrArg (fun v => [v]) hrecord⟩
    | cons next monkeys =>
      obtain ⟨more, hmore⟩ := document_eq_cons next monkeys
      rw [document_cons, hmore] at h
      obtain ⟨first, others, rfl, hfirst, hothers⟩ := h.of_append
      rw [← hmore] at hothers
      obtain ⟨b, rfl, hrecord⟩ := exists_block_blank m hfirst
      obtain ⟨blocks, rfl, hrecords⟩ := ih hothers
      exact ⟨b :: blocks, rfl, by rw [List.map_cons, List.map_cons, hrecord, hrecords]⟩

theorem readsAll_document (monkeys : List Monkey) {cs : List Char} (h : Written (document monkeys) cs) (c : Context) :
    monkey.parser.TurnsAll [] cs c (monkeys.map Monkey.record) c := by
  obtain ⟨blocks, rfl, hrecords⟩ := blocks_of_document monkeys h
  exact hrecords ▸ readsAll_blocks blocks c

/-- A troop that is written down is read whole, and leaves the records of its monkeys. -/
theorem parse_document (monkeys : List Monkey) (text : String) (h : Written (document monkeys) text.toList) :
    (grammar.run text).failed = false ∧ (grammar.run text).cursor.atEnd = true ∧
      (grammar.run text).stack = monkeys.map Monkey.record := by
  have hall : grammar.parser.Turns text.toList [] .empty (monkeys.map Monkey.record) .empty :=
    Parser.Turns.tillEnd (readsAll_document monkeys h .empty)
  obtain ⟨hsuccess, hend, hstack, -⟩ := run_of_turns hall
  exact ⟨hsuccess, hend, hstack⟩

/-- Both kinds of line end, a block without items, and a last line that lacks its end. -/
theorem parse_document_pair :
    let monkeys : List Monkey :=
      [⟨0, [79, -98], .multiply, none, 9223372036854775807, 1, -2147483648⟩, ⟨-1, [], .add, some (-6), 19, 2, 0⟩]
    let text :=
      "Monkey 0:" ++ "\r\n" ++
      "  Starting items: 79, -98" ++ "\n" ++
      "  Operation: new = old * old" ++ "\n" ++
      "  Test: divisible by 9223372036854775807" ++ "\r\n" ++
      "    If true: throw to monkey 1" ++ "\n" ++
      "    If false: throw to monkey -2147483648" ++ "\r\n" ++
      "" ++ "\n" ++
      "Monkey -1:" ++ "\n" ++
      "  Starting items: " ++ "\n" ++
      "  Operation: new = old + -6" ++ "\r\n" ++
      "  Test: divisible by 19" ++ "\n" ++
      "    If true: throw to monkey 2" ++ "\r\n" ++
      "    If false: throw to monkey 0"
    Written (document monkeys) text.toList ∧ (grammar.run text).failed = false ∧
      (grammar.run text).cursor.atEnd = true ∧ (grammar.run text).stack = monkeys.map Monkey.record := by
  intro monkeys text
  have hlines : document monkeys = [
      "Monkey 0:", "  Starting items: 79, -98", "  Operation: new = old * old",
      "  Test: divisible by 9223372036854775807", "    If true: throw to monkey 1",
      "    If false: throw to monkey -2147483648", "",
      "Monkey -1:", "  Starting items: ", "  Operation: new = old + -6", "  Test: divisible by 19",
      "    If true: throw to monkey 2", "    If false: throw to monkey 0"] := by decide +kernel
  have hwritten : Written (document monkeys) text.toList := by
    rw [hlines]
    refine (congrArg (Written _) ?_).mp <| .cons _ .returnFeed <| .cons _ .feed <| .cons _ .feed <|
      .cons _ .returnFeed <| .cons _ .feed <| .cons _ .returnFeed <| .cons _ .feed <| .cons _ .feed <| .cons _ .feed <|
      .cons _ .returnFeed <| .cons _ .feed <| .cons _ .returnFeed <| .unfinished _
    simp only [text, String.toList_append, List.append_assoc]
    rfl
  exact ⟨hwritten, parse_document monkeys text hwritten⟩

end Monkeys

end StackParser
