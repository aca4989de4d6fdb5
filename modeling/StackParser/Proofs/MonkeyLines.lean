import Mathlib.Data.List.Chain
import StackParser.Bundled.Monkeys
import StackParser.Proofs.ExactReading

/-!
# The lines of a block of monkeys

* `Monkeys.Item`, `Monkeys.Operation`, `Monkeys.Throw` : what the lines of a block say, with the text as it can be written;
* `Monkeys.exact_header`, `exact_items`, `exact_operation`, `exact_divisibility`, `exact_throwTarget` : the parser of each
  line reads exactly these texts.
-/

namespace StackParser

namespace Numeral

/-- Where a numeral begins with no digit it begins with the sign. -/
theorem negative_of_stopsAt (m : Numeral) {rest : List Char} (h : StopsAt Char.isDigit (m.text ++ rest)) :
    m.negative = true := by
  obtain ⟨d, ds, hdigits, hd, -⟩ := m.digits_eq_cons
  refine Bool.of_not_eq_false fun hneg => ?_
  have hhead : m.text ++ rest = d :: (ds ++ rest) := by simp [text, sign, hneg, hdigits]
  rw [hhead, stopsAt_cons, hd] at h
  exact absurd h.symm Bool.false_ne_true

theorem text_of_negative {m : Numeral} (h : m.negative = true) : m.text = '-' :: m.digits := by
  simp [text, sign, h]

end Numeral

def Operator.token : Operator → String
  | add => "+"
  | multiply => "*"

namespace Monkeys

/-- An item, and whether a comma and a space follow it. -/
structure Item where
  level : Literal .long
  comma : Bool

namespace Item

def commaText (comma : Bool) : List Char := if comma then [',', ' '] else []

def text (i : Item) : List Char := i.level.text ++ commaText i.comma

def value (i : Item) : Value := i.level.value

/-- Without a comma between them, two items are told apart by the sign of the second one. -/
def Apart (i j : Item) : Prop := i.comma = true ∨ j.level.numeral.negative = true

/-- Without a comma, neither a digit nor a comma goes on from the item. -/
def Ends (i : Item) (rest : List Char) : Prop :=
  i.comma = false → StopsAt Char.isDigit rest ∧ ¬ [',', ' '] <+: rest

end Item

def itemsText (items : List Item) : List Char := items.flatMap Item.text

/-- The line of an operation. Without an operand it has the old level on both sides. -/
structure Operation where
  operator : Operator
  operand : Option (Literal .long)
  lineBreak : LineBreak

namespace Operation

def operandText (operand : Option (Literal .long)) : List Char := operand.elim "old".toList Literal.text

def text (o : Operation) : List Char :=
  "  Operation: new = old ".toList ++ (o.operator.token.toList ++ (' ' :: (operandText o.operand ++ o.lineBreak.text)))

def record (o : Operation) : Value :=
  .record "Operation" (("operator", Operator.family.value o.operator) ::
    (o.operand.map fun l => ("operand", l.value)).toList)

end Operation

/-- One of the two lines that say where an item is thrown; `branch` is the case that it is about. -/
structure Throw where
  branch : Bool
  target : Literal .int
  lineBreak : Option LineBreak

namespace Throw

def word (branch : Bool) : String := if branch then "true: " else "false: "

def text (t : Throw) : List Char :=
  "    If ".toList ++ ((word t.branch).toList ++ ("throw to monkey ".toList ++
    (t.target.text ++ LineBreak.optional t.lineBreak)))

/-- If the line lacks its end, neither a digit nor a line end goes on from it. -/
def Ends (t : Throw) (rest : List Char) : Prop :=
  t.lineBreak = none → StopsAt Char.isDigit rest ∧ ∀ b : LineBreak, ¬ b.text <+: rest

end Throw

open StackParser.Parser (Exact Reads Refuses Turns Yields stopsAt_lineBreak head?_lineBreak)

variable {cs rest : List Char} {c d : Context} {vs : List Value}

/-! ## The number of a monkey, and the divisor -/

theorem exact_header : header.parser.Exact fun cs _ vs => ∃ (l : Literal .int) (b : LineBreak),
    cs = "Monkey ".toList ++ (l.text ++ (':' :: b.text)) ∧ vs = [l.value] := by
  refine (Exact.silent (.skip "Monkey ") <| Exact.cons (.number (by decide)) <| Exact.silent (.skipChar ':') <|
    Exact.last .lineEnd).congr fun cs rest vs => ⟨?_, ?_⟩
  · rintro ⟨⟨⟨l, rfl, rfl, -⟩, ⟨⟨b, rfl, rfl⟩, rfl⟩, rfl, rfl⟩, rfl⟩
    exact ⟨l, b, rfl, rfl⟩
  · rintro ⟨l, b, rfl, rfl⟩
    exact ⟨⟨⟨l, rfl, rfl, stopsAt_cons.2 rfl⟩, ⟨⟨b, rfl, rfl⟩, rfl⟩, rfl, rfl⟩, rfl⟩

theorem exact_divisibility : divisibility.parser.Exact fun cs _ vs => ∃ (l : Literal .long) (b : LineBreak),
    cs = "  Test: divisible by ".toList ++ (l.text ++ b.text) ∧ vs = [l.value] := by
  refine (Exact.silent (.spaces 2) <| Exact.silent (.skip "Test: divisible by ") <|
    Exact.cons (.number (by decide)) <| Exact.last .lineEnd).congr fun cs rest vs => ⟨?_, ?_⟩
  · rintro ⟨⟨⟨⟨l, rfl, rfl, -⟩, ⟨b, rfl, rfl⟩, rfl, rfl⟩, rfl⟩, rfl⟩
    exact ⟨l, b, rfl, rfl⟩
  · rintro ⟨l, b, rfl, rfl⟩
    exact ⟨⟨⟨⟨l, rfl, rfl, stopsAt_lineBreak b rest rfl rfl⟩, ⟨b, rfl, rfl⟩, rfl, rfl⟩, rfl⟩, rfl⟩

/-! ## Items -/

theorem exact_comma : (Grammar.optional (.sequenceOf [.skipChar ',', .space])).parser.Exact fun cs rest vs =>
    ∃ comma : Bool, cs = Item.commaText comma ∧ vs = [] ∧ (comma = false → ¬ [',', ' '] <+: rest) := by
  refine (Exact.optional <| Exact.silent (.skipChar ',') <| Exact.last (.spaces 1)).congr fun cs rest vs => ⟨?_, ?_⟩
  · rintro (⟨⟨rfl, rfl⟩, rfl⟩ | ⟨rfl, rfl, habsent⟩)
    · exact ⟨true, rfl, rfl, nofun⟩
    · exact ⟨false, rfl, rfl, fun _ ⟨more, hmore⟩ => habsent _ more _ hmore.symm ⟨⟨rfl, rfl⟩, rfl⟩⟩
  · rintro ⟨comma, rfl, rfl, hnone⟩
    cases comma with
    | true => exact .inl ⟨⟨rfl, rfl⟩, rfl⟩
    | false =>
      refine .inr ⟨rfl, rfl, ?_⟩
      rintro _ more _ hsplit ⟨⟨rfl, rfl⟩, rfl⟩
      exact hnone rfl ⟨more, hsplit.symm⟩

theorem exact_item : item.parser.Exact fun cs rest vs => ∃ i : Item, cs = i.text ∧ vs = [i.value] ∧ i.Ends rest := by
  refine (Exact.cons (.number (by decide)) <| Exact.last exact_comma).congr fun cs rest vs => ⟨?_, ?_⟩
  · rintro ⟨⟨l, rfl, rfl, hstop⟩, ⟨comma, rfl, rfl, hnone⟩, rfl, rfl⟩
    refine ⟨⟨l, comma⟩, rfl, rfl, ?_⟩
    rintro rfl
    exact ⟨hstop, hnone rfl⟩
  · rintro ⟨⟨l, comma⟩, rfl, rfl, hends⟩
    refine ⟨⟨l, rfl, rfl, ?_⟩, ⟨comma, rfl, rfl, fun hcomma => (hends hcomma).2⟩, rfl, rfl⟩
    cases comma with
    | true => exact stopsAt_cons.2 rfl
    | false => exact (hends rfl).1

/-- Items that stand behind each other as they were read. -/
theorem items_of_repeated (h : Passage.Repeated
    (.still fun cs rest vs => ∃ i : Item, cs = i.text ∧ vs = [i.value] ∧ i.Ends rest) rest cs c vs d) :
    d = c ∧ ∃ items : List Item, cs = itemsText items ∧ vs = items.map Item.value ∧ items.IsChain Item.Apart := by
  induction h with
  | nil c => exact ⟨rfl, [], rfl, rfl, .nil⟩
  | cons hfirst _ ih =>
    obtain ⟨⟨i, rfl, rfl, hends⟩, rfl⟩ := hfirst
    obtain ⟨rfl, items, rfl, rfl, happart⟩ := ih
    refine ⟨rfl, i :: items, rfl, rfl, List.isChain_cons.2 ⟨fun j hj => ?_, happart⟩⟩
    obtain ⟨more, rfl⟩ := List.head?_eq_some_iff.1 hj
    cases hcomma : i.comma with
    | true => exact .inl hcomma
    | false =>
      have hstop := (hends hcomma).1
      simp only [itemsText, List.flatMap_cons, Item.text, List.append_assoc] at hstop
      exact .inr (j.level.numeral.negative_of_stopsAt hstop)

theorem long_refuses_lineBreak (b : LineBreak) (rest : List Char) : Grammar.long.parser.Refuses (b.text ++ rest) := by
  refine (Parser.Begins.number .long).refuses fun c hc => ?_
  rcases head?_lineBreak b rest c hc with rfl | rfl <;> decide

/-- What follows an item in a line lets it end where its text does. -/
theorem ends_of_chain {i : Item} {items : List Item} (h : (i :: items).IsChain Item.Apart) (b : LineBreak)
    (rest : List Char) : i.Ends (itemsText items ++ (b.text ++ rest)) := by
  intro hcomma
  cases items with
  | nil =>
    refine ⟨stopsAt_lineBreak b rest rfl rfl, fun ⟨more, hmore⟩ => ?_⟩
    have hhead := head?_lineBreak b rest ',' (hmore ▸ rfl)
    exact absurd hhead (by decide)
  | cons j items =>
    obtain hcomma' | hnegative := (List.isChain_cons_cons.1 h).1
    · exact absurd (hcomma.symm.trans hcomma') Bool.false_ne_true
    · simp only [itemsText, List.flatMap_cons, Item.text, Literal.text, Numeral.text_of_negative hnegative,
        List.cons_append]
      exact ⟨stopsAt_cons.2 rfl, by simp⟩

theorem readsAll_itemsText {items : List Item} (h : items.IsChain Item.Apart) (b : LineBreak) (rest : List Char)
    (c : Context) : item.parser.TurnsAll (b.text ++ rest) (itemsText items) c (items.map Item.value) c := by
  induction items with
  | nil => exact .nil c
  | cons i items ih =>
    have hne : i.text ≠ [] := fun hnil => i.level.numeral.text_ne_nil (List.append_eq_nil_iff.1 hnil).1
    exact .cons hne (exact_item.reads ⟨i, rfl, rfl, ends_of_chain h b rest⟩ c) (ih (List.isChain_cons.1 h).2)

theorem exact_items : items.parser.Exact fun cs _ vs => ∃ (items : List Item) (b : LineBreak),
    items.IsChain Item.Apart ∧ cs = "  Starting items: ".toList ++ (itemsText items ++ b.text) ∧
      vs = [.list (items.map Item.value)] := by
  have hlist : (Grammar.sequenceOf [.list (.oneOrMore item), .lineEnd]).parser.Exact fun cs _ vs =>
      ∃ (items : List Item) (b : LineBreak), items.IsChain Item.Apart ∧ cs = itemsText items ++ b.text ∧
        vs = [.list (items.map Item.value)] := by
    constructor
    · rintro cs rest vs ⟨items, b, happart, rfl, rfl⟩ c
      have hitems := Turns.oneOrMore (readsAll_itemsText happart b rest c)
        (.inr (Refuses.head (long_refuses_lineBreak b rest)))
      exact hitems.list.cons (Reads.last (Reads.lineEnd b rest) c)
    · refine (Yields.cons (Yields.list (Yields.oneOrMore exact_item.yields)) (Yields.last Yields.lineEnd)).mono ?_
      rintro cs rest c vs d ⟨_, _, _, _, _, rfl, rfl, ⟨us, rfl, hall⟩, ⟨⟨b, rfl⟩, rfl⟩, rfl⟩
      obtain ⟨rfl, items, rfl, rfl, happart⟩ := items_of_repeated hall
      exact ⟨⟨items, b, happart, rfl, rfl⟩, rfl⟩
  refine (Exact.silent (.spaces 2) <| Exact.silent (.skip "Starting items: ") hlist).congr fun cs rest vs => ⟨?_, ?_⟩
  · rintro ⟨⟨⟨items, b, happart, rfl, rfl⟩, rfl⟩, rfl⟩
    exact ⟨items, b, happart, rfl, rfl⟩
  · rintro ⟨items, b, happart, rfl, rfl⟩
    exact ⟨⟨⟨items, b, happart, rfl, rfl⟩, rfl⟩, rfl⟩

/-! ## The operation -/

/-- No numeral is taken for the word. -/
theorem literal_ne_old (l : Literal .long) (rest more : List Char) : l.text ++ rest ≠ "old".toList ++ more := by
  intro h
  have hhead := l.numeral.head_text rest 'o' (by rw [show l.numeral.text ++ rest = _ from h]; rfl)
  exact absurd hhead (by decide)

theorem exact_operand : (Grammar.oneOf [.long, .skip "old"]).parser.Exact fun cs rest vs =>
    ∃ operand : Option (Literal .long), cs = Operation.operandText operand ∧
      vs = (operand.map Literal.value).toList ∧ (operand.isSome → StopsAt Char.isDigit rest) := by
  refine (Exact.either (.number (by decide)) (.skip "old") ?_ ?_).congr fun cs rest vs => ⟨?_, ?_⟩
  · rintro _ rest _ ⟨l, rfl, rfl, -⟩ _ more _ hsplit ⟨rfl, rfl⟩
    exact literal_ne_old l rest more hsplit
  · rintro _ rest _ ⟨rfl, rfl⟩ _ more _ hsplit ⟨l, rfl, rfl, -⟩
    exact literal_ne_old l more rest hsplit.symm
  · rintro (⟨l, rfl, rfl, hstop⟩ | ⟨rfl, rfl⟩)
    · exact ⟨some l, rfl, rfl, fun _ => hstop⟩
    · exact ⟨none, rfl, rfl, nofun⟩
  · rintro ⟨operand, rfl, rfl, hstop⟩
    cases operand with
    | some l => exact .inl ⟨l, rfl, rfl, hstop rfl⟩
    | none => exact .inr ⟨rfl, rfl⟩

theorem exact_operator : (Grammar.ofFamily Operator.family).parser.Exact fun cs _ vs =>
    ∃ op : Operator, cs = op.token.toList ∧ vs = [Operator.family.value op] := by
  refine (Exact.ofFamily (by decide)).congr fun cs rest vs => ⟨?_, ?_⟩
  · rintro ⟨⟨token, op⟩, hentry, rfl, rfl⟩
    have htoken : token = op.token := by
      simp only [Operator.family, List.mem_cons, List.not_mem_nil, or_false, Prod.mk.injEq] at hentry
      rcases hentry with ⟨rfl, rfl⟩ | ⟨rfl, rfl⟩ <;> rfl
    exact ⟨op, htoken ▸ rfl, rfl⟩
  · rintro ⟨op, rfl, rfl⟩
    refine ⟨(op.token, op), ?_, rfl, rfl⟩
    cases op <;> decide

/-- The values that make up an operation, without the operand where there is none. -/
theorem makes_record (o : Operation) : operationShape.Makes
    (Operator.family.value o.operator :: (o.operand.map Literal.value).toList) o.record := by
  obtain ⟨op, operand⟩ := o
  cases operand with
  | none =>
    refine Shape.Makes.mandatory ?_ (List.cons_ne_nil _ _) (by decide) rfl
    simp [operationShape, Family.value, Value.type]
  | some l =>
    refine Shape.Makes.all ?_
    simp only [Option.map_some, Option.toList_some, List.map_cons, l.type_value]
    rfl

theorem exact_operation : operation.parser.Exact fun cs _ vs => ∃ o : Operation, cs = o.text ∧ vs = [o.record] := by
  have hparts : (Grammar.sequenceOf [.spaces 2 false, .skip "Operation: new = old ", .ofFamily Operator.family, .space,
      .oneOf [.long, .skip "old"], .lineEnd]).parser.Exact fun cs _ vs => ∃ o : Operation,
        cs = o.text ∧ vs = Operator.family.value o.operator :: (o.operand.map Literal.value).toList := by
    refine (Exact.silent (.spaces 2) <| Exact.silent (.skip "Operation: new = old ") <| Exact.cons exact_operator <|
      Exact.silent (.spaces 1) <| Exact.cons exact_operand <| Exact.last .lineEnd).congr fun cs rest vs => ⟨?_, ?_⟩
    · rintro ⟨⟨⟨⟨op, rfl, rfl⟩, ⟨⟨⟨operand, rfl, rfl, -⟩, ⟨b, rfl, rfl⟩, rfl, rfl⟩, rfl⟩, rfl, rfl⟩, rfl⟩, rfl⟩
      exact ⟨⟨op, operand, b⟩, rfl, congrArg _ (List.append_nil _)⟩
    · rintro ⟨⟨op, operand, b⟩, rfl, rfl⟩
      have hstop : StopsAt Char.isDigit (b.text ++ rest) := stopsAt_lineBreak b rest rfl rfl
      exact ⟨⟨⟨⟨op, rfl, rfl⟩, ⟨⟨⟨operand, rfl, rfl, fun _ => hstop⟩, ⟨b, rfl, rfl⟩, rfl, (List.append_nil _).symm⟩,
        rfl⟩, rfl, rfl⟩, rfl⟩, rfl⟩
  refine Exact.record hparts ?_ ?_
  · rintro cs rest vs ⟨o, rfl, rfl⟩
    exact ⟨o.record, makes_record o, o, rfl, rfl⟩
  · rintro cs rest ws ⟨o, rfl, rfl⟩
    exact ⟨_, _, ⟨o, rfl, rfl⟩, makes_record o, rfl⟩

/-! ## Throws -/

/-- The two lines of throws differ in one word, which is only read over. -/
theorem exact_word : (Grammar.oneOf [.skip "true: ", .skip "false: "]).parser.Exact fun cs _ vs =>
    ∃ branch : Bool, cs = (Throw.word branch).toList ∧ vs = [] := by
  refine (Exact.either (.skip "true: ") (.skip "false: ") ?_ ?_).congr fun cs rest vs => ⟨?_, ?_⟩
  · rintro _ rest _ ⟨rfl, rfl⟩ _ more _ hsplit ⟨rfl, rfl⟩
    exact nomatch hsplit
  · rintro _ rest _ ⟨rfl, rfl⟩ _ more _ hsplit ⟨rfl, rfl⟩
    exact nomatch hsplit
  · rintro (⟨rfl, rfl⟩ | ⟨rfl, rfl⟩)
    · exact ⟨true, rfl, rfl⟩
    · exact ⟨false, rfl, rfl⟩
  · rintro ⟨branch, rfl, rfl⟩
    cases branch with
    | true => exact .inl ⟨rfl, rfl⟩
    | false => exact .inr ⟨rfl, rfl⟩

theorem exact_throwTarget : throwTarget.parser.Exact fun cs rest vs => ∃ t : Throw,
    cs = t.text ∧ vs = [t.target.value] ∧ t.Ends rest := by
  refine (Exact.silent (.spaces 4) <| Exact.silent (.skip "If ") <| Exact.cons exact_word <|
    Exact.silent (.skip "throw to monkey ") <| Exact.cons (.number (by decide)) <|
    Exact.last .optional_lineEnd).congr fun cs rest vs => ⟨?_, ?_⟩
  · rintro ⟨⟨⟨⟨branch, rfl, rfl⟩, ⟨⟨⟨l, rfl, rfl, hstop⟩, ⟨b, rfl, rfl, hnone⟩, rfl, rfl⟩, rfl⟩, rfl, rfl⟩, rfl⟩, rfl⟩
    refine ⟨⟨branch, l, b⟩, rfl, rfl, ?_⟩
    rintro rfl
    exact ⟨hstop, hnone rfl⟩
  · rintro ⟨⟨branch, l, b⟩, rfl, rfl, hends⟩
    have hstop : StopsAt Char.isDigit (LineBreak.optional b ++ rest) := by
      cases b with
      | none => exact (hends rfl).1
      | some b => exact stopsAt_lineBreak b rest rfl rfl
    exact ⟨⟨⟨⟨branch, rfl, rfl⟩, ⟨⟨⟨l, rfl, rfl, hstop⟩, ⟨b, rfl, rfl, fun hnone => (hends hnone).2⟩, rfl, rfl⟩, rfl⟩,
      rfl, rfl⟩, rfl⟩, rfl⟩

end Monkeys

end StackParser
