import StackParser.Grammar
import StackParser.Bundled.Operator

/-!
# Troops of monkeys

`Monkeys.grammar` : blocks of six lines, each read as a `Monkey` record with its items, its operation and where it throws.
-/

namespace StackParser

namespace Monkeys

def operationShape : Shape where
  name := "Operation"
  fields := [⟨"operator", Operator.family.type, .required⟩, ⟨"operand", .long, .optional⟩]

def monkeyShape : Shape where
  name := "Monkey"
  fields := [
    ⟨"id", .int, .required⟩,
    ⟨"items", .list, .required⟩,
    ⟨"operation", operationShape.type, .required⟩,
    ⟨"divisor", .long, .required⟩,
    ⟨"if_true", .int, .required⟩,
    ⟨"if_false", .int, .required⟩]

def header : Grammar := .sequenceOf [.skip "Monkey ", .integer, .skipChar ':', .lineEnd]

def item : Grammar := .sequenceOf [.long, .optional (.sequenceOf [.skipChar ',', .space])]

def items : Grammar :=
  .sequenceOf [.spaces 2 false, .skip "Starting items: ", .list (.oneOrMore item), .lineEnd]

/-- The operand `old` pushes nothing, so that the record has no operand. -/
def operation : Grammar :=
  .record operationShape (.sequenceOf [
    .spaces 2 false,
    .skip "Operation: new = old ",
    .ofFamily Operator.family,
    .space,
    .oneOf [.long, .skip "old"],
    .lineEnd])

def divisibility : Grammar :=
  .sequenceOf [.spaces 2 false, .skip "Test: divisible by ", .long, .lineEnd]

/-- Where an item is thrown in one of the two cases; which case it is, is only read over. -/
def throwTarget : Grammar :=
  .sequenceOf [
    .spaces 4 false,
    .skip "If ",
    .oneOf [.skip "true: ", .skip "false: "],
    .skip "throw to monkey ",
    .integer,
    .optional .lineEnd]

def monkey : Grammar :=
  .record monkeyShape (.sequenceOf [
    header, items, operation, divisibility, .times 2 throwTarget, .optional .lineEnd])

def grammar : Grammar := .tillEnd monkey

end Monkeys

end StackParser
