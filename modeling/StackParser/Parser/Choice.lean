import StackParser.Parser.Terminal
import StackParser.Family
import StackParser.Value.Display

/-!
# Alternatives

* `Parser.oneOf` : exactly one of several parsers must succeed; each is tried on the same state;
* `Parser.optional` : a parser that may fail without a trace;
* `Parser.stringMap`, `Parser.keyword` : one of several fixed texts, and the value it stands for.
-/

namespace StackParser.Parser

def choose (s : State) (trials : List State) : State :=
  match trials.filter fun t => !t.failed with
  | [t] => t
  | [] => s.fail (.exhausted (trials.filterMap fun t => t.error.map fun e => (t.name, e)))
  | winners => s.fail (.ambiguous (winners.map State.name))

/-- The parser among `ps` that succeeds, if there is exactly one. -/
def oneOf (ps : List Parser) : Parser where
  label := "one_of(" ++ joinLabels ps ++ ")"
  run s := choose s (ps.map fun p => p.parse s)

/-- `p`, or nothing where `p` fails. -/
def optional (p : Parser) : Parser where
  label := "optional(" ++ p.label ++ ")"
  run s :=
    let next := p.parse s
    if next.failed then s else next

/-- The value a table gives to a key; of several entries with one key the last holds. -/
def tableValue? (table : List (String × Value)) (key : String) : Option Value := table.reverse.lookup key

/-- Replaces the key on top of the stack by its value. Anything else there is no key of the table. -/
def mapTop (table : List (String × Value)) (s : State) : State :=
  match s.stack.getLast? with
  | some (.str key) =>
    match tableValue? table key with
    | some v => s.dropLast.push v
    | none => s.dropLast.fail (.custom ("Expected map to contain key " ++ key))
  | some v => s.dropLast.fail (.custom ("Expected map to contain key " ++ v.display))
  | none => s.dropLast.fail (.custom "Expected map to contain key ")

/-- One of the keys of a table; pushes its value. -/
def stringMap (table : List (String × Value)) : Parser where
  label := "string_map(" ++ ", ".intercalate (table.map Prod.fst) ++ ")"
  run s :=
    let next := (oneOf (table.map fun e => literal e.1 true)).parse s
    if next.failed then next else mapTop table next

/-- One of the tokens of a family of keywords; pushes the keyword it stands for. -/
def keyword (family : String) (tokens : List (String × String)) : Parser where
  label := "keyword(" ++ family ++ ")"
  run := (stringMap (tokens.map fun (token, name) => (token, .keyword ⟨family, name⟩))).parse

end StackParser.Parser
