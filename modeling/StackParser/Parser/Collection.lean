import StackParser.Parser.Basic
import StackParser.Shape

/-!
# Several values made into one

`Parser.group` and `Parser.list` wrap what a parser adds to the stack into a list, `Parser.record` makes it into a record.
-/

namespace StackParser.Parser

/-- Runs `p` and wraps what it added to the stack, counted by the growth of the stack. -/
def collect (p : Parser) (keepEmpty : Bool) (s : State) : State :=
  let next := p.parse s
  if next.failed then next
  else
    let added := next.stack.length - s.stack.length
    if 0 < added ∨ keepEmpty then next.collectLast added .list else next

/-- What `p` adds as one list; nothing if `p` adds nothing. -/
def group (p : Parser) : Parser where
  label := "group(" ++ p.label ++ ")"
  run := collect p false

/-- What `p` adds as one list, also when it is empty. -/
def list (p : Parser) : Parser where
  label := "list(" ++ p.label ++ ")"
  run := collect p true

def record (shape : Shape) (p : Parser) : Parser where
  label := "to_record(" ++ shape.name ++ ", " ++ p.label ++ ")"
  run s := shape.assemble (p.parse s)

end StackParser.Parser
