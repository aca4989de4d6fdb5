import StackParser.Grammar.Result
import StackParser.Bundled.Directory
import StackParser.Json
import StackParser.Value.Display

/-!
# What a session answers

`Step.reply` : the answer to a step, read off the session before it. What the step does to the session is `Step.run`.
-/

namespace StackParser

inductive Reply where
  | nothing
  | text (text : Option String)
  | value (v : Option Value)
  | values (vs : Option (List Value))
  /-- The number of characters of the input, the whole of it, what is left of it, and whether anything is. -/
  | input (size : Nat) (text remaining : String) (more : Bool)
  | flag (b : Option Bool)
  | report (r : Option Report)
  /-- The outcome of a parse that may be refused. -/
  | accepted (refusal : Option Report)
  | sizes (sizes : Keyed Int)
  | texts (texts : List String)

namespace Observation

def reply (o : Observation) (session : Session) : Reply :=
  let s := session.state
  match o with
  | .peek n => .text ((s.cursor.peek n).map String.ofList)
  | .peekChar => .text (s.cursor.peekChar.map String.singleton)
  | .input => .input s.cursor.size s.cursor.text s.cursor.remaining (!s.cursor.atEnd)
  | .samePosition slot => .flag ((session.saved? slot).map fun t => s.cursor.index == t.cursor.index)
  | .report source => .report (Report.ofState? s source)
  | .sizes => .sizes (Directory.sizes s.context)
  | .display => .texts (s.stack.map Value.display)
  | .json => .text (some (Json.ofOutput s.stack s.context).compactText)

end Observation

def Step.reply (step : Step) (session : Session) : Reply :=
  let s := session.state
  match step with
  | .parseOrKeep g source =>
    match g.parseState s source with
    | .ok _ => .accepted none
    | .error report => .accepted (some report)
  | .nextChar => .text (s.cursor.peekChar.map String.singleton)
  | .nextChars n => .text ((s.cursor.peek n).map String.ofList)
  | .popLast => .value s.stack.getLast?
  | .popFirst => .value s.stack.head?
  | .takeLast n => .values (s.latest? n)
  | .lookUp key => .value (s.context.find? key)
  | .removeContext key => .value (s.context.find? key)
  | .observe o => o.reply session
  | _ => .nothing

/-- Takes steps one after the other: the answer to each and the state after it. -/
def Session.replies : List Step → Session → List (Reply × State)
  | [], _ => []
  | step :: steps, session =>
    let next := step.run session
    (step.reply session, next.state) :: Session.replies steps next

end StackParser
