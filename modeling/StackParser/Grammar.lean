import StackParser.Session
import StackParser.Parser.Numeral
import StackParser.Parser.Sequence
import StackParser.Parser.Choice
import StackParser.Parser.Repetition
import StackParser.Parser.Collection

/-!
# Grammars

* `Grammar` : a parser written down as a tree, and `Step` : one step of a custom parser, which may run a grammar itself;
* `Grammar.parser` : the parser a grammar stands for, `Step.run` : what a step does to a session;
* `Grammar.label`, `Grammar.parse`, `Grammar.run` : its label, and running it on a state or on a text.

Three kinds of nodes go beyond the combinators: `record` assembles a record, `action` lets a function on the stack and the
context have the last word, and `custom` is a parser made of operations on states.
-/

namespace StackParser

/-- What an action makes of the stack and the context. With an error it rejects what was parsed. -/
structure Effect where
  stack : List Value
  context : Context
  error : Option ParseError

/-- A function that a grammar runs on the stack and the context after one of its parts has succeeded. -/
abbrev Action := List Value → Context → Effect

def State.act (s : State) (action : Action) : State :=
  let effect := action s.stack s.context
  { s with stack := effect.stack, context := effect.context, error := effect.error }

mutual

/-- A parser as a tree. -/
inductive Grammar where
  | char (c : Char) (captured : Bool)
  | literal (text : String) (captured : Bool)
  | letter
  | word
  | number (kind : NumberKind)
  | spaces (n : Nat) (captured : Bool)
  | lineEnd
  | sequenceOf (gs : List Grammar)
  | oneOf (gs : List Grammar)
  | optional (g : Grammar)
  | group (g : Grammar)
  | list (g : Grammar)
  | times (n : Nat) (g : Grammar)
  | oneOrMore (g : Grammar)
  | tillEnd (g : Grammar)
  | stringMap (table : List (String × Value))
  | keyword (family : String) (tokens : List (String × String))
  | record (shape : Shape) (g : Grammar)
  /-- Runs `g` and, if it succeeds, the action; the label is `name` with that of `g`. -/
  | action (name : String) (g : Grammar) (action : Action)
  /-- Runs the steps with no snapshots at first, and stops when the state has failed. -/
  | custom (label : String) (steps : List Step)

/-- A step of a custom parser or of a session. -/
inductive Step where
  | parse (g : Grammar)
  /-- Parses, and goes back to the state before if that fails. -/
  | parseOrKeep (g : Grammar) (source : String)
  | nextChar
  | nextChars (n : Nat)
  | advance (n : Nat)
  | push (v : Value)
  | popLast
  | popFirst
  | takeLast (n : Nat)
  | lookUp (key : String)
  | setContext (key : String) (v : Value)
  | removeContext (key : String)
  | replaceContext (context : Context)
  | fail (e : ParseError)
  /-- Fails with the message unless the latest value has the type. -/
  | requireTop (type : ValueType) (message : String)
  | assemble (shape : Shape)
  | save (slot : String)
  | load (slot : String)
  | observe (o : Observation)

end

instance : Inhabited Grammar := ⟨.letter⟩

instance : Inhabited Step := ⟨.nextChar⟩

/-- Runs `p`, then the action where `p` succeeds. -/
def Parser.action (name : String) (p : Parser) (action : Action) : Parser where
  label := name ++ "(" ++ p.label ++ ")"
  run s :=
    let next := p.parse s
    if next.failed then next else next.act action

def State.requireTop (s : State) (type : ValueType) (message : String) : State :=
  if s.stack.getLast?.any type.accepts then s else s.fail (.custom message)

mutual

/-- The parser that a grammar stands for. -/
def Grammar.parser : Grammar → Parser
  | .char c captured => .char c captured
  | .literal text captured => .literal text captured
  | .letter => .letter
  | .word => .word
  | .number kind => .number kind
  | .spaces n captured => .spaces n captured
  | .lineEnd => .lineEnd
  | .sequenceOf gs => .sequenceOf (Grammar.parsers gs)
  | .oneOf gs => .oneOf (Grammar.parsers gs)
  | .optional g => .optional g.parser
  | .group g => .group g.parser
  | .list g => .list g.parser
  | .times n g => .times n g.parser
  | .oneOrMore g => .oneOrMore g.parser
  | .tillEnd g => .tillEnd g.parser
  | .stringMap table => .stringMap table
  | .keyword family tokens => .keyword family tokens
  | .record shape g => .record shape g.parser
  | .action name g action => .action name g.parser action
  | .custom label steps => ⟨label, fun s => (Step.runAll steps (.ofState s)).state⟩

def Grammar.parsers : List Grammar → List Parser
  | [] => []
  | g :: gs => g.parser :: Grammar.parsers gs

def Step.run : Step → Session → Session
  | .parse g, session => session.update g.parser.parse
  | .parseOrKeep g _, session =>
    let next := g.parser.parse session.state
    if next.failed then session else { session with state := next }
  | .nextChar, session => session.update fun s => s.advance 1
  | .nextChars n, session => session.update fun s => s.skip n
  | .advance n, session => session.update fun s => s.advance n
  | .push v, session => session.update fun s => s.push v
  | .popLast, session => session.update State.dropLast
  | .popFirst, session => session.update State.dropFirst
  | .takeLast n, session => session.update fun s => s.dropLatest n
  | .lookUp _, session => session
  | .setContext key v, session => session.update fun s => s.setContext key v
  | .removeContext key, session => session.update fun s => s.removeContext key
  | .replaceContext context, session => session.update fun s => { s with context := context }
  | .fail e, session => session.update fun s => s.fail e
  | .requireTop type message, session => session.update fun s => s.requireTop type message
  | .assemble shape, session => session.update shape.assemble
  | .save slot, session => session.save slot
  | .load slot, session => session.load slot
  | .observe _, session => session

/-- Runs steps up to the first that leaves the state failed. -/
def Step.runAll : List Step → Session → Session
  | [], session => session
  | step :: steps, session =>
    let next := step.run session
    if next.state.failed then next else Step.runAll steps next

end

namespace Grammar

theorem parsers_eq_map (gs : List Grammar) : parsers gs = gs.map parser := by
  induction gs with
  | nil => simp [parsers]
  | cons g gs ih => simp [parsers, ih]

def label (g : Grammar) : String := g.parser.label

def parse (g : Grammar) (s : State) : State := g.parser.parse s

/-- Parses a text from its beginning, with nothing on the stack and in the context. -/
def run (g : Grammar) (input : String) : State := g.parse (.start input)

/-! ## Common forms -/

def integer : Grammar := .number .int

def long : Grammar := .number .long

def space : Grammar := .spaces 1 false

def skip (text : String) : Grammar := .literal text false

def skipChar (c : Char) : Grammar := .char c false

def ofFamily {α : Type} (F : Family α) : Grammar := .keyword F.name F.tokens

end Grammar

end StackParser
