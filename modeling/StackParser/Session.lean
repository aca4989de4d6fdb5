import StackParser.State

/-!
# Sessions: a state with saved snapshots

`Session` : the current state and the snapshots kept of earlier ones. `Observation` lists the questions that can be put to a
session without changing it.
-/

namespace StackParser

/-- The current state and the saved ones, the latest first. -/
structure Session where
  state : State
  slots : List (String × State)

namespace Session

def ofState (s : State) : Session := ⟨s, []⟩

def save (session : Session) (slot : String) : Session :=
  { session with slots := (slot, session.state) :: session.slots }

def saved? (session : Session) (slot : String) : Option State := session.slots.lookup slot

/-- Goes back to a snapshot; without one nothing changes. -/
def load (session : Session) (slot : String) : Session :=
  match session.saved? slot with
  | some s => { session with state := s }
  | none => session

def update (session : Session) (f : State → State) : Session := { session with state := f session.state }

end Session

inductive Observation where
  /-- The next `n` characters. -/
  | peek (n : Nat)
  | peekChar
  /-- The input, and what is left of it. -/
  | input
  /-- Whether the current state and a snapshot stand at the same place. -/
  | samePosition (slot : String)
  /-- The report on a failed state. -/
  | report (source : String)
  /-- The sizes of the directories listed in the context. -/
  | sizes
  /-- The values on the stack as text. -/
  | display
  /-- The stack and the context as JSON. -/
  | json
  deriving Inhabited, DecidableEq, Repr

end StackParser
