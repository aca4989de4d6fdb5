import StackParser.Grammar
import StackParser.Proofs.Scanning

/-!
# Parsing with the rounds of its loops counted

Two combinators and two terminals run a loop that no counter bounds: a repetition, a repetition to the end of the input,
and the scans of a word and of a number. Here they are loops with a condition and a body, and each execution is counted.

* `LoopRun` : one execution of a loop, with the characters left when it starts and the rounds it takes;
* `Metered α` : a computation that is told how many rounds a loop may take. It gives a result and all executions of
  loops, and nothing where a loop would go on for longer;
* `Metered.loop` : the loop they are all made of;
* `Grammar.metered` : parsing with a grammar in this way, every trial and every step of a custom parser included.
-/

namespace StackParser

/-- One execution of a loop. -/
structure LoopRun where
  /-- The characters that are left to read when it starts. -/
  left : Nat
  /-- How often its body is run. -/
  rounds : Nat
  deriving DecidableEq, Repr

/-- A result and the loops that were run for it, for each number of rounds that a loop may take. -/
def Metered (α : Type) : Type := Nat → Option (α × List LoopRun)

namespace Metered

variable {α β σ γ : Type}

instance : Monad Metered where
  pure a := fun _ => some (a, [])
  bind m f := fun cap =>
    (m cap).bind fun (a, log) => (f a cap).map fun (b, log') => (b, log ++ log')

/-- Runs `body` on what `cond` finds, until `cond` finds nothing or `body` is done. Rounds are counted, and there may be
`fuel` of them. -/
def rounds (cond : σ → Option γ) (body : σ → γ → Metered (ForInStep σ)) (fuel : Nat) (s : σ) :
    Metered (ForInStep σ × Nat) :=
  match cond s, fuel with
  | none, _ => pure (.yield s, 0)
  | some _, 0 => fun _ => none
  | some c, fuel + 1 => do
    match ← body s c with
    | .done t => pure (.done t, 1)
    | .yield t =>
      let (exit, n) ← rounds cond body fuel t
      pure (exit, n + 1)

theorem rounds_of_none {cond : σ → Option γ} {s : σ} (h : cond s = none) (body : σ → γ → Metered (ForInStep σ))
    (fuel : Nat) : rounds cond body fuel s = pure (.yield s, 0) := by
  unfold rounds
  rw [h]

theorem rounds_of_some {cond : σ → Option γ} {s : σ} {c : γ} (h : cond s = some c)
    (body : σ → γ → Metered (ForInStep σ)) (fuel : Nat) :
    rounds cond body (fuel + 1) s = body s c >>= fun
      | .done t => pure (.done t, 1)
      | .yield t => rounds cond body fuel t >>= fun (exit, n) => pure (exit, n + 1) := by
  rw [rounds.eq_def, h]

/-- An execution of a loop that starts with `left` characters to read. -/
def loop (left : Nat) (cond : σ → Option γ) (body : σ → γ → Metered (ForInStep σ)) (s : σ) : Metered (ForInStep σ) :=
  fun cap => (rounds cond body cap s cap).map fun ((exit, n), log) => (exit, log ++ [⟨left, n⟩])

/-! ## Terminals -/

/-- The text taken so far and the state behind it, with one character more. -/
def takeChar (taken : List Char × State) (c : Char) : List Char × State := (taken.1 ++ [c], taken.2.advance 1)

def word (s : State) : Metered State := do
  let exit ← loop s.cursor.after.length
    (fun taken => taken.2.cursor.peekChar.filter fun c => !isBlank c)
    (fun taken c => pure (.yield (takeChar taken c)))
    ([], s)
  let (text, next) := exit.value
  if text.isEmpty then
    return next.fail (.mismatch "string of any length" (foundText next.cursor.peekChar))
  else
    return next.push (.str (String.ofList text))

/-- Takes characters while they are accepted. A character that is refused takes a round as well. -/
def number (kind : NumberKind) (s : State) : Metered State := do
  let exit ← loop s.cursor.after.length
    (fun taken => taken.2.cursor.peekChar)
    (fun taken c => pure (if kind.accepts taken.1 c then .yield (takeChar taken c) else .done taken))
    ([], s)
  let (text, next) := exit.value
  if text.isEmpty then
    return next.fail (.notANumber (foundText next.cursor.peekChar))
  else
    match kind.value? text with
    | some v => return next.push v
    | none => return s.fail (.invalidNumber (String.ofList text) kind)

end Metered

/-- The parser that has been run and has left `t`. -/
def Parser.ready (t : State) : Parser := ⟨t.name, fun _ => t⟩

namespace Metered

/-! ## Combinators -/

/-- As `Parser.parse` runs a parser: a failed state passes through, and in either case the label is left on it. -/
def stamp (label : String) (run : State → Metered State) (s : State) : Metered State := do
  let t ← if s.failed then pure s else run s
  return { t with name := label }

/-- What a combinator makes of a single run of its part. -/
def once (part : State → Metered State) (combine : Parser → Parser) (s : State) : Metered State := do
  let t ← part s
  return (combine (.ready t)).run s

def sequence (parts : List (State → Metered State)) (s : State) : Metered State :=
  parts.foldlM (fun t part => part t) s

def choice (parts : List (State → Metered State)) (s : State) : Metered State := do
  let trials ← parts.mapM' fun part => part s
  return Parser.choose s trials

def times (part : State → Metered State) : Nat → State → Metered State
  | 0, s => pure s
  | n + 1, s => do
    let t ← part s
    if t.failed then pure t else times part n t

/-- Applies the part to the last of two states, which becomes the first. A success that stays at the same place leaves the
loop. -/
def applyAgain (part : State → Metered State) (states : State × State) : Metered (ForInStep (State × State)) := do
  let attempt ← part states.2
  let stalled := !attempt.failed && attempt.cursor.index == states.2.cursor.index
  return if stalled then .done (states.2, attempt) else .yield (states.2, attempt)

/-- The loop runs while the last state has not failed and is not at the end. If it has failed, the state before it is
what is left. -/
def oneOrMore (part : State → Metered State) (s : State) : Metered State := do
  let exit ← loop s.cursor.after.length
    (fun states => if states.2.failed || states.2.cursor.atEnd then none else some ())
    (fun states _ => applyAgain part states)
    (s, s)
  let (previous, current) := exit.value
  match current.error with
  | some e => return { previous with warning := some e }
  | none => return current

/-- Applies the part. A failure leaves the loop, and so does a success that stays at the same place. -/
def applyOn (part : State → Metered State) (s : State) : Metered (ForInStep State) := do
  let next ← part s
  return if next.failed then .done next
    else if next.cursor.index = s.cursor.index then .done (next.fail (.noProgress next.warning))
    else .yield next

/-- The loop runs while there is something to read. -/
def tillEnd (part : State → Metered State) (s : State) : Metered State := do
  let exit ← loop s.cursor.after.length
    (fun s => if s.cursor.atEnd then none else some ())
    (fun s _ => applyOn part s)
    s
  match exit with
  | .done t => return t
  | .yield t => return { t with warning := none }

end Metered

open Metered (stamp once)

mutual

/-- Parses as `Grammar.parse` does, and counts the rounds of all loops. -/
def Grammar.metered (g : Grammar) : State → Metered State :=
  stamp g.label <| match g with
  | .char .. | .literal .. | .letter | .spaces .. | .lineEnd | .stringMap _ | .keyword .. =>
    fun s => pure (g.parser.run s)
  | .word => Metered.word
  | .number kind => Metered.number kind
  | .sequenceOf gs => Metered.sequence (Grammar.allMetered gs)
  | .oneOf gs => Metered.choice (Grammar.allMetered gs)
  | .optional g => once g.metered .optional
  | .group g => once g.metered .group
  | .list g => once g.metered .list
  | .record shape g => once g.metered (.record shape)
  | .action name g f => once g.metered (.action name · f)
  | .times n g => Metered.times g.metered n
  | .oneOrMore g => Metered.oneOrMore g.metered
  | .tillEnd g => Metered.tillEnd g.metered
  | .custom _ steps => fun s => do
    let session ← Step.allMetered steps (.ofState s)
    return session.state

def Grammar.allMetered : List Grammar → List (State → Metered State)
  | [] => []
  | g :: gs => g.metered :: Grammar.allMetered gs

/-- Only the steps that parse run loops. -/
def Step.metered : Step → Session → Metered Session
  | .parse g, session => do
    let next ← g.metered session.state
    return { session with state := next }
  | .parseOrKeep g _, session => do
    let next ← g.metered session.state
    return if next.failed then session else { session with state := next }
  | step, session => pure (step.run session)

def Step.allMetered : List Step → Session → Metered Session
  | [], session => pure session
  | step :: steps, session => do
    let next ← step.metered session
    if next.state.failed then return next else Step.allMetered steps next

end

end StackParser
