import StackParser.Proofs.FailedSequences
import StackParser.Proofs.Lockstep
import StackParser.Proofs.RecordFrame

/-!
# What a parse cannot see

A parse begins somewhere in a text, with values on the stack and in the context. All of this surrounds it:

* `Surroundings` : the text in front, the values below, and the context if it is another one;
* `Around E t s` : the state `s` is the state `t` in these surroundings. Only the name is left open;
* `Parser.Blind E p` : run on `t` and on `s`, `p` does the same and leaves the surroundings alone. There is one rule for
  single units of text (`Blind.of_local`) and one for each combinator. Records, actions and custom parsers look at the
  values below and at the context, so for these the surroundings have to be `Bare`: nothing but text in front
  (`State.behind`);
* `AroundSession E x y` : the same for the steps of custom parsers, which may save states and go back to them;
* `Grammar.parse_on_top` : values below and the context are not seen by a grammar that only pushes;
* `Grammar.parse_remaining` : the text in front is not seen by any grammar.
-/

namespace StackParser

/-- What there is around a parse. -/
structure Surroundings where
  /-- The characters in front, nearest first. -/
  before : List Char
  /-- The values at the bottom of the stack. -/
  below : List Value
  /-- The context, if it takes the place of another. -/
  context : Option Context

namespace Surroundings

/-- Nothing but text in front. -/
structure Bare (E : Surroundings) : Prop where
  below : E.below = []
  context : E.context = none

/-- The state `s` is the state `t` in the surroundings `E`, whatever the names of the two. -/
structure Around (E : Surroundings) (t s : State) : Prop where
  cursor : s.cursor = ⟨t.cursor.before ++ E.before, t.cursor.after⟩
  stack : s.stack = E.below ++ t.stack
  context : s.context = E.context.getD t.context
  error : s.error = t.error
  warning : s.warning = t.warning

namespace Around

variable {E : Surroundings} {s t : State}

theorem after (h : E.Around t s) : s.cursor.after = t.cursor.after := by rw [h.cursor]

theorem failed (h : E.Around t s) : s.failed = t.failed := by
  unfold State.failed
  rw [h.error]

theorem rename (h : E.Around t s) (name name' : String) :
    E.Around { t with name := name } { s with name := name' } :=
  ⟨h.cursor, h.stack, h.context, h.error, h.warning⟩

theorem fail (h : E.Around t s) (e : ParseError) : E.Around (t.fail e) (s.fail e) :=
  ⟨h.cursor, h.stack, h.context, rfl, h.warning⟩

theorem warn (h : E.Around t s) (warning : Option ParseError) :
    E.Around { t with warning := warning } { s with warning := warning } :=
  ⟨h.cursor, h.stack, h.context, h.error, rfl⟩

theorem advance (h : E.Around t s) (n : Nat) : E.Around (t.advance n) (s.advance n) where
  cursor := by simp [State.advance, Cursor.advance, h.cursor]
  stack := h.stack
  context := h.context
  error := h.error
  warning := h.warning

/-- What is on top of the values below may become anything, in the same way. -/
theorem restack (h : E.Around t s) (stack : List Value) :
    E.Around { t with stack := stack } { s with stack := E.below ++ stack } :=
  ⟨h.cursor, rfl, h.context, h.error, h.warning⟩

theorem append (h : E.Around t s) (vs : List Value) :
    E.Around { t with stack := t.stack ++ vs } { s with stack := s.stack ++ vs } := by
  have hrestacked := h.restack (t.stack ++ vs)
  rwa [← List.append_assoc, ← h.stack] at hrestacked

theorem push (h : E.Around t s) (v : Value) : E.Around (t.push v) (s.push v) := h.append [v]

theorem skip (h : E.Around t s) (n : Nat) : E.Around (t.skip n) (s.skip n) := by
  have hpeek : s.cursor.peek n = t.cursor.peek n := by rw [Cursor.peek_eq, Cursor.peek_eq, h.after]
  unfold State.skip
  rw [hpeek]
  split
  · exact h.advance n
  · exact h.advance 1

theorem apply (h : E.Around t s) (f : Finding) : E.Around (f.apply t) (f.apply s) := by
  cases f with
  | accept n vs => exact (h.advance n).append vs
  | reject n e => exact (h.advance n).fail e

theorem collectLast (h : E.Around t s) {n : Nat} (hn : n ≤ t.stack.length) (f : List Value → Value) :
    E.Around (t.collectLast n f) (s.collectLast n f) := by
  have hsplit := List.take_append_drop (t.stack.length - n) t.stack
  have hlength : (t.stack.drop (t.stack.length - n)).length = n := by
    rw [List.length_drop]
    omega
  have hcollect := s.collectLast_append (E.below ++ t.stack.take (t.stack.length - n))
    (t.stack.drop (t.stack.length - n)) f (by rw [h.stack, List.append_assoc, hsplit])
  rw [hlength, List.append_assoc] at hcollect
  rw [hcollect]
  exact h.restack _

end Around

end Surroundings

/-- The same state with more text in front, and under another name. -/
def State.behind (s : State) (before : List Char) (name : String) : State :=
  { s with cursor := ⟨s.cursor.before ++ before, s.cursor.after⟩, name := name }

namespace Surroundings

theorem around_behind {E : Surroundings} (hE : E.Bare) (t : State) (name : String) :
    E.Around t (t.behind E.before name) where
  cursor := rfl
  stack := by rw [hE.below]; rfl
  context := by rw [hE.context]; rfl
  error := rfl
  warning := rfl

theorem Around.eq_behind {E : Surroundings} (hE : E.Bare) {t s : State} (h : E.Around t s) :
    s = t.behind E.before s.name := by
  have hstack : s.stack = t.stack := by rw [h.stack, hE.below, List.nil_append]
  have hcontext : s.context = t.context := by rw [h.context, hE.context, Option.getD_none]
  have hstate : s = ⟨s.cursor, s.stack, s.context, s.name, s.error, s.warning⟩ := rfl
  rw [hstate, h.cursor, hstack, hcontext, h.error, h.warning]
  rfl

/-- What comes to the same behind any text keeps bare surroundings. -/
theorem Around.of_behind {E : Surroundings} (hE : E.Bare) {t s : State} (h : E.Around t s) (f : State → State)
    (hf : ∀ before name, f (t.behind before name) = (f t).behind before name) : E.Around (f t) (f s) := by
  rw [h.eq_behind hE, hf]
  exact around_behind hE (f t) s.name

end Surroundings

namespace State

variable (t : State) (before : List Char) (name : String)

theorem assemble_behind (shape : Shape) :
    shape.assemble (t.behind before name) = (shape.assemble t).behind before name := by
  have hfailed : (t.behind before name).failed = t.failed := rfl
  have hstack : (t.behind before name).stack = t.stack := rfl
  unfold Shape.assemble
  rw [hfailed, hstack]
  split
  · rfl
  · split
    · rfl
    · split
      · rfl
      · split
        · rfl
        · rfl

theorem dropLatest_behind (n : Nat) : (t.behind before name).dropLatest n = (t.dropLatest n).behind before name := by
  have hstack : (t.behind before name).stack = t.stack := rfl
  unfold dropLatest
  rw [hstack]
  split
  · rfl
  · rfl

theorem requireTop_behind (type : ValueType) (message : String) :
    (t.behind before name).requireTop type message = (t.requireTop type message).behind before name := by
  have hstack : (t.behind before name).stack = t.stack := rfl
  unfold requireTop
  rw [hstack]
  split
  · rfl
  · rfl

end State

open Surroundings (Around)

namespace Parser

/-- On a state and on the same state in other surroundings `p` does the same. -/
def Blind (E : Surroundings) (p : Parser) : Prop := ∀ t s : State, Around E t s → Around E (p.parse t) (p.parse s)

namespace Blind

variable {E : Surroundings} {p : Parser} {ps : List Parser} {s t : State}

/-- It is enough to look at the run. -/
theorem of_run (h : ∀ t s : State, Around E t s → Around E (p.run t) (p.run s)) : p.Blind E := by
  intro t s hts
  unfold Parser.parse
  rw [hts.failed]
  split
  · exact hts.rename _ _
  · exact (h t s hts).rename _ _

/-- The text that is left is the same in all surroundings, so a single unit meets with the same finding. -/
theorem of_local (hp : p.Local) : p.Blind E := by
  intro t s h
  cases ht : t.failed with
  | true =>
    rw [p.parse_of_failed ht, p.parse_of_failed (h.failed.trans ht)]
    exact h.rename _ _
  | false =>
    obtain ⟨f, hft, hfs⟩ := hp t s ht (h.failed.trans ht) h.after
    rw [hft, hfs]
    exact (h.apply f).rename _ _

/-! ## Combinators -/

theorem lockstep (E : Surroundings) : Lockstep (Around E) where
  failed h := h.failed
  after h := h.after
  rename name name' h := h.rename name name'
  clear h := h.warn none
  warn h h' := h'.error ▸ h.warn _
  stall h := h.warning ▸ h.fail _

theorem sequenceOf (hps : ∀ p ∈ ps, p.Blind E) : (Parser.sequenceOf ps).Blind E :=
  Follows.sequenceOf (lockstep E) (List.forall₂_same.2 hps)

theorem times (n : Nat) (hp : p.Blind E) : (Parser.times n p).Blind E := Follows.times (lockstep E) n hp

theorem optional (hp : p.Blind E) : (Parser.optional p).Blind E := Follows.optional (lockstep E) hp

theorem oneOrMore (hp : p.Blind E) : (Parser.oneOrMore p).Blind E := Follows.oneOrMore (lockstep E) hp

theorem tillEnd (hp : p.Blind E) : (Parser.tillEnd p).Blind E := Follows.tillEnd (lockstep E) hp

/-- The same trials succeed, and the others fail with the same errors. -/
theorem oneOf (hps : ∀ p ∈ ps, p.Blind E) : (Parser.oneOf ps).Blind E := by
  refine of_run fun t s h => ?_
  rcases oneOf_alike fun p hp => (hps p hp t s h).error with ⟨p, hp, ht, hs⟩ | ⟨e, ht, hs⟩
  · rw [ht, hs]
    exact hps p hp t s h
  · rw [ht, hs]
    exact h.fail e

/-- The values below do not count in how much the stack has grown. -/
theorem collect (hp : p.Blind E) (keepEmpty : Bool) (h : Around E t s) :
    Around E (Parser.collect p keepEmpty t) (Parser.collect p keepEmpty s) := by
  have hnext := hp t s h
  have hadded : (p.parse s).stack.length - s.stack.length = (p.parse t).stack.length - t.stack.length := by
    rw [hnext.stack, h.stack, List.length_append, List.length_append]
    omega
  unfold Parser.collect
  dsimp only
  rw [hnext.failed, hadded]
  split
  · exact hnext
  · split
    · exact hnext.collectLast (by omega) .list
    · exact hnext

theorem group (hp : p.Blind E) : (Parser.group p).Blind E := of_run fun _ _ => hp.collect false

theorem list (hp : p.Blind E) : (Parser.list p).Blind E := of_run fun _ _ => hp.collect true

/-! ## Records and actions -/

theorem record (hE : E.Bare) (shape : Shape) (hp : p.Blind E) : (Parser.record shape p).Blind E :=
  of_run fun t s h =>
    (hp t s h).of_behind hE shape.assemble fun before name => State.assemble_behind _ before name shape

theorem action (hE : E.Bare) (name : String) (hp : p.Blind E) (f : Action) : (Parser.action name p f).Blind E := by
  refine of_run fun t s h => ?_
  have hnext := hp t s h
  have hact := hnext.of_behind hE (State.act · f) fun _ _ => rfl
  unfold Parser.action
  dsimp only
  rw [hnext.failed]
  split
  · exact hnext
  · exact hact

end Blind

end Parser

/-! ## Sessions -/

/-- The current states are as `Around` says, and so are the snapshots of each name. -/
structure Surroundings.AroundSession (E : Surroundings) (x y : Session) : Prop where
  state : Around E x.state y.state
  saved : ∀ slot, Option.Rel (Around E) (x.saved? slot) (y.saved? slot)

namespace Surroundings.AroundSession

variable {E : Surroundings} {x y : Session}

theorem ofState {t s : State} (h : Around E t s) : AroundSession E (.ofState t) (.ofState s) :=
  ⟨h, fun _ => .none⟩

theorem update (h : AroundSession E x y) {f : State → State} (hf : Around E (f x.state) (f y.state)) :
    AroundSession E (x.update f) (y.update f) :=
  ⟨hf, h.saved⟩

theorem saved?_save (x : Session) (slot slot' : String) :
    (x.save slot).saved? slot' = if slot' = slot then some x.state else x.saved? slot' := by
  unfold Session.saved? Session.save
  rw [List.lookup_cons]
  by_cases heq : slot' = slot
  · rw [if_pos heq, beq_iff_eq.2 heq]
  · rw [if_neg heq, beq_eq_false_iff_ne.2 heq]

theorem save (h : AroundSession E x y) (slot : String) : AroundSession E (x.save slot) (y.save slot) where
  state := h.state
  saved slot' := by
    rw [saved?_save, saved?_save]
    split
    · exact .some h.state
    · exact h.saved slot'

theorem load (h : AroundSession E x y) (slot : String) : AroundSession E (x.load slot) (y.load slot) := by
  have hsaved := h.saved slot
  unfold Session.load
  generalize x.saved? slot = a at hsaved ⊢
  generalize y.saved? slot = b at hsaved ⊢
  cases hsaved with
  | some hstate => exact ⟨hstate, h.saved⟩
  | none => exact h

end Surroundings.AroundSession

open Surroundings (AroundSession)

/-! ## Grammars -/

section

variable {E : Surroundings}

mutual

/-- Bare surroundings are seen by no grammar, and other ones by none that only pushes. -/
theorem Grammar.blind : ∀ g : Grammar, E.Bare ∨ g.additive = true → g.parser.Blind E
  | .char .., _ | .literal .., _ | .letter, _ | .word, _ | .number _, _ | .spaces .., _ | .lineEnd, _ | .stringMap _, _
  | .keyword .., _ => Parser.Blind.of_local (Grammar.parser_local _ rfl)
  | .sequenceOf gs, h => Parser.Blind.sequenceOf (Grammar.blind_all gs h)
  | .oneOf gs, h => Parser.Blind.oneOf (Grammar.blind_all gs h)
  | .optional g, h => Parser.Blind.optional (g.blind h)
  | .group g, h => Parser.Blind.group (g.blind h)
  | .list g, h => Parser.Blind.list (g.blind h)
  | .times n g, h => Parser.Blind.times n (g.blind h)
  | .oneOrMore g, h => Parser.Blind.oneOrMore (g.blind h)
  | .tillEnd g, h => Parser.Blind.tillEnd (g.blind h)
  | .record shape g, .inl hE => Parser.Blind.record hE shape (g.blind (.inl hE))
  | .action name g f, .inl hE => Parser.Blind.action hE name (g.blind (.inl hE)) f
  | .custom _ steps, .inl hE =>
    Parser.Blind.of_run fun _ _ h => (Step.blind_runAll hE steps (AroundSession.ofState h)).state

theorem Grammar.blind_all : ∀ gs : List Grammar, E.Bare ∨ Grammar.allAdditive gs = true →
    ∀ p ∈ Grammar.parsers gs, p.Blind E
  | [], _, p, hp => nomatch hp
  | g :: gs, h, p, hp => by
    have hboth : (E.Bare ∨ g.additive = true) ∧ (E.Bare ∨ Grammar.allAdditive gs = true) := by
      rw [← or_and_left, ← Bool.and_eq_true]
      exact h
    rcases List.mem_cons.1 hp with rfl | hp
    · exact g.blind hboth.1
    · exact Grammar.blind_all gs hboth.2 p hp

/-- No step sees the text in front. -/
theorem Step.blind_run (hE : E.Bare) : ∀ (step : Step) {x y : Session},
    AroundSession E x y → AroundSession E (step.run x) (step.run y)
  | .parse g, _, _, h => by rw [Step.run, Step.run]; exact h.update (g.blind (.inl hE) _ _ h.state)
  | .parseOrKeep g _, x, y, h => by
    have hnext := g.blind (.inl hE) _ _ h.state
    rw [Step.run, Step.run, hnext.failed]
    split
    · exact h
    · exact ⟨hnext, h.saved⟩
  | .nextChar, _, _, h => by rw [Step.run, Step.run]; exact h.update (h.state.advance 1)
  | .nextChars n, _, _, h => by rw [Step.run, Step.run]; exact h.update (h.state.skip n)
  | .advance n, _, _, h => by rw [Step.run, Step.run]; exact h.update (h.state.advance n)
  | .push v, _, _, h => by rw [Step.run, Step.run]; exact h.update (h.state.push v)
  | .popLast, _, _, h => by
    rw [Step.run, Step.run]
    exact h.update (h.state.of_behind hE State.dropLast fun _ _ => rfl)
  | .popFirst, _, _, h => by
    rw [Step.run, Step.run]
    exact h.update (h.state.of_behind hE State.dropFirst fun _ _ => rfl)
  | .takeLast n, _, _, h => by
    rw [Step.run, Step.run]
    exact h.update (h.state.of_behind hE (State.dropLatest · n) fun _ _ => State.dropLatest_behind _ _ _ n)
  | .lookUp _, _, _, h => by rw [Step.run, Step.run]; exact h
  | .setContext key v, _, _, h => by
    rw [Step.run, Step.run]
    exact h.update (h.state.of_behind hE (State.setContext · key v) fun _ _ => rfl)
  | .removeContext key, _, _, h => by
    rw [Step.run, Step.run]
    exact h.update (h.state.of_behind hE (State.removeContext · key) fun _ _ => rfl)
  | .replaceContext context, _, _, h => by
    rw [Step.run, Step.run]
    exact h.update (h.state.of_behind hE (fun s => { s with context := context }) fun _ _ => rfl)
  | .fail e, _, _, h => by rw [Step.run, Step.run]; exact h.update (h.state.fail e)
  | .requireTop type message, _, _, h => by
    rw [Step.run, Step.run]
    exact h.update (h.state.of_behind hE (State.requireTop · type message) fun _ _ =>
      State.requireTop_behind _ _ _ type message)
  | .assemble shape, _, _, h => by
    rw [Step.run, Step.run]
    exact h.update (h.state.of_behind hE shape.assemble fun _ _ => State.assemble_behind _ _ _ shape)
  | .save slot, _, _, h => by rw [Step.run, Step.run]; exact h.save slot
  | .load slot, _, _, h => by rw [Step.run, Step.run]; exact h.load slot
  | .observe _, _, _, h => by rw [Step.run, Step.run]; exact h

theorem Step.blind_runAll (hE : E.Bare) : ∀ (steps : List Step) {x y : Session},
    AroundSession E x y → AroundSession E (Step.runAll steps x) (Step.runAll steps y)
  | [], _, _, h => by rw [Step.runAll, Step.runAll]; exact h
  | step :: steps, _, _, h => by
    have hnext := step.blind_run hE h
    rw [Step.runAll, Step.runAll, hnext.state.failed]
    split
    · exact hnext
    · exact Step.blind_runAll hE steps hnext

end

end

/-- A grammar that only pushes neither sees nor touches the values below and the context: it does what it does on an
empty stack and in an empty context, on top of them. This holds whether or not it fails. -/
theorem Grammar.parse_on_top (g : Grammar) (s : State) (hg : g.additive = true) :
    let s₀ := { s with stack := [], context := .empty }
    (g.parse s).cursor = (g.parse s₀).cursor ∧ (g.parse s).error = (g.parse s₀).error ∧
      (g.parse s).warning = (g.parse s₀).warning ∧ (g.parse s).name = (g.parse s₀).name ∧
      (g.parse s).stack = s.stack ++ (g.parse s₀).stack ∧ (g.parse s).context = s.context := by
  intro s₀
  let E : Surroundings := ⟨[], s.stack, some s.context⟩
  have hstart : Around E s₀ s :=
    ⟨by rw [List.append_nil], (List.append_nil _).symm, rfl, rfl, rfl⟩
  have hend : Around E (g.parse s₀) (g.parse s) := g.blind (.inr hg) s₀ s hstart
  refine ⟨?_, hend.error, hend.warning, rfl, hend.stack, hend.context⟩
  rw [hend.cursor, List.append_nil]

/-- A list of two moves, with a text and a context that were there before. The table finds no third move, which is the
warning, and no number can be read in the place of it, which is the error. -/
theorem Grammar.parse_on_top_moves :
    let moves := list (oneOrMore (sequenceOf [stringMap [("R", .str "rock"), ("P", .int 2)], space]))
    let g := sequenceOf [moves, tillEnd integer]
    let s := { State.start "R P x" with stack := [.str "below"], context := Keyed.empty.insert "round" (.int 7) }
    let s₀ := { s with stack := [], context := .empty }
    g.additive = true ∧ (g.parse s).failed = true ∧
      (g.parse s₀).stack.map Value.type = [.list] ∧ (g.parse s₀).cursor.index = 4 ∧
      (g.parse s₀).warning.map ParseError.category = some .alternation ∧
      (g.parse s₀).error = some (.notANumber "x") ∧
      (g.parse s).cursor = (g.parse s₀).cursor ∧ (g.parse s).error = (g.parse s₀).error ∧
      (g.parse s).warning = (g.parse s₀).warning ∧ (g.parse s).name = (g.parse s₀).name ∧
      (g.parse s).stack = [.str "below"] ++ (g.parse s₀).stack ∧ (g.parse s).context = s.context := by
  intro moves g s s₀
  exact ⟨rfl, by decide +kernel, by decide +kernel, by decide +kernel, by decide +kernel, by decide +kernel,
    parse_on_top g s rfl⟩

/-- What a grammar does depends on what is left to read and not on what has been read: begun at the front of the rest
of the text, under whatever name, it does the same, and ends so many characters later. -/
theorem Grammar.parse_remaining (g : Grammar) (s : State) (name : String) :
    let t := { s with cursor := .ofList (s.cursor.chars.drop s.cursor.index), name := name }
    (g.parse s).stack = (g.parse t).stack ∧ (g.parse s).context = (g.parse t).context ∧
      (g.parse s).error = (g.parse t).error ∧ (g.parse s).warning = (g.parse t).warning ∧
      (g.parse s).name = (g.parse t).name ∧
      (g.parse s).cursor.index = s.cursor.index + (g.parse t).cursor.index := by
  intro t
  let E : Surroundings := ⟨s.cursor.before, [], none⟩
  have hrest : s.cursor.chars.drop s.cursor.index = s.cursor.after := by
    unfold Cursor.chars Cursor.index
    rw [← List.length_reverse, List.drop_left]
  have hcursor : s.cursor = ⟨t.cursor.before ++ E.before, t.cursor.after⟩ := by
    show s.cursor = ⟨[] ++ s.cursor.before, s.cursor.chars.drop s.cursor.index⟩
    rw [hrest, List.nil_append]
  have hstart : Around E t s := ⟨hcursor, rfl, rfl, rfl, rfl⟩
  have hend : Around E (g.parse t) (g.parse s) := g.blind (.inl ⟨rfl, rfl⟩) t s hstart
  refine ⟨hend.stack, hend.context, hend.error, hend.warning, rfl, ?_⟩
  rw [hend.cursor]
  show ((g.parse t).cursor.before ++ s.cursor.before).length = _
  rw [List.length_append, Nat.add_comm]
  rfl

end StackParser
