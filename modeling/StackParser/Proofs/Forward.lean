import StackParser.Grammar

/-!
# Parsing only moves forward

* `Cursor.Reaches c d` : `d` is the place `c` or a later one of the same text; `Reaches.trans`, `Reaches.index_ne_iff`;
* `Parser.Forward p` : `p` only moves forward, whether it succeeds or fails (`Forward.sequenceOf`, …);
* `Session.From c` : a session whose current state and snapshots all stand at `c` or later;
* `Grammar.forward` : the parser of every grammar only moves forward, custom parsers with their snapshots included.
-/

namespace StackParser

/-- `d` is the place `c` or a later one of the same text. -/
def Cursor.Reaches (c d : Cursor) : Prop := ∃ n, d = c.advance n

namespace Cursor.Reaches

variable {c d e : Cursor}

theorem refl (c : Cursor) : c.Reaches c := ⟨0, c.advance_zero.symm⟩

theorem trans (h₁ : c.Reaches d) (h₂ : d.Reaches e) : c.Reaches e := by
  obtain ⟨m, rfl⟩ := h₁
  obtain ⟨n, rfl⟩ := h₂
  exact ⟨m + n, advance_advance c m n⟩

theorem advance (h : c.Reaches d) (n : Nat) : c.Reaches (d.advance n) := h.trans ⟨n, rfl⟩

theorem chars_eq (h : c.Reaches d) : d.chars = c.chars := by
  obtain ⟨n, rfl⟩ := h
  exact chars_advance c n

theorem size_eq (h : c.Reaches d) : d.size = c.size := by
  rw [← length_chars, ← length_chars, h.chars_eq]

theorem index_le (h : c.Reaches d) : c.index ≤ d.index := by
  obtain ⟨n, rfl⟩ := h
  rw [index_advance]
  exact Nat.le_add_right _ _

theorem length_le (h : c.Reaches d) : d.after.length ≤ c.after.length := by
  obtain ⟨n, rfl⟩ := h
  rw [after_advance, List.length_drop]
  exact Nat.sub_le _ _

/-- A place of the same text that is not earlier is another one exactly if fewer characters are left there. -/
theorem index_ne_iff (h : c.Reaches d) : d.index ≠ c.index ↔ d.after.length < c.after.length := by
  have hle := h.index_le
  have hsize := h.size_eq
  rw [Cursor.size_eq, Cursor.size_eq] at hsize
  omega

end Cursor.Reaches

/-! ## Parsers -/

namespace Parser

/-- `p` stays in the text and never moves back, whether it succeeds or fails. -/
def Forward (p : Parser) : Prop := ∀ s : State, s.cursor.Reaches (p.parse s).cursor

/-- A choice is one of the trials, or the state they began with and an error. -/
theorem choose_cases (s : State) (trials : List State) :
    choose s trials ∈ trials ∨ ∃ e, choose s trials = s.fail e := by
  unfold choose
  split
  · rename_i t heq
    have ht : t ∈ trials.filter fun t => !t.failed := by simp [heq]
    exact .inl (List.mem_filter.1 ht).1
  · exact .inr ⟨_, rfl⟩
  · exact .inr ⟨_, rfl⟩

/-- It is enough to look at the run on states that have not failed. -/
theorem Forward.of_run {p : Parser} (h : ∀ s : State, s.cursor.Reaches (p.run s).cursor) : p.Forward := by
  intro s
  cases hs : s.failed with
  | true =>
    rw [parse_of_failed p hs]
    exact .refl _
  | false =>
    rw [parse_of_not_failed p hs]
    exact h s

namespace Forward

theorem char (c : Char) (captured : Bool) : (Parser.char c captured).Forward := by
  refine of_run fun s => ?_
  unfold Parser.char
  dsimp only
  split
  · split
    · exact (Cursor.Reaches.refl _).advance 1
    · exact (Cursor.Reaches.refl _).advance 1
  · exact .refl _

theorem fixedText (cs : List Char) (captured : Bool) (s : State) :
    s.cursor.Reaches (Parser.fixedText cs captured s).cursor := by
  unfold Parser.fixedText
  split
  · split
    · exact (Cursor.Reaches.refl _).advance _
    · exact (Cursor.Reaches.refl _).advance _
  · exact .refl _

theorem literal (text : String) (captured : Bool) : (Parser.literal text captured).Forward :=
  of_run fun s => fixedText _ captured s

theorem spaces (n : Nat) (captured : Bool) : (Parser.spaces n captured).Forward :=
  of_run fun s => fixedText _ captured s

theorem letter : Parser.letter.Forward := by
  refine of_run fun s => ?_
  unfold Parser.letter
  dsimp only
  split
  · split
    · exact (Cursor.Reaches.refl _).advance 1
    · exact .refl _
  · exact .refl _

theorem word : Parser.word.Forward := by
  refine of_run fun s => ?_
  unfold Parser.word
  dsimp only
  split
  · exact .refl _
  · exact (Cursor.Reaches.refl _).advance _

theorem number (kind : NumberKind) : (Parser.number kind).Forward := by
  refine of_run fun s => ?_
  unfold Parser.number
  dsimp only
  split
  · exact .refl _
  · split
    · exact (Cursor.Reaches.refl _).advance _
    · exact .refl _

/-- A carriage return without its line feed is read by a parser that fails: the place still moves forward. -/
theorem lineEnd : Parser.lineEnd.Forward := by
  refine of_run fun s => ?_
  unfold Parser.lineEnd
  dsimp only
  split
  · exact (Cursor.Reaches.refl _).advance 1
  · exact (Cursor.Reaches.refl _).advance 2
  · exact (Cursor.Reaches.refl _).advance 1
  · exact .refl _

/-! ### Combinators -/

theorem runAll {ps : List Parser} (h : ∀ p ∈ ps, p.Forward) (s : State) :
    s.cursor.Reaches (Parser.runAll ps s).cursor := by
  induction ps generalizing s with
  | nil => exact .refl _
  | cons p ps ih =>
    have hp := h p List.mem_cons_self s
    exact hp.trans (ih (fun q hq => h q (List.mem_cons_of_mem _ hq)) (p.parse s))

theorem sequenceOf {ps : List Parser} (h : ∀ p ∈ ps, p.Forward) : (Parser.sequenceOf ps).Forward :=
  of_run (runAll h)

theorem runTimes {p : Parser} (h : p.Forward) (n : Nat) (s : State) :
    s.cursor.Reaches (Parser.runTimes p n s).cursor := by
  induction n generalizing s with
  | zero => exact .refl _
  | succ n ih =>
    unfold Parser.runTimes
    dsimp only
    split
    · exact h s
    · exact (h s).trans (ih (p.parse s))

theorem times (n : Nat) {p : Parser} (h : p.Forward) : (Parser.times n p).Forward :=
  of_run (runTimes h n)

/-- Whichever state is chosen, it is one of the trials or the state they began with. -/
theorem choose {s : State} {trials : List State} (h : ∀ t ∈ trials, s.cursor.Reaches t.cursor) :
    s.cursor.Reaches (Parser.choose s trials).cursor := by
  rcases choose_cases s trials with hmem | ⟨e, he⟩
  · exact h _ hmem
  · rw [he]
    exact .refl _

theorem oneOf {ps : List Parser} (h : ∀ p ∈ ps, p.Forward) : (Parser.oneOf ps).Forward := by
  refine of_run fun s => choose fun t ht => ?_
  obtain ⟨p, hp, rfl⟩ := List.mem_map.1 ht
  exact h p hp s

theorem optional {p : Parser} (h : p.Forward) : (Parser.optional p).Forward := by
  refine of_run fun s => ?_
  unfold Parser.optional
  dsimp only
  split
  · exact .refl _
  · exact h s

theorem collect {p : Parser} (h : p.Forward) (keepEmpty : Bool) (s : State) :
    s.cursor.Reaches (Parser.collect p keepEmpty s).cursor := by
  unfold Parser.collect
  dsimp only
  split
  · exact h s
  · split
    · exact h s
    · exact h s

theorem group {p : Parser} (h : p.Forward) : (Parser.group p).Forward := of_run (collect h false)

theorem list {p : Parser} (h : p.Forward) : (Parser.list p).Forward := of_run (collect h true)

theorem runWhile {p : Parser} (h : p.Forward) (s : State) : s.cursor.Reaches (Parser.runWhile p s).cursor := by
  fun_induction Parser.runWhile p s with
  | case1 s _ => exact .refl _
  | case2 s _ next e _ => exact .refl _
  | case3 s _ next _ _ ih => exact (h s).trans ih
  | case4 s _ next _ _ => exact h s

theorem oneOrMore {p : Parser} (h : p.Forward) : (Parser.oneOrMore p).Forward := of_run (runWhile h)

theorem runTillEnd {p : Parser} (h : p.Forward) (s : State) :
    s.cursor.Reaches (Parser.runTillEnd p s).cursor := by
  fun_induction Parser.runTillEnd p s with
  | case1 s _ => exact .refl _
  | case2 s _ next _ => exact h s
  | case3 s _ next _ _ ih => exact (h s).trans ih
  | case4 s _ next _ _ => exact h s

theorem tillEnd {p : Parser} (h : p.Forward) : (Parser.tillEnd p).Forward := of_run (runTillEnd h)

theorem mapTop (table : List (String × Value)) (s : State) : (Parser.mapTop table s).cursor = s.cursor := by
  unfold Parser.mapTop
  split
  · split
    · rfl
    · rfl
  · rfl
  · rfl

theorem stringMap (table : List (String × Value)) : (Parser.stringMap table).Forward := by
  refine of_run fun s => ?_
  have hkeys : (Parser.oneOf (table.map fun e => Parser.literal e.1 true)).Forward := by
    refine oneOf fun p hp => ?_
    obtain ⟨e, -, rfl⟩ := List.mem_map.1 hp
    exact literal e.1 true
  unfold Parser.stringMap
  dsimp only
  split
  · exact hkeys s
  · rw [mapTop]
    exact hkeys s

theorem keyword (family : String) (tokens : List (String × String)) : (Parser.keyword family tokens).Forward :=
  of_run fun s => stringMap _ s

theorem assemble (shape : Shape) (s : State) : (shape.assemble s).cursor = s.cursor := by
  unfold Shape.assemble
  repeat' split
  all_goals rfl

theorem record (shape : Shape) {p : Parser} (h : p.Forward) : (Parser.record shape p).Forward := by
  refine of_run fun s => ?_
  unfold Parser.record
  dsimp only
  rw [assemble]
  exact h s

theorem action (name : String) {p : Parser} (h : p.Forward) (f : Action) : (Parser.action name p f).Forward := by
  refine of_run fun s => ?_
  unfold Parser.action
  dsimp only
  split
  · exact h s
  · exact h s

end Forward

end Parser

/-! ## Sessions -/

/-- The current state and every snapshot stand at `c` or later in its text. -/
structure Session.From (c : Cursor) (session : Session) : Prop where
  state : c.Reaches session.state.cursor
  slots : ∀ slot ∈ session.slots, c.Reaches slot.2.cursor

namespace Session.From

variable {c : Cursor} {session : Session}

theorem ofState (s : State) : (Session.ofState s).From s.cursor where
  state := .refl _
  slots _ h := nomatch h

theorem update (h : session.From c) {f : State → State} (hf : ∀ s : State, s.cursor.Reaches (f s).cursor) :
    (session.update f).From c where
  state := h.state.trans (hf session.state)
  slots := h.slots

/-- An update that leaves the place alone. -/
theorem updateInPlace (h : session.From c) {f : State → State} (hf : ∀ s : State, (f s).cursor = s.cursor) :
    (session.update f).From c :=
  h.update fun s => ⟨0, by rw [hf, Cursor.advance_zero]⟩

theorem save (h : session.From c) (slot : String) : (session.save slot).From c where
  state := h.state
  slots entry he := by
    rcases List.mem_cons.1 he with rfl | he
    · exact h.state
    · exact h.slots entry he

/-- Going back to a snapshot goes back no further than where the session began. -/
theorem load (h : session.From c) (slot : String) : (session.load slot).From c := by
  unfold Session.load
  split
  · rename_i s hs
    obtain ⟨l₁, l₂, heq, -⟩ := List.lookup_eq_some_iff.1 hs
    exact ⟨h.slots (slot, s) (by rw [heq]; simp), h.slots⟩
  · exact h

end Session.From

theorem State.cursor_dropLatest (s : State) (n : Nat) : (s.dropLatest n).cursor = s.cursor := by
  unfold State.dropLatest
  split
  · rfl
  · rfl

theorem State.cursor_requireTop (s : State) (type : ValueType) (message : String) :
    (s.requireTop type message).cursor = s.cursor := by
  unfold State.requireTop
  split
  · rfl
  · rfl

theorem State.reaches_skip (s : State) (n : Nat) : s.cursor.Reaches (s.skip n).cursor := by
  unfold State.skip
  split
  · exact ⟨n, rfl⟩
  · exact ⟨1, rfl⟩

/-! ## Grammars -/

mutual

/-- The parser of a grammar only moves forward. -/
theorem Grammar.forward : ∀ g : Grammar, g.parser.Forward
  | .char c captured => Parser.Forward.char c captured
  | .literal text captured => Parser.Forward.literal text captured
  | .letter => Parser.Forward.letter
  | .word => Parser.Forward.word
  | .number kind => Parser.Forward.number kind
  | .spaces n captured => Parser.Forward.spaces n captured
  | .lineEnd => Parser.Forward.lineEnd
  | .sequenceOf gs => Parser.Forward.sequenceOf (Grammar.forward_all gs)
  | .oneOf gs => Parser.Forward.oneOf (Grammar.forward_all gs)
  | .optional g => Parser.Forward.optional g.forward
  | .group g => Parser.Forward.group g.forward
  | .list g => Parser.Forward.list g.forward
  | .times n g => Parser.Forward.times n g.forward
  | .oneOrMore g => Parser.Forward.oneOrMore g.forward
  | .tillEnd g => Parser.Forward.tillEnd g.forward
  | .stringMap table => Parser.Forward.stringMap table
  | .keyword family tokens => Parser.Forward.keyword family tokens
  | .record shape g => Parser.Forward.record shape g.forward
  | .action name g f => Parser.Forward.action name g.forward f
  | .custom _ steps => Parser.Forward.of_run fun s => (Step.from_runAll steps (.ofState s)).state

theorem Grammar.forward_all : ∀ gs : List Grammar, ∀ p ∈ Grammar.parsers gs, p.Forward
  | [], p, hp => nomatch hp
  | g :: gs, p, hp => by
    rcases List.mem_cons.1 hp with rfl | hp
    · exact g.forward
    · exact Grammar.forward_all gs p hp

/-- No step takes a session back before the place it began at. -/
theorem Step.from_run : ∀ (step : Step) {c : Cursor} {session : Session},
    session.From c → (step.run session).From c
  | .parse g, _, _, h => by rw [Step.run]; exact h.update g.forward
  | .parseOrKeep g _, _, session, h => by
    rw [Step.run]
    split
    · exact h
    · exact ⟨h.state.trans (g.forward session.state), h.slots⟩
  | .nextChar, _, _, h => by rw [Step.run]; exact h.update fun s => ⟨1, rfl⟩
  | .nextChars n, _, _, h => by rw [Step.run]; exact h.update fun s => s.reaches_skip n
  | .advance n, _, _, h => by rw [Step.run]; exact h.update fun s => ⟨n, rfl⟩
  | .push v, _, _, h => by rw [Step.run]; exact h.updateInPlace fun _ => rfl
  | .popLast, _, _, h => by rw [Step.run]; exact h.updateInPlace fun _ => rfl
  | .popFirst, _, _, h => by rw [Step.run]; exact h.updateInPlace fun _ => rfl
  | .takeLast n, _, _, h => by rw [Step.run]; exact h.updateInPlace fun s => s.cursor_dropLatest n
  | .lookUp _, _, _, h => h
  | .setContext .., _, _, h => by rw [Step.run]; exact h.updateInPlace fun _ => rfl
  | .removeContext _, _, _, h => by rw [Step.run]; exact h.updateInPlace fun _ => rfl
  | .replaceContext _, _, _, h => by rw [Step.run]; exact h.updateInPlace fun _ => rfl
  | .fail _, _, _, h => by rw [Step.run]; exact h.updateInPlace fun _ => rfl
  | .requireTop type message, _, _, h => by
    rw [Step.run]
    exact h.updateInPlace fun s => s.cursor_requireTop type message
  | .assemble shape, _, _, h => by rw [Step.run]; exact h.updateInPlace (Parser.Forward.assemble shape)
  | .save slot, _, _, h => by rw [Step.run]; exact h.save slot
  | .load slot, _, _, h => by rw [Step.run]; exact h.load slot
  | .observe _, _, _, h => h

theorem Step.from_runAll : ∀ (steps : List Step) {c : Cursor} {session : Session},
    session.From c → (Step.runAll steps session).From c
  | [], _, _, h => h
  | step :: steps, _, _, h => by
    rw [Step.runAll]
    split
    · exact step.from_run h
    · exact Step.from_runAll steps (step.from_run h)

end

/-- Whatever a grammar does to a state, and whether or not it fails, the input is the same text afterwards and the
cursor stands between where it stood and the end. -/
theorem Grammar.parse_moves_within_text (g : Grammar) (s : State) :
    (g.parse s).cursor.text = s.cursor.text ∧ s.cursor.index ≤ (g.parse s).cursor.index ∧
      (g.parse s).cursor.index ≤ s.cursor.size := by
  have h : s.cursor.Reaches (g.parse s).cursor := g.forward s
  refine ⟨?_, h.index_le, ?_⟩
  · rw [Cursor.text, Cursor.text, h.chars_eq]
  · rw [← h.size_eq]
    exact Nat.le_add_right _ _

end StackParser
