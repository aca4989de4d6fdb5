import StackParser.Proofs.Reading

/-!
# What a single unit of text decides

* `Finding` : what can be made of a place in a text, to read on and push values, or to fail there;
* `Parser.Local p` : what `p` does is decided by what is left to read. The text in front, the values below, the context and
  an earlier warning do not count;
* `Grammar.isUnit` : the parsers of single units and the tables, which are local (`Grammar.parser_local`).
-/

namespace StackParser

/-- What can be made of a place in a text. -/
inductive Finding where
  /-- Reads `n` characters and pushes `vs`. -/
  | accept (n : Nat) (vs : List Value)
  /-- Fails `n` characters further. -/
  | reject (n : Nat) (e : ParseError)

namespace Finding

def apply : Finding → State → State
  | accept n vs, s => { s.advance n with stack := s.stack ++ vs }
  | reject n e, s => (s.advance n).fail e

@[simp] theorem apply_accept_nil (n : Nat) (s : State) : (accept n []).apply s = s.advance n := by
  simp [apply, State.advance]

@[simp] theorem apply_reject_zero (e : ParseError) (s : State) : (reject 0 e).apply s = s.fail e := by
  simp [apply]

end Finding

namespace Parser

variable {p : Parser} {ps : List Parser} {s t : State}

/-! ## Keys of tables -/

theorem stack_literal {text : String} (h : ((Parser.literal text true).parse s).failed = false) :
    ((Parser.literal text true).parse s).stack = s.stack ++ [.str text] := by
  have hs := not_failed_of_parse h
  obtain ⟨rest, hrest⟩ := (failed_literal hs).1 h
  exact (Reads.literal text rest true s.context s hs hrest.symm rfl).stack

/-- The one key of a table that is read is on top of the stack. -/
theorem stack_key {table : List (String × Value)}
    (h : ((Parser.oneOf (table.map fun e => Parser.literal e.1 true)).parse s).failed = false) :
    ∃ e ∈ table, ((Parser.oneOf (table.map fun e => Parser.literal e.1 true)).parse s).stack =
      s.stack ++ [.str e.1] := by
  obtain ⟨p, hp, hsuccess, hrun⟩ := oneOf_winner h
  obtain ⟨e, he, rfl⟩ := List.mem_map.1 hp
  refine ⟨e, he, ?_⟩
  rw [parse_of_not_failed _ (not_failed_of_parse h), hrun]
  exact stack_literal hsuccess

/-! ## Local parsers -/

/-- What `p` does is decided by what is left to read: two states with the same text left meet with the same finding. -/
def Local (p : Parser) : Prop :=
  ∀ s t : State, s.failed = false → t.failed = false → t.cursor.after = s.cursor.after →
    ∃ f : Finding, p.parse s = { f.apply s with name := p.label } ∧ p.parse t = { f.apply t with name := p.label }

namespace Local

/-- It is enough to look at the run. -/
theorem of_run (h : ∀ s t : State, t.cursor.after = s.cursor.after →
    ∃ f : Finding, p.run s = f.apply s ∧ p.run t = f.apply t) : p.Local := by
  intro s t hs ht hafter
  obtain ⟨f, hfs, hft⟩ := h s t hafter
  refine ⟨f, ?_, ?_⟩
  · rw [p.parse_of_not_failed hs, hfs]
  · rw [p.parse_of_not_failed ht, hft]

/-! ## Single units -/

theorem char (c : Char) (captured : Bool) : (Parser.char c captured).Local := by
  refine of_run fun s t h => ?_
  unfold Parser.char Cursor.peekChar
  dsimp only
  rw [h]
  split
  · cases captured with
    | true => exact ⟨.accept 1 [.char c], rfl, rfl⟩
    | false => exact ⟨.accept 1 [], by simp, by simp⟩
  · exact ⟨.reject 0 _, rfl, rfl⟩

theorem fixedText (cs : List Char) (captured : Bool) (h : t.cursor.after = s.cursor.after) : ∃ f : Finding,
    Parser.fixedText cs captured s = f.apply s ∧ Parser.fixedText cs captured t = f.apply t := by
  unfold Parser.fixedText
  rw [h]
  split
  · cases captured with
    | true => exact ⟨.accept cs.length [.str (String.ofList cs)], rfl, rfl⟩
    | false => exact ⟨.accept cs.length [], by simp, by simp⟩
  · exact ⟨.reject 0 _, rfl, rfl⟩

theorem literal (text : String) (captured : Bool) : (Parser.literal text captured).Local :=
  of_run fun _ _ => fixedText _ captured

theorem spaces (n : Nat) (captured : Bool) : (Parser.spaces n captured).Local := of_run fun _ _ => fixedText _ captured

theorem letter : Parser.letter.Local := by
  refine of_run fun s t h => ?_
  unfold Parser.letter Cursor.peekChar
  dsimp only
  rw [h]
  split
  · split
    · exact ⟨.accept 1 [.char _], rfl, rfl⟩
    · exact ⟨.reject 0 _, rfl, rfl⟩
  · exact ⟨.reject 0 _, rfl, rfl⟩

theorem word : Parser.word.Local := by
  refine of_run fun s t h => ?_
  unfold Parser.word Cursor.peekChar
  dsimp only
  rw [h]
  split
  · exact ⟨.reject 0 _, rfl, rfl⟩
  · exact ⟨.accept _ [.str _], rfl, rfl⟩

theorem number (kind : NumberKind) : (Parser.number kind).Local := by
  refine of_run fun s t h => ?_
  unfold Parser.number Cursor.peekChar
  dsimp only
  rw [h]
  split
  · exact ⟨.reject 0 _, rfl, rfl⟩
  · split
    · exact ⟨.accept _ [_], rfl, rfl⟩
    · exact ⟨.reject 0 _, rfl, rfl⟩

/-- The only one that may fail further on, behind a carriage return. -/
theorem lineEnd : Parser.lineEnd.Local := by
  refine of_run fun s t h => ?_
  unfold Parser.lineEnd
  dsimp only
  rw [h]
  split
  · exact ⟨.accept 1 [], by simp, by simp⟩
  · exact ⟨.accept 2 [], by simp, by simp⟩
  · exact ⟨.reject 1 _, rfl, rfl⟩
  · exact ⟨.reject 0 _, rfl, rfl⟩

/-! ## Consequences -/

theorem context_parse (h : p.Local) (s : State) : (p.parse s).context = s.context := by
  cases hs : s.failed with
  | true => rw [p.parse_of_failed hs]
  | false =>
    obtain ⟨f, hf, -⟩ := h s s hs hs rfl
    rw [hf]
    cases f <;> rfl

theorem error_eq (h : p.Local) (hs : s.failed = false) (ht : t.failed = false) (hafter : t.cursor.after = s.cursor.after) :
    (p.parse t).error = (p.parse s).error := by
  obtain ⟨f, hfs, hft⟩ := h s t hs ht hafter
  rw [hfs, hft]
  cases f with
  | accept n vs => exact (State.failed_eq_false_iff.1 ht).trans (State.failed_eq_false_iff.1 hs).symm
  | reject n e => rfl

/-- A success changes nothing but what it reads and pushes. -/
theorem parse_of_becomes {n : Nat} {vs : List Value} {c : Context} (h : p.Local) (hs : s.failed = false)
    (hresult : s.Becomes (p.parse s) n vs c) :
    p.parse s = { s.advance n with stack := s.stack ++ vs, name := p.label } := by
  obtain ⟨f, hf, -⟩ := h s s hs hs rfl
  rw [hf] at hresult ⊢
  cases f with
  | accept m ws =>
    have hcursor : s.cursor.advance m = s.cursor.advance n := hresult.cursor
    have hstack : s.stack ++ ws = s.stack ++ vs := hresult.stack
    simp only [Finding.apply, State.advance, hcursor, hstack]
  | reject m e => exact absurd hresult.success.symm Bool.false_ne_true

/-- A failure where the parser began changes nothing but the error. -/
theorem parse_of_breaks {e : ParseError} (h : p.Local) (hs : s.failed = false) (hresult : s.Breaks (p.parse s) 0 e) :
    p.parse s = { s with name := p.label, error := some e } := by
  obtain ⟨f, hf, -⟩ := h s s hs hs rfl
  rw [hf] at hresult ⊢
  cases f with
  | accept m ws => exact absurd hresult.failed (ne_true_of_eq_false hs)
  | reject m e' =>
    have hcursor : s.cursor.advance m = s.cursor := by rw [← s.cursor.advance_zero]; exact hresult.cursor
    have herror : some e' = some e := hresult.error
    simp only [Finding.apply, State.advance, State.fail, hcursor, herror]

/-! ## Tables -/

/-- At one place the same alternatives succeed, and the others fail with the same errors. -/
theorem oneOf (h : ∀ p ∈ ps, p.Local) : (Parser.oneOf ps).Local := by
  intro s t hs ht hafter
  rw [parse_of_not_failed _ hs, parse_of_not_failed _ ht]
  rcases oneOf_alike fun p hp => (h p hp).error_eq hs ht hafter with ⟨p, hp, hps, hpt⟩ | ⟨e, hps, hpt⟩
  · obtain ⟨f, hfs, hft⟩ := h p hp s t hs ht hafter
    rw [hps, hpt, hfs, hft]
    exact ⟨f, rfl, rfl⟩
  · rw [hps, hpt]
    exact ⟨.reject 0 e, by simp, by simp⟩

/-- The value of the key on top takes its place. -/
theorem mapTop_of_key {table : List (String × Value)} {e : String × Value} {v : Value} {base : List Value}
    (hv : tableValue? table e.1 = some v) (hstack : s.stack = base ++ [.str e.1]) :
    mapTop table s = { s with stack := base ++ [v] } := by
  simp [mapTop, hstack, hv, State.push, State.dropLast]

theorem stringMap (table : List (String × Value)) : (Parser.stringMap table).Local := by
  have hkeys : (Parser.oneOf (table.map fun e => Parser.literal e.1 true)).Local := by
    refine oneOf fun p hp => ?_
    obtain ⟨e, -, rfl⟩ := List.mem_map.1 hp
    exact literal e.1 true
  intro s t hs ht hafter
  obtain ⟨f, hfs, hft⟩ := hkeys s t hs ht hafter
  rw [parse_of_not_failed _ hs, parse_of_not_failed _ ht]
  unfold Parser.stringMap
  dsimp only
  cases f with
  | reject n e =>
    rw [hfs, hft]
    exact ⟨.reject n e, rfl, rfl⟩
  | accept n vs =>
    have hsuccess : ((Parser.oneOf (table.map fun e => Parser.literal e.1 true)).parse s).failed = false := by
      rw [hfs]
      exact hs
    have hsuccess' : ((Parser.oneOf (table.map fun e => Parser.literal e.1 true)).parse t).failed = false := by
      rw [hft]
      exact ht
    obtain ⟨e, he, hstack⟩ := stack_key hsuccess
    obtain ⟨v, hv, -⟩ := Pushes.tableValue?_of_mem he
    have hstack' : s.stack ++ vs = s.stack ++ [.str e.1] := by rwa [hfs] at hstack
    obtain rfl : vs = [.str e.1] := List.append_cancel_left hstack'
    refine ⟨.accept n [v], ?_, ?_⟩
    · rw [if_neg (ne_true_of_eq_false hsuccess), hfs, mapTop_of_key hv rfl]
      rfl
    · rw [if_neg (ne_true_of_eq_false hsuccess'), hft, mapTop_of_key hv rfl]
      rfl

theorem of_parse {q : Parser} (hq : q.Local) (hrun : p.run = q.parse) : p.Local := by
  intro s t hs ht hafter
  obtain ⟨f, hfs, hft⟩ := hq s t hs ht hafter
  refine ⟨f, ?_, ?_⟩
  · rw [p.parse_of_not_failed hs, hrun, hfs]
  · rw [p.parse_of_not_failed ht, hrun, hft]

theorem keyword (family : String) (tokens : List (String × String)) : (Parser.keyword family tokens).Local :=
  of_parse (stringMap _) rfl

end Local

end Parser

namespace Grammar

/-- Whether `g` is a single unit of text, or a table. -/
def isUnit : Grammar → Bool
  | .char .. | .literal .. | .letter | .word | .number _ | .spaces .. | .lineEnd | .stringMap _ | .keyword .. => true
  | _ => false

theorem parser_local : ∀ g : Grammar, g.isUnit = true → g.parser.Local
  | .char c captured, _ => .char c captured
  | .literal text captured, _ => .literal text captured
  | .letter, _ => .letter
  | .word, _ => .word
  | .number kind, _ => .number kind
  | .spaces n captured, _ => .spaces n captured
  | .lineEnd, _ => .lineEnd
  | .stringMap table, _ => .stringMap table
  | .keyword family tokens, _ => .keyword family tokens

end Grammar

end StackParser
