import Mathlib.Data.List.Basic
import StackParser.Proofs.Repetition
import StackParser.Proofs.Rules
import StackParser.Proofs.Writing

/-!
# What a parser makes of a text

* `State.Becomes s t n vs context` : `t` is what a success makes of `s` that reads `n` characters, pushes `vs` and leaves
  this context;
* `Parser.Turns p cs rest before vs after` : in front of `cs`, with `rest` behind it, `p` succeeds, reads `cs`, pushes
  `vs` and turns the context `before` into `after`. `Parser.Reads` leaves the context alone. What is behind counts, since
  words and numbers are read as far as they go;
* `Parser.Refuses p cs` : `p` fails in front of `cs`;
* `Parser.TurnsAll` : the same for a repetition, piece by piece (`Turns.oneOrMore`, `Turns.tillEnd`).

There is one rule for each parser and combinator.
-/

namespace StackParser

/-- `t` is `s` after a success that read `n` characters and pushed `vs`. -/
structure State.Becomes (s t : State) (n : Nat) (vs : List Value) (context : Context) : Prop where
  success : t.failed = false
  cursor : t.cursor = s.cursor.advance n
  stack : t.stack = s.stack ++ vs
  context : t.context = context

namespace State.Becomes

variable {s t u : State} {m n : Nat} {vs ws : List Value} {c d : Context} {cs rest : List Char}

theorem refl (hs : s.failed = false) : s.Becomes s 0 [] s.context :=
  ⟨hs, by rw [Cursor.advance_zero], by rw [List.append_nil], rfl⟩

theorem trans (h₁ : s.Becomes t m vs c) (h₂ : t.Becomes u n ws d) : s.Becomes u (m + n) (vs ++ ws) d where
  success := h₂.success
  cursor := by rw [h₂.cursor, h₁.cursor, Cursor.advance_advance]
  stack := by rw [h₂.stack, h₁.stack, List.append_assoc]
  context := h₂.context

theorem rename (h : s.Becomes t n vs c) (name : String) : s.Becomes { t with name := name } n vs c :=
  ⟨h.success, h.cursor, h.stack, h.context⟩

theorem after_eq (h : s.Becomes t cs.length vs c) (hs : s.cursor.after = cs ++ rest) : t.cursor.after = rest := by
  rw [h.cursor, Cursor.after_advance, hs, List.drop_left]

/-- A success that reads something moves on. -/
theorem movedOn (h : s.Becomes t cs.length vs c) (hs : s.cursor.after = cs ++ rest) (hcs : cs ≠ []) : t.movedOn s := by
  have hlength := List.length_pos_iff.2 hcs
  rw [State.movedOn, h.after_eq hs, hs, List.length_append]
  omega

end State.Becomes

/-- `t` is `s` after a failure with this error, `n` characters further and with nothing else changed. -/
structure State.Breaks (s t : State) (n : Nat) (e : ParseError) : Prop where
  error : t.error = some e
  cursor : t.cursor = s.cursor.advance n
  stack : t.stack = s.stack
  context : t.context = s.context

namespace State.Breaks

variable {s t u : State} {m n : Nat} {e : ParseError} {vs : List Value} {c : Context}

theorem failed (h : s.Breaks t n e) : t.failed = true := by
  rw [State.failed, h.error]
  rfl

theorem fail (s : State) (e : ParseError) : s.Breaks (s.fail e) 0 e :=
  ⟨rfl, by rw [Cursor.advance_zero]; rfl, rfl, rfl⟩

theorem rename (h : s.Breaks t n e) (name : String) : s.Breaks { t with name := name } n e :=
  ⟨h.error, h.cursor, h.stack, h.context⟩

/-- A failure after a success that pushed nothing. -/
theorem after (h : t.Breaks u n e) (ht : s.Becomes t m [] s.context) : s.Breaks u (m + n) e where
  error := h.error
  cursor := by rw [h.cursor, ht.cursor, Cursor.advance_advance]
  stack := by rw [h.stack, ht.stack, List.append_nil]
  context := h.context.trans ht.context

end State.Breaks

namespace Parser

/-- In front of `cs`, with `rest` behind it, `p` succeeds, reads `cs`, pushes `vs` and turns the context `before` into
`after`. -/
def Turns (p : Parser) (cs rest : List Char) (before : Context) (vs : List Value) (after : Context) : Prop :=
  ∀ s : State, s.failed = false → s.cursor.after = cs ++ rest → s.context = before →
    s.Becomes (p.parse s) cs.length vs after

/-- In front of `cs`, with `rest` behind it, `p` succeeds, reads `cs` and pushes `vs`. -/
def Reads (p : Parser) (cs rest : List Char) (vs : List Value) : Prop := ∀ context, p.Turns cs rest context vs context

/-- In front of `cs`, `p` fails. -/
def Refuses (p : Parser) (cs : List Char) : Prop :=
  ∀ s : State, s.failed = false → s.cursor.after = cs → (p.parse s).failed = true

variable {p q : Parser} {ps qs : List Parser} {s : State} {cs ds rest : List Char} {vs ws : List Value}
  {c d e : Context}

/-- It is enough to look at the run on states that have not failed. -/
theorem Turns.of_run (h : ∀ s : State, s.failed = false → s.cursor.after = cs ++ rest → s.context = c →
    s.Becomes (p.run s) cs.length vs d) : p.Turns cs rest c vs d := by
  intro s hs hafter hc
  rw [p.parse_of_not_failed hs]
  exact (h s hs hafter hc).rename p.label

theorem Reads.of_run (h : ∀ s : State, s.failed = false → s.cursor.after = cs ++ rest →
    s.Becomes (p.run s) cs.length vs s.context) : p.Reads cs rest vs := by
  intro c
  refine Turns.of_run fun s hs hafter hc => ?_
  subst hc
  exact h s hs hafter

theorem Refuses.of_run (h : ∀ s : State, s.failed = false → s.cursor.after = cs → (p.run s).failed = true) :
    p.Refuses cs := by
  intro s hs hafter
  rw [failed_parse hs]
  exact h s hs hafter

/-- What begins with no character of `K` is refused by a parser that begins with one. -/
theorem Begins.refuses {K : Char → Prop} (h : p.Begins K) (hcs : ∀ x ∈ cs.head?, ¬ K x) : p.Refuses cs := by
  intro s _ hafter
  refine Bool.of_not_eq_false fun hsuccess => ?_
  obtain ⟨x, hx, hK⟩ := h s hsuccess
  exact hcs x (hafter ▸ hx) hK

/-- Once a state has failed the rest of a sequence lets it through. -/
theorem runAll_of_breaks {t : State} {n : Nat} {e : ParseError} (h : s.Breaks t n e) :
    s.Breaks (runAll ps t) n e := by
  induction ps generalizing t with
  | nil => exact h
  | cons p ps ih =>
    have hnext : s.Breaks (p.parse t) n e := by
      rw [p.parse_of_failed h.failed]
      exact h.rename p.label
    exact ih hnext

theorem breaks_head {n : Nat} {e : ParseError} (hs : s.failed = false) (h : s.Breaks (p.parse s) n e) :
    s.Breaks ((sequenceOf (p :: ps)).parse s) n e := by
  rw [parse_of_not_failed _ hs]
  exact (runAll_of_breaks h).rename _

theorem breaks_tail {n : Nat} {e : ParseError} (hs : s.failed = false) (hafter : s.cursor.after = cs ++ rest)
    (hp : p.Reads cs rest []) (h : (p.parse s).Breaks ((sequenceOf ps).parse (p.parse s)) n e) :
    s.Breaks ((sequenceOf (p :: ps)).parse s) (cs.length + n) e := by
  have hfirst := hp s.context s hs hafter rfl
  have hall := h.after hfirst
  rw [(sequenceOf ps).parse_of_not_failed hfirst.success] at hall
  rw [parse_of_not_failed _ hs]
  exact hall.rename (sequenceOf (p :: ps)).label

namespace Reads

theorem char (x : Char) (rest : List Char) : (Parser.char x false).Reads [x] rest [] := by
  refine of_run fun s hs hafter => ?_
  have hpeek : s.cursor.peekChar = some x := by rw [Cursor.peekChar, hafter]; rfl
  unfold Parser.char
  dsimp only
  rw [if_pos hpeek, if_neg Bool.false_ne_true]
  exact ⟨hs, rfl, (List.append_nil _).symm, rfl⟩

theorem fixedText (cs rest : List Char) (captured : Bool) (hs : s.failed = false) (hafter : s.cursor.after = cs ++ rest) :
    s.Becomes (Parser.fixedText cs captured s) cs.length (if captured then [.str (String.ofList cs)] else [])
      s.context := by
  have hprefix : cs.isPrefixOf s.cursor.after = true := by
    rw [hafter, List.isPrefixOf_iff_prefix]
    exact List.prefix_append cs rest
  unfold Parser.fixedText
  rw [if_pos hprefix]
  cases captured with
  | true => exact ⟨hs, rfl, rfl, rfl⟩
  | false => exact ⟨hs, rfl, (List.append_nil _).symm, rfl⟩

theorem literal (text : String) (rest : List Char) (captured : Bool) :
    (Parser.literal text captured).Reads text.toList rest (if captured then [.str text] else []) := by
  refine of_run fun s hs hafter => ?_
  have h := fixedText text.toList rest captured hs hafter
  rw [String.ofList_toList] at h
  exact h

/-- A text that is only read over. -/
theorem skip (text : String) (rest : List Char) : (Parser.literal text false).Reads text.toList rest [] :=
  literal text rest false

theorem spaces (n : Nat) (rest : List Char) : (Parser.spaces n false).Reads (List.replicate n ' ') rest [] :=
  of_run fun _ hs hafter => fixedText _ rest false hs hafter

theorem word (hne : cs ≠ []) (hcs : ∀ x ∈ cs, isBlank x = false) (hrest : StopsAt (fun x => !isBlank x) rest) :
    Parser.word.Reads cs rest [.str (String.ofList cs)] := by
  refine of_run fun s hs hafter => ?_
  have hword : s.cursor.after.takeWhile (fun x => !isBlank x) = cs := by
    rw [hafter]
    refine takeWhile_append_of_stopsAt (fun x hx => ?_) hrest
    rw [hcs x hx]
    rfl
  unfold Parser.word
  dsimp only
  rw [hword, if_neg (by simpa using hne)]
  exact ⟨hs, rfl, rfl, rfl⟩

theorem number {kind : NumberKind} (m : Numeral) {v : Value} (hm : kind.hold? m.value = some v)
    (hrest : StopsAt Char.isDigit rest) : (Parser.number kind).Reads m.text rest [v] := by
  refine of_run fun s hs hafter => ?_
  have hkind := NumberKind.ne_float_of_hold? hm
  have hne := m.text_ne_nil
  unfold Parser.number
  dsimp only
  rw [hafter, NumberKind.scan_text hkind m hrest, if_neg (by simpa using hne), NumberKind.value?_text hkind, hm]
  exact ⟨hs, rfl, rfl, rfl⟩

theorem lineEnd (b : LineBreak) (rest : List Char) : Parser.lineEnd.Reads b.text rest [] := by
  refine of_run fun s hs hafter => ?_
  unfold Parser.lineEnd
  dsimp only
  cases b with
  | feed =>
    rw [hafter]
    exact ⟨hs, rfl, (List.append_nil _).symm, rfl⟩
  | returnFeed =>
    rw [hafter]
    exact ⟨hs, rfl, (List.append_nil _).symm, rfl⟩

end Reads

/-! ## One after the other -/

theorem becomes_cons {m n : Nat} (hs : s.failed = false) (hp : s.Becomes (p.parse s) m vs c)
    (hps : (p.parse s).Becomes ((sequenceOf ps).parse (p.parse s)) n ws d) :
    s.Becomes ((sequenceOf (p :: ps)).parse s) (m + n) (vs ++ ws) d := by
  have hall := hp.trans hps
  rw [(sequenceOf ps).parse_of_not_failed hp.success] at hall
  rw [parse_of_not_failed _ hs]
  exact hall.rename (sequenceOf (p :: ps)).label

namespace Turns

theorem nil (rest : List Char) (c : Context) : (sequenceOf []).Turns [] rest c [] c := by
  refine of_run fun s hs _ hc => ?_
  subst hc
  exact .refl hs

theorem cons (hp : p.Turns cs (ds ++ rest) c vs d) (hps : (sequenceOf ps).Turns ds rest d ws e) :
    (sequenceOf (p :: ps)).Turns (cs ++ ds) rest c (vs ++ ws) e := by
  intro s hs hafter hc
  rw [List.append_assoc] at hafter
  have hfirst := hp s hs hafter hc
  rw [List.length_append]
  exact becomes_cons hs hfirst (hps (p.parse s) hfirst.success (hfirst.after_eq hafter) hfirst.context)

/-- A first part that pushes nothing. -/
theorem silent (hp : p.Turns cs (ds ++ rest) c [] d) (hps : (sequenceOf ps).Turns ds rest d ws e) :
    (sequenceOf (p :: ps)).Turns (cs ++ ds) rest c ws e :=
  hp.cons hps

theorem last (hp : p.Turns cs rest c vs d) : (sequenceOf [p]).Turns cs rest c vs d := by
  have h := Turns.cons hp (nil rest d)
  rwa [List.append_nil, List.append_nil] at h

end Turns

namespace Reads

theorem cons (hp : p.Reads cs (ds ++ rest) vs) (hps : (sequenceOf ps).Reads ds rest ws) :
    (sequenceOf (p :: ps)).Reads (cs ++ ds) rest (vs ++ ws) :=
  fun c => (hp c).cons (hps c)

/-- A first part that pushes nothing. -/
theorem silent (hp : p.Reads cs (ds ++ rest) []) (hps : (sequenceOf ps).Reads ds rest ws) :
    (sequenceOf (p :: ps)).Reads (cs ++ ds) rest ws :=
  hp.cons hps

/-- A first part that pushes one value. -/
theorem pushing {v : Value} (hp : p.Reads cs (ds ++ rest) [v]) (hps : (sequenceOf ps).Reads ds rest ws) :
    (sequenceOf (p :: ps)).Reads (cs ++ ds) rest (v :: ws) :=
  hp.cons hps

theorem last (hp : p.Reads cs rest vs) : (sequenceOf [p]).Reads cs rest vs := fun c => (hp c).last

end Reads

namespace Refuses

theorem head (h : p.Refuses cs) : (sequenceOf (p :: ps)).Refuses cs := by
  intro s hs hafter
  refine Bool.of_not_eq_false fun hsuccess => ?_
  have hfirst := head_of_sequenceOf hsuccess
  rw [h s hs hafter] at hfirst
  exact nomatch hfirst

theorem tail (hp : p.Reads cs rest vs) (hps : (sequenceOf ps).Refuses rest) :
    (sequenceOf (p :: ps)).Refuses (cs ++ rest) := by
  intro s hs hafter
  have hfirst := hp s.context s hs hafter rfl
  have hothers := hps (p.parse s) hfirst.success (hfirst.after_eq hafter)
  rw [failed_parse hfirst.success] at hothers
  rw [failed_parse hs]
  exact hothers

end Refuses

theorem Turns.times_zero (p : Parser) (rest : List Char) (c : Context) : (times 0 p).Turns [] rest c [] c := by
  refine of_run fun s hs _ hc => ?_
  subst hc
  exact .refl hs

theorem Turns.times_succ {n : Nat} (hp : p.Turns cs (ds ++ rest) c vs d) (hps : (times n p).Turns ds rest d ws e) :
    (times (n + 1) p).Turns (cs ++ ds) rest c (vs ++ ws) e := by
  refine of_run fun s hs hafter hc => ?_
  rw [List.append_assoc] at hafter
  have hfirst := hp s hs hafter hc
  have hothers := hps (p.parse s) hfirst.success (hfirst.after_eq hafter) hfirst.context
  rw [(times n p).parse_of_not_failed hfirst.success] at hothers
  change s.Becomes (runTimes p (n + 1) s) _ _ _
  unfold runTimes
  dsimp only
  rw [hfirst.success, if_neg Bool.false_ne_true, List.length_append]
  exact (hfirst.trans hothers).rename (runTimes p n (p.parse s)).name

/-! ## Alternatives -/

theorem Turns.optional (h : p.Turns cs rest c vs d) : (Parser.optional p).Turns cs rest c vs d := by
  refine of_run fun s hs hafter hc => ?_
  have hnext := h s hs hafter hc
  unfold Parser.optional
  dsimp only
  rw [hnext.success, if_neg Bool.false_ne_true]
  exact hnext

/-- A failure leaves no trace. -/
theorem Refuses.optional (h : p.Refuses rest) : (Parser.optional p).Reads [] rest [] := by
  refine Reads.of_run fun s hs hafter => ?_
  unfold Parser.optional
  dsimp only
  rw [h s hs hafter, if_pos rfl]
  exact .refl hs

/-- Parsers that all fail leave no trial to choose. -/
theorem filter_trials_eq_nil (h : ∀ p ∈ ps, (p.parse s).failed = true) :
    (ps.map fun p => p.parse s).filter (fun t => !t.failed) = [] := by
  refine List.filter_eq_nil_iff.2 fun t ht => ?_
  obtain ⟨p, hp, rfl⟩ := List.mem_map.1 ht
  simp [h p hp]

/-- The one alternative that succeeds is chosen. -/
theorem oneOf_run_of_only (hp : (p.parse s).failed = false) (hps : ∀ q ∈ ps, (q.parse s).failed = true)
    (hqs : ∀ q ∈ qs, (q.parse s).failed = true) : (oneOf (ps ++ p :: qs)).run s = p.parse s := by
  have honly : ((ps ++ p :: qs).map fun p => p.parse s).filter (fun t => !t.failed) = [p.parse s] := by
    simp [filter_trials_eq_nil hps, filter_trials_eq_nil hqs, hp]
  unfold oneOf choose
  dsimp only
  rw [honly]

theorem Turns.oneOf (hp : p.Turns cs rest c vs d) (hps : ∀ q ∈ ps, q.Refuses (cs ++ rest))
    (hqs : ∀ q ∈ qs, q.Refuses (cs ++ rest)) : (Parser.oneOf (ps ++ p :: qs)).Turns cs rest c vs d := by
  refine of_run fun s hs hafter hc => ?_
  have hnext := hp s hs hafter hc
  rw [oneOf_run_of_only hnext.success (fun q hq => hps q hq s hs hafter) fun q hq => hqs q hq s hs hafter]
  exact hnext

theorem Turns.first (hp : p.Turns cs rest c vs d) (hq : q.Refuses (cs ++ rest)) :
    (Parser.oneOf [p, q]).Turns cs rest c vs d := by
  have h : (Parser.oneOf ([] ++ p :: [q])).Turns cs rest c vs d := Turns.oneOf hp (by simp) (by simpa using hq)
  exact h

theorem Turns.second (hp : p.Refuses (cs ++ rest)) (hq : q.Turns cs rest c vs d) :
    (Parser.oneOf [p, q]).Turns cs rest c vs d := by
  have h : (Parser.oneOf ([p] ++ q :: [])).Turns cs rest c vs d := Turns.oneOf hq (by simpa using hp) (by simp)
  exact h

/-- Where all alternatives fail, each is named with its own error, and nothing else is changed. -/
theorem oneOf_run_of_none (h : ∀ p ∈ ps, (p.parse s).failed = true) : (oneOf ps).run s =
    s.fail (.exhausted ((ps.map fun p => p.parse s).filterMap fun t => t.error.map fun e => (t.name, e))) := by
  unfold oneOf choose
  dsimp only
  rw [filter_trials_eq_nil h]

theorem breaks_oneOf (hs : s.failed = false) (h : ∀ p ∈ ps, (p.parse s).failed = true) :
    ∃ failures, s.Breaks ((oneOf ps).parse s) 0 (.exhausted failures) := by
  rw [parse_of_not_failed _ hs, oneOf_run_of_none h]
  exact ⟨_, (State.Breaks.fail s _).rename _⟩

theorem Refuses.oneOf (h : ∀ p ∈ ps, p.Refuses cs) : (Parser.oneOf ps).Refuses cs := by
  refine of_run fun s hs hafter => ?_
  rw [oneOf_run_of_none fun p hp => h p hp s hs hafter]
  rfl

/-! ## Keywords -/

/-- The key of a table that the input goes on with is replaced by its value. -/
theorem Reads.stringMap {before after : List (String × Value)} {key : String} {v : Value}
    (hbefore : ∀ entry ∈ before, ¬ entry.1.toList <+: key.toList ++ rest)
    (hafter : ∀ entry ∈ after, ¬ entry.1.toList <+: key.toList ++ rest) :
    (Parser.stringMap (before ++ (key, v) :: after)).Reads key.toList rest [v] := by
  have hrefuses : ∀ entry : String × Value, ¬ entry.1.toList <+: key.toList ++ rest →
      (Parser.literal entry.1 true).Refuses (key.toList ++ rest) := by
    intro entry hentry s hs hs'
    refine Bool.of_not_eq_false fun hsuccess => hentry ?_
    exact hs' ▸ (failed_literal hs).1 hsuccess
  have hkey : (Parser.oneOf ((before ++ (key, v) :: after).map fun e => Parser.literal e.1 true)).Reads
      key.toList rest [.str key] := by
    intro c
    rw [List.map_append, List.map_cons]
    refine Turns.oneOf (Reads.literal key rest true c) (fun q hq => ?_) fun q hq => ?_
    · obtain ⟨entry, hentry, rfl⟩ := List.mem_map.1 hq
      exact hrefuses entry (hbefore entry hentry)
    · obtain ⟨entry, hentry, rfl⟩ := List.mem_map.1 hq
      exact hrefuses entry (hafter entry hentry)
  have hlookup : tableValue? (before ++ (key, v) :: after) key = some v := by
    have hother : after.reverse.lookup key = none := by
      refine List.lookup_eq_none_iff.2 fun entry hentry => ?_
      rw [bne_iff_ne]
      rintro rfl
      exact hafter entry (List.mem_reverse.1 hentry) (List.prefix_append _ _)
    rw [tableValue?, List.reverse_append, List.reverse_cons, List.append_assoc, List.lookup_append, hother]
    simp
  refine of_run fun s hs hs' => ?_
  have hnext := hkey s.context s hs hs' rfl
  have htop : ((Parser.oneOf ((before ++ (key, v) :: after).map fun e => Parser.literal e.1 true)).parse s).stack.getLast? =
      some (.str key) := by rw [hnext.stack, List.getLast?_concat]
  unfold Parser.stringMap mapTop
  dsimp only
  rw [hnext.success, if_neg Bool.false_ne_true, htop]
  dsimp only
  rw [hlookup]
  refine ⟨hnext.success, hnext.cursor, ?_, hnext.context⟩
  rw [State.stack_push]
  change List.dropLast (State.stack _) ++ [v] = _
  rw [hnext.stack, List.dropLast_concat]

theorem literal_parse_of_mismatch {text : String} {captured : Bool} (hs : s.failed = false)
    (h : ¬ text.toList <+: s.cursor.after) : (literal text captured).parse s =
      { s.fail (.mismatch ("'" ++ text ++ "'") (String.ofList (s.cursor.after.take text.length))) with
        name := "literal(" ++ text ++ ")" } := by
  have hprefix : ¬ text.toList.isPrefixOf s.cursor.after = true := fun h' => h (List.isPrefixOf_iff_prefix.1 h')
  rw [parse_of_not_failed _ hs]
  unfold literal fixedText
  dsimp only
  rw [if_neg hprefix, String.ofList_toList, String.length_toList]

/-- What a keyword of a table says of a text that goes on with no token of the table. -/
def mismatches (tokens : List String) (after : List Char) : List (String × ParseError) :=
  tokens.map fun token =>
    ("literal(" ++ token ++ ")", .mismatch ("'" ++ token ++ "'") (String.ofList (after.take token.length)))

theorem breaks_stringMap {table : List (String × Value)} (hs : s.failed = false)
    (h : ∀ e ∈ table, ¬ e.1.toList <+: s.cursor.after) : s.Breaks ((stringMap table).parse s) 0
      (.exhausted (mismatches (table.map Prod.fst) s.cursor.after)) := by
  have hfail : ∀ p ∈ table.map (fun e => literal e.1 true), (p.parse s).failed = true := by
    intro p hp
    obtain ⟨e, he, rfl⟩ := List.mem_map.1 hp
    rw [literal_parse_of_mismatch hs (h e he)]
    rfl
  have herrors : ((table.map fun e => literal e.1 true).map fun p => p.parse s).filterMap
      (fun t => t.error.map fun e => (t.name, e)) = mismatches (table.map Prod.fst) s.cursor.after := by
    rw [List.map_map, List.filterMap_map, mismatches, List.map_map, ← List.filterMap_eq_map]
    refine List.filterMap_congr fun e he => ?_
    simp only [Function.comp_apply, literal_parse_of_mismatch hs (h e he)]
    rfl
  have hkeys : s.Breaks ((oneOf (table.map fun e => literal e.1 true)).parse s) 0
      (.exhausted (mismatches (table.map Prod.fst) s.cursor.after)) := by
    rw [parse_of_not_failed _ hs, oneOf_run_of_none hfail, herrors]
    exact (State.Breaks.fail s _).rename _
  rw [parse_of_not_failed _ hs]
  unfold stringMap
  dsimp only
  rw [hkeys.failed, if_pos rfl]
  exact hkeys.rename _

theorem breaks_keyword (family : String) {tokens : List (String × String)} (hs : s.failed = false)
    (h : ∀ e ∈ tokens, ¬ e.1.toList <+: s.cursor.after) : s.Breaks ((keyword family tokens).parse s) 0
      (.exhausted (mismatches (tokens.map Prod.fst) s.cursor.after)) := by
  have htable : ∀ e ∈ tokens.map fun e => (e.1, Value.keyword ⟨family, e.2⟩), ¬ e.1.toList <+: s.cursor.after := by
    intro e he
    obtain ⟨token, htoken, rfl⟩ := List.mem_map.1 he
    exact h token htoken
  have hnone := breaks_stringMap hs htable
  rw [List.map_map] at hnone
  rw [parse_of_not_failed _ hs]
  exact hnone.rename _

/-- Of keys none of which begins with another, just the one that has been written down stands in the text. -/
theorem Pushes.KeysApart.alone {β : Type} {before after : List (String × β)} {e : String × β}
    (h : KeysApart (before ++ e :: after)) (rest : List Char) :
    (∀ x ∈ before, ¬ x.1.toList <+: e.1.toList ++ rest) ∧ ∀ x ∈ after, ¬ x.1.toList <+: e.1.toList ++ rest := by
  obtain ⟨-, hlater, hearlier⟩ := List.pairwise_append.1 h
  have hother : ∀ x : String × β, ¬ x.1.toList <+: e.1.toList → ¬ e.1.toList <+: x.1.toList →
      ¬ x.1.toList <+: e.1.toList ++ rest := by
    intro x hx hx' hprefix
    exact (List.prefix_or_prefix_of_prefix hprefix (List.prefix_append _ rest)).elim hx hx'
  constructor
  · intro x hx
    obtain ⟨hxe, hex⟩ := hearlier x hx e List.mem_cons_self
    exact hother x hxe hex
  · intro x hx
    obtain ⟨hex, hxe⟩ := (List.pairwise_cons.1 hlater).1 x hx
    exact hother x hxe hex

/-- The token of a keyword is read as what it stands for, if no token of the family begins with another. -/
theorem Reads.keyword (family : String) {tokens : List (String × String)} {e : String × String} (he : e ∈ tokens)
    (hapart : Pushes.KeysApart tokens) (rest : List Char) :
    (Parser.keyword family tokens).Reads e.1.toList rest [.keyword ⟨family, e.2⟩] := by
  obtain ⟨before, after, rfl⟩ := List.append_of_mem he
  obtain ⟨hbefore, hafter⟩ := hapart.alone rest
  refine of_run fun s hs hs' => ?_
  have htable : (Parser.stringMap ((before ++ e :: after).map fun x => (x.1, Value.keyword ⟨family, x.2⟩))).Reads
      e.1.toList rest [.keyword ⟨family, e.2⟩] := by
    rw [List.map_append, List.map_cons]
    refine stringMap (fun x hx => ?_) fun x hx => ?_
    · obtain ⟨y, hy, rfl⟩ := List.mem_map.1 hx
      exact hbefore y hy
    · obtain ⟨y, hy, rfl⟩ := List.mem_map.1 hx
      exact hafter y hy
  exact htable s.context s hs hs' rfl

theorem Refuses.keyword (family : String) {tokens : List (String × String)}
    (h : ∀ e ∈ tokens, ¬ e.1.toList <+: cs) : (Parser.keyword family tokens).Refuses cs := by
  intro s hs hafter
  exact (breaks_keyword family hs (hafter ▸ h)).failed

/-! ## Collections and records -/

theorem becomes_list {n : Nat} (hs : s.failed = false) (h : s.Becomes (p.parse s) n vs d) :
    s.Becomes ((list p).parse s) n [.list vs] d := by
  have hadded : (p.parse s).stack.length - s.stack.length = vs.length := by
    rw [h.stack, List.length_append]
    omega
  have hrun : s.Becomes (collect p true s) n [.list vs] d := by
    unfold collect
    dsimp only
    rw [h.success, if_neg Bool.false_ne_true, hadded, if_pos (.inr rfl), State.collectLast_append _ _ _ _ h.stack]
    exact ⟨h.success, h.cursor, rfl, h.context⟩
  rw [parse_of_not_failed _ hs]
  exact hrun.rename _

theorem Turns.list (h : p.Turns cs rest c vs d) : (Parser.list p).Turns cs rest c [.list vs] d :=
  fun s hs hafter hc => becomes_list hs (h s hs hafter hc)

end Parser

/-- Values that are made into `v`, whatever lies below. -/
def Shape.Makes (shape : Shape) (vs : List Value) (v : Value) : Prop :=
  ∀ (s : State) (base : List Value), s.failed = false → s.stack = base ++ vs →
    shape.assemble s = { s with stack := base ++ [v] }

namespace Shape.Makes

variable {shape : Shape} {vs : List Value}

theorem all (htypes : vs.map Value.type = shape.fields.map Field.type) :
    shape.Makes vs (.record shape.name (fillAll shape.fields vs)) :=
  fun _ _ hs hstack => assemble_of_fields hs hstack htypes

/-- The last value has not the type of the last field, so the attempt with all fields fails whatever lies below. -/
theorem mandatory (hlast : vs.getLast?.map Value.type ≠ shape.fields.getLast?.map Field.type) (hvs : vs ≠ [])
    (hfewer : shape.mandatory.length ≠ shape.fields.length)
    (htypes : vs.map Value.type = shape.mandatory.map Field.type) :
    shape.Makes vs (.record shape.name (fillMandatory shape.fields vs)) := by
  intro s base hs hstack
  have hfields : shape.fields ≠ [] := by
    intro hnil
    exact hfewer (by rw [Shape.mandatory, hnil]; rfl)
  refine assemble_of_mandatory hs hstack (misfit?_ne_none_of_getLast? ?_ hfields) hfewer htypes
  rwa [hstack, List.getLast?_append, List.getLast?_eq_some_getLast hvs, Option.some_or,
    ← List.getLast?_eq_some_getLast hvs]

end Shape.Makes

namespace Parser

variable {p q : Parser} {ps qs : List Parser} {s : State} {cs ds rest : List Char} {vs ws : List Value}
  {c d e : Context}

theorem becomes_record {n : Nat} {shape : Shape} {v : Value} (hs : s.failed = false)
    (h : s.Becomes (p.parse s) n vs d) (hv : shape.Makes vs v) : s.Becomes ((record shape p).parse s) n [v] d := by
  have hrun : s.Becomes (shape.assemble (p.parse s)) n [v] d := by
    rw [hv _ s.stack h.success h.stack]
    exact ⟨h.success, h.cursor, rfl, h.context⟩
  rw [parse_of_not_failed _ hs]
  exact hrun.rename _

theorem Turns.record {shape : Shape} {v : Value} (h : p.Turns cs rest c vs d) (hv : shape.Makes vs v) :
    (Parser.record shape p).Turns cs rest c [v] d :=
  fun s hs hafter hc => becomes_record hs (h s hs hafter hc) hv

theorem Refuses.record (shape : Shape) (h : p.Refuses cs) : (Parser.record shape p).Refuses cs := by
  intro s hs hafter
  refine Bool.of_not_eq_false fun hsuccess => ?_
  have hinner := inner_of_record hsuccess
  rw [h s hs hafter] at hinner
  exact nomatch hinner

theorem Refuses.action (name : String) (f : Action) (h : p.Refuses cs) : (Parser.action name p f).Refuses cs := by
  intro s hs hafter
  refine Bool.of_not_eq_false fun hsuccess => ?_
  have hinner := inner_of_action hsuccess
  rw [h s hs hafter] at hinner
  exact nomatch hinner

theorem becomes_action {n : Nat} (name : String) {f : Action} (hs : s.failed = false)
    (h : s.Becomes (p.parse s) n vs d) (hf : f (s.stack ++ vs) d = ⟨s.stack ++ ws, e, none⟩) :
    s.Becomes ((action name p f).parse s) n ws e := by
  have hrun : s.Becomes ((action name p f).run s) n ws e := by
    unfold action
    dsimp only
    rw [h.success, if_neg Bool.false_ne_true]
    unfold State.act
    rw [h.stack, h.context, hf]
    exact ⟨rfl, h.cursor, rfl, rfl⟩
  rw [parse_of_not_failed _ hs]
  exact hrun.rename _

theorem Turns.action (name : String) {f : Action} (h : p.Turns cs rest c vs d)
    (hf : ∀ base, f (base ++ vs) d = ⟨base ++ ws, e, none⟩) : (Parser.action name p f).Turns cs rest c ws e :=
  fun s hs hafter hc => becomes_action name hs (h s hs hafter hc) (hf s.stack)

/-- The function has the last word. -/
theorem failed_action (name : String) {f : Action} (h : p.Turns cs rest c vs d)
    (hf : ∀ base, (f (base ++ vs) d).error.isSome) (hs : s.failed = false) (hafter : s.cursor.after = cs ++ rest)
    (hc : s.context = c) : ((action name p f).parse s).failed = true := by
  have hnext := h s hs hafter hc
  rw [failed_parse hs]
  unfold action
  dsimp only
  rw [hnext.success, if_neg Bool.false_ne_true, State.act, hnext.stack, hnext.context]
  exact hf s.stack

/-! ## Repetition -/

/-- In front of `rest`, `p` reads a text in pieces, none of them empty. -/
inductive TurnsAll (p : Parser) (rest : List Char) : List Char → Context → List Value → Context → Prop where
  | nil (c : Context) : TurnsAll p rest [] c [] c
  | cons {cs ds : List Char} {c d e : Context} {vs ws : List Value} : cs ≠ [] → p.Turns cs (ds ++ rest) c vs d →
    TurnsAll p rest ds d ws e → TurnsAll p rest (cs ++ ds) c (vs ++ ws) e

theorem atEnd_eq_false (hafter : s.cursor.after = cs ++ rest) (hcs : cs ≠ []) : s.cursor.atEnd = false := by
  rw [Cursor.atEnd, hafter]
  simp [hcs]

namespace TurnsAll

/-- A loop that goes on after every success that moves on goes through all pieces. -/
theorem loop {f : State → State} (hf : ∀ s : State, s.cursor.atEnd = false → (p.parse s).failed = false →
    (p.parse s).movedOn s → f s = f (p.parse s)) (h : p.TurnsAll rest cs c vs d) (hs : s.failed = false)
    (hafter : s.cursor.after = cs ++ rest) (hc : s.context = c) :
    ∃ t, s.Becomes t cs.length vs d ∧ f s = f t := by
  -- along the pieces; each state is the one that the pieces before it have made of `s`
  induction h generalizing s with
  | nil c =>
    subst hc
    exact ⟨s, .refl hs, rfl⟩
  | cons hne hp _ ih =>
    rw [List.append_assoc] at hafter
    have hnext := hp s hs hafter hc
    obtain ⟨t, ht, heq⟩ := ih hnext.success (hnext.after_eq hafter) hnext.context
    refine ⟨t, ?_, ?_⟩
    · rw [List.length_append]
      exact hnext.trans ht
    · rw [← heq]
      exact hf s (atEnd_eq_false hafter hne) hnext.success (hnext.movedOn hafter hne)

end TurnsAll

/-- A repetition ends at the end of the input or in front of a text that its parser refuses. -/
theorem Turns.oneOrMore (h : p.TurnsAll rest cs c vs d) (hend : rest = [] ∨ p.Refuses rest) :
    (Parser.oneOrMore p).Turns cs rest c vs d := by
  refine of_run fun s hs hafter hc => ?_
  obtain ⟨t, ht, heq⟩ := h.loop
    (fun _ hbefore hsuccess => runWhile_of_movedOn hbefore (State.failed_eq_false_iff.1 hsuccess)) hs hafter hc
  change s.Becomes (runWhile p s) _ _ _
  rw [heq]
  cases hmore : t.cursor.atEnd with
  | true =>
    rw [runWhile_of_atEnd hmore]
    exact ht
  | false =>
    have hrefuses : p.Refuses rest := by
      refine hend.resolve_left fun hnil => ?_
      have hread : t.cursor.atEnd = true := Cursor.atEnd_iff.2 ((ht.after_eq hafter).trans hnil)
      exact Bool.false_ne_true (hmore.symm.trans hread)
    have hfail := hrefuses t ht.success (ht.after_eq hafter)
    obtain ⟨e, he⟩ := Option.isSome_iff_exists.1 hfail
    rw [runWhile_of_error hmore he]
    exact ⟨ht.success, ht.cursor, ht.stack, ht.context⟩

theorem Turns.tillEnd (h : p.TurnsAll [] cs c vs d) : (Parser.tillEnd p).Turns cs [] c vs d := by
  refine of_run fun s hs hafter hc => ?_
  obtain ⟨t, ht, heq⟩ := h.loop (fun _ => runTillEnd_of_movedOn) hs hafter hc
  have hend : t.cursor.atEnd = true := by
    rw [Cursor.atEnd, ht.after_eq hafter]
    rfl
  change s.Becomes (runTillEnd p s) _ _ _
  rw [heq, runTillEnd_of_atEnd hend]
  exact ⟨ht.success, ht.cursor, ht.stack, ht.context⟩

/-- Where the parser fails after some pieces, parsing to the end fails as it does. -/
theorem TurnsAll.breaks_tillEnd (h : p.TurnsAll rest cs c vs d) (hrest : rest ≠ []) (hs : s.failed = false)
    (hafter : s.cursor.after = cs ++ rest) (hc : s.context = c) :
    ∃ t, s.Becomes t cs.length vs d ∧ t.cursor.after = rest ∧
      ∀ n e, t.Breaks (p.parse t) n e → t.Breaks ((tillEnd p).parse s) n e := by
  obtain ⟨t, ht, heq⟩ := h.loop (fun _ => runTillEnd_of_movedOn) hs hafter hc
  have hrest' := ht.after_eq hafter
  have hnotEnd : t.cursor.atEnd = false := atEnd_eq_false (hrest'.trans (List.append_nil rest).symm) hrest
  refine ⟨t, ht, hrest', fun n e hbreaks => ?_⟩
  rw [parse_of_not_failed _ hs]
  unfold tillEnd
  dsimp only
  rw [heq, runTillEnd_of_failed hnotEnd hbreaks.failed]
  exact hbreaks.rename _

end Parser

/-! ## Common forms -/

namespace Parser

variable {cs rest : List Char}

/-- A line feed, and a carriage return with a line feed, are the only texts that begin with a line end. -/
theorem Refuses.lineEnd (h : ∀ b : LineBreak, ¬ b.text <+: cs) : Parser.lineEnd.Refuses cs := by
  refine of_run fun s _ hafter => ?_
  unfold Parser.lineEnd
  dsimp only
  rw [hafter]
  split
  · exact absurd ⟨_, rfl⟩ (h .feed)
  · exact absurd ⟨_, rfl⟩ (h .returnFeed)
  · rfl
  · rfl

theorem Refuses.skip {text : String} (h : ¬ text.toList <+: cs) : (Grammar.skip text).parser.Refuses cs := by
  intro s hs hafter
  refine Bool.of_not_eq_false fun hsuccess => h ?_
  exact hafter ▸ (failed_literal hs).1 hsuccess

theorem Refuses.spaces {n : Nat} (h : ¬ List.replicate n ' ' <+: cs) : (Parser.spaces n false).Refuses cs := by
  intro s hs hafter
  rw [failed_parse hs]
  refine Bool.of_not_eq_false fun hsuccess => h ?_
  exact hafter ▸ (failed_fixedText hs).1 hsuccess

/-- A number is refused if no numeral with room for its value is there to be read. -/
theorem Refuses.number {kind : NumberKind} (hkind : kind ≠ .float)
    (h : ∀ (m : Numeral) (rest : List Char), cs = m.text ++ rest → StopsAt Char.isDigit rest →
      kind.hold? m.value = none) : (Parser.number kind).Refuses cs := by
  refine of_run fun s _ hafter => ?_
  unfold Parser.number
  dsimp only
  split
  · rfl
  · split
    · rename_i v hv
      obtain ⟨m, rest, hcs, hrest, hm⟩ := NumberKind.exists_numeral hkind hv
      rw [h m rest (hafter ▸ hcs) hrest] at hm
      exact nomatch hm
    · rfl

theorem Refuses.skipChar {x : Char} (h : ∀ y ∈ cs.head?, y ≠ x) : (Grammar.skipChar x).parser.Refuses cs := by
  refine of_run fun s _ hafter => ?_
  have hpeek : s.cursor.peekChar ≠ some x := by
    intro hx
    rw [Cursor.peekChar, hafter] at hx
    exact h x hx rfl
  change ((Parser.char x false).run s).failed = true
  unfold Parser.char
  dsimp only
  rw [if_neg hpeek]
  rfl

theorem not_lineBreak_prefix_nil (b : LineBreak) : ¬ b.text <+: [] := by
  cases b <;> decide

theorem head?_lineBreak (b : LineBreak) (rest : List Char) :
    ∀ c ∈ (b.text ++ rest).head?, c = '\n' ∨ c = '\r' := by
  cases b <;> simp [LineBreak.text]

/-- A break ends every run of characters that has none of its characters. -/
theorem stopsAt_lineBreak {p : Char → Bool} (b : LineBreak) (rest : List Char) (hfeed : p '\n' = false)
    (hreturn : p '\r' = false) : StopsAt p (b.text ++ rest) := by
  intro c hc
  rcases head?_lineBreak b rest c hc with rfl | rfl
  · exact hfeed
  · exact hreturn

end Parser

open StackParser.Parser (Reads Refuses)

namespace Grammar

variable {cs rest : List Char}

/-- A grammar that reads the whole text, with nothing on the stack and in the context at first. -/
theorem run_of_turns {g : Grammar} {text : String} {vs : List Value} {c : Context}
    (h : g.parser.Turns text.toList [] .empty vs c) :
    (g.run text).failed = false ∧ (g.run text).cursor.atEnd = true ∧ (g.run text).stack = vs ∧
      (g.run text).context = c := by
  have hbecomes := h (.start text) rfl (List.append_nil _).symm rfl
  refine ⟨hbecomes.success, ?_, hbecomes.stack, hbecomes.context⟩
  rw [Grammar.run, Grammar.parse, Cursor.atEnd, hbecomes.after_eq (List.append_nil _).symm]
  rfl

theorem reads_skip (text : String) (rest : List Char) : (skip text).parser.Reads text.toList rest [] :=
  Reads.skip text rest

theorem reads_skipChar (x : Char) (rest : List Char) : (skipChar x).parser.Reads [x] rest [] := Reads.char x rest

theorem reads_space (rest : List Char) : space.parser.Reads [' '] rest [] := Reads.spaces 1 rest

theorem reads_lineEnd (b : LineBreak) (rest : List Char) : lineEnd.parser.Reads b.text rest [] := Reads.lineEnd b rest

theorem reads_optional_lineEnd (b : LineBreak) (rest : List Char) :
    (optional lineEnd).parser.Reads b.text rest [] := fun c => (Reads.lineEnd b rest c).optional

theorem reads_no_lineEnd (h : ∀ b : LineBreak, ¬ b.text <+: rest) : (optional lineEnd).parser.Reads [] rest [] :=
  (Refuses.lineEnd h).optional

theorem reads_ofFamily {α : Type} {F : Family α} (hapart : Parser.Pushes.KeysApart F.tokens) {token : String} {a : α}
    (h : (token, a) ∈ F.table) (rest : List Char) : (ofFamily F).parser.Reads token.toList rest [F.value a] :=
  Reads.keyword F.name (List.mem_map_of_mem h) hapart rest

end Grammar

end StackParser
