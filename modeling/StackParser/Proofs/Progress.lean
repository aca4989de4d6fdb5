import Mathlib.Data.List.Basic
import StackParser.Proofs.Forward

/-!
# What a parser needs in order to succeed

* `Parser.Consumes p` : `p` reads at least one character where it succeeds;
* `Grammar.consuming` : a check on the tree for this, and `Grammar.consumes` : it is sound;
* `Parser.Begins p K` : `p` succeeds only in front of a character that satisfies `K`;
* `Parser.Excludes p q` : `p` and `q` never succeed at the same place. Fixed texts exclude each other unless one begins
  with the other (`Excludes.literal`), and so do parsers that begin with different characters (`Begins.excludes`).
-/

namespace StackParser.Parser

variable {p q : Parser} {ps : List Parser} {s : State}

theorem not_failed_of_parse (h : (p.parse s).failed = false) : s.failed = false := by
  cases hs : s.failed with
  | false => rfl
  | true =>
    rw [p.parse_of_failed hs] at h
    exact absurd (hs.symm.trans h) (by decide)

theorem failed_parse (hs : s.failed = false) : (p.parse s).failed = (p.run s).failed := by
  rw [p.parse_of_not_failed hs]
  rfl

theorem cursor_parse (hs : s.failed = false) : (p.parse s).cursor = (p.run s).cursor := by
  rw [p.parse_of_not_failed hs]

/-- A state that has failed is let through by all parsers that follow, but for its label. -/
theorem runAll_of_failed (hs : s.failed = true) : ∃ name, runAll ps s = { s with name := name } := by
  induction ps generalizing s with
  | nil => exact ⟨s.name, rfl⟩
  | cons p ps ih =>
    have hp := p.parse_of_failed hs
    have hnext : (p.parse s).failed = true := hp ▸ hs
    obtain ⟨name, hname⟩ := ih hnext
    rw [hp] at hname
    exact ⟨name, (congrArg (runAll ps) hp).trans hname⟩

theorem failed_runAll (hs : s.failed = true) : (runAll ps s).failed = true := by
  obtain ⟨_, h⟩ : ∃ name, runAll ps s = { s with name := name } := runAll_of_failed hs
  rw [h]
  exact hs

theorem head_of_sequenceOf (h : ((sequenceOf (p :: ps)).parse s).failed = false) : (p.parse s).failed = false := by
  have hs := not_failed_of_parse h
  rw [failed_parse hs] at h
  cases hp : (p.parse s).failed with
  | false => rfl
  | true => exact absurd ((failed_runAll hp).symm.trans h) (by decide)

theorem failed_assemble {shape : Shape} (hs : s.failed = true) : (shape.assemble s).failed = true := by
  rw [Shape.assemble, if_pos hs]
  exact hs

theorem inner_of_record {shape : Shape} (h : ((record shape p).parse s).failed = false) :
    (p.parse s).failed = false := by
  have hs := not_failed_of_parse h
  rw [failed_parse hs] at h
  cases hp : (p.parse s).failed with
  | false => rfl
  | true => exact absurd ((failed_assemble hp).symm.trans h) (by decide)

theorem inner_of_action {name : String} {f : Action} (h : ((action name p f).parse s).failed = false) :
    (p.parse s).failed = false := by
  have hs := not_failed_of_parse h
  rw [failed_parse hs] at h
  cases hp : (p.parse s).failed with
  | false => rfl
  | true =>
    unfold action at h
    dsimp only at h
    rw [if_pos hp] at h
    exact absurd (hp.symm.trans h) (by decide)

theorem failed_collect {keepEmpty : Bool} : (collect p keepEmpty s).failed = (p.parse s).failed := by
  unfold collect
  dsimp only
  split
  · rfl
  · split <;> rfl

theorem cursor_collect {keepEmpty : Bool} : (collect p keepEmpty s).cursor = (p.parse s).cursor := by
  unfold collect
  dsimp only
  split
  · rfl
  · split <;> rfl

/-! ## Alternatives -/

/-- A choice that has not failed is the only trial that has not. -/
theorem choose_eq_of_not_failed {trials : List State} (h : (choose s trials).failed = false) :
    ∃ t ∈ trials, t.failed = false ∧ choose s trials = t := by
  unfold choose at h ⊢
  split at h
  · rename_i t heq
    have ht : t ∈ trials.filter fun t => !t.failed := heq ▸ List.mem_singleton_self t
    obtain ⟨hmem, hsuccess⟩ := List.mem_filter.1 ht
    exact ⟨t, hmem, h, rfl⟩
  · exact nomatch h
  · exact nomatch h

/-- The choice among the trials of several parsers, told by the parsers that succeed. -/
theorem choose_trials (ps : List Parser) (s : State) : choose s (ps.map fun p => p.parse s) =
    match ps.filter fun p => !(p.parse s).failed with
    | [p] => p.parse s
    | [] => s.fail (.exhausted (ps.filterMap fun p => (p.parse s).error.map fun e => (p.label, e)))
    | winners => s.fail (.ambiguous (winners.map Parser.label)) := by
  have hfilter : (ps.map fun p => p.parse s).filter (fun t => !t.failed) =
      (ps.filter fun p => !(p.parse s).failed).map fun p => p.parse s := by
    simp [List.filter_map, Function.comp_def]
  unfold choose
  rw [hfilter]
  cases ps.filter fun p => !(p.parse s).failed with
  | nil => simp [List.filterMap_map, Function.comp_def]
  | cons p winners => cases winners <;> simp [Function.comp_def]

/-- A choice that fails leaves the state as it was. -/
theorem oneOf_of_failed (hs : s.failed = false) (h : ((oneOf ps).parse s).failed = true) :
    ∃ e, (oneOf ps).run s = s.fail e := by
  rw [failed_parse hs] at h
  unfold oneOf at h ⊢
  dsimp only at h ⊢
  rw [choose_trials] at h ⊢
  split at h
  · rename_i p hp
    have hmem : p ∈ ps.filter fun p => !(p.parse s).failed := by simp [hp]
    have hsuccess : (p.parse s).failed = false := by simpa using (List.mem_filter.1 hmem).2
    exact absurd (hsuccess.symm.trans h) (by decide)
  · exact ⟨_, rfl⟩
  · exact ⟨_, rfl⟩

/-- On two states where each alternative fails with the same error, or on neither, the choice is the same. -/
theorem oneOf_alike {t : State} (h : ∀ p ∈ ps, (p.parse t).error = (p.parse s).error) :
    (∃ p ∈ ps, (oneOf ps).run s = p.parse s ∧ (oneOf ps).run t = p.parse t) ∨
      ∃ e, (oneOf ps).run s = s.fail e ∧ (oneOf ps).run t = t.fail e := by
  have hwinners : (ps.filter fun p => !(p.parse t).failed) = ps.filter fun p => !(p.parse s).failed :=
    List.filter_congr fun p hp => by rw [State.failed, h p hp, State.failed]
  have hfailures : (ps.filterMap fun p => (p.parse t).error.map fun e => (p.label, e)) =
      ps.filterMap fun p => (p.parse s).error.map fun e => (p.label, e) :=
    List.filterMap_congr fun p hp => by rw [h p hp]
  unfold oneOf
  dsimp only
  rw [choose_trials, choose_trials, hwinners, hfailures]
  split
  · rename_i p hp
    have hmem : p ∈ ps.filter fun p => !(p.parse s).failed := by simp [hp]
    exact .inl ⟨p, (List.mem_filter.1 hmem).1, rfl, rfl⟩
  · exact .inr ⟨_, rfl, rfl⟩
  · exact .inr ⟨_, rfl, rfl⟩

theorem oneOf_winner (h : ((oneOf ps).parse s).failed = false) :
    ∃ p ∈ ps, (p.parse s).failed = false ∧ (oneOf ps).run s = p.parse s := by
  have hs := not_failed_of_parse h
  rw [failed_parse hs] at h
  obtain ⟨t, ht, hsuccess, heq⟩ := choose_eq_of_not_failed h
  obtain ⟨p, hp, rfl⟩ := List.mem_map.1 ht
  exact ⟨p, hp, hsuccess, heq⟩

/-! ## Fixed texts -/

theorem failed_fixedText {cs : List Char} {captured : Bool} (hs : s.failed = false) :
    (fixedText cs captured s).failed = false ↔ cs <+: s.cursor.after := by
  unfold fixedText
  rw [← List.isPrefixOf_iff_prefix]
  split
  · rename_i h
    refine ⟨fun _ => h, fun _ => ?_⟩
    cases captured <;> exact hs
  · rename_i h
    exact ⟨fun hsuccess => (nomatch hsuccess), fun hprefix => absurd hprefix h⟩

theorem failed_literal {text : String} {captured : Bool} (hs : s.failed = false) :
    ((literal text captured).parse s).failed = false ↔ text.toList <+: s.cursor.after := by
  rw [failed_parse hs]
  exact failed_fixedText hs

/-! ## Parsers that read -/

/-- `p` reads at least one character where it succeeds. -/
def Consumes (p : Parser) : Prop := ∀ s, (p.parse s).failed = false → (p.parse s).movedOn s

theorem movedOn_advance {n : Nat} (hn : 0 < n) (hs : s.cursor.after ≠ []) : (s.advance n).movedOn s := by
  have hlength := List.length_pos_iff.2 hs
  rw [State.movedOn, State.cursor_advance, Cursor.after_advance, List.length_drop]
  omega

namespace Consumes

/-- It is enough to look at the run on states that have not failed. -/
theorem of_run (h : ∀ s : State, s.failed = false → (p.run s).failed = false → (p.run s).movedOn s) : p.Consumes := by
  intro s hsuccess
  have hs := not_failed_of_parse hsuccess
  rw [failed_parse hs] at hsuccess
  rw [State.movedOn, cursor_parse hs]
  exact h s hs hsuccess

/-! ### Single units -/

theorem char (c : Char) (captured : Bool) : (Parser.char c captured).Consumes := by
  refine of_run fun s _ => ?_
  unfold Parser.char
  dsimp only
  split
  · rename_i hpeek
    have hafter : s.cursor.after ≠ [] := fun hnil => by simp [Cursor.peekChar, hnil] at hpeek
    have hmoved := movedOn_advance Nat.one_pos hafter
    cases captured <;> exact fun _ => hmoved
  · exact fun h => nomatch h

theorem fixedText {cs : List Char} (captured : Bool) (hcs : cs ≠ []) :
    (Parser.fixedText cs captured s).failed = false → (Parser.fixedText cs captured s).movedOn s := by
  unfold Parser.fixedText
  split
  · rename_i hprefix
    have hafter : s.cursor.after ≠ [] := fun hnil => by
      rw [List.isPrefixOf_iff_prefix, hnil, List.prefix_nil] at hprefix
      exact hcs hprefix
    have hmoved := movedOn_advance (List.length_pos_iff.2 hcs) hafter
    cases captured <;> exact fun _ => hmoved
  · exact fun h => nomatch h

theorem literal {text : String} (captured : Bool) (htext : text.toList ≠ []) :
    (Parser.literal text captured).Consumes :=
  of_run fun _ _ => fixedText captured htext

theorem spaces {n : Nat} (captured : Bool) (hn : 0 < n) : (Parser.spaces n captured).Consumes :=
  of_run fun _ _ => fixedText captured fun hnil => by simp at hnil; omega

theorem letter : Parser.letter.Consumes := by
  refine of_run fun s _ => ?_
  unfold Parser.letter
  dsimp only
  split
  · rename_i c hpeek
    have hafter : s.cursor.after ≠ [] := fun hnil => by simp [Cursor.peekChar, hnil] at hpeek
    split
    · exact fun _ => movedOn_advance Nat.one_pos hafter
    · exact fun h => nomatch h
  · exact fun h => nomatch h

theorem word : Parser.word.Consumes := by
  refine of_run fun s _ => ?_
  unfold Parser.word
  dsimp only
  split
  · exact fun h => nomatch h
  · rename_i hword
    have hafter : s.cursor.after ≠ [] := fun hnil => by simp [hnil] at hword
    exact fun _ => movedOn_advance (List.length_pos_iff.2 fun hnil => by simp [hnil] at hword) hafter

theorem scan_nil (kind : NumberKind) : kind.scan [] = [] := by cases kind <;> rfl

theorem number (kind : NumberKind) : (Parser.number kind).Consumes := by
  refine of_run fun s _ => ?_
  unfold Parser.number
  dsimp only
  split
  · exact fun h => nomatch h
  · rename_i hscan
    have hafter : s.cursor.after ≠ [] := fun hnil => by simp [hnil, scan_nil] at hscan
    have hlength : 0 < (kind.scan s.cursor.after).length := List.length_pos_iff.2 fun hnil => by simp [hnil] at hscan
    split
    · exact fun _ => movedOn_advance hlength hafter
    · exact fun h => nomatch h

theorem lineEnd : Parser.lineEnd.Consumes := by
  refine of_run fun s _ => ?_
  unfold Parser.lineEnd
  dsimp only
  split
  · rename_i hafter
    exact fun _ => movedOn_advance Nat.one_pos (by simp [hafter])
  · rename_i hafter
    exact fun _ => movedOn_advance Nat.two_pos (by simp [hafter])
  · exact fun h => nomatch h
  · exact fun h => nomatch h

/-! ### Combinators -/

/-- One part that reads is enough, since no other goes back. -/
theorem runAll (hps : ∀ q ∈ ps, q.Forward) (hp : ∃ p ∈ ps, p.Consumes) (h : (Parser.runAll ps s).failed = false) :
    (Parser.runAll ps s).movedOn s := by
  induction ps generalizing s with
  | nil => simp at hp
  | cons q ps ih =>
    obtain ⟨hq, hps⟩ := List.forall_mem_cons.1 hps
    have hfirst : (q.parse s).failed = false := Bool.of_not_eq_true fun hfail =>
      absurd ((failed_runAll hfail).symm.trans h) (by decide)
    have hle := (hq s).length_le
    have hle' := (Forward.runAll hps (q.parse s)).length_le
    rw [List.exists_mem_cons_iff] at hp
    show (Parser.runAll ps (q.parse s)).cursor.after.length < _
    rcases hp with hconsumes | hothers
    · have hmoved : (q.parse s).cursor.after.length < s.cursor.after.length := hconsumes s hfirst
      omega
    · have hmoved : (Parser.runAll ps (q.parse s)).cursor.after.length < (q.parse s).cursor.after.length :=
        ih hps hothers h
      omega

theorem sequenceOf (hps : ∀ q ∈ ps, q.Forward) (hp : ∃ p ∈ ps, p.Consumes) : (Parser.sequenceOf ps).Consumes :=
  of_run fun _ _ => runAll hps hp

theorem runTimes (hp : p.Consumes) (hforward : p.Forward) {n : Nat} (hn : 0 < n)
    (h : (Parser.runTimes p n s).failed = false) : (Parser.runTimes p n s).movedOn s := by
  cases n with
  | zero => exact absurd hn (Nat.lt_irrefl 0)
  | succ n =>
    have hle := (Forward.runTimes hforward n (p.parse s)).length_le
    unfold Parser.runTimes at h ⊢
    dsimp only at h ⊢
    split at h
    · rename_i hfail
      exact absurd (hfail.symm.trans h) (by decide)
    · rename_i hsuccess
      have hmoved : (p.parse s).cursor.after.length < s.cursor.after.length := hp s (Bool.of_not_eq_true hsuccess)
      rw [if_neg hsuccess, State.movedOn]
      omega

theorem times (hp : p.Consumes) (hforward : p.Forward) {n : Nat} (hn : 0 < n) : (Parser.times n p).Consumes :=
  of_run fun _ _ => runTimes hp hforward hn

theorem collect (hp : p.Consumes) (keepEmpty : Bool) :
    (Parser.collect p keepEmpty s).failed = false → (Parser.collect p keepEmpty s).movedOn s := by
  rw [State.movedOn, failed_collect, cursor_collect]
  exact hp s

theorem group (hp : p.Consumes) : (Parser.group p).Consumes := of_run fun _ _ => hp.collect false

theorem list (hp : p.Consumes) : (Parser.list p).Consumes := of_run fun _ _ => hp.collect true

theorem record (shape : Shape) (hp : p.Consumes) : (Parser.record shape p).Consumes := by
  refine of_run fun s hs h => ?_
  change (shape.assemble (p.parse s)).cursor.after.length < _
  rw [Forward.assemble]
  exact hp s (inner_of_record ((failed_parse hs).trans h))

theorem oneOf (h : ∀ p ∈ ps, p.Consumes) : (Parser.oneOf ps).Consumes := by
  refine of_run fun s hs hsuccess => ?_
  obtain ⟨p, hp, hwin, heq⟩ := oneOf_winner ((failed_parse hs).trans hsuccess)
  rw [heq]
  exact h p hp s hwin

theorem stringMap {table : List (String × Value)} (h : ∀ e ∈ table, e.1.toList ≠ []) :
    (Parser.stringMap table).Consumes := by
  have hkeys : (Parser.oneOf (table.map fun e => Parser.literal e.1 true)).Consumes := by
    refine oneOf fun p hp => ?_
    obtain ⟨e, he, rfl⟩ := List.mem_map.1 hp
    exact literal true (h e he)
  refine of_run fun s _ => ?_
  unfold Parser.stringMap
  dsimp only
  split
  · rename_i hfail
    exact fun hsuccess => absurd (hfail.symm.trans hsuccess) (by decide)
  · rename_i hsuccess
    rw [State.movedOn, Forward.mapTop]
    exact fun _ => hkeys s (Bool.of_not_eq_true hsuccess)

theorem keyword (family : String) {tokens : List (String × String)} (h : ∀ e ∈ tokens, e.1.toList ≠ []) :
    (Parser.keyword family tokens).Consumes := by
  refine of_run fun s _ => stringMap (fun e he => ?_) s
  obtain ⟨token, htoken, rfl⟩ := List.mem_map.1 he
  exact h token htoken

end Consumes

/-! ## Parsers that look at the next character -/

/-- `p` succeeds only in front of a character that satisfies `K`. -/
def Begins (p : Parser) (K : Char → Prop) : Prop :=
  ∀ s, (p.parse s).failed = false → ∃ c ∈ s.cursor.after.head?, K c

/-- `p` and `q` never succeed at the same place. -/
def Excludes (p q : Parser) : Prop := ∀ s, (p.parse s).failed = false → (q.parse s).failed = true

namespace Begins

variable {K L : Char → Prop}

theorem literal {text : String} (captured : Bool) {c : Char} {cs : List Char} (htext : text.toList = c :: cs) :
    (Parser.literal text captured).Begins (· = c) := by
  intro s h
  have hprefix := (failed_literal (not_failed_of_parse h)).1 h
  rw [htext] at hprefix
  obtain ⟨rest, hrest⟩ := hprefix
  exact ⟨c, by rw [← hrest]; rfl, rfl⟩

theorem scan_eq_nil (kind : NumberKind) {c : Char} (rest : List Char) (hminus : c ≠ '-')
    (hdigit : c.isDigit = false) : kind.scan (c :: rest) = [] := by
  have hsign : signPart (c :: rest) = [] := by
    unfold signPart
    split
    · rename_i heq
      exact absurd (List.cons.inj heq).1 hminus
    · rfl
  have hwhole : (c :: rest).takeWhile Char.isDigit = [] := by
    rw [List.takeWhile_cons, hdigit]
    rfl
  unfold NumberKind.scan
  dsimp only
  rw [hsign, List.length_nil, List.drop_zero, hwhole]
  split <;> rfl

theorem number (kind : NumberKind) : (Parser.number kind).Begins fun c => c = '-' ∨ c.isDigit = true := by
  intro s h
  have hs := not_failed_of_parse h
  rw [failed_parse hs] at h
  unfold Parser.number at h
  dsimp only at h
  cases hafter : s.cursor.after with
  | nil =>
    rw [hafter] at h
    cases kind <;> exact nomatch h
  | cons c rest =>
    refine ⟨c, rfl, Decidable.byContradiction fun hc => ?_⟩
    obtain ⟨hminus, hdigit⟩ := not_or.1 hc
    rw [hafter, scan_eq_nil kind rest hminus (Bool.of_not_eq_true hdigit)] at h
    exact nomatch h

theorem sequenceOf (h : p.Begins K) : (Parser.sequenceOf (p :: ps)).Begins K :=
  fun s hs => h s (head_of_sequenceOf hs)

theorem record (shape : Shape) (h : p.Begins K) : (Parser.record shape p).Begins K :=
  fun s hs => h s (inner_of_record hs)

theorem action (name : String) (f : Action) (h : p.Begins K) : (Parser.action name p f).Begins K :=
  fun s hs => h s (inner_of_action hs)

theorem excludes (hp : p.Begins K) (hq : q.Begins L) (hKL : ∀ c, K c → ¬ L c) : p.Excludes q := by
  intro s hs
  refine Bool.of_not_eq_false fun hs' => ?_
  obtain ⟨c, hc, hK⟩ := hp s hs
  obtain ⟨d, hd, hL⟩ := hq s hs'
  obtain rfl : c = d := Option.some.inj (hc.symm.trans hd)
  exact hKL c hK hL

end Begins

theorem Excludes.literal {a b : String} {captured captured' : Bool} (hab : ¬ a.toList <+: b.toList)
    (hba : ¬ b.toList <+: a.toList) : (Parser.literal a captured).Excludes (Parser.literal b captured') := by
  intro s h
  refine Bool.of_not_eq_false fun h' => ?_
  have hs := not_failed_of_parse h
  rcases List.prefix_or_prefix_of_prefix ((failed_literal hs).1 h) ((failed_literal hs).1 h') with hle | hle
  · exact hab hle
  · exact hba hle

end StackParser.Parser

/-! ## What is seen from the tree -/

namespace StackParser.Grammar

mutual

/-- Whether it is seen from `g` that a success reads something: some part of a sequence, or each alternative, has to. -/
def consuming : Grammar → Bool
  | .char .. | .letter | .word | .number _ | .lineEnd => true
  | .literal text _ => !text.toList.isEmpty
  | .spaces n _ => 0 < n
  | .stringMap table => table.all fun e => !e.1.toList.isEmpty
  | .keyword _ tokens => tokens.all fun e => !e.1.toList.isEmpty
  | .sequenceOf gs => anyConsuming gs
  | .oneOf gs => allConsuming gs
  | .times n g => 0 < n && g.consuming
  | .group g | .list g | .record _ g => g.consuming
  | .optional _ | .oneOrMore _ | .tillEnd _ | .action .. | .custom .. => false

def anyConsuming : List Grammar → Bool
  | [] => false
  | g :: gs => g.consuming || anyConsuming gs

def allConsuming : List Grammar → Bool
  | [] => true
  | g :: gs => g.consuming && allConsuming gs

end

mutual

theorem consumes : ∀ g : Grammar, g.consuming = true → g.parser.Consumes
  | .char c captured, _ => .char c captured
  | .letter, _ => .letter
  | .word, _ => .word
  | .number kind, _ => .number kind
  | .lineEnd, _ => .lineEnd
  | .literal _ captured, h => .literal captured (by simpa [consuming] using h)
  | .spaces _ captured, h => .spaces captured (of_decide_eq_true h)
  | .stringMap _, h => .stringMap fun e he => by simpa using List.all_eq_true.1 h e he
  | .keyword family _, h => .keyword family fun e he => by simpa using List.all_eq_true.1 h e he
  | .sequenceOf gs, h => .sequenceOf (forward_all gs) (exists_consumes gs h)
  | .oneOf gs, h => .oneOf (all_consume gs h)
  | .times _ g, h => by
    obtain ⟨hn, hg⟩ := Bool.and_eq_true_iff.1 h
    exact (consumes g hg).times g.forward (of_decide_eq_true hn)
  | .group g, h => (consumes g h).group
  | .list g, h => (consumes g h).list
  | .record shape g, h => (consumes g h).record shape

theorem exists_consumes : ∀ gs : List Grammar, anyConsuming gs = true → ∃ p ∈ parsers gs, p.Consumes
  | g :: gs, h => by
    rcases Bool.or_eq_true_iff.1 h with hg | hgs
    · exact ⟨g.parser, List.mem_cons_self, consumes g hg⟩
    · obtain ⟨p, hp, hconsumes⟩ := exists_consumes gs hgs
      exact ⟨p, List.mem_cons_of_mem _ hp, hconsumes⟩

theorem all_consume : ∀ gs : List Grammar, allConsuming gs = true → ∀ p ∈ parsers gs, p.Consumes
  | g :: gs, h, p, hp => by
    obtain ⟨hg, hgs⟩ := Bool.and_eq_true_iff.1 h
    rcases List.mem_cons.1 hp with rfl | hp
    · exact consumes g hg
    · exact all_consume gs hgs p hp

end

end StackParser.Grammar
