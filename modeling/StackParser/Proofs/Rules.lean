import StackParser.Proofs.Assembly
import StackParser.Proofs.Contract
import StackParser.Proofs.Progress

/-!
# The contract of each parser

For a kind of errors `P` that takes in all mismatches (`ParseError.Mismatches`):

* what each terminal pushes: `Pushes.char`, `Pushes.number`, `Pushes.keyword`, …;
* a rule for each combinator: `Meets.sequenceOf`, `Meets.oneOf`, `Meets.oneOrMore`, `Pushes.list`, `Pushes.record`, …

Alternatives may be ambiguous only if `P` takes that in, and else have to exclude each other; a repetition to the end
may stall only if `P` takes that in, and else its parser has to consume.
-/

namespace StackParser

/-- `P` takes in all errors that say the input does not match. -/
structure ParseError.Mismatches (P : ParseError → Prop) : Prop where
  mismatch : ∀ expected found, P (.mismatch expected found)
  notANumber : ∀ found, P (.notANumber found)
  invalidNumber : ∀ text kind, P (.invalidNumber text kind)
  exhausted : ∀ failures, P (.exhausted failures)

def NumberKind.type : NumberKind → ValueType
  | .int => .int
  | .long => .long
  | .float => .float

theorem NumberKind.type_of_value? {kind : NumberKind} {cs : List Char} {v : Value} (h : kind.value? cs = some v) :
    v.type = kind.type := by
  unfold value? at h
  cases kind with
  | int =>
    obtain ⟨n, -, hn⟩ := Option.bind_eq_some_iff.1 h
    split at hn
    · exact Option.some.inj hn ▸ rfl
    · exact nomatch hn
  | long =>
    obtain ⟨n, -, hn⟩ := Option.bind_eq_some_iff.1 h
    split at hn
    · exact Option.some.inj hn ▸ rfl
    · exact nomatch hn
  | float =>
    obtain ⟨x, -, rfl⟩ := Option.map_eq_some_iff.1 h
    rfl

open ParseError (Mismatches)

variable {P : ParseError → Prop} {U V W : Layer} {p : Parser} {ps : List Parser}

/-! ## Terminals -/

/-- The first value on top of the base. -/
theorem State.Sound.pushFirst {base : List Value} {s : State} (h : s.Sound P base (Layer.types [])) (v : Value)
    (hW : W [v]) : (s.push v).Sound P base W :=
  h.push fun vs hvs => by rwa [Layer.types_nil_iff.1 hvs]

namespace Parser.Pushes

theorem char (hP : Mismatches P) (c : Char) (captured : Bool) :
    (Parser.char c captured).Pushes P (Layer.types (if captured then [.char] else [])) := by
  refine of_run fun s _ hs => ?_
  unfold Parser.char
  dsimp only
  by_cases hpeek : s.cursor.peekChar = some c
  · rw [if_pos hpeek]
    cases captured with
    | true => exact (hs.advance 1).pushFirst (.char c) rfl
    | false => exact hs.advance 1
  · rw [if_neg hpeek]
    exact hs.failLeaf rfl (hP.mismatch _ _)

theorem fixedText (hP : Mismatches P) (cs : List Char) (captured : Bool) {s : State}
    (hs : s.Sound P s.stack (Layer.types [])) : (Parser.fixedText cs captured s).Sound P s.stack
      fun vs => vs = if captured then [.str (String.ofList cs)] else [] := by
  unfold Parser.fixedText
  by_cases hprefix : cs.isPrefixOf s.cursor.after = true
  · rw [if_pos hprefix]
    cases captured with
    | true => exact (hs.advance cs.length).pushFirst (.str (String.ofList cs)) rfl
    | false => exact (hs.advance cs.length).mono fun _ => Layer.types_nil_iff.1
  · rw [if_neg hprefix]
    exact hs.failLeaf rfl (hP.mismatch _ _)

theorem literal (hP : Mismatches P) (text : String) (captured : Bool) :
    (Parser.literal text captured).Pushes P fun vs => vs = if captured then [.str text] else [] := by
  refine of_run fun s _ hs => ?_
  have h := fixedText hP text.toList captured hs
  rw [String.ofList_toList] at h
  exact h

theorem spaces (hP : Mismatches P) (n : Nat) (captured : Bool) : (Parser.spaces n captured).Pushes P
    fun vs => vs = if captured then [.str (String.ofList (List.replicate n ' '))] else [] :=
  of_run fun _ _ hs => fixedText hP _ captured hs

/-- What a fixed text pushes is a text, or nothing. -/
theorem types_of_text {captured : Bool} {text : String} {vs : List Value}
    (h : vs = if captured then [.str text] else []) : Layer.types (if captured then [.string] else []) vs := by
  subst h
  cases captured <;> rfl

theorem letter (hP : Mismatches P) : Parser.letter.Pushes P (Layer.types [.char]) := by
  refine of_run fun s _ hs => ?_
  unfold Parser.letter
  dsimp only
  split
  · rename_i c _
    split
    · exact (hs.advance 1).pushFirst (.char c) rfl
    · exact hs.failLeaf rfl (hP.mismatch _ _)
  · exact hs.failLeaf rfl (hP.mismatch _ _)

theorem word (hP : Mismatches P) : Parser.word.Pushes P (Layer.types [.string]) := by
  refine of_run fun s _ hs => ?_
  unfold Parser.word
  dsimp only
  split
  · exact hs.failLeaf rfl (hP.mismatch _ _)
  · exact (hs.advance _).pushFirst (.str _) rfl

theorem number (hP : Mismatches P) (kind : NumberKind) :
    (Parser.number kind).Pushes P (Layer.types [kind.type]) := by
  refine of_run fun s _ hs => ?_
  unfold Parser.number
  dsimp only
  split
  · exact hs.failLeaf rfl (hP.notANumber _)
  · split
    · rename_i v hv
      exact (hs.advance _).pushFirst v (congrArg (fun t => [t]) (NumberKind.type_of_value? hv))
    · exact hs.failLeaf rfl (hP.invalidNumber _ _)

theorem lineEnd (hP : Mismatches P) : Parser.lineEnd.Pushes P (Layer.types []) := by
  refine of_run fun s _ hs => ?_
  unfold Parser.lineEnd
  dsimp only
  split
  · exact hs.advance 1
  · exact hs.advance 2
  · exact (hs.advance 1).failLeaf rfl (hP.mismatch _ _)
  · exact hs.failLeaf rfl (hP.mismatch _ _)

end Parser.Pushes

/-! ## Combinators -/

namespace Meets

theorem nil : Meets P V V (Parser.runAll []) := ⟨fun _ _ hs => hs, fun _ hs => hs⟩

theorem cons (hp : Meets P U V p.parse) (hps : Meets P V W (Parser.runAll ps)) :
    Meets P U W (Parser.runAll (p :: ps)) :=
  hp.comp hps

theorem sequenceOf (h : Meets P V W (Parser.runAll ps)) : Meets P V W (Parser.sequenceOf ps).parse :=
  parse fun base s _ hs => h.sound base s hs

theorem runTimes {V : Nat → Layer} (h : ∀ k, Meets P (V k) (V (k + 1)) p.parse) {base : List Value} (n k : Nat)
    {s : State} (hs : s.Sound P base (V k)) : (Parser.runTimes p n s).Sound P base (V (k + n)) := by
  induction n generalizing k s with
  | zero => exact hs
  | succ n ih =>
    have hnext := (h k).sound base s hs
    unfold Parser.runTimes
    dsimp only
    split
    · rename_i hfail
      exact hnext.of_failed hfail
    · rw [show k + (n + 1) = k + 1 + n by omega]
      exact ih (k + 1) hnext

/-- `V k` is what is there after `k` times. -/
theorem times {V : Nat → Layer} (h : ∀ k, Meets P (V k) (V (k + 1)) p.parse) (n : Nat) :
    Meets P (V 0) (V n) (Parser.times n p).parse := by
  refine parse fun base s _ hs => ?_
  have hall := runTimes h n 0 hs
  rwa [Nat.zero_add] at hall

/-- Of parsers that exclude each other at most one succeeds. -/
theorem successes_le_one (hps : ps.Pairwise Parser.Excludes) (s : State) :
    ((ps.map fun p => p.parse s).filter fun t => !t.failed).length ≤ 1 := by
  induction ps with
  | nil => exact Nat.zero_le 1
  | cons p ps ih =>
    obtain ⟨hp, hps⟩ := List.pairwise_cons.1 hps
    rw [List.map_cons, List.filter_cons]
    cases hsuccess : (p.parse s).failed with
    | true => exact ih hps
    | false =>
      have hothers : (ps.map fun q => q.parse s).filter (fun t => !t.failed) = [] := by
        refine List.filter_eq_nil_iff.2 fun t ht => ?_
        obtain ⟨q, hq, rfl⟩ := List.mem_map.1 ht
        rw [hp q hq s hsuccess]
        exact Bool.false_ne_true
      rw [hothers]
      exact Nat.le_refl 1

theorem oneOf (hP : Mismatches P) (h : ∀ p ∈ ps, Meets P V W p.parse)
    (hone : (∀ branches, P (.ambiguous branches)) ∨ ps.Pairwise Parser.Excludes) :
    Meets P V W (Parser.oneOf ps).parse := by
  refine parse fun base s _ hs => ?_
  -- every alternative starts from `s` itself, so none finds what another has pushed
  have htrials : ∀ t ∈ ps.map (fun p => p.parse s), t.Sound P base W := by
    intro t ht
    obtain ⟨p, hp, rfl⟩ := List.mem_map.1 ht
    exact (h p hp).sound base s hs
  unfold Parser.oneOf Parser.choose
  dsimp only
  split
  · rename_i t heq
    have ht : t ∈ (ps.map fun p => p.parse s).filter fun t => !t.failed := heq ▸ List.mem_singleton_self t
    exact htrials t (List.mem_filter.1 ht).1
  · refine hs.fail (ParseError.only_exhausted (hP.exhausted _) fun f hf => ?_)
    obtain ⟨t, ht, hmap⟩ := List.mem_filterMap.1 hf
    obtain ⟨e, he, rfl⟩ := Option.map_eq_some_iff.1 hmap
    exact (htrials t ht).error e he
  · rename_i hnotOne hnotNone
    rcases hone with hambiguous | hexcludes
    · exact hs.failLeaf rfl (hambiguous _)
    · have hle := successes_le_one hexcludes s
      rcases hlist : (ps.map fun p => p.parse s).filter (fun t => !t.failed) with _ | ⟨t, _ | ⟨u, rest⟩⟩
      · exact absurd hlist hnotNone
      · exact absurd hlist (hnotOne t)
      · rw [hlist, List.length_cons, List.length_cons] at hle
        omega

/-- Two alternatives that exclude each other. -/
theorem either {q : Parser} (hP : Mismatches P) (hp : Meets P V W p.parse) (hq : Meets P V W q.parse)
    (hexcludes : p.Excludes q) : Meets P V W (Parser.oneOf [p, q]).parse := by
  refine oneOf hP (fun r hr => ?_) (.inr (List.pairwise_pair.2 hexcludes))
  rcases List.mem_cons.1 hr with rfl | hr
  · exact hp
  · exact List.mem_singleton.1 hr ▸ hq

theorem optional (h : Meets P V W p.parse) (hVW : ∀ vs, V vs → W vs) : Meets P V W (Parser.optional p).parse := by
  refine parse fun base s _ hs => ?_
  unfold Parser.optional
  dsimp only
  split
  · exact hs.mono hVW
  · exact h.sound base s hs

theorem runWhile (h : Meets P V V p.parse) {base : List Value} {s : State} (hs : s.Sound P base V) :
    (Parser.runWhile p s).Sound P base V := by
  fun_induction Parser.runWhile p s with
  | case1 s _ => exact hs
  | case2 s _ next e he =>
    exact ⟨hs.error, fun d hd => Option.some.inj hd ▸ (h.sound base s hs).error e he, hs.keeps, hs.adds⟩
  | case3 s _ next _ _ ih => exact ih (h.sound base s hs)
  | case4 s _ next _ _ => exact h.sound base s hs

theorem oneOrMore (h : Meets P V V p.parse) : Meets P V V (Parser.oneOrMore p).parse :=
  parse fun _ _ _ hs => runWhile h hs

theorem runTillEnd (h : Meets P V V p.parse) (hstall : (∀ w, P (.noProgress w)) ∨ p.Consumes)
    {base : List Value} {s : State} (hs : s.Sound P base V) : (Parser.runTillEnd p s).Sound P base V := by
  fun_induction Parser.runTillEnd p s with
  | case1 s _ =>
    have hcleared : ∀ w, (none : Option ParseError) = some w → w.Only P := by simp
    exact ⟨hs.error, hcleared, hs.keeps, hs.adds⟩
  | case2 s _ next _ => exact h.sound base s hs
  | case3 s _ next _ _ ih => exact ih (h.sound base s hs)
  | case4 s _ next hsuccess hstalled =>
    have hnext := h.sound base s hs
    rcases hstall with hallowed | hconsumes
    · exact hnext.fail (ParseError.only_noProgress (hallowed _) hnext.warning)
    · exact absurd (hconsumes s (Bool.of_not_eq_true hsuccess)) hstalled

theorem tillEnd (h : Meets P V V p.parse) (hstall : (∀ w, P (.noProgress w)) ∨ p.Consumes) :
    Meets P V V (Parser.tillEnd p).parse :=
  parse fun _ _ _ hs => runTillEnd h hstall hs

end Meets

theorem Parser.Pushes.timesTypes {ts : List ValueType} (h : p.Pushes P (Layer.types ts)) (n : Nat) :
    (Parser.times n p).Pushes P (Layer.types (List.replicate n ts).flatten) := by
  refine Meets.times (V := fun k => Layer.types (List.replicate k ts).flatten) (fun k => ?_) n
  rw [List.replicate_succ', List.flatten_append, List.flatten_singleton]
  exact h.ontoTypes _

/-! ## Collections -/

/-- One list of values as `W` says; nothing in place of the empty list unless it is kept. -/
def Layer.collected (keepEmpty : Bool) (W : Layer) : Layer :=
  fun us => ∃ vs, W vs ∧ us = if vs.isEmpty && !keepEmpty then [] else [.list vs]

namespace Parser.Pushes

/-- The values that are wrapped are exactly those added, since what was there is left alone. -/
theorem collect (h : p.Pushes P W) (keepEmpty : Bool) {s : State} (hs : s.Sound P s.stack (Layer.types [])) :
    (Parser.collect p keepEmpty s).Sound P s.stack (Layer.collected keepEmpty W) := by
  have hnext := h.sound s.stack s hs
  unfold Parser.collect
  dsimp only
  cases hfail : (p.parse s).failed with
  | true =>
    rw [if_pos rfl]
    exact hnext.of_failed hfail
  | false =>
    rw [if_neg Bool.false_ne_true]
    obtain ⟨vs, hstack, hW⟩ := hnext.adds hfail
    have hadded : (p.parse s).stack.length - s.stack.length = vs.length := by
      rw [hstack, List.length_append]
      omega
    rw [hadded]
    split
    · rename_i hwrap
      rw [State.collectLast_append _ _ _ _ hstack]
      refine ⟨hnext.error, hnext.warning, List.prefix_append _ _, fun _ => ⟨_, rfl, vs, hW, ?_⟩⟩
      cases vs with
      | nil => rw [hwrap.resolve_left (Nat.lt_irrefl 0)]; rfl
      | cons v vs => rfl
    · rename_i hkeep
      obtain ⟨hempty, hdrop⟩ := not_or.1 hkeep
      obtain rfl : vs = [] := List.length_eq_zero_iff.1 (Nat.eq_zero_of_not_pos hempty)
      refine ⟨hnext.error, hnext.warning, hnext.keeps, fun _ => ⟨[], hstack, [], hW, ?_⟩⟩
      rw [Bool.of_not_eq_true hdrop]
      rfl

theorem group (h : p.Pushes P W) : (Parser.group p).Pushes P (Layer.collected false W) :=
  of_run fun _ _ hs => collect h false hs

theorem list (h : p.Pushes P W) : (Parser.list p).Pushes P (Layer.types [.list]) := by
  refine mono (of_run fun s _ hs => collect h true hs) fun us hus => ?_
  obtain ⟨vs, -, rfl⟩ := hus
  rw [Bool.not_true, Bool.and_false, if_neg Bool.false_ne_true]
  rfl

/-! ## Tables -/

theorem mem_of_tableValue? {table : List (String × Value)} {key : String} {v : Value}
    (h : tableValue? table key = some v) : (key, v) ∈ table := by
  obtain ⟨before, after, heq, -⟩ := List.lookup_eq_some_iff.1 h
  rw [← List.mem_reverse, heq]
  simp

theorem tableValue?_of_mem {table : List (String × Value)} {e : String × Value} (he : e ∈ table) :
    ∃ v, tableValue? table e.1 = some v ∧ (e.1, v) ∈ table := by
  cases hlookup : tableValue? table e.1 with
  | none =>
    have hkeys := List.lookup_eq_none_iff.1 hlookup e (List.mem_reverse.2 he)
    exact absurd rfl (bne_iff_ne.1 hkeys)
  | some v => exact ⟨v, rfl, mem_of_tableValue? hlookup⟩

/-- A key of the table on top is replaced by its value. -/
theorem mapTop {table : List (String × Value)} {base : List Value} {s : State} (hf : s.failed = false)
    (hs : s.Sound P base fun vs => ∃ e ∈ table, vs = [.str e.1]) :
    (Parser.mapTop table s).Sound P base fun vs => ∃ e ∈ table, vs = [e.2] := by
  obtain ⟨_, hstack, e, he, rfl⟩ := hs.adds hf
  obtain ⟨v, hv, hmem⟩ := tableValue?_of_mem he
  have htop : s.stack.getLast? = some (.str e.1) := by rw [hstack, List.getLast?_concat]
  have hbelow : (s.dropLast.push v).stack = base ++ [v] := by
    rw [State.stack_push]
    change s.stack.dropLast ++ [v] = _
    rw [hstack, List.dropLast_concat]
  unfold Parser.mapTop
  rw [htop]
  dsimp only
  rw [hv]
  exact ⟨hs.error, hs.warning, hbelow ▸ List.prefix_append _ _, fun _ => ⟨[v], hbelow, (e.1, v), hmem, rfl⟩⟩

/-- Whether no key of a table begins with another. -/
def KeysApart {β : Type} (table : List (String × β)) : Prop :=
  table.Pairwise fun a b => ¬ a.1.toList <+: b.1.toList ∧ ¬ b.1.toList <+: a.1.toList

instance {β : Type} (table : List (String × β)) : Decidable (KeysApart table) :=
  inferInstanceAs (Decidable (table.Pairwise _))

theorem stringMap (hP : Mismatches P) {table : List (String × Value)}
    (hone : (∀ branches, P (.ambiguous branches)) ∨ KeysApart table) :
    (Parser.stringMap table).Pushes P fun vs => ∃ e ∈ table, vs = [e.2] := by
  have hkeys : (Parser.oneOf (table.map fun e => Parser.literal e.1 true)).Pushes P
      fun vs => ∃ e ∈ table, vs = [.str e.1] := by
    refine Meets.oneOf hP (fun p hp => ?_) (hone.imp_right fun hapart => ?_)
    · obtain ⟨e, he, rfl⟩ := List.mem_map.1 hp
      exact (literal hP e.1 true).mono fun vs hvs => ⟨e, he, hvs⟩
    · refine List.pairwise_map.2 (hapart.imp fun hab => ?_)
      exact Excludes.literal hab.1 hab.2
  refine of_run fun s hf hs => ?_
  have hnext := hkeys.sound s.stack s hs
  unfold Parser.stringMap
  dsimp only
  split
  · rename_i hfail
    exact hnext.of_failed hfail
  · rename_i hsuccess
    exact mapTop (Bool.of_not_eq_true hsuccess) hnext

theorem keyword (hP : Mismatches P) (family : String) {tokens : List (String × String)}
    (hone : (∀ branches, P (.ambiguous branches)) ∨ KeysApart tokens) :
    (Parser.keyword family tokens).Pushes P fun vs => ∃ e ∈ tokens, vs = [.keyword ⟨family, e.2⟩] := by
  have hvalues : (∀ branches, P (.ambiguous branches)) ∨
      KeysApart (tokens.map fun token => (token.1, Value.keyword ⟨family, token.2⟩)) :=
    hone.imp_right List.pairwise_map.2
  have htable := stringMap hP hvalues
  refine of_run fun s _ hs => (htable.sound s.stack s hs).mono fun vs hvs => ?_
  obtain ⟨e, he, rfl⟩ := hvs
  obtain ⟨token, htoken, rfl⟩ := List.mem_map.1 he
  exact ⟨token, htoken, rfl⟩

end Parser.Pushes

/-! ## Records -/

/-- Values as `W` says are made into a record of this shape, whatever lies below. -/
def Shape.Fits (W : Layer) (shape : Shape) : Prop :=
  ∀ (s : State) (base vs : List Value), s.failed = false → s.stack = base ++ vs → W vs →
    ∃ fields, shape.assemble s = { s with stack := base ++ [.record shape.name fields] }

theorem Shape.fits_fields (shape : Shape) : shape.Fits (Layer.types (shape.fields.map Field.type)) :=
  fun _ _ _ hf hstack htypes => ⟨_, assemble_of_fields hf hstack htypes⟩

theorem Parser.Pushes.record {shape : Shape} (h : p.Pushes P W) (hfits : shape.Fits W) :
    (Parser.record shape p).Pushes P (Layer.types [shape.type]) := by
  refine of_run fun s _ hs => ?_
  have hnext := h.sound s.stack s hs
  change (shape.assemble (p.parse s)).Sound P s.stack _
  cases hfail : (p.parse s).failed with
  | true =>
    rw [Shape.assemble, if_pos hfail]
    exact hnext.of_failed hfail
  | false =>
    obtain ⟨vs, hstack, hW⟩ := hnext.adds hfail
    obtain ⟨fields, hrecord⟩ := hfits _ _ vs hfail hstack hW
    rw [hrecord]
    exact ⟨hnext.error, hnext.warning, List.prefix_append _ _, fun _ => ⟨[.record shape.name fields], rfl, rfl⟩⟩

/-! ## Actions -/

/-- What an action does with values as `V` says on top of any others. -/
structure Action.Meets (P : ParseError → Prop) (V W : Layer) (f : Action) : Prop where
  error : ∀ base vs context e, V vs → (f (base ++ vs) context).error = some e → e.Only P
  keeps : ∀ base vs context, V vs → base <+: (f (base ++ vs) context).stack
  adds : ∀ base vs context, V vs → (f (base ++ vs) context).error = none →
    ∃ ws, (f (base ++ vs) context).stack = base ++ ws ∧ W ws

theorem Meets.action (name : String) {f : Action} (h : Meets P U V p.parse) (hf : f.Meets P V W) :
    Meets P U W (Parser.action name p f).parse := by
  refine parse fun base s _ hs => ?_
  have hnext := h.sound base s hs
  unfold Parser.action
  dsimp only
  split
  · rename_i hfail
    exact hnext.of_failed hfail
  · rename_i hsuccess
    obtain ⟨vs, hstack, hV⟩ := hnext.adds (Bool.of_not_eq_true hsuccess)
    unfold State.act
    rw [hstack]
    refine ⟨fun e => hf.error base vs _ e hV, hnext.warning, hf.keeps base vs _ hV, fun hdone => ?_⟩
    exact hf.adds base vs _ hV (State.failed_eq_false_iff.1 hdone)

end StackParser
