import StackParser.Bundled.Catalogue
import StackParser.Proofs.Rules

/-!
# What holds of all values

Something may be said of the stack and the context of a state, such as that all values there have a property:

* `State.Invariant P I` : `I` is said of stack and context, and holds on when a value with the property `P` is pushed, and when
  values are taken off the stack or made into a list;
* `Parser.Keeps I p` : after `p` it still holds, whether `p` succeeds or fails. There is one rule for each parser and combinator,
  with a condition on the values that the parser brings in; records and actions have to keep to `I` themselves;
* `State.Holds P` : all values on the stack and in the context of `s` have the property `P`. This is such an invariant if
  lists inherit it. `Value.Inherited P` : moreover, values that hold no others have it;
* `Rounds.respond_keeps_of_moves`, `Transcript.enterTarget_keeps_of_list` and `Transcript.fileListing_keeps` : what it takes
  for the actions of the bundled grammars to keep the property of all values.
-/

namespace StackParser

def Value.isSingle : Value → Bool
  | .list _ | .record .. => false
  | _ => true

/-- Values that hold no others have the property, and lists of values with the property do. -/
structure Value.Inherited (P : Value → Prop) : Prop where
  single : ∀ v, v.isSingle = true → P v
  list : ∀ items, (∀ v ∈ items, P v) → P (.list items)

/-- All values on the stack and in the context have the property. -/
structure State.Holds (P : Value → Prop) (s : State) : Prop where
  stack : ∀ v ∈ s.stack, P v
  context : ∀ e ∈ s.context.entries, P e.2

namespace State.Holds

variable {P : Value → Prop} {s t : State}

/-- Only the stack and the context count. -/
theorem congr (h : s.Holds P) (hstack : t.stack = s.stack) (hcontext : t.context = s.context) : t.Holds P where
  stack := hstack ▸ h.stack
  context := hcontext ▸ h.context

theorem fail (h : s.Holds P) (e : ParseError) : (s.fail e).Holds P := h.congr rfl rfl

theorem push (h : s.Holds P) {v : Value} (hv : P v) : (s.push v).Holds P where
  stack w hw := by
    rw [stack_push, List.mem_append, List.mem_singleton] at hw
    rcases hw with hw | hw
    · exact h.stack w hw
    · exact hw ▸ hv
  context := h.context

theorem dropLast (h : s.Holds P) : s.dropLast.Holds P where
  stack v hv := h.stack v (List.dropLast_subset _ hv)
  context := h.context

/-- Several values are replaced by one made of them. -/
theorem collectLast (h : s.Holds P) (n : Nat) {f : List Value → Value}
    (hf : ∀ vs, (∀ v ∈ vs, P v) → P (f vs)) : (s.collectLast n f).Holds P where
  stack v hv := by
    unfold State.collectLast at hv
    rw [List.mem_append, List.mem_singleton] at hv
    rcases hv with hv | hv
    · exact h.stack v (List.mem_of_mem_take hv)
    · rw [hv]
      exact hf _ fun w hw => h.stack w (List.mem_of_mem_drop hw)
  context := h.context

theorem setContext (h : s.Holds P) (key : String) {v : Value} (hv : P v) : (s.setContext key v).Holds P where
  stack := h.stack
  context e he := by
    rcases Keyed.mem_insertEntry he with rfl | he
    · exact hv
    · exact h.context e he

end State.Holds

def Action.Keeps (P : Value → Prop) (f : Action) : Prop := ∀ s : State, s.Holds P → (s.act f).Holds P

/-- `I` is said of the stack and the context. It holds on when a value with the property `P` is pushed, and when values are
taken off the stack or made into a list. -/
structure State.Invariant (P : Value → Prop) (I : State → Prop) : Prop where
  congr {s t : State} : I s → t.stack = s.stack → t.context = s.context → I t
  push {s : State} {v : Value} : I s → P v → I (s.push v)
  dropLast {s : State} : I s → I s.dropLast
  collectLast {s : State} (n : Nat) : I s → I (s.collectLast n .list)

theorem State.Holds.invariant {P : Value → Prop} (hlist : ∀ items, (∀ v ∈ items, P v) → P (.list items)) :
    State.Invariant P (State.Holds P) where
  congr h hstack hcontext := h.congr hstack hcontext
  push h hv := h.push hv
  dropLast h := h.dropLast
  collectLast n h := h.collectLast n hlist

theorem NumberKind.isSingle_of_value? {kind : NumberKind} {cs : List Char} {v : Value} (h : kind.value? cs = some v) :
    v.isSingle = true := by
  have htype := NumberKind.type_of_value? h
  cases kind <;> cases v <;> first | rfl | exact nomatch htype

namespace State.Invariant

variable {P : Value → Prop} {I : State → Prop} {s : State}

theorem advance (hI : Invariant P I) (h : I s) (n : Nat) : I (s.advance n) := hI.congr h rfl rfl

theorem fail (hI : Invariant P I) (h : I s) (e : ParseError) : I (s.fail e) := hI.congr h rfl rfl

end State.Invariant

namespace Parser

def Keeps (I : State → Prop) (p : Parser) : Prop := ∀ s : State, I s → I (p.parse s)

namespace Keeps

variable {P : Value → Prop} {I : State → Prop} {p : Parser} {ps : List Parser}

/-- It is enough to look at the run. -/
theorem of_run (hI : State.Invariant P I) (h : ∀ s : State, I s → I (p.run s)) : p.Keeps I := by
  intro s hs
  unfold Parser.parse
  split
  · exact hI.congr hs rfl rfl
  · exact hI.congr (h s hs) rfl rfl

/-! ## Terminals -/

theorem char (hI : State.Invariant P I) (c : Char) (captured : Bool) (hc : captured = true → P (.char c)) :
    (Parser.char c captured).Keeps I := by
  refine of_run hI fun s hs => ?_
  unfold Parser.char
  dsimp only
  split
  · cases captured with
    | true => exact hI.push (hI.advance hs 1) (hc rfl)
    | false => exact hI.advance hs 1
  · exact hI.fail hs _

theorem fixedText (hI : State.Invariant P I) (cs : List Char) (captured : Bool)
    (hcs : captured = true → P (.str (String.ofList cs))) {s : State} (hs : I s) :
    I (Parser.fixedText cs captured s) := by
  unfold Parser.fixedText
  split
  · cases captured with
    | true => exact hI.push (hI.advance hs cs.length) (hcs rfl)
    | false => exact hI.advance hs cs.length
  · exact hI.fail hs _

theorem literal (hI : State.Invariant P I) (text : String) (captured : Bool) (htext : captured = true → P (.str text)) :
    (Parser.literal text captured).Keeps I :=
  of_run hI fun _ => fixedText hI _ captured fun hcaptured => by
    rw [String.ofList_toList]
    exact htext hcaptured

theorem spaces (hI : State.Invariant P I) (n : Nat) (captured : Bool)
    (hn : captured = true → P (.str (String.ofList (List.replicate n ' ')))) : (Parser.spaces n captured).Keeps I :=
  of_run hI fun _ => fixedText hI _ captured hn

theorem letter (hI : State.Invariant P I) (hletter : ∀ c, isLetter c = true → P (.char c)) : Parser.letter.Keeps I := by
  refine of_run hI fun s hs => ?_
  unfold Parser.letter
  dsimp only
  split
  · split
    · rename_i c _ hc
      exact hI.push (hI.advance hs 1) (hletter c hc)
    · exact hI.fail hs _
  · exact hI.fail hs _

theorem word (hI : State.Invariant P I) (hword : ∀ cs : List Char, (∀ c ∈ cs, isBlank c = false) → P (.str (String.ofList cs))) :
    Parser.word.Keeps I := by
  refine of_run hI fun s hs => ?_
  unfold Parser.word
  dsimp only
  split
  · exact hI.fail hs _
  · refine hI.push (hI.advance hs _) (hword _ fun c hc => ?_)
    simpa using List.all_eq_true.1 List.all_takeWhile c hc

theorem number (hI : State.Invariant P I) (kind : NumberKind) (hnumber : ∀ cs v, kind.value? cs = some v → P v) :
    (Parser.number kind).Keeps I := by
  refine of_run hI fun s hs => ?_
  unfold Parser.number
  dsimp only
  split
  · exact hI.fail hs _
  · split
    · rename_i v hv
      exact hI.push (hI.advance hs _) (hnumber _ v hv)
    · exact hI.fail hs _

theorem lineEnd (hI : State.Invariant P I) : Parser.lineEnd.Keeps I := by
  refine of_run hI fun s hs => ?_
  unfold Parser.lineEnd
  dsimp only
  split
  · exact hI.advance hs 1
  · exact hI.advance hs 2
  · exact hI.fail (hI.advance hs 1) _
  · exact hI.fail hs _

/-! ## Combinators -/

theorem runAll (h : ∀ p ∈ ps, p.Keeps I) {s : State} (hs : I s) : I (Parser.runAll ps s) := by
  induction ps generalizing s with
  | nil => exact hs
  | cons p ps ih =>
    obtain ⟨hp, hps⟩ := List.forall_mem_cons.1 h
    exact ih hps (hp s hs)

theorem sequenceOf (hI : State.Invariant P I) (h : ∀ p ∈ ps, p.Keeps I) : (Parser.sequenceOf ps).Keeps I :=
  of_run hI fun _ => runAll h

theorem runTimes (h : p.Keeps I) (n : Nat) {s : State} (hs : I s) : I (Parser.runTimes p n s) := by
  induction n generalizing s with
  | zero => exact hs
  | succ n ih =>
    unfold Parser.runTimes
    dsimp only
    split
    · exact h s hs
    · exact ih (h s hs)

theorem times (hI : State.Invariant P I) (n : Nat) (h : p.Keeps I) : (Parser.times n p).Keeps I :=
  of_run hI fun _ => h.runTimes n

theorem oneOf (hI : State.Invariant P I) (h : ∀ p ∈ ps, p.Keeps I) : (Parser.oneOf ps).Keeps I := by
  refine of_run hI fun s hs => ?_
  unfold Parser.oneOf
  dsimp only
  rcases choose_cases s (ps.map fun p => p.parse s) with hmem | ⟨e, he⟩
  · obtain ⟨p, hp, heq⟩ := List.mem_map.1 hmem
    rw [← heq]
    exact h p hp s hs
  · rw [he]
    exact hI.fail hs e

theorem optional (hI : State.Invariant P I) (h : p.Keeps I) : (Parser.optional p).Keeps I := by
  refine of_run hI fun s hs => ?_
  unfold Parser.optional
  dsimp only
  split
  · exact hs
  · exact h s hs

theorem collect (hI : State.Invariant P I) (h : p.Keeps I) (keepEmpty : Bool) {s : State} (hs : I s) :
    I (Parser.collect p keepEmpty s) := by
  unfold Parser.collect
  dsimp only
  split
  · exact h s hs
  · split
    · exact hI.collectLast _ (h s hs)
    · exact h s hs

theorem group (hI : State.Invariant P I) (h : p.Keeps I) : (Parser.group p).Keeps I :=
  of_run hI fun _ => h.collect hI false

theorem list (hI : State.Invariant P I) (h : p.Keeps I) : (Parser.list p).Keeps I :=
  of_run hI fun _ => h.collect hI true

theorem runWhile (hI : State.Invariant P I) (h : p.Keeps I) {s : State} (hs : I s) : I (Parser.runWhile p s) := by
  fun_induction Parser.runWhile p s with
  | case1 s _ => exact hs
  | case2 s _ next e _ => exact hI.congr hs rfl rfl
  | case3 s _ next _ _ ih => exact ih (h s hs)
  | case4 s _ next _ _ => exact h s hs

theorem oneOrMore (hI : State.Invariant P I) (h : p.Keeps I) : (Parser.oneOrMore p).Keeps I :=
  of_run hI fun _ => h.runWhile hI

theorem runTillEnd (hI : State.Invariant P I) (h : p.Keeps I) {s : State} (hs : I s) : I (Parser.runTillEnd p s) := by
  fun_induction Parser.runTillEnd p s with
  | case1 s _ => exact hI.congr hs rfl rfl
  | case2 s _ next _ => exact h s hs
  | case3 s _ next _ _ ih => exact ih (h s hs)
  | case4 s _ next _ _ => exact hI.fail (h s hs) _

theorem tillEnd (hI : State.Invariant P I) (h : p.Keeps I) : (Parser.tillEnd p).Keeps I :=
  of_run hI fun _ => h.runTillEnd hI

/-! ## Tables, records and actions -/

theorem mapTop (hI : State.Invariant P I) {table : List (String × Value)} (htable : ∀ e ∈ table, P e.2) {s : State}
    (hs : I s) : I (Parser.mapTop table s) := by
  unfold Parser.mapTop
  split
  · split
    · rename_i v hv
      exact hI.push (hI.dropLast hs) (htable _ (Pushes.mem_of_tableValue? hv))
    · exact hI.fail (hI.dropLast hs) _
  · exact hI.fail (hI.dropLast hs) _
  · exact hI.fail (hI.dropLast hs) _

/-- A key lies on the stack until its value takes its place. -/
theorem stringMap (hI : State.Invariant P I) {table : List (String × Value)} (htable : ∀ e ∈ table, P (.str e.1) ∧ P e.2) :
    (Parser.stringMap table).Keeps I := by
  have hkeys : (Parser.oneOf (table.map fun e => Parser.literal e.1 true)).Keeps I := by
    refine oneOf hI fun p hp => ?_
    obtain ⟨e, he, rfl⟩ := List.mem_map.1 hp
    exact literal hI e.1 true fun _ => (htable e he).1
  refine of_run hI fun s hs => ?_
  unfold Parser.stringMap
  dsimp only
  split
  · exact hkeys s hs
  · exact mapTop hI (fun e he => (htable e he).2) (hkeys s hs)

theorem keyword (hI : State.Invariant P I) (family : String) {tokens : List (String × String)}
    (htokens : ∀ e ∈ tokens, P (.str e.1) ∧ P (.keyword ⟨family, e.2⟩)) : (Parser.keyword family tokens).Keeps I := by
  refine of_run hI fun s => stringMap hI (fun e he => ?_) s
  obtain ⟨token, htoken, rfl⟩ := List.mem_map.1 he
  exact htokens token htoken

theorem record (hI : State.Invariant P I) {shape : Shape} (h : p.Keeps I)
    (hshape : ∀ s : State, I s → I (shape.assemble s)) : (Parser.record shape p).Keeps I :=
  of_run hI fun s hs => hshape _ (h s hs)

theorem action (hI : State.Invariant P I) (name : String) {f : Action} (h : p.Keeps I)
    (hf : ∀ s : State, I s → I (s.act f)) : (Parser.action name p f).Keeps I := by
  refine of_run hI fun s hs => ?_
  unfold Parser.action
  dsimp only
  split
  · exact h s hs
  · exact hf _ (h s hs)

end Keeps

end Parser

/-! ## The actions of the bundled grammars -/

variable {P : Value → Prop}

theorem Rounds.respond_keeps_of_moves (hmoves : ∀ move : Move, P (Move.family.value move)) : Action.Keeps P Rounds.respond := by
  intro s hs
  have hbelow := hs.dropLast
  unfold State.act Rounds.respond
  dsimp only
  split
  · exact hbelow.congr rfl rfl
  · split
    · exact (hbelow.push (hmoves _)).congr rfl rfl
    · exact hbelow.congr rfl rfl

namespace Directory

variable {context : Context} {names : List Value}

theorem mem_of_working? (h : working? context = .ok names) : (workingKey, .list names) ∈ context.entries := by
  unfold working? at h
  split at h
  · rename_i found hfound
    cases h
    exact (Keyed.mem_entries_iff ..).2 hfound
  · exact nomatch h
  · exact nomatch h

/-- The names on the way to a target come from the working directory and the target. -/
theorem mem_of_resolve {target : String} (h : resolve context target = .ok names) {v : Value} (hv : v ∈ names) :
    v = .str target ∨ ∃ above, working? context = .ok above ∧ v ∈ above := by
  unfold resolve at h
  split at h
  · cases h
    exact nomatch hv
  · split at h
    · exact nomatch h
    · rename_i above hworking
      split at h
      · split at h
        · exact nomatch h
        · cases h
          exact .inr ⟨above, hworking, List.dropLast_subset _ hv⟩
      · cases h
        rcases List.mem_append.1 hv with hv | hv
        · exact .inr ⟨above, hworking, hv⟩
        · exact .inl (List.mem_singleton.1 hv)

end Directory

namespace Transcript

theorem enterTarget_keeps_of_list (hlist : ∀ items, P (.list items) ↔ ∀ v ∈ items, P v) : Action.Keeps P enterTarget := by
  intro s hs
  unfold State.act enterTarget
  split
  · rename_i target htarget
    unfold Directory.change
    cases hresolve : Directory.resolve s.context target with
    | ok names =>
      have hnames : ∀ v ∈ names, P v := by
        intro v hv
        rcases Directory.mem_of_resolve hresolve hv with rfl | ⟨above, hworking, habove⟩
        · exact hs.stack _ (List.mem_of_getLast? htarget)
        · exact (hlist above).1 (hs.context _ (Directory.mem_of_working? hworking)) v habove
      exact (hs.dropLast.setContext Directory.workingKey ((hlist names).2 hnames)).congr rfl rfl
    | error refusal => exact hs.dropLast.congr rfl rfl
  · exact hs.dropLast.congr rfl rfl

/-- What is filed was on the stack. -/
theorem fileListing_keeps : Action.Keeps P fileListing := by
  intro s hs
  unfold State.act fileListing
  split
  · exact hs.congr rfl rfl
  · split
    · rename_i entries hlast
      have hentries := hs.stack _ (List.mem_of_getLast? hlast)
      exact (hs.dropLast.setContext _ hentries).congr rfl rfl
    · exact hs.dropLast.congr rfl rfl

end Transcript

end StackParser
