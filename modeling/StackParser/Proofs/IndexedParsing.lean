import StackParser.Proofs.Indexing
import StackParser.Proofs.LoopBounds

/-!
# Parsing with indexes

`Grammar.checked` parses on states whose place is an index, by the operations of `IndexedState` alone. Wherever it takes a part
of the input or of the stack, adds or subtracts, the result may be a `Fault`. So it is with the number of rounds of a loop.

* `IndexedState.gather`, `IndexedState.oneOrMore`, `IndexedState.tillEnd` : the loops, each with the number of rounds that can
  still be counted;
* `Grammar.checked`, `Step.checked` : parsing, and the steps of a session;
* `Mirrors f p` : `f` makes of a state in indexed form what `p` makes of the state. There is a rule for each parser;
* `Grammar.mirrors`, `Step.mirrors` : on a text that fits nothing goes out of range, and the results are those of
  `Grammar.parser` and `Step.run`.
-/

namespace StackParser

namespace IndexedState

/-! ## Units -/

def char (c : Char) (captured : Bool) (m : IndexedState) : IndexedState :=
  let (next, found) := m.nextChar
  if found ≠ some c then m.fail (.mismatch ("'" ++ String.singleton c ++ "'") (foundText found))
  else if captured then next.push (.char c) else next

def fixedText (cs : List Char) (captured : Bool) (m : IndexedState) : Checked IndexedState := do
  let rest ← m.remaining
  let (next, found) := m.nextChars cs.length
  if found ≠ some cs then
    return m.fail (.mismatch ("'" ++ String.ofList cs ++ "'") (String.ofList (found.getD rest)))
  else
    return if captured then next.push (.str (String.ofList cs)) else next

def letter (m : IndexedState) : IndexedState :=
  let (next, found) := m.nextChar
  match found with
  | some c => if isLetter c then next.push (.char c) else m.fail (.mismatch "letter" (foundText (some c)))
  | none => m.fail (.mismatch "letter" (foundText none))

/-- Takes characters one by one, as long as they are accepted behind those taken before. There may be `room` of them. -/
def gather (accepts : List Char → Char → Bool) (room : Nat) (text : List Char) (m : IndexedState) :
    Checked (List Char × IndexedState) :=
  match m.peekChar, room with
  | none, _ => .ok (text, m)
  | some _, 0 => .error .overflow
  | some c, room + 1 =>
    if accepts text c then gather accepts room (text ++ [c]) (m.advance 1) else .ok (text, m)

def maxCount : Nat := UInt64.size - 1

def word (m : IndexedState) : Checked IndexedState := do
  let (text, next) ← gather (fun _ c => !isBlank c) maxCount [] m
  if text.isEmpty then
    return next.fail (.mismatch "string of any length" (foundText next.peekChar))
  else
    return next.push (.str (String.ofList text))

def number (kind : NumberKind) (m : IndexedState) : Checked IndexedState := do
  let (text, next) ← gather kind.accepts maxCount [] m
  if text.isEmpty then
    return next.fail (.notANumber (foundText next.peekChar))
  else
    match kind.value? text with
    | some v => return next.push v
    | none => return m.fail (.invalidNumber (String.ofList text) kind)

def lineEnd (m : IndexedState) : IndexedState :=
  let (next, found) := m.nextChar
  match found with
  | some '\n' => next
  | some '\r' =>
    match next.peekChar with
    | some '\n' => next.advance 1
    | other => next.fail (.mismatch "'\\n'" (foundText other))
  | other => m.fail (.mismatch "'\\r' or '\\n'" (foundText other))

/-! ## Combinators -/

/-- As `Parser.parse` runs a parser: a failed state passes through, and in either case the label is left on it. -/
def stamp (label : String) (run : IndexedState → Checked IndexedState) (m : IndexedState) : Checked IndexedState := do
  let next ← if m.failed then pure m else run m
  return { next with name := label }

def sequence (parts : List (IndexedState → Checked IndexedState)) (m : IndexedState) : Checked IndexedState :=
  parts.foldlM (fun next part => part next) m

def choose (m : IndexedState) (trials : List IndexedState) : IndexedState :=
  match trials.filter fun t => !t.failed with
  | [t] => t
  | [] => m.fail (.exhausted (trials.filterMap fun t => t.error.map fun e => (t.name, e)))
  | winners => m.fail (.ambiguous (winners.map IndexedState.name))

def choice (parts : List (IndexedState → Checked IndexedState)) (m : IndexedState) : Checked IndexedState := do
  let trials ← parts.mapM' fun part => part m
  return m.choose trials

def optional (part : IndexedState → Checked IndexedState) (m : IndexedState) : Checked IndexedState := do
  let next ← part m
  return if next.failed then m else next

def collect (part : IndexedState → Checked IndexedState) (keepEmpty : Bool) (m : IndexedState) :
    Checked IndexedState := do
  let next ← part m
  if next.failed then
    return next
  else
    let added := next.stack.length - m.stack.length
    if 0 < added ∨ keepEmpty then next.collectLast added .list else return next

def times (part : IndexedState → Checked IndexedState) : Nat → IndexedState → Checked IndexedState
  | 0, m => .ok m
  | n + 1, m => do
    let next ← part m
    if next.failed then return next else times part n next

/-- Applies the part to `current`, which then becomes `previous`, until it fails, stalls or is at the end. There may be
`room` rounds. -/
def oneOrMore (part : IndexedState → Checked IndexedState) (room : Nat) (previous current : IndexedState) :
    Checked IndexedState :=
  match current.error with
  | some e => .ok { previous with warning := some e }
  | none =>
    if current.atEnd then .ok current
    else
      match room with
      | 0 => .error .overflow
      | room + 1 => do
        let attempt ← part current
        if !attempt.failed && attempt.index == current.index then return attempt
        else oneOrMore part room current attempt

/-- Applies the part until the input is read. There may be `room` rounds. -/
def tillEnd (part : IndexedState → Checked IndexedState) (room : Nat) (current : IndexedState) : Checked IndexedState :=
  if current.atEnd then .ok { current with warning := none }
  else
    match room with
    | 0 => .error .overflow
    | room + 1 => do
      let next ← part current
      if next.failed then return next
      else if next.index = current.index then return next.fail (.noProgress next.warning)
      else tillEnd part room next

def literal (text : String) (captured : Bool) : IndexedState → Checked IndexedState :=
  stamp (Parser.literal text captured).label (fixedText text.toList captured)

def stringMap (table : List (String × Value)) (m : IndexedState) : Checked IndexedState := do
  let next ← stamp (Parser.oneOf (table.map fun e => Parser.literal e.1 true)).label
    (choice (table.map fun e => literal e.1 true)) m
  return if next.failed then next else next.apply (Parser.mapTop table)

def keyword (family : String) (tokens : List (String × String)) : IndexedState → Checked IndexedState :=
  let table := tokens.map fun e => (e.1, Value.keyword ⟨family, e.2⟩)
  stamp (Parser.stringMap table).label (stringMap table)

end IndexedState

/-! ## Grammars and steps -/

structure IndexedSession where
  state : IndexedState
  slots : List (String × IndexedState)

namespace IndexedSession

def ofState (m : IndexedState) : IndexedSession := ⟨m, []⟩

def update (session : IndexedSession) (f : IndexedState → Checked IndexedState) : Checked IndexedSession := do
  let next ← f session.state
  return { session with state := next }

def save (session : IndexedSession) (slot : String) : IndexedSession :=
  { session with slots := (slot, session.state) :: session.slots }

def load (session : IndexedSession) (slot : String) : IndexedSession :=
  match session.slots.lookup slot with
  | some m => { session with state := m }
  | none => session

end IndexedSession

open IndexedState (stamp)

mutual

/-- Parses as `Grammar.parse` does, on a state in indexed form. -/
def Grammar.checked (g : Grammar) : IndexedState → Checked IndexedState :=
  stamp g.label <| match g with
  | .char c captured => fun m => .ok (m.char c captured)
  | .literal text captured => fun m => m.fixedText text.toList captured
  | .letter => fun m => .ok m.letter
  | .word => IndexedState.word
  | .number kind => IndexedState.number kind
  | .spaces n captured => fun m => m.fixedText (List.replicate n ' ') captured
  | .lineEnd => fun m => .ok m.lineEnd
  | .sequenceOf gs => IndexedState.sequence (Grammar.allChecked gs)
  | .oneOf gs => IndexedState.choice (Grammar.allChecked gs)
  | .optional g => IndexedState.optional g.checked
  | .group g => IndexedState.collect g.checked false
  | .list g => IndexedState.collect g.checked true
  | .times n g => IndexedState.times g.checked n
  | .oneOrMore g => fun m => IndexedState.oneOrMore g.checked IndexedState.maxCount m m
  | .tillEnd g => IndexedState.tillEnd g.checked IndexedState.maxCount
  | .stringMap table => IndexedState.stringMap table
  | .keyword family tokens => IndexedState.keyword family tokens
  | .record shape g => fun m => do
    let next ← g.checked m
    next.assemble shape
  | .action _ g f => fun m => do
    let next ← g.checked m
    return if next.failed then next else next.apply fun s => s.act f
  | .custom _ steps => fun m => do
    let session ← Step.allChecked steps (.ofState m)
    return session.state

def Grammar.allChecked : List Grammar → List (IndexedState → Checked IndexedState)
  | [] => []
  | g :: gs => g.checked :: Grammar.allChecked gs

/-- A parse that may be refused is reported with the bytes in front of the place where it failed. -/
def Step.checked : Step → IndexedSession → Checked IndexedSession
  | .parse g, session => session.update g.checked
  | .parseOrKeep g _, session => do
    let next ← g.checked session.state
    if next.failed then do
      let _ ← next.byteOffset
      return session
    else
      return { session with state := next }
  | .nextChar, session => session.update fun m => .ok m.nextChar.1
  | .nextChars n, session => session.update fun m => .ok (m.nextChars n).1
  | .advance n, session => session.update fun m => .ok (m.advance n)
  | .push v, session => session.update fun m => .ok (m.push v)
  | .popLast, session => session.update fun m => .ok (m.apply State.dropLast)
  | .popFirst, session => session.update fun m => .ok (m.apply State.dropFirst)
  | .takeLast n, session => session.update fun m => do
    let (next, _) ← m.takeLatest n
    return next
  | .lookUp _, session => .ok session
  | .setContext key v, session => session.update fun m => .ok (m.apply fun s => s.setContext key v)
  | .removeContext key, session => session.update fun m => .ok (m.apply fun s => s.removeContext key)
  | .replaceContext context, session => session.update fun m => .ok (m.apply fun s => { s with context := context })
  | .fail e, session => session.update fun m => .ok (m.fail e)
  | .requireTop type message, session => session.update fun m => .ok (m.apply fun s => s.requireTop type message)
  | .assemble shape, session => session.update fun m => m.assemble shape
  | .save slot, session => .ok (session.save slot)
  | .load slot, session => .ok (session.load slot)
  | .observe _, session => .ok session

def Step.allChecked : List Step → IndexedSession → Checked IndexedSession
  | [], session => .ok session
  | step :: steps, session => do
    let next ← step.checked session
    if next.state.failed then return next else Step.allChecked steps next

end

/-! ## Agreement -/

/-- On every text that fits, `f` makes of a state in indexed form what `p` makes of the state. -/
def Mirrors (f : IndexedState → Checked IndexedState) (p : Parser) : Prop :=
  ∀ s : State, s.Fits → f s.indexed = .ok (p.parse s).indexed

namespace Mirrors

variable {f : IndexedState → Checked IndexedState} {p : Parser} {s : State}

/-- It is enough to look at the run on states that have not failed. -/
theorem of_run (h : ∀ s : State, s.failed = false → s.Fits → f s.indexed = .ok (p.run s).indexed) :
    Mirrors (stamp p.label f) p := by
  intro s hs
  unfold IndexedState.stamp
  rw [State.failed_indexed]
  cases hfailed : s.failed with
  | true =>
    rw [if_pos rfl, p.parse_of_failed hfailed]
    rfl
  | false =>
    rw [if_neg Bool.false_ne_true, h s hfailed hs, p.parse_of_not_failed hfailed]
    rfl

/-! ### Units -/

theorem char (c : Char) (captured : Bool) :
    Mirrors (stamp (Parser.char c captured).label fun m => .ok (m.char c captured)) (.char c captured) := by
  refine of_run fun s _ hs => ?_
  unfold IndexedState.char Parser.char
  rw [State.nextChar_indexed hs]
  dsimp only
  by_cases hfound : s.cursor.peekChar = some c
  · rw [if_neg (not_not.2 hfound), if_pos hfound]
    cases captured <;> rfl
  · rw [if_pos hfound, if_neg hfound]
    rfl

theorem fixedText (cs : List Char) (captured : Bool) (hs : s.Fits) :
    s.indexed.fixedText cs captured = .ok (Parser.fixedText cs captured s).indexed := by
  unfold IndexedState.fixedText Parser.fixedText
  rw [State.remaining_indexed, Checked.ok_bind, State.nextChars_indexed hs]
  dsimp only
  by_cases hfound : s.cursor.peek cs.length = some cs
  · have hprefix : cs.isPrefixOf s.cursor.after = true :=
      List.isPrefixOf_iff_prefix.2 (Cursor.peek_length_eq_some_iff.1 hfound)
    have hskip : s.skip cs.length = s.advance cs.length := by simp [State.skip, hfound]
    rw [if_neg (not_not.2 hfound), if_pos hprefix, hskip]
    cases captured <;> rfl
  · have hprefix : ¬ cs.isPrefixOf s.cursor.after = true := fun h =>
      hfound (Cursor.peek_length_eq_some_iff.2 (List.isPrefixOf_iff_prefix.1 h))
    have hshown : (s.cursor.peek cs.length).getD s.cursor.after = s.cursor.after.take cs.length := by
      rw [Cursor.peek_eq]
      split
      · rfl
      · rename_i hshort
        rw [List.take_of_length_le (by omega)]
        rfl
    rw [if_pos hfound, if_neg hprefix, hshown]
    rfl

theorem literal (text : String) (captured : Bool) :
    Mirrors (IndexedState.literal text captured) (.literal text captured) :=
  of_run fun _ _ hs => fixedText text.toList captured hs

theorem spaces (n : Nat) (captured : Bool) :
    Mirrors (stamp (Parser.spaces n captured).label fun m => m.fixedText (List.replicate n ' ') captured)
      (.spaces n captured) :=
  of_run fun _ _ hs => fixedText (List.replicate n ' ') captured hs

theorem letter : Mirrors (stamp Parser.letter.label fun m => .ok m.letter) .letter := by
  refine of_run fun s _ hs => ?_
  unfold IndexedState.letter Parser.letter
  rw [State.nextChar_indexed hs]
  dsimp only
  cases s.cursor.peekChar with
  | none => rfl
  | some c => cases hc : isLetter c <;> simp [hc] <;> rfl

theorem lineEnd : Mirrors (stamp Parser.lineEnd.label fun m => .ok m.lineEnd) .lineEnd := by
  refine of_run fun s _ hs => ?_
  have hfound : s.cursor.peekChar = s.cursor.after.head? := rfl
  have hbehind : (s.advance 1).cursor.peekChar = s.cursor.after.tail.head? := by
    show (s.cursor.after.drop 1).head? = _
    rw [List.drop_one]
  have htwice : (s.advance 1).advance 1 = s.advance 2 := by
    simp [State.advance, Cursor.advance_advance]
  unfold IndexedState.lineEnd Parser.lineEnd
  rw [State.nextChar_indexed hs]
  dsimp only
  rw [State.peekChar_indexed, State.indexed_advance (hs.advance 1), hfound, hbehind, htwice]
  rcases s.cursor.after with _ | ⟨c, _ | ⟨d, rest⟩⟩
  · rfl
  · by_cases hfeed : c = '\n'
    · subst hfeed
      rfl
    by_cases hreturn : c = '\r'
    · subst hreturn
      rfl
    · simp [hfeed, hreturn, State.indexed_fail]
  · by_cases hfeed : c = '\n'
    · subst hfeed
      rfl
    by_cases hreturn : c = '\r'
    · subst hreturn
      by_cases hpair : d = '\n'
      · subst hpair
        rfl
      · simp [hpair, State.indexed_fail]
    · simp [hfeed, hreturn, State.indexed_fail]

/-- What is gathered is told by a function that takes characters in the same way. There is room for all that are left. -/
theorem gather (accepts : List Char → Char → Bool) (take : List Char → List Char → List Char)
    (hnil : ∀ text, take text [] = [])
    (hcons : ∀ text c cs, take text (c :: cs) = if accepts text c then c :: take (text ++ [c]) cs else [])
    (hs : s.Fits) (room : Nat) (hroom : s.cursor.after.length ≤ room) (text : List Char) :
    IndexedState.gather accepts room text s.indexed =
      .ok (text ++ take text s.cursor.after, (s.advance (take text s.cursor.after).length).indexed) := by
  induction hafter : s.cursor.after generalizing s room text with
  | nil =>
    have hnext : s.cursor.peekChar = none := by rw [Cursor.peekChar, hafter]; rfl
    rw [IndexedState.gather.eq_def, State.peekChar_indexed, hnext, hnil]
    simp
  | cons c cs ih =>
    have hnext : s.cursor.peekChar = some c := by rw [Cursor.peekChar, hafter]; rfl
    have hbehind : (s.advance 1).cursor.after = cs := by simp [hafter]
    rw [hafter, List.length_cons] at hroom
    obtain ⟨room, rfl⟩ : ∃ n, room = n + 1 := ⟨room - 1, by omega⟩
    rw [IndexedState.gather.eq_def, State.peekChar_indexed, hnext, hcons]
    dsimp only
    by_cases hc : accepts text c = true
    · rw [if_pos hc, if_pos hc, State.indexed_advance hs,
        ih (hs.advance 1) room (by rw [hbehind]; omega) (text ++ [c]) hbehind]
      simp [State.advance, Cursor.advance_advance, Nat.add_comm]
    · rw [if_neg hc, if_neg hc]
      simp

theorem length_le_maxCount (hs : s.Fits) : s.cursor.after.length ≤ IndexedState.maxCount := by
  have := hs.length_lt
  rw [IndexedState.maxCount]
  omega

theorem word : Mirrors (stamp Parser.word.label IndexedState.word) .word := by
  refine of_run fun s _ hs => ?_
  have hall := gather (fun _ c => !isBlank c) (fun _ cs => cs.takeWhile fun c => !isBlank c) (fun _ => rfl)
    (fun _ c cs => List.takeWhile_cons) hs IndexedState.maxCount (length_le_maxCount hs) []
  unfold IndexedState.word Parser.word
  rw [hall, Checked.ok_bind, List.nil_append]
  dsimp only
  by_cases hempty : (s.cursor.after.takeWhile fun c => !isBlank c).isEmpty = true
  · have hnil : (s.cursor.after.takeWhile fun c => !isBlank c) = [] := List.isEmpty_iff.1 hempty
    rw [if_pos hempty, if_pos hempty, hnil, List.length_nil, State.advance_zero, State.peekChar_indexed]
    rfl
  · rw [if_neg hempty, if_neg hempty]
    rfl

theorem number (kind : NumberKind) :
    Mirrors (stamp (Parser.number kind).label (IndexedState.number kind)) (.number kind) := by
  refine of_run fun s _ hs => ?_
  have hall := gather kind.accepts kind.taken (fun _ => rfl) (fun _ _ _ => rfl) hs IndexedState.maxCount
    (length_le_maxCount hs) []
  unfold IndexedState.number Parser.number
  rw [hall, Checked.ok_bind, List.nil_append, kind.taken_eq_scan]
  dsimp only
  by_cases hempty : (kind.scan s.cursor.after).isEmpty = true
  · have hnil : kind.scan s.cursor.after = [] := List.isEmpty_iff.1 hempty
    rw [if_pos hempty, if_pos hempty, hnil, List.length_nil, State.advance_zero, State.peekChar_indexed]
    rfl
  · rw [if_neg hempty, if_neg hempty]
    cases kind.value? (kind.scan s.cursor.after) with
    | none => rfl
    | some v => rfl

/-! ### Combinators -/

theorem sequence {fs : List (IndexedState → Checked IndexedState)} {ps : List Parser} (hfs : List.Forall₂ Mirrors fs ps)
    (hps : ∀ p ∈ ps, p.Forward) (hs : s.Fits) :
    IndexedState.sequence fs s.indexed = .ok (Parser.runAll ps s).indexed := by
  induction hfs generalizing s with
  | nil => rfl
  | @cons f p fs ps hf _ ih =>
    obtain ⟨hp, hps⟩ := List.forall_mem_cons.1 hps
    unfold IndexedState.sequence
    rw [List.foldlM_cons, hf s hs, Checked.ok_bind]
    exact ih hps (hs.parse hp)

theorem sequenceOf {fs : List (IndexedState → Checked IndexedState)} {ps : List Parser} (hfs : List.Forall₂ Mirrors fs ps)
    (hps : ∀ p ∈ ps, p.Forward) : Mirrors (stamp (Parser.sequenceOf ps).label (IndexedState.sequence fs)) (.sequenceOf ps) :=
  of_run fun _ _ hs => sequence hfs hps hs

theorem choose (s : State) (trials : List State) :
    s.indexed.choose (trials.map State.indexed) = (Parser.choose s trials).indexed := by
  have hwinners : (trials.map State.indexed).filter (fun t => !t.failed) =
      (trials.filter fun t => !t.failed).map State.indexed := by
    simp [List.filter_map, Function.comp_def]
  have hfailures : (trials.map State.indexed).filterMap (fun t => t.error.map fun e => (t.name, e)) =
      trials.filterMap fun t => t.error.map fun e => (t.name, e) := by
    simp [List.filterMap_map, Function.comp_def, State.indexed]
  unfold IndexedState.choose Parser.choose
  rw [hwinners, hfailures]
  generalize trials.filter (fun t => !t.failed) = winners
  rcases winners with _ | ⟨t, _ | ⟨u, rest⟩⟩
  · rfl
  · rfl
  · have hnames : ((t :: u :: rest).map State.indexed).map IndexedState.name = (t :: u :: rest).map State.name :=
      List.map_map
    rw [← State.indexed_fail, ← hnames]
    rfl

theorem oneOf {fs : List (IndexedState → Checked IndexedState)} {ps : List Parser} (hfs : List.Forall₂ Mirrors fs ps) :
    Mirrors (stamp (Parser.oneOf ps).label (IndexedState.choice fs)) (.oneOf ps) := by
  refine of_run fun s _ hs => ?_
  have htrials : fs.mapM' (fun f => f s.indexed) = .ok ((ps.map fun p => p.parse s).map State.indexed) := by
    induction hfs with
    | nil => rfl
    | cons hf _ ih =>
      rw [List.mapM', hf s hs, Checked.ok_bind, ih]
      rfl
  unfold IndexedState.choice
  rw [htrials, Checked.ok_bind, choose]
  rfl

theorem optional (hf : Mirrors f p) : Mirrors (stamp (Parser.optional p).label (IndexedState.optional f)) (.optional p) := by
  refine of_run fun s _ hs => ?_
  unfold IndexedState.optional Parser.optional
  rw [hf s hs, Checked.ok_bind, State.failed_indexed]
  dsimp only
  split <;> rfl

theorem collect (hf : Mirrors f p) (keepEmpty : Bool) (hs : s.Fits) :
    IndexedState.collect f keepEmpty s.indexed = .ok (Parser.collect p keepEmpty s).indexed := by
  unfold IndexedState.collect Parser.collect
  rw [hf s hs, Checked.ok_bind, State.failed_indexed, State.stack_indexed, State.stack_indexed]
  dsimp only
  split
  · rfl
  · split
    · exact State.collectLast_indexed (Nat.sub_le _ _) _
    · rfl

theorem group (hf : Mirrors f p) : Mirrors (stamp (Parser.group p).label (IndexedState.collect f false)) (.group p) :=
  of_run fun _ _ hs => collect hf false hs

theorem list (hf : Mirrors f p) : Mirrors (stamp (Parser.list p).label (IndexedState.collect f true)) (.list p) :=
  of_run fun _ _ hs => collect hf true hs

theorem runTimes (hf : Mirrors f p) (hp : p.Forward) (n : Nat) (hs : s.Fits) :
    IndexedState.times f n s.indexed = .ok (Parser.runTimes p n s).indexed := by
  induction n generalizing s with
  | zero => rfl
  | succ n ih =>
    unfold IndexedState.times Parser.runTimes
    rw [hf s hs, Checked.ok_bind, State.failed_indexed]
    dsimp only
    split
    · rfl
    · exact ih (hs.parse hp)

theorem times (hf : Mirrors f p) (hp : p.Forward) (n : Nat) :
    Mirrors (stamp (Parser.times n p).label (IndexedState.times f n)) (.times n p) :=
  of_run fun _ _ hs => runTimes hf hp n hs

/-! ### Repetitions -/

/-- A round of the loop, for which there is room as long as there are characters to read. -/
theorem oneOrMore_round (hf : Mirrors f p) (hfailed : s.failed = false) (hs : s.Fits) (hend : s.cursor.atEnd = false)
    {room : Nat} (hroom : s.cursor.after.length ≤ room) (previous : IndexedState) :
    IndexedState.oneOrMore f room previous s.indexed =
      if !(p.parse s).failed && (p.parse s).cursor.index == s.cursor.index then .ok (p.parse s).indexed
      else IndexedState.oneOrMore f (room - 1) s.indexed (p.parse s).indexed := by
  have hpos := Cursor.length_pos hend
  have hnone : s.indexed.error = none := State.failed_eq_false_iff.1 hfailed
  obtain ⟨room, rfl⟩ : ∃ n, room = n + 1 := ⟨room - 1, by omega⟩
  conv_lhs => rw [IndexedState.oneOrMore.eq_def, hnone]
  dsimp only
  rw [State.atEnd_indexed, if_neg (ne_true_of_eq_false hend), hf s hs]
  rfl

/-- Each round but the last leaves fewer characters, so there is room for as many rounds as characters. -/
theorem runWhile (hf : Mirrors f p) (hp : p.Forward) (s : State) : ∀ room previous, s.failed = false → s.Fits →
    s.cursor.after.length ≤ room →
      IndexedState.oneOrMore f room previous s.indexed = .ok (Parser.runWhile p s).indexed := by
  fun_induction Parser.runWhile p s with
  | case1 s hend =>
    intro room previous hfailed hs hroom
    have hnone : s.indexed.error = none := State.failed_eq_false_iff.1 hfailed
    rw [IndexedState.oneOrMore.eq_def, hnone]
    dsimp only
    rw [State.atEnd_indexed, if_pos hend]
  | case2 s hend next e he =>
    intro room previous hfailed hs hroom
    have hstop : next.indexed.error = some e := he
    have hfail : next.failed = true := by simp [State.failed, he]
    rw [oneOrMore_round hf hfailed hs (Bool.of_not_eq_true hend) hroom, hfail, IndexedState.oneOrMore.eq_def, hstop]
    rfl
  | case3 s hend next hnone hmoved ih =>
    intro room previous hfailed hs hroom
    have hgoes : next.failed = false := State.failed_eq_false_iff.2 hnone
    have hplace : next.cursor.index ≠ s.cursor.index := (Parser.movedOn_iff hp s).1 hmoved
    have hless : next.cursor.after.length < s.cursor.after.length := hmoved
    rw [oneOrMore_round hf hfailed hs (Bool.of_not_eq_true hend) hroom, hgoes, beq_eq_false_iff_ne.2 hplace]
    exact ih (room - 1) s.indexed hgoes (hs.parse hp) (by omega)
  | case4 s hend next hnone hmoved =>
    intro room previous hfailed hs hroom
    have hgoes : next.failed = false := State.failed_eq_false_iff.2 hnone
    have hplace : next.cursor.index = s.cursor.index :=
      Decidable.byContradiction fun h => hmoved ((Parser.movedOn_iff hp s).2 h)
    rw [oneOrMore_round hf hfailed hs (Bool.of_not_eq_true hend) hroom, hgoes, hplace, beq_self_eq_true]
    rfl

theorem oneOrMore (hf : Mirrors f p) (hp : p.Forward) : Mirrors (stamp (Parser.oneOrMore p).label
    fun m => IndexedState.oneOrMore f IndexedState.maxCount m m) (.oneOrMore p) :=
  of_run fun s hfailed hs => runWhile hf hp s _ _ hfailed hs (length_le_maxCount hs)

theorem tillEnd_round (hf : Mirrors f p) (hs : s.Fits) (hend : s.cursor.atEnd = false) {room : Nat}
    (hroom : s.cursor.after.length ≤ room) : IndexedState.tillEnd f room s.indexed =
      if (p.parse s).failed then .ok (p.parse s).indexed
      else if (p.parse s).cursor.index = s.cursor.index then
        .ok ((p.parse s).fail (.noProgress (p.parse s).warning)).indexed
      else IndexedState.tillEnd f (room - 1) (p.parse s).indexed := by
  have hpos := Cursor.length_pos hend
  obtain ⟨room, rfl⟩ : ∃ n, room = n + 1 := ⟨room - 1, by omega⟩
  conv_lhs => rw [IndexedState.tillEnd.eq_def, State.atEnd_indexed, if_neg (ne_true_of_eq_false hend)]
  dsimp only
  rw [hf s hs]
  rfl

theorem runTillEnd (hf : Mirrors f p) (hp : p.Forward) (s : State) : ∀ room, s.Fits →
    s.cursor.after.length ≤ room →
      IndexedState.tillEnd f room s.indexed = .ok (Parser.runTillEnd p s).indexed := by
  fun_induction Parser.runTillEnd p s with
  | case1 s hend =>
    intro room hs hroom
    rw [IndexedState.tillEnd.eq_def, State.atEnd_indexed, if_pos hend]
    rfl
  | case2 s hend next hfail =>
    intro room hs hroom
    rw [tillEnd_round hf hs (Bool.of_not_eq_true hend) hroom, if_pos hfail]
  | case3 s hend next hfail hmoved ih =>
    intro room hs hroom
    have hplace : next.cursor.index ≠ s.cursor.index := (Parser.movedOn_iff hp s).1 hmoved
    have hless : next.cursor.after.length < s.cursor.after.length := hmoved
    rw [tillEnd_round hf hs (Bool.of_not_eq_true hend) hroom, if_neg hfail, if_neg hplace]
    exact ih (room - 1) (hs.parse hp) (by omega)
  | case4 s hend next hfail hmoved =>
    intro room hs hroom
    have hplace : next.cursor.index = s.cursor.index :=
      Decidable.byContradiction fun h => hmoved ((Parser.movedOn_iff hp s).2 h)
    rw [tillEnd_round hf hs (Bool.of_not_eq_true hend) hroom, if_neg hfail, if_pos hplace]

theorem tillEnd (hf : Mirrors f p) (hp : p.Forward) :
    Mirrors (stamp (Parser.tillEnd p).label (IndexedState.tillEnd f IndexedState.maxCount)) (.tillEnd p) :=
  of_run fun s _ hs => runTillEnd hf hp s _ hs (length_le_maxCount hs)

/-! ### Tables, records and actions -/

theorem mapTop_elsewhere (table : List (String × Value)) (s : State) (c : Cursor) :
    Parser.mapTop table { s with cursor := c } = { Parser.mapTop table s with cursor := c } := by
  unfold Parser.mapTop
  dsimp only
  split
  · split
    · rfl
    · rfl
  · rfl
  · rfl

theorem stringMap (table : List (String × Value)) :
    Mirrors (stamp (Parser.stringMap table).label (IndexedState.stringMap table)) (.stringMap table) := by
  have hkeys : List.Forall₂ Mirrors (table.map fun e => IndexedState.literal e.1 true)
      (table.map fun e => Parser.literal e.1 true) := by
    rw [List.forall₂_map_left_iff, List.forall₂_map_right_iff]
    exact List.forall₂_same.2 fun e _ => literal e.1 true
  refine of_run fun s _ hs => ?_
  unfold IndexedState.stringMap
  rw [oneOf hkeys s hs, Checked.ok_bind, State.failed_indexed]
  unfold Parser.stringMap
  dsimp only
  split
  · rfl
  · rw [State.indexed_apply (mapTop_elsewhere table)]
    rfl

theorem keyword (family : String) (tokens : List (String × String)) :
    Mirrors (stamp (Parser.keyword family tokens).label (IndexedState.keyword family tokens)) (.keyword family tokens) := by
  refine of_run fun s _ hs => ?_
  have hrun : (Parser.keyword family tokens).run s =
      (Parser.stringMap (tokens.map fun e => (e.1, .keyword ⟨family, e.2⟩))).parse s := rfl
  rw [hrun]
  exact stringMap _ s hs

theorem record (shape : Shape) (hf : Mirrors f p) : Mirrors (stamp (Parser.record shape p).label
    fun m => do
      let next ← f m
      next.assemble shape) (.record shape p) := by
  refine of_run fun s _ hs => ?_
  rw [hf s hs, Checked.ok_bind]
  exact State.assemble_indexed _ shape

theorem action (name : String) (g : Action) (hf : Mirrors f p) : Mirrors (stamp (Parser.action name p g).label
    fun m => do
      let next ← f m
      return if next.failed then next else next.apply fun s => s.act g) (.action name p g) := by
  refine of_run fun s _ hs => ?_
  rw [hf s hs, Checked.ok_bind, State.failed_indexed]
  unfold Parser.action
  dsimp only
  split
  · rfl
  · rfl

end Mirrors

/-! ## Sessions -/

namespace Session

def indexed (session : Session) : IndexedSession :=
  ⟨session.state.indexed, session.slots.map fun slot => (slot.1, slot.2.indexed)⟩

theorem indexed_ofState (s : State) : (Session.ofState s).indexed = .ofState s.indexed := rfl

theorem indexed_save (session : Session) (slot : String) :
    session.indexed.save slot = (session.save slot).indexed := rfl

theorem lookup_slots (slots : List (String × State)) (slot : String) :
    (slots.map fun entry => (entry.1, entry.2.indexed)).lookup slot = (slots.lookup slot).map State.indexed := by
  induction slots with
  | nil => rfl
  | cons entry slots ih =>
    rw [List.map_cons, List.lookup_cons, List.lookup_cons, ih]
    split <;> rfl

theorem indexed_load (session : Session) (slot : String) :
    session.indexed.load slot = (session.load slot).indexed := by
  unfold IndexedSession.load Session.load saved?
  show (match (session.slots.map fun entry => (entry.1, entry.2.indexed)).lookup slot with | some _ => _ | none => _) = _
  rw [lookup_slots]
  cases session.slots.lookup slot with
  | none => rfl
  | some s => rfl

/-- Updates agree if what they make of the state does. -/
theorem indexed_update {session : Session} {f : IndexedState → Checked IndexedState} {g : State → State}
    (h : f session.state.indexed = .ok (g session.state).indexed) :
    session.indexed.update f = .ok (session.update g).indexed := by
  show (f session.state.indexed >>= _) = _
  rw [h]
  rfl

/-- An update that leaves the cursor alone and does not look at it. -/
theorem indexed_update_apply (session : Session) {g : State → State}
    (h : ∀ s c, g { s with cursor := c } = { g s with cursor := c }) :
    session.indexed.update (fun m => .ok (m.apply g)) = .ok (session.update g).indexed :=
  indexed_update (congrArg Except.ok (State.indexed_apply h session.state))

end Session

theorem State.requireTop_elsewhere (type : ValueType) (message : String) (s : State) (c : Cursor) :
    { s with cursor := c }.requireTop type message = { s.requireTop type message with cursor := c } := by
  unfold State.requireTop
  split
  · rfl
  · rfl

mutual

/-- On a text that fits, nothing goes out of range in a parse, and its result is the right one. -/
theorem Grammar.mirrors : ∀ g : Grammar, Mirrors g.checked g.parser
  | .char c captured => by rw [Grammar.checked]; exact Mirrors.char c captured
  | .literal text captured => by rw [Grammar.checked]; exact Mirrors.literal text captured
  | .letter => by rw [Grammar.checked]; exact Mirrors.letter
  | .word => by rw [Grammar.checked]; exact Mirrors.word
  | .number kind => by rw [Grammar.checked]; exact Mirrors.number kind
  | .spaces n captured => by rw [Grammar.checked]; exact Mirrors.spaces n captured
  | .lineEnd => by rw [Grammar.checked]; exact Mirrors.lineEnd
  | .sequenceOf gs => by
    rw [Grammar.checked]
    exact Mirrors.sequenceOf (Grammar.all_mirror gs) (Grammar.forward_all gs)
  | .oneOf gs => by rw [Grammar.checked]; exact Mirrors.oneOf (Grammar.all_mirror gs)
  | .optional g => by rw [Grammar.checked]; exact Mirrors.optional g.mirrors
  | .group g => by rw [Grammar.checked]; exact Mirrors.group g.mirrors
  | .list g => by rw [Grammar.checked]; exact Mirrors.list g.mirrors
  | .times n g => by rw [Grammar.checked]; exact Mirrors.times g.mirrors g.forward n
  | .oneOrMore g => by rw [Grammar.checked]; exact Mirrors.oneOrMore g.mirrors g.forward
  | .tillEnd g => by rw [Grammar.checked]; exact Mirrors.tillEnd g.mirrors g.forward
  | .stringMap table => by rw [Grammar.checked]; exact Mirrors.stringMap table
  | .keyword family tokens => by rw [Grammar.checked]; exact Mirrors.keyword family tokens
  | .record shape g => by rw [Grammar.checked]; exact Mirrors.record shape g.mirrors
  | .action name g f => by rw [Grammar.checked]; exact Mirrors.action name f g.mirrors
  | .custom label steps => by
    rw [Grammar.checked]
    refine Mirrors.of_run fun s _ hs => ?_
    rw [← Session.indexed_ofState, Step.all_mirror steps (Session.From.ofState s) hs]
    rfl

theorem Grammar.all_mirror : ∀ gs : List Grammar, List.Forall₂ Mirrors (Grammar.allChecked gs) (Grammar.parsers gs)
  | [] => by rw [Grammar.allChecked, Grammar.parsers]; exact .nil
  | g :: gs => by rw [Grammar.allChecked, Grammar.parsers]; exact .cons g.mirrors (Grammar.all_mirror gs)

/-- On a text that fits, nothing goes out of range in a step of a session. -/
theorem Step.mirrors : ∀ (step : Step) {c : Cursor} {session : Session}, session.From c → c.Fits →
    step.checked session.indexed = .ok (step.run session).indexed
  | .parse g, _, session, h, hc => by
    rw [Step.checked, Step.run]
    exact Session.indexed_update (g.mirrors session.state (h.state.fits hc))
  | .parseOrKeep g _, _, session, h, hc => by
    have hs : session.state.Fits := h.state.fits hc
    rw [Step.checked, Step.run]
    show (g.checked session.state.indexed >>= _) = _
    rw [g.mirrors session.state hs, Checked.ok_bind, State.failed_indexed]
    split
    · rw [State.byteOffset_indexed (hs.parse g.forward)]
      rfl
    · rfl
  | .nextChar, _, session, h, hc => by
    rw [Step.checked, Step.run]
    exact Session.indexed_update (by rw [State.nextChar_indexed (h.state.fits hc)])
  | .nextChars n, _, session, h, hc => by
    rw [Step.checked, Step.run]
    exact Session.indexed_update (by rw [State.nextChars_indexed (h.state.fits hc)])
  | .advance n, _, session, h, hc => by
    rw [Step.checked, Step.run]
    exact Session.indexed_update (by rw [State.indexed_advance (h.state.fits hc)])
  | .push v, _, session, _, _ => by rw [Step.checked, Step.run]; exact session.indexed_update_apply fun _ _ => rfl
  | .popLast, _, session, _, _ => by rw [Step.checked, Step.run]; exact session.indexed_update_apply fun _ _ => rfl
  | .popFirst, _, session, _, _ => by rw [Step.checked, Step.run]; exact session.indexed_update_apply fun _ _ => rfl
  | .takeLast n, _, session, _, _ => by
    rw [Step.checked, Step.run]
    exact Session.indexed_update (by rw [State.takeLatest_indexed]; rfl)
  | .lookUp _, _, _, _, _ => by rw [Step.checked, Step.run]
  | .setContext .., _, session, _, _ => by
    rw [Step.checked, Step.run]
    exact session.indexed_update_apply fun _ _ => rfl
  | .removeContext _, _, session, _, _ => by
    rw [Step.checked, Step.run]
    exact session.indexed_update_apply fun _ _ => rfl
  | .replaceContext _, _, session, _, _ => by
    rw [Step.checked, Step.run]
    exact session.indexed_update_apply fun _ _ => rfl
  | .fail _, _, session, _, _ => by rw [Step.checked, Step.run]; exact session.indexed_update_apply fun _ _ => rfl
  | .requireTop type message, _, session, _, _ => by
    rw [Step.checked, Step.run]
    exact session.indexed_update_apply (State.requireTop_elsewhere type message)
  | .assemble shape, _, session, _, _ => by
    rw [Step.checked, Step.run]
    exact Session.indexed_update (session.state.assemble_indexed shape)
  | .save slot, _, session, _, _ => by rw [Step.checked, Step.run, session.indexed_save]
  | .load slot, _, session, _, _ => by rw [Step.checked, Step.run, session.indexed_load]
  | .observe _, _, _, _, _ => by rw [Step.checked, Step.run]

theorem Step.all_mirror : ∀ (steps : List Step) {c : Cursor} {session : Session}, session.From c → c.Fits →
    Step.allChecked steps session.indexed = .ok (Step.runAll steps session).indexed
  | [], _, _, _, _ => by rw [Step.allChecked, Step.runAll]
  | step :: steps, _, session, h, hc => by
    rw [Step.allChecked, Step.runAll, step.mirrors h hc, Checked.ok_bind]
    show (if (step.run session).state.failed then _ else _) = _
    split
    · rfl
    · exact Step.all_mirror steps (step.from_run h) hc

end

end StackParser
