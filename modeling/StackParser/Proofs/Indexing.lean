import StackParser.Proofs.Forward

/-!
# States with the place as an index

Here the input of a state is a sequence and the place in it a number. No such number is kept inside the text by its type,
sums and differences may leave the 64 bits of a number, and a part beyond the end of a sequence does not exist.

* `Fault`, `Checked` : what goes wrong out of range, and a result unless something does; `Checked.add`, `Checked.sub`,
  `Checked.cut` are the operations that can fail in this way;
* `IndexedState` : a state in this form, with the operations that parsers are made of;
* `State.indexed` : a state seen in this form, and `State.Fits` : its text is one that 64 bits can count;
* `State.indexed_advance`, `State.peek_indexed`, `State.remaining_indexed`, `State.byteOffset_indexed`, … : each operation
  agrees with the one on states, and nothing goes out of range.
-/

namespace StackParser

inductive Fault where
  /-- A part of a sequence that reaches beyond its end. -/
  | outside
  /-- A number below zero, or one that does not fit into 64 bits. -/
  | overflow
  deriving DecidableEq, Repr

/-- A result, unless something goes out of range on the way. -/
abbrev Checked (α : Type) : Type := Except Fault α

namespace Checked

def add (m n : Nat) : Checked Nat := if m + n < UInt64.size then .ok (m + n) else .error .overflow

def sub (m n : Nat) : Checked Nat := if n ≤ m then .ok (m - n) else .error .overflow

def cut {α : Type} (xs : List α) (n : Nat) : Checked (List α × List α) :=
  if n ≤ xs.length then .ok (xs.take n, xs.drop n) else .error .outside

/-- A sum that stops at the greatest number. -/
def saturating (m n : Nat) : Nat := min (m + n) (UInt64.size - 1)

theorem ok_bind {α β : Type} (a : α) (f : α → Checked β) : (Except.ok a >>= f) = f a := rfl

theorem add_eq {m n : Nat} (h : m + n < UInt64.size) : add m n = .ok (m + n) := if_pos h

theorem sub_eq {m n : Nat} (h : n ≤ m) : sub m n = .ok (m - n) := if_pos h

theorem cut_eq {α : Type} {xs : List α} {n : Nat} (h : n ≤ xs.length) : cut xs n = .ok (xs.take n, xs.drop n) :=
  if_pos h

theorem cut_append {α : Type} (xs ys : List α) : cut (xs ++ ys) xs.length = .ok (xs, ys) := by
  rw [cut_eq (by simp), List.take_left, List.drop_left]

end Checked

/-- A state whose place is the number of characters before it, or would be if it lies beyond the end. -/
structure IndexedState where
  input : List Char
  index : Nat
  stack : List Value
  context : Context
  name : String
  error : Option ParseError
  warning : Option ParseError

namespace IndexedState

/-! ## Input -/

def atEnd (m : IndexedState) : Bool := !decide (m.index < m.input.length)

def remaining (m : IndexedState) : Checked (List Char) := do
  let (_, rest) ← Checked.cut m.input m.index
  return rest

def byteOffset (m : IndexedState) : Checked Nat := do
  let (before, _) ← Checked.cut m.input m.index
  before.foldlM (fun n c => Checked.add n c.utf8Size) 0

def peekChar (m : IndexedState) : Option Char := m.input[m.index]?

/-- The next `n` characters, if the place behind them is a number and not beyond the end. -/
def peek (m : IndexedState) (n : Nat) : Option (List Char) := do
  let stop ← (Checked.add m.index n).toOption
  if stop ≤ m.input.length then some ((m.input.take stop).drop m.index) else none

def advance (m : IndexedState) (n : Nat) : IndexedState :=
  { m with index := min (Checked.saturating m.index n) m.input.length }

def nextChar (m : IndexedState) : IndexedState × Option Char := (m.advance 1, m.peekChar)

/-- Moves past the next `n` characters, or past one if fewer remain. -/
def nextChars (m : IndexedState) (n : Nat) : IndexedState × Option (List Char) :=
  match m.peek n with
  | some cs => (m.advance n, some cs)
  | none => (m.advance 1, none)

/-! ## What is not the input -/

def failed (m : IndexedState) : Bool := m.error.isSome

/-- What `f` makes of everything but the input. -/
def apply (m : IndexedState) (f : State → State) : IndexedState :=
  let s := f ⟨default, m.stack, m.context, m.name, m.error, m.warning⟩
  { m with stack := s.stack, context := s.context, name := s.name, error := s.error, warning := s.warning }

def fail (m : IndexedState) (e : ParseError) : IndexedState := m.apply fun s => s.fail e

def push (m : IndexedState) (v : Value) : IndexedState := m.apply fun s => s.push v

def takeLatest (m : IndexedState) (n : Nat) : Checked (IndexedState × Option (List Value)) := do
  if m.stack.length < n then
    return (m, none)
  let below ← Checked.sub m.stack.length n
  let (kept, taken) ← Checked.cut m.stack below
  return ({ m with stack := kept }, some taken)

def collectLast (m : IndexedState) (n : Nat) (f : List Value → Value) : Checked IndexedState := do
  let (next, taken) ← m.takeLatest n
  return next.push (f (taken.getD []))

def misfit? (m : IndexedState) (shape : Shape) (fields : List Field) : Checked (Option ParseError) := do
  if m.stack.length < fields.length then
    return some (.arity shape.name fields.length m.stack.length)
  let below ← Checked.sub m.stack.length fields.length
  return shape.mistyped? fields (m.stack.drop below)

def assemble (m : IndexedState) (shape : Shape) : Checked IndexedState := do
  if m.failed then
    return m
  match ← m.misfit? shape shape.fields with
  | none => m.collectLast shape.fields.length fun vs => .record shape.name (Shape.fillAll shape.fields vs)
  | some e =>
    if shape.mandatory.length = shape.fields.length then
      return m.fail e
    match ← m.misfit? shape shape.mandatory with
    | none => m.collectLast shape.mandatory.length fun vs => .record shape.name (Shape.fillMandatory shape.fields vs)
    | some _ => return m.fail e

end IndexedState

/-! ## States in this form -/

/-- The text has no more bytes than 64 bits can count. -/
def Cursor.Fits (c : Cursor) : Prop := c.text.utf8ByteSize < UInt64.size

theorem utf8ByteSize_ofList_cons (c : Char) (cs : List Char) :
    (String.ofList (c :: cs)).utf8ByteSize = c.utf8Size + (String.ofList cs).utf8ByteSize := by
  simp [String.ofList_cons]

/-- Every character has a byte. -/
theorem length_le_utf8ByteSize (cs : List Char) : cs.length ≤ (String.ofList cs).utf8ByteSize := by
  induction cs with
  | nil => simp
  | cons c cs ih =>
    have := c.utf8Size_pos
    rw [utf8ByteSize_ofList_cons, List.length_cons]
    omega

theorem Cursor.Fits.size_lt {c : Cursor} (h : c.Fits) : c.size < UInt64.size := by
  rw [← c.length_chars]
  exact Nat.lt_of_le_of_lt (length_le_utf8ByteSize c.chars) h

theorem Cursor.Reaches.fits {c d : Cursor} (h : c.Reaches d) (hc : c.Fits) : d.Fits := by
  rw [Cursor.Fits, Cursor.text, h.chars_eq]
  exact hc

namespace State

def indexed (s : State) : IndexedState :=
  ⟨s.cursor.chars, s.cursor.index, s.stack, s.context, s.name, s.error, s.warning⟩

def Fits (s : State) : Prop := s.cursor.Fits

variable {s : State}

theorem Fits.advance (h : s.Fits) (n : Nat) : (s.advance n).Fits := Cursor.Reaches.fits ⟨n, rfl⟩ h

theorem Fits.parse (h : s.Fits) {p : Parser} (hp : p.Forward) : (p.parse s).Fits := (hp s).fits h

@[simp] theorem stack_indexed (s : State) : s.indexed.stack = s.stack := rfl

@[simp] theorem failed_indexed (s : State) : s.indexed.failed = s.failed := rfl

theorem length_indexed (s : State) : s.indexed.input.length = s.indexed.index + s.cursor.after.length := by
  show s.cursor.chars.length = s.cursor.index + _
  rw [Cursor.length_chars, Cursor.size_eq]

theorem input_indexed (s : State) : s.indexed.input = s.cursor.before.reverse ++ s.cursor.after := rfl

theorem Fits.length_lt (h : s.Fits) : s.indexed.index + s.cursor.after.length < UInt64.size := by
  rw [← length_indexed]
  show s.cursor.chars.length < _
  rw [Cursor.length_chars]
  exact Cursor.Fits.size_lt h

/-- The index cuts the input where the cursor does. -/
theorem cut_indexed (s : State) :
    Checked.cut s.indexed.input s.indexed.index = .ok (s.cursor.before.reverse, s.cursor.after) := by
  have h := Checked.cut_append s.cursor.before.reverse s.cursor.after
  rwa [List.length_reverse] at h

theorem remaining_indexed (s : State) : s.indexed.remaining = .ok s.cursor.after := by
  rw [IndexedState.remaining, cut_indexed]
  rfl

/-- Sums of sizes stay in range if the last one does. -/
theorem sum_utf8Size (cs : List Char) (n : Nat) (h : n + (String.ofList cs).utf8ByteSize < UInt64.size) :
    cs.foldlM (fun n c => Checked.add n c.utf8Size) n = .ok (n + (String.ofList cs).utf8ByteSize) := by
  induction cs generalizing n with
  | nil => simp [pure, Except.pure]
  | cons c cs ih =>
    rw [utf8ByteSize_ofList_cons] at h ⊢
    rw [List.foldlM_cons, Checked.add_eq (by omega), ← Nat.add_assoc]
    exact ih (n + c.utf8Size) (by omega)

theorem byteOffset_indexed (h : s.Fits) : s.indexed.byteOffset = .ok s.cursor.byteOffset := by
  have htext : s.cursor.text = String.ofList s.cursor.before.reverse ++ String.ofList s.cursor.after := String.ofList_append
  have hbytes : (String.ofList s.cursor.before.reverse).utf8ByteSize < UInt64.size := by
    have hall : s.cursor.text.utf8ByteSize < UInt64.size := h
    rw [htext, String.utf8ByteSize_append] at hall
    omega
  rw [IndexedState.byteOffset, cut_indexed]
  show s.cursor.before.reverse.foldlM _ 0 = _
  rw [sum_utf8Size _ 0 (by omega), Nat.zero_add]
  rfl

theorem peekChar_indexed (s : State) : s.indexed.peekChar = s.cursor.peekChar := by
  have hindex : s.indexed.index = s.cursor.before.reverse.length := List.length_reverse.symm
  rw [IndexedState.peekChar, input_indexed, hindex, List.getElem?_append_right (Nat.le_refl _), Nat.sub_self,
    ← List.head?_eq_getElem?]
  rfl

theorem atEnd_indexed (s : State) : s.indexed.atEnd = s.cursor.atEnd := by
  rw [IndexedState.atEnd, length_indexed, Cursor.atEnd]
  cases s.cursor.after <;> simp

theorem peek_indexed (h : s.Fits) (n : Nat) : s.indexed.peek n = s.cursor.peek n := by
  have hlength := h.length_lt
  rw [IndexedState.peek, Cursor.peek_eq, length_indexed]
  by_cases hn : n ≤ s.cursor.after.length
  · have hnext : (s.indexed.input.take (s.indexed.index + n)).drop s.indexed.index = s.cursor.after.take n := by
      have hindex : s.indexed.index = s.cursor.before.reverse.length := List.length_reverse.symm
      rw [List.drop_take, input_indexed, hindex, List.drop_left, Nat.add_sub_cancel_left]
    rw [Checked.add_eq (by omega), if_pos hn]
    show (if s.indexed.index + n ≤ _ then _ else _) = _
    rw [if_pos (by omega), hnext]
  · rw [if_neg hn]
    by_cases hsum : s.indexed.index + n < UInt64.size
    · rw [Checked.add_eq hsum]
      exact if_neg (by omega)
    · rw [Checked.add, if_neg hsum]
      rfl

theorem indexed_advance (h : s.Fits) (n : Nat) : s.indexed.advance n = (s.advance n).indexed := by
  have hlength := h.length_lt
  have hindex : min (Checked.saturating s.indexed.index n) s.indexed.input.length = (s.advance n).indexed.index := by
    show _ = (s.cursor.advance n).index
    rw [Cursor.index_advance, Checked.saturating, length_indexed]
    show min (min (s.cursor.index + n) (UInt64.size - 1)) (s.cursor.index + _) = _
    have hbound : s.cursor.index + s.cursor.after.length < UInt64.size := hlength
    omega
  rw [IndexedState.advance, hindex]
  simp [indexed, advance]

theorem nextChar_indexed (h : s.Fits) : s.indexed.nextChar = ((s.advance 1).indexed, s.cursor.peekChar) := by
  rw [IndexedState.nextChar, indexed_advance h, peekChar_indexed]

theorem nextChars_indexed (h : s.Fits) (n : Nat) :
    s.indexed.nextChars n = ((s.skip n).indexed, s.cursor.peek n) := by
  rw [IndexedState.nextChars, peek_indexed h, skip]
  cases s.cursor.peek n with
  | none => simp [indexed_advance h]
  | some cs => simp [indexed_advance h]

/-! ### What is not the input -/

/-- An operation that leaves the cursor alone and does not look at it. -/
theorem indexed_apply {f : State → State} (h : ∀ s c, f { s with cursor := c } = { f s with cursor := c }) (s : State) :
    s.indexed.apply f = (f s).indexed := by
  have hcursor : (f s).cursor = s.cursor := by
    have := congrArg State.cursor (h s s.cursor)
    exact this
  have hdefault : f ⟨default, s.stack, s.context, s.name, s.error, s.warning⟩ = { f s with cursor := default } :=
    h s default
  unfold IndexedState.apply indexed
  dsimp only
  rw [hdefault, hcursor]

theorem indexed_fail (s : State) (e : ParseError) : s.indexed.fail e = (s.fail e).indexed := rfl

theorem takeLatest_indexed (s : State) (n : Nat) :
    s.indexed.takeLatest n = .ok ((s.dropLatest n).indexed, s.latest? n) := by
  unfold IndexedState.takeLatest dropLatest latest?
  rw [stack_indexed]
  by_cases hn : n ≤ s.stack.length
  · rw [if_neg (Nat.not_lt.2 hn), if_pos hn, if_pos hn, Checked.sub_eq hn, Checked.ok_bind,
      Checked.cut_eq (Nat.sub_le _ _)]
    rfl
  · rw [if_pos (Nat.not_le.1 hn), if_neg hn, if_neg hn]
    rfl

theorem collectLast_indexed {n : Nat} (hn : n ≤ s.stack.length) (f : List Value → Value) :
    s.indexed.collectLast n f = .ok (s.collectLast n f).indexed := by
  rw [IndexedState.collectLast, takeLatest_indexed, dropLatest, latest?, if_pos hn, if_pos hn]
  rfl

theorem misfit?_indexed (s : State) (shape : Shape) (fields : List Field) :
    s.indexed.misfit? shape fields = .ok (shape.misfit? fields s.stack) := by
  unfold IndexedState.misfit? Shape.misfit?
  rw [stack_indexed]
  by_cases h : s.stack.length < fields.length
  · rw [if_pos h, if_pos h]
    rfl
  · rw [if_neg h, if_neg h, Checked.sub_eq (Nat.not_lt.1 h)]
    rfl

/-- Values that fit are there to be taken. -/
theorem length_le_of_misfit? {shape : Shape} {fields : List Field} {stack : List Value}
    (h : shape.misfit? fields stack = none) : fields.length ≤ stack.length := by
  unfold Shape.misfit? at h
  split at h
  · exact nomatch h
  · omega

theorem assemble_indexed (s : State) (shape : Shape) : s.indexed.assemble shape = .ok (shape.assemble s).indexed := by
  unfold IndexedState.assemble Shape.assemble
  rw [failed_indexed]
  by_cases hs : s.failed = true
  · rw [if_pos hs, if_pos hs]
    rfl
  rw [if_neg hs, if_neg hs, misfit?_indexed, Checked.ok_bind]
  cases hall : shape.misfit? shape.fields s.stack with
  | none => exact collectLast_indexed (length_le_of_misfit? hall) _
  | some e =>
    dsimp only
    by_cases hcount : shape.mandatory.length = shape.fields.length
    · rw [if_pos hcount, if_pos hcount]
      rfl
    rw [if_neg hcount, if_neg hcount, misfit?_indexed, Checked.ok_bind]
    cases hmandatory : shape.misfit? shape.mandatory s.stack with
    | none => exact collectLast_indexed (length_le_of_misfit? hmandatory) _
    | some _ => rfl

end State

end StackParser
