import StackParser.Proofs.IndexedParsing

/-!
# A session stays within its text

* `Session.after` : a session after some steps. It goes on after a failure, as a custom parser does not;
* `Cursor.take_index`, `Cursor.byteOffset_eq` : what a place says of the characters before it;
* `Session.from_after`, `Session.mirrors_after` : what one step keeps, any number of steps keep;
* `Session.within_text` : after any steps the place is one of the text, all that can be asked of it fits together, and the same
  steps on states with an index go through without a fault.
-/

namespace StackParser

/-- The session after these steps, whether or not its state has failed in between. -/
def Session.after (steps : List Step) (session : Session) : Session :=
  steps.foldl (fun session step => step.run session) session

def IndexedSession.after (steps : List Step) (session : IndexedSession) : Checked IndexedSession :=
  steps.foldlM (fun session step => step.checked session) session

def IndexedState.start (input : String) : IndexedState := ⟨input.toList, 0, [], .empty, "", none, none⟩

namespace Cursor

variable {c d : Cursor}

theorem take_index (c : Cursor) : c.chars.take c.index = c.before.reverse := by
  have h : c.index = c.before.reverse.length := List.length_reverse.symm
  rw [chars, h, List.take_left]

theorem byteOffset_eq (c : Cursor) : c.byteOffset = (String.ofList (c.chars.take c.index)).utf8ByteSize := by
  rw [take_index]
  rfl

theorem text_eq (c : Cursor) : c.text = String.ofList (c.chars.take c.index) ++ c.remaining := by
  rw [take_index, remaining, ← String.ofList_append]
  rfl

theorem remaining_eq_empty_iff (c : Cursor) : c.remaining = "" ↔ c.atEnd = true := by
  rw [atEnd_iff, remaining, String.ofList_eq_empty_iff]

theorem index_le_size (c : Cursor) : c.index ≤ c.size := by
  rw [size_eq]
  exact Nat.le_add_right _ _

end Cursor

namespace Session

variable {c : Cursor} {session : Session}

theorem from_after (h : session.From c) (steps : List Step) : (session.after steps).From c := by
  induction steps generalizing session with
  | nil => exact h
  | cons step steps ih => exact ih (step.from_run h)

theorem mirrors_after (h : session.From c) (hc : c.Fits) (steps : List Step) :
    session.indexed.after steps = .ok (session.after steps).indexed := by
  induction steps generalizing session with
  | nil => rfl
  | cons step steps ih =>
    rw [IndexedSession.after, List.foldlM_cons, step.mirrors h hc, Checked.ok_bind]
    exact ih (step.from_run h)

/-- Let any steps be taken from the beginning of a text, with any counts. The input is then the same text. The place is not
beyond its end, and the characters before it and what is left make up the text. The byte offset is the size of those
before it, the text is read exactly if nothing is left, and a look ahead finds the next characters exactly if there are as
many. If the bytes of the text can be counted with 64 bits, the same steps on states with an index come to the same states,
and neither they nor the questions about the place go out of range. -/
theorem within_text (text : String) (steps : List Step) :
    let session := (Session.ofState (.start text)).after steps
    let c := session.state.cursor
    c.text = text ∧ c.index ≤ text.length ∧
    String.ofList (text.toList.take c.index) ++ c.remaining = text ∧
    c.byteOffset = (String.ofList (text.toList.take c.index)).utf8ByteSize ∧
    (c.atEnd = true ↔ c.remaining = "") ∧
    (∀ n, c.peek n = if n ≤ c.remaining.length then some (c.remaining.toList.take n) else none) ∧
    (text.utf8ByteSize < UInt64.size →
      ∃ indexed, (IndexedSession.ofState (.start text)).after steps = .ok indexed ∧ indexed = session.indexed ∧
        indexed.state.input = text.toList ∧ indexed.state.index ≤ text.length ∧
        indexed.state.remaining = .ok c.remaining.toList ∧ indexed.state.byteOffset = .ok c.byteOffset ∧
        indexed.state.atEnd = c.atEnd ∧ ∀ n, indexed.state.peek n = c.peek n) := by
  intro session c
  have hfrom : session.From (.ofString text) := from_after (.ofState (.start text)) steps
  have hchars : c.chars = text.toList := hfrom.state.chars_eq
  have htext : c.text = text := by rw [Cursor.text, hchars, String.ofList_toList]
  have hindex : c.index ≤ text.length := by
    rw [← String.length_toList, ← hchars, Cursor.length_chars]
    exact c.index_le_size
  refine ⟨htext, hindex, ?_, ?_, c.remaining_eq_empty_iff.symm, fun n => ?_, fun hsize => ?_⟩
  · rw [← hchars, ← c.text_eq, htext]
  · rw [← hchars, c.byteOffset_eq]
  · rw [Cursor.peek_eq, Cursor.remaining, String.toList_ofList, String.length_ofList]
  · have hfits : (Cursor.ofString text).Fits := by
      rw [Cursor.Fits, Cursor.text, Cursor.ofString, Cursor.chars_ofList, String.ofList_toList]
      exact hsize
    have hs : session.state.Fits := hfrom.state.fits hfits
    refine ⟨session.indexed, mirrors_after (.ofState (.start text)) hfits steps, rfl, hchars, hindex, ?_,
      State.byteOffset_indexed hs, State.atEnd_indexed _, State.peek_indexed hs⟩
    rw [Cursor.remaining, String.toList_ofList]
    exact State.remaining_indexed session.state

/-- Two bytes, one and three. Nine characters are asked for and one is passed, a number is read, the place is moved as far as
possible, the state fails, and a snapshot takes it back to the second character. -/
theorem within_text_loaded :
    let text := "é1日"
    let steps := [Step.nextChars 9, .parse .integer, .save "behind", .advance 18446744073709551615, .fail (.custom "no"),
      .parse .letter, .takeLast 18446744073709551615, .load "behind"]
    let session := (Session.ofState (.start text)).after steps
    text.utf8ByteSize < UInt64.size ∧
    session.state.cursor.index = 2 ∧ session.state.cursor.byteOffset = 3 ∧ session.state.cursor.text = text ∧
    ∃ indexed, (IndexedSession.ofState (.start text)).after steps = .ok indexed ∧ indexed.state.index = 2 ∧
      indexed.state.byteOffset = .ok 3 ∧ indexed.state.peek 18446744073709551615 = none := by
  intro text steps session
  obtain ⟨htext, -, -, -, -, hpeek, hindexed⟩ := within_text text steps
  have hsize : text.utf8ByteSize < UInt64.size := by decide +kernel
  have hindex : session.state.cursor.index = 2 := by decide +kernel
  have hbytes : session.state.cursor.byteOffset = 3 := by decide +kernel
  obtain ⟨indexed, hafter, rfl, -, -, -, hoffset, -, hlook⟩ := hindexed hsize
  have hshort : ¬ 18446744073709551615 ≤ session.state.cursor.remaining.length := by decide +kernel
  refine ⟨hsize, hindex, hbytes, htext, _, hafter, hindex, hoffset.trans (congrArg Except.ok hbytes), ?_⟩
  rw [hlook, hpeek, if_neg hshort]

end Session

end StackParser
