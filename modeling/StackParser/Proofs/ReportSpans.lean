import StackParser.Grammar.Result
import StackParser.Proofs.Rejections
import StackParser.Proofs.SessionBounds

/-!
# What a report points at

* `Cursor.here` : the character at a place, as a text that is empty at the end; `Cursor.text_eq_here`;
* `Cursor.extract_text` : its bytes are those of the text from the place on. `Cursor.Reaches.byteOffset_le` : a later place
  has no fewer bytes before it;
* `Report.PointsAt i` : a report points at the bytes of the character `i` of its text;
* `Grammar.report_points_at_rejected` : what a parse comes to, and what its report points at.
-/

namespace StackParser

theorem extract_toByteArray (a b c : String) :
    (a ++ b ++ c).toByteArray.extract a.utf8ByteSize (a.utf8ByteSize + b.utf8ByteSize) = b.toByteArray := by
  rw [String.toByteArray_append, String.toByteArray_append, ByteArray.append_assoc]
  have hbehind := ByteArray.extract_append_size_add (a := a.toByteArray) (b := b.toByteArray ++ c.toByteArray) (i := 0)
    (j := b.utf8ByteSize)
  exact hbehind.trans (ByteArray.extract_append_eq_left rfl)

namespace Cursor

variable {c d : Cursor}

/-- The character at the place, or nothing at the end of the text. -/
def here (c : Cursor) : String := String.ofList c.peekChar.toList

theorem text_eq_here (c : Cursor) :
    c.text = String.ofList c.before.reverse ++ c.here ++ String.ofList c.after.tail := by
  rw [text, chars, here, peekChar, ← String.ofList_append, ← String.ofList_append, List.append_assoc]
  cases c.after <;> rfl

theorem utf8ByteSize_here (c : Cursor) : c.here.utf8ByteSize = (c.peekChar.map Char.utf8Size).getD 0 := by
  unfold here
  cases c.peekChar with
  | none => rfl
  | some x =>
    rw [Option.toList_some, ← String.singleton_eq_ofList, String.utf8ByteSize_singleton]
    rfl

theorem utf8ByteSize_here_eq_zero_iff (c : Cursor) : c.here.utf8ByteSize = 0 ↔ c.index = c.size := by
  rw [String.utf8ByteSize_eq_zero_iff, here, String.ofList_eq_empty_iff, Option.toList_eq_nil_iff, peekChar,
    List.head?_eq_none_iff, size_eq, ← List.length_eq_zero_iff]
  omega

theorem extract_text (c : Cursor) :
    c.text.toByteArray.extract c.byteOffset (c.byteOffset + c.here.utf8ByteSize) = c.here.toByteArray := by
  rw [text_eq_here]
  exact extract_toByteArray _ _ _

theorem byteOffset_add_le (c : Cursor) : c.byteOffset + c.here.utf8ByteSize ≤ c.text.utf8ByteSize := by
  rw [text_eq_here, String.utf8ByteSize_append, String.utf8ByteSize_append]
  exact Nat.le_add_right _ _

theorem isValid_byteOffset (c : Cursor) : (⟨c.byteOffset⟩ : String.Pos.Raw).IsValid c.text :=
  String.Pos.Raw.isValid_ofList.2 ⟨c.index, c.byteOffset_eq⟩

theorem Reaches.byteOffset_le (h : c.Reaches d) : c.byteOffset ≤ d.byteOffset := by
  obtain ⟨n, rfl⟩ := h
  rw [byteOffset, byteOffset, Cursor.advance, List.reverse_append, String.ofList_append, String.utf8ByteSize_append]
  exact Nat.le_add_right _ _

theorem Reaches.text_eq (h : c.Reaches d) : d.text = c.text := by
  rw [text, text, h.chars_eq]

end Cursor

namespace Report

/-- The report points at the bytes of the character `i` of its text, and behind the last one if there is none. -/
structure PointsAt (r : Report) (i : Nat) : Prop where
  offset_eq : r.offset = (String.ofList (r.text.toList.take i)).utf8ByteSize
  /-- The first byte of a character, or the end. -/
  isValid : (⟨r.offset⟩ : String.Pos.Raw).IsValid r.text
  le_size : r.offset + r.length ≤ r.text.utf8ByteSize
  bytes : r.text.toUTF8.extract r.offset (r.offset + r.length) = (String.ofList r.text.toList[i]?.toList).toUTF8
  length_eq_zero_iff : r.length = 0 ↔ i = r.text.length

theorem PointsAt.length_eq {r : Report} {i : Nat} (h : r.PointsAt i) :
    r.length = (String.ofList r.text.toList[i]?.toList).utf8ByteSize := by
  have hsize := congrArg ByteArray.size h.bytes
  rw [ByteArray.size_extract, String.toUTF8_eq_toByteArray, String.size_toByteArray, Nat.min_eq_left h.le_size,
    Nat.add_sub_cancel_left] at hsize
  exact hsize

variable {s : State} {source : String}

theorem ofState?_eq_none_iff : ofState? s source = none ↔ s.failed = false := by
  rw [ofState?, Option.map_eq_none_iff, State.failed_eq_false_iff]

/-- There is a report on a failed state. It points at the character where the state stands. -/
theorem exists_ofState? (hs : s.failed = true) : ∃ r, ofState? s source = some r ∧ s.error = some r.error ∧
    r.label = s.name ∧ r.source = source ∧ r.text = s.cursor.text ∧ r.offset = s.cursor.byteOffset ∧
    r.PointsAt s.cursor.index := by
  obtain ⟨e, he⟩ := Option.isSome_iff_exists.1 hs
  refine ⟨_, by rw [ofState?, he, Option.map_some], he, rfl, rfl, rfl, rfl, ?_⟩
  have hchars : s.cursor.text.toList = s.cursor.chars := String.toList_ofList
  have hhere : String.ofList s.cursor.chars[s.cursor.index]?.toList = s.cursor.here := by
    rw [← Cursor.peekChar_eq]
    rfl
  constructor <;> dsimp only
  · rw [hchars, s.cursor.byteOffset_eq]
  · exact s.cursor.isValid_byteOffset
  · rw [← Cursor.utf8ByteSize_here]
    exact s.cursor.byteOffset_add_le
  · rw [← Cursor.utf8ByteSize_here, hchars, hhere]
    exact s.cursor.extract_text
  · rw [← Cursor.utf8ByteSize_here, Cursor.utf8ByteSize_here_eq_zero_iff, ← String.length_toList, hchars,
      Cursor.length_chars]

end Report

namespace Grammar

variable {g : Grammar} {s : State} {source : String}

theorem parseState_of_success (h : (g.parse s).failed = false) : g.parseState s source = .ok (g.parse s) := by
  rw [parseState, Report.ofState?_eq_none_iff.2 h]

theorem parseState_of_report {r : Report} (h : Report.ofState? (g.parse s) source = some r) :
    g.parseState s source = .error r := by
  rw [parseState, h]

/-- A parse comes to its state if that has not failed, and else to a report on it. The report points at the character where the
failed state stands, which is not before the place where the parse began, and names the grammar. Parsing a whole text comes
to the stack of the state, or to the same report. -/
theorem report_points_at_rejected (g : Grammar) (s : State) (source : String) :
    ((g.parse s).failed = false → g.parseState s source = .ok (g.parse s)) ∧
    ((g.parse s).failed = true → ∃ r, g.parseState s source = .error r ∧ (g.parse s).error = some r.error ∧
      r.label = g.label ∧ r.source = source ∧ r.text = s.cursor.text ∧ r.PointsAt (g.parse s).cursor.index ∧
      s.cursor.byteOffset ≤ r.offset) ∧
    ∀ input, ((g.run input).failed = false → g.parseAll input source = .ok (g.run input).stack) ∧
      ((g.run input).failed = true →
        ∃ r, g.parseState (.start input) source = .error r ∧ g.parseAll input source = .error r) := by
  have hreaches : s.cursor.Reaches (g.parse s).cursor := g.forward s
  refine ⟨parseState_of_success, fun h => ?_, fun input => ⟨fun h => ?_, fun h => ?_⟩⟩
  · obtain ⟨r, hr, herror, hlabel, hsource, htext, hoffset, hpoints⟩ := Report.exists_ofState? h
    refine ⟨r, parseState_of_report hr, herror, hlabel, hsource, htext.trans hreaches.text_eq, hpoints, ?_⟩
    rw [hoffset]
    exact hreaches.byteOffset_le
  · rw [parseAll, parseState_of_success h]
    rfl
  · obtain ⟨r, hr, -⟩ := Report.exists_ofState? h
    refine ⟨r, parseState_of_report hr, ?_⟩
    rw [parseAll, parseState_of_report hr]
    rfl

/-- Two bytes are passed, three are read, and four are rejected. -/
theorem report_points_at_rejected_wide :
    let g := sequenceOf [.char '日' true, .number .int]
    let s := (State.start "é日😀").advance 1
    (g.parse s).failed = true ∧ (g.run "日7").failed = false ∧ (g.run "日").failed = true ∧
    (∃ r, g.parseState s "wide" = .error r ∧ r.label = "sequence_of(char(日), number(int))" ∧ r.text = "é日😀" ∧
      r.offset = 5 ∧ r.length = 4) ∧
    g.parseAll "日7" "wide" = .ok [.char '日', .int 7] ∧
    ∃ r, g.parseAll "日" "wide" = .error r := by
  intro g s
  have hfailed : (g.parse s).failed = true := by decide +kernel
  have hsuccess : (g.run "日7").failed = false := by decide +kernel
  have hshort : (g.run "日").failed = true := by decide +kernel
  obtain ⟨-, hreport, hall⟩ := report_points_at_rejected g s "wide"
  obtain ⟨r, hr, -, hlabel, -, htext, hpoints, -⟩ := hreport hfailed
  have hindex : (g.parse s).cursor.index = 2 := by decide +kernel
  have hwide : r.text = "é日😀" := htext
  refine ⟨hfailed, hsuccess, hshort, ⟨r, hr, hlabel, hwide, ?_, ?_⟩, (hall _).1 hsuccess, ?_⟩
  · rw [hpoints.offset_eq, hwide, hindex]
    decide +kernel
  · rw [hpoints.length_eq, hwide, hindex]
    decide +kernel
  · obtain ⟨r, -, hr⟩ := (hall _).2 hshort
    exact ⟨r, hr⟩

end Grammar

end StackParser
