import StackParser.Proofs.MaximalMunch
import StackParser.Proofs.Reading

/-!
# What a single unit rejects

* `Grammar.isPrimitive` : the parsers of single units;
* `Grammar.slip` : how far behind its beginning a rejection ends: one character for a carriage return without its line feed, and
  else none;
* `Grammar.Rejects cs i j g e` : at the place `i` of the text `cs` there is nothing for `g`, which stands at `j` then, and `e`
  tells what there is at `j` instead;
* `Grammar.parse_of_rejected` : a rejection changes nothing but the error, and tells what stands where it ends.
-/

namespace StackParser

namespace Cursor

theorem drop_index (c : Cursor) : c.chars.drop c.index = c.after := by
  have h : c.index = c.before.reverse.length := List.length_reverse.symm
  rw [chars, h, List.drop_left]

theorem getElem?_index (c : Cursor) (n : Nat) : c.chars[c.index + n]? = c.after[n]? := by
  rw [← drop_index, List.getElem?_drop]

theorem peekChar_eq (c : Cursor) : c.peekChar = c.chars[c.index]? := by
  rw [← c.index.add_zero, getElem?_index, peekChar, List.head?_eq_getElem?]

end Cursor

/-! ## Rejections of each parser -/

namespace Parser

variable {s : State}

theorem char_run_of_failed {c : Char} {captured : Bool} (hs : s.failed = false)
    (h : ((char c captured).run s).failed = true) : s.cursor.peekChar ≠ some c ∧
      (char c captured).run s = s.fail (.mismatch ("'" ++ String.singleton c ++ "'") (foundText s.cursor.peekChar)) := by
  unfold char at h ⊢
  dsimp only at h ⊢
  split at h
  · cases captured <;> exact absurd h (ne_true_of_eq_false hs)
  · rename_i hpeek
    exact ⟨hpeek, if_neg hpeek⟩

theorem fixedText_of_failed {cs : List Char} {captured : Bool} (hs : s.failed = false)
    (h : (fixedText cs captured s).failed = true) : ¬ cs <+: s.cursor.after ∧ fixedText cs captured s =
      s.fail (.mismatch ("'" ++ String.ofList cs ++ "'") (String.ofList (s.cursor.after.take cs.length))) := by
  have hbegins : ¬ cs <+: s.cursor.after := fun hbegins =>
    absurd h (ne_true_of_eq_false ((failed_fixedText hs).2 hbegins))
  refine ⟨hbegins, ?_⟩
  rw [← List.isPrefixOf_iff_prefix] at hbegins
  rw [fixedText, if_neg hbegins]

theorem letter_run_of_failed (hs : s.failed = false) (h : (letter.run s).failed = true) :
    (∀ c ∈ s.cursor.peekChar, isLetter c = false) ∧
      letter.run s = s.fail (.mismatch "letter" (foundText s.cursor.peekChar)) := by
  unfold letter at h ⊢
  dsimp only at h ⊢
  cases hpeek : s.cursor.peekChar with
  | none => exact ⟨nofun, rfl⟩
  | some c =>
    rw [hpeek] at h
    dsimp only at h ⊢
    split at h
    · exact absurd h (ne_true_of_eq_false hs)
    · rename_i hletter
      exact ⟨fun d hd => Option.some.inj hd ▸ Bool.of_not_eq_true hletter, if_neg hletter⟩

theorem word_run_of_failed (hs : s.failed = false) (h : (word.run s).failed = true) :
    (∀ c ∈ s.cursor.peekChar, isBlank c = true) ∧
      word.run s = s.fail (.mismatch "string of any length" (foundText s.cursor.peekChar)) := by
  unfold word at h ⊢
  dsimp only at h ⊢
  split at h
  · rename_i hempty
    refine ⟨fun c hc => ?_, if_pos hempty⟩
    obtain ⟨rest, hrest⟩ := List.head?_eq_some_iff.1 hc
    rw [hrest] at hempty
    refine Bool.of_not_eq_false fun hblank => ?_
    simp [hblank] at hempty
  · exact absurd h (ne_true_of_eq_false hs)

/-- A carriage return is read before the line feed behind it is missed. -/
theorem lineEnd_run_of_return {rest : List Char} (hafter : s.cursor.after = '\r' :: rest) (hfeed : rest.head? ≠ some '\n') :
    lineEnd.run s = (s.advance 1).fail (.mismatch "'\\n'" (foundText rest.head?)) := by
  unfold lineEnd
  dsimp only
  rw [hafter]
  cases rest with
  | nil => rfl
  | cons c rest =>
    have hc : c ≠ '\n' := fun h => hfeed (congrArg some h)
    simp [hc]

theorem lineEnd_run_of_other (hreturn : s.cursor.peekChar ≠ some '\r') (hfeed : s.cursor.peekChar ≠ some '\n') :
    lineEnd.run s = s.fail (.mismatch "'\\r' or '\\n'" (foundText s.cursor.peekChar)) := by
  unfold Cursor.peekChar at hreturn hfeed ⊢
  unfold lineEnd
  dsimp only
  cases hafter : s.cursor.after with
  | nil => rfl
  | cons c rest =>
    rw [hafter] at hreturn hfeed
    have hr : c ≠ '\r' := fun h => hreturn (congrArg some h)
    have hn : c ≠ '\n' := fun h => hfeed (congrArg some h)
    simp [hr, hn]

theorem lineEnd_cases_of_failed (hs : s.failed = false) (h : (lineEnd.run s).failed = true) :
    (∃ rest, s.cursor.after = '\r' :: rest ∧ rest.head? ≠ some '\n') ∨
      (s.cursor.peekChar ≠ some '\r' ∧ s.cursor.peekChar ≠ some '\n') := by
  have hreads : ∀ (b : LineBreak) (rest : List Char), s.cursor.after ≠ b.text ++ rest := fun b rest hafter => by
    have hsuccess := (Reads.lineEnd b rest s.context s hs hafter rfl).success
    rw [failed_parse hs] at hsuccess
    exact absurd h (ne_true_of_eq_false hsuccess)
  cases hafter : s.cursor.after with
  | nil => exact .inr (by simp [Cursor.peekChar, hafter])
  | cons c rest =>
    have hfeed : c ≠ '\n' := by
      rintro rfl
      exact hreads .feed rest hafter
    by_cases hreturn : c = '\r'
    · subst hreturn
      refine .inl ⟨rest, rfl, fun hhead => ?_⟩
      obtain ⟨more, rfl⟩ := List.head?_eq_some_iff.1 hhead
      exact hreads .returnFeed more hafter
    · exact .inr (by simp [Cursor.peekChar, hafter, hfeed, hreturn])

theorem value?_scan_of_failed {kind : NumberKind} (hs : s.failed = false)
    (h : ((number kind).parse s).failed = true) : kind.value? (kind.scan s.cursor.after) = none := by
  cases hvalue : kind.value? (kind.scan s.cursor.after) with
  | none => rfl
  | some v =>
    have hscan : kind.scan s.cursor.after ≠ [] := by
      intro hnil
      rw [hnil, NumberKind.value?_of_no_digit .nil (by simp)] at hvalue
      exact nomatch hvalue
    rw [number_parse_of_value hs hscan hvalue] at h
    exact absurd h (ne_true_of_eq_false hs)

end Parser

namespace Grammar

def isPrimitive : Grammar → Bool
  | .char .. | .literal .. | .letter | .word | .number _ | .spaces .. | .lineEnd => true
  | _ => false

/-- How far behind its beginning `g` rejects: a line end reads a carriage return that no line feed follows. -/
def slip : Grammar → Cursor → Nat
  | .lineEnd, c => if c.chars[c.index]? = some '\r' ∧ c.chars[c.index + 1]? ≠ some '\n' then 1 else 0
  | _, _ => 0

/-- At the place `i` of the text `cs` there is nothing for the parser. It stands at the place `j` then, and the error tells what
there is at that place. -/
inductive Rejects (cs : List Char) (i : Nat) : (j : Nat) → Grammar → ParseError → Prop where
  | char (c : Char) (captured : Bool) (h : cs[i]? ≠ some c) :
    Rejects cs i i (.char c captured) (.mismatch ("'" ++ String.singleton c ++ "'") (foundText cs[i]?))
  | literal (text : String) (captured : Bool) (h : ¬ text.toList <+: cs.drop i) :
    Rejects cs i i (.literal text captured)
      (.mismatch ("'" ++ text ++ "'") (String.ofList ((cs.drop i).take text.length)))
  | letter (h : ∀ c ∈ cs[i]?, isLetter c = false) : Rejects cs i i .letter (.mismatch "letter" (foundText cs[i]?))
  | word (h : ∀ c ∈ cs[i]?, isBlank c = true) :
    Rejects cs i i .word (.mismatch "string of any length" (foundText cs[i]?))
  | notANumber (kind : NumberKind) (h : LongestPrefix kind.Resembles (cs.drop i) []) :
    Rejects cs i i (.number kind) (.notANumber (foundText cs[i]?))
  | invalidNumber (kind : NumberKind) (t : List Char) (h : LongestPrefix kind.Resembles (cs.drop i) t) (hne : t ≠ [])
    (hnone : (¬ ∃ d ∈ t, d.isDigit = true) ∨ ¬ kind.InRange (NumberKind.wholeValue t)) :
    Rejects cs i i (.number kind) (.invalidNumber (String.ofList t) kind)
  | spaces (n : Nat) (captured : Bool) (h : ¬ List.replicate n ' ' <+: cs.drop i) :
    Rejects cs i i (.spaces n captured)
      (.mismatch ("'" ++ String.ofList (List.replicate n ' ') ++ "'") (String.ofList ((cs.drop i).take n)))
  | lineEnd (hreturn : cs[i]? ≠ some '\r') (hfeed : cs[i]? ≠ some '\n') :
    Rejects cs i i .lineEnd (.mismatch "'\\r' or '\\n'" (foundText cs[i]?))
  | lineFeed (hreturn : cs[i]? = some '\r') (hfeed : cs[i + 1]? ≠ some '\n') :
    Rejects cs i (i + 1) .lineEnd (.mismatch "'\\n'" (foundText cs[i + 1]?))

variable {s : State}

theorem parse_of_run_fail {g : Grammar} {e : ParseError} (hs : s.failed = false) (hrun : g.parser.run s = s.fail e) :
    g.parse s = { s with name := g.label, error := some e } := by
  rw [parse, Parser.parse_of_not_failed _ hs, hrun]
  rfl

/-- A rejection where the parser began. -/
theorem rejected_of_parse {g : Grammar} {e : ParseError} (hslip : g.slip s.cursor = 0)
    (hparse : g.parse s = { s with name := g.label, error := some e })
    (h : Rejects s.cursor.chars s.cursor.index s.cursor.index g e) :
    ∃ e, g.parse s = { s.advance (g.slip s.cursor) with name := g.label, error := some e } ∧
      Rejects s.cursor.chars s.cursor.index (g.parse s).cursor.index g e := by
  refine ⟨e, ?_, ?_⟩
  · rw [hslip, State.advance_zero, hparse]
  · rw [hparse]
    exact h

theorem rejected_of_return {rest : List Char} (hs : s.failed = false) (hafter : s.cursor.after = '\r' :: rest)
    (hfeed : rest.head? ≠ some '\n') :
    ∃ e, lineEnd.parse s = { s.advance (lineEnd.slip s.cursor) with name := lineEnd.label, error := some e } ∧
      Rejects s.cursor.chars s.cursor.index (lineEnd.parse s).cursor.index lineEnd e := by
  have hreturn : s.cursor.chars[s.cursor.index]? = some '\r' := by
    rw [← Cursor.peekChar_eq, Cursor.peekChar, hafter]
    rfl
  have hnext : s.cursor.chars[s.cursor.index + 1]? = rest.head? := by
    rw [Cursor.getElem?_index, hafter, List.getElem?_cons_succ, List.head?_eq_getElem?]
  have hslip : lineEnd.slip s.cursor = 1 := if_pos ⟨hreturn, by rwa [hnext]⟩
  have hparse : lineEnd.parse s =
      { s.advance 1 with name := lineEnd.label, error := some (.mismatch "'\\n'" (foundText rest.head?)) } := by
    rw [parse, Parser.parse_of_not_failed _ hs]
    exact congrArg (fun t : State => { t with name := lineEnd.label }) (Parser.lineEnd_run_of_return hafter hfeed)
  have hindex : (s.advance 1).cursor.index = s.cursor.index + 1 := by
    rw [State.cursor_advance, Cursor.index_advance, hafter, List.length_cons]
    omega
  refine ⟨.mismatch "'\\n'" (foundText rest.head?), by rw [hslip, hparse], ?_⟩
  rw [hparse]
  dsimp only
  rw [hindex, ← hnext]
  exact .lineFeed hreturn (by rwa [hnext])

theorem rejects_number {kind : NumberKind} (hs : s.failed = false) (h : ((number kind).parse s).failed = true) :
    ∃ e, (number kind).parse s = { s with name := (number kind).label, error := some e } ∧
      Rejects s.cursor.chars s.cursor.index s.cursor.index (number kind) e := by
  have hnone : kind.value? (kind.scan s.cursor.after) = none := Parser.value?_scan_of_failed hs h
  have hlongest := kind.longest_scan s.cursor.after
  rw [← Cursor.drop_index] at hlongest
  by_cases hscan : kind.scan s.cursor.after = []
  · refine ⟨_, Parser.number_parse_of_scan_nil hs hscan, ?_⟩
    rw [← Cursor.drop_index] at hscan
    rw [Cursor.peekChar_eq]
    exact .notANumber kind (hscan ▸ hlongest)
  · refine ⟨_, Parser.number_parse_of_value_none hs hscan hnone, ?_⟩
    rw [← Cursor.drop_index] at hscan hnone ⊢
    refine .invalidNumber kind _ hlongest hscan (not_and_or.1 fun ⟨hdigit, hrange⟩ => ?_)
    obtain ⟨v, hv, -⟩ := NumberKind.exists_value hlongest.holds hdigit hrange
    exact Option.some_ne_none v (hv.symm.trans hnone)

/-- Where the parser of a single unit fails, nothing but the label and the error is new, and the state stands where it stood; only
a line end may have read a carriage return. The error tells what stands at the place of the failed state. -/
theorem parse_of_rejected (g : Grammar) (hg : g.isPrimitive = true) (s : State) (hs : s.failed = false)
    (h : (g.parse s).failed = true) :
    ∃ e, g.parse s = { s.advance (g.slip s.cursor) with name := g.label, error := some e } ∧
      Rejects s.cursor.chars s.cursor.index (g.parse s).cursor.index g e := by
  have hrun : (g.parser.run s).failed = true := (Parser.failed_parse hs).symm.trans h
  cases g with
  | char c captured =>
    obtain ⟨hpeek, hfail⟩ := Parser.char_run_of_failed hs hrun
    rw [Cursor.peekChar_eq] at hpeek hfail
    exact rejected_of_parse rfl (parse_of_run_fail hs hfail) (.char c captured hpeek)
  | literal text captured =>
    obtain ⟨hbegins, hfail⟩ := Parser.fixedText_of_failed hs hrun
    rw [String.ofList_toList, String.length_toList, ← Cursor.drop_index] at hfail
    rw [← Cursor.drop_index] at hbegins
    exact rejected_of_parse rfl (parse_of_run_fail hs hfail) (.literal text captured hbegins)
  | letter =>
    obtain ⟨hletter, hfail⟩ := Parser.letter_run_of_failed hs hrun
    rw [Cursor.peekChar_eq] at hletter hfail
    exact rejected_of_parse rfl (parse_of_run_fail hs hfail) (.letter hletter)
  | word =>
    obtain ⟨hblank, hfail⟩ := Parser.word_run_of_failed hs hrun
    rw [Cursor.peekChar_eq] at hblank hfail
    exact rejected_of_parse rfl (parse_of_run_fail hs hfail) (.word hblank)
  | number kind =>
    obtain ⟨e, hparse, hrejects⟩ := rejects_number hs h
    exact rejected_of_parse rfl hparse hrejects
  | spaces n captured =>
    obtain ⟨hbegins, hfail⟩ := Parser.fixedText_of_failed hs hrun
    rw [List.length_replicate, ← Cursor.drop_index] at hfail
    rw [← Cursor.drop_index] at hbegins
    exact rejected_of_parse rfl (parse_of_run_fail hs hfail) (.spaces n captured hbegins)
  | lineEnd =>
    rcases Parser.lineEnd_cases_of_failed hs hrun with ⟨rest, hafter, hfeed⟩ | ⟨hreturn, hfeed⟩
    · exact rejected_of_return hs hafter hfeed
    · have hfail := Parser.lineEnd_run_of_other hreturn hfeed
      rw [Cursor.peekChar_eq] at hreturn hfeed hfail
      exact rejected_of_parse (if_neg fun h => hreturn h.1) (parse_of_run_fail hs hfail) (.lineEnd hreturn hfeed)
  | _ => exact nomatch hg

/-- A carriage return with no line feed behind it, and a text that goes on otherwise than the one asked for, and is shorter. -/
theorem parse_of_rejected_return :
    let s : State := { State.start "h\ré" with stack := [.char 'a'], warning := some (.notANumber "null") }
    s.failed = false ∧ ((literal "hello" true).parse s).failed = true ∧ (lineEnd.parse (s.advance 1)).failed = true ∧
      (literal "hello" true).parse s = { s with name := "literal(hello)", error := some (.mismatch "'hello'" "h\ré") } ∧
      lineEnd.parse (s.advance 1) = { s.advance 2 with name := "line_end()", error := some (.mismatch "'\\n'" "é") } := by
  intro s
  have hliteral : ((literal "hello" true).parse s).failed = true := by decide +kernel
  have hlineEnd : (lineEnd.parse (s.advance 1)).failed = true := by decide +kernel
  refine ⟨rfl, hliteral, hlineEnd, ?_, ?_⟩
  · obtain ⟨e, hparse, hrejects⟩ := parse_of_rejected (literal "hello" true) rfl s rfl hliteral
    cases hrejects
    exact hparse
  · obtain ⟨e, hparse, hrejects⟩ := parse_of_rejected lineEnd rfl (s.advance 1) rfl hlineEnd
    cases hrejects
    exact hparse

end Grammar

end StackParser
