import StackParser.Parser.Numeral
import StackParser.Text.Blank

/-!
# How texts are written

* `StopsAt p rest` : a run of characters of the class `p` ends in front of `rest`;
* `LineBreak` : the two ways to end a line. `Ended lines cs` : `cs` is these lines, each ended in one of them, and
  `Written lines cs` : the last one may lack its end. The lines can be told from the text (`Written.unique`);
* `Numeral` : an optional minus sign and decimal digits, with its `text` and its `value`. Leading zeros are allowed.
  `Numeral.ofInt` is the numeral that a number is usually written as (`text_ofInt`, `value_ofInt`);
* `NumberKind.hold?` : the value that stands for a number, if the kind has room for it;
* `NumberKind.scan_text` : a numeral is scanned whole unless a digit follows, and `NumberKind.value?_text` : read as its
  value. What is scanned and read is a numeral (`NumberKind.exists_numeral`).
-/

namespace StackParser

/-! ## Runs of characters -/

/-- What comes next is not of the class. -/
def StopsAt (p : Char → Bool) (rest : List Char) : Prop := ∀ c ∈ rest.head?, p c = false

section

variable {p : Char → Bool}

theorem stopsAt_nil : StopsAt p [] := fun _ hc => nomatch hc

theorem stopsAt_cons {c : Char} {rest : List Char} : StopsAt p (c :: rest) ↔ p c = false := by
  simp [StopsAt]

theorem stopsAt_dropWhile (cs : List Char) : StopsAt p (cs.dropWhile p) := by
  intro c hc
  have h := List.head?_dropWhile_not p cs
  rw [Option.mem_def.1 hc] at h
  exact h

theorem takeWhile_append_of_stopsAt {cs rest : List Char} (hcs : ∀ c ∈ cs, p c = true) (hrest : StopsAt p rest) :
    (cs ++ rest).takeWhile p = cs := by
  have hnone : rest.takeWhile p = [] := by
    cases rest with
    | nil => rfl
    | cons c rest => simp [stopsAt_cons.1 hrest]
  rw [List.takeWhile_append_of_pos hcs, hnone, List.append_nil]

end

/-! ## Lines -/

inductive LineBreak where
  | feed
  | returnFeed
  deriving DecidableEq, Repr

def LineBreak.text : LineBreak → List Char
  | feed => ['\n']
  | returnFeed => ['\r', '\n']

def LineBreak.optional (b : Option LineBreak) : List Char := b.elim [] LineBreak.text

/-- These lines, each ended in one of the two ways. -/
inductive Ended : List String → List Char → Prop where
  | nil : Ended [] []
  | cons (line : String) (b : LineBreak) {lines : List String} {cs : List Char} :
    Ended lines cs → Ended (line :: lines) (line.toList ++ (b.text ++ cs))

namespace Ended

variable {line : String} {lines more : List String} {cs ds : List Char}

theorem nil_iff : Ended [] cs ↔ cs = [] := by
  constructor
  · rintro ⟨⟩
    rfl
  · rintro rfl
    exact nil

theorem cons_iff : Ended (line :: lines) cs ↔
    ∃ (b : LineBreak) (rest : List Char), cs = line.toList ++ (b.text ++ rest) ∧ Ended lines rest := by
  constructor
  · rintro (_ | ⟨_, b, h⟩)
    exact ⟨b, _, rfl, h⟩
  · rintro ⟨b, rest, rfl, h⟩
    exact h.cons line b

theorem append (h₁ : Ended lines cs) (h₂ : Ended more ds) : Ended (lines ++ more) (cs ++ ds) := by
  induction h₁ with
  | nil => exact h₂
  | cons line b _ ih =>
    rw [List.cons_append, List.append_assoc, List.append_assoc]
    exact ih.cons line b

theorem append_iff : Ended (lines ++ more) cs ↔
    ∃ first rest, cs = first ++ rest ∧ Ended lines first ∧ Ended more rest := by
  refine ⟨fun h => ?_, fun ⟨first, rest, hcs, h₁, h₂⟩ => hcs ▸ h₁.append h₂⟩
  induction lines generalizing cs with
  | nil => exact ⟨[], cs, rfl, nil, h⟩
  | cons line lines ih =>
    obtain ⟨b, tail, rfl, htail⟩ := cons_iff.1 h
    obtain ⟨first, rest, rfl, h₁, h₂⟩ := ih htail
    exact ⟨line.toList ++ (b.text ++ first), rest, by simp, h₁.cons line b, h₂⟩

end Ended

/-- These lines, each ended in one of the two ways but the last, which may lack its end. -/
inductive Written : List String → List Char → Prop where
  | nil : Written [] []
  | unfinished (line : String) : Written [line] line.toList
  | cons (line : String) (b : LineBreak) {lines : List String} {cs : List Char} :
    Written lines cs → Written (line :: lines) (line.toList ++ (b.text ++ cs))

namespace Written

variable {line next : String} {lines more : List String} {cs ds : List Char}

theorem of_ended (h : Ended lines cs) : Written lines cs := by
  induction h with
  | nil => exact nil
  | cons line b _ ih => exact ih.cons line b

theorem nil_iff : Written [] cs ↔ cs = [] := by
  constructor
  · rintro ⟨⟩
    rfl
  · rintro rfl
    exact nil

theorem last_iff : Written [line] cs ↔ cs = line.toList ∨ ∃ b : LineBreak, cs = line.toList ++ b.text := by
  constructor
  · rintro (_ | _ | ⟨_, b, h⟩)
    · exact .inl rfl
    · obtain rfl := nil_iff.1 h
      exact .inr ⟨b, by rw [List.append_nil]⟩
  · rintro (rfl | ⟨b, rfl⟩)
    · exact unfinished line
    · rw [← List.append_nil b.text]
      exact nil.cons line b

/-- A text begins with its first line. -/
theorem begins (h : Written (line :: lines) cs) : line.toList <+: cs := by
  cases h with
  | unfinished => exact List.prefix_rfl
  | cons line b h => exact List.prefix_append _ _

theorem append (h₁ : Ended lines cs) (h₂ : Written more ds) : Written (lines ++ more) (cs ++ ds) := by
  induction h₁ with
  | nil => exact h₂
  | cons line b _ ih =>
    rw [List.cons_append, List.append_assoc, List.append_assoc]
    exact ih.cons line b

/-- Lines in front of others are ended. -/
theorem of_append (h : Written (lines ++ next :: more) cs) :
    ∃ first rest, cs = first ++ rest ∧ Ended lines first ∧ Written (next :: more) rest := by
  induction lines generalizing cs with
  | nil => exact ⟨[], cs, rfl, .nil, h⟩
  | cons line lines ih =>
    generalize hlines : line :: lines ++ next :: more = all at h
    cases h with
    | nil => exact nomatch hlines
    | unfinished line' => simp at hlines
    | cons line' b h =>
      obtain ⟨rfl, rfl⟩ := List.cons.inj hlines
      obtain ⟨first, rest, rfl, h₁, h₂⟩ := ih h
      exact ⟨line.toList ++ (b.text ++ first), rest, by simp, h₁.cons line b, h₂⟩

end Written

/-- No character can belong to the end of a line. -/
def NoBreak (cs : List Char) : Prop := '\n' ∉ cs ∧ '\r' ∉ cs

theorem NoBreak.append {cs ds : List Char} (h : NoBreak cs) (h' : NoBreak ds) : NoBreak (cs ++ ds) :=
  ⟨List.not_mem_append h.1 h'.1, List.not_mem_append h.2 h'.2⟩

/-- Where a line ends is seen from the text. -/
def IsLine (line : String) : Prop := line.toList ≠ [] ∧ NoBreak line.toList

namespace LineBreak

theorem text_append_inj {b b' : LineBreak} {cs ds : List Char} (h : b.text ++ cs = b'.text ++ ds) : cs = ds := by
  cases b <;> cases b' <;> simp_all [text]

end LineBreak

namespace Written

variable {line other : String} {lines others : List String} {cs ds : List Char}

/-- Behind the first line comes its end and the other lines, or nothing. -/
theorem cons_iff : Written (line :: lines) cs ↔ ∃ rest, cs = line.toList ++ rest ∧
    ((rest = [] ∧ lines = []) ∨ ∃ (b : LineBreak) (ds : List Char), rest = b.text ++ ds ∧ Written lines ds) := by
  constructor
  · rintro (_ | _ | ⟨_, b, h⟩)
    · exact ⟨[], (List.append_nil _).symm, .inl ⟨rfl, rfl⟩⟩
    · exact ⟨_, rfl, .inr ⟨b, _, rfl, h⟩⟩
  · rintro ⟨_, rfl, ⟨rfl, rfl⟩ | ⟨b, ds, rfl, h⟩⟩
    · rw [List.append_nil]
      exact unfinished line
    · exact h.cons line b

theorem line_eq_takeWhile (hline : IsLine line) (h : Written (line :: lines) cs) :
    line.toList = cs.takeWhile fun c => c ≠ '\n' ∧ c ≠ '\r' := by
  obtain ⟨rest, rfl, hrest⟩ := cons_iff.1 h
  have hbreak : ∀ c ∈ line.toList, decide (c ≠ '\n' ∧ c ≠ '\r') = true := fun c hc =>
    decide_eq_true ⟨ne_of_mem_of_not_mem hc hline.2.1, ne_of_mem_of_not_mem hc hline.2.2⟩
  refine (takeWhile_append_of_stopsAt hbreak ?_).symm
  rcases hrest with ⟨rfl, -⟩ | ⟨b, ds, rfl, -⟩
  · exact stopsAt_nil
  · cases b <;> exact stopsAt_cons.2 (by decide)

/-- A text is written in one way. -/
theorem unique (hlines : ∀ line ∈ lines, IsLine line) (hothers : ∀ line ∈ others, IsLine line)
    (h : Written lines cs) (h' : Written others cs) : lines = others := by
  induction lines generalizing others cs with
  | nil =>
    obtain rfl := nil_iff.1 h
    cases others with
    | nil => rfl
    | cons other others => exact absurd (List.prefix_nil.1 h'.begins) (hothers other List.mem_cons_self).1
  | cons line lines ih =>
    obtain ⟨hline, hbehind⟩ := List.forall_mem_cons.1 hlines
    cases others with
    | nil =>
      obtain rfl := nil_iff.1 h'
      exact absurd (List.prefix_nil.1 h.begins) hline.1
    | cons other others =>
      obtain ⟨hother, hbehind'⟩ := List.forall_mem_cons.1 hothers
      obtain rfl : line = other :=
        String.toList_inj.1 ((line_eq_takeWhile hline h).trans (line_eq_takeWhile hother h').symm)
      obtain ⟨rest, rfl, hrest⟩ := cons_iff.1 h
      obtain ⟨rest', heq, hrest'⟩ := cons_iff.1 h'
      obtain rfl := List.append_cancel_left heq
      rcases hrest with ⟨rfl, rfl⟩ | ⟨b, ds, rfl, hds⟩ <;> rcases hrest' with ⟨hnil, rfl⟩ | ⟨b', ds', heq', hds'⟩
      · rfl
      · cases b' <;> exact nomatch heq'
      · cases b <;> exact nomatch hnil
      · obtain rfl := LineBreak.text_append_inj heq'
        rw [ih hbehind hbehind' hds hds']

end Written

/-! ## Numerals -/

/-- A whole number as it can be written. -/
structure Numeral where
  negative : Bool
  digits : List Char
  digits_ne_nil : digits ≠ []
  isDigit : ∀ c ∈ digits, c.isDigit = true

namespace Numeral

def sign (m : Numeral) : List Char := if m.negative then ['-'] else []

def text (m : Numeral) : List Char := m.sign ++ m.digits

def value (m : Numeral) : Int :=
  if m.negative then -(Decimal.ofDigits m.digits : Int) else Decimal.ofDigits m.digits

def ofInt (n : Int) : Numeral where
  negative := n < 0
  digits := Nat.toDigits 10 n.natAbs
  digits_ne_nil := Nat.toDigits_ne_nil
  isDigit _ hc := Nat.isDigit_of_mem_toDigits (by decide) (by decide) hc

theorem value_ofInt (n : Int) : (ofInt n).value = n := by
  have hdigits : Decimal.ofDigits (Nat.toDigits 10 n.natAbs) = n.natAbs :=
    Nat.ofDigitChars_toDigits (by decide) (by decide)
  simp only [value, ofInt, hdigits, decide_eq_true_eq]
  split <;> omega

theorem text_ofInt (n : Int) : (ofInt n).text = (toString n).toList := by
  cases n with
  | ofNat n => simp [text, sign, ofInt, toString, Int.repr, Nat.repr]
  | negSucc n =>
    have hneg : Int.negSucc n < 0 := Int.negSucc_lt_zero n
    simp [text, sign, ofInt, hneg, toString, Int.repr, Nat.repr]

/-- The first digit is not taken for the sign. -/
theorem digits_eq_cons (m : Numeral) : ∃ d ds, m.digits = d :: ds ∧ d.isDigit = true ∧ d ≠ '-' := by
  obtain ⟨d, ds, hdigits⟩ := List.exists_cons_of_ne_nil m.digits_ne_nil
  have hd : d.isDigit = true := m.isDigit d (by simp [hdigits])
  refine ⟨d, ds, hdigits, hd, ?_⟩
  rintro rfl
  exact absurd hd (by decide)

theorem text_ne_nil (m : Numeral) : m.text ≠ [] := by
  have := m.digits_ne_nil
  simp [text, this]

/-- What a numeral begins with. -/
theorem head_text (m : Numeral) (rest : List Char) : ∀ c ∈ (m.text ++ rest).head?, c = '-' ∨ c.isDigit = true := by
  obtain ⟨d, ds, hdigits, hd, -⟩ := m.digits_eq_cons
  intro c hc
  cases hneg : m.negative with
  | true =>
    simp [text, sign, hneg] at hc
    exact .inl hc.symm
  | false =>
    simp [text, sign, hneg, hdigits] at hc
    exact .inr (hc ▸ hd)

/-- No numeral begins with a blank. -/
theorem not_blank_head (m : Numeral) (rest : List Char) : ∀ c ∈ (m.text ++ rest).head?, isBlank c = false := by
  intro c hc
  rcases m.head_text rest c hc with rfl | hdigit
  · decide
  · obtain ⟨hlo, hhi⟩ : 48 ≤ c.toNat ∧ c.toNat ≤ 57 := Char.isDigit_iff_toNat.1 hdigit
    have hapart : ∀ r ∈ CharClass.blank.ranges, r.2 < 48 ∨ 57 < r.1 := by decide
    refine Bool.eq_false_iff.2 fun hblank => ?_
    obtain ⟨r, hr, hbegin, hend⟩ := (CharClass.blank.contains_iff c).1 hblank
    have hr' := hapart r hr
    omega

theorem signPart_text (m : Numeral) (rest : List Char) : signPart (m.text ++ rest) = m.sign := by
  obtain ⟨d, ds, hdigits, -, hminus⟩ := m.digits_eq_cons
  cases hneg : m.negative with
  | true => simp [text, sign, hneg, signPart]
  | false =>
    simp only [text, sign, hneg, hdigits, Bool.false_eq_true, if_false, List.nil_append, List.cons_append]
    unfold signPart
    split
    · rename_i heq
      exact absurd (List.cons.inj heq).1 hminus
    · rfl

theorem text_inj {m m' : Numeral} (h : m.text = m'.text) : m = m' := by
  have hsign : m.sign = m'.sign := by
    rw [← m.signPart_text [], ← m'.signPart_text [], h]
  have hdigits : m.digits = m'.digits := by
    rw [text, text, hsign] at h
    exact List.append_cancel_left h
  have hnegative : m.negative = m'.negative := by
    rw [sign, sign] at hsign
    cases hm : m.negative <;> cases hm' : m'.negative <;> simp [hm, hm'] at hsign ⊢
  cases m
  cases m'
  simp_all

theorem readNat?_digits (m : Numeral) : Decimal.readNat? m.digits = some (Decimal.ofDigits m.digits) := by
  have hne := m.digits_ne_nil
  have hall : m.digits.all Char.isDigit = true := List.all_eq_true.2 m.isDigit
  simp [Decimal.readNat?, hne, hall]

theorem readInt?_text (m : Numeral) : Decimal.readInt? m.text = some m.value := by
  obtain ⟨d, ds, hdigits, -, hminus⟩ := m.digits_eq_cons
  have hread := m.readNat?_digits
  cases hneg : m.negative with
  | true =>
    simp only [text, sign, value, hneg, if_true, List.singleton_append]
    rw [Decimal.readInt?, hread]
    rfl
  | false =>
    simp only [text, sign, value, hneg, Bool.false_eq_true, if_false, List.nil_append]
    unfold Decimal.readInt?
    split
    · rename_i heq
      exact absurd (List.cons.inj (hdigits.symm.trans heq)).1 hminus
    · rw [hread]
      rfl

end Numeral

namespace NumberKind

/-- The value of the kind that stands for `n`. There is none for a number out of range, and no whole number is kept as a
floating-point one. -/
def hold? : NumberKind → Int → Option Value
  | .int, n => if -2147483648 ≤ n ∧ n ≤ 2147483647 then some (.int (.ofInt n)) else none
  | .long, n => if -9223372036854775808 ≤ n ∧ n ≤ 9223372036854775807 then some (.long (.ofInt n)) else none
  | .float, _ => none

theorem hold?_int (n : Int32) : NumberKind.int.hold? n.toInt = some (.int n) := by
  have hlo := n.le_toInt
  have hhi := n.toInt_lt
  rw [hold?, if_pos (by omega), Int32.ofInt_toInt]

theorem hold?_long (n : Int64) : NumberKind.long.hold? n.toInt = some (.long n) := by
  have hlo := n.le_toInt
  have hhi := n.toInt_lt
  rw [hold?, if_pos (by omega), Int64.ofInt_toInt]

variable {kind : NumberKind}

theorem ne_float_of_hold? {n : Int} {v : Value} (h : kind.hold? n = some v) : kind ≠ .float := by
  rintro rfl
  exact nomatch h

/-- Without a point there is only the sign and the digits to scan. -/
theorem scan_eq (hkind : kind ≠ .float) (cs : List Char) :
    kind.scan cs = signPart cs ++ (cs.drop (signPart cs).length).takeWhile Char.isDigit := by
  cases kind with
  | int => rfl
  | long => rfl
  | float => exact absurd rfl hkind

theorem value?_eq (hkind : kind ≠ .float) (cs : List Char) :
    kind.value? cs = (Decimal.readInt? cs).bind kind.hold? := by
  cases kind with
  | int => rfl
  | long => rfl
  | float => exact absurd rfl hkind

theorem scan_text (hkind : kind ≠ .float) (m : Numeral) {rest : List Char} (hrest : StopsAt Char.isDigit rest) :
    kind.scan (m.text ++ rest) = m.text := by
  rw [scan_eq hkind, m.signPart_text]
  simp only [Numeral.text, List.append_assoc, List.drop_left]
  rw [takeWhile_append_of_stopsAt m.isDigit hrest]

theorem value?_text (hkind : kind ≠ .float) (m : Numeral) : kind.value? m.text = kind.hold? m.value := by
  rw [value?_eq hkind, m.readInt?_text]
  rfl

theorem signPart_eq (cs : List Char) : (signPart cs = ['-'] ∧ ∃ rest, cs = '-' :: rest) ∨ signPart cs = [] := by
  unfold signPart
  split
  · exact .inl ⟨rfl, _, rfl⟩
  · exact .inr rfl

/-- No number is read without a digit. -/
theorem digits_ne_nil_of_readInt? {cs : List Char} {n : Int}
    (h : Decimal.readInt? (signPart cs ++ (cs.drop (signPart cs).length).takeWhile Char.isDigit) = some n) :
    (cs.drop (signPart cs).length).takeWhile Char.isDigit ≠ [] := by
  intro hnil
  rw [hnil, List.append_nil] at h
  rcases signPart_eq cs with ⟨hsign, -⟩ | hsign
  · rw [hsign] at h
    exact nomatch h
  · rw [hsign] at h
    exact nomatch h

/-- What is scanned and has a value is a numeral, and no digit follows. -/
theorem exists_numeral (hkind : kind ≠ .float) {cs : List Char} {v : Value} (h : kind.value? (kind.scan cs) = some v) :
    ∃ (m : Numeral) (rest : List Char),
      cs = m.text ++ rest ∧ StopsAt Char.isDigit rest ∧ kind.hold? m.value = some v := by
  obtain ⟨n, hn, -⟩ := Option.bind_eq_some_iff.1 ((value?_eq hkind _).symm.trans h)
  rw [scan_eq hkind] at hn
  let m : Numeral := {
    negative := signPart cs = ['-']
    digits := (cs.drop (signPart cs).length).takeWhile Char.isDigit
    digits_ne_nil := digits_ne_nil_of_readInt? hn
    isDigit := List.all_eq_true.1 List.all_takeWhile }
  have hsign : m.sign = signPart cs := by
    rcases signPart_eq cs with ⟨hs, -⟩ | hs <;> simp [m, Numeral.sign, hs]
  have hscan : kind.scan cs = m.text := by rw [scan_eq hkind, Numeral.text, hsign]
  have hsplit : signPart cs ++ cs.drop (signPart cs).length = cs := by
    rcases signPart_eq cs with ⟨hs, rest, rfl⟩ | hs <;> simp [hs]
  refine ⟨m, (cs.drop (signPart cs).length).dropWhile Char.isDigit, ?_, stopsAt_dropWhile _, ?_⟩
  · rw [Numeral.text, hsign, List.append_assoc, List.takeWhile_append_dropWhile, hsplit]
  · rw [← value?_text hkind, ← hscan]
    exact h

end NumberKind

end StackParser
