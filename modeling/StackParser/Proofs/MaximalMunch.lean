import Mathlib.Data.List.Basic
import StackParser.Proofs.Progress
import StackParser.Proofs.Scanning

/-!
# Numbers and words are read as far as they go

* `LongestPrefix P cs t` : `t` is the longest text with the property `P` that `cs` begins with;
* `NumberKind.Resembles` : what looks like a number of the kind, as far as it goes. `NumberKind.longest_scan` : a scan finds the
  longest text in front that does;
* `NumberKind.Denotes kind t v` : `v` is the value of the kind for the number that `t` shows. There is one unless `t` has no digit
  or the number is out of range (`exists_value`, `value?_of_no_digit`, `value?_of_not_inRange`);
* `Parser.maximal_munch` : what numbers and words come to in front of any text.
-/

namespace StackParser

/-- `t` is the longest text with the property that `cs` begins with. -/
structure LongestPrefix (P : List Char → Prop) (cs t : List Char) : Prop where
  isPrefix : t <+: cs
  holds : P t
  longest : ∀ u, u <+: cs → P u → u.length ≤ t.length

namespace LongestPrefix

variable {P : List Char → Prop} {cs t u : List Char}

theorem unique (h : LongestPrefix P cs t) (h' : LongestPrefix P cs u) : t = u := by
  have hlength : t.length = u.length :=
    Nat.le_antisymm (h'.longest t h.isPrefix h.holds) (h.longest u h'.isPrefix h'.holds)
  exact (List.prefix_of_prefix_length_le h.isPrefix h'.isPrefix (Nat.le_of_eq hlength)).eq_of_length hlength

/-- The longest text of characters that are not of a class. -/
theorem takeWhile_not (p : Char → Bool) (cs : List Char) :
    LongestPrefix (fun u => ∀ c ∈ u, p c = false) cs (cs.takeWhile fun c => !p c) where
  isPrefix := List.takeWhile_prefix _
  holds c hc := by simpa using List.all_eq_true.1 (List.all_takeWhile (p := fun c => !p c)) c hc
  longest := by
    rintro u ⟨rest, rfl⟩ hu
    rw [List.takeWhile_append_of_pos fun c hc => by simp [hu c hc], List.length_append]
    exact Nat.le_add_right _ _

end LongestPrefix

namespace NumberKind

/-! ## What looks like a number -/

/-- What looks like a number of the kind, as far as it goes: nothing at all, or a minus sign or a digit with further digits
behind it and, in a floating-point number, a point with further digits behind it. -/
inductive Resembles (kind : NumberKind) : List Char → Prop where
  | nil : Resembles kind []
  | whole (c : Char) (ds : List Char) (hc : c = '-' ∨ c.isDigit = true) (hds : ∀ d ∈ ds, d.isDigit = true) :
    Resembles kind (c :: ds)
  | point (c : Char) (ds fs : List Char) (hkind : kind = .float) (hc : c = '-' ∨ c.isDigit = true)
    (hds : ∀ d ∈ ds, d.isDigit = true) (hfs : ∀ d ∈ fs, d.isDigit = true) : Resembles kind (c :: (ds ++ '.' :: fs))

variable {kind : NumberKind} {c : Char} {cs t u whole : List Char}

theorem isDigit_takeWhile (cs : List Char) : ∀ d ∈ cs.takeWhile Char.isDigit, d.isDigit = true :=
  List.all_eq_true.1 List.all_takeWhile

theorem signPart_of_isDigit (hc : c.isDigit = true) (cs : List Char) : signPart (c :: cs) = [] := by
  rcases signPart_eq (c :: cs) with ⟨-, rest, hrest⟩ | hsign
  · obtain ⟨rfl, -⟩ := List.cons.inj hrest
    exact absurd hc (by decide)
  · exact hsign

/-- Behind the first character there are digits, and what may follow them. -/
theorem scan_cons (kind : NumberKind) (hc : c = '-' ∨ c.isDigit = true) (cs : List Char) :
    kind.scan (c :: cs) = c :: cs.takeWhile Char.isDigit ++
      kind.fraction (c :: cs.takeWhile Char.isDigit) (cs.dropWhile Char.isDigit) := by
  rw [scan_eq_fraction]
  rcases hc with rfl | hc
  · rfl
  · rw [signPart_of_isDigit hc, List.length_nil, List.drop_zero, List.nil_append, List.takeWhile_cons_of_pos hc,
      List.dropWhile_cons_of_pos hc]

theorem fraction_begins (kind : NumberKind) (whole cs : List Char) : kind.fraction whole cs <+: cs := by
  unfold fraction
  split
  · split
    · exact (List.prefix_cons_inj '.').2 (List.takeWhile_prefix _)
    · exact List.nil_prefix
  · exact List.nil_prefix

theorem resembles_fraction (hc : c = '-' ∨ c.isDigit = true) {ds : List Char} (hds : ∀ d ∈ ds, d.isDigit = true)
    (cs : List Char) : kind.Resembles (c :: ds ++ kind.fraction whole cs) := by
  unfold fraction
  split
  · split
    · rename_i h
      exact .point c ds _ h.1 hc hds (isDigit_takeWhile _)
    · rw [List.append_nil]
      exact .whole c ds hc hds
  · rw [List.append_nil]
    exact .whole c ds hc hds

/-- What looks like a number is scanned whole. -/
theorem prefix_scan (h : kind.Resembles u) (rest : List Char) : u <+: kind.scan (u ++ rest) := by
  cases h with
  | nil => exact List.nil_prefix
  | whole c ds hc hds =>
    rw [List.cons_append, scan_cons kind hc, List.takeWhile_append_of_pos hds]
    rw [← List.cons_append, List.append_assoc]
    exact List.prefix_append _ _
  | point c ds fs hkind hc hds hfs =>
    have hpoint : StopsAt Char.isDigit ('.' :: (fs ++ rest)) := stopsAt_cons.2 (by decide)
    have htake : (ds ++ '.' :: (fs ++ rest)).takeWhile Char.isDigit = ds := takeWhile_append_of_stopsAt hds hpoint
    have hdrop : (ds ++ '.' :: (fs ++ rest)).dropWhile Char.isDigit = '.' :: (fs ++ rest) := by
      rw [List.dropWhile_append_of_pos hds, List.dropWhile_cons_of_neg (by decide)]
    rw [List.cons_append, List.append_assoc, List.cons_append, scan_cons kind hc, htake, hdrop, fraction,
      if_pos ⟨hkind, List.cons_ne_nil _ _⟩, List.takeWhile_append_of_pos hfs]
    exact ⟨rest.takeWhile Char.isDigit, by simp⟩

/-- Something is scanned only in front of a minus sign or a digit. -/
theorem scan_cases (kind : NumberKind) (cs : List Char) :
    kind.scan cs = [] ∨ ∃ c rest, cs = c :: rest ∧ (c = '-' ∨ c.isDigit = true) := by
  cases cs with
  | nil => exact .inl (Parser.Consumes.scan_nil kind)
  | cons c rest =>
    by_cases hc : c = '-' ∨ c.isDigit = true
    · exact .inr ⟨c, rest, rfl, hc⟩
    · obtain ⟨hminus, hdigit⟩ := not_or.1 hc
      exact .inl (Parser.Begins.scan_eq_nil kind rest hminus (Bool.of_not_eq_true hdigit))

theorem scan_isPrefix (kind : NumberKind) (cs : List Char) : kind.scan cs <+: cs := by
  rcases scan_cases kind cs with hnil | ⟨c, rest, rfl, hc⟩
  · rw [hnil]
    exact List.nil_prefix
  · have hfraction := (List.prefix_append_right_inj (c :: rest.takeWhile Char.isDigit)).2
      (fraction_begins kind (c :: rest.takeWhile Char.isDigit) (rest.dropWhile Char.isDigit))
    rw [← scan_cons kind hc, List.cons_append, List.takeWhile_append_dropWhile] at hfraction
    exact hfraction

theorem resembles_scan (kind : NumberKind) (cs : List Char) : kind.Resembles (kind.scan cs) := by
  rcases scan_cases kind cs with hnil | ⟨c, rest, rfl, hc⟩
  · rw [hnil]
    exact .nil
  · rw [scan_cons kind hc]
    exact resembles_fraction hc (isDigit_takeWhile rest) _

theorem longest_scan (kind : NumberKind) (cs : List Char) : LongestPrefix kind.Resembles cs (kind.scan cs) where
  isPrefix := scan_isPrefix kind cs
  holds := resembles_scan kind cs
  longest := by
    rintro u ⟨rest, rfl⟩ hu
    exact (prefix_scan hu rest).length_le

/-! ## The value of a number -/

/-- The numbers that the kind has room for. Every text that shows a number is read as a floating-point one. -/
def InRange : NumberKind → Int → Prop
  | .int, n => -2147483648 ≤ n ∧ n ≤ 2147483647
  | .long, n => -9223372036854775808 ≤ n ∧ n ≤ 9223372036854775807
  | .float, _ => True

instance : (kind : NumberKind) → (n : Int) → Decidable (kind.InRange n)
  | .int, _ => inferInstanceAs (Decidable (_ ∧ _))
  | .long, _ => inferInstanceAs (Decidable (_ ∧ _))
  | .float, _ => inferInstanceAs (Decidable True)

/-- The whole number that digits stand for, with a minus sign in front or without. -/
def wholeValue : List Char → Int
  | '-' :: ds => -(Decimal.ofDigits ds : Int)
  | ds => Decimal.ofDigits ds

/-- `v` is the value of the kind for the number that the text shows. -/
def Denotes : NumberKind → List Char → Value → Prop
  | .int, t, v => ∃ n : Int32, v = .int n ∧ n.toInt = wholeValue t
  | .long, t, v => ∃ n : Int64, v = .long n ∧ n.toInt = wholeValue t
  | .float, t, v => ∃ x : Float, v = .float x ∧ Decimal.readFloat? t = some x

theorem wholeValue_of_isDigit (hc : c.isDigit = true) (ds : List Char) :
    wholeValue (c :: ds) = Decimal.ofDigits (c :: ds) := by
  unfold wholeValue
  split
  · rename_i heq
    obtain ⟨rfl, -⟩ := List.cons.inj heq
    exact absurd hc (by decide)
  · rfl

theorem readNat?_of_digits {ds : List Char} (hds : ∀ d ∈ ds, d.isDigit = true) (hne : ds ≠ []) :
    Decimal.readNat? ds = some (Decimal.ofDigits ds) := by
  have hall : ds.all Char.isDigit = true := List.all_eq_true.2 hds
  simp [Decimal.readNat?, hall, hne]

/-- A sign and digits are read as the number they stand for. -/
theorem readInt?_of_whole {ds : List Char} (hc : c = '-' ∨ c.isDigit = true) (hds : ∀ d ∈ ds, d.isDigit = true)
    (hdigit : ∃ d ∈ c :: ds, d.isDigit = true) : Decimal.readInt? (c :: ds) = some (wholeValue (c :: ds)) := by
  by_cases hminus : c = '-'
  · subst hminus
    have hne : ds ≠ [] := by
      rintro rfl
      simp at hdigit
    rw [Decimal.readInt?, readNat?_of_digits hds hne]
    rfl
  · have hc' : c.isDigit = true := hc.resolve_left hminus
    have hall : ∀ d ∈ c :: ds, d.isDigit = true := List.forall_mem_cons.2 ⟨hc', hds⟩
    rw [wholeValue_of_isDigit hc']
    unfold Decimal.readInt?
    split
    · rename_i heq
      exact absurd (List.cons.inj heq).1 hminus
    · rw [readNat?_of_digits hall (List.cons_ne_nil _ _)]
      rfl

theorem spanDigits_append {ds rest : List Char} (hds : ∀ d ∈ ds, d.isDigit = true) (hrest : StopsAt Char.isDigit rest) :
    Decimal.spanDigits (ds ++ rest) = (ds, rest) := by
  have hdrop : rest.dropWhile Char.isDigit = rest := by
    cases rest with
    | nil => rfl
    | cons c rest => exact List.dropWhile_cons_of_neg (ne_true_of_eq_false (stopsAt_cons.1 hrest))
  rw [Decimal.spanDigits, takeWhile_append_of_stopsAt hds hrest, List.dropWhile_append_of_pos hds, hdrop]

theorem spanDigits_of_digits {ds : List Char} (hds : ∀ d ∈ ds, d.isDigit = true) : Decimal.spanDigits ds = (ds, []) := by
  have h := spanDigits_append hds stopsAt_nil
  rwa [List.append_nil] at h

theorem exists_readUnsigned?_of_digits {ds : List Char} (hds : ∀ d ∈ ds, d.isDigit = true) (hne : ds ≠ []) :
    ∃ x, Decimal.readUnsigned? ds = some x := by
  simp [Decimal.readUnsigned?, spanDigits_of_digits hds, hne, Decimal.readExponent?]

theorem exists_readUnsigned?_of_point {ds fs : List Char} (hds : ∀ d ∈ ds, d.isDigit = true)
    (hfs : ∀ d ∈ fs, d.isDigit = true) (hne : ¬ (ds = [] ∧ fs = [])) :
    ∃ x, Decimal.readUnsigned? (ds ++ '.' :: fs) = some x := by
  have hpoint : Decimal.spanDigits (ds ++ '.' :: fs) = (ds, '.' :: fs) :=
    spanDigits_append hds (stopsAt_cons.2 (by decide))
  simp [Decimal.readUnsigned?, hpoint, spanDigits_of_digits hfs, Decimal.readExponent?]
  simpa using hne

/-- A number without its sign is read as such, or else as the name of a special one. -/
theorem exists_readMagnitude? (h : ∃ x, Decimal.readUnsigned? cs = some x) : ∃ x, Decimal.readMagnitude? cs = some x := by
  unfold Decimal.readMagnitude?
  dsimp only
  split
  · exact ⟨_, rfl⟩
  · split
    · exact ⟨_, rfl⟩
    · exact h

theorem exists_readFloat? (hc : c = '-' ∨ c.isDigit = true) (hminus : c = '-' → ∃ x, Decimal.readUnsigned? cs = some x)
    (hdigit : c.isDigit = true → ∃ x, Decimal.readUnsigned? (c :: cs) = some x) :
    ∃ x, Decimal.readFloat? (c :: cs) = some x := by
  unfold Decimal.readFloat?
  split
  · rename_i heq
    obtain ⟨rfl, rfl⟩ := List.cons.inj heq
    obtain ⟨x, hx⟩ := exists_readMagnitude? (hminus rfl)
    exact ⟨-x, by rw [hx]; rfl⟩
  · rename_i heq
    obtain ⟨rfl, -⟩ := List.cons.inj heq
    exact absurd hc (by decide)
  · rename_i hne _
    exact exists_readMagnitude? (hdigit (hc.resolve_left fun h => hne cs (by rw [h])))

theorem exists_hold? {n : Int} (hkind : kind ≠ .float) (hn : n = wholeValue t) (hrange : kind.InRange n) :
    ∃ v, kind.hold? n = some v ∧ kind.Denotes t v := by
  subst hn
  cases kind with
  | int =>
    obtain ⟨hlo, hhi⟩ := hrange
    exact ⟨_, if_pos ⟨hlo, hhi⟩, _, rfl, Int32.toInt_ofInt_of_le hlo (Int.lt_add_one_of_le hhi)⟩
  | long =>
    obtain ⟨hlo, hhi⟩ := hrange
    exact ⟨_, if_pos ⟨hlo, hhi⟩, _, rfl, Int64.toInt_ofInt_of_le hlo (Int.lt_add_one_of_le hhi)⟩
  | float => exact absurd rfl hkind

theorem hold?_of_not_inRange {n : Int} (hrange : ¬ kind.InRange n) : kind.hold? n = none := by
  cases kind with
  | int => exact if_neg hrange
  | long => exact if_neg hrange
  | float => rfl

/-- A text that shows a number has a value, if the kind has room for it. -/
theorem exists_value (h : kind.Resembles t) (hdigit : ∃ d ∈ t, d.isDigit = true) (hrange : kind.InRange (wholeValue t)) :
    ∃ v, kind.value? t = some v ∧ kind.Denotes t v := by
  have hfloat : (∃ x, Decimal.readFloat? t = some x) → ∃ v, float.value? t = some v ∧ float.Denotes t v :=
    fun ⟨x, hx⟩ => ⟨.float x, by rw [value?, hx]; rfl, x, rfl, hx⟩
  cases h with
  | nil => simp at hdigit
  | whole c ds hc hds =>
    by_cases hkind : kind = .float
    · subst hkind
      refine hfloat (exists_readFloat? hc (fun hminus => ?_) fun hc' => ?_)
      · subst hminus
        refine exists_readUnsigned?_of_digits hds ?_
        rintro rfl
        simp at hdigit
      · exact exists_readUnsigned?_of_digits (List.forall_mem_cons.2 ⟨hc', hds⟩) (List.cons_ne_nil _ _)
    · rw [value?_eq hkind, readInt?_of_whole hc hds hdigit, Option.bind_some]
      exact exists_hold? hkind rfl hrange
  | point c ds fs hkind hc hds hfs =>
    subst hkind
    refine hfloat (exists_readFloat? hc (fun hminus => ?_) fun hc' => ?_)
    · subst hminus
      refine exists_readUnsigned?_of_point hds hfs ?_
      rintro ⟨rfl, rfl⟩
      simp at hdigit
    · exact exists_readUnsigned?_of_point (List.forall_mem_cons.2 ⟨hc', hds⟩) hfs fun h => List.cons_ne_nil _ _ h.1

/-- A sign alone, or with a point behind it, is all that looks like a number and has no digit. -/
theorem eq_of_no_digit (h : kind.Resembles t) (hnone : ¬ ∃ d ∈ t, d.isDigit = true) :
    t = [] ∨ t = ['-'] ∨ (t = ['-', '.'] ∧ kind = .float) := by
  have hnil : ∀ {ds : List Char}, (∀ d ∈ ds, d.isDigit = true) → (∀ d ∈ ds, d ∈ t) → ds = [] := fun hds hsub =>
    List.eq_nil_iff_forall_not_mem.2 fun d hd => hnone ⟨d, hsub d hd, hds d hd⟩
  cases h with
  | nil => exact .inl rfl
  | whole c ds hc hds =>
    obtain rfl := hnil hds fun d hd => List.mem_cons_of_mem _ hd
    obtain rfl := hc.resolve_right fun hc' => hnone ⟨c, List.mem_cons_self, hc'⟩
    exact .inr (.inl rfl)
  | point c ds fs hkind hc hds hfs =>
    obtain rfl := hnil hds fun d hd => by simp [hd]
    obtain rfl := hnil hfs fun d hd => by simp [hd]
    obtain rfl := hc.resolve_right fun hc' => hnone ⟨c, List.mem_cons_self, hc'⟩
    exact .inr (.inr ⟨rfl, hkind⟩)

theorem value?_of_no_digit (h : kind.Resembles t) (hnone : ¬ ∃ d ∈ t, d.isDigit = true) : kind.value? t = none := by
  rcases eq_of_no_digit h hnone with rfl | rfl | ⟨rfl, rfl⟩
  · cases kind <;> rfl
  · cases kind <;> rfl
  · rfl

/-- A number out of range has no value. -/
theorem value?_of_not_inRange (h : kind.Resembles t) (hdigit : ∃ d ∈ t, d.isDigit = true)
    (hrange : ¬ kind.InRange (wholeValue t)) : kind.value? t = none := by
  have hkind : kind ≠ .float := by
    rintro rfl
    exact hrange trivial
  cases h with
  | nil => simp at hdigit
  | whole c ds hc hds =>
    rw [value?_eq hkind, readInt?_of_whole hc hds hdigit, Option.bind_some]
    exact hold?_of_not_inRange hrange
  | point c ds fs hfloat => exact absurd hfloat hkind

end NumberKind

namespace Parser

variable {kind : NumberKind} {s : State}

theorem number_parse_of_scan_nil (hs : s.failed = false) (hscan : kind.scan s.cursor.after = []) :
    (number kind).parse s =
      { s with name := (number kind).label, error := some (.notANumber (foundText s.cursor.peekChar)) } := by
  rw [parse_of_not_failed _ hs]
  simp only [number, hscan, List.isEmpty_nil, if_true, State.fail]

theorem number_parse_of_value_none (hs : s.failed = false) (hscan : kind.scan s.cursor.after ≠ [])
    (hvalue : kind.value? (kind.scan s.cursor.after) = none) : (number kind).parse s = { s with
      name := (number kind).label
      error := some (.invalidNumber (String.ofList (kind.scan s.cursor.after)) kind) } := by
  have hempty : ¬ (kind.scan s.cursor.after).isEmpty = true := by simpa using hscan
  rw [parse_of_not_failed _ hs]
  simp only [number, if_neg hempty, hvalue, State.fail]

theorem number_parse_of_value {v : Value} (hs : s.failed = false) (hscan : kind.scan s.cursor.after ≠ [])
    (hvalue : kind.value? (kind.scan s.cursor.after) = some v) : (number kind).parse s =
      { s.advance (kind.scan s.cursor.after).length with stack := s.stack ++ [v], name := (number kind).label } := by
  have hempty : ¬ (kind.scan s.cursor.after).isEmpty = true := by simpa using hscan
  rw [parse_of_not_failed _ hs]
  simp only [number, if_neg hempty, hvalue]
  rfl

/-- A number of the kind is made of the longest text `t` in front that looks like one. If `t` is empty there is no number, and if
`t` has no digit or shows a number out of range it is none of the kind: then only the error is new. Otherwise `t` is read and its value
pushed. A word is made of the longest text in front without white space, which must not be empty. -/
theorem maximal_munch (s : State) (hs : s.failed = false) :
    (∀ kind : NumberKind, ∃ t, LongestPrefix kind.Resembles s.cursor.after t ∧
      (t = [] → (number kind).parse s =
        { s with name := (number kind).label, error := some (.notANumber (foundText s.cursor.peekChar)) }) ∧
      (t ≠ [] → (¬ ∃ d ∈ t, d.isDigit = true) ∨ ¬ kind.InRange (NumberKind.wholeValue t) → (number kind).parse s =
        { s with name := (number kind).label, error := some (.invalidNumber (String.ofList t) kind) }) ∧
      ((∃ d ∈ t, d.isDigit = true) → kind.InRange (NumberKind.wholeValue t) → ∃ v, kind.Denotes t v ∧ (number kind).parse s =
        { s.advance t.length with stack := s.stack ++ [v], name := (number kind).label })) ∧
    ∃ t, LongestPrefix (fun u => ∀ c ∈ u, isBlank c = false) s.cursor.after t ∧
      (t = [] → word.parse s = { s with
        name := word.label, error := some (.mismatch "string of any length" (foundText s.cursor.peekChar)) }) ∧
      (t ≠ [] → word.parse s =
        { s.advance t.length with stack := s.stack ++ [.str (String.ofList t)], name := word.label }) := by
  refine ⟨fun kind => ?_, ?_⟩
  · have hlongest := kind.longest_scan s.cursor.after
    refine ⟨kind.scan s.cursor.after, hlongest, fun hnil => ?_, fun hne hnone => ?_, fun hdigit hrange => ?_⟩
    · exact number_parse_of_scan_nil hs hnil
    · refine number_parse_of_value_none hs hne ?_
      by_cases hdigit : ∃ d ∈ kind.scan s.cursor.after, d.isDigit = true
      · exact NumberKind.value?_of_not_inRange hlongest.holds hdigit (hnone.resolve_left (not_not_intro hdigit))
      · exact NumberKind.value?_of_no_digit hlongest.holds hdigit
    · obtain ⟨v, hvalue, hdenotes⟩ := NumberKind.exists_value hlongest.holds hdigit hrange
      obtain ⟨d, hd, -⟩ := hdigit
      exact ⟨v, hdenotes, number_parse_of_value hs (List.ne_nil_of_mem hd) hvalue⟩
  · refine ⟨s.cursor.after.takeWhile fun c => !isBlank c, .takeWhile_not isBlank _, fun hnil => ?_, fun hne => ?_⟩
    · rw [parse_of_not_failed _ hs]
      simp only [word, hnil, List.isEmpty_nil, if_true, State.fail]
    · rw [parse_of_not_failed _ hs]
      simp only [word, List.isEmpty_iff, if_neg hne]
      rfl

/-- One more than the greatest 32-bit number, a second point, and more of the same word. -/
theorem maximal_munch_words :
    let s := State.start "-02147483649.5.3x y"
    s.failed = false ∧
      (number .int).parse s =
        { s with name := "number(int)", error := some (.invalidNumber "-02147483649" .int) } ∧
      (∃ n : Int64, n.toInt = -2147483649 ∧ (number .long).parse s =
        { s.advance 12 with stack := [.long n], name := "number(long)" }) ∧
      (∃ x : Float, (number .float).parse s = { s.advance 14 with stack := [.float x], name := "number(float)" }) ∧
      word.parse s = { s.advance 17 with stack := [.str "-02147483649.5.3x"], name := "word()" } := by
  intro s
  obtain ⟨hnumber, t, ht, -, hword⟩ := maximal_munch s rfl
  have hint : ∀ kind : NumberKind, kind ≠ .float → kind.scan s.cursor.after = "-02147483649".toList := by
    intro kind hkind
    cases kind with
    | int => decide +kernel
    | long => decide +kernel
    | float => exact absurd rfl hkind
  have hfloat : NumberKind.float.scan s.cursor.after = "-02147483649.5".toList := by decide +kernel
  refine ⟨rfl, ?_, ?_, ?_, ?_⟩
  · obtain ⟨t, ht, -, hinvalid, -⟩ := hnumber .int
    obtain rfl := (ht.unique (NumberKind.longest_scan _ _)).trans (hint .int nofun)
    exact hinvalid (by decide) (.inr (by decide))
  · obtain ⟨t, ht, -, -, hvalue⟩ := hnumber .long
    obtain rfl := (ht.unique (NumberKind.longest_scan _ _)).trans (hint .long nofun)
    obtain ⟨v, ⟨n, rfl, hn⟩, hparse⟩ := hvalue ⟨'0', by decide, rfl⟩ (by decide)
    exact ⟨n, hn, hparse⟩
  · obtain ⟨t, ht, -, -, hvalue⟩ := hnumber .float
    obtain rfl := (ht.unique (NumberKind.longest_scan _ _)).trans hfloat
    obtain ⟨v, ⟨x, rfl, -⟩, hparse⟩ := hvalue ⟨'0', by decide, rfl⟩ trivial
    exact ⟨x, hparse⟩
  · obtain rfl := ht.unique (.takeWhile_not isBlank _)
    exact hword (by decide +kernel)

end Parser

end StackParser
