import StackParser.Json
import StackParser.Proofs.Document
import StackParser.Proofs.Writing
import Mathlib.Tactic.Ring

/-!
# Numbers in documents

* `NumberText` : the parts of a number as it is written, with its `text` and its `value`;
* `Document.readNumber?_text` : the text is read as the value, unless more of a number follows;
* `NumberText.ofInt` : how a whole number is written;
* `NumberText.scientific`, `NumberText.zerosBehind`, `NumberText.pointAmong`, `NumberText.zerosBetween` : the shapes in which a
  layout writes a decimal;
* `NumberText.exists_write` : whatever the layout, a finite floating-point number is written as a number. Its digits are all
  zero only for zero itself (`Binary.exponent_shortest_of_zero`), so no zeros are put in front of the point.
-/

namespace StackParser

namespace Decimal

/-! ## Decimals -/

/-- Zeros can be taken from the digits into the exponent. -/
theorem Scaled.value_shift (n k : Nat) (e : Int) : Scaled.value ⟨n * 10 ^ k, e - k⟩ = Scaled.value ⟨n, e⟩ := by
  have hpos : ∀ m : Nat, Nat.pow 10 m ≠ 0 := fun m => (Nat.pow_pos (by decide)).ne'
  rw [Scaled.value, Scaled.value, Rat.mkRat_eq_iff (hpos _) (hpos _)]
  have hexp : k + (e - k).toNat + (-e).toNat = e.toNat + (-(e - k)).toNat := by omega
  have hpow : 10 ^ k * 10 ^ (e - k).toNat * 10 ^ (-e).toNat = 10 ^ e.toNat * 10 ^ (-(e - k)).toNat := by
    rw [← pow_add, ← pow_add, ← pow_add, hexp]
  have hnat : n * 10 ^ k * 10 ^ (e - k).toNat * 10 ^ (-e).toNat = n * 10 ^ e.toNat * 10 ^ (-(e - k)).toNat := by
    rw [mul_assoc, mul_assoc, ← mul_assoc (10 ^ k), hpow, ← mul_assoc]
  exact_mod_cast hnat

theorem ofDigits_append (ds es : List Char) : ofDigits (ds ++ es) = ofDigits ds * 10 ^ es.length + ofDigits es := by
  rw [ofDigits, ofDigits, ofDigits, Nat.ofDigitChars_append, Nat.ofDigitChars_eq_ofDigitChars_zero, mul_comm]

theorem ofDigits_zeros (k : Nat) : ofDigits (List.replicate k '0') = 0 := by
  rw [ofDigits, Nat.ofDigitChars_replicate_zero, Nat.mul_zero]

theorem ofDigits_toDigits (n : Nat) : ofDigits (Nat.toDigits 10 n) = n :=
  Nat.ofDigitChars_toDigits (by decide) (by decide)

theorem isDigit_toDigits (n : Nat) : ∀ c ∈ Nat.toDigits 10 n, c.isDigit = true := fun _ hc =>
  Nat.isDigit_of_mem_toDigits (by decide) (by decide) hc

/-- Only the digits of zero begin with a zero. -/
theorem eq_zero_of_head_toDigits {n : Nat} (h : (Nat.toDigits 10 n).head? = some '0') : n = 0 := by
  induction n using Nat.strongRecOn with
  | ind n ih =>
    rw [Nat.toDigits_eq_if (by decide)] at h
    split at h
    · simpa using h
    · have hhead : (Nat.toDigits 10 (n / 10)).head? = some '0' := by
        obtain ⟨d, ds, hds⟩ := List.exists_cons_of_ne_nil (Nat.toDigits_ne_nil (n := n / 10) (b := 10))
        simpa [hds] using h
      have := ih (n / 10) (by omega) hhead
      omega

end Decimal

/-! ## Texts -/

/-- A number as it is written in a document. -/
structure NumberText where
  negative : Bool
  whole : List Char
  fraction : List Char
  exponent : Option Int
  whole_ne_nil : whole ≠ []
  isDigit_whole : ∀ c ∈ whole, c.isDigit = true
  length_whole : whole.head? = some '0' → whole.length = 1
  isDigit_fraction : ∀ c ∈ fraction, c.isDigit = true

namespace NumberText

variable (m : NumberText)

def sign : List Char := if m.negative then ['-'] else []

def point : List Char := if m.fraction.isEmpty then [] else '.' :: m.fraction

def power : List Char :=
  m.exponent.elim [] fun e => 'e' :: (if e < 0 then '-' else '+') :: Nat.toDigits 10 e.natAbs

def text : List Char := m.sign ++ (m.whole ++ (m.point ++ m.power))

def value : Rat := Document.numberOf m.negative m.whole m.fraction (m.exponent.getD 0)

end NumberText

/-! ## Reading -/

/-- What would be taken for more of a number. -/
def Document.inNumber (c : Char) : Bool := c.isDigit || c == '.' || c == 'e' || c == 'E'

section

variable {p q : Char → Bool} {cs rest : List Char}

theorem StopsAt.mono (h : StopsAt p rest) (hpq : ∀ c, q c = true → p c = true) : StopsAt q rest := fun c hc =>
  Bool.eq_false_iff.2 fun hq => Bool.eq_false_iff.1 (h c hc) (hpq c hq)

theorem StopsAt.append (hcs : StopsAt p cs) (hrest : StopsAt p rest) : StopsAt p (cs ++ rest) := by
  cases cs with
  | nil => exact hrest
  | cons c cs => exact stopsAt_cons.2 (stopsAt_cons.1 hcs)

end

namespace Document

variable {ds rest : List Char} (m : NumberText)

theorem readDigits?_append (hne : ds ≠ []) (hds : ∀ c ∈ ds, c.isDigit = true) (h : StopsAt Char.isDigit rest) :
    readDigits? (ds ++ rest) = some (ds, rest) := by
  have htake := takeWhile_append_of_stopsAt hds h
  have hdrop : (ds ++ rest).dropWhile Char.isDigit = rest := by
    have hsplit := List.takeWhile_append_dropWhile (p := Char.isDigit) (l := ds ++ rest)
    rw [htake] at hsplit
    exact List.append_cancel_left hsplit
  simp [readDigits?, Decimal.spanDigits, htake, hdrop, hne]

theorem readMinus_sign : readMinus (m.sign ++ (m.whole ++ rest)) = (m.negative, m.whole ++ rest) := by
  obtain ⟨d, ds, hwhole⟩ := List.exists_cons_of_ne_nil m.whole_ne_nil
  have hd : d ≠ '-' := by
    rintro rfl
    exact absurd (m.isDigit_whole '-' (by simp [hwhole])) (by decide)
  cases hneg : m.negative with
  | true => simp [NumberText.sign, hneg, readMinus]
  | false => simp [NumberText.sign, hneg, hwhole, readMinus, hd]

theorem readWhole?_append (h : StopsAt Char.isDigit rest) : readWhole? (m.whole ++ rest) = some (m.whole, rest) := by
  have hzero : ¬ (m.whole.head? = some '0' ∧ m.whole.length ≠ 1) := fun hz => hz.2 (m.length_whole hz.1)
  simp [readWhole?, readDigits?_append m.whole_ne_nil m.isDigit_whole h, hzero]

theorem readFraction?_append (h : StopsAt (fun c => c.isDigit || c == '.') rest) :
    readFraction? (m.point ++ rest) = some (m.fraction, rest) := by
  by_cases hnil : m.fraction = []
  · have hpoint : rest.head? ≠ some '.' := fun hhead => absurd (h '.' hhead) (by decide)
    cases rest with
    | nil => simp [NumberText.point, hnil, readFraction?]
    | cons c rest =>
      have hc : c ≠ '.' := by simpa using hpoint
      simp [NumberText.point, hnil, readFraction?, hc]
  · have hdigits := readDigits?_append hnil m.isDigit_fraction (h.mono fun c hc => by simp [hc])
    simp [NumberText.point, hnil, readFraction?, hdigits]

theorem readExponent?_append (h : StopsAt inNumber rest) :
    readExponent? (m.power ++ rest) = some (m.exponent.getD 0, rest) := by
  cases hexp : m.exponent with
  | none =>
    cases rest with
    | nil => simp [NumberText.power, hexp, readExponent?]
    | cons c rest =>
      have hc : ¬ (c = 'e' ∨ c = 'E') := by
        rintro (rfl | rfl) <;> exact absurd (stopsAt_cons.1 h) (by decide)
      simp [NumberText.power, hexp, readExponent?, hc]
  | some e =>
    have hdigits : readDigits? (Nat.toDigits 10 e.natAbs ++ rest) = some (Nat.toDigits 10 e.natAbs, rest) :=
      readDigits?_append Nat.toDigits_ne_nil (Decimal.isDigit_toDigits _) (h.mono fun c hc => by simp [inNumber, hc])
    have hvalue := Decimal.ofDigits_toDigits e.natAbs
    by_cases hneg : e < 0
    · have habs : -(e.natAbs : Int) = e := by omega
      have hsigned : readSigned? ('-' :: (Nat.toDigits 10 e.natAbs ++ rest)) = some (e, rest) := by
        rw [readSigned?, hdigits, Option.map_some, hvalue, habs]
      simpa [NumberText.power, hexp, readExponent?, hneg] using hsigned
    · have habs : (e.natAbs : Int) = e := by omega
      have hsigned : readSigned? ('+' :: (Nat.toDigits 10 e.natAbs ++ rest)) = some (e, rest) := by
        rw [readSigned?, hdigits, Option.map_some, hvalue, habs]
      simpa [NumberText.power, hexp, readExponent?, hneg] using hsigned

theorem stopsAt_power : StopsAt (fun c => c.isDigit || c == '.') m.power := by
  cases hexp : m.exponent with
  | none => simpa [NumberText.power, hexp] using stopsAt_nil
  | some e => simpa [NumberText.power, hexp] using stopsAt_cons.2 (by decide)

theorem stopsAt_point : StopsAt Char.isDigit m.point := by
  unfold NumberText.point
  split
  · exact stopsAt_nil
  · exact stopsAt_cons.2 (by decide)

/-- A number is read whole. -/
theorem readNumber?_text (h : StopsAt inNumber rest) : readNumber? (m.text ++ rest) = some (m.value, rest) := by
  have hpower : StopsAt (fun c => c.isDigit || c == '.') (m.power ++ rest) :=
    (stopsAt_power m).append (h.mono fun c hc => by
      rcases Bool.or_eq_true_iff.1 hc with hc | hc <;> simp [inNumber, hc])
  have hpoint : StopsAt Char.isDigit (m.point ++ (m.power ++ rest)) :=
    (stopsAt_point m).append (hpower.mono fun c hc => by simp [hc])
  have htext : m.text ++ rest = m.sign ++ (m.whole ++ (m.point ++ (m.power ++ rest))) := by simp [NumberText.text]
  simp only [readNumber?, htext, readMinus_sign m, readWhole?_append m hpoint, readFraction?_append m hpower,
    readExponent?_append m h, Option.bind_eq_bind, Option.bind_some]
  rfl

end Document

/-! ## Whole numbers -/

namespace NumberText

theorem length_toDigits_of_head {n : Nat} (h : (Nat.toDigits 10 n).head? = some '0') :
    (Nat.toDigits 10 n).length = 1 := by
  rw [Decimal.eq_zero_of_head_toDigits h, Nat.toDigits_zero, List.length_singleton]

def ofInt (n : Int) : NumberText where
  negative := (Numeral.ofInt n).negative
  whole := (Numeral.ofInt n).digits
  fraction := []
  exponent := none
  whole_ne_nil := (Numeral.ofInt n).digits_ne_nil
  isDigit_whole := (Numeral.ofInt n).isDigit
  length_whole := length_toDigits_of_head
  isDigit_fraction := fun _ hc => nomatch hc

theorem text_ofInt (n : Int) : (ofInt n).text = (toString n).toList := by
  have hsign : (ofInt n).sign = (Numeral.ofInt n).sign := rfl
  rw [← Numeral.text_ofInt n, text, hsign]
  simp [point, power, ofInt, Numeral.text]

theorem value_ofInt (n : Int) : (ofInt n).value = n := by
  have hvalue : ∀ k : Nat, Decimal.Scaled.value ⟨k, 0⟩ = (k : Rat) := fun k => by
    simp [Decimal.Scaled.value, Rat.mkRat_one]
  have hint : ((Numeral.ofInt n).value : Rat) = n := by rw [Numeral.value_ofInt]
  rw [← hint, Numeral.value]
  cases hneg : (Numeral.ofInt n).negative <;> simp [value, Document.numberOf, ofInt, hneg, hvalue]

end NumberText

/-! ## Floating-point numbers -/

namespace Decimal

/-- No decimal without digits reads back as a number other than zero. -/
theorem Binary.digits_ne_zero_of_readsBack {x : Binary} {d : Scaled} (hx : x.mantissa ≠ 0)
    (h : x.readsBack d = true) : d.digits ≠ 0 := by
  intro hzero
  have hpos : ∀ m k : Nat, 0 < Nat.pow m.succ k := fun m k => Nat.pow_pos m.succ_pos
  have hlow : compareScaled d.digits d.exponent (if x.narrowBelow then 4 * x.mantissa - 1 else 4 * x.mantissa - 2)
      (x.exponent - 2) = .lt := by
    rw [compareScaled, hzero, Nat.zero_mul, Nat.zero_mul, Nat.compare_eq_lt]
    have hmantissa : 0 < if x.narrowBelow then 4 * x.mantissa - 1 else 4 * x.mantissa - 2 := by split <;> omega
    exact Nat.mul_pos (Nat.mul_pos hmantissa (hpos 1 _)) (hpos 9 _)
  simp [Binary.readsBack, hlow] at h

theorem Binary.readsBack_of_onGrid? {x : Binary} {tie : Tie} {e : Int} {d : Scaled} (h : x.onGrid? tie e = some d) :
    x.readsBack d = true := by
  unfold Binary.onGrid? at h
  dsimp only at h
  split at h
  · exact nomatch h
  · rename_i hbelow _
    exact Option.some.inj h ▸ hbelow
  · rename_i habove
    exact Option.some.inj h ▸ habove
  · rename_i hbelow habove
    split at h
    · exact Option.some.inj h ▸ hbelow
    · exact Option.some.inj h ▸ habove
    · split at h
      · exact Option.some.inj h ▸ habove
      · obtain rfl := Option.some.inj h
        split
        · exact hbelow
        · exact habove

theorem Binary.digits_exact_ne_zero {x : Binary} (hx : x.mantissa ≠ 0) : x.exact.digits ≠ 0 := by
  have hpos : ∀ m k : Nat, 0 < Nat.pow m.succ k := fun m k => Nat.pow_pos m.succ_pos
  unfold Binary.exact
  split
  · exact Nat.mul_ne_zero hx (hpos 1 _).ne'
  · exact Nat.mul_ne_zero hx (hpos 4 _).ne'

theorem Scaled.digits_strip_ne_zero {d : Scaled} (h : d.digits ≠ 0) : d.strip.digits ≠ 0 := by
  fun_induction Scaled.strip d with
  | case1 d hd ih => exact ih (by simp; omega)
  | case2 d hd => exact h

/-- Zero is the decimal without an exponent. -/
theorem Binary.exponent_shortest_of_zero {x : Binary} {tie : Tie} (h : (x.shortest tie).digits = 0) :
    (x.shortest tie).exponent = 0 := by
  unfold Binary.shortest at h ⊢
  split
  · rfl
  · rename_i hx
    rw [if_neg hx] at h
    refine absurd h (Scaled.digits_strip_ne_zero ?_)
    cases hhit : (List.range 17).findSome? fun (n : Nat) => x.onGrid? tie (x.scale - (n + 1)) with
    | none => exact digits_exact_ne_zero hx
    | some d =>
      obtain ⟨n, -, hn⟩ := List.exists_of_findSome?_eq_some hhit
      exact digits_ne_zero_of_readsBack hx (readsBack_of_onGrid? hn)

/-- The number that a finite floating-point number is written as. -/
def shortestValue (tie : Tie) (x : Float) : Rat :=
  let magnitude := ((Binary.ofBits x.toBits).shortest tie).value
  if x.toBits >>> 63 = 0 then magnitude else -magnitude

end Decimal

namespace NumberText

open Decimal

/-- Without a sign, `cs` is a number that stands for `d`. -/
def Writes (cs : List Char) (d : Scaled) : Prop :=
  ∃ m : NumberText, m.negative = false ∧ m.text = cs ∧ m.value = d.value

variable {d : Scaled}

/-- A number may have the digits of a decimal and `k` zeros behind them. -/
theorem writes_of_parts {m : NumberText} {cs : List Char} (k : Nat) (hsign : m.negative = false)
    (htext : m.whole ++ (m.point ++ m.power) = cs) (hdigits : ofDigits (m.whole ++ m.fraction) = d.digits * 10 ^ k)
    (hexp : m.exponent.getD 0 - m.fraction.length = d.exponent - k) : Writes cs d := by
  refine ⟨m, hsign, ?_, ?_⟩
  · simp [text, sign, hsign, htext]
  · simp [value, Document.numberOf, hsign, hdigits, hexp, Scaled.value_shift]

theorem isDigit_zeros (k : Nat) : ∀ c ∈ List.replicate k '0', c.isDigit = true := fun c hc => by
  rw [List.eq_of_mem_replicate hc]
  decide

theorem isDigit_append {ds es : List Char} (hds : ∀ c ∈ ds, c.isDigit = true) (hes : ∀ c ∈ es, c.isDigit = true) :
    ∀ c ∈ ds ++ es, c.isDigit = true := fun c hc => (List.mem_append.1 hc).elim (hds c) (hes c)

/-! ### Shapes -/

/-- The first of the digits, and the others behind a point, with an exponent. -/
def scientific (d : Scaled) : NumberText where
  negative := false
  whole := (Nat.toDigits 10 d.digits).take 1
  fraction := (Nat.toDigits 10 d.digits).drop 1
  exponent := some (d.exponent + (Nat.toDigits 10 d.digits).length - 1)
  whole_ne_nil := by simp [Nat.toDigits_ne_nil]
  isDigit_whole := fun c hc => isDigit_toDigits _ c (List.mem_of_mem_take hc)
  length_whole := fun _ => by
    have hlength : 0 < (Nat.toDigits 10 d.digits).length := Nat.length_toDigits_pos
    rw [List.length_take]
    omega
  isDigit_fraction := fun c hc => isDigit_toDigits _ c (List.mem_of_mem_drop hc)

/-- The digits and zeros behind them, `places` of these behind the point. -/
def zerosBehind (d : Scaled) (places : Nat) (hd : d.digits = 0 → d.exponent = 0) : NumberText where
  negative := false
  whole := Nat.toDigits 10 d.digits ++ List.replicate d.exponent.toNat '0'
  fraction := List.replicate places '0'
  exponent := none
  whole_ne_nil := by simp [Nat.toDigits_ne_nil]
  isDigit_whole := isDigit_append (isDigit_toDigits _) (isDigit_zeros _)
  length_whole := fun hhead => by
    have hzero : (Nat.toDigits 10 d.digits).head? = some '0' := by
      obtain ⟨c, cs, hcs⟩ := List.exists_cons_of_ne_nil (Nat.toDigits_ne_nil (n := d.digits) (b := 10))
      simpa [hcs] using hhead
    simp [length_toDigits_of_head hzero, hd (eq_zero_of_head_toDigits hzero)]
  isDigit_fraction := isDigit_zeros _

/-- The digits with the point behind the first `k`. -/
def pointAmong (d : Scaled) (k : Nat) (hk : k ≠ 0) (hd : d.digits ≠ 0) : NumberText where
  negative := false
  whole := (Nat.toDigits 10 d.digits).take k
  fraction := (Nat.toDigits 10 d.digits).drop k
  exponent := none
  whole_ne_nil := by simp [Nat.toDigits_ne_nil, hk]
  isDigit_whole := fun c hc => isDigit_toDigits _ c (List.mem_of_mem_take hc)
  length_whole := fun hhead => by
    rw [List.head?_take, if_neg hk] at hhead
    exact absurd (eq_zero_of_head_toDigits hhead) hd
  isDigit_fraction := fun c hc => isDigit_toDigits _ c (List.mem_of_mem_drop hc)

/-- The digits behind the point, with `k` zeros between. -/
def zerosBetween (d : Scaled) (k : Nat) : NumberText where
  negative := false
  whole := ['0']
  fraction := List.replicate k '0' ++ Nat.toDigits 10 d.digits
  exponent := none
  whole_ne_nil := List.cons_ne_nil _ _
  isDigit_whole := isDigit_zeros 1
  length_whole := fun _ => List.length_singleton
  isDigit_fraction := isDigit_append (isDigit_zeros _) (isDigit_toDigits _)

theorem writes_scientific :
    Writes (Layout.scientific (Nat.toDigits 10 d.digits) (d.exponent + (Nat.toDigits 10 d.digits).length - 1)) d := by
  have hlength : 0 < (Nat.toDigits 10 d.digits).length := Nat.length_toDigits_pos
  refine writes_of_parts (m := scientific d) 0 rfl ?_ ?_ ?_
  · simp only [scientific, point, power, Layout.scientific, List.isEmpty_iff, List.drop_eq_nil_iff, Option.elim_some]
    simp
  · simp only [scientific, List.take_append_drop, ofDigits_toDigits, pow_zero, mul_one]
  · simp only [scientific, Option.getD_some, List.length_drop]
    omega

theorem writes_plain_whole (pointZero : Bool) (hd : d.digits = 0 → d.exponent = 0) (hexp : 0 ≤ d.exponent) :
    Writes (Layout.plain pointZero (Nat.toDigits 10 d.digits) d.exponent) d := by
  let places := if pointZero then 1 else 0
  refine writes_of_parts (m := zerosBehind d places hd) (d.exponent.toNat + places) rfl ?_ ?_ ?_
  · cases pointZero <;> simp [zerosBehind, places, point, power, Layout.plain, hexp]
  · simp only [zerosBehind, List.append_assoc, List.replicate_append_replicate, ofDigits_append, ofDigits_zeros,
      ofDigits_toDigits, List.length_replicate, add_zero]
  · simp only [zerosBehind, Option.getD_none, List.length_replicate]
    omega

theorem writes_plain_among (pointZero : Bool) (hd : d.digits = 0 → d.exponent = 0) (hexp : d.exponent < 0)
    (hplaces : (-d.exponent).toNat < (Nat.toDigits 10 d.digits).length) :
    Writes (Layout.plain pointZero (Nat.toDigits 10 d.digits) d.exponent) d := by
  have hk : (Nat.toDigits 10 d.digits).length - (-d.exponent).toNat ≠ 0 := by omega
  have hdigits : d.digits ≠ 0 := fun hzero => by
    have := hd hzero
    omega
  refine writes_of_parts (m := pointAmong d _ hk hdigits) 0 rfl ?_ ?_ ?_
  · have hdrop : ¬ (Nat.toDigits 10 d.digits).length ≤ (Nat.toDigits 10 d.digits).length - (-d.exponent).toNat := by omega
    have hneg : ¬ 0 ≤ d.exponent := by omega
    simp only [pointAmong, point, power, Layout.plain, List.isEmpty_iff, List.drop_eq_nil_iff, if_neg hdrop, if_neg hneg,
      if_pos hplaces, Option.elim_none, List.append_nil]
  · simp only [pointAmong, List.take_append_drop, ofDigits_toDigits, pow_zero, mul_one]
  · simp only [pointAmong, Option.getD_none, List.length_drop]
    omega

theorem writes_plain_behind (pointZero : Bool) (hexp : d.exponent < 0)
    (hplaces : (Nat.toDigits 10 d.digits).length ≤ (-d.exponent).toNat) :
    Writes (Layout.plain pointZero (Nat.toDigits 10 d.digits) d.exponent) d := by
  let k := (-d.exponent).toNat - (Nat.toDigits 10 d.digits).length
  refine writes_of_parts (m := zerosBetween d k) 0 rfl ?_ ?_ ?_
  · have hneg : ¬ 0 ≤ d.exponent := by omega
    simp [zerosBetween, k, point, power, Layout.plain, hneg, hplaces, Nat.toDigits_ne_nil]
  · have hzeros : ['0'] ++ List.replicate k '0' = List.replicate (k + 1) '0' := rfl
    simp only [zerosBetween, ← List.append_assoc, hzeros, ofDigits_append, ofDigits_zeros, ofDigits_toDigits, zero_mul,
      zero_add, pow_zero, mul_one]
  · simp only [zerosBetween, k, Option.getD_none, List.length_append, List.length_replicate]
    omega

/-- Every layout writes numbers. -/
theorem writes_scaled (l : Layout) (hd : d.digits = 0 → d.exponent = 0) : Writes (l.scaled d) d := by
  unfold Layout.scaled
  dsimp only
  split
  · by_cases hexp : 0 ≤ d.exponent
    · exact writes_plain_whole _ hd hexp
    · by_cases hplaces : (-d.exponent).toNat < (Nat.toDigits 10 d.digits).length
      · exact writes_plain_among _ hd (by omega) hplaces
      · exact writes_plain_behind _ (by omega) (by omega)
  · exact writes_scientific

theorem exists_write (l : Layout) (x : Float) : ∃ m : NumberText, m.text = l.write x ∧ m.value = shortestValue l.tie x := by
  have hwrites : Writes (l.scaled ((Binary.ofBits x.toBits).shortest l.tie)) ((Binary.ofBits x.toBits).shortest l.tie) :=
    writes_scaled l Binary.exponent_shortest_of_zero
  obtain ⟨m, hsign, htext, hvalue⟩ := hwrites
  by_cases hpositive : x.toBits >>> 63 = 0
  · exact ⟨m, by simp [Layout.write, hpositive, htext], by simp [shortestValue, hpositive, hvalue]⟩
  · refine ⟨{ m with negative := true }, ?_, ?_⟩
    · simp only [Layout.write, if_neg hpositive, ← htext]
      simp [text, sign, point, power, hsign]
    · simp only [shortestValue, if_neg hpositive, ← hvalue]
      simp [value, Document.numberOf, hsign]

end NumberText

end StackParser
