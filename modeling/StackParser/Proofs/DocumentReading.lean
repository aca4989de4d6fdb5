import StackParser.Proofs.NumberTexts

/-!
# Reading what is written

`Json.read?_compact` : the text of a document is read as the document, if its numbers are written as numbers
(`Json.Numeric`).

A part in a text is read by one function, whatever follows it but more of a number (`Document.Decodes`). For strings this
is shown character by character, for arrays and objects part by part.
-/

namespace StackParser

/-! ## Strings -/

namespace Document

open Json

theorem hexEscape_eq : ∀ n < 0x20,
    hexEscape n = ['\\', 'u', '0', '0', Nat.digitChar (n / 0x10), Nat.digitChar (n % 0x10)] := by decide

theorem hexDigit?_digitChar : ∀ n < 0x10, hexDigit? (Nat.digitChar n) = some n := by decide

theorem readHex?_digits {n : Nat} (hn : n < 0x20) (rest : List Char) :
    readHex? ('0' :: '0' :: Nat.digitChar (n / 0x10) :: Nat.digitChar (n % 0x10) :: rest) = some (n, rest) := by
  have hzero : hexDigit? '0' = some 0 := rfl
  have hhigh := hexDigit?_digitChar (n / 0x10) (by omega)
  have hlow := hexDigit?_digitChar (n % 0x10) (by omega)
  simp [readHex?, hzero, hhigh, hlow]
  omega

/-- A character is written behind a backslash as a letter, as its code, or as itself. -/
theorem escape_cases (c : Char) :
    (∃ letter, escape c = ['\\', letter] ∧ escaped? letter = some c) ∨
    (escape c = hexEscape c.toNat ∧ c.toNat < 0x20) ∨
    (escape c = [c] ∧ c ≠ '"' ∧ c ≠ '\\' ∧ ¬ c.toNat < 0x20) := by
  unfold escape
  split
  iterate 7 exact .inl ⟨_, rfl, rfl⟩
  rename_i hquote hbackslash _ _ _ _ _
  split
  · rename_i hcontrol
    exact .inr (.inl ⟨rfl, hcontrol⟩)
  · rename_i hprinted
    exact .inr (.inr ⟨rfl, hquote, hbackslash, hprinted⟩)

theorem readChar?_escape (c : Char) (rest : List Char) : readChar? (escape c ++ rest) = some (c, rest) := by
  rcases escape_cases c with ⟨letter, hescape, hletter⟩ | ⟨hescape, hcontrol⟩ | ⟨hescape, hquote, hbackslash, hprinted⟩
  · have hu : letter ≠ 'u' := by
      rintro rfl
      exact nomatch hletter
    simp [hescape, readChar?, hletter]
  · have hlow : ¬ 0xD800 ≤ c.toNat := by omega
    have hhigh : ¬ 0xDC00 ≤ c.toNat := by omega
    simp [hescape, hexEscape_eq _ hcontrol, readChar?, readCode?, readHex?_digits hcontrol, hlow, hhigh]
  · simp [hescape, readChar?, hquote, hbackslash, Nat.not_lt.1 hprinted]

theorem head_escape (c : Char) : ∃ x xs, escape c = x :: xs ∧ x ≠ '"' := by
  rcases escape_cases c with ⟨letter, hescape, -⟩ | ⟨hescape, -⟩ | ⟨hescape, hquote, -⟩
  · exact ⟨_, _, hescape, by decide⟩
  · exact ⟨_, _, hescape, by decide⟩
  · exact ⟨_, _, hescape, hquote⟩

theorem length_le_flatMap_escape (cs : List Char) : cs.length ≤ (cs.flatMap escape).length := by
  induction cs with
  | nil => exact Nat.le_refl 0
  | cons c cs ih =>
    obtain ⟨x, xs, hescape, -⟩ := head_escape c
    simp only [List.flatMap_cons, List.length_append, List.length_cons, hescape]
    omega

theorem readText?_escape (cs rest : List Char) {fuel : Nat} (hfuel : cs.length < fuel) :
    readText? fuel (cs.flatMap escape ++ '"' :: rest) = some (cs, rest) := by
  induction cs generalizing fuel with
  | nil =>
    obtain ⟨fuel, rfl⟩ : ∃ n, fuel = n + 1 := ⟨fuel - 1, by omega⟩
    rfl
  | cons c cs ih =>
    obtain ⟨fuel, rfl⟩ : ∃ n, fuel = n + 1 := ⟨fuel - 1, by omega⟩
    obtain ⟨x, xs, hescape, hx⟩ := head_escape c
    have hchar := readChar?_escape c (cs.flatMap escape ++ '"' :: rest)
    rw [hescape, List.cons_append] at hchar
    rw [List.flatMap_cons, List.append_assoc, hescape, List.cons_append,
      readText?.eq_3 _ _ (by simp [hx]), hchar]
    simp only [Option.bind_eq_bind, Option.bind_some]
    rw [ih (by simpa using hfuel)]
    rfl

theorem readString?_quote (text : String) (rest : List Char) :
    readString? (text.toList.flatMap escape ++ '"' :: rest) = some (text, rest) := by
  have hlength := length_le_flatMap_escape text.toList
  rw [readString?, readText?_escape _ _ (by simp only [List.length_append, List.length_cons]; omega)]
  simp

/-! ## Parts -/

def Closes (c : Char) : Prop := c = ']' ∨ c = '\x7d'

instance (c : Char) : Decidable (Closes c) := inferInstanceAs (Decidable (_ ∨ _))

theorem Closes.apart {c : Char} (h : Closes c) : isSpace c = false ∧ c ≠ ',' ∧ inNumber c = false := by
  rcases h with rfl | rfl <;> decide

/-- A text is read as `x`, whatever follows it but more of a number. Its first character is neither white space nor a
closing bracket. -/
structure Decodes {α : Type} (part? : List Char → Option (α × List Char)) (x : α) (text : List Char) : Prop where
  opens : ∃ c cs, text = c :: cs ∧ isSpace c = false ∧ ¬ Closes c
  reads : ∀ rest, StopsAt inNumber rest → part? (text ++ rest) = some (x, rest)

section

variable {α : Type} {part? : List Char → Option (α × List Char)} {xs : List α} {parts : List (List Char)}
  {closing : Char}

theorem isSpace_of_isDigit {c : Char} (hc : c.isDigit = true) : isSpace c = false := by
  refine Bool.eq_false_iff.2 fun hspace => ?_
  simp only [isSpace, Bool.or_eq_true, beq_iff_eq] at hspace
  rcases hspace with ((rfl | rfl) | rfl) | rfl <;> exact absurd hc (by decide)

theorem skipSpace_of_head {c : Char} (cs : List Char) (hc : isSpace c = false) : skipSpace (c :: cs) = c :: cs := by
  simp [skipSpace, hc]

theorem readParts?_intercalate (hclosing : Closes closing) (hparts : List.Forall₂ (Decodes part?) xs parts)
    (hne : parts ≠ []) {fuel : Nat} (hfuel : parts.length ≤ fuel) (rest : List Char) :
    readParts? part? closing fuel ([','].intercalate parts ++ closing :: rest) = some (xs, rest) := by
  obtain ⟨hspace, hcomma, hnumber⟩ := hclosing.apart
  have hstops : StopsAt inNumber (closing :: rest) := stopsAt_cons.2 hnumber
  induction hparts generalizing fuel with
  | nil => exact absurd rfl hne
  | @cons x part xs parts hpart hparts ih =>
    obtain ⟨fuel, rfl⟩ : ∃ n, fuel = n + 1 := ⟨fuel - 1, by simp at hfuel; omega⟩
    cases parts with
    | nil =>
      cases hparts
      rw [List.intercalate_singleton, readParts?, hpart.reads _ hstops]
      simp [skipSpace_of_head _ hspace]
    | cons next parts =>
      have hreads := hpart.reads (',' :: ([','].intercalate (next :: parts) ++ closing :: rest))
        (stopsAt_cons.2 (by decide))
      have hfew : (next :: parts).length ≤ fuel := by simpa using hfuel
      have hothers := ih (by simp) hfew
      rw [List.intercalate_cons_cons, List.append_assoc, List.append_assoc, List.singleton_append, readParts?, hreads]
      simp [skipSpace_of_head _ (show isSpace ',' = false by decide), hcomma.symm, hothers]

theorem readBracketed?_intercalate (hclosing : Closes closing) (hparts : List.Forall₂ (Decodes part?) xs parts)
    {fuel : Nat} (hfuel : parts.length ≤ fuel) (rest : List Char) :
    readBracketed? part? closing fuel ([','].intercalate parts ++ closing :: rest) = some (xs, rest) := by
  cases hparts with
  | nil => simp [readBracketed?, skipSpace_of_head _ hclosing.apart.1]
  | @cons x part xs parts hpart hparts =>
    obtain ⟨c, cs, hcs, hspace, hopens⟩ := hpart.opens
    have hc : c ≠ closing := ne_of_apply_ne Closes fun h => hopens (h ▸ hclosing)
    obtain ⟨tail, htail⟩ : ∃ tail, [','].intercalate (part :: parts) ++ closing :: rest = c :: tail := by
      cases parts <;> simp [hcs]
    have hreads := readParts?_intercalate hclosing (.cons hpart hparts) (by simp) hfuel rest
    rw [htail] at hreads
    rw [htail, readBracketed?, skipSpace_of_head _ hspace]
    simp [hc, hreads]

end

/-! ## Lengths -/

theorem length_le_intercalate {parts : List (List Char)} {part : List Char} (h : part ∈ parts) :
    part.length ≤ ([','].intercalate parts).length := by
  induction parts with
  | nil => exact nomatch h
  | cons first parts ih =>
    cases parts with
    | nil => simp_all
    | cons next parts =>
      rw [List.intercalate_cons_cons, List.length_append, List.length_append]
      rcases List.mem_cons.1 h with rfl | h
      · omega
      · have := ih h
        omega

theorem length_parts_le (parts : List (List Char)) : parts.length ≤ ([','].intercalate parts).length + 1 := by
  induction parts with
  | nil => exact Nat.zero_le _
  | cons first parts ih =>
    cases parts with
    | nil => simp
    | cons next parts =>
      rw [List.intercalate_cons_cons, List.length_append, List.length_append]
      simp only [List.length_cons, List.length_nil] at ih ⊢
      omega

/-- The fuel that comes up to a text in brackets leaves enough for its parts. -/
theorem exists_fuel {parts : List (List Char)} {opening closing : Char} {fuel : Nat}
    (h : (opening :: [','].intercalate parts ++ [closing]).length ≤ fuel) :
    ∃ n, fuel = n + 1 ∧ parts.length ≤ n ∧ ∀ part ∈ parts, part.length ≤ n := by
  have hnumber := length_parts_le parts
  simp only [List.length_append, List.length_cons, List.length_nil] at h
  refine ⟨fuel - 1, by omega, by omega, fun part hpart => ?_⟩
  have := length_le_intercalate hpart
  omega

end Document

/-! ## Documents -/

namespace Json

mutual

/-- All numbers in it are written as numbers. -/
def Numeric : Json → Prop
  | .number text => ∃ m : NumberText, m.text = text
  | .array items => NumericItems items
  | .object members => NumericMembers members
  | _ => True

def NumericItems : List Json → Prop
  | [] => True
  | j :: js => Numeric j ∧ NumericItems js

def NumericMembers : List (String × Json) → Prop
  | [] => True
  | (_, j) :: rest => Numeric j ∧ NumericMembers rest

end

mutual

/-- What it says. -/
def document : Json → Document
  | .null => .null
  | .number text => .number ((Document.readNumber? text).elim 0 Prod.fst)
  | .string text => .string text
  | .array items => .array (documentItems items)
  | .object members => .object (documentMembers members)

def documentItems : List Json → List Document
  | [] => []
  | j :: js => document j :: documentItems js

def documentMembers : List (String × Json) → List (String × Document)
  | [] => []
  | (name, j) :: rest => (name, document j) :: documentMembers rest

end

open Document

theorem document_number (m : NumberText) : (Json.number m.text).document = .number m.value := by
  have h := readNumber?_text m stopsAt_nil
  rw [List.append_nil] at h
  simp [document, h]

/-- A number begins like no other document. -/
theorem head_number (m : NumberText) : ∃ c cs, m.text = c :: cs ∧ (c = '-' ∨ c.isDigit = true) := by
  obtain ⟨d, ds, hwhole⟩ := List.exists_cons_of_ne_nil m.whole_ne_nil
  have hd : d.isDigit = true := m.isDigit_whole d (by simp [hwhole])
  cases hneg : m.negative with
  | true => exact ⟨'-', m.whole ++ (m.point ++ m.power), by simp [NumberText.text, NumberText.sign, hneg], .inl rfl⟩
  | false => exact ⟨d, ds ++ (m.point ++ m.power), by simp [NumberText.text, NumberText.sign, hneg, hwhole], .inr hd⟩

theorem decodes_number (m : NumberText) (fuel : Nat) : Decodes (readValue? (fuel + 1)) (.number m.value) m.text := by
  obtain ⟨c, cs, hcs, hc⟩ := head_number m
  have hother : ∀ x : Char, x ≠ '-' → x.isDigit = false → c ≠ x := by
    rintro x hminus hdigit rfl
    rcases hc with rfl | hc
    · exact hminus rfl
    · exact Bool.eq_false_iff.1 hdigit hc
  have hspace : isSpace c = false := by
    rcases hc with rfl | hc
    · decide
    · exact isSpace_of_isDigit hc
  have hopens : ¬ Closes c := not_or.2 ⟨hother _ (by decide) (by decide), hother _ (by decide) (by decide)⟩
  refine ⟨⟨c, cs, hcs, hspace, hopens⟩, fun rest hrest => ?_⟩
  have hreads := readNumber?_text m hrest
  rw [hcs, List.cons_append] at hreads ⊢
  have hword : readWord? (c :: (cs ++ rest)) = none := by
    simp [readWord?, words, (hother 'n' (by decide) (by decide)).symm, (hother 't' (by decide) (by decide)).symm,
      (hother 'f' (by decide) (by decide)).symm]
  rw [readValue?, skipSpace_of_head _ hspace]
  split
  iterate 3
    rename_i heq
    exact absurd (List.cons.inj heq).1 (hother _ (by decide) (by decide))
  rw [hword, hreads]
  rfl

theorem decodes_null (fuel : Nat) : Decodes (readValue? (fuel + 1)) .null ['n', 'u', 'l', 'l'] :=
  ⟨⟨'n', _, rfl, by decide, by decide⟩, fun _ _ => rfl⟩

theorem decodes_string (text : String) (fuel : Nat) :
    Decodes (readValue? (fuel + 1)) (.string text) (quote text) := by
  refine ⟨⟨'"', _, rfl, by decide, by decide⟩, fun rest _ => ?_⟩
  have htext : quote text ++ rest = '"' :: (text.toList.flatMap escape ++ '"' :: rest) := by simp [quote]
  rw [htext, readValue?, skipSpace_of_head _ (by decide)]
  simp [readString?_quote]

/-- Arrays and objects are read alike. -/
theorem decodes_bracketed {α : Type} {part? : List Char → Option (α × List Char)} {xs : List α}
    {parts : List (List Char)} {opening closing : Char} {d : Document} {fuel : Nat}
    (hopening : isSpace opening = false ∧ ¬ Closes opening) (hclosing : Closes closing)
    (hvalue : ∀ cs rest, readBracketed? part? closing fuel cs = some (xs, rest) →
      readValue? (fuel + 1) (opening :: cs) = some (d, rest))
    (hparts : List.Forall₂ (Decodes part?) xs parts) (hfuel : parts.length ≤ fuel) :
    Decodes (readValue? (fuel + 1)) d (opening :: [','].intercalate parts ++ [closing]) := by
  refine ⟨⟨opening, _, rfl, hopening⟩, fun rest _ => ?_⟩
  rw [List.cons_append, List.cons_append, List.append_assoc, List.singleton_append]
  exact hvalue _ _ (readBracketed?_intercalate hclosing hparts hfuel rest)

theorem decodes_member {α : Type} {value? : List Char → Option (α × List Char)} {x : α} {cs : List Char}
    (name : String) (h : Decodes value? x cs) : Decodes (readMember? value?) (name, x) (quote name ++ ':' :: cs) := by
  refine ⟨⟨'"', _, rfl, by decide, by decide⟩, fun rest hrest => ?_⟩
  have htext : quote name ++ ':' :: cs ++ rest = '"' :: (name.toList.flatMap escape ++ '"' :: ':' :: (cs ++ rest)) := by
    simp [quote]
  rw [htext, readMember?, skipSpace_of_head _ (by decide)]
  simp [readString?_quote, skipSpace_of_head _ (show isSpace ':' = false by decide), h.reads rest hrest]

/-! The induction is on the document. Its text has the brackets besides the parts, so the fuel that is left for the parts
still comes up to their number and to their lengths. -/

mutual

theorem decodes_compact : (j : Json) → {fuel : Nat} → j.Numeric → j.compact.length ≤ fuel →
    Decodes (readValue? fuel) j.document j.compact
  | .null, fuel, _, hfuel => by
    obtain ⟨fuel, rfl⟩ := Nat.exists_eq_add_one.2 (Nat.lt_of_lt_of_le (by decide) hfuel)
    exact decodes_null fuel
  | .number text, fuel, hj, hfuel => by
    obtain ⟨m, rfl⟩ := hj
    obtain ⟨c, cs, hcs, -⟩ := head_number m
    obtain ⟨fuel, rfl⟩ : ∃ n, fuel = n + 1 := ⟨fuel - 1, by simp [compact, hcs] at hfuel; omega⟩
    rw [document_number]
    exact decodes_number m fuel
  | .string text, fuel, _, hfuel => by
    obtain ⟨fuel, rfl⟩ : ∃ n, fuel = n + 1 := ⟨fuel - 1, by simp [compact, quote] at hfuel; omega⟩
    exact decodes_string text fuel
  | .array items, fuel, hj, hfuel => by
    obtain ⟨fuel, rfl, hnumber, hparts⟩ := exists_fuel hfuel
    refine decodes_bracketed (by decide) (.inl rfl) (fun cs rest hreads => ?_) (decodes_items items hj hparts) hnumber
    simp [readValue?, skipSpace_of_head cs (show isSpace '[' = false by decide), hreads, document]
  | .object members, fuel, hj, hfuel => by
    obtain ⟨fuel, rfl, hnumber, hparts⟩ := exists_fuel hfuel
    refine decodes_bracketed (by decide) (.inr rfl) (fun cs rest hreads => ?_) (decodes_members members hj hparts) hnumber
    simp [readValue?, skipSpace_of_head cs (show isSpace '\x7b' = false by decide), hreads, document]

theorem decodes_items : (items : List Json) → {fuel : Nat} → NumericItems items →
    (∀ part ∈ compactItems items, part.length ≤ fuel) →
    List.Forall₂ (Decodes (readValue? fuel)) (documentItems items) (compactItems items)
  | [], _, _, _ => .nil
  | j :: js, _, hjs, hparts => by
    obtain ⟨hpart, hparts⟩ := List.forall_mem_cons.1 hparts
    exact .cons (decodes_compact j hjs.1 hpart) (decodes_items js hjs.2 hparts)

theorem decodes_members : (members : List (String × Json)) → {fuel : Nat} → NumericMembers members →
    (∀ part ∈ compactMembers members, part.length ≤ fuel) →
    List.Forall₂ (Decodes (readMember? (readValue? fuel))) (documentMembers members) (compactMembers members)
  | [], _, _, _ => .nil
  | (name, j) :: rest, fuel, hms, hparts => by
    obtain ⟨hpart, hparts⟩ := List.forall_mem_cons.1 hparts
    have hj : j.compact.length ≤ fuel := by
      simp only [List.length_append, List.length_cons] at hpart
      omega
    exact .cons (decodes_member name (decodes_compact j hms.1 hj)) (decodes_members rest hms.2 hparts)

end

/-- A written document is read as itself. -/
theorem read?_compact {j : Json} (hj : j.Numeric) : Document.read? j.compact = some j.document := by
  have hreads := (decodes_compact j hj (Nat.le_refl _)).reads [] stopsAt_nil
  rw [List.append_nil] at hreads
  rw [Document.read?, hreads]
  rfl

theorem numericItems_iff {items : List Json} : NumericItems items ↔ ∀ j ∈ items, j.Numeric := by
  induction items with
  | nil => simp [NumericItems]
  | cons j js ih => simp [NumericItems, ih]

theorem numericMembers_iff {members : List (String × Json)} :
    NumericMembers members ↔ ∀ m ∈ members, m.2.Numeric := by
  induction members with
  | nil => simp [NumericMembers]
  | cons m ms ih => simp [NumericMembers, ih]

theorem documentItems_eq_map (items : List Json) : documentItems items = items.map document := by
  induction items with
  | nil => rfl
  | cons j js ih => simp [documentItems, ih]

theorem documentMembers_eq_map (members : List (String × Json)) :
    documentMembers members = members.map fun m => (m.1, m.2.document) := by
  induction members with
  | nil => rfl
  | cons m ms ih => simp [documentMembers, ih]

end Json

end StackParser
