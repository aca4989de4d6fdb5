import StackParser.Proofs.DocumentReading

/-!
# White space outside strings

* `Json.dropSpace` : a text without the white space outside its strings;
* `Json.dropSpace_pretty` : from the indented text of a document it leaves the compact one, if the numbers of the document
  are written as numbers.

A part of a text is squeezed to another one, whatever follows it (`Json.Squeezes`). White space alone is squeezed to
nothing, and a string to itself, since a quote inside it stands behind a backslash.
-/

namespace StackParser

namespace Json

open Document

mutual

/-- Without the white space outside the strings. -/
def dropSpace : List Char → List Char
  | [] => []
  | c :: cs => if c = '"' then c :: dropSpaceBehind cs else if isSpace c then dropSpace cs else c :: dropSpace cs

/-- The same behind an opening quote. -/
def dropSpaceBehind : List Char → List Char
  | [] => []
  | '\\' :: c :: cs => '\\' :: c :: dropSpaceBehind cs
  | c :: cs => c :: if c = '"' then dropSpace cs else dropSpaceBehind cs

end

def isPlain (c : Char) : Bool := c != '"' && !isSpace c

/-- Of `cs` without the white space outside its strings, `ds` is left. No string is open at the end. -/
def Squeezes (cs ds : List Char) : Prop := ∀ rest, dropSpace (cs ++ rest) = ds ++ dropSpace rest

namespace Squeezes

variable {cs ds cs' ds' : List Char}

theorem nil : Squeezes [] [] := fun _ => rfl

theorem append (h : Squeezes cs ds) (h' : Squeezes cs' ds') : Squeezes (cs ++ cs') (ds ++ ds') := by
  intro rest
  rw [List.append_assoc, h, h', List.append_assoc]

theorem space (hcs : cs.all isSpace = true) : Squeezes cs [] := by
  intro rest
  induction cs with
  | nil => rfl
  | cons c cs ih =>
    obtain ⟨hc, hcs⟩ := Bool.and_eq_true_iff.1 hcs
    have hquote : c ≠ '"' := by
      rintro rfl
      exact absurd hc (by decide)
    rw [List.cons_append, dropSpace, if_neg hquote, if_pos hc]
    exact ih hcs

theorem kept (hcs : cs.all isPlain = true) : Squeezes cs cs := by
  intro rest
  induction cs with
  | nil => rfl
  | cons c cs ih =>
    obtain ⟨hc, hcs⟩ := Bool.and_eq_true_iff.1 hcs
    obtain ⟨hquote, hspace⟩ : c ≠ '"' ∧ isSpace c = false := by simpa [isPlain] using hc
    rw [List.cons_append, dropSpace, if_neg hquote, if_neg (by simp [hspace]), ih hcs]
    rfl

theorem digits (hcs : ∀ c ∈ cs, c.isDigit = true) : Squeezes cs cs := by
  refine kept (List.all_eq_true.2 fun c hc => ?_)
  have hquote : c ≠ '"' := by
    rintro rfl
    exact absurd (hcs _ hc) (by decide)
  simp [isPlain, hquote, isSpace_of_isDigit (hcs c hc)]

theorem dropSpaceBehind_escape (c : Char) (rest : List Char) :
    dropSpaceBehind (escape c ++ rest) = escape c ++ dropSpaceBehind rest := by
  rcases escape_cases c with ⟨letter, hescape, -⟩ | ⟨hescape, hcontrol⟩ | ⟨hescape, hquote, hbackslash, -⟩
  · simp [hescape, dropSpaceBehind]
  · have hdigit : ∀ n < 0x10, Nat.digitChar n ≠ '"' ∧ Nat.digitChar n ≠ '\\' := by decide
    have hhigh := hdigit (c.toNat / 0x10) (by omega)
    have hlow := hdigit (c.toNat % 0x10) (by omega)
    simp [hescape, hexEscape_eq _ hcontrol, dropSpaceBehind, hhigh, hlow]
  · simp [hescape, dropSpaceBehind, hquote, hbackslash]

theorem dropSpaceBehind_text (text rest : List Char) :
    dropSpaceBehind (text.flatMap escape ++ '"' :: rest) = text.flatMap escape ++ '"' :: dropSpace rest := by
  induction text with
  | nil => simp [dropSpaceBehind]
  | cons c text ih => simp only [List.flatMap_cons, List.append_assoc, dropSpaceBehind_escape, ih]

theorem quote (text : String) : Squeezes (quote text) (quote text) := by
  intro rest
  have hopened : ∀ behind, Json.quote text ++ behind = '"' :: (text.toList.flatMap escape ++ '"' :: behind) := by
    simp [Json.quote]
  rw [hopened, hopened, dropSpace, if_pos rfl, dropSpaceBehind_text]

theorem number (m : NumberText) : Squeezes m.text m.text := by
  have hsign : Squeezes m.sign m.sign := by
    unfold NumberText.sign
    split <;> exact kept rfl
  have hpoint : Squeezes m.point m.point := by
    unfold NumberText.point
    split
    · exact nil
    · exact (kept rfl : Squeezes ['.'] ['.']).append (digits m.isDigit_fraction)
  have hpower : Squeezes m.power m.power := by
    unfold NumberText.power
    cases m.exponent with
    | none => exact nil
    | some e =>
      have hmark : Squeezes ['e', if e < 0 then '-' else '+'] ['e', if e < 0 then '-' else '+'] := by
        split <;> exact kept rfl
      exact hmark.append (digits (Decimal.isDigit_toDigits _))
  exact hsign.append ((digits m.isDigit_whole).append (hpoint.append hpower))

/-! ### Brackets -/

theorem newLine (depth : Nat) : Squeezes (newLine depth) [] := by
  refine space (List.all_eq_true.2 fun c hc => ?_)
  rcases List.mem_cons.1 hc with rfl | hc
  · rfl
  · rw [List.eq_of_mem_replicate hc]
    rfl

variable {parts parts' : List (List Char)}

theorem intercalate (depth : Nat) (hparts : List.Forall₂ Squeezes parts parts') :
    Squeezes ((',' :: Json.newLine depth).intercalate parts) ([','].intercalate parts') := by
  have hcomma : Squeezes (',' :: Json.newLine depth) [','] := (kept rfl : Squeezes [','] [',']).append (newLine depth)
  induction hparts with
  | nil => exact nil
  | @cons part part' parts parts' hpart hparts ih =>
    cases hparts with
    | nil => simpa using hpart
    | cons hnext hothers =>
      rw [List.intercalate_cons_cons, List.intercalate_cons_cons]
      exact (hpart.append hcomma).append ih

theorem bracketed {opening closing : Char} (hopening : isPlain opening = true) (hclosing : isPlain closing = true)
    (depth : Nat) (hparts : List.Forall₂ Squeezes parts parts') :
    Squeezes (bracketed opening closing depth parts) (opening :: [','].intercalate parts' ++ [closing]) := by
  have hopen : Squeezes [opening] [opening] := kept (by simpa using hopening)
  have hclose : Squeezes [closing] [closing] := kept (by simpa using hclosing)
  unfold Json.bracketed
  split
  · rename_i hempty
    obtain rfl : parts = [] := List.isEmpty_iff.1 hempty
    cases hparts
    exact hopen.append hclose
  · have hinside := ((hopen.append (newLine (depth + 1))).append (intercalate (depth + 1) hparts)).append (newLine depth)
    simpa using hinside.append hclose

end Squeezes

/-! The induction is on the document, at every depth. -/

mutual

theorem squeezes_pretty : (j : Json) → (depth : Nat) → j.Numeric → Squeezes (j.pretty depth) j.compact
  | .null, _, _ => (.kept rfl : Squeezes ['n', 'u', 'l', 'l'] ['n', 'u', 'l', 'l'])
  | .number _, _, ⟨m, htext⟩ => htext ▸ .number m
  | .string text, _, _ => .quote text
  | .array items, depth, hj => .bracketed rfl rfl depth (squeezes_items items (depth + 1) hj)
  | .object members, depth, hj => .bracketed rfl rfl depth (squeezes_members members (depth + 1) hj)

theorem squeezes_items : (items : List Json) → (depth : Nat) → NumericItems items →
    List.Forall₂ Squeezes (prettyItems items depth) (compactItems items)
  | [], _, _ => .nil
  | j :: js, depth, hjs => .cons (squeezes_pretty j depth hjs.1) (squeezes_items js depth hjs.2)

theorem squeezes_members : (members : List (String × Json)) → (depth : Nat) → NumericMembers members →
    List.Forall₂ Squeezes (prettyMembers members depth) (compactMembers members)
  | [], _, _ => .nil
  | (name, j) :: rest, depth, hms => by
    have hcolon : Squeezes [':', ' '] [':'] := (Squeezes.kept rfl : Squeezes [':'] [':']).append (.space rfl)
    have hmember := ((Squeezes.quote name).append hcolon).append (squeezes_pretty j depth hms.1)
    exact .cons (by simpa using hmember) (squeezes_members rest depth hms.2)

end

/-- Both ways to write a document differ in white space outside the strings only. -/
theorem dropSpace_pretty {j : Json} (hj : j.Numeric) (depth : Nat) : dropSpace (j.pretty depth) = j.compact := by
  have h := squeezes_pretty j depth hj []
  simpa [dropSpace] using h

end Json

end StackParser
