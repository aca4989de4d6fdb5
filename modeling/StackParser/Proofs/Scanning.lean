import StackParser.Proofs.Writing

/-!
# Scanning a number character by character

* `NumberKind.accepts kind text c` : a number that begins with `text` may go on with `c`;
* `NumberKind.taken kind text cs` : what is taken of `cs` behind `text` in this way;
* `NumberKind.taken_eq_scan` : from the beginning this is what `NumberKind.scan` finds by its parts.
-/

namespace StackParser.NumberKind

/-- A digit may stand anywhere, a minus sign in front, and in a floating-point number one point, not in front. -/
def accepts (kind : NumberKind) (text : List Char) (c : Char) : Bool :=
  c.isDigit || (c == '-' && text.isEmpty) || (c == '.' && kind == .float && !text.isEmpty && !text.contains '.')

/-- The characters at the front of `cs` that are accepted behind `text` and behind each other. -/
def taken (kind : NumberKind) (text : List Char) : List Char → List Char
  | [] => []
  | c :: cs => if kind.accepts text c then c :: kind.taken (text ++ [c]) cs else []

/-- The point and the digits that stand behind the whole part of a number, if it goes on with them. -/
def fraction (kind : NumberKind) (whole : List Char) : List Char → List Char
  | '.' :: cs => if kind = .float ∧ whole ≠ [] then '.' :: cs.takeWhile Char.isDigit else []
  | _ => []

theorem scan_eq_fraction (kind : NumberKind) (cs : List Char) :
    let unsigned := cs.drop (signPart cs).length
    let whole := signPart cs ++ unsigned.takeWhile Char.isDigit
    kind.scan cs = whole ++ kind.fraction whole (unsigned.dropWhile Char.isDigit) := by
  intro unsigned whole
  by_cases hkind : kind = .float
  · subst hkind
    have hwhole : signPart cs ++ (cs.drop (signPart cs).length).takeWhile Char.isDigit = whole := rfl
    unfold scan
    dsimp only
    rw [hwhole]
    cases unsigned.dropWhile Char.isDigit with
    | nil => exact (List.append_nil _).symm
    | cons c rest =>
      by_cases hpoint : c = '.'
      · subst hpoint
        by_cases hempty : whole = []
        · simp [fraction, hempty]
        · simp [fraction, hempty]
      · simp [fraction, hpoint]
  · have hnone : kind.fraction whole (unsigned.dropWhile Char.isDigit) = [] := by
      unfold fraction
      split
      · rw [if_neg fun h => hkind h.1]
      · rfl
    rw [hnone, List.append_nil, scan_eq hkind]

variable {kind : NumberKind} {text : List Char} {c : Char}

theorem accepts_iff (hc : c.isDigit = false) : kind.accepts text c = true ↔
    (c = '-' ∧ text = []) ∨ (c = '.' ∧ kind = .float ∧ text ≠ [] ∧ '.' ∉ text) := by
  simp [accepts, hc, and_assoc]

theorem taken_of_accepts (h : kind.accepts text c = true) (cs : List Char) :
    kind.taken text (c :: cs) = c :: kind.taken (text ++ [c]) cs := by
  rw [taken, if_pos h]

theorem taken_of_refuses (h : ¬ kind.accepts text c = true) (cs : List Char) : kind.taken text (c :: cs) = [] := by
  rw [taken, if_neg h]

/-- A digit is accepted everywhere. -/
theorem taken_digits (kind : NumberKind) (text cs : List Char) : kind.taken text cs =
    cs.takeWhile Char.isDigit ++ kind.taken (text ++ cs.takeWhile Char.isDigit) (cs.dropWhile Char.isDigit) := by
  induction cs generalizing text with
  | nil => rfl
  | cons c cs ih =>
    by_cases hc : c.isDigit = true
    · have haccepts : kind.accepts text c = true := by simp [accepts, hc]
      rw [taken_of_accepts haccepts, ih, List.takeWhile_cons_of_pos hc, List.dropWhile_cons_of_pos hc,
        List.append_assoc]
      rfl
    · rw [List.takeWhile_cons_of_neg hc, List.dropWhile_cons_of_neg hc, List.append_nil, List.nil_append]

/-- Behind the point there is nothing but digits. -/
theorem taken_point (kind : NumberKind) (whole cs : List Char) :
    kind.taken (whole ++ ['.']) cs = cs.takeWhile Char.isDigit := by
  have hstop : StopsAt Char.isDigit (cs.dropWhile Char.isDigit) := stopsAt_dropWhile cs
  rw [taken_digits]
  cases hrest : cs.dropWhile Char.isDigit with
  | nil => rw [taken, List.append_nil]
  | cons c rest =>
    rw [hrest, stopsAt_cons] at hstop
    have hrefuses : ¬ kind.accepts (whole ++ ['.'] ++ cs.takeWhile Char.isDigit) c = true := by
      rw [accepts_iff hstop]
      simp
    rw [taken_of_refuses hrefuses, List.append_nil]

/-- Behind the digits there is nothing but the fraction. -/
theorem taken_fraction {whole rest : List Char} (hwhole : '.' ∉ whole) (hstop : StopsAt Char.isDigit rest)
    (hsign : whole = [] → rest.head? ≠ some '-') : kind.taken whole rest = kind.fraction whole rest := by
  cases rest with
  | nil => rfl
  | cons c cs =>
    rw [stopsAt_cons] at hstop
    have hminus : ¬ (c = '-' ∧ whole = []) := by
      intro h
      exact hsign h.2 (by simp [h.1])
    by_cases hpoint : c = '.'
    · subst hpoint
      rw [fraction]
      by_cases hgoes : kind = .float ∧ whole ≠ []
      · rw [if_pos hgoes, taken_of_accepts ((accepts_iff hstop).2 (.inr ⟨rfl, hgoes.1, hgoes.2, hwhole⟩)), taken_point]
      · rw [if_neg hgoes, taken_of_refuses]
        rw [accepts_iff hstop]
        rintro (h | ⟨-, hkind, hne, -⟩)
        · exact hminus h
        · exact hgoes ⟨hkind, hne⟩
    · have hnone : kind.fraction whole (c :: cs) = [] := by simp [fraction, hpoint]
      rw [hnone, taken_of_refuses]
      rw [accepts_iff hstop]
      rintro (h | ⟨h, -⟩)
      · exact hminus h
      · exact hpoint h

theorem taken_eq_scan (kind : NumberKind) (cs : List Char) : kind.taken [] cs = kind.scan cs := by
  have hpoint : ∀ ds : List Char, '.' ∉ ds.takeWhile Char.isDigit := fun ds h =>
    absurd (List.all_eq_true.1 List.all_takeWhile _ h) (by decide)
  rw [scan_eq_fraction]
  rcases signPart_eq cs with ⟨hsign, rest, rfl⟩ | hsign
  · have hminus : kind.accepts [] '-' = true := by simp [accepts]
    have hwhole : '.' ∉ ['-'] ++ rest.takeWhile Char.isDigit := by simp [hpoint rest]
    rw [hsign, taken_of_accepts hminus, taken_digits]
    show '-' :: (rest.takeWhile Char.isDigit ++
      kind.taken (['-'] ++ rest.takeWhile Char.isDigit) (rest.dropWhile Char.isDigit)) = _
    rw [taken_fraction hwhole (stopsAt_dropWhile rest) (by simp)]
    rfl
  · have hunsigned : cs.takeWhile Char.isDigit = [] → (cs.dropWhile Char.isDigit).head? ≠ some '-' := by
      intro hnone hhead
      have hall := List.takeWhile_append_dropWhile (p := Char.isDigit) (l := cs)
      rw [hnone, List.nil_append] at hall
      rw [hall] at hhead
      obtain ⟨rest, rfl⟩ := List.head?_eq_some_iff.1 hhead
      exact List.cons_ne_nil _ _ hsign
    rw [hsign, taken_digits, List.nil_append, taken_fraction (hpoint cs) (stopsAt_dropWhile cs) hunsigned]
    rfl

end StackParser.NumberKind
