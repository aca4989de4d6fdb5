import Mathlib.Data.List.Forall2
import StackParser.Proofs.Progress

/-!
# Texts in parts

* `Parser.ReadsOver cs p` : `p` moves behind the characters `cs` where they stand next, and fails where they do not. Literals and
  characters that are not captured do so;
* `ReadsOver.sequenceOf` : parsers that read over the parts of a text, one after the other, read over the text;
* `Parser.fixed_texts_agree` : a text may be read whole, in two parts or character by character, and spaces are a text.
-/

namespace StackParser.Parser

variable {p : Parser} {ps : List Parser} {cs : List Char} {css : List (List Char)} {s : State}

/-- Where the characters `cs` stand next, `p` moves behind them and changes nothing else. Where they do not, it fails. -/
structure ReadsOver (cs : List Char) (p : Parser) : Prop where
  parse_eq {s : State} : s.failed = false → cs <+: s.cursor.after →
    p.parse s = { s.advance cs.length with name := p.label }
  failed {s : State} : s.failed = false → ¬ cs <+: s.cursor.after → (p.parse s).failed = true

namespace ReadsOver

theorem literal (text : String) : (Parser.literal text false).ReadsOver text.toList where
  parse_eq hs htext := by
    rw [parse_of_not_failed _ hs]
    unfold Parser.literal fixedText
    dsimp only
    rw [if_pos (List.isPrefixOf_iff_prefix.2 htext)]
    rfl
  failed hs htext := Bool.of_not_eq_false fun hsuccess => htext ((failed_literal hs).1 hsuccess)

theorem singleton_prefix_iff {c : Char} {after : List Char} : [c] <+: after ↔ after.head? = some c := by
  cases after with
  | nil => simp
  | cons d ds => simp [eq_comm]

theorem char (c : Char) : (Parser.char c false).ReadsOver [c] where
  parse_eq hs hc := by
    rw [parse_of_not_failed _ hs]
    unfold Parser.char Cursor.peekChar
    dsimp only
    rw [if_pos (singleton_prefix_iff.1 hc)]
    rfl
  failed hs hc := by
    rw [failed_parse hs]
    unfold Parser.char Cursor.peekChar
    dsimp only
    rw [if_neg fun hpeek => hc (singleton_prefix_iff.2 hpeek)]
    rfl

theorem runAll_eq (h : List.Forall₂ ReadsOver css ps) (hs : s.failed = false) (hcss : css.flatten <+: s.cursor.after) :
    ∃ name, Parser.runAll ps s = { s.advance css.flatten.length with name := name } := by
  induction h generalizing s with
  | nil => exact ⟨s.name, by simp [Parser.runAll]⟩
  | @cons cs p css ps hp _ ih =>
    obtain ⟨rest, hrest⟩ := hcss
    rw [List.flatten_cons, List.append_assoc] at hrest
    have hfirst := hp.parse_eq hs ⟨css.flatten ++ rest, hrest⟩
    obtain ⟨name, hname⟩ := ih (s := p.parse s) (by rw [hfirst]; exact hs) (by
      rw [hfirst]
      show css.flatten <+: s.cursor.after.drop cs.length
      rw [← hrest, List.drop_left]
      exact List.prefix_append _ rest)
    refine ⟨name, hname.trans ?_⟩
    rw [hfirst, List.flatten_cons, List.length_append]
    simp only [State.advance, Cursor.advance_advance]

theorem failed_runAll (h : List.Forall₂ ReadsOver css ps) (hs : s.failed = false) (hcss : ¬ css.flatten <+: s.cursor.after) :
    (Parser.runAll ps s).failed = true := by
  induction h generalizing s with
  | nil => exact absurd (List.nil_prefix) hcss
  | @cons cs p css ps hp _ ih =>
    show (Parser.runAll ps (p.parse s)).failed = true
    by_cases hcs : cs <+: s.cursor.after
    · have hfirst := hp.parse_eq hs hcs
      obtain ⟨rest, hrest⟩ := hcs
      refine ih (by rw [hfirst]; exact hs) fun hothers => hcss ?_
      rw [hfirst] at hothers
      have hothers' : css.flatten <+: s.cursor.after.drop cs.length := hothers
      rw [← hrest, List.drop_left] at hothers'
      rw [List.flatten_cons, ← hrest]
      exact (List.prefix_append_right_inj cs).2 hothers'
    · exact Parser.failed_runAll (hp.failed hs hcs)

theorem sequenceOf (h : List.Forall₂ ReadsOver css ps) : (Parser.sequenceOf ps).ReadsOver css.flatten where
  parse_eq hs hcss := by
    obtain ⟨name, hname⟩ := runAll_eq h hs hcss
    rw [parse_of_not_failed _ hs]
    unfold Parser.sequenceOf
    dsimp only
    rw [hname]
  failed hs hcss := by
    rw [failed_parse hs]
    exact failed_runAll h hs hcss

theorem failed_iff (h : p.ReadsOver cs) (hs : s.failed = false) : (p.parse s).failed = false ↔ cs <+: s.cursor.after := by
  constructor
  · intro hsuccess
    by_contra hcs
    exact absurd (h.failed hs hcs) (ne_true_of_eq_false hsuccess)
  · intro hcs
    rw [h.parse_eq hs hcs]
    exact hs

theorem chars (cs : List Char) : (Parser.sequenceOf (cs.map fun c => Parser.char c false)).ReadsOver cs := by
  have hparts : List.Forall₂ ReadsOver (cs.map fun c => [c]) (cs.map fun c => Parser.char c false) := by
    rw [List.forall₂_map_left_iff, List.forall₂_map_right_iff]
    exact List.forall₂_same.2 fun c _ => char c
  have hwhole : (cs.map fun c => [c]).flatten = cs := by
    rw [← List.flatMap_def, List.flatMap_singleton']
  have hreads := sequenceOf hparts
  rwa [hwhole] at hreads

end ReadsOver

/-- **A text may be read over whole, in two parts or character by character**: each of these succeeds exactly where the text
stands next, and then moves behind it and changes nothing else. And spaces are the text of so many spaces, captured or not:
on every state the two do the same, under their own labels. -/
theorem fixed_texts_agree :
    (∀ (u v : String) (s : State), s.failed = false →
      ∀ p ∈ [literal (u ++ v) false, sequenceOf [literal u false, literal v false],
        sequenceOf ((u ++ v).toList.map fun c => char c false)],
      ((p.parse s).failed = false ↔ (u ++ v).toList <+: s.cursor.after) ∧
      ((p.parse s).failed = false → p.parse s = { s.advance (u ++ v).length with name := p.label })) ∧
    ∀ (n : Nat) (captured : Bool) (s : State), (spaces n captured).parse s =
      { (literal (String.ofList (List.replicate n ' ')) captured).parse s with name := (spaces n captured).label } := by
  refine ⟨fun u v s hs p hp => ?_, fun n captured s => ?_⟩
  · have hreads : p.ReadsOver (u ++ v).toList := by
      simp only [List.mem_cons, List.not_mem_nil, or_false] at hp
      rcases hp with rfl | rfl | rfl
      · exact .literal (u ++ v)
      · have hhalves := ReadsOver.sequenceOf (.cons (.literal u) (.cons (.literal v) .nil))
        rwa [List.flatten_cons, List.flatten_cons, List.flatten_nil, List.append_nil, ← String.toList_append] at hhalves
      · exact .chars _
    refine ⟨hreads.failed_iff hs, fun hsuccess => ?_⟩
    rw [← String.length_toList]
    exact hreads.parse_eq hs ((hreads.failed_iff hs).1 hsuccess)
  · cases hs : s.failed with
    | true => rw [parse_of_failed _ hs, parse_of_failed _ hs]
    | false =>
      rw [parse_of_not_failed _ hs, parse_of_not_failed _ hs]
      unfold spaces literal
      dsimp only
      rw [String.toList_ofList]

/-- Behind two bytes, a text of two characters of three bytes each, and one of which only the first part stands there. -/
theorem fixed_texts_agree_wide :
    let s := (State.start "é日本").advance 1
    s.failed = false ∧
    (∀ p ∈ [literal ("日" ++ "本") false, sequenceOf [literal "日" false, literal "本" false],
        sequenceOf (("日" ++ "本").toList.map fun c => char c false)],
      p.parse s = { s.advance 2 with name := p.label }) ∧
    ∀ p ∈ [literal ("日" ++ "x") false, sequenceOf [literal "日" false, literal "x" false],
        sequenceOf (("日" ++ "x").toList.map fun c => char c false)], (p.parse s).failed = true := by
  intro s
  have hs : s.failed = false := rfl
  have hstands : ("日" ++ "本").toList <+: s.cursor.after := by decide +kernel
  have hother : ¬ ("日" ++ "x").toList <+: s.cursor.after := by decide +kernel
  refine ⟨hs, fun p hp => ?_, fun p hp => ?_⟩
  · obtain ⟨hiff, hparse⟩ := fixed_texts_agree.1 "日" "本" s hs p hp
    exact hparse (hiff.2 hstands)
  · obtain ⟨hiff, -⟩ := fixed_texts_agree.1 "日" "x" s hs p hp
    exact Bool.of_not_eq_false fun hsuccess => hother (hiff.1 hsuccess)

end StackParser.Parser
