import StackParser.Grammar
import StackParser.Proofs.NestedErrors

/-!
# What parsers leave on the stack

* `Layer` : what is known of the values on top of a stack; `Layer.types ts` : values of the types `ts`, `Layer.any` :
  any values, `Layer.append V W` : first values as `V` says, then values as `W` says;
* `State.Sound P base V s` : all errors and warnings of `s` satisfy `P`, `base` is at the bottom of the stack, and
  unless `s` has failed the values on top of `base` are as `V` says;
* `Meets P V W f` : `f` takes states that are sound with `V` to states that are sound with `W`, over every `base`
  (`Meets.comp`, `Meets.frame`, and one rule for each combinator);
* `Parser.Pushes P W p` : `p` leaves what it finds alone and adds values as `W` says (one rule for each terminal).
-/

namespace StackParser

/-- What is known of the values on top of a stack. -/
abbrev Layer := List Value → Prop

namespace Layer

def types (ts : List ValueType) : Layer := fun vs => vs.map Value.type = ts

def any : Layer := fun _ => True

def append (V W : Layer) : Layer := fun vs => ∃ us ws, vs = us ++ ws ∧ V us ∧ W ws

theorem types_nil_iff {vs : List Value} : types [] vs ↔ vs = [] := by
  rw [types, List.map_eq_nil_iff]

theorem append_of_nil {V W : Layer} (hW : W []) {vs : List Value} (h : V vs) : V.append W vs :=
  ⟨vs, [], (List.append_nil vs).symm, h, hW⟩

theorem types_append {ts us : List ValueType} {vs : List Value} (h : (types ts).append (types us) vs) :
    types (ts ++ us) vs := by
  obtain ⟨as, bs, rfl, ha, hb⟩ := h
  rw [types] at ha hb ⊢
  rw [List.map_append, ha, hb]

end Layer

/-! ## Sound states -/

/-- All errors and warnings satisfy `P`; `base` is at the bottom of the stack and, unless the state has failed, what
lies on top of it is as `V` says. -/
structure State.Sound (P : ParseError → Prop) (base : List Value) (V : Layer) (s : State) : Prop where
  error : ∀ e, s.error = some e → e.Only P
  warning : ∀ e, s.warning = some e → e.Only P
  keeps : base <+: s.stack
  adds : s.failed = false → ∃ vs, s.stack = base ++ vs ∧ V vs

namespace State.Sound

variable {P : ParseError → Prop} {base : List Value} {V W : Layer} {s t : State}

theorem start (hs : s.failed = false) (hw : ∀ e, s.warning = some e → e.Only P) :
    s.Sound P s.stack (Layer.types []) where
  error e he := absurd (he.symm.trans (failed_eq_false_iff.1 hs)) (by simp)
  warning := hw
  keeps := List.prefix_rfl
  adds _ := ⟨[], (List.append_nil _).symm, rfl⟩

theorem mono (h : s.Sound P base V) (hVW : ∀ vs, V vs → W vs) : s.Sound P base W where
  error := h.error
  warning := h.warning
  keeps := h.keeps
  adds hs := by
    obtain ⟨vs, hstack, hV⟩ := h.adds hs
    exact ⟨vs, hstack, hVW vs hV⟩

/-- Only the stack, the error and the warning count. -/
theorem congr (h : s.Sound P base V) (hstack : t.stack = s.stack) (herror : t.error = s.error)
    (hwarning : t.warning = s.warning) : t.Sound P base V where
  error := herror ▸ h.error
  warning := hwarning ▸ h.warning
  keeps := hstack ▸ h.keeps
  adds ht := by
    rw [hstack]
    exact h.adds (by rwa [State.failed, ← herror])

theorem advance (h : s.Sound P base V) (n : Nat) : (s.advance n).Sound P base V := h.congr rfl rfl rfl

theorem rename (h : s.Sound P base V) (name : String) : { s with name := name }.Sound P base V :=
  h.congr rfl rfl rfl

theorem fail (h : s.Sound P base V) {e : ParseError} (he : e.Only P) : (s.fail e).Sound P base W where
  error _ he' := Option.some.inj he' ▸ he
  warning := h.warning
  keeps := h.keeps
  adds hs := nomatch hs

/-- An error without others inside is as good as what `P` says of it. -/
theorem failLeaf (h : s.Sound P base V) {e : ParseError} (hleaf : e.isLeaf = true) (he : P e) :
    (s.fail e).Sound P base W :=
  h.fail (ParseError.only_of_isLeaf hleaf he)

theorem push (h : s.Sound P base V) {v : Value} (hVW : ∀ vs, V vs → W (vs ++ [v])) :
    (s.push v).Sound P base W where
  error := h.error
  warning := h.warning
  keeps := h.keeps.trans (List.prefix_append _ _)
  adds hs := by
    obtain ⟨vs, hstack, hV⟩ := h.adds hs
    refine ⟨vs ++ [v], ?_, hVW vs hV⟩
    rw [stack_push, hstack, List.append_assoc]

/-- What lies on top may be seen as part of the base. -/
theorem raise (h : s.Sound P base (V.append W)) (hs : s.failed = false) :
    ∃ us, V us ∧ s.Sound P (base ++ us) W := by
  obtain ⟨vs, hstack, us, ws, rfl, hV, hW⟩ := h.adds hs
  rw [← List.append_assoc] at hstack
  exact ⟨us, hV, h.error, h.warning, hstack ▸ List.prefix_append _ _, fun _ => ⟨ws, hstack, hW⟩⟩

theorem lower {us : List Value} (h : s.Sound P (base ++ us) W) (hV : V us) : s.Sound P base (V.append W) where
  error := h.error
  warning := h.warning
  keeps := (List.prefix_append base us).trans h.keeps
  adds hs := by
    obtain ⟨ws, hstack, hW⟩ := h.adds hs
    rw [List.append_assoc] at hstack
    exact ⟨us ++ ws, hstack, us, ws, rfl, hV, hW⟩

/-- Of a failed state only the errors and the base count. -/
theorem of_failed (h : s.Sound P base V) (hs : s.failed = true) : s.Sound P base W where
  error := h.error
  warning := h.warning
  keeps := h.keeps
  adds hf := absurd (hf.symm.trans hs) (by decide)

end State.Sound

/-! ## Transitions between sound states -/

/-- `f` takes states that are sound with `V` to states that are sound with `W`, and lets failed states fail. -/
structure Meets (P : ParseError → Prop) (V W : Layer) (f : State → State) : Prop where
  sound : ∀ base s, s.Sound P base V → (f s).Sound P base W
  strict : ∀ s, s.failed = true → (f s).failed = true

namespace Meets

variable {P : ParseError → Prop} {U V W : Layer} {f g : State → State}

theorem comp (hf : Meets P U V f) (hg : Meets P V W g) : Meets P U W fun s => g (f s) where
  sound base s hs := hg.sound base (f s) (hf.sound base s hs)
  strict s hs := hg.strict (f s) (hf.strict s hs)

theorem mono {V' W' : Layer} (h : Meets P V W f) (hV : ∀ vs, V' vs → V vs) (hW : ∀ vs, W vs → W' vs) :
    Meets P V' W' f where
  sound base s hs := (h.sound base s (hs.mono hV)).mono hW
  strict := h.strict

/-- What does with any values does with those that `V` tells more of. -/
theorem fromAny (h : Meets P Layer.any W f) (V : Layer) : Meets P V W f := h.mono (fun _ _ => trivial) fun _ => id

/-- What lies below is left alone. -/
theorem frame (h : Meets P V W f) (U : Layer) : Meets P (U.append V) (U.append W) f where
  sound base s hs := by
    cases hf : s.failed with
    | true => exact (h.sound base s (hs.of_failed hf)).of_failed (h.strict s hf)
    | false =>
      obtain ⟨us, hU, hraised⟩ := hs.raise hf
      exact (h.sound (base ++ us) s hraised).lower hU
  strict := h.strict

/-- It is enough to look at the run on states that have not failed. -/
theorem parse {p : Parser}
    (h : ∀ base s, s.failed = false → s.Sound P base V → (p.run s).Sound P base W) : Meets P V W p.parse where
  sound base s hs := by
    cases hf : s.failed with
    | true =>
      rw [p.parse_of_failed hf]
      exact (hs.of_failed hf).rename p.label
    | false =>
      rw [p.parse_of_not_failed hf]
      exact (h base s hf hs).rename p.label
  strict s hs := by
    rw [p.parse_of_failed hs]
    exact hs

end Meets

/-- `p` leaves the stack it finds alone and adds values as `W` says. -/
def Parser.Pushes (P : ParseError → Prop) (W : Layer) (p : Parser) : Prop := Meets P (Layer.types []) W p.parse

namespace Parser.Pushes

variable {P : ParseError → Prop} {V W : Layer} {p : Parser}

theorem of_run (h : ∀ s, s.failed = false → s.Sound P s.stack (Layer.types []) → (p.run s).Sound P s.stack W) :
    p.Pushes P W := by
  refine Meets.parse fun base s hf hs => ?_
  obtain ⟨vs, hstack, hvs⟩ := hs.adds hf
  rw [Layer.types_nil_iff.1 hvs, List.append_nil] at hstack
  subst hstack
  exact h s hf hs

theorem mono (h : p.Pushes P V) (hVW : ∀ vs, V vs → W vs) : p.Pushes P W := Meets.mono h (fun _ => id) hVW

theorem onto (h : p.Pushes P W) (V : Layer) : Meets P V (V.append W) p.parse :=
  (Meets.frame h V).mono (fun _ => Layer.append_of_nil (Layer.types_nil_iff.2 rfl)) fun _ => id

/-- What adds nothing may stand anywhere. -/
theorem anywhere (h : p.Pushes P (Layer.types [])) (V : Layer) : Meets P V V p.parse := by
  refine (h.onto V).mono (fun _ => id) fun vs hvs => ?_
  obtain ⟨us, ws, rfl, hus, hws⟩ := hvs
  rwa [Layer.types_nil_iff.1 hws, List.append_nil]

/-- What adds values on top of nothing adds values on top of any. -/
theorem ontoAny (h : p.Pushes P W) : Meets P Layer.any Layer.any p.parse :=
  (h.onto Layer.any).mono (fun _ => id) fun _ _ => trivial

theorem ontoTypes {us : List ValueType} (h : p.Pushes P (Layer.types us)) (ts : List ValueType) :
    Meets P (Layer.types ts) (Layer.types (ts ++ us)) p.parse :=
  (h.onto (Layer.types ts)).mono (fun _ => id) fun _ => Layer.types_append

/-- Also of a state that has failed, if nothing is said of errors. -/
theorem exists_stack_eq_append (h : p.Pushes (fun _ => True) W) (s : State) :
    ∃ vs, (p.parse s).stack = s.stack ++ vs ∧ ((p.parse s).failed = false → W vs) := by
  have hstart : s.Sound (fun _ => True) s.stack (Layer.types []) :=
    ⟨fun _ _ _ _ => trivial, fun _ _ _ _ => trivial, List.prefix_rfl, fun _ => ⟨[], (List.append_nil _).symm, rfl⟩⟩
  have hsound := h.sound s.stack s hstart
  cases hf : (p.parse s).failed with
  | true =>
    obtain ⟨vs, hvs⟩ := hsound.keeps
    exact ⟨vs, hvs.symm, fun hsuccess => absurd hsuccess.symm Bool.false_ne_true⟩
  | false =>
    obtain ⟨vs, hvs, hW⟩ := hsound.adds hf
    exact ⟨vs, hvs, fun _ => hW⟩

end Parser.Pushes

end StackParser
