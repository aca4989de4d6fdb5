import StackParser.Proofs.Acceptance

/-!
# Parsers that read exactly

* `Form` : how a text, the text behind it and the values pushed for it hang together;
* `Parser.Exact p R` : where `R` holds `p` reads the text and pushes the values, and where `p` succeeds `R` holds. So `p`
  refuses what does not begin as `R` says (`Exact.refuses`). There are rules for fixed texts, numbers, line ends and
  keywords, and for sequences, alternatives and records;
* `Literal kind` : a numeral with the value of its kind (`Exact.number`).
-/

namespace StackParser

/-- How the text that is read, the text behind it and the values pushed hang together. -/
abbrev Form := List Char → List Char → List Value → Prop

namespace Form

/-- This text, for which nothing is pushed. -/
def only (text : List Char) : Form := fun cs _ vs => cs = text ∧ vs = []

/-- First as `R` says, then as `S` says. -/
inductive Next (R S : Form) (cs rest : List Char) (vs : List Value) : Prop where
  | intro {first second : List Char} {us ws : List Value} (hR : R first (second ++ rest) us) (hS : S second rest ws)
    (hcs : cs = first ++ second) (hvs : vs = us ++ ws)

/-- First this text, for which nothing is pushed, then as `R` says. -/
inductive Behind (text : List Char) (R : Form) (cs rest : List Char) (vs : List Value) : Prop where
  | intro {ds : List Char} (hR : R ds rest vs) (hcs : cs = text ++ ds)

/-- The text does not begin as `R` says. -/
def Absent (R : Form) (cs : List Char) : Prop := ∀ first rest vs, cs = first ++ rest → ¬ R first rest vs

end Form

/-- A numeral that a kind of numbers has room for. -/
structure Literal (kind : NumberKind) where
  numeral : Numeral
  value : Value
  holds : kind.hold? numeral.value = some value

namespace Literal

variable {kind : NumberKind}

def text (l : Literal kind) : List Char := l.numeral.text

def ofInt32 (n : Int32) : Literal .int where
  numeral := .ofInt n.toInt
  value := .int n
  holds := by
    rw [Numeral.value_ofInt]
    exact NumberKind.hold?_int n

def ofInt64 (n : Int64) : Literal .long where
  numeral := .ofInt n.toInt
  value := .long n
  holds := by
    rw [Numeral.value_ofInt]
    exact NumberKind.hold?_long n

theorem text_ofInt32 (n : Int32) : (ofInt32 n).text = (toString n).toList := Numeral.text_ofInt _

theorem text_ofInt64 (n : Int64) : (ofInt64 n).text = (toString n).toList := Numeral.text_ofInt _

theorem type_value (l : Literal kind) : l.value.type = kind.type := by
  have hholds := l.holds
  cases kind with
  | float => exact absurd rfl (NumberKind.ne_float_of_hold? hholds)
  | int | long =>
    rw [NumberKind.hold?] at hholds
    split at hholds
    · rw [← Option.some.inj hholds]
      rfl
    · exact absurd hholds (Option.some_ne_none _).symm

end Literal

namespace Parser

/-- Where `R` holds `p` reads the text and pushes the values, and where `p` succeeds `R` holds. -/
structure Exact (p : Parser) (R : Form) : Prop where
  reads : ∀ {cs rest : List Char} {vs : List Value}, R cs rest vs → p.Reads cs rest vs
  yields : p.Yields (.still R)

variable {p q : Parser} {ps : List Parser} {R S : Form} {cs rest text : List Char} {vs : List Value} {kind : NumberKind}

/-- A repetition that succeeds has a first success, and goes on with one repetition less. -/
theorem inner_of_times {n : Nat} {s : State} (h : ((times (n + 1) p).parse s).failed = false) :
    (p.parse s).failed = false ∧ ((times n p).parse (p.parse s)).failed = false := by
  rw [failed_parse (not_failed_of_parse h)] at h
  change (runTimes p (n + 1) s).failed = false at h
  unfold runTimes at h
  dsimp only at h
  split at h
  · rename_i hfail
    exact absurd (h.symm.trans hfail) Bool.false_ne_true
  · rename_i hnext
    have hfirst := Bool.of_not_eq_true hnext
    exact ⟨hfirst, (failed_parse hfirst).trans h⟩

namespace Exact

theorem refuses (h : p.Exact R) (hcs : R.Absent cs) : p.Refuses cs := by
  intro s _ hafter
  refine Bool.of_not_eq_false fun hsuccess => ?_
  obtain ⟨first, rest, vs, hsplit, -, hR, -⟩ := h.yields s hsuccess
  exact hcs first rest vs (hafter.symm.trans hsplit) hR

theorem congr (h : p.Exact R) (hRS : ∀ cs rest vs, R cs rest vs ↔ S cs rest vs) : p.Exact S where
  reads hS := h.reads ((hRS _ _ _).2 hS)
  yields := h.yields.mono fun _ _ _ _ _ ⟨hR, hcontext⟩ => ⟨(hRS _ _ _).1 hR, hcontext⟩

/-- It is enough that every text on which `p` succeeds begins as `R` says. -/
theorem of_reads (hreads : ∀ {cs rest : List Char} {vs : List Value}, R cs rest vs → p.Reads cs rest vs)
    (h : ∀ cs, R.Absent cs → p.Refuses cs) : p.Exact R where
  reads := hreads
  yields := by
    refine Yields.of_reads fun s hs => ?_
    have hbegins : ¬ R.Absent s.cursor.after := fun habsent => (h _ habsent).absurd hs rfl
    simp only [Form.Absent, not_forall, not_not] at hbegins
    obtain ⟨cs, rest, vs, hafter, hR⟩ := hbegins
    exact ⟨cs, rest, vs, hafter, hreads hR, hR⟩

/-! ## Terminals -/

theorem skip (text : String) : (Grammar.skip text).parser.Exact (.only text.toList) where
  reads := by
    rintro cs rest vs ⟨rfl, rfl⟩
    exact Grammar.reads_skip text rest
  yields := Yields.skip text

theorem skipChar (x : Char) : (Grammar.skipChar x).parser.Exact (.only [x]) where
  reads := by
    rintro cs rest vs ⟨rfl, rfl⟩
    exact Grammar.reads_skipChar x rest
  yields := Yields.skipChar x

theorem spaces (n : Nat) : (Parser.spaces n false).Exact (.only (List.replicate n ' ')) := by
  refine of_reads ?_ fun cs habsent => Refuses.spaces ?_
  · rintro cs rest vs ⟨rfl, rfl⟩
    exact Reads.spaces n rest
  · rintro ⟨rest, hrest⟩
    exact habsent _ rest [] hrest.symm ⟨rfl, rfl⟩

theorem number (hkind : kind ≠ .float) : (Parser.number kind).Exact fun cs rest vs =>
    ∃ l : Literal kind, cs = l.text ∧ vs = [l.value] ∧ StopsAt Char.isDigit rest where
  reads := by
    rintro cs rest vs ⟨l, rfl, rfl, hstop⟩
    exact Reads.number l.numeral l.holds hstop
  yields := by
    refine (Yields.number hkind).mono ?_
    rintro cs rest c vs d ⟨⟨m, v, rfl, hstop, hm, rfl⟩, hcontext⟩
    exact ⟨⟨⟨m, v, hm⟩, rfl, rfl, hstop⟩, hcontext⟩

theorem lineEnd : Parser.lineEnd.Exact fun cs _ vs => ∃ b : LineBreak, cs = b.text ∧ vs = [] where
  reads := by
    rintro cs rest vs ⟨b, rfl, rfl⟩
    exact Reads.lineEnd b rest
  yields := by
    refine Yields.lineEnd.mono ?_
    rintro cs rest c vs d ⟨⟨⟨b, rfl⟩, rfl⟩, hcontext⟩
    exact ⟨⟨b, rfl, rfl⟩, hcontext⟩

theorem optional_lineEnd : (Parser.optional .lineEnd).Exact fun cs rest vs => ∃ b : Option LineBreak,
    cs = LineBreak.optional b ∧ vs = [] ∧ (b = none → ∀ b' : LineBreak, ¬ b'.text <+: rest) where
  reads := by
    rintro cs rest vs ⟨b, rfl, rfl, hnone⟩
    cases b with
    | none => exact Grammar.reads_no_lineEnd (hnone rfl)
    | some b => exact Grammar.reads_optional_lineEnd b rest
  yields := by
    refine Yields.optional_lineEnd.mono ?_
    rintro cs rest c vs d ⟨⟨⟨b, rfl⟩ | ⟨rfl, hnone⟩, rfl⟩, hcontext⟩
    · exact ⟨⟨some b, rfl, rfl, nofun⟩, hcontext⟩
    · exact ⟨⟨none, rfl, rfl, fun _ => hnone⟩, hcontext⟩

theorem ofFamily {α : Type} {F : Family α} (hapart : Pushes.KeysApart F.tokens) :
    (Grammar.ofFamily F).parser.Exact fun cs _ vs => ∃ entry ∈ F.table, cs = entry.1.toList ∧ vs = [F.value entry.2] where
  reads := by
    rintro cs rest vs ⟨entry, hentry, rfl, rfl⟩
    exact Grammar.reads_ofFamily hapart hentry rest
  yields := Yields.ofFamily hapart

/-! ## Combinators -/

theorem cons (hp : p.Exact R) (hps : (sequenceOf ps).Exact S) : (sequenceOf (p :: ps)).Exact (R.Next S) where
  reads := by
    rintro cs rest vs ⟨hR, hS, rfl, rfl⟩
    exact (hp.reads hR).cons (hps.reads hS)
  yields := by
    refine (Yields.cons hp.yields hps.yields).mono ?_
    rintro cs rest c vs d ⟨first, second, us, ws, e, rfl, rfl, ⟨hR, rfl⟩, hS, rfl⟩
    exact ⟨⟨hR, hS, rfl, rfl⟩, rfl⟩

theorem last (hp : p.Exact R) : (sequenceOf [p]).Exact R where
  reads hR := (hp.reads hR).last
  yields := Yields.last hp.yields

/-- A first part that only reads over a fixed text. -/
theorem silent (hp : p.Exact (.only text)) (hps : (sequenceOf ps).Exact R) :
    (sequenceOf (p :: ps)).Exact (R.Behind text) where
  reads := by
    rintro cs rest vs ⟨hR, rfl⟩
    exact (hp.reads ⟨rfl, rfl⟩).silent (hps.reads hR)
  yields := by
    refine (Yields.silent hp.yields hps.yields).mono ?_
    rintro cs rest c vs d ⟨ds, rfl, hR, hcontext⟩
    exact ⟨⟨hR, rfl⟩, hcontext⟩

theorem optional (hp : p.Exact R) :
    (Parser.optional p).Exact fun cs rest vs => R cs rest vs ∨ (cs = [] ∧ vs = [] ∧ R.Absent rest) := by
  refine of_reads ?_ fun cs habsent => ?_
  · rintro cs rest vs (hR | ⟨rfl, rfl, habsent⟩)
    · exact fun c => (hp.reads hR c).optional
    · exact (hp.refuses habsent).optional
  · exact absurd (.inr ⟨rfl, rfl, fun first rest vs hsplit hR => habsent first rest vs hsplit (.inl hR)⟩)
      (habsent [] cs [] rfl)

/-- Two alternatives of which at most one reads what there is. -/
theorem either (hp : p.Exact R) (hq : q.Exact S) (hR : ∀ {cs rest vs}, R cs rest vs → S.Absent (cs ++ rest))
    (hS : ∀ {cs rest vs}, S cs rest vs → R.Absent (cs ++ rest)) :
    (Parser.oneOf [p, q]).Exact fun cs rest vs => R cs rest vs ∨ S cs rest vs where
  reads := by
    rintro cs rest vs (h | h) c
    · exact (hp.reads h c).first (hq.refuses (hR h))
    · exact Turns.second (hp.refuses (hS h)) (hq.reads h c)
  yields := Yields.either (hp.yields.mono fun _ _ _ _ _ ⟨h, hcontext⟩ => ⟨.inl h, hcontext⟩)
    (hq.yields.mono fun _ _ _ _ _ ⟨h, hcontext⟩ => ⟨.inr h, hcontext⟩)

theorem record {shape : Shape} (hp : p.Exact R)
    (hmakes : ∀ {cs rest vs}, R cs rest vs → ∃ v, shape.Makes vs v ∧ S cs rest [v])
    (hparts : ∀ {cs rest ws}, S cs rest ws → ∃ vs v, R cs rest vs ∧ shape.Makes vs v ∧ ws = [v]) :
    (Parser.record shape p).Exact S where
  reads := by
    intro cs rest ws hS c
    obtain ⟨vs, v, hR, hv, rfl⟩ := hparts hS
    exact (hp.reads hR c).record hv
  yields := by
    refine Yields.record hp.yields ?_
    rintro cs rest c vs d ⟨hR, hcontext⟩
    obtain ⟨v, hv, hS⟩ := hmakes hR
    exact ⟨v, hv, hS, hcontext⟩

theorem times_zero (p : Parser) : (Parser.times 0 p).Exact (.only []) := by
  refine of_reads ?_ fun cs habsent => absurd ⟨rfl, rfl⟩ (habsent [] cs [] rfl)
  rintro cs rest vs ⟨rfl, rfl⟩
  exact fun c => Turns.times_zero p rest c

theorem times_succ {n : Nat} (hp : p.Exact R) (hps : (Parser.times n p).Exact S) :
    (Parser.times (n + 1) p).Exact (R.Next S) := by
  refine of_reads ?_ fun cs habsent => ?_
  · rintro cs rest vs ⟨hR, hS, rfl, rfl⟩
    exact fun c => Turns.times_succ (hp.reads hR c) (hps.reads hS c)
  · intro s _ hafter
    refine Bool.of_not_eq_false fun hsuccess => ?_
    obtain ⟨hfirst, hothers⟩ := inner_of_times hsuccess
    obtain ⟨first, behind, us, hsplit, hbecomes, hR, -⟩ := hp.yields s hfirst
    obtain ⟨second, rest, ws, hsplit', -, hS, -⟩ := hps.yields _ hothers
    obtain rfl : behind = second ++ rest := (hbecomes.after_eq hsplit).symm.trans hsplit'
    refine habsent (first ++ second) rest (us ++ ws) ?_ ⟨hR, hS, rfl, rfl⟩
    rw [← hafter, hsplit, List.append_assoc]

end Exact

end Parser

end StackParser
