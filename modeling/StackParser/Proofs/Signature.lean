import StackParser.Proofs.Rules

/-!
# Signatures of grammars

* `Grammar.signature?` : the types of the values a grammar pushes, where they are known;
* `Grammar.wellTyped` : every record inside is assembled from values of exactly the types of its fields, and there are
  no parsers inside that do more than push;
* `Grammar.pushes_signature` : a well-typed grammar leaves the stack alone and pushes values of its signature;
* `Grammar.wellTyped_sound` : it brings up no error of assembly, at any depth.
-/

namespace StackParser

namespace Grammar

mutual

/-- The types of the values that `g` pushes where it succeeds, if they are the same each time. -/
def signature? : Grammar → Option (List ValueType)
  | .char _ captured => some (if captured then [.char] else [])
  | .literal _ captured => some (if captured then [.string] else [])
  | .letter => some [.char]
  | .word => some [.string]
  | .number kind => some [kind.type]
  | .spaces _ captured => some (if captured then [.string] else [])
  | .lineEnd => some []
  | .sequenceOf gs => sequenceSignature? gs
  | .oneOf gs => commonSignature? gs
  | .optional g | .oneOrMore g | .tillEnd g => if g.signature? = some [] then some [] else none
  | .group g => g.signature?.map fun ts => if ts.isEmpty then [] else [.list]
  | .list _ => some [.list]
  | .times n g => g.signature?.map fun ts => (List.replicate n ts).flatten
  | .stringMap _ => none
  | .keyword family _ => some [.keyword family]
  | .record shape _ => some [shape.type]
  | .action .. | .custom .. => none

/-- The signatures of all of `gs`, one after the other. -/
def sequenceSignature? : List Grammar → Option (List ValueType)
  | [] => some []
  | g :: gs => g.signature?.bind fun ts => (sequenceSignature? gs).map fun us => ts ++ us

/-- The one signature that all of `gs` have. -/
def commonSignature? : List Grammar → Option (List ValueType)
  | [] => none
  | [g] => g.signature?
  | g :: g' :: gs => if commonSignature? (g' :: gs) = g.signature? then g.signature? else none

end

mutual

/-- Whether every record inside is assembled from the types of its fields, and only parsers that push are used. -/
def wellTyped : Grammar → Bool
  | .sequenceOf gs | .oneOf gs => allWellTyped gs
  | .optional g | .group g | .list g | .times _ g | .oneOrMore g | .tillEnd g => g.wellTyped
  | .record shape g => g.wellTyped && g.signature? = some (shape.fields.map Field.type)
  | .action .. | .custom .. => false
  | _ => true

def allWellTyped : List Grammar → Bool
  | [] => true
  | g :: gs => g.wellTyped && allWellTyped gs

end

theorem commonSignature?_eq {gs : List Grammar} {ts : List ValueType} (h : commonSignature? gs = some ts) :
    ∀ g ∈ gs, g.signature? = some ts := by
  induction gs with
  | nil => exact fun _ hg => (nomatch hg)
  | cons g gs ih =>
    cases gs with
    | nil =>
      intro g' hg'
      obtain rfl := List.mem_singleton.1 hg'
      exact h
    | cons g' gs =>
      rw [commonSignature?] at h
      split at h
      · rename_i hcommon
        intro g'' hg''
        rcases List.mem_cons.1 hg'' with rfl | hg''
        · exact h
        · exact ih (hcommon.trans h) g'' hg''
      · exact nomatch h

end Grammar

/-- Values of a signature; any values if it is not known. -/
def Layer.ofSignature : Option (List ValueType) → Layer
  | none => fun _ => True
  | some ts => Layer.types ts

section Typing

variable {P : ParseError → Prop} {p : Parser} {sig : Option (List ValueType)}

/-- A parser that pushes nothing still pushes nothing when it is repeated or left out; of others nothing is known. -/
theorem Layer.ofSignature_silent {f : State → State}
    (hsilent : sig = some [] → Meets P (Layer.types []) (Layer.types []) f)
    (hany : Meets P (Layer.types []) Layer.any f) :
    Meets P (Layer.types []) (Layer.ofSignature (if sig = some [] then some [] else none)) f := by
  split
  · rename_i hsig
    exact hsilent hsig
  · exact hany

theorem Layer.ofSignature_append {sig' : Option (List ValueType)} {vs : List Value}
    (h : (Layer.ofSignature sig).append (Layer.ofSignature sig') vs) :
    Layer.ofSignature (sig.bind fun ts => sig'.map fun us => ts ++ us) vs := by
  cases sig with
  | none => trivial
  | some ts =>
    cases sig' with
    | none => trivial
    | some us => exact Layer.types_append h

theorem Layer.ofSignature_collected {vs : List Value} (h : Layer.collected false (Layer.ofSignature sig) vs) :
    Layer.ofSignature (sig.map fun ts => if ts.isEmpty then [] else [.list]) vs := by
  obtain ⟨ws, hws, rfl⟩ := h
  cases sig with
  | none => trivial
  | some ts =>
    obtain rfl : ws.map Value.type = ts := hws
    cases ws <;> rfl

theorem Parser.Pushes.timesSignature (h : p.Pushes P (Layer.ofSignature sig)) (n : Nat) :
    (Parser.times n p).Pushes P (Layer.ofSignature (sig.map fun ts => (List.replicate n ts).flatten)) := by
  cases sig with
  | none => exact (Meets.times (fun _ => h.ontoAny) n).fromAny _
  | some ts => exact Parser.Pushes.timesTypes h n

end Typing

/-! ## Well-typed grammars -/

/-- `P` takes in all errors but those of assembly. -/
def ParseError.ButAssembly (P : ParseError → Prop) : Prop := ∀ d, d.category ≠ .assembly → P d

namespace ParseError.ButAssembly

variable {P : ParseError → Prop}

theorem mismatches (hP : ButAssembly P) : Mismatches P where
  mismatch _ _ := hP _ (nomatch ·)
  notANumber _ := hP _ (nomatch ·)
  invalidNumber _ _ := hP _ (nomatch ·)
  exhausted _ := hP _ (nomatch ·)

theorem ambiguous (hP : ButAssembly P) (branches : List String) : P (.ambiguous branches) := hP _ (nomatch ·)

theorem noProgress (hP : ButAssembly P) (w : Option ParseError) : P (.noProgress w) := hP _ (nomatch ·)

end ParseError.ButAssembly

mutual

/-- A well-typed grammar leaves the stack it finds alone and pushes values of its signature. -/
theorem Grammar.pushes_signature {P : ParseError → Prop} (hP : ParseError.ButAssembly P) :
    ∀ g : Grammar, g.wellTyped = true → g.parser.Pushes P (Layer.ofSignature g.signature?)
  | .char c captured, _ => .char hP.mismatches c captured
  | .literal text captured, _ =>
    (Parser.Pushes.literal hP.mismatches text captured).mono fun _ => Parser.Pushes.types_of_text
  | .letter, _ => .letter hP.mismatches
  | .word, _ => .word hP.mismatches
  | .number kind, _ => .number hP.mismatches kind
  | .spaces n captured, _ =>
    (Parser.Pushes.spaces hP.mismatches n captured).mono fun _ => Parser.Pushes.types_of_text
  | .lineEnd, _ => .lineEnd hP.mismatches
  | .sequenceOf gs, h => .sequenceOf (Grammar.runAll_signature hP gs h)
  | .oneOf gs, h => by
    refine Meets.oneOf hP.mismatches (fun p hp => ?_) (.inl hP.ambiguous)
    obtain ⟨g, hg, rfl⟩ := List.mem_map.1 (Grammar.parsers_eq_map gs ▸ hp)
    refine (Grammar.all_pushes_signature hP gs h g hg).mono fun vs hvs => ?_
    cases hcommon : (Grammar.oneOf gs).signature? with
    | none => trivial
    | some ts => rwa [Grammar.commonSignature?_eq hcommon g hg] at hvs
  | .optional g, h => by
    have hg := Grammar.pushes_signature hP g h
    refine Layer.ofSignature_silent (fun hsig => ?_) ?_
    · rw [hsig] at hg
      exact Meets.optional hg fun _ => id
    · exact Meets.optional (hg.mono fun _ _ => trivial) fun _ _ => trivial
  | .group g, h => (Parser.Pushes.group (Grammar.pushes_signature hP g h)).mono fun _ => Layer.ofSignature_collected
  | .list g, h => .list (Grammar.pushes_signature hP g h)
  | .times n g, h => (Grammar.pushes_signature hP g h).timesSignature n
  | .oneOrMore g, h => by
    have hg := Grammar.pushes_signature hP g h
    refine Layer.ofSignature_silent (fun hsig => ?_) ?_
    · rw [hsig] at hg
      exact Meets.oneOrMore hg
    · exact (Meets.oneOrMore hg.ontoAny).fromAny _
  | .tillEnd g, h => by
    have hg := Grammar.pushes_signature hP g h
    have hstall : (∀ w, P (.noProgress w)) ∨ g.parser.Consumes := .inl hP.noProgress
    refine Layer.ofSignature_silent (fun hsig => ?_) ?_
    · rw [hsig] at hg
      exact Meets.tillEnd hg hstall
    · exact (Meets.tillEnd hg.ontoAny hstall).fromAny _
  | .stringMap table, _ =>
    (Parser.Pushes.stringMap hP.mismatches (.inl hP.ambiguous)).mono fun _ _ => trivial
  | .keyword family tokens, _ => by
    refine (Parser.Pushes.keyword hP.mismatches family (.inl hP.ambiguous)).mono fun vs hvs => ?_
    obtain ⟨e, -, rfl⟩ := hvs
    rfl
  | .record shape g, h => by
    obtain ⟨hg, hsig⟩ := Bool.and_eq_true_iff.1 h
    have hpushes := Grammar.pushes_signature hP g hg
    rw [of_decide_eq_true hsig] at hpushes
    exact hpushes.record shape.fits_fields
  | .action .., h => nomatch h
  | .custom .., h => nomatch h

theorem Grammar.all_pushes_signature {P : ParseError → Prop} (hP : ParseError.ButAssembly P) :
    ∀ gs : List Grammar, Grammar.allWellTyped gs = true →
      ∀ g ∈ gs, g.parser.Pushes P (Layer.ofSignature g.signature?)
  | [], _, _, hg => nomatch hg
  | g :: gs, h, g', hg' => by
    obtain ⟨hfirst, hrest⟩ := Bool.and_eq_true_iff.1 h
    rcases List.mem_cons.1 hg' with heq | hg'
    · rw [heq]
      exact Grammar.pushes_signature hP g hfirst
    · exact Grammar.all_pushes_signature hP gs hrest g' hg'

theorem Grammar.runAll_signature {P : ParseError → Prop} (hP : ParseError.ButAssembly P) :
    ∀ gs : List Grammar, Grammar.allWellTyped gs = true →
      Meets P (Layer.types []) (Layer.ofSignature (Grammar.sequenceSignature? gs))
        (Parser.runAll (Grammar.parsers gs))
  | [], _ => .nil
  | g :: gs, h => by
    obtain ⟨hfirst, hrest⟩ := Bool.and_eq_true_iff.1 h
    have htail := (Grammar.runAll_signature hP gs hrest).frame (Layer.ofSignature g.signature?)
    refine Meets.cons (Grammar.pushes_signature hP g hfirst) (htail.mono (fun _ => ?_) fun _ => ?_)
    · exact Layer.append_of_nil (Layer.types_nil_iff.2 rfl)
    · exact Layer.ofSignature_append

end

/-- A well-typed grammar leaves what is on the stack there and adds values of its signature. An error of assembly, at
any depth of its error or its warning, was already in the warning it started with. -/
theorem Grammar.wellTyped_sound (g : Grammar) (hg : g.wellTyped = true) (s : State) (hs : s.failed = false) :
    (∃ vs, (g.parse s).stack = s.stack ++ vs ∧
      ((g.parse s).failed = false → ∀ sig, g.signature? = some sig → vs.map Value.type = sig)) ∧
    ∀ d e : ParseError, ((g.parse s).error = some e ∨ (g.parse s).warning = some e) → d.Within e →
      d.category = .assembly → ∃ w, s.warning = some w ∧ d.Within w := by
  have hpushes := Grammar.pushes_signature
    (P := fun d => d.category = .assembly → ∃ w, s.warning = some w ∧ d.Within w)
    (fun d hd hassembly => absurd hassembly hd) g hg
  have hsound := hpushes.sound s.stack s (State.Sound.start hs fun w hw d hd _ => ⟨w, hw, hd⟩)
  refine ⟨?_, fun d e he hd => ?_⟩
  · cases hf : (g.parse s).failed with
    | true =>
      obtain ⟨vs, hstack⟩ := hsound.keeps
      exact ⟨vs, hstack.symm, fun h => nomatch h⟩
    | false =>
      obtain ⟨vs, hstack, hvs⟩ := hsound.adds hf
      refine ⟨vs, hstack, fun _ sig hsig => ?_⟩
      rwa [hsig] at hvs
  · rcases he with he | he
    · exact hsound.error e he d hd
    · exact hsound.warning e he d hd

theorem Grammar.wellTyped_sound_of_step :
    let step := Grammar.record ⟨"Step", [⟨"sizes", .list, .required⟩, ⟨"to", .char, .required⟩]⟩
      (.sequenceOf [.list (.oneOrMore (.number .int)), .literal "," false, .letter])
    let s := { State.start "12,x" with stack := [.char 'y'] }
    (step.parse s).failed = false ∧
      ∃ vs, (step.parse s).stack = [.char 'y'] ++ vs ∧ vs.map Value.type = [.record "Step"] := by
  intro step s
  have hdone : (step.parse s).failed = false := by decide +kernel
  obtain ⟨⟨vs, hstack, htypes⟩, -⟩ := Grammar.wellTyped_sound step (by decide) s rfl
  exact ⟨hdone, vs, hstack, htypes hdone _ rfl⟩

end StackParser
