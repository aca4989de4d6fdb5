import StackParser.Proofs.Assembly
import StackParser.Proofs.Signature

/-!
# Records that are assembled in any case

* `Variants` : several signatures, one of which the pushed values have, if they are known;
* `Grammar.variants` : those of a grammar. An optional part gives one with its values and one without;
* `Grammar.pushes_variants` : a well-typed grammar that succeeds pushes values of one of its variants;
* `Shape.completedBy` : whether values of a signature make a record, whatever lies below;
* `Grammar.assembles` : whether all variants of a grammar do; `Grammar.failed_assemble` : no assembly behind such a grammar
  fails.
-/

namespace StackParser

/-- The signatures that the values pushed by a success can have, if they are known. -/
abbrev Variants := Option (List (List ValueType))

namespace Variants

variable {a b : Variants} {vs : List Value}

def append (a b : Variants) : Variants :=
  a.bind fun sigs => b.map fun sigs' => sigs.flatMap fun ts => sigs'.map fun us => ts ++ us

def replicate (a : Variants) : Nat → Variants
  | 0 => some [[]]
  | n + 1 => (a.replicate n).append a

def union (a b : Variants) : Variants := a.bind fun sigs => b.map fun sigs' => sigs ++ sigs'

/-- Values of one of the signatures; any values if these are not known. -/
def layer (a : Variants) : Layer := fun vs => ∀ sigs, a = some sigs → vs.map Value.type ∈ sigs

theorem layer_append (h : a.layer.append b.layer vs) : (a.append b).layer vs := by
  obtain ⟨us, ws, rfl, hus, hws⟩ := h
  intro sigs hsigs
  obtain ⟨as, ha, hmap⟩ := Option.bind_eq_some_iff.1 hsigs
  obtain ⟨bs, hb, rfl⟩ := Option.map_eq_some_iff.1 hmap
  rw [List.map_append]
  exact List.mem_flatMap.2 ⟨_, hus as ha, List.mem_map_of_mem (hws bs hb)⟩

theorem layer_union_left (h : a.layer vs) : (a.union b).layer vs := by
  intro sigs hsigs
  obtain ⟨as, ha, hmap⟩ := Option.bind_eq_some_iff.1 hsigs
  obtain ⟨bs, -, rfl⟩ := Option.map_eq_some_iff.1 hmap
  exact List.mem_append_left _ (h as ha)

theorem layer_union_right (h : b.layer vs) : (a.union b).layer vs := by
  intro sigs hsigs
  obtain ⟨as, -, hmap⟩ := Option.bind_eq_some_iff.1 hsigs
  obtain ⟨bs, hb, rfl⟩ := Option.map_eq_some_iff.1 hmap
  exact List.mem_append_right _ (h bs hb)

theorem layer_nil (h : Layer.types [] vs) : layer (some [[]]) vs := by
  rintro sigs ⟨⟩
  exact List.mem_singleton.2 h

theorem layer_collected (h : Layer.collected false a.layer vs) :
    layer (a.map fun sigs => sigs.map fun ts => if ts.isEmpty then [] else [.list]) vs := by
  obtain ⟨ws, hws, rfl⟩ := h
  intro sigs hsigs
  obtain ⟨as, ha, rfl⟩ := Option.map_eq_some_iff.1 hsigs
  refine List.mem_map.2 ⟨ws.map Value.type, hws as ha, ?_⟩
  cases ws <;> rfl

theorem layer_of_types {sig : Option (List ValueType)} (h : Layer.ofSignature sig vs) :
    layer (sig.map fun ts => [ts]) vs := by
  intro sigs hsigs
  obtain ⟨ts, rfl, rfl⟩ := Option.map_eq_some_iff.1 hsigs
  exact List.mem_singleton.2 h

end Variants

theorem Parser.Pushes.timesVariants {P : ParseError → Prop} {p : Parser} {a : Variants} (h : p.Pushes P a.layer)
    (n : Nat) : (Parser.times n p).Pushes P (a.replicate n).layer := by
  have hround (k : Nat) : Meets P (a.replicate k).layer (a.replicate (k + 1)).layer p.parse :=
    (h.onto (a.replicate k).layer).mono (fun _ => id) fun _ => Variants.layer_append
  exact (Meets.times hround n).mono (fun _ => Variants.layer_nil) fun _ => id

namespace Grammar

mutual

/-- The signatures that the values pushed by a success of `g` can have. -/
def variants : Grammar → Variants
  | .sequenceOf gs => sequenceVariants gs
  | .oneOf gs => choiceVariants gs
  | .optional g => Variants.union (some [[]]) g.variants
  | .group g => g.variants.map fun sigs => sigs.map fun ts => if ts.isEmpty then [] else [.list]
  | .times n g => g.variants.replicate n
  | .stringMap table => some (table.map fun e => [e.2.type])
  | g => g.signature?.map fun ts => [ts]

def sequenceVariants : List Grammar → Variants
  | [] => some [[]]
  | g :: gs => g.variants.append (sequenceVariants gs)

def choiceVariants : List Grammar → Variants
  | [] => some []
  | g :: gs => g.variants.union (choiceVariants gs)

end

theorem layer_of_mem {g : Grammar} {gs : List Grammar} (hg : g ∈ gs) {vs : List Value} (h : g.variants.layer vs) :
    (choiceVariants gs).layer vs := by
  induction gs with
  | nil => cases hg
  | cons g' gs ih =>
    rcases List.mem_cons.1 hg with rfl | hg
    · exact Variants.layer_union_left h
    · exact Variants.layer_union_right (ih hg)

/-- The kind of errors that takes in all errors: nothing is said of them here. -/
theorem anyError : ParseError.ButAssembly fun _ => True := fun _ _ => trivial

theorem pushes_ofSignature (g : Grammar) (hg : g.wellTyped = true) :
    g.parser.Pushes (fun _ => True) (Variants.layer (g.signature?.map fun ts => [ts])) :=
  (pushes_signature anyError g hg).mono fun _ => Variants.layer_of_types

mutual

theorem pushes_variants : ∀ g : Grammar, g.wellTyped = true → g.parser.Pushes (fun _ => True) g.variants.layer
  | .sequenceOf gs, h => .sequenceOf (runAll_variants gs h)
  | .oneOf gs, h => by
    refine Meets.oneOf anyError.mismatches (fun p hp => ?_) (.inl anyError.ambiguous)
    obtain ⟨g, hg, rfl⟩ := List.mem_map.1 (parsers_eq_map gs ▸ hp)
    exact (all_push_variants gs h g hg).mono fun _ => layer_of_mem hg
  | .optional g, h =>
    Meets.optional ((pushes_variants g h).mono fun _ => Variants.layer_union_right) fun _ hvs =>
      Variants.layer_union_left (Variants.layer_nil hvs)
  | .group g, h => (Parser.Pushes.group (pushes_variants g h)).mono fun _ => Variants.layer_collected
  | .times n g, h => (pushes_variants g h).timesVariants n
  | .stringMap table, _ => by
    refine (Parser.Pushes.stringMap anyError.mismatches (.inl anyError.ambiguous)).mono fun vs hvs sigs hsigs => ?_
    obtain ⟨e, he, rfl⟩ := hvs
    exact Option.some.inj hsigs ▸ List.mem_map_of_mem he
  | .char .., h | .literal .., h | .letter, h | .word, h | .number _, h | .spaces .., h | .lineEnd, h | .list _, h
  | .oneOrMore _, h | .tillEnd _, h | .keyword .., h | .record .., h => pushes_ofSignature _ h
  | .action .., h => nomatch h
  | .custom .., h => nomatch h

theorem all_push_variants : ∀ gs : List Grammar, allWellTyped gs = true →
    ∀ g ∈ gs, g.parser.Pushes (fun _ => True) g.variants.layer
  | [], _, _, hg => nomatch hg
  | g :: gs, h, g', hg' => by
    obtain ⟨hfirst, hrest⟩ := Bool.and_eq_true_iff.1 h
    rcases List.mem_cons.1 hg' with heq | hg'
    · rw [heq]
      exact pushes_variants g hfirst
    · exact all_push_variants gs hrest g' hg'

theorem runAll_variants : ∀ gs : List Grammar, allWellTyped gs = true →
    Meets (fun _ => True) (Layer.types []) (sequenceVariants gs).layer (Parser.runAll (parsers gs))
  | [], _ => Meets.nil.mono (fun _ => id) fun _ => Variants.layer_nil
  | g :: gs, h => by
    obtain ⟨hfirst, hrest⟩ := Bool.and_eq_true_iff.1 h
    have htail := (runAll_variants gs hrest).frame g.variants.layer
    refine Meets.cons (pushes_variants g hfirst) (htail.mono (fun _ => ?_) fun _ => ?_)
    · exact Layer.append_of_nil (Layer.types_nil_iff.2 rfl)
    · exact Variants.layer_append

end

end Grammar

/-! ## Assembly -/

namespace Shape

variable {shape : Shape} {s : State} {base vs : List Value}

/-- Whether values of these types make a record, whatever lies below: they end with values for all fields, or for the
mandatory ones. -/
def completedBy (shape : Shape) (ts : List ValueType) : Bool :=
  shape.fields.map Field.type <:+ ts || shape.mandatory.map Field.type <:+ ts

theorem failed_assemble_of_suffix (hs : s.failed = false)
    (h : shape.fields.map Field.type <:+ s.stack.map Value.type ∨
      shape.mandatory.map Field.type <:+ s.stack.map Value.type) :
    (shape.assemble s).failed = false := by
  rw [← misfit?_eq_none_iff_suffix, ← misfit?_eq_none_iff_suffix] at h
  rw [assemble, if_neg (ne_true_of_eq_false hs)]
  split
  · exact hs
  · rename_i e he
    have hmandatory : shape.misfit? shape.mandatory s.stack = none :=
      h.resolve_left fun hfields => Option.some_ne_none e (he.symm.trans hfields)
    have hfewer : shape.mandatory.length ≠ shape.fields.length := by
      intro hlength
      have hsame : shape.mandatory = shape.fields := List.filter_eq_self.2 (List.length_filter_eq_length_iff.1 hlength)
      rw [hsame, he] at hmandatory
      exact Option.some_ne_none e hmandatory
    rw [if_neg hfewer, hmandatory]
    exact hs

theorem failed_assemble_of_completedBy (hs : s.failed = false) (hstack : s.stack = base ++ vs)
    (h : shape.completedBy (vs.map Value.type) = true) : (shape.assemble s).failed = false := by
  refine failed_assemble_of_suffix hs ?_
  rw [hstack, List.map_append]
  have hbehind := List.suffix_append (base.map Value.type) (vs.map Value.type)
  exact (Bool.or_eq_true_iff.1 h).imp (fun hfields => (of_decide_eq_true hfields).trans hbehind) fun hmandatory =>
    (of_decide_eq_true hmandatory).trans hbehind

end Shape

namespace Grammar

/-- Whether all values that `g` can push make a record of the shape. -/
def assembles (g : Grammar) (shape : Shape) : Bool :=
  shape.mandatory.isEmpty || (g.wellTyped && g.variants.any fun sigs => sigs.all shape.completedBy)

theorem failed_assemble {g : Grammar} {shape : Shape} (h : g.assembles shape = true) {s : State}
    (hsuccess : (g.parse s).failed = false) : (shape.assemble (g.parse s)).failed = false := by
  rcases Bool.or_eq_true_iff.1 h with hnone | h
  · refine Shape.failed_assemble_of_suffix hsuccess (.inr ?_)
    rw [List.isEmpty_iff.1 hnone]
    exact List.nil_suffix
  · obtain ⟨htyped, hall⟩ := Bool.and_eq_true_iff.1 h
    obtain ⟨sigs, hsigs, hcompleted⟩ := (Option.any_eq_true ..).1 hall
    obtain ⟨vs, hstack, hvs⟩ := (pushes_variants g htyped).exists_stack_eq_append s
    exact Shape.failed_assemble_of_completedBy hsuccess hstack (List.all_eq_true.1 hcompleted _ (hvs hsuccess sigs hsigs))

end Grammar

end StackParser
