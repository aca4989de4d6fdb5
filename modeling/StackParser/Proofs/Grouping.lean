import StackParser.Proofs.Findings
import StackParser.Proofs.Lockstep
import StackParser.Proofs.RecordFrame

/-!
# Grouping and capturing

What a grammar recognises does not depend on how it wraps the values it pushes, nor on whether it captures them.

* `Value.leavesAll` : a stack with its lists taken apart;
* `Grammar.ungrouped`, `Grammar.uncaptured` : a grammar that wraps nothing, and one that captures no fixed text. Both rewrite
  a grammar node by node (`Grammar.rewrite`);
* `State.Alike Q s t` : the same place, context and success, and stacks that `Q` relates. Combinators keep to this where `Q`
  is `Coarse`: it must not see that values have been wrapped;
* `Grammar.follows_rewrite` : a rewriting keeps to it as a whole if it does so at each node;
* `Grammar.parse_ungrouped` : the two rewritings beside the grammar.
-/

namespace StackParser

namespace Value

mutual

/-- The values a list is made of, with the lists among them taken apart too. Another value is its only leaf. -/
def leaves : Value → List Value
  | .list items => leavesAll items
  | v => [v]

def leavesAll : List Value → List Value
  | [] => []
  | v :: vs => v.leaves ++ leavesAll vs

end

theorem leavesAll_append (vs ws : List Value) : leavesAll (vs ++ ws) = leavesAll vs ++ leavesAll ws := by
  induction vs with
  | nil => rfl
  | cons v vs ih => rw [List.cons_append, leavesAll, leavesAll, ih, List.append_assoc]

@[simp] theorem leavesAll_list (vs : List Value) : leavesAll [.list vs] = leavesAll vs := by
  rw [leavesAll, leavesAll, leaves, List.append_nil]

end Value

namespace Grammar

/-! ## Rewriting a grammar -/

mutual

/-- Rewrites a grammar from the inside out. The steps of custom parsers stay as they are. -/
def rewrite (f : Grammar → Grammar) : Grammar → Grammar
  | .sequenceOf gs => f (.sequenceOf (rewriteAll f gs))
  | .oneOf gs => f (.oneOf (rewriteAll f gs))
  | .optional g => f (.optional (g.rewrite f))
  | .group g => f (.group (g.rewrite f))
  | .list g => f (.list (g.rewrite f))
  | .times n g => f (.times n (g.rewrite f))
  | .oneOrMore g => f (.oneOrMore (g.rewrite f))
  | .tillEnd g => f (.tillEnd (g.rewrite f))
  | .record shape g => f (.record shape (g.rewrite f))
  | .action name g a => f (.action name (g.rewrite f) a)
  | g => f g

def rewriteAll (f : Grammar → Grammar) : List Grammar → List Grammar
  | [] => []
  | g :: gs => g.rewrite f :: rewriteAll f gs

end

def unwrap : Grammar → Grammar
  | .group g | .list g => g
  | g => g

def silence : Grammar → Grammar
  | .char c _ => .char c false
  | .literal text _ => .literal text false
  | .spaces n _ => .spaces n false
  | g => g

/-- The grammar with each group and list replaced by its part. -/
def ungrouped (g : Grammar) : Grammar := g.rewrite unwrap

/-- The grammar with no character, fixed text or spaces captured. -/
def uncaptured (g : Grammar) : Grammar := g.rewrite silence

theorem additive_unwrap {g : Grammar} (hg : g.additive = true) : g.unwrap.additive = true := by
  cases g <;> exact hg

mutual

theorem additive_rewrite {f : Grammar → Grammar} (hf : ∀ g : Grammar, g.additive = true → (f g).additive = true) :
    ∀ g : Grammar, g.additive = true → (g.rewrite f).additive = true
  | .sequenceOf gs, h | .oneOf gs, h => by
    rw [rewrite]
    exact hf _ (allAdditive_rewriteAll hf gs h)
  | .optional g, h | .group g, h | .list g, h | .times _ g, h | .oneOrMore g, h | .tillEnd g, h => by
    rw [rewrite]
    exact hf _ (additive_rewrite hf g h)
  | .record .., h | .action .., h | .custom .., h => nomatch h
  | .char .., _ | .literal .., _ | .letter, _ | .word, _ | .number _, _ | .spaces .., _ | .lineEnd, _
  | .stringMap _, _ | .keyword .., _ => hf _ rfl

theorem allAdditive_rewriteAll {f : Grammar → Grammar}
    (hf : ∀ g : Grammar, g.additive = true → (f g).additive = true) :
    ∀ gs : List Grammar, allAdditive gs = true → allAdditive (rewriteAll f gs) = true
  | [], _ => rfl
  | g :: gs, h => by
    obtain ⟨hg, hgs⟩ := Bool.and_eq_true_iff.1 h
    exact Bool.and_eq_true_iff.2 ⟨additive_rewrite hf g hg, allAdditive_rewriteAll hf gs hgs⟩

end

end Grammar

/-! ## States that differ in their stacks -/

variable {Q : List Value → List Value → Prop}

/-- The same place, the same context and the same success, with stacks that `Q` relates. -/
structure State.Alike (Q : List Value → List Value → Prop) (s t : State) : Prop where
  cursor : t.cursor = s.cursor
  context : t.context = s.context
  failed : t.failed = s.failed
  stack : Q s.stack t.stack

/-- What a relation of stacks needs so that combinators keep it: the same values may be pushed on both stacks, and the
latest ones of either be wrapped into a list. -/
structure Coarse (Q : List Value → List Value → Prop) : Prop where
  equivalence : Equivalence Q
  append {xs ys : List Value} (vs : List Value) : Q xs ys → Q (xs ++ vs) (ys ++ vs)
  wrap (xs : List Value) (n : Nat) : Q xs (xs.take n ++ [.list (xs.drop n)])

namespace Coarse

/-- Stacks of the same leaves. -/
theorem leaves : Coarse fun xs ys => Value.leavesAll ys = Value.leavesAll xs where
  equivalence := ⟨fun _ => rfl, Eq.symm, fun h h' => h'.trans h⟩
  append vs h := by rw [Value.leavesAll_append, Value.leavesAll_append, h]
  wrap xs n := by
    rw [Value.leavesAll_append, Value.leavesAll_list, ← Value.leavesAll_append, List.take_append_drop]

/-- Any two stacks. -/
theorem any : Coarse fun _ _ => True where
  equivalence := ⟨fun _ => trivial, fun _ => trivial, fun _ _ => trivial⟩
  append _ _ := trivial
  wrap _ _ := trivial

end Coarse

namespace State.Alike

variable {s t u : State}

theorem refl (hQ : Coarse Q) (s : State) : s.Alike Q s := ⟨rfl, rfl, rfl, hQ.equivalence.refl _⟩

theorem symm (hQ : Coarse Q) (h : s.Alike Q t) : t.Alike Q s :=
  ⟨h.cursor.symm, h.context.symm, h.failed.symm, hQ.equivalence.symm h.stack⟩

theorem trans (hQ : Coarse Q) (h : s.Alike Q t) (h' : t.Alike Q u) : s.Alike Q u :=
  ⟨h'.cursor.trans h.cursor, h'.context.trans h.context, h'.failed.trans h.failed, hQ.equivalence.trans h.stack h'.stack⟩

theorem fail (h : s.Alike Q t) (e e' : ParseError) : (s.fail e).Alike Q (t.fail e') := ⟨h.cursor, h.context, rfl, h.stack⟩

theorem rename (h : s.Alike Q t) (name name' : String) : Alike Q { s with name := name } { t with name := name' } :=
  ⟨h.cursor, h.context, h.failed, h.stack⟩

theorem lockstep : Lockstep (Alike Q) where
  failed h := h.failed
  after h := by rw [h.cursor]
  rename name name' h := h.rename name name'
  clear h := ⟨h.cursor, h.context, h.failed, h.stack⟩
  warn h _ := ⟨h.cursor, h.context, h.failed, h.stack⟩
  stall h := h.fail _ _

theorem of_run {p q : Parser} (hQ : Coarse Q) (h : (p.run s).Alike Q (q.run s)) : (p.parse s).Alike Q (q.parse s) := by
  unfold Parser.parse
  split
  · exact (refl hQ s).rename _ _
  · exact h.rename _ _

/-- The same trials succeed, whatever the errors of the others. -/
theorem choose {trials trials' : List State} (htrials : List.Forall₂ (State.Alike Q) trials trials')
    (h : s.Alike Q t) : (Parser.choose s trials).Alike Q (Parser.choose t trials') := by
  have hwinners : List.Forall₂ (State.Alike Q) (trials.filter fun u => !u.failed) (trials'.filter fun u => !u.failed) :=
    List.rel_filter (fun u v huv => by simp [huv.failed]) htrials
  unfold Parser.choose
  generalize trials.filter (fun u => !u.failed) = winners at hwinners ⊢
  generalize trials'.filter (fun u => !u.failed) = winners' at hwinners ⊢
  cases hwinners with
  | nil => exact h.fail _ _
  | cons hwinner hothers =>
    cases hothers with
    | nil => exact hwinner
    | cons _ _ => exact h.fail _ _

end State.Alike

open State (Alike)

namespace Parser.Follows

variable {p q : Parser} {ps qs : List Parser}

/-- What is decided by the text that is left pushes the same values. -/
theorem of_local (hQ : Coarse Q) (hp : p.Local) : Follows (Alike Q) p p := by
  intro s t h
  cases hs : s.failed with
  | true =>
    rw [p.parse_of_failed hs, p.parse_of_failed (h.failed.trans hs)]
    exact h.rename _ _
  | false =>
    obtain ⟨f, hfs, hft⟩ := hp s t hs (h.failed.trans hs) (congrArg Cursor.after h.cursor)
    rw [hfs, hft]
    cases f with
    | accept n vs => exact ⟨congrArg (Cursor.advance · n) h.cursor, h.context, h.failed, hQ.append vs h.stack⟩
    | reject n e => exact ⟨congrArg (Cursor.advance · n) h.cursor, h.context, rfl, h.stack⟩

theorem oneOf (hps : List.Forall₂ (Follows (Alike Q)) ps qs) : Follows (Alike Q) (Parser.oneOf ps) (Parser.oneOf qs) := by
  refine of_run Alike.lockstep fun s t h _ _ => Alike.choose ?_ h
  rw [List.forall₂_map_left_iff, List.forall₂_map_right_iff]
  exact hps.imp fun _ _ hpq => hpq s t h

/-- Wrapping what a parser has pushed is not seen. -/
theorem alike_of_collect (hQ : Coarse Q) {keepEmpty : Bool} (hq : q.run = collect p keepEmpty) (s : State) :
    (p.parse s).Alike Q (q.parse s) := by
  cases hs : s.failed with
  | true =>
    rw [p.parse_of_failed hs, q.parse_of_failed hs]
    exact (Alike.refl hQ s).rename _ _
  | false =>
    rw [q.parse_of_not_failed hs, hq]
    unfold collect
    dsimp only
    split
    · exact (Alike.refl hQ _).rename _ _
    · split
      · exact ⟨rfl, rfl, rfl, hQ.wrap _ _⟩
      · exact (Alike.refl hQ _).rename _ _

theorem collect (hQ : Coarse Q) {keepEmpty : Bool} {p' q' : Parser} (hp' : p'.run = Parser.collect p keepEmpty)
    (hq' : q'.run = Parser.collect q keepEmpty) (h : Follows (Alike Q) p q) : Follows (Alike Q) p' q' := by
  intro s t hst
  have hleft : (p'.parse s).Alike Q (p.parse s) := (alike_of_collect hQ hp' s).symm hQ
  have hright : (q.parse t).Alike Q (q'.parse t) := alike_of_collect hQ hq' t
  exact (hleft.trans hQ (h s t hst)).trans hQ hright

end Parser.Follows

open StackParser.Parser (Follows)

namespace Grammar

/-- Rewriting a single node in this way changes nothing but the stack, and that in a way which `Q` does not see. -/
structure Unseen (Q : List Value → List Value → Prop) (f : Grammar → Grammar) : Prop where
  coarse : Coarse Q
  node (g : Grammar) (s : State) : (g.parse s).Alike Q ((f g).parse s)

variable {f : Grammar → Grammar}

theorem Unseen.follows (h : Unseen Q f) {p : Parser} {g : Grammar} (hp : Follows (Alike Q) p g.parser) :
    Follows (Alike Q) p (f g).parser :=
  fun s t hst => (hp s t hst).trans h.coarse (h.node g t)

mutual

/-- If rewriting a node is not seen, rewriting all of them is not: the two parses go side by side. -/
theorem follows_rewrite (hf : Unseen Q f) :
    ∀ g : Grammar, g.additive = true → Follows (Alike Q) g.parser (g.rewrite f).parser
  | .char .., _ | .literal .., _ | .letter, _ | .word, _ | .number _, _ | .spaces .., _ | .lineEnd, _ | .stringMap _, _
  | .keyword .., _ => hf.follows (.of_local hf.coarse (parser_local _ rfl))
  | .sequenceOf gs, h => hf.follows (.sequenceOf Alike.lockstep (follows_rewriteAll hf gs h))
  | .oneOf gs, h => hf.follows (.oneOf (follows_rewriteAll hf gs h))
  | .optional g, h => hf.follows (.optional Alike.lockstep (follows_rewrite hf g h))
  | .group g, h => hf.follows (.collect hf.coarse rfl rfl (follows_rewrite hf g h))
  | .list g, h => hf.follows (.collect hf.coarse rfl rfl (follows_rewrite hf g h))
  | .times n g, h => hf.follows (.times Alike.lockstep n (follows_rewrite hf g h))
  | .oneOrMore g, h => hf.follows (.oneOrMore Alike.lockstep (follows_rewrite hf g h))
  | .tillEnd g, h => hf.follows (.tillEnd Alike.lockstep (follows_rewrite hf g h))
  | .record .., h | .action .., h | .custom .., h => nomatch h

theorem follows_rewriteAll (hf : Unseen Q f) : ∀ gs : List Grammar, allAdditive gs = true →
    List.Forall₂ (Follows (Alike Q)) (parsers gs) (parsers (rewriteAll f gs))
  | [], _ => .nil
  | g :: gs, h => by
    obtain ⟨hg, hgs⟩ := Bool.and_eq_true_iff.1 h
    exact .cons (follows_rewrite hf g hg) (follows_rewriteAll hf gs hgs)

end

/-- A rewriting that is not seen at a node is not seen in a parse. -/
theorem Unseen.alike (hf : Unseen Q f) {g : Grammar} (hg : g.additive = true) (s : State) :
    (g.parse s).Alike Q ((g.rewrite f).parse s) :=
  follows_rewrite hf g hg s s (.refl hf.coarse s)

/-- A list has the leaves of the values that were wrapped. -/
theorem unseen_unwrap : Unseen (fun xs ys => Value.leavesAll ys = Value.leavesAll xs) unwrap where
  coarse := .leaves
  node g s := by
    cases g with
    | group g => exact (Follows.alike_of_collect .leaves rfl s).symm .leaves
    | list g => exact (Follows.alike_of_collect .leaves rfl s).symm .leaves
    | _ => exact .refl .leaves _

/-- Whether a fixed text is captured shows on the stack only. -/
theorem alike_fixedText (cs : List Char) (captured : Bool) (s : State) :
    (Parser.fixedText cs captured s).Alike (fun _ _ => True) (Parser.fixedText cs false s) := by
  unfold Parser.fixedText
  split
  · cases captured <;> exact ⟨rfl, rfl, rfl, trivial⟩
  · exact .refl .any _

theorem alike_char (c : Char) (captured : Bool) (s : State) :
    ((Parser.char c captured).run s).Alike (fun _ _ => True) ((Parser.char c false).run s) := by
  unfold Parser.char
  dsimp only
  split
  · cases captured <;> exact ⟨rfl, rfl, rfl, trivial⟩
  · exact .refl .any _

theorem unseen_silence : Unseen (fun _ _ => True) silence where
  coarse := .any
  node g s := by
    cases g with
    | char c captured => exact Alike.of_run .any (alike_char c captured s)
    | literal text captured => exact Alike.of_run .any (alike_fixedText text.toList captured s)
    | spaces n captured => exact Alike.of_run .any (alike_fixedText (List.replicate n ' ') captured s)
    | _ => exact .refl .any _

/-- A grammar that only pushes recognises the same if it wraps nothing, and if moreover it captures no fixed text: it
succeeds or fails at the same place, with the same context. Wrapping moves no value: with all lists taken apart the
stacks are the same, also on failure. -/
theorem parse_ungrouped (g : Grammar) (s : State) (hg : g.additive = true) :
    let g₁ := g.ungrouped
    let g₂ := g₁.uncaptured
    ((g₁.parse s).failed = (g.parse s).failed ∧ (g₂.parse s).failed = (g.parse s).failed) ∧
    ((g₁.parse s).cursor = (g.parse s).cursor ∧ (g₂.parse s).cursor = (g.parse s).cursor) ∧
    ((g₁.parse s).context = (g.parse s).context ∧ (g₂.parse s).context = (g.parse s).context) ∧
    Value.leavesAll (g₁.parse s).stack = Value.leavesAll (g.parse s).stack := by
  intro g₁ g₂
  have hg₁ : g₁.additive = true := additive_rewrite (fun _ => additive_unwrap) g hg
  have h₁ := unseen_unwrap.alike hg s
  have h₂ := unseen_silence.alike hg₁ s
  exact ⟨⟨h₁.failed, h₂.failed.trans h₁.failed⟩, ⟨h₁.cursor, h₂.cursor.trans h₁.cursor⟩,
    ⟨h₁.context, h₂.context.trans h₁.context⟩, h₁.stack⟩

/-- Lists in groups in a list. The number behind the point is missing: what was pushed before stays, as four values, as
eleven where nothing is wrapped, and as six where moreover no comma, point or space is captured. -/
theorem parse_ungrouped_rows :
    let row := group (sequenceOf [letter, list (oneOrMore (sequenceOf [integer, char ',' true]))])
    let g := sequenceOf [list (oneOrMore row), literal "." true, spaces 1 true, integer]
    let s := { State.start "a1,2,b3,. x" with stack := [.str "below"], context := Keyed.empty.insert "depth" (.int 2) }
    let g₁ := g.ungrouped
    let g₂ := g₁.uncaptured
    g.additive = true ∧ (g.parse s).failed = true ∧ (g.parse s).cursor.index = 10 ∧
    ((g.parse s).stack.length = 4 ∧ (g₁.parse s).stack.length = 11 ∧ (g₂.parse s).stack.length = 6) ∧
    ((g₁.parse s).failed = (g.parse s).failed ∧ (g₂.parse s).failed = (g.parse s).failed) ∧
    ((g₁.parse s).cursor = (g.parse s).cursor ∧ (g₂.parse s).cursor = (g.parse s).cursor) ∧
    ((g₁.parse s).context = (g.parse s).context ∧ (g₂.parse s).context = (g.parse s).context) ∧
    Value.leavesAll (g₁.parse s).stack = Value.leavesAll (g.parse s).stack := by
  intro row g s g₁ g₂
  refine ⟨rfl, by decide +kernel, by decide +kernel, ⟨by decide +kernel, by decide +kernel, by decide +kernel⟩, ?_⟩
  exact parse_ungrouped g s rfl

end Grammar

end StackParser
