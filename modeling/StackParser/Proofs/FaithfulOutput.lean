import StackParser.Proofs.Indentation
import Mathlib.Data.List.Perm.Basic
import Mathlib.Data.List.Sort

/-!
# What a parse leaves, as a document

* `Value.document` : the document that a value stands for;
* `Value.toJson_spec` : the value is written as that document, and its numbers as numbers;
* `Keyed.eq_of_find?`, `Keyed.ofList_of_perm` : entries in key order do not tell in which order they were inserted;
* `Json.faithful_output` : the texts of what a parse leaves.
-/

namespace StackParser

/-! ## Values -/

namespace Value

mutual

/-- A number is itself, or the decimal with the fewest digits that reads back; what is no number is null. A record is its
fields, and a keyword says its family and its name. -/
def document : Value → Document
  | .char c => .string (String.singleton c)
  | .str text => .string text
  | .int n => .number n.toInt
  | .long n => .number n.toInt
  | .float x => if x.isNaN || x.isInf then .null else .number (Decimal.shortestValue .toEven x)
  | .list items => .array (documentItems items)
  | .record _ fields => .object (documentFields fields)
  | .keyword k => .object [("family", .string k.family), ("name", .string k.name)]

def documentItems : List Value → List Document
  | [] => []
  | v :: vs => document v :: documentItems vs

def documentFields : List (String × Value) → List (String × Document)
  | [] => []
  | (name, v) :: rest => (name, document v) :: documentFields rest

end

theorem ofInt_spec (n : Int) : (Json.ofInt n).Numeric ∧ (Json.ofInt n).document = .number n := by
  rw [Json.ofInt, ← NumberText.text_ofInt, Json.document_number, NumberText.value_ofInt]
  exact ⟨⟨_, rfl⟩, rfl⟩

theorem ofFloat_spec (x : Float) : (Json.ofFloat x).Numeric ∧ (Json.ofFloat x).document =
    if x.isNaN || x.isInf then .null else .number (Decimal.shortestValue .toEven x) := by
  obtain ⟨m, htext, hvalue⟩ := NumberText.exists_write .json x
  unfold Json.ofFloat
  split
  · exact ⟨trivial, rfl⟩
  · rw [← htext, Json.document_number, hvalue]
    exact ⟨⟨m, rfl⟩, rfl⟩

mutual

theorem toJson_spec : (v : Value) → v.toJson.Numeric ∧ v.toJson.document = v.document
  | .char _ | .str _ => ⟨trivial, rfl⟩
  | .int n | .long n => ofInt_spec n.toInt
  | .float x => ofFloat_spec x
  | .list items => (itemsToJson_spec items).imp id (congrArg Document.array)
  | .record _ fields => (fieldsToJson_spec fields).imp id (congrArg Document.object)
  | .keyword _ => ⟨⟨trivial, trivial, trivial⟩, rfl⟩

theorem itemsToJson_spec : (items : List Value) → Json.NumericItems (itemsToJson items) ∧
    Json.documentItems (itemsToJson items) = documentItems items
  | [] => ⟨trivial, rfl⟩
  | v :: vs => by
    obtain ⟨hv, hdocument⟩ := toJson_spec v
    obtain ⟨hvs, hdocuments⟩ := itemsToJson_spec vs
    exact ⟨⟨hv, hvs⟩, by simp [itemsToJson, Json.documentItems, documentItems, hdocument, hdocuments]⟩

theorem fieldsToJson_spec : (fields : List (String × Value)) → Json.NumericMembers (fieldsToJson fields) ∧
    Json.documentMembers (fieldsToJson fields) = documentFields fields
  | [] => ⟨trivial, rfl⟩
  | (name, v) :: rest => by
    obtain ⟨hv, hdocument⟩ := toJson_spec v
    obtain ⟨hrest, hdocuments⟩ := fieldsToJson_spec rest
    exact ⟨⟨hv, hrest⟩, by simp [fieldsToJson, Json.documentMembers, documentFields, hdocument, hdocuments]⟩

end

end Value

/-! ## Entries -/

namespace Keyed

variable {β : Type} {m m' : Keyed β}

theorem eq_of_find? (h : ∀ key, m.find? key = m'.find? key) : m = m' := by
  have hperm : m.entries.Perm m'.entries := by
    refine (List.perm_ext_iff_of_nodup m.nodup_entries m'.nodup_entries).2 fun e => ?_
    rw [mem_entries_iff m e.1 e.2, mem_entries_iff m' e.1 e.2, h]
  have hentries : m.entries = m'.entries := by
    refine hperm.eq_of_pairwise (fun a b _ _ hab hba => ?_) m.ascend m'.ascend
    exact absurd (String.lt_trans hab hba) (String.lt_irrefl _)
  cases m
  cases m'
  simpa using hentries

/-- No key stands in front of two values. -/
def Single (pairs : List (String × β)) : Prop := ∀ a ∈ pairs, ∀ b ∈ pairs, a.1 = b.1 → a = b

theorem find?_insertAll {pairs : List (String × β)} (h : Single pairs) (m : Keyed β) (key : String) (v : β) :
    (pairs.foldl (fun m e => m.insert e.1 e.2) m).find? key = some v ↔
      (key, v) ∈ pairs ∨ ((∀ e ∈ pairs, e.1 ≠ key) ∧ m.find? key = some v) := by
  induction pairs generalizing m with
  | nil => simp
  | cons a rest ih =>
    have hrest : Single rest := fun b hb c hc => h b (List.mem_cons_of_mem _ hb) c (List.mem_cons_of_mem _ hc)
    obtain ⟨k, w⟩ := a
    rw [List.foldl_cons, ih hrest, find?_insert, List.mem_cons, List.forall_mem_cons, Prod.mk.injEq]
    by_cases hkey : key = k
    · subst hkey
      by_cases hlater : ∀ e ∈ rest, e.1 ≠ key
      · have hnone : (key, v) ∉ rest := fun hv => hlater _ hv rfl
        simp only [hnone, ne_eq, not_true, false_and, false_or, or_false, true_and, if_true, Option.some.injEq, eq_comm]
        exact and_iff_right fun e he => Ne.symm (hlater e he)
      · obtain ⟨e, he, rfl⟩ : ∃ e ∈ rest, e.1 = key := by simpa using hlater
        have hsame : e.2 = w := congrArg Prod.snd (h e (List.mem_cons_of_mem _ he) _ List.mem_cons_self rfl)
        have hmem : v = w → (e.1, v) ∈ rest := by
          rintro rfl
          rwa [← hsame]
        simp only [hlater, ne_eq, not_true, false_and, or_false, true_and]
        exact ⟨.inr, fun hv => hv.elim hmem id⟩
    · simp [hkey, Ne.symm hkey]

theorem ofList_of_perm {pairs : List (String × β)} (h : pairs.Perm m.entries) : ofList pairs = m := by
  have hsingle : Single pairs := by
    intro a ha b hb hkey
    have hfind := (m.mem_entries_iff a.1 a.2).1 (h.mem_iff.1 ha)
    have hfind' := (m.mem_entries_iff b.1 b.2).1 (h.mem_iff.1 hb)
    rw [hkey] at hfind
    exact Prod.ext hkey (Option.some.inj (hfind.symm.trans hfind'))
  refine eq_of_find? fun key => Option.ext fun v => ?_
  rw [ofList, find?_insertAll hsingle, ← m.mem_entries_iff, h.mem_iff]
  simp

end Keyed

/-! ## The texts -/

namespace Json

theorem ofOutput_spec (stack : List Value) (context : Keyed Value) : (ofOutput stack context).Numeric ∧
    (ofOutput stack context).document = .object [
      ("values", .array (stack.map Value.document)),
      ("context", .object (context.entries.map fun e => (e.1, e.2.document)))] := by
  constructor
  · refine ⟨numericItems_iff.2 fun j hj => ?_, numericMembers_iff.2 fun m hm => ?_, trivial⟩
    · obtain ⟨v, -, rfl⟩ := List.mem_map.1 hj
      exact v.toJson_spec.1
    · obtain ⟨e, -, rfl⟩ := List.mem_map.1 hm
      exact e.2.toJson_spec.1
  · simp [ofOutput, document, documentMembers, documentItems_eq_map, documentMembers_eq_map, Value.toJson_spec,
      Function.comp_def]

/-- **The texts of what a parse leaves** say the values in the order of the stack, and the entries of the context in the
order of their keys. The order in which the entries were inserted is not seen, and the two texts are the same but for
white space outside strings. -/
theorem faithful_output (stack : List Value) (context : Keyed Value) :
    Document.read? (ofOutput stack context).compactText.toList = some (.object [
      ("values", .array (stack.map Value.document)),
      ("context", .object (context.entries.map fun e => (e.1, e.2.document)))]) ∧
    (context.entries.Pairwise fun a b => a.1 < b.1) ∧
    (∀ key v, (key, v) ∈ context.entries ↔ context.find? key = some v) ∧
    (∀ inserted : List (String × Value), inserted.Perm context.entries → Keyed.ofList inserted = context) ∧
    dropSpace (ofOutput stack context).prettyText.toList = (ofOutput stack context).compactText.toList := by
  obtain ⟨hnumeric, hdocument⟩ := ofOutput_spec stack context
  refine ⟨?_, context.ascend, context.mem_entries_iff, fun _ => Keyed.ofList_of_perm, ?_⟩
  · rw [compactText, String.toList_ofList, read?_compact hnumeric, hdocument]
  · rw [prettyText, compactText, String.toList_ofList, String.toList_ofList, dropSpace_pretty hnumeric]

end Json

end StackParser
