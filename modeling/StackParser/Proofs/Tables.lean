import StackParser.Proofs.Findings
import StackParser.Proofs.Winners

/-!
# Tables of fixed texts

* `entriesAt table cs` : the entries whose key the text `cs` begins with. They decide what a table does with the text;
* `Parser.stringMap_parse_of_entry`, `…_of_no_entry`, `…_of_entries` : one of them is read, none and several are reported;
* `Parser.stringMap_result` : these three cases are all there are, so a key that is read always has its value;
* `Family.ofValue?_value` : a keyword is told by its name, if the variants of the table have names of their own;
* `Family.keyword_round_trip` : what is read as a keyword is the variant of the token that stands there.
-/

namespace StackParser

/-- The entries of a table whose key `cs` begins with. -/
def entriesAt {β : Type} (table : List (String × β)) (cs : List Char) : List (String × β) :=
  table.filter fun e => e.1.toList.isPrefixOf cs

section Entries

variable {β γ : Type} {table : List (String × β)} {cs : List Char} {e : String × β}

theorem entriesAt_eq_nil_iff : entriesAt table cs = [] ↔ ∀ e ∈ table, ¬ e.1.toList <+: cs := by
  simp [entriesAt]

/-- The keys around the only one that `cs` begins with. -/
theorem exists_of_entriesAt_eq_singleton (h : entriesAt table cs = [e]) : ∃ before after,
    table = before ++ e :: after ∧ (∀ x ∈ before, ¬ x.1.toList <+: cs) ∧ e.1.toList <+: cs ∧
      ∀ x ∈ after, ¬ x.1.toList <+: cs := by
  obtain ⟨before, after, htable, hbefore, he, hafter⟩ := List.filter_eq_cons_iff.1 h
  exact ⟨before, after, htable, by simpa using hbefore, List.isPrefixOf_iff_prefix.1 he,
    entriesAt_eq_nil_iff.1 hafter⟩

theorem entriesAt_map (f : β → γ) (table : List (String × β)) (cs : List Char) :
    entriesAt (table.map fun e => (e.1, f e.2)) cs = (entriesAt table cs).map fun e => (e.1, f e.2) :=
  List.filter_map

/-- In front of its key an entry is alone, if no key begins with another. -/
theorem entriesAt_of_apart (hapart : Parser.Pushes.KeysApart table) (he : e ∈ table) (rest : List Char) :
    entriesAt table (e.1.toList ++ rest) = [e] := by
  obtain ⟨before, after, rfl⟩ := List.append_of_mem he
  obtain ⟨hothers, hothers'⟩ := hapart.alone rest
  have hbefore : entriesAt before (e.1.toList ++ rest) = [] := entriesAt_eq_nil_iff.2 hothers
  have hafter : entriesAt after (e.1.toList ++ rest) = [] := entriesAt_eq_nil_iff.2 hothers'
  have hself : e.1.toList.isPrefixOf (e.1.toList ++ rest) = true :=
    List.isPrefixOf_iff_prefix.2 (List.prefix_append _ rest)
  unfold entriesAt at hbefore hafter ⊢
  rw [List.filter_append, List.filter_cons, if_pos hself, hbefore, hafter]
  rfl

end Entries

namespace Parser

variable {table : List (String × Value)} {s : State} {e : String × Value}

/-! ## What a table makes of a state -/

/-- The key is read, and its value pushed. -/
theorem stringMap_parse_of_entry (hs : s.failed = false) (h : entriesAt table s.cursor.after = [e]) :
    (stringMap table).parse s =
      { s.advance e.1.length with stack := s.stack ++ [e.2], name := (stringMap table).label } := by
  obtain ⟨before, after, rfl, hbefore, ⟨rest, hrest⟩, hafter⟩ := exists_of_entriesAt_eq_singleton h
  rw [← hrest] at hbefore hafter
  have hreads := Reads.stringMap (v := e.2) hbefore hafter
  have hresult := (Local.stringMap _).parse_of_becomes hs (hreads s.context s hs hrest.symm rfl)
  rwa [String.length_toList] at hresult

/-- Each key is reported with the text that stands there. -/
theorem stringMap_parse_of_no_entry (hs : s.failed = false) (h : entriesAt table s.cursor.after = []) :
    (stringMap table).parse s = { s with
      name := (stringMap table).label
      error := some (.exhausted (mismatches (table.map Prod.fst) s.cursor.after)) } :=
  (Local.stringMap table).parse_of_breaks hs (breaks_stringMap hs (entriesAt_eq_nil_iff.1 h))

theorem winners_literals (hs : s.failed = false) : winners (table.map fun e => literal e.1 true) s =
    (entriesAt table s.cursor.after).map fun e => literal e.1 true := by
  rw [winners, List.filter_map, entriesAt]
  refine congrArg _ (List.filter_congr fun e _ => ?_)
  rw [Function.comp_apply, Bool.eq_iff_iff, Bool.not_eq_true', failed_literal hs, List.isPrefixOf_iff_prefix]

/-- The keys are reported among which the text does not decide. -/
theorem stringMap_parse_of_entries (hs : s.failed = false) (h : 2 ≤ (entriesAt table s.cursor.after).length) :
    (stringMap table).parse s = { s with
      name := (stringMap table).label
      error := some (.ambiguous ((entriesAt table s.cursor.after).map fun e => "literal(" ++ e.1 ++ ")")) } := by
  have hlength : 2 ≤ (winners (table.map fun e => literal e.1 true) s).length := by
    rwa [winners_literals hs, List.length_map]
  have hkeys := oneOf_parse_of_winners hs hlength
  rw [winners_literals hs, List.map_map] at hkeys
  rw [parse_of_not_failed _ hs]
  unfold stringMap
  dsimp only
  rw [hkeys]
  rfl

/-- Where the text goes on with the key of just one entry, the key is read and the value of this entry pushed. Where it goes
on with none, all keys are reported, and where it goes on with several, these are. A key that has been read always has a
value. -/
theorem stringMap_result (table : List (String × Value)) (s : State) (hs : s.failed = false) :
    (∀ e, entriesAt table s.cursor.after = [e] → (stringMap table).parse s =
      { s.advance e.1.length with stack := s.stack ++ [e.2], name := (stringMap table).label }) ∧
    (entriesAt table s.cursor.after = [] → (stringMap table).parse s = { s with
      name := (stringMap table).label
      error := some (.exhausted (mismatches (table.map Prod.fst) s.cursor.after)) }) ∧
    (2 ≤ (entriesAt table s.cursor.after).length → (stringMap table).parse s = { s with
      name := (stringMap table).label
      error := some (.ambiguous ((entriesAt table s.cursor.after).map fun e => "literal(" ++ e.1 ++ ")")) }) ∧
    ∀ key : String, ((stringMap table).parse s).error ≠ some (.custom ("Expected map to contain key " ++ key)) := by
  refine ⟨fun e => stringMap_parse_of_entry hs, stringMap_parse_of_no_entry hs, stringMap_parse_of_entries hs,
    fun key => ?_⟩
  match hentries : entriesAt table s.cursor.after with
  | [] =>
    rw [stringMap_parse_of_no_entry hs hentries]
    simp
  | [e] =>
    have herror : s.error = none := State.failed_eq_false_iff.1 hs
    rw [stringMap_parse_of_entry hs hentries]
    simp [State.advance, herror]
  | _ :: _ :: _ =>
    rw [stringMap_parse_of_entries hs (by rw [hentries]; simp)]
    simp

/-- Keys that begin with another, and two entries with one key. The value of `a` is pushed where `ab` does not stand; of the
two values of `é` none is. -/
theorem stringMap_result_overlapping :
    let table : List (String × Value) := [("a", .int 1), ("ab", .int 2), ("é", .int 3), ("é", .int 4)]
    (State.start "ac").failed = false ∧ entriesAt table "ac".toList = [("a", .int 1)] ∧
    (stringMap table).parse (.start "ac") =
      { (State.start "ac").advance 1 with stack := [.int 1], name := "string_map(a, ab, é, é)" } ∧
    ((stringMap table).parse (.start "x")).error = some (.exhausted (mismatches ["a", "ab", "é", "é"] ['x'])) ∧
    ((stringMap table).parse (.start "ab")).error = some (.ambiguous ["literal(a)", "literal(ab)"]) ∧
    ((stringMap table).parse (.start "éa")).error = some (.ambiguous ["literal(é)", "literal(é)"]) ∧
    ((stringMap table).parse (.start "éa")).error ≠ some (.custom "Expected map to contain key é") := by
  intro table
  obtain ⟨hone, -, -, -⟩ := stringMap_result table (.start "ac") rfl
  obtain ⟨-, hnone, -, -⟩ := stringMap_result table (.start "x") rfl
  obtain ⟨-, -, hseveral, -⟩ := stringMap_result table (.start "ab") rfl
  obtain ⟨-, -, htwice, hfound⟩ := stringMap_result table (.start "éa") rfl
  have hentry : entriesAt table "ac".toList = [("a", .int 1)] := by rfl
  refine ⟨rfl, hentry, ?_, ?_, ?_, ?_, hfound "é"⟩
  · rw [hone _ hentry]
    rfl
  · rw [hnone (by rfl)]
    rfl
  · rw [hseveral (by decide +kernel)]
    rfl
  · rw [htwice (by decide +kernel)]
    rfl

end Parser

namespace Family

variable {α β : Type} {F : Family α} {s : State} {token : String} {a : α}

/-! ## Keywords -/

/-- The variants that stand in the table have names of their own. -/
def NamesApart (F : Family α) : Prop :=
  ∀ x ∈ F.table, ∀ y ∈ F.table, F.variantName x.2 = F.variantName y.2 → x.2 = y.2

/-- The table is searched by name, and the first entry of this name is one of the variant. -/
theorem ofKeyword?_keyword (hnames : F.NamesApart) (ha : (token, a) ∈ F.table) : F.ofKeyword? (F.keyword a) = some a := by
  have hfamily : (F.keyword a).family = F.name := rfl
  have hmem : a ∈ F.table.map Prod.snd := List.mem_map_of_mem ha
  rw [ofKeyword?, if_pos hfamily]
  cases hfound : (F.table.map Prod.snd).find? fun b => F.variantName b == (F.keyword a).name with
  | none => exact absurd (beq_self_eq_true _) (List.find?_eq_none.1 hfound a hmem)
  | some b =>
    obtain ⟨x, hx, rfl⟩ := List.mem_map.1 (List.mem_of_find?_eq_some hfound)
    have hsatisfied := List.find?_some hfound
    have hname : F.variantName x.2 = F.variantName a := beq_iff_eq.1 hsatisfied
    rw [hnames x hx (token, a) ha hname]

theorem ofValue?_value (hnames : F.NamesApart) (ha : (token, a) ∈ F.table) : F.ofValue? (F.value a) = some a :=
  ofKeyword?_keyword hnames ha

theorem ofValue?_value_of_ne {G : Family β} (h : G.name ≠ F.name) (a : α) : G.ofValue? (F.value a) = none :=
  if_neg fun hname => h hname.symm

/-- A family is read by the table of its tokens and their keywords. -/
theorem parse_eq_stringMap (hs : s.failed = false) : (Grammar.ofFamily F).parse s =
    { (Parser.stringMap (F.table.map fun e => (e.1, F.value e.2))).parse s with
      name := (Grammar.ofFamily F).label } := by
  have htable : (F.tokens.map fun e => (e.1, Value.keyword ⟨F.name, e.2⟩)) = F.table.map fun e => (e.1, F.value e.2) := by
    rw [tokens, List.map_map]
    rfl
  rw [← htable, Grammar.parse, Parser.parse_of_not_failed _ hs]
  rfl

theorem parse_of_entry (hs : s.failed = false) (h : entriesAt F.table s.cursor.after = [(token, a)]) :
    (Grammar.ofFamily F).parse s =
      { s.advance token.length with stack := s.stack ++ [F.value a], name := (Grammar.ofFamily F).label } := by
  have hentries : entriesAt (F.table.map fun e => (e.1, F.value e.2)) s.cursor.after = [(token, F.value a)] := by
    rw [entriesAt_map, h]
    rfl
  rw [parse_eq_stringMap hs, Parser.stringMap_parse_of_entry hs hentries]

/-- A success has read the only token that stands there. -/
theorem exists_entry (h : ((Grammar.ofFamily F).parse s).failed = false) :
    ∃ token a, entriesAt F.table s.cursor.after = [(token, a)] := by
  have hs : s.failed = false := Parser.not_failed_of_parse h
  have hentries := entriesAt_map F.value F.table s.cursor.after
  rw [parse_eq_stringMap hs] at h
  match hcases : entriesAt F.table s.cursor.after with
  | [(token, a)] => exact ⟨token, a, rfl⟩
  | [] =>
    rw [hcases] at hentries
    rw [Parser.stringMap_parse_of_no_entry hs hentries] at h
    exact nomatch h
  | _ :: _ :: _ =>
    rw [hcases] at hentries
    rw [Parser.stringMap_parse_of_entries hs (by rw [hentries]; simp)] at h
    exact nomatch h

/-- What is read as a keyword of a family is the variant of the one token that stands there, and of no other family. If no
token begins with another, each token is read as its variant, whatever follows. -/
theorem keyword_round_trip (F : Family α) (hnames : F.NamesApart) :
    (∀ s : State, ((Grammar.ofFamily F).parse s).failed = false →
      ∃ token a v, entriesAt F.table s.cursor.after = [(token, a)] ∧
        (Grammar.ofFamily F).parse s =
          { s.advance token.length with stack := s.stack ++ [v], name := (Grammar.ofFamily F).label } ∧
        v.type = .keyword F.name ∧ F.ofValue? v = some a ∧
        ∀ {β : Type} (G : Family β), G.name ≠ F.name → G.ofValue? v = none) ∧
    (Parser.Pushes.KeysApart F.table → ∀ token a, (token, a) ∈ F.table → ∀ (s : State) (rest : List Char),
      s.failed = false → s.cursor.after = token.toList ++ rest →
      ∃ v, (Grammar.ofFamily F).parse s =
          { s.advance token.length with stack := s.stack ++ [v], name := (Grammar.ofFamily F).label } ∧
        F.ofValue? v = some a) := by
  constructor
  · intro s hsuccess
    obtain ⟨token, a, hentry⟩ := exists_entry hsuccess
    have ha : (token, a) ∈ F.table := (List.mem_filter.1 (hentry ▸ List.mem_singleton_self (token, a))).1
    exact ⟨token, a, F.value a, hentry, parse_of_entry (Parser.not_failed_of_parse hsuccess) hentry, rfl,
      ofValue?_value hnames ha, fun _ hG => ofValue?_value_of_ne hG a⟩
  · intro hapart token a ha s rest hs hafter
    have hentry : entriesAt F.table s.cursor.after = [(token, a)] := hafter ▸ entriesAt_of_apart hapart ha rest
    exact ⟨F.value a, parse_of_entry hs hentry, ofValue?_value hnames ha⟩

/-- Two tokens for one variant. A keyword of another family says nothing to this one, though it has the same names. -/
theorem keyword_round_trip_switch :
    let F : Family Bool := ⟨"Switch", [("on", true), ("yes", true), ("off", false)], fun b => if b then "On" else "Off"⟩
    let G : Family Bool := { F with name := "Answer" }
    F.NamesApart ∧ Parser.Pushes.KeysApart F.table ∧
    ((Grammar.ofFamily F).parse (.start "yes!")).failed = false ∧
    (∃ v, ((Grammar.ofFamily F).parse (.start "yes!")).stack = [v] ∧ F.ofValue? v = some true ∧ G.ofValue? v = none) ∧
    ∃ v, ((Grammar.ofFamily F).parse (.start "offon")).stack = [v] ∧ F.ofValue? v = some false := by
  intro F G
  have hnames : F.NamesApart := by
    unfold NamesApart
    decide
  have hapart : Parser.Pushes.KeysApart F.table := by decide +kernel
  have hsuccess : ((Grammar.ofFamily F).parse (.start "yes!")).failed = false := by decide +kernel
  obtain ⟨hread, hwritten⟩ := keyword_round_trip F hnames
  obtain ⟨token, a, v, hentry, hstate, -, hvalue, hother⟩ := hread (.start "yes!") hsuccess
  obtain ⟨w, hstate', hvalue'⟩ := hwritten hapart "off" false (by decide) (.start "offon") ['o', 'n'] rfl rfl
  have hyes : entriesAt F.table "yes!".toList = [("yes", true)] := by rfl
  have heq : [(token, a)] = [("yes", true)] := hentry.symm.trans hyes
  obtain ⟨rfl, rfl⟩ : token = "yes" ∧ a = true := by simpa using heq
  refine ⟨hnames, hapart, hsuccess, ⟨v, ?_, hvalue, hother G (by decide)⟩, w, ?_, hvalue'⟩
  · rw [hstate]
    rfl
  · rw [hstate']
    rfl

end Family

end StackParser
