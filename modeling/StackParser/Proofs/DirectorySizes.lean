import Mathlib.Data.List.Infix
import Mathlib.Data.List.Nodup
import StackParser.Bundled.Directory

/-!
# Sizes of directories

`Directory.share?` is what an entry of the context counts for at a path, if it counts there at all. The size of a path is the
sum of all shares (`Directory.find?_sizes`). A listing that is kept under the path of a directory counts once for each
directory on the way down to it, if the names on the way can be told apart (`Directory.share?_pathOf`).
-/

namespace StackParser.Directory

def total (ns : List Int) : Int := ns.foldr (fun n sum => n + sum) 0

@[simp] theorem total_nil : total [] = 0 := rfl

@[simp] theorem total_cons (n : Int) (ns : List Int) : total (n :: ns) = n + total ns := rfl

theorem total_perm {ms ns : List Int} (h : ms.Perm ns) : total ms = total ns := by
  induction h with
  | nil => rfl
  | cons n _ ih => rw [total_cons, total_cons, ih]
  | swap m n ns => rw [total_cons, total_cons, total_cons, total_cons, Int.add_left_comm]
  | trans _ _ ih₁ ih₂ => exact ih₁.trans ih₂

/-! ## Shares -/

/-- What an entry of the context counts for at a path, if it counts there at all. -/
def share? (p : String) (entry : String × Value) : Option Int :=
  (listedPath? entry.1).bind fun q =>
    if p = q ∨ p ∈ lineage q then some ((lineage q).count p * directSize entry.2) else none

variable {p q : String} {n : Int} {sizes : Keyed Int}

theorem find?_addSize : (addSize n sizes q).find? p =
    if p = q then some ((sizes.find? p).getD 0 + n) else sizes.find? p := by
  rw [addSize, Keyed.find?_insert]
  split
  · rename_i h
    rw [h]
  · rfl

theorem find?_foldl_addSize (ps : List String) : (ps.foldl (addSize n) sizes).find? p =
    if p ∈ ps then some ((sizes.find? p).getD 0 + ps.count p * n) else sizes.find? p := by
  induction ps generalizing sizes with
  | nil => rfl
  | cons q ps ih =>
    rw [List.foldl_cons, ih, find?_addSize]
    by_cases hq : p = q
    · subst hq
      by_cases hp : p ∈ ps
      · simp [hp]
        grind
      · simp [hp, List.count_eq_zero_of_not_mem hp]
    · simp [hq, Ne.symm hq]

theorem find?_addListing (listing : Value) : (addListing sizes q listing).find? p =
    if p = q ∨ p ∈ lineage q then some ((sizes.find? p).getD 0 + (lineage q).count p * directSize listing)
    else sizes.find? p := by
  rw [addListing, find?_foldl_addSize, find?_addSize]
  by_cases hp : p ∈ lineage q
  · by_cases hq : p = q
    · subst hq
      simp [hp]
    · simp [hp, hq]
  · by_cases hq : p = q
    · subst hq
      simp [hp, List.count_eq_zero_of_not_mem hp]
    · simp [hp, hq]

def addEntry (sizes : Keyed Int) (entry : String × Value) : Keyed Int :=
  match listedPath? entry.1 with
  | some q => addListing sizes q entry.2
  | none => sizes

theorem sizes_eq (context : Context) : Directory.sizes context = context.entries.foldl addEntry .empty := rfl

theorem find?_addEntry (entry : String × Value) : (addEntry sizes entry).find? p =
    (share? p entry).elim (sizes.find? p) fun n => some ((sizes.find? p).getD 0 + n) := by
  rw [addEntry, share?]
  cases listedPath? entry.1 with
  | none => rfl
  | some q =>
    dsimp only [Option.bind_some]
    rw [find?_addListing]
    split <;> rfl

theorem find?_foldl_addEntry (entries : List (String × Value)) : (entries.foldl addEntry sizes).find? p =
    if entries.filterMap (share? p) = [] then sizes.find? p
    else some ((sizes.find? p).getD 0 + total (entries.filterMap (share? p))) := by
  induction entries generalizing sizes with
  | nil => rfl
  | cons entry entries ih =>
    rw [List.foldl_cons, ih, find?_addEntry, List.filterMap_cons]
    cases share? p entry with
    | none => rfl
    | some n => by_cases hnil : entries.filterMap (share? p) = [] <;> simp [hnil, Int.add_assoc]

/-- A path has a size as soon as an entry counts there, and then the size is the sum of the shares. -/
theorem find?_sizes (context : Context) (p : String) : (Directory.sizes context).find? p =
    if context.entries.filterMap (share? p) = [] then none
    else some (total (context.entries.filterMap (share? p))) := by
  rw [sizes_eq, find?_foldl_addEntry, Keyed.find?_empty, Option.getD_none, Int.zero_add]

/-! ## Paths -/

/-- Names that can be told apart in a path. -/
def Plain (names : List String) : Prop := ∀ name ∈ names, name.toList ≠ [] ∧ '/' ∉ name.toList

def pathOf (names : List String) : String := path (names.map Value.str)

theorem pathOf_eq (names : List String) : pathOf names = "/" ++ "/".intercalate names := path_names names

theorem toList_pathOf (names : List String) :
    (pathOf names).toList = '/' :: ['/'].intercalate (names.map String.toList) := by
  rw [pathOf_eq, String.toList_append, String.toList_intercalate]
  rfl

def descend : List String → String
  | [] => ""
  | name :: names => "/" ++ name ++ descend names

theorem descend_concat (names : List String) (name : String) :
    descend (names ++ [name]) = descend names ++ "/" ++ name := by
  induction names with
  | nil => simp [descend]
  | cons first names ih => rw [List.cons_append, descend, ih, descend, ← String.append_assoc, ← String.append_assoc]

/-- Only the root has a slash with no name behind it. -/
theorem pathOf_eq_descend {names : List String} (h : names ≠ []) : pathOf names = descend names := by
  induction names with
  | nil => exact absurd rfl h
  | cons name names ih =>
    cases names with
    | nil => simp [pathOf_eq, descend]
    | cons next names =>
      have hnext := ih (List.cons_ne_nil _ _)
      rw [descend, ← hnext, pathOf_eq, pathOf_eq, String.intercalate_cons_cons]
      simp only [String.append_assoc]

theorem pathsBelow_descend (above names : List String) : pathsBelow (descend above) names =
    names.inits.tail.map fun below => descend (above ++ below) := by
  induction names generalizing above with
  | nil => rfl
  | cons name names ih =>
    rw [pathsBelow, ← descend_concat, ih, List.inits_cons, List.tail_cons, List.map_map]
    cases names with
    | nil => rfl
    | cons next names => simp [Function.comp_def]

/-- The names can be read off the path. -/
theorem splitOn_pathOf {names : List String} (h : Plain names) :
    (((pathOf names).toList.splitOn '/').filter fun cs => !cs.isEmpty).map String.ofList = names := by
  rw [toList_pathOf]
  cases names with
  | nil => rfl
  | cons name names =>
    have hjoined : '/' :: ['/'].intercalate ((name :: names).map String.toList) =
        ['/'].intercalate ([] :: (name :: names).map String.toList) := by
      rw [List.map_cons, List.intercalate_cons_cons]
      rfl
    have hslash : ∀ cs ∈ [] :: (name :: names).map String.toList, '/' ∉ cs := by
      refine List.forall_mem_cons.2 ⟨List.not_mem_nil, List.forall_mem_map.2 fun name hname => ?_⟩
      exact (h name hname).2
    have hfilter : ((name :: names).map String.toList).filter (fun cs => !cs.isEmpty) =
        (name :: names).map String.toList := by
      refine List.filter_eq_self.2 (List.forall_mem_map.2 fun name hname => ?_)
      simp [(h name hname).1]
    rw [hjoined, List.splitOn_intercalate _ hslash (List.cons_ne_nil _ _), List.filter_cons, if_neg (by decide), hfilter,
      List.map_map]
    simp [Function.comp_def]

theorem pathOf_inj {names others : List String} (h : Plain names) (h' : Plain others)
    (heq : pathOf names = pathOf others) : names = others := by
  rw [← splitOn_pathOf h, ← splitOn_pathOf h', heq]

theorem ne_nil_of_mem_tail_inits {names below : List String} (h : below ∈ names.inits.tail) : below ≠ [] := by
  cases names with
  | nil => exact nomatch h
  | cons name names =>
    rw [List.inits_cons, List.tail_cons] at h
    obtain ⟨first, -, rfl⟩ := List.mem_map.1 h
    exact List.cons_ne_nil _ _

/-- The directories on the way down have the paths of the first names. -/
theorem lineage_pathOf {names : List String} (h : Plain names) : lineage (pathOf names) = names.inits.map pathOf := by
  have hinits : names.inits = [] :: names.inits.tail := by cases names <;> simp
  have hbelow : pathsBelow "" names = names.inits.tail.map pathOf := by
    have hdescend := pathsBelow_descend [] names
    rw [descend] at hdescend
    rw [hdescend]
    exact List.map_congr_left fun below hmem => (pathOf_eq_descend (ne_nil_of_mem_tail_inits hmem)).symm
  rw [lineage, splitOn_pathOf h, hbelow, hinits]
  rfl

theorem nodup_inits (names : List String) : names.inits.Nodup := by
  induction names with
  | nil => simp
  | cons name names ih =>
    rw [List.inits_cons, List.nodup_cons]
    exact ⟨by simp, ih.map fun _ _ h => (List.cons.inj h).2⟩

theorem Plain.of_isPrefix {first names : List String} (h : Plain names) (hfirst : first <+: names) : Plain first :=
  fun name hname => h name (hfirst.subset hname)

theorem mem_lineage_pathOf {names below : List String} (h : Plain names) (h' : Plain below) :
    pathOf names ∈ lineage (pathOf below) ↔ names <+: below := by
  rw [lineage_pathOf h', List.mem_map]
  constructor
  · rintro ⟨first, hfirst, heq⟩
    have hprefix := (List.mem_inits first below).1 hfirst
    obtain rfl := pathOf_inj (h'.of_isPrefix hprefix) h heq
    exact hprefix
  · intro hprefix
    exact ⟨names, (List.mem_inits names below).2 hprefix, rfl⟩

theorem nodup_lineage_pathOf {names : List String} (h : Plain names) : (lineage (pathOf names)).Nodup := by
  rw [lineage_pathOf h]
  refine (nodup_inits names).map_on fun first hfirst second hsecond => ?_
  exact pathOf_inj (h.of_isPrefix ((List.mem_inits _ _).1 hfirst)) (h.of_isPrefix ((List.mem_inits _ _).1 hsecond))

theorem listedPath?_mark (p : String) : listedPath? (listingMark ++ p) = some p := by
  have hmark : listingMark.toList.isPrefixOf (listingMark ++ p).toList = true := by
    rw [List.isPrefixOf_iff_prefix, String.toList_append]
    exact List.prefix_append _ _
  rw [listedPath?, if_pos hmark, String.toList_append, ← String.length_toList, List.drop_left, String.ofList_toList]

/-- A listing counts once for each directory on the way down to its own. -/
theorem share?_pathOf {names below : List String} (h : Plain names) (h' : Plain below) (listing : Value) :
    share? (pathOf names) (listingMark ++ pathOf below, listing) =
      if names <+: below then some (directSize listing) else none := by
  have hmem := mem_lineage_pathOf h h'
  rw [share?, listedPath?_mark, Option.bind_some]
  by_cases hprefix : names <+: below
  · have hcount := List.count_eq_one_of_mem (nodup_lineage_pathOf h') (hmem.2 hprefix)
    rw [if_pos (.inr (hmem.2 hprefix)), if_pos hprefix, hcount]
    simp
  · have hself : pathOf names ≠ pathOf below := by
      intro heq
      exact hprefix (pathOf_inj h h' heq ▸ List.prefix_rfl)
    rw [if_neg (not_or.2 ⟨hself, fun hin => hprefix (hmem.1 hin)⟩), if_neg hprefix]

end StackParser.Directory
