import StackParser.Proofs.DirectorySizes
import StackParser.Proofs.FaithfulOutput
import StackParser.Proofs.Indexing

/-!
# Sizes of directories, rolled up

* `Directory.listings` : the listings among some entries, with their paths; `Directory.rolledUp listings p` : the sum of the file
  sizes in those of `p` and of all directories beneath it, name by name;
* `Directory.rollUp` : the sizes that entries come to when they are taken in this order. The order does not count
  (`rollUp_perm`);
* `Directory.checkedRollUp` : the same with 64-bit sums. It goes through, and comes to the same sizes, unless a sum on the way leaves
  their range (`NoOverflow`, `checkedRollUp_spec`);
* `Directory.sizes_exact` : the sizes of a context have the paths of all listed directories and of those above them, and are the
  exact sums.
-/

namespace StackParser

theorem Keyed.mem_keys_iff {β : Type} {m : Keyed β} {key : String} : key ∈ m.keys ↔ ∃ v, m.find? key = some v := by
  simp only [keys, List.mem_map, Prod.exists, exists_and_right, exists_eq_right, mem_entries_iff]

namespace Directory

/-! ## Paths and names -/

/-- Whether `p` is the path of a directory: `/` alone, or names that can be told apart, each with a slash in front. -/
def IsPath (p : String) : Prop := ∃ names, Plain names ∧ p = pathOf names

def namesOf (p : String) : List String := ((p.toList.splitOn '/').filter fun cs => !cs.isEmpty).map String.ofList

variable {d p : String} {e : String × Value} {entries others : List (String × Value)}

theorem namesOf_pathOf {names : List String} (h : Plain names) : namesOf (pathOf names) = names := splitOn_pathOf h

theorem IsPath.plain (h : IsPath p) : Plain (namesOf p) := by
  obtain ⟨names, hnames, rfl⟩ := h
  rwa [namesOf_pathOf hnames]

theorem IsPath.pathOf_namesOf (h : IsPath p) : pathOf (namesOf p) = p := by
  obtain ⟨names, hnames, rfl⟩ := h
  rw [namesOf_pathOf hnames]

theorem isPath_iff : IsPath p ↔ Plain (namesOf p) ∧ p = pathOf (namesOf p) :=
  ⟨fun h => ⟨h.plain, h.pathOf_namesOf.symm⟩, fun h => ⟨_, h⟩⟩

instance (names : List String) : Decidable (Plain names) :=
  inferInstanceAs (Decidable (∀ name ∈ names, name.toList ≠ [] ∧ '/' ∉ name.toList))

instance (p : String) : Decidable (IsPath p) := decidable_of_iff _ isPath_iff.symm

/-- The directories on the way down to `p` are those whose names are the first of its own. -/
theorem mem_lineage_iff (h : IsPath p) : d ∈ lineage p ↔ ∃ names, names <+: namesOf p ∧ d = pathOf names := by
  rw [← h.pathOf_namesOf, lineage_pathOf h.plain, namesOf_pathOf h.plain, List.mem_map]
  simp only [List.mem_inits, eq_comm]

theorem isPath_of_mem_lineage (h : IsPath p) (hd : d ∈ lineage p) : IsPath d := by
  obtain ⟨names, hnames, rfl⟩ := (mem_lineage_iff h).1 hd
  exact ⟨names, h.plain.of_isPrefix hnames, rfl⟩

theorem mem_lineage_iff_beneath (hd : IsPath d) (hp : IsPath p) : d ∈ lineage p ↔ namesOf d <+: namesOf p := by
  rw [← hd.pathOf_namesOf, ← hp.pathOf_namesOf, mem_lineage_pathOf hd.plain hp.plain, namesOf_pathOf hd.plain,
    namesOf_pathOf hp.plain]

theorem self_mem_lineage (h : IsPath p) : p ∈ lineage p := (mem_lineage_iff_beneath h h).2 List.prefix_rfl

theorem nodup_lineage (h : IsPath p) : (lineage p).Nodup := by
  rw [← h.pathOf_namesOf]
  exact nodup_lineage_pathOf h.plain

/-! ## Listings and their sums -/

/-- The listings among some entries, each with the path it is filed under. -/
def listings (entries : List (String × Value)) : List (String × Value) :=
  entries.filterMap fun e => (listedPath? e.1).map fun p => (p, e.2)

/-- The size that an entry of a listing shows: a whole number of either width, in the field of a record. -/
def entrySize : Value → Int
  | .record _ fields =>
    match fields.lookup "size" with
    | some (.int n) => n.toInt
    | some (.long n) => n.toInt
    | _ => 0
  | _ => 0

/-- The sum of the sizes in a listing. What is no list shows none. -/
def listedSize (listing : Value) : Int := total ((listing.list?.getD []).map entrySize)

/-- The sum of the sizes in the listings of a directory and of all beneath it. -/
def rolledUp (ls : List (String × Value)) (p : String) : Int :=
  total ((ls.filter fun l => namesOf p <+: namesOf l.1).map fun l => listedSize l.2)

theorem entrySize_eq (v : Value) : entrySize v = (((v.field? "size").bind Value.long?).map Int64.toInt).getD 0 := by
  cases v with
  | record shape fields =>
    rw [entrySize, Value.field?]
    cases fields.lookup "size" with
    | none => rfl
    | some w => cases w with
      | int n => exact (Int32.toInt_toInt64 n).symm
      | _ => rfl
  | _ => rfl

theorem directSize_eq (listing : Value) : directSize listing = listedSize listing := by
  rw [directSize, listedSize]
  induction listing.list?.getD [] with
  | nil => rfl
  | cons v vs ih =>
    rw [List.map_cons, total_cons, ← ih, entrySize_eq, List.filterMap_cons]
    cases (v.field? "size").bind Value.long? with
    | none => exact (Int.zero_add _).symm
    | some n => rfl

theorem total_append (ms ns : List Int) : total (ms ++ ns) = total ms + total ns := by
  induction ms with
  | nil => exact (Int.zero_add _).symm
  | cons n ms ih => rw [List.cons_append, total_cons, total_cons, ih, Int.add_assoc]

theorem listings_append (entries others : List (String × Value)) :
    listings (entries ++ others) = listings entries ++ listings others := List.filterMap_append

theorem mem_listings_append {l : String × Value} (h : l ∈ listings entries) : l ∈ listings (entries ++ others) := by
  rw [listings_append]
  exact List.mem_append_left _ h

theorem mem_listings {l : String × Value} : l ∈ listings entries ↔ ∃ e ∈ entries, listedPath? e.1 = some l.1 ∧ e.2 = l.2 := by
  simp only [listings, List.mem_filterMap, Option.map_eq_some_iff, Prod.ext_iff]
  exact exists_congr fun e => and_congr_right fun _ => ⟨fun ⟨_, hp, heq, hv⟩ => ⟨heq ▸ hp, hv⟩, fun h => ⟨_, h.1, rfl, h.2⟩⟩

/-- An entry counts once at each path on the way down to its own. -/
theorem share?_of_isPath (he : listedPath? e.1 = some p) (hp : IsPath p) :
    share? d e = if d ∈ lineage p then some (listedSize e.2) else none := by
  rw [share?, he, Option.bind_some]
  by_cases hd : d ∈ lineage p
  · rw [if_pos (.inr hd), if_pos hd, List.count_eq_one_of_mem (nodup_lineage hp) hd, Int.natCast_one, Int.one_mul,
      directSize_eq]
  · rw [if_neg hd, if_neg]
    rintro (rfl | h)
    · exact hd (self_mem_lineage hp)
    · exact hd h

/-- What entries count for at a path is what the listings beneath it show. -/
theorem filterMap_share? (h : ∀ l ∈ listings entries, IsPath l.1) :
    entries.filterMap (share? d) = ((listings entries).filter fun l => d ∈ lineage l.1).map fun l => listedSize l.2 := by
  induction entries with
  | nil => rfl
  | cons e entries ih =>
    rw [List.filterMap_cons]
    cases he : listedPath? e.1 with
    | none =>
      have hlistings : listings (e :: entries) = listings entries := by simp [listings, he]
      have hshare : share? d e = none := by rw [share?, he]; rfl
      rw [hlistings] at h ⊢
      rw [hshare]
      exact ih h
    | some p =>
      have hlistings : listings (e :: entries) = (p, e.2) :: listings entries := by simp [listings, he]
      rw [hlistings] at h ⊢
      obtain ⟨hp, h⟩ := List.forall_mem_cons.1 h
      rw [share?_of_isPath he hp, ih h]
      by_cases hd : d ∈ lineage p
      · simp [hd]
      · simp [hd]

theorem total_share? (h : ∀ l ∈ listings entries, IsPath l.1) (hd : IsPath d) :
    total (entries.filterMap (share? d)) = rolledUp (listings entries) d := by
  have hfilter : ((listings entries).filter fun l => d ∈ lineage l.1) =
      (listings entries).filter fun l => namesOf d <+: namesOf l.1 :=
    List.filter_congr fun l hl => decide_eq_decide.2 (mem_lineage_iff_beneath hd (h l hl))
  rw [filterMap_share? h, hfilter, rolledUp]

/-! ## Entries in any order -/

/-- The sizes that entries come to, taken in this order. -/
def rollUp (entries : List (String × Value)) : Keyed Int := entries.foldl addEntry .empty

theorem find?_rollUp : (rollUp entries).find? d =
    if entries.filterMap (share? d) = [] then none else some (total (entries.filterMap (share? d))) := by
  rw [rollUp, find?_foldl_addEntry, Keyed.find?_empty, Option.getD_none, Int.zero_add]

theorem getD_find?_rollUp : ((rollUp entries).find? d).getD 0 = total (entries.filterMap (share? d)) := by
  rw [find?_rollUp]
  split
  · rename_i hnil
    rw [hnil]
    rfl
  · rfl

theorem rollUp_perm (h : entries.Perm others) : rollUp entries = rollUp others := by
  refine Keyed.eq_of_find? fun d => ?_
  have hshares := h.filterMap (share? d)
  have hnil : entries.filterMap (share? d) = [] ↔ others.filterMap (share? d) = [] := by
    rw [← List.length_eq_zero_iff, hshares.length_eq, List.length_eq_zero_iff]
  simp only [find?_rollUp, hnil, total_perm hshares]

/-- A path has a size exactly if a listing is filed under it or beneath it. -/
theorem find?_rollUp_isSome (h : ∀ l ∈ listings entries, IsPath l.1) :
    (∃ n, (rollUp entries).find? d = some n) ↔ ∃ l ∈ listings entries, d ∈ lineage l.1 := by
  rw [find?_rollUp, filterMap_share? h]
  simp [List.filter_eq_nil_iff]

/-! ## Sums of 64-bit numbers -/

/-- The whole numbers that 64 bits hold. -/
def Narrow (n : Int) : Prop := -9223372036854775808 ≤ n ∧ n ≤ 9223372036854775807

instance (n : Int) : Decidable (Narrow n) := inferInstanceAs (Decidable (_ ∧ _))

def addLong (m n : Int64) : Checked Int64 := if Narrow (m.toInt + n.toInt) then .ok (m + n) else .error .overflow

def checkedSize (listing : Value) : Checked Int64 :=
  ((listing.list?.getD []).filterMap fun v => (v.field? "size").bind Value.long?).foldlM addLong 0

def checkedAddSize (n : Int64) (sizes : Keyed Int64) (p : String) : Checked (Keyed Int64) := do
  let sum ← addLong ((sizes.find? p).getD 0) n
  return sizes.insert p sum

def checkedAddListing (sizes : Keyed Int64) (p : String) (listing : Value) : Checked (Keyed Int64) := do
  let n ← checkedSize listing
  (lineage p).foldlM (checkedAddSize n) (sizes.insert p ((sizes.find? p).getD 0))

def checkedAddEntry (sizes : Keyed Int64) (entry : String × Value) : Checked (Keyed Int64) :=
  match listedPath? entry.1 with
  | some p => checkedAddListing sizes p entry.2
  | none => .ok sizes

def checkedRollUp (entries : List (String × Value)) : Checked (Keyed Int64) := entries.foldlM checkedAddEntry .empty

/-- No sum on the way needs more than 64 bits, neither of the first entries of a listing nor, at a directory to which a listing
counts, of the listings that have been seen. -/
structure NoOverflow (entries : List (String × Value)) : Prop where
  listed : ∀ l ∈ listings entries, ∀ seen, seen <+: l.2.list?.getD [] → Narrow (total (seen.map entrySize))
  rolledUp : ∀ seen, seen <+: listings entries → ∀ l ∈ seen, ∀ names, names <+: namesOf l.1 →
    Narrow (rolledUp seen (pathOf names))

theorem noOverflow_iff : NoOverflow entries ↔
    (∀ l ∈ listings entries, ∀ seen ∈ (l.2.list?.getD []).inits, Narrow (total (seen.map entrySize))) ∧
      ∀ seen ∈ (listings entries).inits, ∀ l ∈ seen, ∀ names ∈ (namesOf l.1).inits, Narrow (rolledUp seen (pathOf names)) := by
  simp only [List.mem_inits]
  exact ⟨fun h => ⟨h.listed, h.rolledUp⟩, fun h => ⟨h.1, h.2⟩⟩

instance (entries : List (String × Value)) : Decidable (NoOverflow entries) := decidable_of_iff _ noOverflow_iff.symm

/-- The same sizes, kept with 64 bits. -/
def Keeps (m : Keyed Int64) (sizes : Keyed Int) : Prop := ∀ d, (m.find? d).map Int64.toInt = sizes.find? d

theorem addLong_spec {m n : Int64} (h : Narrow (m.toInt + n.toInt)) :
    ∃ k, addLong m n = .ok k ∧ k.toInt = m.toInt + n.toInt := by
  refine ⟨m + n, if_pos h, ?_⟩
  obtain ⟨hlo, hhi⟩ := h
  rw [Int64.toInt_add, Int.bmod_eq_of_le (by omega) (by omega)]

/-- Adding up goes through if no sum of the first sizes is out of range. -/
theorem sum_spec (vs : List Value) (acc : Int64)
    (h : ∀ seen, seen <+: vs → Narrow (acc.toInt + total (seen.map entrySize))) :
    ∃ n, (vs.filterMap fun v => (v.field? "size").bind Value.long?).foldlM addLong acc = .ok n ∧
      n.toInt = acc.toInt + total (vs.map entrySize) := by
  induction vs generalizing acc with
  | nil => exact ⟨acc, rfl, (Int.add_zero _).symm⟩
  | cons v vs ih =>
    have hfirst := h [v] (List.prefix_append [v] vs)
    have hothers : ∀ seen, seen <+: vs → Narrow (acc.toInt + (entrySize v + total (seen.map entrySize))) :=
      fun seen hseen => h (v :: seen) ((List.prefix_cons_inj v).2 hseen)
    rw [List.map_cons, total_cons]
    rw [List.map_cons, List.map_nil, total_cons, total_nil, Int.add_zero] at hfirst
    rw [List.filterMap_cons]
    rw [entrySize_eq] at hfirst hothers ⊢
    cases hv : (v.field? "size").bind Value.long? with
    | none =>
      rw [hv] at hothers
      simp only [Option.map_none, Option.getD_none, Int.zero_add] at hothers ⊢
      exact ih acc hothers
    | some n =>
      rw [hv] at hfirst hothers
      simp only [Option.map_some, Option.getD_some] at hfirst hothers ⊢
      obtain ⟨k, hk, hsum⟩ := addLong_spec hfirst
      rw [List.foldlM_cons, hk, Checked.ok_bind, ← Int.add_assoc, ← hsum]
      exact ih k fun seen hseen => by
        rw [hsum, Int.add_assoc]
        exact hothers seen hseen

theorem checkedSize_spec {listing : Value}
    (h : ∀ seen, seen <+: listing.list?.getD [] → Narrow (total (seen.map entrySize))) :
    ∃ n, checkedSize listing = .ok n ∧ n.toInt = directSize listing := by
  obtain ⟨n, hn, hsum⟩ := sum_spec (listing.list?.getD []) 0 fun seen hseen => by
    rw [Int64.toInt_zero, Int.zero_add]
    exact h seen hseen
  refine ⟨n, hn, ?_⟩
  rw [hsum, Int64.toInt_zero, Int.zero_add, directSize_eq, listedSize]

namespace Keeps

variable {m : Keyed Int64} {sizes : Keyed Int} {n : Int64}

theorem empty : Keeps .empty .empty := fun _ => rfl

theorem getD_find? (h : Keeps m sizes) (d : String) : ((m.find? d).getD 0).toInt = (sizes.find? d).getD 0 := by
  rw [← h d]
  cases m.find? d with
  | none => rfl
  | some n => rfl

theorem insert (h : Keeps m sizes) {k : Int64} {sum : Int} (hk : k.toInt = sum) (p : String) :
    Keeps (m.insert p k) (sizes.insert p sum) := by
  intro d
  rw [Keyed.find?_insert, Keyed.find?_insert]
  split
  · exact congrArg some hk
  · exact h d

/-- Paths that are pairwise different do not get in each other's way. -/
theorem foldlM_addSize (h : Keeps m sizes) {ps : List String} (hps : ps.Nodup)
    (hnarrow : ∀ p ∈ ps, Narrow ((sizes.find? p).getD 0 + n.toInt)) :
    ∃ m', ps.foldlM (checkedAddSize n) m = .ok m' ∧ Keeps m' (ps.foldl (addSize n.toInt) sizes) := by
  induction ps generalizing m sizes with
  | nil => exact ⟨m, rfl, h⟩
  | cons p ps ih =>
    obtain ⟨hp, hps⟩ := List.nodup_cons.1 hps
    obtain ⟨hfirst, hothers⟩ := List.forall_mem_cons.1 hnarrow
    rw [← h.getD_find?] at hfirst
    obtain ⟨k, hk, hsum⟩ := addLong_spec hfirst
    rw [h.getD_find?] at hsum
    have hstep : checkedAddSize n m p = .ok (m.insert p k) := by
      rw [checkedAddSize, hk]
      rfl
    rw [List.foldlM_cons, hstep, Checked.ok_bind, List.foldl_cons]
    refine ih (h.insert hsum p) hps fun q hq => ?_
    rw [find?_addSize, if_neg (ne_of_mem_of_not_mem hq hp)]
    exact hothers q hq

theorem addListing (h : Keeps m sizes) {listing : Value} (hp : IsPath p)
    (hlisted : ∀ seen, seen <+: listing.list?.getD [] → Narrow (total (seen.map entrySize)))
    (hrolled : ∀ d ∈ lineage p, Narrow ((sizes.find? d).getD 0 + directSize listing)) :
    ∃ m', checkedAddListing m p listing = .ok m' ∧ Keeps m' (Directory.addListing sizes p listing) := by
  obtain ⟨n, hn, hsize⟩ := checkedSize_spec hlisted
  rw [← hsize] at hrolled
  have hstart : Keeps (m.insert p ((m.find? p).getD 0)) (addSize 0 sizes p) := by
    rw [addSize, Int.add_zero]
    exact h.insert (h.getD_find? p) p
  rw [checkedAddListing, hn, Checked.ok_bind, Directory.addListing, ← hsize]
  refine hstart.foldlM_addSize (nodup_lineage hp) fun d hd => ?_
  rw [addSize, Int.add_zero, Keyed.find?_insert]
  split
  · rename_i heq
    rw [Option.getD_some, ← heq]
    exact hrolled d hd
  · exact hrolled d hd

end Keeps

theorem NoOverflow.of_append (h : NoOverflow (entries ++ others)) : NoOverflow entries where
  listed l hl := h.listed l (mem_listings_append hl)
  rolledUp seen hseen := h.rolledUp seen (by rw [listings_append]; exact hseen.trans (List.prefix_append _ _))

/-- What one entry adds to the sums stays in range, so the whole run does. -/
theorem checkedRollUp_spec (hpaths : ∀ l ∈ listings entries, IsPath l.1) (h : NoOverflow entries) :
    ∃ m, checkedRollUp entries = .ok m ∧ Keeps m (rollUp entries) := by
  induction entries using List.reverseRecOn with
  | nil => exact ⟨.empty, rfl, .empty⟩
  | append_singleton entries e ih =>
    have hpaths' : ∀ l ∈ listings entries, IsPath l.1 := fun l hl => hpaths l (mem_listings_append hl)
    obtain ⟨m, hm, hkeeps⟩ := ih hpaths' h.of_append
    have hrollUp : rollUp (entries ++ [e]) = addEntry (rollUp entries) e := by
      rw [rollUp, List.foldl_append]
      rfl
    rw [checkedRollUp] at hm
    rw [hrollUp, checkedRollUp, List.foldlM_append, hm, Checked.ok_bind, List.foldlM_cons]
    cases he : listedPath? e.1 with
    | none =>
      have hstep : checkedAddEntry m e = .ok m := by rw [checkedAddEntry, he]
      have hsame : addEntry (rollUp entries) e = rollUp entries := by rw [addEntry, he]
      rw [hstep, hsame]
      exact ⟨m, rfl, hkeeps⟩
    | some p =>
      have hmem : (p, e.2) ∈ listings (entries ++ [e]) := mem_listings.2 ⟨e, by simp, he, rfl⟩
      have hp := hpaths _ hmem
      have hrolled : ∀ d ∈ lineage p, Narrow (((rollUp entries).find? d).getD 0 + directSize e.2) := by
        intro d hd
        have hsum : ((rollUp entries).find? d).getD 0 + directSize e.2 = rolledUp (listings (entries ++ [e])) d := by
          rw [← total_share? hpaths (isPath_of_mem_lineage hp hd), List.filterMap_append, total_append, getD_find?_rollUp]
          simp [share?_of_isPath he hp, hd, directSize_eq]
        obtain ⟨names, hnames, rfl⟩ := (mem_lineage_iff hp).1 hd
        rw [hsum]
        exact h.rolledUp _ List.prefix_rfl _ hmem names hnames
      obtain ⟨m', hm', hkeeps'⟩ := hkeeps.addListing hp (h.listed _ hmem) hrolled
      have hstep : checkedAddEntry m e = .ok m' := by rw [checkedAddEntry, he]; exact hm'
      have hsame : addEntry (rollUp entries) e = Directory.addListing (rollUp entries) p e.2 := by rw [addEntry, he]
      rw [hstep, hsame]
      exact ⟨m', rfl, hkeeps'⟩

/-! ## The sizes of a context -/

/-- Let all listings of a context be filed under paths of directories. The paths that have a size are those of the listed directories
and of all above them, and the size of each is the sum over all listings at it and beneath it. In whatever order the entries are
taken they come to the same sizes; and unless a sum on the way is out of their range, 64-bit sums come to them as well. -/
theorem sizes_exact (c : Context) (hpaths : ∀ l ∈ listings c.entries, IsPath l.1) :
    (∀ d, d ∈ (sizes c).keys ↔ ∃ l ∈ listings c.entries, ∃ names, names <+: namesOf l.1 ∧ d = pathOf names) ∧
    (∀ d n, (sizes c).find? d = some n → n = rolledUp (listings c.entries) d) ∧
    ∀ entries, entries.Perm c.entries → rollUp entries = sizes c ∧
      (NoOverflow entries → ∃ m, checkedRollUp entries = .ok m ∧ ∀ d, (m.find? d).map Int64.toInt = (sizes c).find? d) := by
  have hsizes : sizes c = rollUp c.entries := sizes_eq c
  have hkeys : ∀ d, (∃ n, (sizes c).find? d = some n) ↔ ∃ l ∈ listings c.entries, d ∈ lineage l.1 := fun d => by
    rw [hsizes]
    exact find?_rollUp_isSome hpaths
  refine ⟨fun d => ?_, fun d n hn => ?_, fun entries hperm => ?_⟩
  · rw [Keyed.mem_keys_iff, hkeys]
    exact exists_congr fun l => and_congr_right fun hl => mem_lineage_iff (hpaths l hl)
  · obtain ⟨l, hl, hd⟩ := (hkeys d).1 ⟨n, hn⟩
    have hpath : IsPath d := isPath_of_mem_lineage (hpaths l hl) hd
    rw [← total_share? hpaths hpath, ← getD_find?_rollUp, ← hsizes, hn, Option.getD_some]
  · have hsame : rollUp entries = sizes c := (rollUp_perm hperm).trans hsizes.symm
    refine ⟨hsame, fun hfits => ?_⟩
    have hpaths' : ∀ l ∈ listings entries, IsPath l.1 := fun l hl =>
      hpaths l ((hperm.filterMap _).mem_iff.1 hl)
    obtain ⟨m, hm, hkeeps⟩ := checkedRollUp_spec hpaths' hfits
    exact ⟨m, hm, fun d => by rw [hkeeps, hsame]⟩

/-- `/ab` is not beneath `/a`, a text is no listing, and neither a directory nor a text as a size counts. -/
theorem sizes_exact_nested :
    let c : Context := .ofList [
      ("dir:/", .list [.record "Dir" [("name", .str "a")], .record "File" [("size", .long 1), ("name", .str "f")]]),
      ("dir:/a", .list [.record "File" [("size", .int 2)], .record "File" [("size", .str "3")]]),
      ("dir:/a/b", .list [.record "File" [("size", .long 4)], .int 5]),
      ("dir:/ab", .str "no list"), ("cwd", .list [.str "a"])]
    (∀ l ∈ listings c.entries, IsPath l.1) ∧ NoOverflow c.entries.reverse ∧
      (sizes c).keys = ["/", "/a", "/a/b", "/ab"] ∧ (sizes c).find? "/a" = some 6 ∧
      rolledUp (listings c.entries) "/a" = 6 ∧
      ∃ m, checkedRollUp c.entries.reverse = .ok m ∧ (m.find? "/a").map Int64.toInt = some 6 := by
  intro c
  have hpaths : ∀ l ∈ listings c.entries, IsPath l.1 := by decide +kernel
  have hfits : NoOverflow c.entries.reverse := by decide +kernel
  have hsize : (sizes c).find? "/a" = some 6 := by decide +kernel
  obtain ⟨-, hsum, horder⟩ := sizes_exact c hpaths
  obtain ⟨m, hm, hkeeps⟩ := (horder c.entries.reverse c.entries.reverse_perm).2 hfits
  exact ⟨hpaths, hfits, by decide +kernel, hsize, (hsum "/a" 6 hsize).symm, m, hm, (hkeeps "/a").trans hsize⟩

end Directory

end StackParser
