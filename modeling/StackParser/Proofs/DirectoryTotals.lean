import Mathlib.Data.List.Dedup
import StackParser.Proofs.DirectorySizes
import StackParser.Proofs.TranscriptLanguage

/-!
# Totals of the directories of a walk

* `Walk.directories` : the directories that were listed, and `Walk.filesIn` : the sizes in the latest listing of one;
* `Walk.totalIn` : the sizes in a directory and in all directories listed below it;
* `Transcript.sizes_of_accepted` : these are the sizes after an accepted transcript, if no name on the way to a listed
  directory has a slash. With a slash in a name they are not (`Transcript.sizes_of_slash`): the path does not tell the names
  apart.
-/

namespace StackParser

namespace Walk

def Entry.size : Entry → Int
  | dir _ => 0
  | file size _ => size.numeral.value

/-- The directories that were listed, as the names on the way down from the root. -/
def directories (w : Walk) : List (List String) := (w.listed.map Prod.fst).dedup

def latestIn (w : Walk) (names : List String) : List Entry :=
  (w.listed.find? fun listing => listing.1 = names).elim [] Prod.snd

def Slashless (w : Walk) : Prop := ∀ names ∈ w.directories, ∀ name ∈ names, '/' ∉ name.toList

instance (w : Walk) : Decidable w.Slashless :=
  inferInstanceAs (Decidable (∀ names ∈ w.directories, ∀ name ∈ names, '/' ∉ name.toList))

def filesIn (w : Walk) (names : List String) : Int := Directory.total ((w.latestIn names).map Entry.size)

/-- The sizes of the files in a directory and in all listed directories below. -/
def totalIn (w : Walk) (names : List String) : Int :=
  Directory.total ((w.directories.filter fun below => names <+: below).map w.filesIn)

variable {w w' : Walk} {c : Context} {names : List String}

/-! ## Listings -/

theorem toInt_value (size : Size) : size.value.toInt = size.numeral.value := by
  have hfits := size.fits
  exact Int64.toInt_ofInt_of_le (by omega) (by omega)

theorem directSize_listing (entries : List Entry) :
    Directory.directSize (.list (entries.map Entry.record)) = Directory.total (entries.map Entry.size) := by
  rw [Directory.directSize, Value.list?, Option.getD_some]
  induction entries with
  | nil => rfl
  | cons e entries ih =>
    rw [List.map_cons, List.map_cons, Directory.total_cons, ← ih]
    cases e with
    | dir name =>
      have hnone : ((Entry.dir name).record.field? "size").bind Value.long? = none := rfl
      rw [List.filterMap_cons, hnone, Entry.size, Int.zero_add]
    | file size name =>
      have hsome : ((Entry.file size name).record.field? "size").bind Value.long? = some size.value := rfl
      rw [List.filterMap_cons, hsome, Entry.size, ← toInt_value]
      rfl

theorem mem_directories : names ∈ w.directories ↔ ∃ entries, (names, entries) ∈ w.listed := by
  simp [directories]

/-! ## Names -/

/-- No name is empty. -/
structure Named (w : Walk) : Prop where
  here : ∀ names ∈ w.here, ∀ name ∈ names, name.toList ≠ []
  listed : ∀ listing ∈ w.listed, ∀ name ∈ listing.1, name.toList ≠ []

theorem named_start : start.Named := ⟨nofun, nofun⟩

theorem Named.goTo? (h : w.Named) {target : Target} (hnames : w.goTo? target = some names) :
    ∀ name ∈ names, name.toList ≠ [] :=
  forall_goTo? (fun name _ _ => name.ne_nil) h.here hnames

theorem Named.step (h : w.Named) {cmd : Command} (hstep : w.step cmd = some w') : w'.Named := by
  cases cmd with
  | enter target =>
    obtain ⟨names, hnames, rfl⟩ := Option.map_eq_some_iff.1 hstep
    exact ⟨fun _ hhere => Option.some.inj hhere ▸ h.goTo? hnames, h.listed⟩
  | list entries =>
    obtain ⟨names, hnames, rfl⟩ := Option.map_eq_some_iff.1 hstep
    exact ⟨h.here, List.forall_mem_cons.2 ⟨h.here names hnames, h.listed⟩⟩

theorem Named.run (h : w.Named) {commands : List Command} (hrun : w.run commands = some w') : w'.Named := by
  induction commands generalizing w with
  | nil =>
    obtain rfl := Option.some.inj hrun
    exact h
  | cons cmd commands ih =>
    rw [run_cons] at hrun
    obtain ⟨next, hstep, hrun⟩ := Option.bind_eq_some_iff.1 hrun
    exact ih (h.step hstep) hrun

/-- Listed directories can be told apart by their paths. -/
def Plain (w : Walk) : Prop := ∀ names ∈ w.directories, Directory.Plain names

theorem Named.plain (h : w.Named) (hslash : w.Slashless) : w.Plain := by
  intro names hnames name hname
  obtain ⟨entries, hlisting⟩ := mem_directories.1 hnames
  exact ⟨h.listed _ hlisting name hname, hslash names hnames name hname⟩

/-! ## Entries of the context -/

theorem listingKey_eq (names : List String) : listingKey names = Directory.listingMark ++ Directory.pathOf names :=
  (mark_append_path names).symm

theorem listingKey_inj {others : List String} (h : Directory.Plain names) (h' : Directory.Plain others)
    (heq : listingKey names = listingKey others) : names = others := by
  refine Directory.pathOf_inj h h' ?_
  have := congrArg Directory.listedPath? heq
  rw [listingKey_eq, listingKey_eq, Directory.listedPath?_mark, Directory.listedPath?_mark] at this
  exact Option.some.inj this

/-- Under the key of a directory stands its own latest listing. -/
theorem latest?_listingKey (h : w.Plain) (hnames : names ∈ w.directories) :
    w.latest? (listingKey names) = some (w.latestIn names) := by
  have hsame : ∀ listing ∈ w.listed, decide (listingKey listing.1 = listingKey names) = decide (listing.1 = names) := by
    intro listing hlisting
    refine decide_eq_decide.2 ⟨?_, fun heq => heq ▸ rfl⟩
    exact listingKey_inj (h _ (mem_directories.2 ⟨listing.2, hlisting⟩)) (h names hnames)
  have hfind : w.listed.find? (fun listing => listingKey listing.1 = listingKey names) =
      w.listed.find? fun listing => listing.1 = names := by
    rw [← List.head?_filter, List.filter_congr hsame, List.head?_filter]
  obtain ⟨entries, hmem⟩ := mem_directories.1 hnames
  have hsome : (w.listed.find? fun listing => listing.1 = names).isSome := by
    rw [List.find?_isSome]
    exact ⟨_, hmem, by simp⟩
  obtain ⟨listing, hlisting⟩ := Option.isSome_iff_exists.1 hsome
  rw [latest?, latestIn, hfind, hlisting]
  rfl

/-- What the context holds under the key of the working directory, if there is one. -/
def workingEntry (w : Walk) : List (String × Value) :=
  (w.here.map fun names => ("cwd", Value.list (names.map Value.str))).toList

def entryOf (w : Walk) (names : List String) : String × Value :=
  (listingKey names, .list ((w.latestIn names).map Entry.record))

theorem mem_workingEntry {key : String} {v : Value} : (key, v) ∈ w.workingEntry ↔
    key = "cwd" ∧ w.here.map (fun names => Value.list (names.map Value.str)) = some v := by
  rw [workingEntry]
  cases w.here <;> simp [eq_comm]

theorem value?_eq_some_iff (hw : w.Plain) {key : String} {v : Value} :
    w.value? key = some v ↔ (key, v) ∈ w.workingEntry ++ w.directories.map w.entryOf := by
  rw [value?, List.mem_append, mem_workingEntry, List.mem_map]
  by_cases hkey : key = "cwd"
  · subst hkey
    have hlisting : ∀ names, w.entryOf names ≠ ("cwd", v) := fun names heq =>
      listingKey_ne names (Prod.ext_iff.1 heq).1
    simp [hlisting]
  · rw [if_neg hkey]
    simp only [hkey, false_and, false_or]
    constructor
    · intro hv
      obtain ⟨entries, hentries, rfl⟩ := Option.map_eq_some_iff.1 hv
      obtain ⟨listing, hfind, -⟩ := Option.map_eq_some_iff.1 hentries
      have hmem := List.mem_of_find?_eq_some hfind
      have hlistingKey : listingKey listing.1 = key := by simpa using List.find?_some hfind
      have hdirectory : listing.1 ∈ w.directories := mem_directories.2 ⟨listing.2, hmem⟩
      have hlatest := latest?_listingKey hw hdirectory
      rw [hlistingKey, hentries] at hlatest
      exact ⟨listing.1, hdirectory, by rw [entryOf, hlistingKey, Option.some.inj hlatest]⟩
    · rintro ⟨names, hnames, heq⟩
      obtain ⟨rfl, rfl⟩ := Prod.ext_iff.1 heq
      change (w.latest? (listingKey names)).map _ = _
      rw [latest?_listingKey hw hnames]
      rfl

/-- The context holds the working directory and one listing for each directory. -/
theorem entries_perm (h : w.Describes c) (hw : w.Plain) :
    c.entries.Perm (w.workingEntry ++ w.directories.map w.entryOf) := by
  have hworking : w.workingEntry.Nodup := by
    rw [workingEntry]
    cases w.here <;> simp
  have hdirectories : (w.directories.map w.entryOf).Nodup := by
    refine (List.nodup_dedup _).map_on fun names hnames others hothers heq => ?_
    exact listingKey_inj (hw names hnames) (hw others hothers) (Prod.ext_iff.1 heq).1
  have hnodup : (w.workingEntry ++ w.directories.map w.entryOf).Nodup := by
    refine List.nodup_append'.2 ⟨hworking, hdirectories, fun entry hentry hlisting => ?_⟩
    obtain ⟨names, -, rfl⟩ := List.mem_map.1 hlisting
    exact listingKey_ne names (mem_workingEntry.1 hentry).1
  refine (List.perm_ext_iff_of_nodup c.nodup_entries hnodup).2 fun ⟨key, v⟩ => ?_
  rw [Keyed.mem_entries_iff, h key, value?_eq_some_iff hw]

/-- What is kept of a walk counts for a directory as the listings in it and below do. -/
theorem filterMap_share? (h : w.Describes c) (hw : w.Plain) (hnames : names ∈ w.directories) :
    (c.entries.filterMap (Directory.share? (Directory.pathOf names))).Perm
      ((w.directories.filter fun below => names <+: below).map w.filesIn) := by
  have hmark : Directory.listedPath? "cwd" = none := by decide
  have hworking : w.workingEntry.filterMap (Directory.share? (Directory.pathOf names)) = [] := by
    refine List.filterMap_eq_nil_iff.2 fun ⟨key, v⟩ hentry => ?_
    obtain ⟨rfl, -⟩ := mem_workingEntry.1 hentry
    rw [Directory.share?, hmark]
    rfl
  have hshare : ∀ below ∈ w.directories, Directory.share? (Directory.pathOf names) (w.entryOf below) =
      if names <+: below then some (w.filesIn below) else none := by
    intro below hbelow
    rw [entryOf, listingKey_eq, Directory.share?_pathOf (hw names hnames) (hw below hbelow),
      directSize_listing]
    rfl
  have hlistings : (w.directories.map w.entryOf).filterMap (Directory.share? (Directory.pathOf names)) =
      (w.directories.filter fun below => names <+: below).map w.filesIn := by
    rw [List.filterMap_map, ← List.filterMap_eq_map', List.filterMap_filter]
    simp only [decide_eq_true_eq]
    exact List.filterMap_congr hshare
  have hperm := (entries_perm h hw).filterMap (Directory.share? (Directory.pathOf names))
  rwa [List.filterMap_append, hworking, hlistings] at hperm

/-- The sizes of what is kept of a walk are the totals of its directories. -/
theorem find?_sizes (h : w.Describes c) (hw : w.Plain) (hnames : names ∈ w.directories) :
    (Directory.sizes c).find? (Directory.pathOf names) = some (w.totalIn names) := by
  have hperm := filterMap_share? h hw hnames
  have hself : names ∈ w.directories.filter fun below => names <+: below := by simp [hnames]
  have hne : c.entries.filterMap (Directory.share? (Directory.pathOf names)) ≠ [] := by
    intro hnil
    rw [hnil] at hperm
    have := List.map_eq_nil_iff.1 hperm.nil_eq.symm
    rw [this] at hself
    exact nomatch hself
  rw [Directory.find?_sizes, if_neg hne, Directory.total_perm hperm, totalIn]

end Walk

namespace Transcript

open Walk

/-- An accepted transcript is that of exactly one list of commands, and a walk does them. If no name on the way to a listed
directory has a slash, then each has the size of all files in the latest listings of it and of those below. -/
theorem sizes_of_accepted (text : String) (h : (grammar.run text).failed = false) :
    ∃ commands w, Written (commands.flatMap Command.lines) text.toList ∧
      (∀ others, Written (others.flatMap Command.lines) text.toList → others = commands) ∧
      Walk.start.run commands = some w ∧
      (w.Slashless → ∀ names ∈ w.directories,
        (Directory.sizes (grammar.run text).context).find? (Directory.path (names.map Value.str)) =
          some (w.totalIn names)) := by
  obtain ⟨commands, w, hwritten, hrun, hdescribes⟩ := exists_commands h
  refine ⟨commands, w, hwritten, fun others hothers => ?_, hrun, fun hslash names hnames => ?_⟩
  · exact commands_unique hothers hwritten
  · exact Walk.find?_sizes hdescribes ((named_start.run hrun).plain hslash) hnames

/-- The root is listed twice, and what was seen the first time no longer counts. -/
theorem sizes_of_accepted_twice :
    let text :=
      "$ cd /" ++ "\n" ++
      "$ ls" ++ "\n" ++
      "1 f" ++ "\n" ++
      "$ cd a" ++ "\n" ++
      "$ ls" ++ "\n" ++
      "2 f" ++ "\n" ++
      "$ cd .." ++ "\n" ++
      "$ ls" ++ "\n" ++
      "4 f" ++ "\n" ++
      "dir a" ++ "\n"
    (grammar.run text).failed = false ∧
      (Directory.sizes (grammar.run text).context).find? (Directory.path []) = some 6 ∧
      (Directory.sizes (grammar.run text).context).find? (Directory.path [.str "a"]) = some 2 := by
  intro text
  let a : Name := .of "a" (by decide)
  let f : Name := .of "f" (by decide)
  let listed : List Command := [
    .enter .root, .list [.file (.ofInt64 1) f], .enter (.below a (by decide) (by decide)), .list [.file (.ofInt64 2) f],
    .enter .above, .list [.file (.ofInt64 4) f, .dir a]]
  have hlines : listed.flatMap Command.lines =
      ["$ cd /", "$ ls", "1 f", "$ cd a", "$ ls", "2 f", "$ cd ..", "$ ls", "4 f", "dir a"] := by
    decide +kernel
  have hwritten : Written (listed.flatMap Command.lines) text.toList := by
    rw [hlines]
    refine (congrArg (Written _) ?_).mp <| .cons _ .feed <| .cons _ .feed <| .cons _ .feed <| .cons _ .feed <|
      .cons _ .feed <| .cons _ .feed <| .cons _ .feed <| .cons _ .feed <| .cons _ .feed <| .cons _ .feed .nil
    simp only [text, String.toList_append, List.append_assoc]
    rfl
  have haccepted : (grammar.run text).failed = false := by decide +kernel
  obtain ⟨commands, w, -, hunique, hrun, hsizes⟩ := sizes_of_accepted text haccepted
  rw [← hunique listed hwritten] at hrun
  obtain rfl := Option.some.inj hrun
  have hslash : Slashless ⟨some [], [
      ([], [.file (.ofInt64 4) f, .dir a]), (["a"], [.file (.ofInt64 2) f]), ([], [.file (.ofInt64 1) f])]⟩ := by
    decide +kernel
  exact ⟨haccepted, hsizes hslash [] (by decide +kernel), hsizes hslash ["a"] (by decide +kernel)⟩

/-- The directory `a/` below the root has the path of a directory without a name below `a`. Its files count for the root and
for `/a`, which nobody entered, and not for `/a/`. -/
theorem sizes_of_slash :
    let a : Name := .of "a/" (by decide)
    let f : Name := .of "f" (by decide)
    let commands : List Command := [
      .enter .root, .list [.dir a], .enter (.below a (by decide) (by decide)), .list [.file (.ofInt64 5) f]]
    let text :=
      "$ cd /" ++ "\n" ++
      "$ ls" ++ "\n" ++
      "dir a/" ++ "\n" ++
      "$ cd a/" ++ "\n" ++
      "$ ls" ++ "\n" ++
      "5 f" ++ "\n"
    Written (commands.flatMap Command.lines) text.toList ∧ (grammar.run text).failed = false ∧
      ∃ w, Walk.start.run commands = some w ∧ ["a/"] ∈ w.directories ∧ w.totalIn ["a/"] = 5 ∧
        (Directory.sizes (grammar.run text).context).find? (Directory.path [.str "a/"]) = some 0 := by
  intro a f commands text
  have hlines : commands.flatMap Command.lines = ["$ cd /", "$ ls", "dir a/", "$ cd a/", "$ ls", "5 f"] := by
    decide +kernel
  have hwritten : Written (commands.flatMap Command.lines) text.toList := by
    rw [hlines]
    refine (congrArg (Written _) ?_).mp <| .cons _ .feed <| .cons _ .feed <| .cons _ .feed <| .cons _ .feed <|
      .cons _ .feed <| .cons _ .feed .nil
    simp only [text, String.toList_append, List.append_assoc]
    rfl
  let w : Walk := ⟨some ["a/"], [(["a/"], [.file (.ofInt64 5) f]), ([], [.dir a])]⟩
  refine ⟨hwritten, by decide +kernel, w, rfl, ?_, ?_, ?_⟩
  · decide +kernel
  · decide +kernel
  · decide +kernel

end Transcript

end StackParser
