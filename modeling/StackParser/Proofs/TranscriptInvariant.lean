import StackParser.Proofs.FailedSequences
import StackParser.Proofs.TranscriptLanguage

/-!
# What holds of every transcript

Whatever the text is, and wherever it breaks off, the commands before are done as a whole and nothing is left of the one
that fails.

* `Directory.IsSegment` : a name on the way down, and `Walk.Placed w` : the walk has a way down of such names if it has made
  listings;
* `Transcript.Tracks base s` : on the stack of `s` lies `base`, and the context is what is kept of such a walk. A command
  keeps to this (`Tracks.command`), and so does a text of commands (`Tracks.runTillEnd`);
* `Transcript.context_of_text` : what this means for the keys of the context and the values under them.
-/

namespace StackParser

/-- A name that stands for a directory below another: not empty, without blanks, and neither the root nor the one above. -/
def Directory.IsSegment (text : String) : Prop :=
  text.toList ≠ [] ∧ (∀ c ∈ text.toList, isBlank c = false) ∧ text ≠ "/" ∧ text ≠ ".."

namespace Walk

open Directory (IsSegment)

variable {w w' : Walk} {c : Context}

/-- The names on the way down are segments, and there are listings only if the walk is somewhere. -/
structure Placed (w : Walk) : Prop where
  here : ∀ names ∈ w.here, ∀ name ∈ names, IsSegment name
  listed : w.listed ≠ [] → w.here ≠ none

theorem placed_start : start.Placed := ⟨nofun, fun h => absurd rfl h⟩

theorem Placed.step (h : w.Placed) {cmd : Command} (hstep : w.step cmd = some w') : w'.Placed := by
  cases cmd with
  | enter target =>
    obtain ⟨names, hnames, rfl⟩ := Option.map_eq_some_iff.1 hstep
    have hsegments : ∀ name ∈ names, IsSegment name :=
      forall_goTo? (fun name hroot habove => ⟨name.ne_nil, name.not_blank, hroot, habove⟩) h.here hnames
    exact ⟨fun _ hhere => Option.some.inj hhere ▸ hsegments, fun _ => Option.some_ne_none _⟩
  | list entries =>
    obtain ⟨names, hnames, rfl⟩ := Option.map_eq_some_iff.1 hstep
    exact ⟨h.here, fun _ => by simp [hnames]⟩

/-! ## The context of such a walk -/

theorem Describes.mem_entries_iff (h : w.Describes c) {key : String} {v : Value} :
    (key, v) ∈ c.entries ↔ w.value? key = some v := by
  rw [Keyed.mem_entries_iff, h key]

/-- What is kept under a key other than that of the working directory is a listing. -/
theorem exists_listing {key : String} {v : Value} (hkey : key ≠ "cwd") (hv : w.value? key = some v) :
    ∃ names entries, (names, entries) ∈ w.listed ∧ key = listingKey names ∧ v = .list (entries.map Entry.record) := by
  rw [value?, if_neg hkey] at hv
  obtain ⟨entries, hlatest, rfl⟩ := Option.map_eq_some_iff.1 hv
  obtain ⟨⟨names, _⟩, hfind, rfl⟩ := Option.map_eq_some_iff.1 hlatest
  have hlisting := List.find?_some hfind
  exact ⟨names, _, List.mem_of_find?_eq_some hfind, (of_decide_eq_true hlisting).symm, rfl⟩

end Walk

namespace Transcript

open Grammar

/-- The values `base` are on the stack and nothing else, and the context is what is kept of a walk. -/
structure Tracks (base : List Value) (s : State) : Prop where
  stack : s.stack = base
  walk : ∃ w : Walk, w.Placed ∧ w.Describes s.context

variable {base : List Value} {s t : State}

theorem Tracks.congr (h : Tracks base s) (hstack : t.stack = s.stack) (hcontext : t.context = s.context) :
    Tracks base t where
  stack := hstack.trans h.stack
  walk := hcontext ▸ h.walk

/-- What a command that fails has read does not show in the context. -/
theorem context_of_failed_command (hfail : (command.parse s).failed = true) : (command.parse s).context = s.context := by
  cases hs : s.failed with
  | true => rw [parse, Parser.parse_of_failed _ hs]
  | false =>
    let prompt := space.parse ((skipChar '$').parse s)
    have hprompt : prompt.context = s.context :=
      ((Parser.Local.spaces 1 false).context_parse _).trans ((Parser.Local.char '$' false).context_parse s)
    have hrun : command.parser.run s = (Grammar.oneOf [changeDirectory, listDirectory]).parse prompt := rfl
    rw [parse, Parser.parse_of_not_failed _ hs, hrun] at hfail ⊢
    exact (Parser.context_oneOf_of_failed hfail).trans hprompt

/-- A command is a step of the walk, or it leaves everything as it was. -/
theorem Tracks.command (h : Tracks base s) : Tracks base (command.parse s) := by
  cases hc : (Transcript.command.parse s).failed with
  | true =>
    have htidy := parser_tidy Transcript.command (tidy_of_isTidy _ rfl)
    exact h.congr (htidy s hc) (context_of_failed_command hc)
  | false =>
    obtain ⟨w, hplaced, hdescribes⟩ := h.walk
    obtain ⟨cs, rest, vs, -, hbecomes, rfl, cmd, -, hdoes⟩ := yields_command s hc
    obtain ⟨w', hstep, hdescribes'⟩ := exists_step hdescribes hdoes
    refine ⟨?_, w', hplaced.step hstep, hdescribes'⟩
    have hstack := hbecomes.stack
    rw [List.append_nil] at hstack
    exact hstack.trans h.stack

theorem Tracks.runTillEnd (h : Tracks base s) : Tracks base (Parser.runTillEnd Transcript.command.parser s) := by
  fun_induction Parser.runTillEnd Transcript.command.parser s with
  | case1 s _ => exact h.congr rfl rfl
  | case2 s _ next _ => exact h.command
  | case3 s _ next _ _ ih => exact ih h.command
  | case4 s _ next _ _ => exact h.command.congr rfl rfl

/-- Whatever the text is and whether or not it is accepted, the stack is as it was, and the context holds nothing but the
working directory, by the names on the way down, and listings, each under the path of a directory. There are listings
only where there is a working directory. -/
theorem context_of_text (text : String) (stack : List Value) :
    let s := grammar.parse { State.start text with stack := stack }
    s.stack = stack ∧ ∀ key v, (key, v) ∈ s.context.entries →
      (key = "cwd" ∧
        ∃ names : List String, v = .list (names.map Value.str) ∧ ∀ name ∈ names, Directory.IsSegment name) ∨
      ((∃ path, key = "dir:/" ++ path) ∧ (∃ entries : List Walk.Entry, v = .list (entries.map Walk.Entry.record)) ∧
        ∃ directory, ("cwd", directory) ∈ s.context.entries) := by
  intro s
  have hstart : Tracks stack { State.start text with stack := stack } :=
    ⟨rfl, Walk.start, Walk.placed_start, Walk.describes_start⟩
  have hend : Tracks stack s := hstart.runTillEnd.congr rfl rfl
  refine ⟨hend.stack, fun key v hmem => ?_⟩
  obtain ⟨w, hplaced, hdescribes⟩ := hend.walk
  have hv := hdescribes.mem_entries_iff.1 hmem
  by_cases hkey : key = "cwd"
  · rw [hkey, Walk.value?, if_pos rfl] at hv
    obtain ⟨names, hnames, rfl⟩ := Option.map_eq_some_iff.1 hv
    exact .inl ⟨hkey, names, rfl, hplaced.here names hnames⟩
  · obtain ⟨names, entries, hlisted, hpath, rfl⟩ := Walk.exists_listing hkey hv
    obtain ⟨here, hhere⟩ := Option.ne_none_iff_exists'.1 (hplaced.listed (List.ne_nil_of_mem hlisted))
    refine .inr ⟨⟨_, hpath⟩, ⟨entries, rfl⟩, .list (here.map Value.str), hdescribes.mem_entries_iff.2 ?_⟩
    rw [Walk.value?, if_pos rfl, hhere]
    rfl

/-- The command that lacks its target leaves nothing. -/
example : (grammar.run "$ cd /\n$ ls\ndir a\n$ cd").failed = true ∧
    (grammar.run "$ cd /\n$ ls\ndir a\n$ cd").context.keys = ["cwd", "dir:/"] := by decide +kernel

end Transcript

end StackParser
