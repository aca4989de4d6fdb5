import StackParser.Proofs.Acceptance
import StackParser.Proofs.BundledErrors
import StackParser.Proofs.TranscriptLines

/-!
# Transcripts that are accepted

Only transcripts of walks are accepted, and what the context holds then is kept of the walk
(`Transcript.exists_commands`). A line that lacks its end can only be the last one: a blank follows it, or nothing, and no
line begins with a blank (`Transcript.Lines`).
-/

namespace StackParser.Transcript

open Walk
open StackParser.Parser (Yields)

variable {w w' : Walk} {c d : Context} {cs ds rest : List Char} {line : String} {lines more : List String}

/-! ## Lines -/

/-- These lines. Where the last one lacks its end, a blank follows, or nothing. -/
def Lines (lines : List String) (cs rest : List Char) : Prop :=
  Ended lines cs ∨ (Written lines cs ∧ StopsAt (fun x => !isBlank x) rest)

namespace Lines

theorem written (h : Lines lines cs rest) : Written lines cs := h.elim Written.of_ended And.left

theorem prepend (first : String) (h : Lines (line :: lines) cs rest) :
    Lines ((first ++ line) :: lines) (first.toList ++ cs) rest := by
  rcases h with h | ⟨h, hrest⟩
  · obtain ⟨b, ds, rfl, hds⟩ := Ended.cons_iff.1 h
    rw [← List.append_assoc, ← String.toList_append]
    exact .inl (hds.cons _ b)
  · refine .inr ⟨?_, hrest⟩
    cases h with
    | unfinished =>
      rw [← String.toList_append]
      exact .unfinished _
    | cons _ b hds =>
      rw [← List.append_assoc, ← String.toList_append]
      exact hds.cons _ b

/-- Lines behind a first one. -/
theorem behind (first : String) (b : LineBreak) (h : Lines lines cs rest) :
    Lines (first :: lines) (first.toList ++ (b.text ++ cs)) rest := by
  rcases h with h | ⟨h, hrest⟩
  · exact .inl (h.cons first b)
  · exact .inr ⟨h.cons first b, hrest⟩

/-- A line that something follows has its end. -/
theorem append (h₁ : Lines lines cs (ds ++ rest)) (h₂ : Lines more ds rest)
    (hmore : ∀ line ∈ more.head?, ∃ x ∈ line.toList.head?, isBlank x = false) :
    Lines (lines ++ more) (cs ++ ds) rest := by
  cases more with
  | nil =>
    obtain rfl := Written.nil_iff.1 h₂.written
    rwa [List.append_nil, List.append_nil]
  | cons line more =>
    have hended : Ended lines cs := by
      refine h₁.elim id fun h => ?_
      obtain ⟨x, hx, hblank⟩ := hmore line rfl
      obtain ⟨behind, rfl⟩ := h₂.written.begins
      have hhead : x ∈ (line.toList ++ behind ++ rest).head? := by simp [List.head?_append, Option.mem_def.1 hx]
      have hstop := h.2 x hhead
      simp [hblank] at hstop
    rcases h₂ with h₂ | ⟨h₂, hrest⟩
    · exact .inl (hended.append h₂)
    · exact .inr ⟨Written.append hended h₂, hrest⟩

end Lines

/-- A name at the end of a line. -/
theorem yields_name : (Grammar.sequenceOf [.word, .optional .lineEnd]).parser.Yields (.still fun cs rest vs =>
    ∃ name : Name, vs = [.str name.text] ∧ Lines [name.text] cs rest) := by
  refine (Yields.cons Yields.word (Yields.cons Yields.optional_lineEnd Yields.nil)).mono ?_
  rintro cs rest c vs d ⟨word, behind, us, ws, e, rfl, rfl, ⟨⟨hne, hblank, hstop, rfl⟩, rfl⟩, ending, none, us', ws', e',
    rfl, rfl, ⟨⟨hending, rfl⟩, rfl⟩, ⟨rfl, rfl⟩, rfl⟩
  refine ⟨⟨⟨String.ofList word, by simpa using hne, by simpa using hblank⟩, rfl, ?_⟩, rfl⟩
  rcases hending with ⟨b, rfl⟩ | ⟨rfl, -⟩
  · have h : Ended [String.ofList word] ((String.ofList word).toList ++ (b.text ++ [])) := .cons _ b .nil
    rw [String.toList_ofList] at h
    exact .inl h
  · have h : Written [String.ofList word] (String.ofList word).toList := .unfinished _
    exact .inr ⟨by simpa using h, hstop⟩

/-! ## Listings -/

theorem yields_size : Grammar.long.parser.Yields (.still fun cs _ vs =>
    ∃ size : Size, cs = size.text.toList ∧ vs = [.long size.value]) := by
  refine (Yields.number (by decide)).mono ?_
  rintro cs rest c vs d ⟨⟨m, v, rfl, -, hv, rfl⟩, rfl⟩
  have hfits : -9223372036854775808 ≤ m.value ∧ m.value ≤ 9223372036854775807 :=
    Decidable.byContradiction fun hfits => nomatch (if_neg hfits).symm.trans hv
  have hvalue := (Size.hold?_value ⟨m, hfits⟩).symm.trans hv
  refine ⟨⟨⟨m, hfits⟩, (Size.toList_text ⟨m, hfits⟩).symm, ?_⟩, rfl⟩
  rw [Option.some.inj hvalue]

theorem yields_entry : entry.parser.Yields (.still fun cs rest vs =>
    ∃ e : Entry, vs = [e.record] ∧ Lines [e.line] cs rest) := by
  have hdir : (Grammar.record dirShape (.sequenceOf [.skip "dir ", .word, .optional .lineEnd])).parser.Yields
      (.still fun cs rest vs => ∃ e : Entry, vs = [e.record] ∧ Lines [e.line] cs rest) := by
    refine Yields.record (Yields.silent (Yields.skip "dir ") yields_name) ?_
    rintro cs rest c vs d ⟨ds, rfl, ⟨name, rfl, hlines⟩, rfl⟩
    exact ⟨(Entry.dir name).record, Shape.Makes.all rfl, ⟨.dir name, rfl, hlines.prepend "dir "⟩, rfl⟩
  have hfile : (Grammar.record fileShape (.sequenceOf [.long, .space, .word, .optional .lineEnd])).parser.Yields
      (.still fun cs rest vs => ∃ e : Entry, vs = [e.record] ∧ Lines [e.line] cs rest) := by
    refine Yields.record (Yields.cons yields_size (Yields.silent Yields.space yields_name)) ?_
    rintro cs rest c vs d ⟨first, second, us, ws, e, rfl, rfl, ⟨⟨size, rfl, rfl⟩, rfl⟩, ds, rfl, ⟨name, rfl, hlines⟩, rfl⟩
    refine ⟨(Entry.file size name).record, Shape.Makes.all rfl, ⟨.file size name, rfl, ?_⟩, rfl⟩
    rw [Entry.line, String.append_assoc]
    exact (hlines.prepend " ").prepend size.text
  exact Yields.either hdir hfile

theorem lines_of_repeated {vs : List Value} (h : Passage.Repeated (.still fun cs rest vs =>
    ∃ e : Entry, vs = [e.record] ∧ Lines [e.line] cs rest) rest cs c vs d) :
    d = c ∧ ∃ entries : List Entry, vs = entries.map Entry.record ∧ Lines (entries.map Entry.line) cs rest := by
  induction h with
  | nil c => exact ⟨rfl, [], rfl, .inl .nil⟩
  | cons hfirst _ ih =>
    obtain ⟨⟨e, rfl, hline⟩, rfl⟩ := hfirst
    obtain ⟨rfl, entries, rfl, hlines⟩ := ih
    refine ⟨rfl, e :: entries, rfl, hline.append hlines fun line hmem => ?_⟩
    cases entries with
    | nil => exact nomatch hmem
    | cons next entries =>
      obtain rfl := Option.some.inj hmem
      obtain ⟨x, hx, hblank, -⟩ := next.line_begins
      exact ⟨x, hx, hblank⟩

theorem yields_entries : (Grammar.list (.oneOrMore entry)).parser.Yields (.still fun cs rest vs =>
    ∃ entries : List Entry, vs = [.list (entries.map Entry.record)] ∧ Lines (entries.map Entry.line) cs rest) := by
  refine (Yields.list (Yields.oneOrMore yields_entry)).mono ?_
  rintro cs rest c vs d ⟨us, rfl, hall⟩
  obtain ⟨rfl, entries, rfl, hlines⟩ := lines_of_repeated hall
  exact ⟨⟨entries, rfl, hlines⟩, rfl⟩

/-! ## Commands -/

/-- What a command does to the context, if it does not fail. -/
def Does (c : Context) : Command → Context → Prop
  | .enter target, d => Directory.change c target.text = .ok d
  | .list entries, d => ∃ names, Directory.working? c = .ok names ∧ d = Directory.file c names (entries.map Entry.record)

/-- What is done to the context is a step of the walk. -/
theorem exists_step (h : w.Describes c) {cmd : Command} (hd : Does c cmd d) :
    ∃ w', w.step cmd = some w' ∧ w'.Describes d := by
  cases cmd with
  | enter target =>
    cases hstep : w.step (.enter target) with
    | none =>
      obtain ⟨refusal, hrefusal⟩ := h.change_refused hstep
      exact nomatch hrefusal.symm.trans hd
    | some w' =>
      obtain ⟨d', hd', hdescribes⟩ := h.change hstep
      obtain rfl := Except.ok.inj (hd'.symm.trans hd)
      exact ⟨w', rfl, hdescribes⟩
  | list entries =>
    obtain ⟨names, hnames, rfl⟩ := hd
    cases hstep : w.step (.list entries) with
    | none => exact nomatch (h.file_refused hstep).symm.trans hnames
    | some w' =>
      obtain ⟨names', hnames', hdescribes⟩ := h.file hstep
      obtain rfl := Except.ok.inj (hnames'.symm.trans hnames)
      exact ⟨w', rfl, hdescribes⟩

theorem yields_changeDirectory : changeDirectory.parser.Yields fun cs rest c vs d =>
    vs = [] ∧ ∃ target, Lines ["cd " ++ target.text] cs rest ∧ Does c (.enter target) d := by
  refine Yields.action _ (Yields.silent (Yields.skip "cd") (Yields.silent Yields.space yields_name)) ?_
  rintro base cs rest c us e ⟨_, rfl, ds, rfl, ⟨name, rfl, hlines⟩, rfl⟩ hdone
  rw [← Target.text_ofName] at hdone hlines ⊢
  rw [enterTarget_eq] at hdone ⊢
  cases hchange : Directory.change e (Target.ofName name).text with
  | error refusal =>
    rw [hchange] at hdone
    exact nomatch hdone
  | ok d => exact ⟨[], d, by rw [List.append_nil], rfl, .ofName name, (hlines.prepend " ").prepend "cd", hchange⟩

theorem yields_listDirectory : listDirectory.parser.Yields fun cs rest c vs d =>
    vs = [] ∧ ∃ entries, Lines ("ls" :: entries.map Entry.line) cs rest ∧ Does c (.list entries) d := by
  refine Yields.action _ (Yields.silent (Yields.skip "ls") (Yields.cons Yields.lineEnd (Yields.last yields_entries))) ?_
  rintro base cs rest c us e ⟨_, rfl, _, ds, _, _, _, rfl, rfl, ⟨⟨⟨b, rfl⟩, rfl⟩, rfl⟩, ⟨entries, rfl, hlines⟩, rfl⟩ hdone
  rw [List.nil_append, fileListing_eq] at hdone ⊢
  cases hworking : Directory.working? e with
  | error refusal =>
    rw [hworking] at hdone
    exact nomatch hdone
  | ok names =>
    exact ⟨[], _, by rw [List.append_nil], rfl, entries, hlines.behind "ls" b, names, hworking, rfl⟩

theorem yields_command : command.parser.Yields fun cs rest c vs d =>
    vs = [] ∧ ∃ cmd : Command, Lines cmd.lines cs rest ∧ Does c cmd d := by
  have hchange : changeDirectory.parser.Yields fun cs rest c vs d =>
      vs = [] ∧ ∃ cmd : Command, Lines cmd.lines ("$ ".toList ++ cs) rest ∧ Does c cmd d := by
    refine yields_changeDirectory.mono ?_
    rintro cs rest c vs d ⟨rfl, target, hlines, hdoes⟩
    exact ⟨rfl, .enter target, hlines.prepend "$ ", hdoes⟩
  have hlist : listDirectory.parser.Yields fun cs rest c vs d =>
      vs = [] ∧ ∃ cmd : Command, Lines cmd.lines ("$ ".toList ++ cs) rest ∧ Does c cmd d := by
    refine yields_listDirectory.mono ?_
    rintro cs rest c vs d ⟨rfl, entries, hlines, hdoes⟩
    exact ⟨rfl, .list entries, hlines.prepend "$ ", hdoes⟩
  have hcommand := Yields.silent (Yields.skipChar '$') (Yields.silent Yields.space (Yields.last (Yields.either hchange hlist)))
  refine Yields.mono hcommand ?_
  rintro cs rest c vs d ⟨_, rfl, ds, rfl, hcmd⟩
  exact hcmd

/-! ## Transcripts -/

theorem exists_run (h : w.Describes c) {vs : List Value}
    (hcs : Passage.Repeated (fun cs rest c vs d => vs = [] ∧ ∃ cmd : Command, Lines cmd.lines cs rest ∧ Does c cmd d)
      [] cs c vs d) :
    ∃ commands w', Lines (commands.flatMap Command.lines) cs [] ∧ w.run commands = some w' ∧ w'.Describes d := by
  induction hcs generalizing w with
  | nil c => exact ⟨[], w, .inl .nil, rfl, h⟩
  | cons hfirst _ ih =>
    obtain ⟨-, cmd, hlines, hdoes⟩ := hfirst
    obtain ⟨next, hstep, hnext⟩ := exists_step h hdoes
    obtain ⟨commands, w', hothers, hrun, hw'⟩ := ih hnext
    refine ⟨cmd :: commands, w', hlines.append hothers fun line hline => ?_, ?_, hw'⟩
    · exact ⟨'$', next_commands commands line hline, by decide⟩
    · rw [run_cons, hstep]
      exact hrun

/-- An accepted transcript is that of a walk. -/
theorem exists_commands {text : String} (h : (grammar.run text).failed = false) :
    ∃ commands w, Written (commands.flatMap Command.lines) text.toList ∧ Walk.start.run commands = some w ∧
      w.Describes (grammar.run text).context := by
  obtain ⟨cs, rest, vs, hafter, -, rfl, hall⟩ := Yields.tillEnd yields_command (.start text) h
  obtain ⟨commands, w, hlines, hrun, hw⟩ := exists_run describes_start hall
  have htext : text.toList = cs := hafter.trans (List.append_nil cs)
  exact ⟨commands, w, htext ▸ hlines.written, hrun, hw⟩

end StackParser.Transcript
