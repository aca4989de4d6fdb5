import StackParser.Proofs.BundledErrors
import StackParser.Proofs.DirectoryWalk
import StackParser.Proofs.Reading

/-!
# Transcripts of walks

The transcript of some commands is read as the walk goes: the context holds what is kept of the walk, and nothing stays on
the stack (`Transcript.turnsAll_commands`). A command that the walk refuses ends the reading right after its prompt
(`Transcript.breaks_command`). Together this is `Transcript.run_transcript`.
-/

namespace StackParser.Transcript

open Grammar Walk
open StackParser.Parser (Reads Refuses stopsAt_lineBreak)

variable {w w' : Walk} {c : Context} {cs rest : List Char}

/-! ## Listings -/

theorem reads_name (name : Name) {rest : List Char} (hrest : StopsAt (fun x => !isBlank x) rest) :
    Grammar.word.parser.Reads name.text.toList rest [.str name.text] := by
  have h := Reads.word name.ne_nil name.not_blank hrest
  rwa [String.ofList_toList] at h

theorem reads_size (size : Size) (hrest : StopsAt Char.isDigit rest) :
    Grammar.long.parser.Reads size.text.toList rest [.long size.value] := by
  have h := Reads.number size.numeral size.hold?_value hrest
  rwa [Size.toList_text]

theorem not_blank_lineBreak (b : LineBreak) (rest : List Char) : StopsAt (fun x => !isBlank x) (b.text ++ rest) :=
  stopsAt_lineBreak b rest (by decide) (by decide)

theorem reads_entry (e : Entry) (b : LineBreak) (rest : List Char) :
    entry.parser.Reads (e.line.toList ++ b.text) rest [e.record] := by
  intro c
  cases e with
  | dir name =>
    have htext : (Entry.dir name).line.toList ++ b.text = "dir ".toList ++ (name.text.toList ++ b.text) := by
      simp [Entry.line]
    have hparts := Reads.silent (reads_skip "dir " _) <|
      Reads.pushing (reads_name name (not_blank_lineBreak b rest)) <| Reads.last (reads_optional_lineEnd b rest)
    have hmakes : dirShape.Makes [.str name.text] (Entry.dir name).record := Shape.Makes.all rfl
    rw [htext]
    refine ((hparts c).record hmakes).first (Refuses.record _ (Refuses.head ?_))
    refine (Parser.Begins.number .long).refuses fun x hx => ?_
    obtain rfl : 'd' = x := by simpa using hx
    decide
  | file size name =>
    have htext : (Entry.file size name).line.toList ++ b.text =
        size.text.toList ++ ([' '] ++ (name.text.toList ++ b.text)) := by
      simp [Entry.line]
    have hparts := Reads.pushing (reads_size size (stopsAt_cons.2 rfl)) <| Reads.silent (reads_space _) <|
      Reads.pushing (reads_name name (not_blank_lineBreak b rest)) <| Reads.last (reads_optional_lineEnd b rest)
    have hmakes : fileShape.Makes [.long size.value, .str name.text] (Entry.file size name).record :=
      Shape.Makes.all rfl
    rw [htext]
    refine Parser.Turns.second (Refuses.record _ (Refuses.head ?_)) ((hparts c).record hmakes)
    refine (Parser.Begins.literal false rfl).refuses fun x hx => ?_
    rw [Size.toList_text, List.append_assoc] at hx
    rintro rfl
    exact absurd (size.numeral.head_text _ _ hx) (by decide)

/-- What can follow a listing or a command. -/
def AtPrompt (cs : List Char) : Prop := ∀ c ∈ cs.head?, c = '$'

theorem atPrompt_nil : AtPrompt [] := nofun

theorem entry_refuses (h : AtPrompt rest) : entry.parser.Refuses rest := by
  refine Refuses.oneOf fun p hp => ?_
  rcases List.mem_pair.1 hp with rfl | rfl
  · refine Refuses.record _ (Refuses.head ?_)
    refine (Parser.Begins.literal false rfl).refuses fun x hx => ?_
    rw [h x hx]
    decide
  · refine Refuses.record _ (Refuses.head ?_)
    refine (Parser.Begins.number .long).refuses fun x hx => ?_
    rw [h x hx]
    decide

theorem readsAll_entries (entries : List Entry) (h : Ended (entries.map Entry.line) cs) (rest : List Char)
    (c : Context) : entry.parser.TurnsAll rest cs c (entries.map Entry.record) c := by
  induction entries generalizing cs with
  | nil =>
    obtain rfl := Ended.nil_iff.1 h
    exact .nil c
  | cons e entries ih =>
    obtain ⟨b, ds, rfl, hds⟩ := Ended.cons_iff.1 h
    rw [← List.append_assoc]
    refine .cons ?_ (reads_entry e b _ c) (ih hds)
    cases b <;> simp [LineBreak.text]

/-! ## Commands -/

theorem turns_prompt {g : Grammar} {vs : List Value} {c d : Context} (h : g.parser.Turns cs rest c vs d) :
    (Grammar.sequenceOf [.skipChar '$', .space, g]).parser.Turns ("$ ".toList ++ cs) rest c vs d := by
  have htext : "$ ".toList ++ cs = ['$'] ++ ([' '] ++ cs) := rfl
  rw [htext]
  apply Parser.Turns.silent (reads_skipChar '$' _ c)
  exact Parser.Turns.silent (reads_space _ c) h.last

/-- What fails behind a prompt makes the whole fail two characters further. -/
theorem breaks_prompt (g : Grammar) {s : State} (hs : s.failed = false) (hafter : s.cursor.after = "$ ".toList ++ cs) :
    ∃ t : State, t.failed = false ∧ t.cursor.after = cs ∧ t.context = s.context ∧ ∀ e, t.Breaks (g.parse t) 0 e →
      s.Breaks ((Grammar.sequenceOf [.skipChar '$', .space, g]).parse s) 2 e := by
  have hafter₁ : s.cursor.after = ['$'] ++ ([' '] ++ cs) := hafter
  have hfirst := reads_skipChar '$' _ s.context s hs hafter₁ rfl
  have hafter₂ := hfirst.after_eq hafter₁
  have hsecond := reads_space cs s.context _ hfirst.success hafter₂ hfirst.context
  refine ⟨_, hsecond.success, hsecond.after_eq hafter₂, hsecond.context, fun e he => ?_⟩
  have hbehind : ((skipChar '$').parser.parse s).Breaks
      ((Grammar.sequenceOf [.space, g]).parse ((skipChar '$').parser.parse s)) 1 e :=
    Parser.breaks_tail hfirst.success hafter₂ (reads_space cs) (Parser.breaks_head hsecond.success he)
  exact Parser.breaks_tail hs hafter₁ (reads_skipChar '$' _) hbehind

/-- `cd` and a target. -/
theorem reads_target (target : Target) (b : LineBreak) (rest : List Char) :
    (Grammar.sequenceOf [.skip "cd", .space, .word, .optional .lineEnd]).parser.Reads
      (("cd " ++ target.text).toList ++ b.text) rest [.str target.text] := by
  have htext : ("cd " ++ target.text).toList ++ b.text = "cd".toList ++ ([' '] ++ (target.text.toList ++ b.text)) := by
    simp
  rw [htext]
  apply Reads.silent (reads_skip _ _)
  apply Reads.silent (reads_space _)
  apply Reads.pushing (reads_name target.name (not_blank_lineBreak b rest))
  exact Reads.last (reads_optional_lineEnd b rest)

/-- `ls` and its listing. -/
theorem reads_listing {entries : List Entry} (hcs : Ended (entries.map Entry.line) cs) (b : LineBreak)
    (hrest : AtPrompt rest) : (Grammar.sequenceOf [.skip "ls", .lineEnd, .list (.oneOrMore entry)]).parser.Reads
      ("ls".toList ++ (b.text ++ cs)) rest [.list (entries.map Entry.record)] := by
  have hentries : (Grammar.list (.oneOrMore entry)).parser.Reads cs rest [.list (entries.map Entry.record)] :=
    fun c => (Parser.Turns.oneOrMore (readsAll_entries entries hcs rest c) (.inr (entry_refuses hrest))).list
  apply Reads.silent (reads_skip _ _)
  apply Reads.silent (reads_lineEnd b _)
  exact Reads.last hentries

theorem changeDirectory_refuses (cs : List Char) : changeDirectory.parser.Refuses ("ls".toList ++ cs) :=
  Refuses.action _ _ (Refuses.head (Refuses.skip (by simp)))

theorem listDirectory_refuses (cs : List Char) : listDirectory.parser.Refuses ("cd ".toList ++ cs) :=
  Refuses.action _ _ (Refuses.head (Refuses.skip (by simp)))

/-- What follows the prompt. -/
theorem turns_enter (h : w.Describes c) {target : Target} (hstep : w.step (.enter target) = some w')
    (b : LineBreak) (rest : List Char) : ∃ c', w'.Describes c' ∧
      (Grammar.oneOf [changeDirectory, listDirectory]).parser.Turns (("cd " ++ target.text).toList ++ b.text) rest
        c [] c' := by
  obtain ⟨c', hchange, hdescribes⟩ := h.change hstep
  refine ⟨c', hdescribes, ?_⟩
  have henter : changeDirectory.parser.Turns (("cd " ++ target.text).toList ++ b.text) rest c [] c' := by
    refine (reads_target target b rest c).action _ fun base => ?_
    rw [enterTarget_eq, hchange, List.append_nil]
  refine henter.first ?_
  rw [String.toList_append, List.append_assoc, List.append_assoc]
  exact listDirectory_refuses _

theorem turns_list (h : w.Describes c) {entries : List Entry} (hstep : w.step (.list entries) = some w')
    (b : LineBreak) (hcs : Ended (entries.map Entry.line) cs) (hrest : AtPrompt rest) : ∃ c', w'.Describes c' ∧
      (Grammar.oneOf [changeDirectory, listDirectory]).parser.Turns ("ls".toList ++ (b.text ++ cs)) rest c [] c' := by
  obtain ⟨names, hworking, hdescribes⟩ := h.file hstep
  refine ⟨_, hdescribes, ?_⟩
  have hlist : listDirectory.parser.Turns ("ls".toList ++ (b.text ++ cs)) rest c []
      (Directory.file c names (entries.map Entry.record)) := by
    refine (reads_listing hcs b hrest c).action _ fun base => ?_
    rw [fileListing_eq, hworking, List.append_nil]
  refine Parser.Turns.second ?_ hlist
  rw [List.append_assoc]
  exact changeDirectory_refuses _

theorem fails_enter (h : w.Describes c) {target : Target} (hstep : w.step (.enter target) = none) (b : LineBreak)
    {t : State} (ht : t.failed = false) (hafter : t.cursor.after = ("cd " ++ target.text).toList ++ b.text ++ rest)
    (hc : t.context = c) : (changeDirectory.parser.parse t).failed = true := by
  obtain ⟨refusal, hchange⟩ := h.change_refused hstep
  refine Parser.failed_action _ (reads_target target b rest c) (fun base => ?_) ht hafter hc
  rw [enterTarget_eq, hchange]
  rfl

theorem fails_list (h : w.Describes c) {entries : List Entry} (hstep : w.step (.list entries) = none) (b : LineBreak)
    (hcs : Ended (entries.map Entry.line) cs) (hrest : AtPrompt rest) {t : State} (ht : t.failed = false)
    (hafter : t.cursor.after = "ls".toList ++ (b.text ++ cs) ++ rest) (hc : t.context = c) :
    (listDirectory.parser.parse t).failed = true := by
  refine Parser.failed_action _ (reads_listing hcs b hrest c) (fun base => ?_) ht hafter hc
  rw [fileListing_eq, h.file_refused hstep]
  rfl

theorem enter_text (target : Target) (b : LineBreak) : ("$ cd " ++ target.text).toList ++ (b.text ++ []) =
    "$ ".toList ++ (("cd " ++ target.text).toList ++ b.text) := by
  simp

/-- A command that the walk does is read whole. -/
theorem turns_command (h : w.Describes c) {cmd : Command} (hstep : w.step cmd = some w') (hcs : Ended cmd.lines cs)
    (hrest : AtPrompt rest) : ∃ c', w'.Describes c' ∧ command.parser.Turns cs rest c [] c' := by
  cases cmd with
  | enter target =>
    obtain ⟨b, ds, rfl, hds⟩ := Ended.cons_iff.1 hcs
    obtain rfl := Ended.nil_iff.1 hds
    obtain ⟨c', hdescribes, hturns⟩ := turns_enter h hstep b rest
    rw [enter_text]
    exact ⟨c', hdescribes, turns_prompt hturns⟩
  | list entries =>
    obtain ⟨b, ds, rfl, hds⟩ := Ended.cons_iff.1 hcs
    obtain ⟨c', hdescribes, hturns⟩ := turns_list h hstep b hds hrest
    exact ⟨c', hdescribes, turns_prompt hturns⟩

/-- A command that the walk refuses fails right after its prompt. -/
theorem breaks_command (h : w.Describes c) {cmd : Command} (hstep : w.step cmd = none) (hcs : Ended cmd.lines cs)
    (hrest : AtPrompt rest) {s : State} (hs : s.failed = false) (hafter : s.cursor.after = cs ++ rest)
    (hc : s.context = c) : ∃ failures, s.Breaks (command.parser.parse s) 2 (.exhausted failures) := by
  obtain ⟨ds, hds, hfail⟩ : ∃ ds, cs = "$ ".toList ++ ds ∧ ∀ t : State, t.failed = false → t.cursor.after = ds ++ rest →
      t.context = c → ∀ p ∈ [changeDirectory.parser, listDirectory.parser], (p.parse t).failed = true := by
    cases cmd with
    | enter target =>
      obtain ⟨b, ds, rfl, hds⟩ := Ended.cons_iff.1 hcs
      obtain rfl := Ended.nil_iff.1 hds
      refine ⟨_, enter_text target b, fun t ht hafter hc => ?_⟩
      refine List.forall_mem_cons.2 ⟨?_, List.forall_mem_singleton.2 ?_⟩
      · exact fails_enter h hstep b ht hafter hc
      · refine listDirectory_refuses (target.text.toList ++ b.text ++ rest) t ht ?_
        rw [hafter]
        simp
    | list entries =>
      obtain ⟨b, ds, rfl, hds⟩ := Ended.cons_iff.1 hcs
      refine ⟨"ls".toList ++ (b.text ++ ds), rfl, fun t ht hafter hc => ?_⟩
      refine List.forall_mem_cons.2 ⟨?_, List.forall_mem_singleton.2 ?_⟩
      · exact changeDirectory_refuses _ t ht (hafter.trans (List.append_assoc _ _ _))
      · exact fails_list h hstep b hds hrest ht hafter hc
  rw [hds, List.append_assoc] at hafter
  obtain ⟨t, ht, hafter', hc', hbreaks⟩ := breaks_prompt (.oneOf [changeDirectory, listDirectory]) hs hafter
  obtain ⟨failures, hnone⟩ := Parser.breaks_oneOf ht (hfail t ht hafter' (hc'.trans hc))
  exact ⟨failures, hbreaks _ hnone⟩

/-! ## Transcripts -/

theorem exists_eq_prompt {cmd : Command} (h : Ended cmd.lines cs) : ∃ ds, cs = '$' :: ds := by
  cases cmd with
  | enter target =>
    obtain ⟨b, ds, rfl, -⟩ := Ended.cons_iff.1 h
    exact ⟨(" cd " ++ target.text).toList ++ (b.text ++ ds), by simp⟩
  | list entries =>
    obtain ⟨b, ds, rfl, -⟩ := Ended.cons_iff.1 h
    exact ⟨" ls".toList ++ (b.text ++ ds), by simp⟩

theorem atPrompt_cons (cs : List Char) : AtPrompt ('$' :: cs) := by
  simp [AtPrompt]

theorem atPrompt_commands {commands : List Command} (h : Ended (commands.flatMap Command.lines) cs)
    (hrest : AtPrompt rest) : AtPrompt (cs ++ rest) := by
  cases commands with
  | nil =>
    obtain rfl := Ended.nil_iff.1 h
    exact hrest
  | cons cmd commands =>
    obtain ⟨first, behind, rfl, hfirst, -⟩ := Ended.append_iff.1 h
    obtain ⟨ds, rfl⟩ := exists_eq_prompt hfirst
    exact atPrompt_cons _

theorem turnsAll_commands {commands : List Command} (h : w.Describes c) (hrun : w.run commands = some w')
    (hcs : Ended (commands.flatMap Command.lines) cs) (hrest : AtPrompt rest) :
    ∃ c', w'.Describes c' ∧ command.parser.TurnsAll rest cs c [] c' := by
  induction commands generalizing w c cs with
  | nil =>
    obtain rfl := Ended.nil_iff.1 hcs
    obtain rfl := Option.some.inj hrun
    exact ⟨c, h, .nil c⟩
  | cons cmd commands ih =>
    obtain ⟨first, behind, rfl, hfirst, hbehind⟩ := Ended.append_iff.1 hcs
    rw [run_cons] at hrun
    obtain ⟨next, hstep, hrun⟩ := Option.bind_eq_some_iff.1 hrun
    obtain ⟨d, hd, hturns⟩ := turns_command h hstep hfirst (atPrompt_commands hbehind hrest)
    obtain ⟨c', hc', hall⟩ := ih hd hrun hbehind
    refine ⟨c', hc', .cons ?_ hturns hall⟩
    obtain ⟨ds, rfl⟩ := exists_eq_prompt hfirst
    exact List.cons_ne_nil _ _

theorem fails_at {before after : List Command} {cmd : Command} {text : String} {written behind : List Char}
    (hbefore : Walk.start.run before = some w) (hrefused : w.step cmd = none) (htext : text.toList = written ++ behind)
    (hwritten : Ended (before.flatMap Command.lines) written)
    (hbehind : Ended ((cmd :: after).flatMap Command.lines) behind) : ∃ failures,
      (grammar.run text).error = some (.exhausted failures) ∧
        (grammar.run text).cursor = (Cursor.ofString text).advance (written.length + 2) ∧
        (grammar.run text).stack = [] ∧ w.Describes (grammar.run text).context := by
  obtain ⟨first, others, rfl, hfirst, hothers⟩ := Ended.append_iff.1 hbehind
  have hprompt : AtPrompt others := List.append_nil others ▸ atPrompt_commands hothers atPrompt_nil
  obtain ⟨ds, hds⟩ := exists_eq_prompt hfirst
  have hfirst' : AtPrompt (first ++ others) := hds ▸ atPrompt_cons _
  obtain ⟨c, hc, hall⟩ := turnsAll_commands describes_start hbefore hwritten hfirst'
  obtain ⟨t, ht, hafter, hbreaks⟩ := hall.breaks_tillEnd (s := .start text) (by simp [hds]) rfl htext rfl
  obtain ⟨failures, hfails⟩ := breaks_command hc hrefused hfirst hprompt ht.success hafter ht.context
  have hnext := hbreaks 2 _ hfails
  refine ⟨failures, hnext.error, ?_, hnext.stack.trans ht.stack, ?_⟩
  · exact hnext.cursor.trans (by rw [ht.cursor, Cursor.advance_advance]; rfl)
  · have hcontext := hnext.context.trans ht.context
    exact hcontext ▸ hc

/-- The transcript of some commands is read as the walk goes. Where the walk refuses a command, the reading fails right
after its prompt, and has followed the walk up to there. -/
theorem run_transcript (commands : List Command) (text : String)
    (h : Ended (commands.flatMap Command.lines) text.toList) :
    (∀ w, Walk.start.run commands = some w →
      (grammar.run text).failed = false ∧ (grammar.run text).cursor.atEnd = true ∧ (grammar.run text).stack = [] ∧
        w.Describes (grammar.run text).context) ∧
    (Walk.start.run commands = none →
      ∃ before cmd after w written behind, commands = before ++ cmd :: after ∧
        Walk.start.run before = some w ∧ w.step cmd = none ∧
        text.toList = written ++ behind ∧ Ended (before.flatMap Command.lines) written ∧
        Ended ((cmd :: after).flatMap Command.lines) behind ∧
        (∃ failures, (grammar.run text).error = some (.exhausted failures)) ∧
        (grammar.run text).cursor = (Cursor.ofString text).advance (written.length + 2) ∧
        (grammar.run text).stack = [] ∧ w.Describes (grammar.run text).context) := by
  constructor
  · intro w hrun
    obtain ⟨c, hc, hall⟩ := turnsAll_commands describes_start hrun h atPrompt_nil
    have hread : grammar.parser.Turns text.toList [] .empty [] c := Parser.Turns.tillEnd hall
    obtain ⟨hsuccess, hend, hstack, rfl⟩ := run_of_turns hread
    exact ⟨hsuccess, hend, hstack, hc⟩
  · intro hrun
    obtain ⟨before, cmd, after, w, rfl, hbefore, hrefused⟩ := exists_refused hrun
    rw [List.flatMap_append] at h
    obtain ⟨written, behind, htext, hwritten, hbehind⟩ := Ended.append_iff.1 h
    obtain ⟨failures, hbreaks⟩ := fails_at hbefore hrefused htext hwritten hbehind
    exact ⟨before, cmd, after, w, written, behind, rfl, hbefore, hrefused, htext, hwritten, hbehind,
      ⟨failures, hbreaks.1⟩, hbreaks.2⟩

/-- The root is listed twice, and the later listing stays. -/
theorem run_transcript_twice :
    let name : Name := .of "a" (by decide)
    let commands : List Command := [
      .enter .root, .list [.dir name, .file (.ofInt64 (-9223372036854775808)) name],
      .enter (.below name (by decide) (by decide)), .enter .above, .list [.dir name]]
    let text :=
      "$ cd /" ++ "\r\n" ++
      "$ ls" ++ "\n" ++
      "dir a" ++ "\r\n" ++
      "-9223372036854775808 a" ++ "\n" ++
      "$ cd a" ++ "\n" ++
      "$ cd .." ++ "\r\n" ++
      "$ ls" ++ "\r\n" ++
      "dir a" ++ "\n"
    Ended (commands.flatMap Command.lines) text.toList ∧ (grammar.run text).failed = false ∧
      (grammar.run text).stack = [] ∧
      (grammar.run text).context.find? "cwd" = some (.list []) ∧
      (grammar.run text).context.find? "dir:/" = some (.list [.record "Dir" [("name", .str "a")]]) := by
  intro name commands text
  have hlines : commands.flatMap Command.lines = [
      "$ cd /", "$ ls", "dir a", "-9223372036854775808 a", "$ cd a", "$ cd ..", "$ ls", "dir a"] := by
    decide +kernel
  have hended : Ended (commands.flatMap Command.lines) text.toList := by
    rw [hlines]
    refine (congrArg (Ended _) ?_).mp <| .cons _ .returnFeed <| .cons _ .feed <| .cons _ .returnFeed <| .cons _ .feed <|
      .cons _ .feed <| .cons _ .returnFeed <| .cons _ .returnFeed <| .cons _ .feed .nil
    simp only [text, String.toList_append, List.append_assoc]
    rfl
  obtain ⟨hsuccess, -, hstack, hcontext⟩ := (run_transcript commands text hended).1 _ rfl
  exact ⟨hended, hsuccess, hstack, hcontext "cwd", hcontext "dir:/"⟩

end StackParser.Transcript
