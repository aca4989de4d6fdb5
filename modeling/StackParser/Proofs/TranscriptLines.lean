import StackParser.Proofs.DirectoryWalk

/-!
# Lines of a transcript

A line of a listing and the line of a command tell what they are (`Walk.Entry.line_inj`, `Walk.Command.lines_append_inj`),
and no line of a listing is taken for a command. So the commands can be told from the text (`Walk.commands_unique`).
-/

namespace StackParser

namespace Name

theorem text_inj {name name' : Name} (h : name.text = name'.text) : name = name' := by
  cases name
  cases name'
  simpa using h

theorem noBreak (name : Name) : NoBreak name.text.toList :=
  ⟨fun h => absurd (name.not_blank _ h) (by decide), fun h => absurd (name.not_blank _ h) (by decide)⟩

end Name

namespace Size

variable {size size' : Size}

theorem text_inj (h : size.text = size'.text) : size = size' := by
  have hnumeral : size.numeral = size'.numeral := by
    apply Numeral.text_inj
    rw [← toList_text, ← toList_text, h]
  cases size
  cases size'
  simpa using hnumeral

/-- A size consists of digits and perhaps a sign. -/
theorem mem_text (size : Size) : ∀ c ∈ size.text.toList, c = '-' ∨ c.isDigit = true := by
  intro c hc
  rw [toList_text, Numeral.text, Numeral.sign] at hc
  rcases List.mem_append.1 hc with hc | hc
  · split at hc
    · exact .inl (List.mem_singleton.1 hc)
    · exact absurd hc List.not_mem_nil
  · exact .inr (size.numeral.isDigit c hc)

theorem not_mem_text (size : Size) {x : Char} (hx : x ≠ '-' ∧ x.isDigit = false) : x ∉ size.text.toList := by
  intro hmem
  rcases size.mem_text x hmem with heq | hdigit
  · exact hx.1 heq
  · simp [hx.2] at hdigit

/-- A size begins with a digit or a sign. -/
theorem toList_text_eq_cons (size : Size) : ∃ x cs, size.text.toList = x :: cs ∧ isBlank x = false ∧
    ∀ y, y ≠ '-' ∧ y.isDigit = false → x ≠ y := by
  obtain ⟨x, cs, hx⟩ := List.exists_cons_of_ne_nil size.numeral.text_ne_nil
  have htext : size.text.toList = x :: cs := size.toList_text.trans hx
  refine ⟨x, cs, htext, size.numeral.not_blank_head [] x (by simp [hx]), fun y hy => ?_⟩
  exact ne_of_mem_of_not_mem (htext ▸ List.mem_cons_self) (size.not_mem_text hy)

theorem noBreak (size : Size) : NoBreak size.text.toList :=
  ⟨size.not_mem_text (by decide), size.not_mem_text (by decide)⟩

end Size

namespace Walk

/-! ## Lines of a listing -/

namespace Entry

theorem line_inj {e e' : Entry} (h : e.line = e'.line) : e = e' := by
  have hdir : ∀ (name : Name) (size : Size) (name' : Name), (dir name).line ≠ (file size name').line := by
    intro name size name' heq
    have hlist := congrArg String.toList heq
    obtain ⟨x, cs, hx, -, hne⟩ := size.toList_text_eq_cons
    simp only [line, String.toList_append, hx] at hlist
    exact hne 'd' (by decide) (List.cons.inj hlist).1.symm
  cases e with
  | dir name =>
    cases e' with
    | dir name' => rw [Name.text_inj (String.append_right_inj "dir " |>.1 h)]
    | file size' name' => exact absurd h (hdir name size' name')
  | file size name =>
    cases e' with
    | dir name' => exact absurd h.symm (hdir name' size name)
    | file size' name' =>
      have hlist := congrArg String.toList h
      simp only [line, String.toList_append, List.append_assoc] at hlist
      have hsize : ∀ s : Size, ∀ rest : List Char,
          (s.text.toList ++ (" ".toList ++ rest)).takeWhile (fun c => c ≠ ' ') = s.text.toList := by
        intro s rest
        refine takeWhile_append_of_stopsAt (fun c hc => ?_) (stopsAt_cons.2 (by decide))
        simpa using ne_of_mem_of_not_mem hc (s.not_mem_text (by decide))
      have hsizes := hsize size name.text.toList
      rw [hlist, hsize] at hsizes
      obtain rfl := Size.text_inj (String.toList_inj.1 hsizes)
      have hnames := List.append_cancel_left (List.append_cancel_left hlist)
      rw [Name.text_inj (String.toList_inj.1 hnames)]

/-- A line of a listing does not begin like a command, or with a blank. -/
theorem line_begins (e : Entry) : ∃ x ∈ e.line.toList.head?, isBlank x = false ∧ x ≠ '$' := by
  cases e with
  | dir name => exact ⟨'d', by simp [line], by decide⟩
  | file size name =>
    obtain ⟨x, cs, hx, hblank, hne⟩ := size.toList_text_eq_cons
    exact ⟨x, by simp [line, hx], hblank, hne '$' (by decide)⟩

theorem isLine (e : Entry) : IsLine e.line := by
  cases e with
  | dir name =>
    refine ⟨by simp [line], ?_⟩
    rw [line, String.toList_append]
    exact .append ⟨by decide, by decide⟩ name.noBreak
  | file size name =>
    refine ⟨by simp [line], ?_⟩
    rw [line, String.toList_append, String.toList_append]
    exact .append (.append size.noBreak ⟨by decide, by decide⟩) name.noBreak

end Entry

/-! ## Lines of a command -/

theorem Target.text_inj {target target' : Target} (h : target.text = target'.text) : target = target' := by
  rw [← ofName_name target, ← ofName_name target', Name.text_inj h]

/-- What comes behind the lines of a command: another command, or nothing. -/
def Next (lines : List String) : Prop := ∀ line ∈ lines.head?, line.toList.head? = some '$'

variable {cmd cmd' : Command} {lines others : List String} {entries entries' : List Entry}

theorem next_lines (cmd : Command) (others : List String) : Next (cmd.lines ++ others) := by
  rintro line hline
  cases cmd with
  | enter target =>
    obtain rfl := Option.some.inj hline
    simp
  | list entries =>
    obtain rfl := Option.some.inj hline
    simp

theorem next_commands (commands : List Command) : Next (commands.flatMap Command.lines) := by
  cases commands with
  | nil => exact nofun
  | cons cmd commands => exact next_lines cmd _

theorem not_next_entry (e : Entry) (lines : List String) : ¬ Next (e.line :: lines) := by
  intro h
  obtain ⟨x, hx, -, hne⟩ := e.line_begins
  exact hne (Option.some.inj ((Option.mem_def.1 hx).symm.trans (h e.line rfl)))

/-- A listing goes on up to the next command. -/
theorem entries_append_inj (hlines : Next lines) (hothers : Next others)
    (h : entries.map Entry.line ++ lines = entries'.map Entry.line ++ others) : entries = entries' ∧ lines = others := by
  induction entries generalizing entries' with
  | nil =>
    cases entries' with
    | nil => exact ⟨rfl, h⟩
    | cons e' entries' =>
      obtain rfl : lines = e'.line :: (entries'.map Entry.line ++ others) := h
      exact absurd hlines (not_next_entry e' _)
  | cons e entries ih =>
    cases entries' with
    | nil =>
      obtain rfl : e.line :: (entries.map Entry.line ++ lines) = others := h
      exact absurd hothers (not_next_entry e _)
    | cons e' entries' =>
      obtain ⟨hline, hbehind⟩ := List.cons.inj h
      obtain ⟨rfl, rfl⟩ := ih hbehind
      rw [Entry.line_inj hline]
      exact ⟨rfl, rfl⟩

theorem Command.lines_append_inj (hlines : Next lines) (hothers : Next others)
    (h : cmd.lines ++ lines = cmd'.lines ++ others) : cmd = cmd' ∧ lines = others := by
  have hprompt : ∀ target : Target, "$ cd " ++ target.text ≠ "$ ls" := by
    intro target heq
    have hlist := congrArg String.toList heq
    simp at hlist
  cases cmd with
  | enter target =>
    cases cmd' with
    | enter target' =>
      obtain ⟨hline, rfl⟩ := List.cons.inj h
      rw [Target.text_inj (String.append_right_inj "$ cd " |>.1 hline)]
      exact ⟨rfl, rfl⟩
    | list entries' => exact absurd (List.cons.inj h).1 (hprompt target)
  | list entries =>
    cases cmd' with
    | enter target' => exact absurd (List.cons.inj h).1.symm (hprompt target')
    | list entries' =>
      obtain ⟨rfl, rfl⟩ := entries_append_inj hlines hothers (List.cons.inj h).2
      exact ⟨rfl, rfl⟩

theorem lines_flatMap_inj {commands others : List Command}
    (h : commands.flatMap Command.lines = others.flatMap Command.lines) : commands = others := by
  have hne : ∀ cmd : Command, ∀ lines, cmd.lines ++ lines ≠ [] := by
    rintro (_ | _) lines <;> exact nofun
  induction commands generalizing others with
  | nil =>
    cases others with
    | nil => rfl
    | cons other others => exact absurd h.symm (hne other _)
  | cons cmd commands ih =>
    cases others with
    | nil => exact absurd h (hne cmd _)
    | cons other others =>
      obtain ⟨rfl, hbehind⟩ := Command.lines_append_inj (next_commands commands) (next_commands others) h
      rw [ih hbehind]

theorem Command.isLine (cmd : Command) : ∀ line ∈ cmd.lines, IsLine line := by
  cases cmd with
  | enter target =>
    refine List.forall_mem_singleton.2 ⟨by simp, ?_⟩
    rw [String.toList_append]
    exact .append ⟨by decide, by decide⟩ target.name.noBreak
  | list entries =>
    refine List.forall_mem_cons.2 ⟨⟨by decide, by decide, by decide⟩, List.forall_mem_map.2 fun e _ => e.isLine⟩

/-- No other commands have the same transcript. -/
theorem commands_unique {commands others : List Command} {cs : List Char}
    (h : Written (commands.flatMap Command.lines) cs) (h' : Written (others.flatMap Command.lines) cs) :
    commands = others := by
  have hlines : ∀ commands : List Command, ∀ line ∈ commands.flatMap Command.lines, IsLine line := by
    intro commands line hline
    obtain ⟨cmd, -, hmem⟩ := List.mem_flatMap.1 hline
    exact cmd.isLine line hmem
  exact lines_flatMap_inj (Written.unique (hlines commands) (hlines others) h h')

end Walk

end StackParser
