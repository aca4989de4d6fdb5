import StackParser.CommandLine.Execution
import StackParser.Proofs.ReportSpans
import StackParser.Proofs.SingleLines

/-!
# The command `parse` and the grammar's run

* `IsPlain` : an argument that is no option. `parseCommands` : the command lines that parse a file with a grammar;
* `Screen.Shows` : an output has one line for each value on the stack, one for each entry of the context, and one with both
  counts. No displayed value or key breaks a line;
* `Screen.shows_values` : so is the output for a state whose values and keys take one line;
* `Exit.Tells` : how the program ends, told by the state that a grammar's run leaves. This is how the command ends if the
  grammar is registered (`tells_parseFile`);
* `parse_command_agrees` : what the command does for a file that is there comes from the grammar's run on its text.
-/

namespace StackParser.CommandLine

/-! ## Command lines -/

def IsPlain (arg : String) : Prop := arg.toList.head? ≠ some '-'

instance (arg : String) : Decidable (IsPlain arg) := inferInstanceAs (Decidable (_ ≠ _))

theorem Kind.ofArgument_of_isPlain {arg : String} (h : IsPlain arg) : Kind.ofArgument arg = .plain := by
  unfold IsPlain at h
  unfold Kind.ofArgument
  split <;> simp_all

/-- The command lines that parse `file` with the grammar `name`, by whether JSON is asked for. -/
def parseCommands (name file : String) : Bool → List (List String)
  | false => [["parse", name, file]]
  | true => [["parse", "--json", name, file], ["parse", name, "--json", file], ["parse", name, file, "--json"]]

theorem ofArguments_parseCommands {name file : String} {json : Bool} {args : List String}
    (hargs : args ∈ parseCommands name file json) (hname : IsPlain name) (hfile : IsPlain file) (hne : file ≠ "") :
    Request.ofArguments args = .ok (.parse name file json false) := by
  have hcommand : Kind.ofArgument "parse" = .plain := by decide
  have hjson : Kind.ofArgument "--json" = .long "json" false := by decide
  have hnameKind := Kind.ofArgument_of_isPlain hname
  have hfileKind := Kind.ofArgument_of_isPlain hfile
  cases json with
  | false =>
    rw [List.mem_singleton.1 hargs]
    simp [Request.ofArguments, readAll, ParseArguments.read, ParseArguments.addPlain, ParseArguments.toRequest,
      ParseArguments.empty, Except.bind, hcommand, hnameKind, hfileKind, hne]
  | true =>
    simp only [parseCommands, List.mem_cons, List.not_mem_nil, or_false] at hargs
    rcases hargs with rfl | rfl | rfl <;>
      simp [Request.ofArguments, readAll, ParseArguments.read, ParseArguments.addPlain, ParseArguments.toRequest,
        ParseArguments.empty, Except.bind, hcommand, hjson, hnameKind, hfileKind, hne]

/-! ## Lines of the output -/

theorem splitOn_lines {lines : List String} (h : ∀ line ∈ lines, OneLine line) :
    (String.join (lines.map fun line => line ++ "\n")).toList.splitOn '\n' = lines.map String.toList ++ [[]] := by
  induction lines with
  | nil => rfl
  | cons line lines ih =>
    obtain ⟨hline, hlines⟩ := List.forall_mem_cons.1 h
    rw [List.map_cons, String.join_cons, String.toList_append, String.toList_append, List.append_assoc]
    exact (List.splitOn_append_cons_self_of_not_mem hline _).trans (congrArg _ (ih hlines))

namespace Screen

/-- A place on the stack at the right of four columns, two spaces, and the displayed value. -/
def valueLine (place : Nat) (v : Value) : String :=
  String.ofList ((toString place).toList.leftpad 4 ' ') ++ "  " ++ v.display

def contextLine (key : String) (v : Value) : String := key ++ " = " ++ v.display

def countLine (values entries : Nat) : String :=
  "parsed " ++ toString values ++ " value(s), " ++ toString entries ++
    if entries = 1 then " context entry" else " context entries"

/-- The output has a line for each value in order, a line for each entry in ascending order of the keys, and a line with the
counts. No displayed value or key has a line feed. -/
structure Shows (output : String) (stack : List Value) (context : Context) : Prop where
  lines : output.toList.splitOn '\n' =
    (stack.zipIdx.map (fun e => valueLine e.2 e.1) ++ context.entries.map (fun e => contextLine e.1 e.2) ++
      [countLine stack.length context.entries.length]).map String.toList ++ [[]]
  values : ∀ v ∈ stack, OneLine v.display
  entries : ∀ e ∈ context.entries, OneLine e.1 ∧ OneLine e.2.display
  ascend : KeysAscend context.entries

theorem padLeft_eq (n : Nat) (text : String) : padLeft n text = String.ofList (text.toList.leftpad n ' ') := by
  rw [padLeft, List.leftpad, String.ofList_append, String.ofList_toList, String.length_toList]

theorem values_eq (stack : List Value) (context : Context) : values false stack context =
    String.join ((stack.zipIdx.map (fun e => valueLine e.2 e.1) ++ context.entries.map (fun e => contextLine e.1 e.2) ++
      [countLine stack.length context.entries.length]).map fun line => line ++ "\n") := by
  have hvalues : valueLines false stack = (stack.zipIdx.map fun e => valueLine e.2 e.1).map fun line => line ++ "\n" := by
    simp [valueLines, valueLine, padLeft_eq, Paint.apply]
  have hcontext : contextLines false context =
      (context.entries.map fun e => contextLine e.1 e.2).map fun line => line ++ "\n" := by
    simp [contextLines, contextLine, Paint.apply]
  have hcount (n m : Nat) : summary n m = countLine n m ++ "\n" := by
    unfold summary countLine
    split <;> simp [String.append_assoc]
  rw [values, hvalues, hcontext, hcount, List.map_append, List.map_append, String.join_append, String.join_append]
  rfl

theorem oneLine_valueLine {place : Nat} {v : Value} (hv : OneLine v.display) : OneLine (valueLine place v) := by
  have hplace : OneLine (toString place) := oneLine_toString place
  have hcolumn : OneLine (String.ofList ((toString place).toList.leftpad 4 ' ')) := by
    rw [oneLine_ofList, List.leftpad, List.mem_append, not_or]
    exact ⟨by simp [List.mem_replicate], hplace⟩
  have hgap : OneLine "  " := by decide
  exact oneLine_append.2 ⟨oneLine_append.2 ⟨hcolumn, hgap⟩, hv⟩

theorem oneLine_contextLine {key : String} {v : Value} (hkey : OneLine key) (hv : OneLine v.display) :
    OneLine (contextLine key v) := by
  have hmark : OneLine " = " := by decide
  exact oneLine_append.2 ⟨oneLine_append.2 ⟨hkey, hmark⟩, hv⟩

theorem oneLine_countLine (values entries : Nat) : OneLine (countLine values entries) := by
  have hvalues : OneLine (toString values) := oneLine_toString values
  have hentries : OneLine (toString entries) := oneLine_toString entries
  have hwords : OneLine "parsed " ∧ OneLine " value(s), " := by decide
  have hends : OneLine " context entry" ∧ OneLine " context entries" := by decide
  simp only [countLine, oneLine_append, hvalues, hentries, hwords, true_and]
  split
  · exact hends.1
  · exact hends.2

theorem shows_values {s : State} (hs : s.OneLine) : Shows (values false s.stack s.context) s.stack s.context where
  lines := by
    rw [values_eq]
    refine splitOn_lines fun line hline => ?_
    rcases List.mem_append.1 hline with hline | hline
    · rcases List.mem_append.1 hline with hline | hline
      · obtain ⟨e, he, rfl⟩ := List.mem_map.1 hline
        exact oneLine_valueLine (hs.stack e.1 (List.fst_mem_of_mem_zipIdx he))
      · obtain ⟨e, he, rfl⟩ := List.mem_map.1 hline
        exact oneLine_contextLine (hs.keys e he) (hs.context e he)
    · rw [List.mem_singleton.1 hline]
      exact oneLine_countLine _ _
  values := hs.stack
  entries e he := ⟨hs.keys e he, hs.context e he⟩
  ascend := s.context.ascend

end Screen

/-! ## How the command ends -/

theorem fromUTF8?_toUTF8 (text : String) : String.fromUTF8? text.toUTF8 = some text := by
  have hvalid : text.toUTF8.IsValidUTF8 := text.isValidUTF8
  rw [String.fromUTF8?, dif_pos hvalid]
  rfl

/-- All that is told comes from the state `s` that a run of a grammar leaves. -/
structure Exit.Tells (exit : Exit) (colours json : Bool) (s : State) : Prop where
  status : exit.status = if s.failed then 1 else 0
  output : exit.output = if s.failed then "" else if json then (Json.ofOutput s.stack s.context).prettyText ++ "\n"
    else Screen.values colours s.stack s.context
  code : exit.code = s.error.map ParseError.code

namespace Exit.Tells

variable {exit : Exit} {colours json : Bool} {s : State}

theorem status_eq_zero_iff (h : exit.Tells colours json s) : exit.status = 0 ↔ s.failed = false := by
  rw [h.status]
  cases s.failed <;> decide

theorem of_failed (h : exit.Tells colours json s) (hs : s.failed = true) : exit.status = 1 ∧ exit.output = "" := by
  rw [h.status, h.output, hs]
  exact ⟨rfl, rfl⟩

theorem output_of_success (h : exit.Tells colours json s) (hs : s.failed = false) : exit.output =
    if json then (Json.ofOutput s.stack s.context).prettyText ++ "\n" else Screen.values colours s.stack s.context := by
  rw [h.output, hs]
  rfl

end Exit.Tells

section Ends

variable {colours json : Bool} {read : String → Option ByteArray} {name file text : String} {entry : Catalogue.Entry}

theorem run_parseCommands {args : List String} (hargs : args ∈ parseCommands name file json) (hname : IsPlain name)
    (hfile : IsPlain file) (hne : file ≠ "") :
    run colours read args = .of (parseFile colours read name file json) := by
  rw [run, execute, ofArguments_parseCommands hargs hname hfile hne]
  rfl

theorem parseFile_of_unregistered (hnone : ∀ e ∈ Catalogue.entries, e.name ≠ name) :
    parseFile colours read name file json = .error (.unknownGrammar name) := by
  have hfind : Catalogue.find? name = none := by
    refine Option.eq_none_iff_forall_ne_some.2 fun e he => ?_
    obtain ⟨hentry, hname⟩ := Catalogue.find?_eq_some_iff.1 he
    exact hnone e hentry hname
  rw [parseFile, hfind]

/-- A registered grammar is run on the text of the file. -/
theorem tells_parseFile (hentry : entry ∈ Catalogue.entries) (hname : entry.name = name)
    (hread : read file = some text.toUTF8) :
    (Exit.of (parseFile colours read name file json)).Tells colours json (entry.grammar.run text) := by
  have hfind := Catalogue.find?_eq_some_iff.2 ⟨hentry, hname⟩
  cases hrun : (entry.grammar.run text).failed with
  | false =>
    have hparse : entry.grammar.parseState (.start text) file = .ok (entry.grammar.run text) :=
      Grammar.parseState_of_success hrun
    have herror := State.failed_eq_false_iff.1 hrun
    simp only [parseFile, hfind, hread, Option.bind_some, fromUTF8?_toUTF8, hparse]
    cases json <;> constructor <;> simp [Exit.of, Exit.code, hrun, herror]
  | true =>
    obtain ⟨report, hreport, herror, -⟩ : ∃ report, Report.ofState? (entry.grammar.run text) file = some report ∧
      (entry.grammar.run text).error = some report.error ∧ _ := Report.exists_ofState? hrun
    have hparse : entry.grammar.parseState (.start text) file = .error report := Grammar.parseState_of_report hreport
    simp only [parseFile, hfind, hread, Option.bind_some, fromUTF8?_toUTF8, hparse]
    constructor <;> simp [Exit.of, Exit.code, Problem.code, Problem.exitStatus, hrun, herror]

end Ends

/-- The command line agrees with the grammar's run on the text of a file that is there, and so has a name. The program ends
with status 0 exactly if the grammar is registered and its run does not fail, and then prints the stack and the context of
that run. Otherwise it ends with status 1, prints nothing, and the code is that of an unknown grammar or that of the error
of the run. -/
theorem parse_command_agrees (colours json : Bool) (read : String → Option ByteArray) {name file text : String}
    {args : List String} (hargs : args ∈ parseCommands name file json) (hname : IsPlain name) (hfile : IsPlain file)
    (hexists : file ≠ "") (hread : read file = some text.toUTF8) :
    let exit := run colours read args
    (exit.status = 0 ↔ ∃ e ∈ Catalogue.entries, e.name = name ∧ (e.grammar.run text).failed = false) ∧
    (∀ e ∈ Catalogue.entries, e.name = name → (e.grammar.run text).failed = false →
      let s := e.grammar.run text
      (json = true → exit.output = (Json.ofOutput s.stack s.context).prettyText ++ "\n") ∧
      (json = false → colours = false → Screen.Shows exit.output s.stack s.context)) ∧
    (exit.status ≠ 0 → exit.status = 1 ∧ exit.output = "") ∧
    ((∀ e ∈ Catalogue.entries, e.name ≠ name) → exit.code = some "kumi::cli::unknown_grammar") ∧
    ∀ e ∈ Catalogue.entries, e.name = name → ∀ err, (e.grammar.run text).error = some err → exit.code = some err.code := by
  intro exit
  have hexit : exit = .of (parseFile colours read name file json) := run_parseCommands hargs hname hfile hexists
  have hregistered (e : Catalogue.Entry) (he : e ∈ Catalogue.entries) (heq : e.name = name) :
      exit.Tells colours json (e.grammar.run text) := hexit ▸ tells_parseFile he heq hread
  have hunregistered (hnone : ∀ e ∈ Catalogue.entries, e.name ≠ name) : exit = .of (.error (.unknownGrammar name)) := by
    rw [hexit, parseFile_of_unregistered hnone]
  have hends : (∃ e ∈ Catalogue.entries, e.name = name ∧ exit.Tells colours json (e.grammar.run text)) ∨
      exit = .of (.error (.unknownGrammar name)) := by
    by_cases h : ∃ e ∈ Catalogue.entries, e.name = name
    · obtain ⟨e, he, heq⟩ := h
      exact .inl ⟨e, he, heq, hregistered e he heq⟩
    · exact .inr (hunregistered fun e he heq => h ⟨e, he, heq⟩)
  refine ⟨⟨fun hstatus => ?_, ?_⟩, fun e he heq hrun => ⟨fun hjson => ?_, fun hjson hcolours => ?_⟩, fun hstatus => ?_,
    fun hnone => ?_, fun e he heq err herr => ?_⟩
  · rcases hends with ⟨e, he, heq, htells⟩ | hunknown
    · exact ⟨e, he, heq, htells.status_eq_zero_iff.1 hstatus⟩
    · rw [hunknown] at hstatus
      exact nomatch hstatus
  · rintro ⟨e, he, heq, hrun⟩
    exact (hregistered e he heq).status_eq_zero_iff.2 hrun
  · rw [(hregistered e he heq).output_of_success hrun, if_pos hjson]
  · rw [(hregistered e he heq).output_of_success hrun, hjson, hcolours]
    exact Screen.shows_values (Catalogue.oneLine_run he text)
  · rcases hends with ⟨e, he, heq, htells⟩ | hunknown
    · exact htells.of_failed (Bool.of_not_eq_false fun hrun => hstatus (htells.status_eq_zero_iff.2 hrun))
    · rw [hunknown]
      exact ⟨rfl, rfl⟩
  · rw [hunregistered hnone]
    rfl
  · rw [(hregistered e he heq).code, herr, Option.map_some]

/-- The file is there, the transcript is read to its end, and a line is shown for either entry of the context. -/
theorem parse_command_agrees_terminal :
    let args := ["parse", "terminal", "log"]
    let text := "$ cd /\n$ cd a\n$ ls\n12 b\n"
    let read := fun file => if file = "log" then some text.toUTF8 else none
    args ∈ parseCommands "terminal" "log" false ∧ IsPlain "terminal" ∧ IsPlain "log" ∧ "log" ≠ "" ∧
      read "log" = some text.toUTF8 ∧ (run false read args).status = 0 ∧
      (run false read args).output.toList.splitOn '\n' = [
        "cwd = [\"a\"]",
        "dir:/a = [File \x7b size: 12, name: \"b\" \x7d]",
        "parsed 0 value(s), 2 context entries",
        ""].map String.toList := by
  intro args text read
  have hargs : args ∈ parseCommands "terminal" "log" false := by decide
  have hname : IsPlain "terminal" := by decide
  have hfile : IsPlain "log" := by decide
  have hread : read "log" = some text.toUTF8 := if_pos rfl
  have hentry : Catalogue.entries[3] ∈ Catalogue.entries := List.getElem_mem _
  have hrun : (Transcript.grammar.run text).failed = false := by decide +kernel
  obtain ⟨hstatus, hsuccess, -⟩ := parse_command_agrees false false read hargs hname hfile (by decide) hread
  have hshows := (hsuccess _ hentry rfl hrun).2 rfl rfl
  refine ⟨hargs, hname, hfile, by decide, hread, hstatus.2 ⟨_, hentry, rfl, hrun⟩, hshows.lines.trans ?_⟩
  decide +kernel

end StackParser.CommandLine
