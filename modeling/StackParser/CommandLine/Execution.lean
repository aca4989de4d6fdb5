import StackParser.CommandLine.Arguments
import StackParser.CommandLine.Screen
import StackParser.Grammar.Result
import StackParser.Json

/-!
# Carrying out a command line

* `execute` : what a command line prints, or its problem, from the arguments and the contents of files;
* `run` : how the program ends for it. A command line that cannot be read ends with status 2, any other failure with
  status 1, and neither prints anything on standard output.
-/

namespace StackParser.CommandLine

inductive Problem where
  | usage (e : UsageError)
  | unknownGrammar (name : String)
  | unreadable (file : String)
  | rejected (report : Report)

namespace Problem

def exitStatus : Problem → UInt8
  | .usage _ => 2
  | _ => 1

/-- The code by which a problem can be told, if it has one. -/
def code : Problem → Option String
  | .usage _ => none
  | .unknownGrammar _ => some "kumi::cli::unknown_grammar"
  | .unreadable _ => none
  | .rejected report => some report.error.code

def message : Problem → String
  | .usage e => e.message
  | .unknownGrammar name => "Unknown grammar '" ++ name ++ "'"
  | .unreadable file => "Failed to read " ++ file
  | .rejected report => report.error.message

def help : Problem → Option String
  | .usage _ => some Screen.usage
  | .unknownGrammar _ =>
    some ("available grammars: " ++ ", ".intercalate (Catalogue.entries.map Catalogue.Entry.name))
  | .unreadable _ => none
  | .rejected report => some report.help

end Problem

/-- Parses a file with a bundled grammar. `read` gives the bytes of a file that can be read. -/
def parseFile (colours : Bool) (read : String → Option ByteArray) (name file : String) (json : Bool) :
    Except Problem String :=
  match Catalogue.find? name with
  | none => .error (.unknownGrammar name)
  | some entry =>
    match (read file).bind String.fromUTF8? with
    | none => .error (.unreadable file)
    | some text =>
      match entry.grammar.parseState (.start text) file with
      | .error report => .error (.rejected report)
      | .ok s =>
        if json then .ok ((Json.ofOutput s.stack s.context).prettyText ++ "\n")
        else .ok (Screen.values colours s.stack s.context)

def Request.output (colours : Bool) (read : String → Option ByteArray) : Request → Except Problem String
  | .help => .ok Screen.usage
  | .version => .ok Screen.version
  | .list _ => .ok (Screen.grammars colours Catalogue.entries)
  | .parse grammar file json _ => parseFile colours read grammar file json

/-- What a command line prints, or why it fails. -/
def execute (colours : Bool) (read : String → Option ByteArray) (args : List String) : Except Problem String :=
  match Request.ofArguments args with
  | .error e => .error (.usage e)
  | .ok request => request.output colours read

/-- How the program ends: the status, what it has printed on standard output, and the problem told on standard error. -/
structure Exit where
  status : UInt8
  output : String
  problem : Option Problem

namespace Exit

def of : Except Problem String → Exit
  | .ok text => ⟨0, text, none⟩
  | .error problem => ⟨problem.exitStatus, "", some problem⟩

def code (exit : Exit) : Option String := exit.problem.bind Problem.code

end Exit

def run (colours : Bool) (read : String → Option ByteArray) (args : List String) : Exit :=
  .of (execute colours read args)

end StackParser.CommandLine
