/-!
# Command-line arguments

* `Request` : what a command line asks for;
* `Request.ofArguments` : reads the arguments from left to right. The first that is wrong, or that asks for help or for the
  version, decides; what is missing is noticed at the end.

Options may stand before, between and after the arguments of a command. An option given twice at one level is an error. All
after `--` are plain arguments.
-/

namespace StackParser.CommandLine

/-- What a command line asks for. Tracing changes nothing in what is printed on standard output. -/
inductive Request where
  | help
  | version
  | list (trace : Bool)
  | parse (grammar file : String) (json trace : Bool)
  deriving DecidableEq, Repr

inductive UsageError where
  | unknownOption (arg : String)
  | repeatedOption (arg : String)
  | unexpectedValue (arg : String)
  | unknownCommand (arg : String)
  | unexpectedArgument (arg : String)
  | emptyFile
  | missing (what : String)
  deriving DecidableEq, Repr

namespace UsageError

def message : UsageError → String
  | .unknownOption arg => "unexpected option '" ++ arg ++ "'"
  | .repeatedOption arg => "the option '" ++ arg ++ "' cannot be used several times"
  | .unexpectedValue arg => "the option '" ++ arg ++ "' takes no value"
  | .unknownCommand arg => "unrecognized command '" ++ arg ++ "'"
  | .unexpectedArgument arg => "unexpected argument '" ++ arg ++ "'"
  | .emptyFile => "the file name is empty"
  | .missing what => "missing " ++ what

end UsageError

/-! ## Kinds of arguments -/

/-- How an argument is read where options are allowed. -/
inductive Kind where
  /-- The mark after which there are no options. -/
  | separator
  /-- Two dashes, a name, and whether a value is attached. -/
  | long (name : String) (value : Bool)
  /-- One dash and letters, of which the first decides. -/
  | short (letter : Char)
  | plain
  deriving DecidableEq, Repr

/-- A lone dash is a plain argument. -/
def Kind.ofArgument (arg : String) : Kind :=
  match arg.toList with
  | ['-', '-'] => .separator
  | '-' :: '-' :: cs => .long (String.ofList (cs.takeWhile fun c => c ≠ '=')) (cs.contains '=')
  | '-' :: c :: _ => .short c
  | _ => .plain

/-! ## The command `parse` -/

structure ParseArguments where
  grammar : Option String
  file : Option String
  json : Bool
  trace : Bool
  deriving DecidableEq, Repr

namespace ParseArguments

def empty : ParseArguments := ⟨none, none, false, false⟩

/-- Takes the next plain argument: the grammar, then the file, which is not empty. -/
def addPlain (p : ParseArguments) (arg : String) : Except UsageError ParseArguments :=
  match p.grammar, p.file with
  | none, _ => .ok { p with grammar := some arg }
  | some _, none => if arg = "" then .error .emptyFile else .ok { p with file := some arg }
  | some _, some _ => .error (.unexpectedArgument arg)

def addAll (p : ParseArguments) (args : List String) : Except UsageError ParseArguments :=
  args.foldlM addPlain p

/-- The request, if both arguments are there; `outer` says whether tracing was asked for before the command. -/
def toRequest (p : ParseArguments) (outer : Bool) : Except UsageError Request :=
  match p.grammar, p.file with
  | some grammar, some file => .ok (.parse grammar file p.json (p.trace || outer))
  | none, _ => .error (.missing "grammar name")
  | some _, none => .error (.missing "file name")

/-- Reads what follows `parse`. -/
def read (outer : Bool) (p : ParseArguments) : List String → Except UsageError Request
  | [] => p.toRequest outer
  | arg :: args =>
    match Kind.ofArgument arg with
    | .separator => (p.addAll args).bind fun p => p.toRequest outer
    | .plain => (p.addPlain arg).bind fun p => read outer p args
    | .long name value =>
      if name ∉ ["json", "trace", "help"] then .error (.unknownOption arg)
      else if value then .error (.unexpectedValue arg)
      else if name = "help" then .ok .help
      else if name = "json" then
        if p.json then .error (.repeatedOption arg) else read outer { p with json := true } args
      else
        if p.trace then .error (.repeatedOption arg) else read outer { p with trace := true } args
    | .short letter => if letter = 'h' then .ok .help else .error (.unknownOption arg)

end ParseArguments

/-! ## The other commands -/

/-- Reads what follows `list`; `trace` says whether tracing was asked for after the command. -/
def readList (outer trace : Bool) : List String → Except UsageError Request
  | [] => .ok (.list (trace || outer))
  | arg :: args =>
    match Kind.ofArgument arg with
    | .separator =>
      match args with
      | [] => .ok (.list (trace || outer))
      | arg :: _ => .error (.unexpectedArgument arg)
    | .plain => .error (.unexpectedArgument arg)
    | .long name value =>
      if name ∉ ["trace", "help"] then .error (.unknownOption arg)
      else if value then .error (.unexpectedValue arg)
      else if name = "help" then .ok .help
      else if trace then .error (.repeatedOption arg)
      else readList outer true args
    | .short letter => if letter = 'h' then .ok .help else .error (.unknownOption arg)

/-- Reads what follows `help`: at most one command. -/
def readHelp : List String → Except UsageError Request
  | [] => .ok .help
  | arg :: args =>
    if arg ∉ ["parse", "list", "help"] then .error (.unknownCommand arg)
    else
      match args with
      | [] => .ok .help
      | arg :: _ => .error (.unknownCommand arg)

/-- Reads the arguments; `trace` says whether tracing has been asked for. -/
def readAll (trace : Bool) : List String → Except UsageError Request
  | [] => .error (.missing "command")
  | arg :: args =>
    match Kind.ofArgument arg with
    | .separator =>
      match args with
      | [] => .error (.missing "command")
      | arg :: _ => .error (.unexpectedArgument arg)
    | .plain =>
      if arg = "parse" then ParseArguments.empty.read trace args
      else if arg = "list" then readList trace false args
      else if arg = "help" then readHelp args
      else .error (.unknownCommand arg)
    | .long name value =>
      if name ∉ ["trace", "help", "version"] then .error (.unknownOption arg)
      else if value then .error (.unexpectedValue arg)
      else if name = "help" then .ok .help
      else if name = "version" then .ok .version
      else if trace then .error (.repeatedOption arg)
      else readAll true args
    | .short letter =>
      if letter = 'h' then .ok .help
      else if letter = 'V' then .ok .version
      else .error (.unknownOption arg)

def Request.ofArguments (args : List String) : Except UsageError Request := readAll false args

end StackParser.CommandLine
