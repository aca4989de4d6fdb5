import StackParser.Grammar
import StackParser.Bundled.Directory

/-!
# Terminal transcripts

`Transcript.grammar` : commands that change the working directory or list it, with what the listing printed. Nothing stays on
the stack; the context holds the working directory and the latest listing of each directory.
-/

namespace StackParser.Transcript

def dirShape : Shape where
  name := "Dir"
  fields := [⟨"name", .string, .required⟩]

def fileShape : Shape where
  name := "File"
  fields := [⟨"size", .long, .required⟩, ⟨"name", .string, .required⟩]

/-- Takes the target off the stack and makes it the working directory. -/
def enterTarget : Action := fun stack context =>
  match stack.getLast? with
  | some (.str target) =>
    match Directory.change context target with
    | .ok context => ⟨stack.dropLast, context, none⟩
    | .error refusal => ⟨stack.dropLast, context, some (.custom refusal.message)⟩
  | other =>
    let found := (other.map Value.typeName).getD "nothing"
    ⟨stack.dropLast, context, some (.custom ("Expected directory name to be a string but got: " ++ found))⟩

/-- Takes the listing off the stack and files it under the working directory. -/
def fileListing : Action := fun stack context =>
  match Directory.working? context with
  | .error refusal => ⟨stack, context, some (.custom refusal.message)⟩
  | .ok names =>
    match stack.getLast? with
    | some (.list entries) => ⟨stack.dropLast, Directory.file context names entries, none⟩
    | other =>
      let found := (other.map Value.typeName).getD "nothing"
      ⟨stack.dropLast, context, some (.custom ("Expected listing to be a list but got: " ++ found))⟩

def changeDirectory : Grammar :=
  .action "change_directory" (.sequenceOf [.skip "cd", .space, .word, .optional .lineEnd]) enterTarget

/-- One line of a listing: a directory, or a file with its size. -/
def entry : Grammar :=
  .oneOf [
    .record dirShape (.sequenceOf [.skip "dir ", .word, .optional .lineEnd]),
    .record fileShape (.sequenceOf [.long, .space, .word, .optional .lineEnd])]

def listDirectory : Grammar :=
  .action "list_directory" (.sequenceOf [.skip "ls", .lineEnd, .list (.oneOrMore entry)]) fileListing

def command : Grammar :=
  .sequenceOf [.skipChar '$', .space, .oneOf [changeDirectory, listDirectory]]

def grammar : Grammar := .tillEnd command

end StackParser.Transcript
