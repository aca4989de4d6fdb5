import StackParser.Bundled.Rounds
import StackParser.Bundled.Instructions
import StackParser.Bundled.Transcript
import StackParser.Bundled.Monkeys

/-!
# The bundled grammars

`entries` : every bundled grammar with its name and a line about it; `find?` looks one up.
-/

namespace StackParser.Catalogue

structure Entry where
  name : String
  description : String
  grammar : Grammar

def entries : List Entry := [
  ⟨"strategy", "rounds of `<A|B|C> <X|Y|Z>` as Round records of two moves", Rounds.ofMoves⟩,
  ⟨"strategy-outcome", "rounds of `<A|B|C> <X|Y|Z>` where the second column is the desired outcome",
    Rounds.ofOutcomes⟩,
  ⟨"instructions", "`noop` / `addx <n>` lines as Instruction records", Instructions.grammar⟩,
  ⟨"terminal", "a `$ cd` / `$ ls` transcript, collected into a directory map in context", Transcript.grammar⟩,
  ⟨"troop", "multi-line monkey blocks as nested Monkey records", Monkeys.grammar⟩]

def find? (name : String) : Option Entry := entries.find? fun e => e.name == name

theorem find?_eq_some_iff {name : String} {entry : Entry} : find? name = some entry ↔ entry ∈ entries ∧ entry.name = name := by
  constructor
  · intro h
    exact ⟨List.mem_of_find?_eq_some h, by simpa using List.find?_some h⟩
  · rintro ⟨hentry, rfl⟩
    have hall : ∀ e ∈ entries, find? e.name = some e := by simp [entries, find?]
    exact hall entry hentry

end StackParser.Catalogue
