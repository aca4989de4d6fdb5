import StackParser.State

/-!
# Directories in the context

* `Directory.working?` : the working directory as the names on the way down from the root, kept in the context;
* `Directory.change`, `Directory.file` : moving to another directory, and filing a listing under the path of the current one;
* `Directory.sizes` : for every directory listed, and every one above it, the sum of the file sizes listed in it and below.
-/

namespace StackParser.Directory

/-- The context key of the working directory. -/
def workingKey : String := "cwd"

/-- What the context key of a listing begins with; the path follows. -/
def listingMark : String := "dir:"

def path (names : List Value) : String := "/" ++ "/".intercalate (names.filterMap Value.str?)

theorem path_names (names : List String) : path (names.map Value.str) = "/" ++ "/".intercalate names := by
  have hnames : (names.map Value.str).filterMap Value.str? = names := by
    rw [List.filterMap_map]
    exact List.filterMap_some
  rw [path, hnames]

/-- Why there is no directory to go to. -/
inductive Refusal where
  | unset
  /-- The context holds something else under the key of the working directory. -/
  | notList (typeName : String)
  | aboveRoot
  deriving DecidableEq, Repr

def Refusal.message : Refusal → String
  | .unset => "No working directory yet; the transcript must start with `cd /`"
  | .notList typeName => "Expected working directory to be a list but got: " ++ typeName
  | .aboveRoot => "Cannot move above the root directory"

/-- The names on the way down to the working directory. -/
def working? (context : Context) : Except Refusal (List Value) :=
  match context.find? workingKey with
  | some (.list names) => .ok names
  | some v => .error (.notList v.typeName)
  | none => .error .unset

/-- The names on the way down to `target`, which is the root, the directory above or one directly below. -/
def resolve (context : Context) (target : String) : Except Refusal (List Value) :=
  if target = "/" then .ok []
  else
    match working? context with
    | .error e => .error e
    | .ok names =>
      if target = ".." then
        if names.isEmpty then .error .aboveRoot else .ok names.dropLast
      else .ok (names ++ [.str target])

def change (context : Context) (target : String) : Except Refusal Context :=
  (resolve context target).map fun names => context.insert workingKey (.list names)

/-- Files a listing under the path of the directory with these names. -/
def file (context : Context) (names : List Value) (listing : List Value) : Context :=
  context.insert (listingMark ++ path names) (.list listing)

/-! ## Sizes -/

/-- The path that a context key files a listing under, if it does. -/
def listedPath? (key : String) : Option String :=
  if listingMark.toList.isPrefixOf key.toList then
    some (String.ofList (key.toList.drop listingMark.length))
  else none

/-- The sum of the sizes that stand directly in a listing. -/
def directSize (listing : Value) : Int :=
  let sizes := (listing.list?.getD []).filterMap fun v => (v.field? "size").bind Value.long?
  sizes.foldr (fun n total => n.toInt + total) 0

/-- The paths on the way down from `above`. -/
def pathsBelow (above : String) : List String → List String
  | [] => []
  | name :: names => (above ++ "/" ++ name) :: pathsBelow (above ++ "/" ++ name) names

/-- The root and the paths on the way down to `p`, with `p` itself. -/
def lineage (p : String) : List String :=
  let names := ((p.toList.splitOn '/').filter fun cs => !cs.isEmpty).map String.ofList
  "/" :: pathsBelow "" names

/-- Adds `n` to the size under `p`; a path without a size has size zero. -/
def addSize (n : Int) (sizes : Keyed Int) (p : String) : Keyed Int :=
  sizes.insert p ((sizes.find? p).getD 0 + n)

/-- Counts one listing for its own directory and for all above it. -/
def addListing (sizes : Keyed Int) (p : String) (listing : Value) : Keyed Int :=
  (lineage p).foldl (addSize (directSize listing)) (addSize 0 sizes p)

/-- The total sizes of the directories whose listings the context holds. -/
def sizes (context : Context) : Keyed Int :=
  context.entries.foldl
    (fun sizes (key, listing) =>
      match listedPath? key with
      | some p => addListing sizes p listing
      | none => sizes)
    .empty

end StackParser.Directory
