import StackParser.Bundled.Directory
import StackParser.Proofs.Writing

/-!
# A walk through directories

* `Walk.Command` : a change of directory or a listing, with the `lines` of a transcript for it;
* `Walk` : where the walk is, as the names on the way down from the root, and the listings made so far. `Walk.step` and
  `Walk.run` do commands, unless one is refused;
* `Walk.value?` : what is kept of a walk, under keys. `Walk.Describes w c` : the context `c` holds exactly that;
* `Walk.Describes.change`, `Walk.Describes.file` : the operations on contexts go along with the walk.
-/

namespace StackParser

structure Name where
  text : String
  ne_nil : text.toList ≠ []
  not_blank : ∀ c ∈ text.toList, isBlank c = false

/-- A name from a text that is seen to be one. -/
def Name.of (text : String) (h : text.toList ≠ [] ∧ text.toList.all (fun c => !isBlank c) = true) : Name where
  text := text
  ne_nil := h.1
  not_blank := by simpa using h.2

@[simp] theorem Name.text_of (text : String) (h : text.toList ≠ [] ∧ text.toList.all (fun c => !isBlank c) = true) :
    (Name.of text h).text = text := rfl

/-- A number of 64 bits as it can be written. -/
structure Size where
  numeral : Numeral
  fits : -9223372036854775808 ≤ numeral.value ∧ numeral.value ≤ 9223372036854775807

namespace Size

def text (size : Size) : String := String.ofList size.numeral.text

theorem toList_text (size : Size) : size.text.toList = size.numeral.text := String.toList_ofList

def value (size : Size) : Int64 := .ofInt size.numeral.value

def ofInt64 (n : Int64) : Size where
  numeral := .ofInt n.toInt
  fits := by
    have hlo := n.le_toInt
    have hhi := n.toInt_lt
    rw [Numeral.value_ofInt]
    omega

theorem hold?_value (size : Size) : NumberKind.long.hold? size.numeral.value = some (.long size.value) :=
  if_pos size.fits

end Size

namespace Walk

/-- What a listing shows. -/
inductive Entry where
  | dir (name : Name)
  | file (size : Size) (name : Name)

namespace Entry

def line : Entry → String
  | dir name => "dir " ++ name.text
  | file size name => size.text ++ " " ++ name.text

def record : Entry → Value
  | dir name => .record "Dir" [("name", .str name.text)]
  | file size name => .record "File" [("size", .long size.value), ("name", .str name.text)]

end Entry

/-- Where to go. -/
inductive Target where
  | root
  | above
  | below (name : Name) (ne_root : name.text ≠ "/") (ne_above : name.text ≠ "..")

def Target.name : Target → Name
  | root => .of "/" (by decide)
  | above => .of ".." (by decide)
  | below name _ _ => name

def Target.text (target : Target) : String := target.name.text

def Target.ofName (name : Name) : Target :=
  if hroot : name.text = "/" then root
  else if habove : name.text = ".." then above
  else below name hroot habove

theorem Target.text_ofName (name : Name) : (ofName name).text = name.text := by
  rw [ofName]
  split
  · rename_i hroot
    exact hroot.symm
  · split
    · rename_i habove
      exact habove.symm
    · rfl

theorem Target.ofName_name (target : Target) : ofName target.name = target := by
  cases target with
  | root => rfl
  | above => rfl
  | below name hroot habove => rw [Target.name, ofName, dif_neg hroot, dif_neg habove]

inductive Command where
  | enter (target : Target)
  | list (entries : List Entry)

def Command.lines : Command → List String
  | enter target => ["$ cd " ++ target.text]
  | list entries => "$ ls" :: entries.map Entry.line

end Walk

open Walk (Entry Target Command)

/-- Where a walk is, and what it has seen. -/
structure Walk where
  /-- The names on the way down from the root; nothing before the root is entered. -/
  here : Option (List String)
  /-- The listings, each with the directory it was made in, the latest first. -/
  listed : List (List String × List Entry)

namespace Walk

def start : Walk := ⟨none, []⟩

/-- The names on the way down to the target. The root has nothing above. -/
def goTo? (w : Walk) : Target → Option (List String)
  | .root => some []
  | .above => w.here.bind fun names => if names = [] then none else some names.dropLast
  | .below name _ _ => w.here.map fun names => names ++ [name.text]

/-- Only the root can be entered from nowhere, and nothing can be listed there. -/
def step (w : Walk) : Command → Option Walk
  | .enter target => (w.goTo? target).map fun names => { w with here := some names }
  | .list entries => w.here.map fun names => { w with listed := (names, entries) :: w.listed }

def run (w : Walk) (commands : List Command) : Option Walk := commands.foldlM step w

def listingKey (names : List String) : String := "dir:/" ++ "/".intercalate names

def latest? (w : Walk) (key : String) : Option (List Entry) :=
  (w.listed.find? fun listing => listingKey listing.1 = key).map Prod.snd

/-- What is kept under a key. -/
def value? (w : Walk) (key : String) : Option Value :=
  if key = "cwd" then w.here.map fun names => .list (names.map Value.str)
  else (w.latest? key).map fun entries => .list (entries.map Entry.record)

/-- The context holds what is kept of the walk and nothing else. -/
def Describes (w : Walk) (c : Context) : Prop := ∀ key, c.find? key = w.value? key

variable {w w' : Walk} {c : Context}

theorem describes_start : start.Describes .empty := by
  intro key
  rw [Keyed.find?_empty, value?]
  split <;> rfl

/-- What holds of the names on the way down and of each name that may be entered holds on the way to a target. -/
theorem forall_goTo? {P : String → Prop} (hP : ∀ name : Name, name.text ≠ "/" → name.text ≠ ".." → P name.text)
    (h : ∀ names ∈ w.here, ∀ name ∈ names, P name) {target : Target} {names : List String}
    (hnames : w.goTo? target = some names) : ∀ name ∈ names, P name := by
  cases target with
  | root =>
    obtain rfl := Option.some.inj hnames
    exact nofun
  | above =>
    obtain ⟨here, hhere, hnames⟩ := Option.bind_eq_some_iff.1 hnames
    split at hnames
    · exact nomatch hnames
    · obtain rfl := Option.some.inj hnames
      exact fun name hname => h here hhere name (List.dropLast_subset _ hname)
  | below name hroot habove =>
    obtain ⟨here, hhere, rfl⟩ := Option.map_eq_some_iff.1 hnames
    exact List.forall_mem_append.2 ⟨h here hhere, List.forall_mem_singleton.2 (hP name hroot habove)⟩

/-! ## Runs -/

@[simp] theorem run_nil (w : Walk) : w.run [] = some w := rfl

@[simp] theorem run_cons (w : Walk) (command : Command) (commands : List Command) :
    w.run (command :: commands) = (w.step command).bind fun w => w.run commands := List.foldlM_cons

/-- A run that ends early ends at a first command that is refused. -/
theorem exists_refused {commands : List Command} (h : w.run commands = none) :
    ∃ before command after w', commands = before ++ command :: after ∧ w.run before = some w' ∧
      w'.step command = none := by
  induction commands generalizing w with
  | nil => exact nomatch h
  | cons command commands ih =>
    cases hstep : w.step command with
    | none => exact ⟨[], command, commands, w, rfl, rfl, hstep⟩
    | some next =>
      rw [run_cons, hstep] at h
      obtain ⟨before, refused, after, w', rfl, hbefore, hrefused⟩ := ih h
      refine ⟨command :: before, refused, after, w', rfl, ?_, hrefused⟩
      rw [run_cons, hstep]
      exact hbefore

/-! ## Contexts -/

theorem listingKey_ne (names : List String) : listingKey names ≠ "cwd" := by
  intro h
  have := congrArg String.toList h
  simp [listingKey] at this

theorem mark_append_path (names : List String) :
    Directory.listingMark ++ Directory.path (names.map Value.str) = listingKey names := by
  rw [Directory.path_names, ← String.append_assoc]
  rfl

namespace Describes

theorem working? (h : w.Describes c) : Directory.working? c =
    w.here.elim (.error .unset) fun names => .ok (names.map Value.str) := by
  rw [Directory.working?, Directory.workingKey, h "cwd", value?, if_pos rfl]
  cases w.here <;> rfl

/-- Why a target is refused depends on whether there is a working directory. -/
theorem resolve (h : w.Describes c) (target : Target) : Directory.resolve c target.text =
    (w.goTo? target).elim (.error (w.here.elim .unset fun _ => .aboveRoot)) fun names =>
      .ok (names.map Value.str) := by
  rw [Directory.resolve, h.working?]
  cases target with
  | root => rfl
  | above =>
    rw [Target.text, Target.name, if_neg (by decide), goTo?]
    cases w.here with
    | none => rfl
    | some names => cases names <;> simp
  | below name hroot habove =>
    rw [Target.text, Target.name, if_neg hroot, goTo?]
    cases w.here with
    | none => rfl
    | some names => simp [habove]

theorem change (h : w.Describes c) {target : Target} (hstep : w.step (.enter target) = some w') :
    ∃ c', Directory.change c target.text = .ok c' ∧ w'.Describes c' := by
  obtain ⟨names, hnames, rfl⟩ := Option.map_eq_some_iff.1 hstep
  refine ⟨c.insert "cwd" (.list (names.map Value.str)), ?_, fun key => ?_⟩
  · rw [Directory.change, h.resolve, hnames]
    rfl
  · rw [Keyed.find?_insert, h key, value?, value?]
    split <;> rfl

theorem change_refused (h : w.Describes c) {target : Target} (hstep : w.step (.enter target) = none) :
    ∃ refusal, Directory.change c target.text = .error refusal := by
  have hnowhere := Option.map_eq_none_iff.1 hstep
  rw [Directory.change, h.resolve, hnowhere]
  exact ⟨_, rfl⟩

theorem file (h : w.Describes c) {entries : List Entry} (hstep : w.step (.list entries) = some w') :
    ∃ names, Directory.working? c = .ok names ∧
      w'.Describes (Directory.file c names (entries.map Entry.record)) := by
  obtain ⟨names, hnames, rfl⟩ := Option.map_eq_some_iff.1 hstep
  refine ⟨names.map Value.str, ?_, fun key => ?_⟩
  · rw [h.working?, hnames]
    rfl
  · rw [Directory.file, mark_append_path, Keyed.find?_insert, h key, value?, value?, latest?, latest?,
      List.find?_cons]
    by_cases hkey : key = listingKey names
    · simp [hkey, listingKey_ne]
    · simp [hkey, Ne.symm hkey]

theorem file_refused (h : w.Describes c) {entries : List Entry} (hstep : w.step (.list entries) = none) :
    Directory.working? c = .error .unset := by
  have hnowhere := Option.map_eq_none_iff.1 hstep
  rw [h.working?, hnowhere]
  rfl

end Describes

end Walk

end StackParser
