import Templating.Path

/-!
# Template directories

A project finds its templates in directories of different priority. Directories are registered
while the project is set up; the first time that a name is resolved the search path is sorted and
locked, so that every template is found with the same search path.

A name that does not end in the template extension resolves to itself. So does one that is under
the project root and exists. Otherwise the directories are asked from the highest priority to the
lowest, the most recently registered first among equals.
-/

namespace Templating

/-- The extension of templates unless another one is set. -/
def defaultExtension : String := "tmpl"

/-- The priority that a directory is registered with. -/
inductive Priority where
  /-- The number of directories registered so far, so that later ones are searched first. -/
  | byCount
  /-- The highest priority there is. -/
  | maximum
  | explicit (value : Int64)
  deriving DecidableEq, Repr

/-- Asks for the highest priority or for none in particular. -/
def Priority.ofBool (highest : Bool) : Priority :=
  if highest then .maximum else .byCount

/-- The number that a priority comes to with `count` other directories. -/
def Priority.value (count : Nat) : Priority → Int64
  | .byCount => Int64.ofNat count
  | .maximum => Int64.maxValue
  | .explicit value => value

/-- A registered directory. -/
structure Directory where
  path : String
  priority : Int64
  /-- How many registrations were made before this one. -/
  sequence : Nat
  deriving DecidableEq, Repr

/-- Whether the first directory is searched before the second. -/
def Directory.before (first second : Directory) : Bool :=
  second.priority < first.priority ||
    (first.priority = second.priority && second.sequence ≤ first.sequence)

/-- A directory was registered after the search path had been locked. -/
structure LateDirectory where
  path : String
  deriving DecidableEq, Repr

/-- The text that is shown to the user. -/
def LateDirectory.message (late : LateDirectory) : String :=
  s!"template directory {late.path} cannot be added, the resolver is locked"

/-- The directories of a project. -/
structure Directories where
  projectRoot : String
  extension : String := defaultExtension
  /-- In the order of registration, or of the search once they are locked. -/
  entries : List Directory := []
  nextSequence : Nat := 0
  locked : Bool := false
  deriving DecidableEq, Repr

namespace Directories

/-- No directories yet, for the project at `projectRoot`. -/
def new (projectRoot : String) : Directories :=
  { projectRoot := Path.normalize projectRoot }

/-- Sets the template extension, with or without leading dots. -/
def withExtension (directories : Directories) (extension : String) : Directories :=
  { directories with extension := String.ofList (extension.toList.dropWhile (· = '.')) }

/-- Sorts directories into the order of the search. -/
def sort (entries : List Directory) : List Directory :=
  entries.mergeSort Directory.before

/-- The directories in the order of the search. -/
def inSearchOrder (directories : Directories) : List Directory :=
  if directories.locked then directories.entries else sort directories.entries

/-- Registers a directory in place of any earlier registration of its path. -/
def tryAdd (directories : Directories) (path : String) (priority : Priority) :
    Except LateDirectory Directories :=
  let path := Path.normalize path
  if directories.locked then
    .error ⟨path⟩
  else
    let others := directories.entries.filter (·.path ≠ path)
    .ok { directories with
      entries := others ++ [⟨path, priority.value others.length, directories.nextSequence⟩]
      nextSequence := directories.nextSequence + 1 }

/-- Registers a directory; nothing happens when the search path is locked. -/
def add (directories : Directories) (path : String) (priority : Priority) : Directories :=
  match directories.tryAdd path priority with
  | .ok grown => grown
  | .error _ => directories

/-- Sorts the directories for good. -/
def lock (directories : Directories) : Directories :=
  { directories with entries := directories.inSearchOrder, locked := true }

/-- Whether a name is the name of a template. -/
def isTemplate (directories : Directories) (name : String) : Bool :=
  Path.hasExtension directories.extension name

/-- The path at which a directory serves a template, given which paths exist: the path itself when
it is under the directory, or the one joined to it. -/
def serve (present : String → Bool) (template : String) (directory : Directory) : Option String :=
  if Path.isUnder template directory.path && present directory.path then
    some template
  else
    let candidate := Path.join directory.path template
    if present candidate then some candidate else none

/-- The path of a template in a search path, given which paths exist. -/
def search (directories : Directories) (present : String → Bool) (name : String) : String :=
  if directories.isTemplate name then
    let template := Path.normalize name
    if Path.isUnder template directories.projectRoot && present template then
      template
    else
      (directories.inSearchOrder.findSome? (serve present template)).getD name
  else
    name

/-- The path of a template, given which paths exist, and the locked search path. -/
def resolve (directories : Directories) (present : String → Bool) (name : String) :
    String × Directories :=
  let locked := directories.lock
  (locked.search present name, locked)

/-! ## First facts -/

theorem inSearchOrder_lock (directories : Directories) :
    directories.lock.inSearchOrder = directories.inSearchOrder := rfl

/-- A locked search path takes no more directories. -/
theorem tryAdd_of_locked {directories : Directories} (locked : directories.locked = true)
    (path : String) (priority : Priority) :
    directories.tryAdd path priority = .error ⟨Path.normalize path⟩ := by
  simp [tryAdd, locked]

/-- Locking finds the same paths. -/
theorem search_lock (directories : Directories) (present : String → Bool) (name : String) :
    directories.lock.search present name = directories.search present name := rfl

end Directories

end Templating
