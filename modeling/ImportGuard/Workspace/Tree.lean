import ImportGuard.Workspace.Path

/-!
# Files and folders

A workspace is a tree of folders and files, and one of the folders is where the program runs.  Looking
up a path goes part by part from there, or from the top if the path starts with a slash; `..` goes
back, which needs the part before it to be a folder, and from the top leads to the top.

Files have numbers, and what reading a file gives belongs to its number.  So all paths that lead to a
file read the same, however they are written, and a file that cannot be read can be read by none of
them.
-/

namespace ImportGuard

inductive Entry where
  | file (number : Nat)
  | folder (entries : List (String × Entry))
deriving Repr, Inhabited

inductive AccessError where
  /-- There is nothing at the path. -/
  | missing
  | denied
  /-- The path goes on behind a file. -/
  | notFolder
  | isFolder
deriving DecidableEq, Repr, Inhabited

def AccessError.message : AccessError → String
  | .missing => "[Errno 2] No such file or directory"
  | .denied => "[Errno 13] Permission denied"
  | .notFolder => "[Errno 20] Not a directory"
  | .isFolder => "[Errno 21] Is a directory"

namespace Entry

def isFolder : Entry → Bool
  | .folder _ => true
  | .file _ => false

def isFile (entry : Entry) : Bool :=
  !entry.isFolder

def entries : Entry → List (String × Entry)
  | .folder entries => entries
  | .file _ => []

mutual

/-- The tree with the members of every folder in the order of their names. -/
def arranged : Entry → Entry
  | .file number => .file number
  | .folder entries => .folder ((arrangedAll entries).mergeSort fun a b => !(b.1 < a.1))

def arrangedAll : List (String × Entry) → List (String × Entry)
  | [] => []
  | (name, entry) :: rest => (name, entry.arranged) :: arrangedAll rest

end

/-- Changes the member of a folder with a name; `none` stands for no such member. -/
def alter (name : String) (change : Option Entry → Entry) :
    List (String × Entry) → List (String × Entry)
  | [] => [(name, change none)]
  | (name', entry) :: rest =>
    if name' = name then (name, change (some entry)) :: rest
    else (name', entry) :: alter name change rest

/-- Puts an entry at a path, with the folders above it. -/
def put (entry : Entry) : List String → Option Entry → Entry
  | [], old =>
    match entry, old with
    | .folder [], some (.folder entries) => .folder entries
    | entry, _ => entry
  | part :: parts, old =>
    .folder (alter part (put entry parts) ((old.map entries).getD []))

/-- Looks a path up, where `above` are the folders around the entry, the nearest first. -/
def lookup (above : List Entry) (entry : Entry) : List String → Except AccessError Entry
  | [] => .ok entry
  | part :: parts =>
    match entry with
    | .file _ => .error .notFolder
    | .folder entries =>
      if part = ".." then
        match above with
        | [] => lookup [] entry parts
        | parent :: above => lookup above parent parts
      else
        match entries.lookup part with
        | none => .error .missing
        | some member => lookup (entry :: above) member parts

end Entry

structure Workspace where
  top : Entry := .folder []
  /-- The names that lead from the top to the folder where the program runs. -/
  start : List String := []
  /-- What reading a file gives, by its number. -/
  contents : List (Except AccessError (List UInt8)) := []
deriving Repr, Inhabited

namespace Workspace

def partsOf (workspace : Workspace) (path : Path) : List String :=
  if path.root = .here then workspace.start ++ path.parts else path.parts

def add (workspace : Workspace) (path : Path) (entry : Entry) : Workspace :=
  { workspace with top := Entry.put entry (workspace.partsOf path) (some workspace.top) }

/-- Adds a file of which reading gives `content`. -/
def addFile (workspace : Workspace) (path : Path) (content : Except AccessError (List UInt8)) :
    Workspace :=
  { workspace.add path (.file workspace.contents.length) with
    contents := workspace.contents ++ [content] }

def lookup (workspace : Workspace) (path : Path) : Except AccessError Entry :=
  Entry.lookup [] workspace.top (workspace.partsOf path)

def get? (workspace : Workspace) (path : Path) : Option Entry :=
  (workspace.lookup path).toOption

def isFolder (workspace : Workspace) (path : Path) : Bool :=
  (workspace.get? path).any Entry.isFolder

def isFile (workspace : Workspace) (path : Path) : Bool :=
  (workspace.get? path).any Entry.isFile

/-- **Reads the file at a path.** -/
def read (workspace : Workspace) (path : Path) : Except AccessError (List UInt8) :=
  match workspace.lookup path with
  | .error why => .error why
  | .ok (.folder _) => .error .isFolder
  | .ok (.file number) => workspace.contents.getD number (.error .missing)

def fail (workspace : Workspace) (number : Nat) (why : AccessError) : Workspace :=
  { workspace with contents := workspace.contents.set number (.error why) }

end Workspace

end ImportGuard
