import ImportGuard.Journal
import ImportGuard.Text.Shown
import ImportGuard.Workspace.Tree

/-!
# Packages

Each folder with Go files is a package.  A pattern names packages: a folder, a folder and all that is
below it (`folder/...`), or a single Go file.  Below a folder, folders whose names start with a point
or an underscore are left out, and so are those in a list of names; the folder itself is not tested.

The packages of several patterns are kept in the order in which their folders are first met.
-/

namespace ImportGuard

inductive SourceError where
  /-- A pattern goes below something that is no folder. -/
  | noFolder (path : Path)
  /-- A pattern names neither a folder nor a Go file. -/
  | noPackage (pattern : String)
  /-- A file cannot be read. -/
  | unreadable (path : Path) (why : AccessError)
deriving DecidableEq, Repr, Inhabited

def SourceError.message : SourceError → String
  | .noFolder path => "no such directory: " ++ path.render
  | .noPackage pattern => "no such package: " ++ pattern
  | .unreadable path why =>
    "cannot read " ++ path.render ++ ": " ++ why.message ++ ": " ++ shown path.render

/-- Packages: folders and their Go files. -/
abbrev Packages := List (Path × List Path)

namespace Packages

/-- The files of a folder; none if it is not there. -/
def filesOf (packages : Packages) (folder : Path) : List Path :=
  (packages.lookup folder).getD []

/-- Gives a folder these files, in its old place if it has one. -/
def assign (packages : Packages) (folder : Path) (files : List Path) : Packages :=
  if packages.any (·.1 = folder) then
    packages.map fun (folder', files') =>
      if folder' = folder then (folder, files) else (folder', files')
  else packages ++ [(folder, files)]

/-- Adds a single file to its folder, once. -/
def addFile (packages : Packages) (file : Path) : Packages :=
  let files := packages.filesOf file.parent
  packages.assign file.parent (if files.contains file then files else files ++ [file])

end Packages

namespace Workspace

def goEnding : String := ".go"

/-- The Go files in the folder at a path, in order. -/
def goFilesIn (workspace : Workspace) (folder : Path) : List Path :=
  let members := ((workspace.get? folder).map Entry.entries).getD []
  let files := members.filter fun (name, entry) =>
    entry.isFile && goEnding.toList.isSuffixOf name.toList
  Path.sort (files.map fun (name, _) => folder.child name)

/-- Adds the package in a folder, if there are Go files. -/
def addFolder (workspace : Workspace) (packages : Packages) (folder : Path) : Packages :=
  match workspace.goFilesIn folder with
  | [] => packages
  | files => packages.assign folder files

def isExcluded (excluded : List String) (name : String) : Bool :=
  ".".toList.isPrefixOf name.toList || "_".toList.isPrefixOf name.toList || excluded.contains name

mutual

/-- The folders of a tree at `path`, each before those below it. -/
def foldersAt (excluded : List String) (path : Path) : Entry → List Path
  | .file _ => []
  | .folder entries => path :: foldersIn excluded path entries

/-- The folders among the members of the folder at `path`. -/
def foldersIn (excluded : List String) (path : Path) : List (String × Entry) → List Path
  | [] => []
  | (name, entry) :: rest =>
    (if isExcluded excluded name then [] else foldersAt excluded (path.child name) entry) ++
      foldersIn excluded path rest

end

/-- **The folders at and below a path**, in order. -/
def foldersBelow (workspace : Workspace) (excluded : List String) (path : Path) : List Path :=
  match workspace.get? path with
  | none => []
  | some entry => foldersAt excluded path entry.arranged

/-- What a pattern ends in that means a folder and all below it. -/
def recursiveEnding : String := "/..."

def recursiveRoot? (pattern : String) : Option Path :=
  let chars := (if pattern = "..." then "." ++ recursiveEnding else pattern).toList
  let ending := recursiveEnding.toList
  if ending.isSuffixOf chars then
    some (Path.ofString (String.ofList (chars.take (chars.length - ending.length))))
  else none

def addPattern (workspace : Workspace) (excluded : List String) (packages : Packages)
    (pattern : String) : Except SourceError Packages :=
  match recursiveRoot? pattern with
  | some root =>
    if workspace.isFolder root then
      .ok ((workspace.foldersBelow excluded root).foldl workspace.addFolder packages)
    else .error (.noFolder root)
  | none =>
    let target := Path.ofString pattern
    if workspace.isFile target && target.ending = goEnding then .ok (packages.addFile target)
    else if workspace.isFolder target then .ok (workspace.addFolder packages target)
    else .error (.noPackage pattern)

/-- **The packages that patterns name**; without patterns, all packages of the workspace. -/
def packages (workspace : Workspace) (excluded : List String) (patterns : List String) :
    Except SourceError Packages :=
  (if patterns.isEmpty then ["." ++ recursiveEnding] else patterns).foldlM
    (workspace.addPattern excluded) []

def checkerPart : String := Journal.partName (some "driver")

def searchNotes (found : Except SourceError Packages) : List Note :=
  let phase := "Discovering packages"
  Journal.phaseBegins checkerPart phase ::
    match found with
    | .error _ => [Journal.phaseFailed checkerPart phase]
    | .ok packages =>
      [⟨.info, checkerPart, "Discovered " ++ toString packages.length ++ " packages"⟩,
       Journal.phaseDone checkerPart phase]

end Workspace

end ImportGuard
