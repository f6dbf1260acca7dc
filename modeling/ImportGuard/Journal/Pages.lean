import ImportGuard.Journal
import ImportGuard.Workspace.Path

/-!
# Keeping a journal

A journal has a level and shows the notes at or above it on the terminal.  It can also have a file,
to which the same notes are added.  Setting it up anew changes the level and the file, and leaves what
earlier files hold.
-/

namespace ImportGuard

/-- A journal: its level, its file, and the notes in all files. -/
structure Journal where
  level : Level := .warning
  file : Option Path := none
  pages : List (Path × List Note) := []
deriving DecidableEq, Repr, Inhabited

/-- Where a journal sends its notes. -/
inductive Outlet where
  | terminal
  | file
deriving DecidableEq, Repr, Inhabited

namespace Journal

def setUp (journal : Journal) (level : Level) (file : Option Path) : Journal :=
  { journal with level := level, file := file }

/-- The outlets with their own levels: the file takes all that the journal lets pass. -/
def outlets (journal : Journal) : List (Outlet × Level) :=
  (.terminal, journal.level) :: (if journal.file.isSome then [(.file, .debug)] else [])

def write (path : Path) (notes : List Note) :
    List (Path × List Note) → List (Path × List Note)
  | [] => [(path, notes)]
  | (path', page) :: rest =>
    if path' = path then (path, page ++ notes) :: rest else (path', page) :: write path notes rest

/-- Takes notes: those that are kept, and the journal with them. -/
def take (journal : Journal) (notes : List Note) : List Note × Journal :=
  let kept := atLevel journal.level notes
  match journal.file with
  | none => (kept, journal)
  | some path => (kept, { journal with pages := write path kept journal.pages })

def page (journal : Journal) (path : Path) : List Note :=
  (journal.pages.lookup path).getD []

def phase (part : String) (name : String) (fails : Bool) : List Note :=
  [phaseBegins part name, if fails then phaseFailed part name else phaseDone part name]

end Journal

end ImportGuard
