import ImportGuard.Analysis
import ImportGuard.Workspace.Packages

/-!
# Checking packages

A check reads the files of each package in order and analyses those that can be read.  A file that
cannot be read is noted and does not stop the check.  The findings of all packages come in the order
of their positions.
-/

namespace ImportGuard

structure CheckReport where
  findings : List Finding := []
  filesChecked : Nat := 0
  packagesChecked : Nat := 0
  /-- The files that could not be read, and why. -/
  unreadable : List SourceError := []
  notes : List Note := []
deriving Repr, Inhabited

namespace CheckReport

def hasFindings (report : CheckReport) : Bool :=
  !report.findings.isEmpty

end CheckReport

/-- What checks are made with. -/
structure Checker where
  parse : Parser
  analyzer : Analyzer
  /-- Names of folders that are left out below a folder. -/
  excluded : List String

namespace Workspace

def readSource (workspace : Workspace) (parse : Parser) (path : Path) :
    Except SourceError SourceFile :=
  match workspace.read path with
  | .error why => .error (.unreadable path why)
  | .ok content => .ok (SourceFile.read parse path.render content)

def readable (results : List (Except SourceError SourceFile)) : List SourceFile :=
  results.filterMap Except.toOption

def failures (results : List (Except SourceError SourceFile)) : List SourceError :=
  results.filterMap fun
    | .error error => some error
    | .ok _ => none

def readNotes : Except SourceError SourceFile → List Note
  | .error error => [⟨.warning, checkerPart, error.message⟩]
  | .ok file => file.notes

def checkPackage (workspace : Workspace) (checker : Checker) (report : CheckReport)
    (files : List Path) : CheckReport :=
  let results := (Path.sort files).map (workspace.readSource checker.parse)
  let sources := readable results
  let reports := checker.analyzer.run sources
  { findings := report.findings ++ reports.flatMap (·.findings)
    filesChecked := report.filesChecked + sources.length
    packagesChecked := report.packagesChecked + (if sources.isEmpty then 0 else 1)
    unreadable := report.unreadable ++ failures results
    notes := report.notes ++ results.flatMap readNotes ++ reports.flatMap FileReport.notes }

def summaryNote (report : CheckReport) : Note :=
  ⟨.info, checkerPart,
    "Checked " ++ toString report.filesChecked ++ " files in " ++
      toString report.packagesChecked ++ " packages, " ++ toString report.findings.length ++
      " problems"⟩

/-- Checks packages: findings in the order of their positions, a note at the end. -/
def checkPackages (workspace : Workspace) (checker : Checker) (packages : Packages) :
    CheckReport :=
  let report := packages.foldl (fun report package =>
    workspace.checkPackage checker report package.2) {}
  { report with
    findings := Finding.sort report.findings
    notes := report.notes ++ [summaryNote report] }

/-- **Checks the packages that patterns name**, and gives the notes made on the way. -/
def check (workspace : Workspace) (checker : Checker) (patterns : List String) :
    Except SourceError CheckReport × List Note :=
  let found := workspace.packages checker.excluded patterns
  let notes := searchNotes found
  match found with
  | .error error => (.error error, notes)
  | .ok packages =>
    let report := workspace.checkPackages checker packages
    (.ok report, notes ++ report.notes)

end Workspace

end ImportGuard
