import ImportGuard.Directive
import ImportGuard.Journal
import ImportGuard.Policy.Reader
import ImportGuard.Usage.Scope

/-!
# Analysis

A file is checked against a policy rule by rule, and for each rule import by import.  An import that
nothing suppresses is looked at through its uses.  If it has none, nothing is wrong.  If the rule
forbids the package, or the uses cannot be told apart, the import is reported; otherwise each use of a
listed declaration is.

Files of tests may be left out, and a `file-ignore` in the package's documentation leaves its file
out.
-/

namespace ImportGuard

/-- What is checked, and whether files of tests are. -/
structure Analyzer where
  rules : List Rule
  ignoreTests : Bool := false
deriving DecidableEq, Repr, Inhabited

/-- How the check of a file ended. -/
inductive FileOutcome where
  /-- The file was checked. -/
  | checked
  /-- The file was left out, as one of tests. -/
  | testFile
  /-- The file asks to be left out. -/
  | ignored
deriving DecidableEq, Repr, Inhabited

/-- The result for one file: its findings in the order in which they were made. -/
structure FileReport where
  filename : String
  findings : List Finding
  outcome : FileOutcome
deriving DecidableEq, Repr, Inhabited

namespace Analyzer

def ofPolicy (policy : String) (ignoreTests : Bool) : Analyzer :=
  ⟨parsePolicy policy, ignoreTests⟩

/-- The last part of a file name, whichever way its slashes lean. -/
def baseName (filename : String) : List Char :=
  Pieces.afterLast '/' (filename.toList.map fun c => if c = '\\' then '/' else c)

def isTestFile (filename : String) : Bool :=
  Pieces.occursIn "_test.go".toList (baseName filename)

def unwantedImport (file : SourceFile) (rule : Rule) (spec : Import) : Finding :=
  ⟨file.positionOf spec.pathStart, .package spec.path rule.suggestion⟩

def unwantedUses (file : SourceFile) (rule : Rule) (spec : Import) (index : Usage.Index) :
    List Finding :=
  rule.declarations.flatMap fun name =>
    (Usage.placesOf index name).map fun place =>
      ⟨file.positionOf place, .declaration name spec.path rule.suggestion⟩

/-- What a rule finds in an import, given the uses of the import. -/
def violations (file : SourceFile) (rule : Rule) (spec : Import) (index : Usage.Index) :
    List Finding :=
  if index.isEmpty then []
  else if index.any (·.1 = Usage.unspecified) || rule.forbidsPackage then
    [unwantedImport file rule spec]
  else unwantedUses file rule spec index

def checkImport (register : Register) (map : CommentMap) (file : SourceFile) (rule : Rule)
    (spec : Import) : Inquiry Unit := do
  unless ← register.isIgnored map spec.address spec.start.offset do
    let index ← Usage.scan file.source file.root spec.qualifier spec.mode fun use =>
      register.isIgnored map use.address use.place.offset
    modify (· ++ violations file rule spec index)

def checkRule (register : Register) (map : CommentMap) (file : SourceFile) (rule : Rule) :
    Inquiry Unit :=
  (file.importsOfPath rule.importPath).forM (checkImport register map file rule)

/-- Checks a file that is not one of tests. -/
def inspect (rules : List Rule) (file : SourceFile) : Inquiry FileOutcome := do
  let register := Register.ofFile file
  if ← register.fileIsIgnored then pure .ignored
  else
    rules.forM (checkRule register (CommentMap.ofFile file).arrange file)
    pure .checked

/-- **Checks a file.** -/
def checkFile (analyzer : Analyzer) (file : SourceFile) : FileReport :=
  if analyzer.ignoreTests && isTestFile file.filename then ⟨file.filename, [], .testFile⟩
  else
    let (outcome, findings) := (inspect analyzer.rules file).run []
    ⟨file.filename, findings, outcome⟩

/-- Checks the files of a package; without rules there is nothing to check. -/
def run (analyzer : Analyzer) (files : List SourceFile) : List FileReport :=
  if analyzer.rules.isEmpty then [] else files.map analyzer.checkFile

end Analyzer

namespace FileReport

def notes (report : FileReport) : List Note :=
  let faults := (report.findings.filter (·.cause.isFault)).map fun finding =>
    Journal.note .debug "analyzer.directives" finding.render
  let ending := match report.outcome with
    | .checked => []
    | .testFile => [Journal.note .debug "analyzer" ("Skipping test file: " ++ report.filename)]
    | .ignored =>
      [Journal.note .debug "analyzer"
        ("Skipping file with file-ignore directive: " ++ report.filename)]
  faults ++ ending

end FileReport

def SourceFile.notes (file : SourceFile) : List Note :=
  if file.broken then
    [Journal.note .debug "source.parser"
      (file.filename ++ ": syntax errors, analyzing partial tree")]
  else []

end ImportGuard
