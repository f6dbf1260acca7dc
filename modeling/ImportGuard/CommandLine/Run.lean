import ImportGuard.CommandLine.Options
import ImportGuard.CommandLine.Summary
import ImportGuard.Journal.Pages
import ImportGuard.Settings.Json
import ImportGuard.Settings.Load

/-!
# Running the program

A run reads its options, loads its settings, opens its journal, checks the packages and prints what
it found.  It ends with a code: zero if nothing was found, three if something was, one if it could not
do its work, two if it was used wrongly.  A fault that the program does not expect ends it with code
one and is told by its cause.

Reading Go and settings and showing text with markup is the work of `Services`.
-/

namespace ImportGuard

/-- A cause that ends the program without a message of its own. -/
inductive Crash where
  /-- Settings cannot be loaded. -/
  | settings (error : LoadError)
  /-- A message has tags that do not match. -/
  | markup
  /-- The journal's file cannot be opened. -/
  | journal (why : AccessError)
  /-- A file stands where the journal's folder should be. -/
  | journalFolder
deriving DecidableEq, Repr, Inhabited

structure Outcome where
  exitCode : Nat
  stdout : String := ""
  /-- What is printed besides notes; `none` for the explanation of wrong use. -/
  stderr : Option String := some ""
  /-- The notes that pass the journal's level. -/
  notes : List Note := []
  journal : Journal := {}
  crash : Option Crash := none
deriving Repr, Inhabited

/-- What a run leaves to others. -/
structure Services where
  parse : Parser
  readers : Readers
  /-- What the terminal shows of a text with markup; `none` if the tags do not match. -/
  console : String → Option String

namespace CommandLine

def versionLine : String := toolName ++ " version 0.1.0 (unknown)\n"

def usageLine : String := "Usage: " ++ toolName ++ " [OPTIONS] [PACKAGES]...\n"

def reply : Question → String
  | .version => versionLine
  | .help => usageLine

/-- An error message with the markup for its style. -/
def marked (message : String) : String :=
  "[red]" ++ message ++ "[/red]"

def failWith (services : Services) (outcome : Outcome) (message : String) : Outcome :=
  match services.console (marked message) with
  | none => { outcome with exitCode := 1, crash := some .markup }
  | some text => { outcome with exitCode := 1, stderr := some (text ++ "\n") }

/-- Why the folder for the journal's file cannot be had at a path: `none` if it can. -/
def folderFault (workspace : Workspace) (path : Path) : Option Crash :=
  match workspace.lookup path with
  | .ok (.folder _) => none
  | .ok (.file _) => some .journalFolder
  | .error .notFolder => some (.journal .notFolder)
  | .error _ => none

/-- Why the journal's file cannot be opened: `none` if it can. -/
def journalFault (workspace : Workspace) (file : Option Path) : Option Crash :=
  match file with
  | none => none
  | some path =>
    match folderFault workspace path.parent with
    | some fault => some fault
    | none => if workspace.isFolder path then some (.journal .isFolder) else none

def diagnosticJson (diagnostic : Diagnostic) : String :=
  let position := diagnostic.position
  let line (name value : String) : String := "    " ++ Json.writeString name ++ ": " ++ value
  "  \x7b\n" ++ ",\n".intercalate
    [line "filename" (Json.writeString position.filename), line "line" (toString position.line),
     line "column" (toString position.column), line "offset" (toString position.offset),
     line "message" (Json.writeString diagnostic.message),
     line "category" (Json.writeString Diagnostic.category)] ++ "\n  \x7d"

def findingsJson (findings : List Finding) : String :=
  if findings.isEmpty then "[]\n"
  else "[\n" ++ ",\n".intercalate (findings.map (diagnosticJson ·.diagnostic)) ++ "\n]\n"

def printed (json : Bool) (report : CheckReport) : String :=
  if json then findingsJson report.findings
  else String.join (report.findings.map fun finding => finding.render ++ "\n")

def override (options : Options) (settings : Settings) : Settings :=
  { settings with
    paths := options.paths.getD settings.paths
    ignoreTests := options.ignoreTests.getD settings.ignoreTests }

def check (services : Services) (workspace : Workspace) (options : Options)
    (settings : Settings) : Outcome :=
  let level := if options.verbose then .debug else settings.logLevel
  let checker : Checker :=
    { parse := services.parse
      analyzer := Analyzer.ofPolicy settings.paths settings.ignoreTests
      excluded := settings.excludeDirs }
  let (result, notes) := workspace.check checker options.packages
  let (kept, journal) := (({} : Journal).setUp level settings.logFile).take notes
  let outcome : Outcome := { exitCode := 0, notes := kept, journal := journal }
  match result with
  | .error error => failWith services outcome error.message
  | .ok report =>
    { outcome with
      exitCode := if report.hasFindings then 3 else 0
      stdout := printed options.json report
      stderr :=
        if options.verbose then some (String.join ((Summary.ofReport report).map (· ++ "\n")))
        else some "" }

def work (services : Services) (workspace : Workspace) (environment : List (String × String))
    (options : Options) : Outcome :=
  match Settings.loadFrom services.readers workspace environment
      (options.config.map Path.ofString) with
  | .error (.config error) => failWith services { exitCode := 1 } error.message
  | .error error => { exitCode := 1, crash := some (.settings error) }
  | .ok settings =>
    let settings := override options settings
    match journalFault workspace settings.logFile with
    | some fault => { exitCode := 1, crash := some fault }
    | none => check services workspace options settings

/-- **Runs the program.** -/
def run (services : Services) (workspace : Workspace) (environment : List (String × String))
    (arguments : List String) : Outcome :=
  match Options.parse arguments with
  | none => { exitCode := 2, stderr := none }
  | some options =>
    match options.question with
    | some question => { exitCode := 0, stdout := reply question }
    | none => work services workspace environment options

end CommandLine

end ImportGuard
