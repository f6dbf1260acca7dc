import ImportGuard.Program

/-!
# The program

The names of the files that the program may look at come on standard input, one on a line, as
`find .` prints them; a name that ends with a slash is a folder.  Findings go to standard output, and
notes and messages to standard error.
-/

namespace ImportGuard

/-- The names on standard input. -/
partial def readNames (stdin : IO.FS.Stream) (names : List String) : IO (List String) := do
  let line ← stdin.getLine
  if line.isEmpty then return names.reverse
  readNames stdin (String.ofList (Pieces.dropEndWhile (· = '\n') line.toList) :: names)

/-- Adds the file or folder with a name to a workspace.  A file that cannot be read stays
unreadable. -/
def addNamed (workspace : Workspace) (name : String) : IO Workspace := do
  let path := Path.ofString name
  if name.endsWith "/" then return workspace.add path (.folder [])
  try
    let content ← IO.FS.readBinFile name
    return workspace.addFile path (.ok content.toList)
  catch _ =>
    return workspace.addFile path (.error .denied)

def readEnvironment : IO (List (String × String)) := do
  let fields : List Field := [.paths, .ignoreTests, .excludeDirs, .logLevel, .logFile]
  let names := fields.map fun field => (Settings.variableStart ++ field.name).toUpper
  names.filterMapM fun name => do
    return (← IO.getEnv name).map fun value => (name, value)

def noteLine (note : Note) : String :=
  Pieces.padRight 8 note.level.name ++ " | " ++ note.part ++ " | " ++ note.message

def crashLine : Crash → String
  | .settings (.unparsable source) => source.message
  | .settings (.invalid rejection) => rejection.account
  | .settings .badKey => "a key of the configuration file is no text"
  | .settings .undecodable => "a file is no text"
  | .settings (.unreadable why) => why.message
  | .settings (.config error) => error.message
  | .markup => "the tags of a message do not match"
  | .journal why => why.message
  | .journalFolder => "a file stands where a folder should be"

end ImportGuard

open ImportGuard in
/-- Runs the program on the files that standard input names. -/
def main (arguments : List String) : IO UInt32 := do
  let names ← readNames (← IO.getStdin) []
  let start := (Path.ofString (← IO.currentDir).toString).parts
  let empty : Workspace := { start := start }
  let workspace ← names.foldlM addNamed (empty.add {} (.folder []))
  let outcome := CommandLine.run programServices workspace (← readEnvironment) arguments
  IO.print outcome.stdout
  for note in outcome.notes do
    IO.eprintln (noteLine note)
  IO.eprint (outcome.stderr.getD CommandLine.usageLine)
  if let some crash := outcome.crash then
    IO.eprintln (crashLine crash)
  for (path, notes) in outcome.journal.pages do
    IO.FS.withFile path.render .append fun handle =>
      notes.forM fun note => handle.putStrLn (noteLine note)
  return outcome.exitCode.toUInt32
