import ImportGuard.Journal
import ImportGuard.Settings.Value
import ImportGuard.Workspace.Path

/-!
# Settings

Settings are five fields.  A field takes its value from the first source that has one: the values
given, the variables of the environment, a file of variables, and last the default.  Only that value has
to fit.  A value that does not is a complaint, and settings are rejected with all complaints in the
order of the fields, and an account of them in words.
-/

namespace ImportGuard

structure Settings where
  /-- The policy. -/
  paths : String := ""
  ignoreTests : Bool := false
  /-- Names of folders that are left out below a folder. -/
  excludeDirs : List String := ["vendor", "testdata"]
  logLevel : Level := .warning
  logFile : Option Path := none
deriving DecidableEq, Repr, Inhabited

inductive Field where
  | paths
  | ignoreTests
  | excludeDirs
  | logLevel
  | logFile
deriving DecidableEq, Repr, Inhabited

def Field.name : Field → String
  | .paths => "paths"
  | .ignoreTests => "ignore_tests"
  | .excludeDirs => "exclude_dirs"
  | .logLevel => "log_level"
  | .logFile => "log_file"

inductive Misfit where
  /-- The value is no text. -/
  | notText
  /-- The text or number is no truth value. -/
  | noTruthValue
  /-- The value is of no kind that can be a truth value. -/
  | notTruthKind
  /-- The value is no list. -/
  | notList
  /-- The value is none of the levels. -/
  | notLevel
  /-- The value is no path. -/
  | notPath
deriving DecidableEq, Repr, Inhabited

namespace Misfit

def name : Misfit → String
  | notText => "string_type"
  | noTruthValue => "bool_parsing"
  | notTruthKind => "bool_type"
  | notList => "list_type"
  | notLevel => "literal_error"
  | notPath => "path_type"

def message : Misfit → String
  | notText => "Input should be a valid string"
  | noTruthValue => "Input should be a valid boolean, unable to interpret input"
  | notTruthKind => "Input should be a valid boolean"
  | notList => "Input should be a valid list"
  | notLevel => "Input should be 'DEBUG', 'INFO', 'WARNING' or 'ERROR'"
  | notPath => "Input is not a valid path"

end Misfit

/-- A value that does not fit: its field, its place in a list, and why. -/
structure Complaint where
  field : Field
  item : Option Nat := none
  misfit : Misfit
deriving DecidableEq, Repr, Inhabited

/-- What is wrong with values that do not fit: the complaints, and an account of them. -/
structure Rejection where
  complaints : List Complaint
  account : String
deriving DecidableEq, Repr, Inhabited

namespace Settings

def yesWords : List String := ["1", "on", "t", "true", "y", "yes"]

def noWords : List String := ["0", "off", "f", "false", "n", "no"]

/-- The truth value of a word, in any case. -/
def truth? (word : String) : Option Bool :=
  if yesWords.contains word.toLower then some true
  else if noWords.contains word.toLower then some false
  else none

def text : Value → Except Misfit String
  | .text s => .ok s
  | _ => .error .notText

def truth : Value → Except Misfit Bool
  | .bool b => .ok b
  | .integer n => if n = 0 then .ok false else if n = 1 then .ok true else .error .noTruthValue
  | .decimal (some d) =>
    if d.isZero then .ok false else if d.isOne then .ok true else .error .notTruthKind
  | .text s =>
    match truth? s with
    | some b => .ok b
    | none => .error .noTruthValue
  | _ => .error .notTruthKind

def level : Value → Except Misfit Level
  | .text s =>
    match Level.ofName? s with
    | some level => .ok level
    | none => .error .notLevel
  | _ => .error .notLevel

def path : Value → Except Misfit (Option Path)
  | .null => .ok none
  | .text s => .ok (some (Path.ofString s))
  | _ => .error .notPath

/-- The texts in a list, or a complaint for each member that is none. -/
def texts (field : Field) : Value → Except (List Complaint) (List String)
  | .list items =>
    let complaints := items.zipIdx.filterMap fun (item, i) =>
      match text item with
      | .ok _ => none
      | .error misfit => some ⟨field, some i, misfit⟩
    if complaints.isEmpty then
      .ok (items.filterMap fun item => (text item).toOption)
    else .error complaints
  | _ => .error [⟨field, none, .notList⟩]

/-- A field's value: the default if none is given, or a complaint. -/
def fit {α : Type} (field : Field) (read : Value → Except Misfit α) (default : α)
    (given : Option Value) : Except (List Complaint) α :=
  match given with
  | none => .ok default
  | some value =>
    match read value with
    | .ok found => .ok found
    | .error misfit => .error [⟨field, none, misfit⟩]

def complaintsOf {α : Type} : Except (List Complaint) α → List Complaint
  | .ok _ => []
  | .error complaints => complaints

/-- **The settings from the values given for fields**, or all complaints in the order of the
fields. -/
def ofValues (given : Field → Option Value) : Except (List Complaint) Settings :=
  let defaults : Settings := {}
  let paths := fit .paths text defaults.paths (given .paths)
  let ignoreTests := fit .ignoreTests truth defaults.ignoreTests (given .ignoreTests)
  let excludeDirs : Except (List Complaint) (List String) := match given .excludeDirs with
    | none => .ok defaults.excludeDirs
    | some value => texts .excludeDirs value
  let logLevel := fit .logLevel level defaults.logLevel (given .logLevel)
  let logFile := fit .logFile path defaults.logFile (given .logFile)
  match paths, ignoreTests, excludeDirs, logLevel, logFile with
  | .ok paths, .ok ignoreTests, .ok excludeDirs, .ok logLevel, .ok logFile =>
    .ok ⟨paths, ignoreTests, excludeDirs, logLevel, logFile⟩
  | paths, ignoreTests, excludeDirs, logLevel, logFile =>
    .error (complaintsOf paths ++ complaintsOf ignoreTests ++ complaintsOf excludeDirs ++
      complaintsOf logLevel ++ complaintsOf logFile)

def valueOf (given : Field → Option Value) (complaint : Complaint) : Value :=
  match given complaint.field, complaint.item with
  | some (.list items), some i => items.getD i .null
  | value, _ => value.getD .null

/-- What is said of one complaint: its place, and in brackets the value that does not fit. -/
def complaintLines (given : Field → Option Value) (complaint : Complaint) : String :=
  let value := valueOf given complaint
  let place := complaint.field.name :: (complaint.item.map toString).toList
  ".".intercalate place ++ "\n  " ++ complaint.misfit.message ++ " [type=" ++
    complaint.misfit.name ++ ", input_value=" ++ value.words ++ ", input_type=" ++ value.kindName ++
    "]"

def account (given : Field → Option Value) (complaints : List Complaint) : String :=
  "\n".intercalate ((toString complaints.length ++ " invalid values") ::
    complaints.map (complaintLines given))

def givenValue (given : List (Value × Value)) (field : Field) : Option Value :=
  (given.find? fun (key, _) =>
    match key with
    | .text name => name = field.name
    | _ => false).map (·.2)

/-- **The settings from values given and from two sources of variables.** -/
def ofSources (given : List (Value × Value)) (environment dotEnv : Field → Option Value) :
    Except Rejection Settings :=
  let value (field : Field) : Option Value :=
    ((givenValue given field).orElse fun _ => environment field).orElse fun _ => dotEnv field
  match ofValues value with
  | .ok settings => .ok settings
  | .error complaints => .error ⟨complaints, account value complaints⟩

end Settings

end ImportGuard
