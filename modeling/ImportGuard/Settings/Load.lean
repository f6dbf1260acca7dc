import ImportGuard.Settings.Basic
import ImportGuard.Text.Utf8
import ImportGuard.Workspace.Tree

/-!
# Loading settings

Settings are made from values given, which may come from a configuration file, and from the variables
of the environment and of the file `.env`.  The variable of a field is `FAILLINT_` and its name, in any
case.  The list of folders is written in JSON in a variable, and must be readable there even if another
source wins.

A configuration file holds one document, which must be a mapping.  An empty one, or one whose value says
nothing, gives no values.

What documents, variables and JSON look like, and which values fit, is left to `Readers`.
-/

namespace ImportGuard

/-- The readers of the formats that settings are written in. -/
structure Readers where
  /-- The document in the text of a configuration file, or what is wrong with the text. -/
  document : String → Except String Value
  /-- The variables in the text of a file of variables. -/
  bindings : String → List (String × Option String)
  json : String → Option Value
  /-- The settings that values make: those given, and those that two sources of variables have. -/
  settings : List (Value × Value) → (Field → Option Value) → (Field → Option Value) →
    Except Rejection Settings

inductive VariableSource where
  | environment
  | dotEnv
deriving DecidableEq, Repr, Inhabited

inductive ConfigError where
  | notFound (path : Path)
  /-- The file cannot be read, or is malformed. -/
  | unloadable (path : Path) (account : String)
  | notMapping (path : Path)
  /-- Values do not fit. -/
  | invalid (path : Path) (rejection : Rejection)
deriving DecidableEq, Repr, Inhabited

inductive LoadError where
  /-- The configuration file is at fault. -/
  | config (error : ConfigError)
  /-- Values without a configuration file do not fit. -/
  | invalid (rejection : Rejection)
  /-- The list of folders in a variable is no JSON. -/
  | unparsable (source : VariableSource)
  /-- The configuration file has a key that is no text. -/
  | badKey
  /-- A file is no text. -/
  | undecodable
  /-- The file of variables cannot be read. -/
  | unreadable (why : AccessError)
deriving DecidableEq, Repr, Inhabited

def ConfigError.message : ConfigError → String
  | .notFound path => "config file not found: " ++ path.render
  | .unloadable path account => "cannot load config " ++ path.render ++ ": " ++ account
  | .notMapping path => "config " ++ path.render ++ " must be a mapping"
  | .invalid path rejection => "invalid config " ++ path.render ++ ": " ++ rejection.account

def VariableSource.message (source : VariableSource) : String :=
  let reader := match source with
    | .environment => "EnvSettingsSource"
    | .dotEnv => "DotEnvSettingsSource"
  "error parsing value for field \"" ++ Field.excludeDirs.name ++ "\" from source \"" ++ reader ++
    "\""

namespace Settings

def variableStart : String := "faillint_"

/-- The value of a field's variable: the last one that has the name, in any case. -/
def lastVariable (bindings : List (String × Option String)) (field : Field) : Option String :=
  let wanted := variableStart ++ field.name
  ((bindings.filter fun (name, _) => name.toLower = wanted).getLast?).bind (·.2)

/-- The value that a source of variables gives for a field.  Only the list of folders is written in
JSON; its null is no value. -/
def variableValue (readers : Readers) (source : VariableSource)
    (bindings : List (String × Option String)) (field : Field) : Except LoadError (Option Value) :=
  match lastVariable bindings field, field with
  | none, _ => .ok none
  | some text, .excludeDirs =>
    match readers.json text with
    | none => .error (.unparsable source)
    | some .null => .ok none
    | some value => .ok (some value)
  | some text, _ => .ok (some (.text text))

/-- The values that a source of variables gives, whether its list of folders can be read or not. -/
def variableValues (readers : Readers) (source : VariableSource)
    (bindings : List (String × Option String)) (field : Field) : Option Value :=
  ((variableValue readers source bindings field).toOption).join

/-- **Loads settings** from values given and two lists of variables. -/
def load (readers : Readers) (given : List (Value × Value))
    (environment dotEnv : List (String × Option String)) : Except LoadError Settings :=
  let folders := Field.excludeDirs
  match variableValue readers .environment environment folders,
    variableValue readers .dotEnv dotEnv folders with
  | .error error, _ => .error error
  | _, .error error => .error error
  | .ok _, .ok _ =>
    match readers.settings given (variableValues readers .environment environment)
        (variableValues readers .dotEnv dotEnv) with
    | .ok settings => .ok settings
    | .error rejection => .error (.invalid rejection)

def dotEnvPath : Path := Path.ofString ".env"

/-- The variables in a workspace's file of variables; none if it has no such file. -/
def dotEnvOf (readers : Readers) (workspace : Workspace) :
    Except LoadError (List (String × Option String)) :=
  if workspace.isFile dotEnvPath then
    match workspace.read dotEnvPath with
    | .error why => .error (.unreadable why)
    | .ok bytes =>
      match Utf8.decode? bytes with
      | none => .error .undecodable
      | some text => .ok (readers.bindings text)
  else .ok []

def bindingsOf (environment : List (String × String)) : List (String × Option String) :=
  environment.map fun (name, value) => (name, some value)

def loadIn (readers : Readers) (workspace : Workspace) (environment : List (String × String))
    (given : List (Value × Value)) : Except LoadError Settings :=
  match dotEnvOf readers workspace with
  | .error error => .error error
  | .ok dotEnv => load readers given (bindingsOf environment) dotEnv

def valuesOf (path : Path) (document : Value) : Except LoadError (List (Value × Value)) :=
  if document.isVoid then .ok []
  else
    match document with
    | .mapping entries =>
      let isText (entry : Value × Value) : Bool :=
        match entry.1 with
        | .text _ => true
        | _ => false
      if entries.all isText then .ok entries else .error .badKey
    | _ => .error (.config (.notMapping path))

/-- Puts values that do not fit down to a configuration file. -/
def blame (path : Path) : Except LoadError Settings → Except LoadError Settings
  | .error (.invalid rejection) => .error (.config (.invalid path rejection))
  | result => result

def ofText (readers : Readers) (workspace : Workspace) (environment : List (String × String))
    (path : Path) (text : String) : Except LoadError Settings :=
  match readers.document text with
  | .error account => .error (.config (.unloadable path account))
  | .ok document =>
    match valuesOf path document with
    | .error error => .error error
    | .ok given => blame path (loadIn readers workspace environment given)

def ofFile (readers : Readers) (workspace : Workspace) (environment : List (String × String))
    (path : Path) : Except LoadError Settings :=
  match workspace.read path with
  | .error why =>
    .error (.config (.unloadable path (why.message ++ ": " ++ shown path.render)))
  | .ok content =>
    match Utf8.decode? content with
    | none => .error .undecodable
    | some text => ofText readers workspace environment path text

/-- **Loads settings** from a configuration file, or without one. -/
def loadFrom (readers : Readers) (workspace : Workspace) (environment : List (String × String))
    (path : Option Path) : Except LoadError Settings :=
  match path with
  | none => loadIn readers workspace environment []
  | some path =>
    if (workspace.get? path).isSome then ofFile readers workspace environment path
    else .error (.config (.notFound path))

end Settings

end ImportGuard
