import ImportGuard.Text.Pieces

/-!
# Options

Options may stand anywhere among the arguments, up to `--`.  A long option takes its value behind `=`
or from the next argument, whatever that looks like; a short one from the rest of its argument or from
the next.  Short options without values can be bundled.  Of an option given twice the last one counts.
-/

namespace ImportGuard

/-- A question that the program answers instead of doing its work. -/
inductive Question where
  | version
  | help
deriving DecidableEq, Repr, Inhabited

/-- What the command line asks for. -/
structure Options where
  /-- The patterns of packages. -/
  packages : List String := []
  paths : Option String := none
  ignoreTests : Option Bool := none
  config : Option String := none
  json : Bool := false
  verbose : Bool := false
  /-- The first question asked. -/
  question : Option Question := none
deriving DecidableEq, Repr, Inhabited

namespace Options

inductive Switch where
  | ignoreTests
  | keepTests
  | json
  | verbose
  | asks (question : Question)
deriving DecidableEq, Repr

inductive Setter where
  | paths
  | config
deriving DecidableEq, Repr

inductive Meaning where
  | switch (s : Switch)
  | setter (s : Setter)
deriving DecidableEq, Repr

def long : List (String × Meaning) :=
  [("--paths", .setter .paths), ("--ignore-tests", .switch .ignoreTests),
   ("--no-ignore-tests", .switch .keepTests), ("--config", .setter .config),
   ("--json", .switch .json), ("--verbose", .switch .verbose),
   ("--version", .switch (.asks .version)), ("--help", .switch (.asks .help))]

def short : List (Char × Meaning) :=
  [('c', .setter .config), ('v', .switch .verbose), ('V', .switch (.asks .version))]

def turn (options : Options) : Switch → Options
  | .ignoreTests => { options with ignoreTests := some true }
  | .keepTests => { options with ignoreTests := some false }
  | .json => { options with json := true }
  | .verbose => { options with verbose := true }
  | .asks question => { options with question := options.question.or (some question) }

def assign (options : Options) (value : String) : Setter → Options
  | .paths => { options with paths := some value }
  | .config => { options with config := some value }

/-- What an argument with options leaves to do. -/
inductive Step where
  /-- The options are set. -/
  | done (options : Options)
  /-- The next argument is the value of an option. -/
  | awaits (options : Options) (setter : Setter)
  /-- The argument is no good. -/
  | refused

def bundle (options : Options) : List Char → Step
  | [] => .done options
  | c :: rest =>
    match short.lookup c with
    | none => .refused
    | some (.switch s) => bundle (options.turn s) rest
    | some (.setter s) =>
      if rest = [] then .awaits options s else .done (options.assign (String.ofList rest) s)

def argument (options : Options) (text : String) : Step :=
  let (name, value) := Pieces.cutFirst '=' text.toList
  match long.lookup (String.ofList name), value with
  | some (.switch s), none => .done (options.turn s)
  | some (.switch _), some _ => .refused
  | some (.setter s), none => .awaits options s
  | some (.setter s), some value => .done (options.assign (String.ofList value) s)
  | none, _ => if "--".toList.isPrefixOf text.toList then .refused else
      bundle options (text.toList.drop 1)

def isOption (text : String) : Bool :=
  match text.toList with
  | '-' :: _ :: _ => true
  | _ => false

/-- Reads arguments, where `awaited` is an option that waits for its value. -/
def read (options : Options) (awaited : Option Setter) : List String → Option Options
  | [] => if awaited.isSome then none else some options
  | text :: rest =>
    match awaited with
    | some setter => read (options.assign text setter) none rest
    | none =>
      if text = "--" then some { options with packages := options.packages ++ rest }
      else if isOption text then
        match options.argument text with
        | .done options => read options none rest
        | .awaits options setter => read options (some setter) rest
        | .refused => none
      else read { options with packages := options.packages ++ [text] } none rest

/-- **Reads a command line**; `none` if it is used wrongly. -/
def parse (arguments : List String) : Option Options :=
  read {} none arguments

end Options

end ImportGuard
