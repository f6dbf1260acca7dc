/-!
# The journal

While it works, the program notes what it does.  A note has a level, the name of the part that makes
it, and a message.  A journal keeps the notes at or above its level.
-/

namespace ImportGuard

inductive Level where
  | debug
  | info
  | warning
  | error
deriving DecidableEq, Repr, Inhabited

namespace Level

def rank : Level → Nat
  | debug => 0
  | info => 1
  | warning => 2
  | error => 3

def name : Level → String
  | debug => "DEBUG"
  | info => "INFO"
  | warning => "WARNING"
  | error => "ERROR"

def ofName? : String → Option Level
  | "DEBUG" => some debug
  | "INFO" => some info
  | "WARNING" => some warning
  | "ERROR" => some error
  | _ => none

def passes (level threshold : Level) : Bool :=
  threshold.rank ≤ level.rank

end Level

structure Note where
  level : Level
  part : String
  message : String
deriving DecidableEq, Repr, Inhabited

namespace Journal

def rootPart : String := "faillint"

def partName (part : Option String) : String :=
  match part with
  | none => rootPart
  | some "" => rootPart
  | some name => rootPart ++ "." ++ name

def note (level : Level) (part : String) (message : String) : Note :=
  ⟨level, partName (some part), message⟩

def phaseBegins (part : String) (phase : String) : Note :=
  ⟨.debug, part, "[bold blue]>>>[/bold blue] " ++ phase⟩

def phaseDone (part : String) (phase : String) : Note :=
  ⟨.debug, part, "[bold green]<<<[/bold green] " ++ phase ++ " [DONE]"⟩

def phaseFailed (part : String) (phase : String) : Note :=
  ⟨.error, part, "[bold red]<<<[/bold red] " ++ phase ++ " [FAILED]"⟩

def atLevel (threshold : Level) (notes : List Note) : List Note :=
  notes.filter (·.level.passes threshold)

end Journal

end ImportGuard
