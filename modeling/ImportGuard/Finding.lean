import ImportGuard.Diagnostic
import ImportGuard.Text.Quoted

/-!
# Findings

A finding is a cause at a position.  Its cause is an unwanted import, an unwanted use of a
declaration, or one of the two faults that a comment directive can have.
-/

namespace ImportGuard

inductive Cause where
  /-- An import of an unwanted package. -/
  | package (path suggestion : String)
  /-- A use of an unwanted declaration. -/
  | declaration (name path suggestion : String)
  /-- A directive that gives no reason. -/
  | missingReason
  /-- A directive for the whole file outside of the package's documentation. -/
  | misplacedFileIgnore
deriving DecidableEq, Repr, Inhabited

namespace Cause

def isFault : Cause → Bool
  | missingReason | misplacedFileIgnore => true
  | package _ _ | declaration _ _ _ => false

def suggested (suggestion : String) : String :=
  if suggestion = "" then "" else ", suggested: " ++ quote suggestion

def message : Cause → String
  | package path suggestion =>
    "package " ++ quote path ++ " shouldn't be imported" ++ suggested suggestion
  | declaration name path suggestion =>
    "declaration " ++ quote name ++ " from package " ++ quote path ++ " shouldn't be used" ++
      suggested suggestion
  | missingReason => "missing reason on " ++ toolName ++ " directive"
  | misplacedFileIgnore =>
    "file-ignore option on " ++ toolName ++ " directive must be in package docs"

end Cause

structure Finding where
  position : Position
  cause : Cause
deriving DecidableEq, Repr, Inhabited

namespace Finding

def message (finding : Finding) : String :=
  finding.cause.message

def diagnostic (finding : Finding) : Diagnostic :=
  ⟨finding.position, finding.message⟩

/-- A finding as it is printed: the position, then the words. -/
def render (finding : Finding) : String :=
  finding.diagnostic.render

/-- Findings by position; those at one position keep the order in which they were made. -/
def sort (findings : List Finding) : List Finding :=
  findings.mergeSort fun a b => !b.position.before a.position

end Finding

end ImportGuard
