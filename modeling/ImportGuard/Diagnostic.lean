import ImportGuard.Position

/-!
# Diagnostics

A diagnostic is a message at a position, as editors and terminals take it.
-/

namespace ImportGuard

/-- The name of the tool, as its messages and comment directives write it. -/
def toolName : String := "faillint"

structure Diagnostic where
  position : Position
  message : String
deriving DecidableEq, Repr, Inhabited

namespace Diagnostic

def category : String := toolName

/-- A diagnostic as it is printed: the position, then the message. -/
def render (diagnostic : Diagnostic) : String :=
  diagnostic.position.render ++ ": " ++ diagnostic.message

end Diagnostic

end ImportGuard
