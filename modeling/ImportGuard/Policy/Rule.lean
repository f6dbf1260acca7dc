/-!
# Rules

A rule names an unwanted import.  With declarations it is narrowed: the import is fine, and using one
of the listed declarations is not.  A suggestion is shown with every violation.

In policy syntax a rule is the import path, then `.{a,b}` for its declarations, then `=` and the
suggestion; a policy is its rules with commas between them.
-/

namespace ImportGuard

/-- An unwanted import, possibly narrowed to some of its declarations. -/
structure Rule where
  importPath : String
  declarations : List String := []
  suggestion : String := ""
deriving DecidableEq, Repr, Inhabited

namespace Rule

def forbidsPackage (rule : Rule) : Bool :=
  rule.declarations.isEmpty

/-- The list of declarations in braces, with the point before them; nothing if there are none. -/
def formatDeclarations (declarations : List String) : String :=
  if declarations.isEmpty then "" else ".\x7b" ++ ",".intercalate declarations ++ "\x7d"

def format (rule : Rule) : String :=
  rule.importPath ++ formatDeclarations rule.declarations ++
    (if rule.suggestion = "" then "" else "=" ++ rule.suggestion)

end Rule

def formatPolicy (rules : List Rule) : String :=
  ",".intercalate (rules.map Rule.format)

end ImportGuard
