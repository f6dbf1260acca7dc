import ImportGuard.Source
import ImportGuard.Usage.Event

/-!
# Visible names and the uses of a package

The scopes that are open at an event are a stack of lists of names, the innermost first; the last one
holds the names that the file declares at its top level.  A mention of a name is a **use** of the
package imported under that name when no open scope has the name.

The uses of an import are filed under the selected name, in the order in which names are first met,
and each name's places are in order of their offsets.
-/

namespace ImportGuard

/-- The names of the open scopes, the innermost scope first. -/
abbrev Scopes := List (List String)

namespace Scopes

def declare (names : List String) : Scopes → Scopes
  | [] => [names]
  | scope :: outer => (names ++ scope) :: outer

def hides (scopes : Scopes) (name : String) : Bool :=
  scopes.any (·.contains name)

end Scopes

namespace Usage

/-- The mentions of `qualifier` in a list of events that no scope hides, with `scopes` open at its
start. -/
def visible (qualifier : String) : Scopes → List Event → List Use
  | _, [] => []
  | scopes, .enter _ :: events => visible qualifier ([] :: scopes) events
  | scopes, .leave :: events => visible qualifier scopes.tail events
  | scopes, .declare names :: events => visible qualifier (scopes.declare names) events
  | scopes, .mention use :: events =>
    if use.package = qualifier ∧ scopes.hides qualifier = false then
      use :: visible qualifier scopes events
    else visible qualifier scopes events

/-- Kinds of nodes that declare names at the top level. -/
def isSpec : Kind → Bool
  | .varSpec | .constSpec | .typeSpec | .typeAlias => true
  | _ => false

/-- The names that a child of the root declares for the whole file. -/
def topLevelNames (source : List UInt8) (child : Node) : List String :=
  match child.kind with
  | .functionDeclaration => child.names source
  | .varDeclaration | .constDeclaration | .typeDeclaration =>
    (child.outermost isSpec).flatMap (·.names source)
  | _ => []

/-- **The names that a file declares at its top level**, imports apart. -/
def fileScope (source : List UInt8) (root : Node) : List String :=
  root.children.flatMap (topLevelNames source)

/-- The uses of the package imported under `qualifier`, in the order in which they are met. -/
def usesOf (source : List UInt8) (root : Node) (qualifier : String) : List Use :=
  visible qualifier [fileScope source root] (trace source root)

/-! ### Filing uses -/

/-- Places filed under the names that are selected there. -/
abbrev Index := List (String × List Place)

/-- The name under which a package counts as used when its uses cannot be told apart. -/
def unspecified : String := "unspecified"

def file (index : Index) (use : Use) : Index :=
  if index.any (·.1 = use.name) then
    index.map fun (name, places) =>
      if name = use.name then (name, places ++ [use.place]) else (name, places)
  else index ++ [(use.name, [use.place])]

/-- The index of uses: names as they are first met, places by offset. -/
def index (uses : List Use) : Index :=
  (uses.foldl file []).map fun (name, places) =>
    (name, places.mergeSort fun a b => a.offset ≤ b.offset)

def placesOf (index : Index) (name : String) : List Place :=
  (index.lookup name).getD []

/-- **The uses of an import** with a qualifier and a mode, less those that `ignored` drops.  Each use
is put to `ignored` as it is met.  An import without a qualifier counts as used as a whole. -/
def scan {m : Type → Type} [Monad m] (source : List UInt8) (root : Node)
    (qualifier : Option String) (mode : ImportMode) (ignored : Use → m Bool) : m Index :=
  match mode, qualifier with
  | .blank, _ | .dot, _ | _, none => pure [(unspecified, [])]
  | _, some qualifier =>
    if qualifier = "" then pure [(unspecified, [])]
    else do
      let kept ← (usesOf source root qualifier).filterM fun use => not <$> ignored use
      pure (index kept)

end Usage

end ImportGuard
