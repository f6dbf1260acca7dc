import ImportGuard.Text.Pieces

/-!
# Paths

A path is a list of parts.  Doubled slashes and parts that are a single point vanish when a text is
read as a path, while `..` stays; the empty path is written as a point.  A path may start with a
slash, or with exactly two, which is another root.

Paths are ordered part by part, so a folder comes before all that is in it.
-/

namespace ImportGuard

/-- What a path starts from: the folder that the program runs in, or a root. -/
inductive Root where
  | here
  | slash
  | slashes
deriving DecidableEq, Repr, Inhabited

namespace Root

def text : Root → String
  | here => ""
  | slash => "/"
  | slashes => "//"

/-- The root of a text with leading slashes: exactly two are a root of their own. -/
def ofChars (text : List Char) : Root :=
  match (text.takeWhile (· = '/')).length with
  | 0 => here
  | 2 => slashes
  | _ => slash

end Root

structure Path where
  root : Root := .here
  parts : List String := []
deriving DecidableEq, Repr, Inhabited

namespace Path

def ofString (text : String) : Path where
  root := .ofChars text.toList
  parts := ((Pieces.splitOn '/' text.toList).map String.ofList).filter
    fun part => part != "" && part != "."

def render (path : Path) : String :=
  if path.root = .here ∧ path.parts = [] then "."
  else path.root.text ++ "/".intercalate path.parts

/-- The last part, empty if there is none. -/
def name (path : Path) : String :=
  path.parts.getLastD ""

def parent (path : Path) : Path :=
  { path with parts := path.parts.dropLast }

def child (path : Path) (name : String) : Path :=
  { path with parts := path.parts ++ [name] }

/-- The ending of the last part, from its last point on.  A point at the start or at the end of the
part makes no ending. -/
def ending (path : Path) : String :=
  let chars := path.name.toList
  let tail := Pieces.afterLast '.' chars
  let before := chars.length - tail.length
  if '.' ∈ chars ∧ 1 < before ∧ tail ≠ [] then String.ofList ('.' :: tail) else ""

def key (path : Path) : List String :=
  if path.root = .here then path.parts else path.root.text :: path.parts

def before (p q : Path) : Bool :=
  p.key < q.key

def sort (paths : List Path) : List Path :=
  paths.mergeSort fun p q => !q.before p

end Path

end ImportGuard
