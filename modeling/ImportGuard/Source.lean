import ImportGuard.Comment.Group
import ImportGuard.Text.Quoted

/-!
# Source files

A source file is its bytes with a syntax tree over them, and what is read off the tree: the package
name, the imports, the comment groups, and the group that documents the package.

An import makes its package available under a name: an explicit one, or the last segment of its
path, which is a guess.  A blank import gives no name, and a dot import spreads the package's names
over the file.
-/

namespace ImportGuard

structure Import where
  /-- Where its node is. -/
  address : Address
  /-- The path as it is written, in quotes. -/
  literal : String
  /-- The explicit name, as it is written. -/
  name : Option String
  start : Place
  pathStart : Place
deriving DecidableEq, Repr, Inhabited

/-- How an import makes its package available. -/
inductive ImportMode where
  /-- Under an explicit name. -/
  | named
  /-- Under the last segment of its path. -/
  | guessed
  /-- Not at all: `import _ "path"`. -/
  | blank
  /-- Without a name of its own: `import . "path"`. -/
  | dot
deriving DecidableEq, Repr, Inhabited

namespace Import

/-- The import path, empty if the literal is malformed. -/
def path (spec : Import) : String :=
  (unquote spec.literal).getD ""

def mode (spec : Import) : ImportMode :=
  match spec.name with
  | none => .guessed
  | some name =>
    if name = "_" then .blank
    else if name = "." then .dot
    else if name = "" then .guessed
    else .named

def lastSegment (path : String) : String :=
  String.ofList (Pieces.afterLast '/' path.toList)

/-- The name under which the file refers to the package. -/
def qualifier (spec : Import) : Option String :=
  match spec.mode with
  | .named => spec.name
  | .guessed => some (lastSegment spec.path)
  | .blank | .dot => none

end Import

/-- What makes a syntax tree over a Go text, and tells whether the text has syntax errors. -/
abbrev Parser := List UInt8 → Node × Bool

structure SourceFile where
  filename : String
  source : List UInt8
  root : Node
  /-- The tree was made from a text with syntax errors. -/
  broken : Bool := false
  package : Option String := none
  imports : List Import := []
  comments : List CommentGroup := []
  /-- The group that documents the package. -/
  doc : Option CommentGroup := none
deriving Repr, Inhabited

namespace SourceFile

/-- The import that a site of kind `importSpec` makes, if it has a path. -/
def importAt? (source : List UInt8) (site : Site) : Option Import :=
  (site.node.child? .path).map fun path =>
    { address := site.address
      literal := path.text source
      name := (site.node.child? .name).map (·.text source)
      start := Place.ofOffset source site.node.start
      pathStart := Place.ofOffset source path.start }

/-- The imports of a tree, in source order. -/
def importsOf (source : List UInt8) (root : Node) : List Import :=
  let declarations := (root.childSites []).filter (·.node.kind = .importDeclaration)
  let specs := declarations.flatMap fun site =>
    (site.node.sitesAt site.address).filter (·.node.kind = .importSpec)
  specs.filterMap (importAt? source)

/-- The first package clause of a tree. -/
def packageClause? (root : Node) : Option Node :=
  root.children.find? (·.kind = .packageClause)

def packageName? (source : List UInt8) (clause : Node) : Option String :=
  (clause.children.find? (·.kind = .packageIdentifier)).map (·.text source)

/-- **The group that documents the package**: of the groups before the first that ends behind the
start of the package clause, the last that ends on the line above it. -/
def docOf (source : List UInt8) (groups : List CommentGroup) (clause : Node) :
    Option CommentGroup :=
  let early := groups.takeWhile (·.stop.offset ≤ clause.start)
  (early.filter (·.stop.line + 1 = (Place.ofOffset source clause.start).line)).getLast?

def ofTree (filename : String) (source : List UInt8) (root : Node) (broken : Bool) : SourceFile :=
  let clause := packageClause? root
  let groups := CommentGroup.ofTree source root
  { filename := filename
    source := source
    root := root
    broken := broken
    package := clause.bind (packageName? source)
    imports := importsOf source root
    comments := groups
    doc := clause.bind (docOf source groups) }

/-- **Reads a Go text** with a parser. -/
def read (parse : Parser) (filename : String) (source : List UInt8) : SourceFile :=
  let (root, broken) := parse source
  ofTree filename source root broken

def positionOf (file : SourceFile) (place : Place) : Position :=
  Position.ofPlace file.filename place

def importsOfPath (file : SourceFile) (path : String) : List Import :=
  file.imports.filter fun spec => unquote spec.literal = some path

end SourceFile

end ImportGuard
