import ImportGuard.Position
import ImportGuard.Syntax.Node

/-!
# The events of a file

Which names are visible at a use depends only on the order in which scopes open and close, names are
declared and uses are met.  `Trace.ofNode` writes that order down for a tree, whatever the name asked
about: **a tree becomes a list of events**.

* A selector or a qualified type is a mention of its package part.
* A function opens a scope for its signature and its body.  Parameters are declared after all of
  their types; a type parameter also before its own constraint.
* `:=` declares its left side after its right side is met, and `var` and `const` declare their names
  after their types and values.  A type is declared before its definition is met.
* The name bound by a type switch is declared after the switched value.
* Blocks, statements with a header, and clauses are scopes of their own.

What an event list does not mention, such as the left side of `:=`, is no part of the walk.
-/

namespace ImportGuard

/-- A selection `package.name` in a file. -/
structure Use where
  /-- Where the node of the selection is. -/
  address : Address
  /-- The range of the node. -/
  start : Nat
  stop : Nat
  package : String
  name : String
  /-- Where the selected name starts. -/
  place : Place
deriving DecidableEq, Repr, Inhabited

/-- What a walk over a tree meets. -/
inductive Event where
  /-- The node at an address opens a scope. -/
  | enter (address : Address)
  /-- The innermost scope closes. -/
  | leave
  /-- Names are declared in the innermost scope. -/
  | declare (names : List String)
  /-- A selection is met. -/
  | mention (use : Use)
deriving DecidableEq, Repr, Inhabited

namespace Trace

/-- The mention of a selection by a node at `address`, if both of its parts are there. -/
def mention (source : List UInt8) (address : Address) (node : Node)
    (package name : Option Node) : List Event :=
  match package, name with
  | some package, some name =>
    [.mention
      { address := address
        start := node.start
        stop := node.stop
        package := package.text source
        name := name.text source
        place := Place.ofOffset source name.start }]
  | _, _ => []

/-- The mention that a selector makes: only a plain identifier can be a package. -/
def selectorMention (source : List UInt8) (address : Address) (node : Node) : List Event :=
  match node.child? .operand with
  | some operand =>
    if operand.kind = .identifier then
      mention source address node (some operand) (node.child? .selected)
    else []
  | none => []

/-- The identifiers that a left side declares: itself, or the identifiers in its list. -/
def boundNames (source : List UInt8) (left : Option Node) : List String :=
  match left with
  | none => []
  | some node =>
    if node.kind = .identifier then [node.text source]
    else
      (node.children.filter fun child => child.named && child.kind = .identifier).map
        (·.text source)

def defines (children : List Node) : Bool :=
  children.any (·.kind = .define)

def parameterNames (source : List UInt8) (declarations : List Node) : List String :=
  (declarations.filter fun child => child.named && child.kind.isParameter).flatMap
    (·.names source)

mutual

def ofNode (source : List UInt8) (address : Address) : Node → List Event
  | ⟨kind, named, role, start, stop, children⟩ =>
    let node : Node := ⟨kind, named, role, start, stop, children⟩
    match kind with
    | .selectorExpression =>
      selectorMention source address node ++ ofChildren source address 0 children
    | .qualifiedType => mention source address node (node.child? .package) (node.child? .name)
    | .functionDeclaration | .methodDeclaration | .functionLiteral =>
      [.enter address] ++ signaturePart source address .typeParameters 0 children ++
        signaturePart source address .receiver 0 children ++
        signaturePart source address .parameters 0 children ++
        signaturePart source address .result 0 children ++
        firstIn source address .body 0 children ++ [.leave]
    | .shortVarDeclaration =>
      firstIn source address .right 0 children ++
        [.declare (boundNames source (node.child? .left))]
    | .rangeClause | .receiveStatement =>
      if defines children then
        firstIn source address .right 0 children ++
          [.declare (boundNames source (node.child? .left))]
      else ofChildren source address 0 children
    | .varSpec | .constSpec =>
      allButNames source address 0 children ++ [.declare (node.names source)]
    | .typeSpec | .typeAlias =>
      [.declare (node.names source), .enter address] ++ ofChildren source address 0 children ++
        [.leave]
    | .typeParameterList =>
      parameterTypes source address 0 children ++ [.declare (parameterNames source children)]
    | .typeSwitchStatement =>
      [.enter address] ++
        switchParts source address (boundNames source (node.child? .bound)) false false 0
          children ++
        [.leave]
    | .block | .ifStatement | .forStatement | .expressionSwitchStatement | .selectStatement
    | .expressionCase | .defaultCase | .typeCase | .communicationCase =>
      [.enter address] ++ ofChildren source address 0 children ++ [.leave]
    | _ => ofChildren source address 0 children
termination_by structural node => node

/-- The events of children in order, the first of which has index `i` below `address`. -/
def ofChildren (source : List UInt8) (address : Address) (i : Nat) : List Node → List Event
  | [] => []
  | child :: rest =>
    ofNode source (address ++ [i]) child ++ ofChildren source address (i + 1) rest

def firstIn (source : List UInt8) (address : Address) (role : Role) (i : Nat) :
    List Node → List Event
  | [] => []
  | child :: rest =>
    if child.role = some role then ofNode source (address ++ [i]) child
    else firstIn source address role (i + 1) rest

def allButNames (source : List UInt8) (address : Address) (i : Nat) : List Node → List Event
  | [] => []
  | child :: rest =>
    (if child.role = some .name then [] else ofNode source (address ++ [i]) child) ++
      allButNames source address (i + 1) rest

/-- The events of the first child in a role of a function's signature: a list of parameters, or a
type. -/
def signaturePart (source : List UInt8) (address : Address) (role : Role) (i : Nat) :
    List Node → List Event
  | [] => []
  | ⟨kind, named, role', start, stop, children⟩ :: rest =>
    if role' = some role then
      if kind = .parameterList ∨ kind = .typeParameterList then
        parameterTypes source (address ++ [i]) 0 children ++
          [.declare (parameterNames source children)]
      else ofNode source (address ++ [i]) ⟨kind, named, role', start, stop, children⟩
    else signaturePart source address role (i + 1) rest

/-- The events of the members of a list of parameters: the types of parameters, and a type
parameter's names before its constraint. -/
def parameterTypes (source : List UInt8) (address : Address) (i : Nat) : List Node → List Event
  | [] => []
  | ⟨kind, named, role, start, stop, children⟩ :: rest =>
    let child : Node := ⟨kind, named, role, start, stop, children⟩
    (if named then
      if kind = .typeParameterDeclaration then
        [.declare (child.names source)] ++ firstIn source (address ++ [i]) .type 0 children
      else if kind.isParameter then firstIn source (address ++ [i]) .type 0 children
      else ofNode source (address ++ [i]) ⟨kind, named, role, start, stop, children⟩
    else []) ++
      parameterTypes source address (i + 1) rest

/-- The events of the parts of a type switch.  The first part in the role `bound` is left out, and
`names` are declared after the first part in the role `value`; `boundSeen` and `valueSeen` say
whether these have been met. -/
def switchParts (source : List UInt8) (address : Address) (names : List String)
    (boundSeen valueSeen : Bool) (i : Nat) : List Node → List Event
  | [] => []
  | child :: rest =>
    if child.role = some .bound ∧ boundSeen = false then
      switchParts source address names true valueSeen (i + 1) rest
    else if child.role = some .value ∧ valueSeen = false then
      ofNode source (address ++ [i]) child ++ [.declare names] ++
        switchParts source address names boundSeen true (i + 1) rest
    else
      ofNode source (address ++ [i]) child ++
        switchParts source address names boundSeen valueSeen (i + 1) rest

end

end Trace

/-- **The events of a tree.** -/
def trace (source : List UInt8) (root : Node) : List Event :=
  Trace.ofNode source [] root

end ImportGuard
