import ImportGuard.Syntax.Kind
import ImportGuard.Text.Utf8

/-!
# Syntax trees

A node has a kind, a role below its parent, a range of bytes and children.  A node is known by its
**address**: the indices of the children that lead to it from the root.  So two nodes are the same
exactly if their addresses are, whatever their ranges.  A node together with its address is a
**site**.

Nothing is assumed of a tree: the ranges of children need not lie in their parent's, nor be in order.
-/

namespace ImportGuard

/-- A node of a syntax tree, over the bytes from `start` up to `stop`. -/
structure Node where
  kind : Kind
  named : Bool
  role : Option Role
  start : Nat
  stop : Nat
  children : List Node
deriving Repr, Inhabited

/-- The way from the root to a node, as indices of children. -/
abbrev Address := List Nat

/-- A node and where in the tree it is. -/
structure Site where
  address : Address
  node : Node
deriving Repr, Inhabited

namespace Node

/-- The first child with a role. -/
def child? (node : Node) (role : Role) : Option Node :=
  node.children.find? (·.role = some role)

def childrenIn (node : Node) (role : Role) : List Node :=
  node.children.filter (·.role = some role)

def bytes (node : Node) (source : List UInt8) : List UInt8 :=
  (source.drop node.start).take (node.stop - node.start)

def text (node : Node) (source : List UInt8) : String :=
  Utf8.decode (node.bytes source)

def names (node : Node) (source : List UInt8) : List String :=
  (node.childrenIn .name).map (·.text source)

/-- The children with their addresses, for a node at `address`. -/
def childSites (address : Address) (node : Node) : List Site :=
  node.children.zipIdx.map fun (child, i) => ⟨address ++ [i], child⟩

mutual

/-- The sites of a tree at `address`, each node before its children. -/
def sitesAt (address : Address) : Node → List Site
  | ⟨kind, named, role, start, stop, children⟩ =>
    ⟨address, ⟨kind, named, role, start, stop, children⟩⟩ :: sitesFrom address 0 children

/-- The sites of children, the first of which has index `i` below `address`. -/
def sitesFrom (address : Address) (i : Nat) : List Node → List Site
  | [] => []
  | child :: rest => child.sitesAt (address ++ [i]) ++ sitesFrom address (i + 1) rest

end

/-- **All sites of a tree**, each node before its children. -/
def sites (root : Node) : List Site :=
  root.sitesAt []

def get? (node : Node) : Address → Option Node
  | [] => some node
  | i :: rest =>
    match node.children[i]? with
    | none => none
    | some child => child.get? rest

mutual

def outermost (p : Kind → Bool) : Node → List Node
  | ⟨kind, named, role, start, stop, children⟩ =>
    if p kind then [⟨kind, named, role, start, stop, children⟩] else outermostFrom p children

def outermostFrom (p : Kind → Bool) : List Node → List Node
  | [] => []
  | child :: rest => child.outermost p ++ outermostFrom p rest

end

end Node

end ImportGuard
