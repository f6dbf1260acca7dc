import ImportGuard.Position
import ImportGuard.Syntax.Node
import ImportGuard.Text.Pieces

/-!
# Comments and their groups

Comments that stand together form a **group**.  Two neighbours are together when only white space
lies between them and the second starts at most one line below the end of the first; in a group whose
first comment stands behind code the second must even start on the same line.

Groups of a file are numbered, and the number is what tells two groups apart.
-/

namespace ImportGuard

structure Comment where
  text : String
  start : Place
  stop : Place
deriving DecidableEq, Repr, Inhabited

namespace Comment

/-- The comment of a node.  Carriage returns at its end are no part of its text. -/
def ofNode (source : List UInt8) (node : Node) : Comment where
  text := String.ofList (Pieces.dropEndWhile (· = '\r') (node.text source).toList)
  start := Place.ofOffset source node.start
  stop := Place.ofOffset source node.stop

def isGapByte (b : UInt8) : Bool :=
  b = 0x20 || (0x09 ≤ b && b ≤ 0x0D)

def isIndentByte (b : UInt8) : Bool :=
  b = 0x20 || b = 0x09 || b = 0x0D

/-- Whether something other than white space stands before an offset on its line. -/
def trailsCode (source : List UInt8) (offset : Nat) : Bool :=
  match (source.take offset).reverse.dropWhile isIndentByte with
  | [] => false
  | b :: _ => b != lineFeed

/-- How many lines below its predecessor a comment may start in a group that starts with
`first`. -/
def reach (source : List UInt8) (first : Comment) : Nat :=
  if trailsCode source first.start.offset then 0 else 1

/-- Whether `next` belongs to the group of `previous`, the comment before it. -/
def joins (source : List UInt8) (reach : Nat) (previous next : Comment) : Bool :=
  ((source.drop previous.stop.offset).take (next.start.offset - previous.stop.offset)).all
      isGapByte &&
    next.start.line ≤ previous.stop.line + reach

end Comment

/-- Comments that stand together, with the number of the group in its file. -/
structure CommentGroup where
  number : Nat
  first : Comment
  rest : List Comment
deriving DecidableEq, Repr, Inhabited

namespace CommentGroup

def comments (group : CommentGroup) : List Comment :=
  group.first :: group.rest

def last (group : CommentGroup) : Comment :=
  group.rest.getLastD group.first

def start (group : CommentGroup) : Place :=
  group.first.start

def stop (group : CommentGroup) : Place :=
  group.last.stop

/-- The text of a group: that of its comments, a line each. -/
def text (group : CommentGroup) : String :=
  "\n".intercalate (group.comments.map (·.text))

/-- Splits off the comments that follow `previous` in its group. -/
def run (source : List UInt8) (reach : Nat) (previous : Comment) :
    List Comment → List Comment × List Comment
  | [] => ([], [])
  | next :: rest =>
    if Comment.joins source reach previous next then
      let (members, others) := run source reach next rest
      (next :: members, others)
    else ([], next :: rest)

theorem length_run (source : List UInt8) (reach : Nat) (previous : Comment)
    (comments : List Comment) : (run source reach previous comments).2.length ≤ comments.length := by
  induction comments generalizing previous with
  | nil => simp [run]
  | cons next rest ih =>
    unfold run
    split
    · have := ih next
      simp only [List.length_cons]
      omega
    · simp

/-- The groups of comments that are in order, numbered from `number`. -/
def gather (source : List UInt8) (number : Nat) (comments : List Comment) : List CommentGroup :=
  match comments with
  | [] => []
  | first :: more =>
    let parts := run source (Comment.reach source first) first more
    ⟨number, first, parts.1⟩ :: gather source (number + 1) parts.2
termination_by comments.length
decreasing_by
  have := length_run source (Comment.reach source first) first more
  simp only [List.length_cons]
  omega

/-- The groups of the comments at some nodes: the comments in the order they start, grouped. -/
def ofNodes (source : List UInt8) (nodes : List Node) : List CommentGroup :=
  let sorted := nodes.mergeSort fun a b => a.start ≤ b.start
  gather source 0 (sorted.map (Comment.ofNode source))

/-- **The comment groups of a tree.** -/
def ofTree (source : List UInt8) (root : Node) : List CommentGroup :=
  ofNodes source ((root.sites.map (·.node)).filter (·.kind = .comment))

end CommentGroup

end ImportGuard
