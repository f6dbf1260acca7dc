/-!
# Places and positions

A **place** is a spot in one file: the byte offset, and the line and column that the offset stands
for.  Lines and columns start at one, and columns count bytes.  A **position** names the file too.

Positions have an order of their own: it looks at the file name and the offset, while equality looks
at all of a position.  A position may also come from outside, so its numbers are integers.
-/

namespace ImportGuard

def lineFeed : UInt8 := 0x0A

structure Place where
  offset : Nat
  line : Nat
  column : Nat
deriving DecidableEq, Repr, Inhabited

namespace Place

/-- The line and the column that one comes to from a line and a column by `count` bytes.  Bytes
behind the end of the text count as bytes of its last line. -/
def walk (line column : Nat) : (count : Nat) → List UInt8 → Nat × Nat
  | 0, _ => (line, column)
  | count + 1, [] => (line, column + (count + 1))
  | count + 1, b :: rest =>
    if b = lineFeed then walk (line + 1) 1 count rest else walk line (column + 1) count rest

/-- **The place of an offset**: its line is one more than the number of line feeds before it, its
column one more than the number of bytes since the last of them. -/
def ofOffset (bytes : List UInt8) (offset : Nat) : Place :=
  let reached := walk 1 1 offset bytes
  ⟨offset, reached.1, reached.2⟩

end Place

/-- A spot in a named file. -/
structure Position where
  filename : String
  offset : Int
  line : Int
  column : Int
deriving DecidableEq, Repr, Inhabited

namespace Position

def ofPlace (filename : String) (place : Place) : Position :=
  ⟨filename, place.offset, place.line, place.column⟩

def render (p : Position) : String :=
  p.filename ++ ":" ++ toString p.line ++ ":" ++ toString p.column

/-- The order of positions: by file name, then by offset. -/
def before (p q : Position) : Bool :=
  p.filename < q.filename || (p.filename == q.filename && p.offset < q.offset)

/-- `p` is before `q` or is the same position. -/
def beforeOrSame (p q : Position) : Bool :=
  p.before q || p == q

/-- `p` is another position than `q` and not before it. -/
def after (p q : Position) : Bool :=
  !p.before q && p != q

/-- `p` is not before `q`. -/
def afterOrLevel (p q : Position) : Bool :=
  !p.before q

/-- Positions in order; those at the same file name and offset keep the order they came in. -/
def sort (positions : List Position) : List Position :=
  positions.mergeSort fun p q => !q.before p

end Position

end ImportGuard
