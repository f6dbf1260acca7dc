import ImportGuard.Position
import ImportGuard.Text.Utf8

/-!
# Tokens of Go text

Go text is cut into pieces: white space, line feeds, comments and lexemes.  **Every byte of the text
belongs to exactly one piece**, and no byte makes the cutting fail.  The tokens are the lexemes, each
with what a reader needs to know of the pieces around it: whether a line feed stands before it, and
how far a terminator behind it reaches.

A terminator is a semicolon or a line feed.  Line feeds inside a comment do not count, and line feeds
that stand directly one behind the other count as one terminator.
-/

namespace ImportGuard

/-- A unit of Go text that is not blank and no comment. -/
inductive Lexeme where
  /-- A name or a keyword. -/
  | word (text : String)
  /-- A number or a rune. -/
  | constant
  /-- A string literal, interpreted or raw. -/
  | text
  /-- An operator or a punctuation mark. -/
  | mark (symbol : String)
deriving DecidableEq, Repr, Inhabited

inductive Chunk where
  | blank
  | newline
  | comment
  | lexeme (lexeme : Lexeme)
deriving DecidableEq, Repr, Inhabited

/-- A piece of Go text and its range. -/
structure Piece where
  chunk : Chunk
  start : Nat
  stop : Nat
deriving DecidableEq, Repr, Inhabited

/-- A lexeme in its surroundings. -/
structure Token where
  lexeme : Lexeme
  start : Nat
  stop : Nat
  /-- A line feed stands between the token before and this one. -/
  newline : Bool
  /-- Where the terminator behind the token ends; the token's own end if there is none. -/
  closed : Nat
deriving DecidableEq, Repr, Inhabited

namespace Token

/-! ### Widths of pieces -/

/-- The width of the white space character that the bytes start with, zero if there is none.  A line
feed is no such character. -/
def blankWidth : List UInt8 → Nat
  | 0x09 :: _ | 0x0B :: _ | 0x0C :: _ | 0x0D :: _ | 0x20 :: _ => 1
  | 0xC2 :: 0x85 :: _ | 0xC2 :: 0xA0 :: _ => 2
  | 0xE1 :: 0x9A :: 0x80 :: _ => 3
  | 0xE2 :: 0x80 :: b :: _ =>
    if (0x80 ≤ b && b ≤ 0x8A) || b = 0xA8 || b = 0xA9 || b = 0xAF then 3 else 0
  | 0xE2 :: 0x81 :: 0x9F :: _ | 0xE3 :: 0x80 :: 0x80 :: _ => 3
  | _ => 0

def isDigit (b : UInt8) : Bool :=
  0x30 ≤ b && b ≤ 0x39

/-- A byte that a name can start with; a byte of a longer character is one. -/
def isNameStart (b : UInt8) : Bool :=
  (0x41 ≤ b && b ≤ 0x5A) || (0x61 ≤ b && b ≤ 0x7A) || b = 0x5F || 0x80 ≤ b

def nameWidth : List UInt8 → Nat
  | [] => 0
  | b :: rest =>
    if (isNameStart b || isDigit b) && blankWidth (b :: rest) = 0 then nameWidth rest + 1 else 0

/-- The number of leading bytes that belong to a number; `signed` tells whether a sign may come
next, and `hex` whether the number is hexadecimal. -/
def numberWidth (hex signed : Bool) : List UInt8 → Nat
  | [] => 0
  | b :: rest =>
    if b = 0x2E || b = 0x5F || isDigit b then numberWidth hex false rest + 1
    else if (0x41 ≤ b && b ≤ 0x5A) || (0x61 ≤ b && b ≤ 0x7A) then
      let exponent := if hex then b = 0x70 || b = 0x50 else b = 0x65 || b = 0x45
      numberWidth hex exponent rest + 1
    else if signed && (b = 0x2B || b = 0x2D) then numberWidth hex false rest + 1
    else 0

def numberSize : List UInt8 → Nat
  | 0x30 :: 0x78 :: rest | 0x30 :: 0x58 :: rest => numberWidth true false rest + 2
  | bytes => numberWidth false false bytes

/-- The number of bytes up to and with the closing `quote`, where a backslash takes the byte behind
it along; `escaped` tells whether the first byte is so taken. -/
def quotedWidth (quote : UInt8) (escaped : Bool) : List UInt8 → Nat
  | [] => 0
  | b :: rest =>
    if escaped then quotedWidth quote false rest + 1
    else if b = quote then 1
    else quotedWidth quote (b = 0x5C) rest + 1

def rawWidth : List UInt8 → Nat
  | [] => 0
  | b :: rest => if b = 0x60 then 1 else rawWidth rest + 1

def starredWidth : List UInt8 → Nat
  | [] => 0
  | 0x2A :: 0x2F :: _ => 2
  | _ :: rest => starredWidth rest + 1

def lineWidth (bytes : List UInt8) : Nat :=
  (bytes.takeWhile (· != lineFeed)).length

/-- The operators and punctuation marks, longer ones before their beginnings. -/
def marks : List String :=
  ["<<=", ">>=", "&^=", "...", "&&", "||", "<-", "++", "--", "==", "!=", "<=", ">=", ":=", "+=",
   "-=", "*=", "/=", "%=", "&=", "|=", "^=", "<<", ">>", "&^", "+", "-", "*", "/", "%", "&", "|",
   "^", "<", ">", "=", "!", "(", ")", "[", "]", "\x7b", "\x7d", ",", ";", ".", ":", "~"]

/-- The mark that the bytes start with; a byte that starts none is a mark of its own. -/
def markAt (bytes : List UInt8) : Chunk × Nat :=
  match marks.find? fun symbol => (Utf8.encode symbol).isPrefixOf bytes with
  | some symbol => (.lexeme (.mark symbol), symbol.length)
  | none => (.lexeme (.mark ""), 1)

/-- The piece that the bytes start with, and its width. -/
def pieceAt (bytes : List UInt8) : Chunk × Nat :=
  match bytes with
  | [] => (.blank, 0)
  | b :: rest =>
    let blank := blankWidth bytes
    if b = lineFeed then (.newline, 1)
    else if 0 < blank then (.blank, blank)
    else if isNameStart b then
      let width := nameWidth bytes
      (.lexeme (.word (Utf8.decode (bytes.take width))), width)
    else if isDigit b then (.lexeme .constant, numberSize bytes)
    else
      match b, rest with
      | 0x2F, 0x2F :: line => (.comment, lineWidth line + 2)
      | 0x2F, 0x2A :: inside => (.comment, starredWidth inside + 2)
      | 0x2E, d :: _ => if isDigit d then (.lexeme .constant, numberSize bytes) else markAt bytes
      | 0x22, inside => (.lexeme .text, quotedWidth 0x22 false inside + 1)
      | 0x27, inside => (.lexeme .constant, quotedWidth 0x27 false inside + 1)
      | 0x60, inside => (.lexeme .text, rawWidth inside + 1)
      | _, _ => markAt bytes

/-! ### Pieces and tokens -/

/-- The pieces of bytes that start at `offset`, the first `skip` of which belong to a piece before
them. -/
def piecesFrom (offset skip : Nat) : List UInt8 → List Piece
  | [] => []
  | b :: rest =>
    match skip with
    | skip + 1 => piecesFrom (offset + 1) skip rest
    | 0 =>
      let (chunk, width) := pieceAt (b :: rest)
      ⟨chunk, offset, offset + width⟩ :: piecesFrom (offset + 1) (width - 1) rest

def byteOrderMark : List UInt8 := [0xEF, 0xBB, 0xBF]

/-- The pieces of a text.  A byte order mark at its start is white space. -/
def pieces (source : List UInt8) : List Piece :=
  if byteOrderMark.isPrefixOf source then ⟨.blank, 0, 3⟩ :: piecesFrom 3 0 (source.drop 3)
  else piecesFrom 0 0 source

/-- Where a run of line feeds ends that has reached `stop`. -/
def newlinesEnd (stop : Nat) : List Piece → Nat
  | [] => stop
  | piece :: rest => if piece.chunk = .newline then newlinesEnd piece.stop rest else stop

/-- Where the terminator among the pieces behind a lexeme ends; `stop` if there is none. -/
def closedAt (stop : Nat) : List Piece → Nat
  | [] => stop
  | piece :: rest =>
    match piece.chunk with
    | .blank | .comment => closedAt stop rest
    | .newline => newlinesEnd piece.stop rest
    | .lexeme lexeme => if lexeme = .mark ";" then piece.stop else stop

/-- The tokens of pieces; `newline` tells whether a line feed stands before them. -/
def ofPieces (newline : Bool) : List Piece → List Token
  | [] => []
  | piece :: rest =>
    match piece.chunk with
    | .blank | .comment => ofPieces newline rest
    | .newline => ofPieces true rest
    | .lexeme lexeme =>
      ⟨lexeme, piece.start, piece.stop, newline, closedAt piece.stop rest⟩ :: ofPieces false rest

def is (token : Token) (symbol : String) : Bool :=
  token.lexeme = .mark symbol

def isWord (token : Token) (text : String) : Bool :=
  token.lexeme = .word text

/-- The words that are no names. -/
def keywords : List String :=
  ["break", "case", "chan", "const", "continue", "default", "defer", "else", "fallthrough", "for",
   "func", "go", "goto", "if", "import", "interface", "map", "package", "range", "return",
   "select", "struct", "switch", "type", "var"]

def isName (token : Token) : Bool :=
  match token.lexeme with
  | .word text => !keywords.contains text
  | _ => false

end Token

end ImportGuard
