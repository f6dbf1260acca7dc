import ImportGuard.Syntax.Node
import ImportGuard.Syntax.Token

/-!
# Reading tokens into nodes

A reader takes tokens from a cursor and may fail, in which case nothing is taken.  The grammar of Go
refers to itself; the record `Grammar` holds the readers through which it does, so that each part of
the grammar can be written for any such record.  `Syntax.File` ties the knot.

Two things depend on where a construct stands, and a `Setting` holds them.  A line feed ends a
construct at the level of statements, but not between brackets.  A brace behind a name opens a
composite literal, but not in the header of a statement.
-/

namespace ImportGuard

/-- The tokens to come, and the one taken last. -/
structure Cursor where
  tokens : List Token
  last : Option Token := none
deriving Inhabited

/-- Takes tokens and makes something of them, or fails. -/
abbrev Reader := StateT Cursor Option

/-- Where a construct stands. -/
structure Setting where
  /-- A line feed ends the construct if it can end there. -/
  lineEnds : Bool
  /-- The construct is part of the header of a statement. -/
  header : Bool
deriving DecidableEq, Repr, Inhabited

namespace Setting

def statement : Setting := ⟨true, false⟩

def inside : Setting := ⟨false, false⟩

def heading : Setting := ⟨false, true⟩

end Setting

/-- The readers through which the grammar refers to itself. -/
structure Grammar where
  expression : Setting → Reader Node
  type : (lineEnds : Bool) → Reader Node
  simple : Setting → Reader Node
  statement : Reader Node
  block : Reader Node
  literalValue : Reader Node

namespace Grammar

def nothing : Grammar where
  expression _ := failure
  type _ := failure
  simple _ := failure
  statement := failure
  block := failure
  literalValue := failure

/-! ### Nodes -/

def node (kind : Kind) (parts : List Node) : Node where
  kind := kind
  named := true
  role := none
  start := ((parts.head?).map (·.start)).getD 0
  stop := ((parts.getLast?).map (·.stop)).getD 0
  children := parts

/-- A named node of a kind that the analysis does not look at. -/
def plain (name : String) (parts : List Node) : Node :=
  node (.other name) parts

def leaf (token : Token) (kind : Kind) (named : Bool) : Node :=
  ⟨kind, named, none, token.start, token.stop, []⟩

def sign (token : Token) : Node :=
  match token.lexeme with
  | .mark symbol => leaf token (Kind.ofName symbol) false
  | .word text => leaf token (.other text) false
  | .constant => leaf token (.other "constant") true
  | .text => leaf token (.other "string_literal") true

def within (role : Role) (node : Node) : Node :=
  { node with role := some role }

/-! ### Readers -/

def peek : Reader (Option Token) := do
  return (← get).tokens.head?

def peekSecond : Reader (Option Token) := do
  return ((← get).tokens.drop 1).head?

/-- The token to come, unless a line feed stands before it that ends the construct. -/
def look (lineEnds : Bool) : Reader (Option Token) := do
  return (← peek).filter fun token => !(lineEnds && token.newline)

/-- The lexeme to come, unless a line feed stands before it that ends the construct. -/
def lookLexeme (lineEnds : Bool) : Reader (Option Lexeme) := do
  return (← look lineEnds).map (·.lexeme)

def take (p : Token → Bool) : Reader Token := do
  match (← get).tokens with
  | [] => failure
  | token :: rest =>
    if p token then
      set (Cursor.mk rest (some token))
      return token
    else failure

def mark (symbol : String) : Reader Node :=
  sign <$> take (·.is symbol)

def keyword (text : String) : Reader Node :=
  sign <$> take (·.isWord text)

def name (kind : Kind) : Reader Node :=
  (leaf · kind true) <$> take Token.isName

/-- Takes a name or a keyword as a node of a kind, where nothing but a name can stand. -/
def anyWord (kind : Kind) : Reader Node :=
  (leaf · kind true) <$> take fun token =>
    match token.lexeme with
    | .word _ => true
    | _ => false

def stringLiteral : Reader Node :=
  sign <$> take (·.lexeme = .text)

def comes (p : Token → Bool) : Reader Bool := do
  return (← peek).any p

def comesMark (symbol : String) : Reader Bool :=
  comes (·.is symbol)

/-- Takes what `item` finds, again and again until it finds nothing, at most `count` times. -/
def collectUpTo {α : Type} (item : Reader (Option α)) : (count : Nat) → Reader (List α)
  | 0 => pure []
  | count + 1 => do
    match ← item with
    | none => pure []
    | some found => return found :: (← collectUpTo item count)

def collect {α : Type} (item : Reader (Option α)) : Reader (List α) := do
  collectUpTo item ((← get).tokens.length + 1)

/-- Takes items up to a closing mark, with semicolons between them. -/
def terminated {α : Type} (close : String) (item : Reader α) : Reader (List α) :=
  collect do
    if ← comesMark close then return none
    let found ← item
    if ← comesMark ";" then
      let _ ← mark ";"
    return some found

/-- Takes items with commas between them, as long as a comma comes before the construct ends. -/
def commaList (lineEnds : Bool) (item : Reader Node) : Reader (List Node) := do
  let first ← item
  let more ← collect do
    match ← look lineEnds with
    | some token =>
      if token.is "," then
        let comma ← mark ","
        return some [comma, ← item]
      else return none
    | none => return none
  return first :: more.flatten

/-- Takes items up to a closing mark, with commas between them and perhaps one behind the last. -/
def commaTerminated {α : Type} (close : String) (item : Reader α) : Reader (List α) :=
  collect do
    if ← comesMark close then return none
    let found ← item
    if ← comesMark "," then
      let _ ← mark ","
    return some found

end Grammar

end ImportGuard
