import ImportGuard.Syntax.Grammar.Statement

/-!
# Go files

A file is a list of package clauses, imports, functions and statements.  `Grammar.upTo` ties the
grammar to itself: what it reads may be nested as deep as it is told, and a file is read with a depth
that its number of tokens bounds.  What cannot be read is left out, and the tree is marked as broken.

Comments are no tokens.  They are put into the finished tree, each into the innermost node around it.
-/

namespace ImportGuard.Grammar

def deeper (g : Grammar) : Grammar where
  expression := readExpression g
  type := readType g
  simple := readSimple g
  statement := readStatement g
  block := readBlock g
  literalValue := readLiteralValue g

/-- The grammar of texts that are nested up to a depth. -/
def upTo : Nat → Grammar
  | 0 => nothing
  | depth + 1 => deeper (upTo depth)

/-! ### Declarations of files -/

def packageClause : Reader Node := do
  return node .packageClause [← keyword "package", ← anyWord .packageIdentifier]

/-- An import: a name, a point or nothing, and a path. -/
def importSpec : Reader Node := do
  let alternative ←
    if ← comes (·.lexeme = .text) then pure []
    else if ← comesMark "." then
      pure [within .name (leaf (← take fun _ => true) (.other "dot") true)]
    else pure [within .name (← anyWord .packageIdentifier)]
  return node .importSpec (alternative ++ [within .path (← stringLiteral)])

def functionDeclaration (g : Grammar) : Reader Node := do
  let head := [← keyword "func", within .name (← name .identifier)]
  let generic ←
    if ← comesMark "[" then pure [within .typeParameters (← typeParameterList g)] else pure []
  let parts ← signature g true
  let body ←
    if (← look true).any (·.is "\x7b") then pure [within .body (← g.block)] else pure []
  return node .functionDeclaration (head ++ generic ++ parts ++ body)

def methodDeclaration (g : Grammar) : Reader Node := do
  let func ← keyword "func"
  let receiver ← within .receiver <$> parameterList g
  let method ← within .name <$> name (.other "field_identifier")
  let parts ← signature g true
  let body ←
    if (← look true).any (·.is "\x7b") then pure [within .body (← g.block)] else pure []
  return node .methodDeclaration ([func, receiver, method] ++ parts ++ body)

/-- The tokens behind the parenthesis that closes `depth` open ones. -/
def behindParentheses (depth : Nat) : List Token → List Token
  | [] => []
  | token :: rest =>
    if token.is "(" then behindParentheses (depth + 1) rest
    else if token.is ")" then
      if depth ≤ 1 then rest else behindParentheses (depth - 1) rest
    else behindParentheses depth rest

/-- Whether a method comes: a name and a list of parameters behind the receiver. -/
def comesMethod : Reader Bool := do
  match behindParentheses 0 ((← get).tokens.drop 1) with
  | name :: opening :: _ => return name.isName && opening.is "("
  | _ => return false

/-- A function, a method, or a statement that starts with a function literal. -/
def functionOrStatement (g : Grammar) : Reader Node := do
  if (← peekSecond).any Token.isName then functionDeclaration g
  else if (← peekSecond).any (·.is "(") && (← comesMethod) then methodDeclaration g
  else g.statement

def topLevel (g : Grammar) : Reader Node := do
  match ← lookLexeme false with
  | some (.word "package") => packageClause
  | some (.word "import") => specs .importDeclaration "import" importSpec
  | some (.word "func") => functionOrStatement g
  | _ => g.statement

/-- The members that `count` tokens can make up, and whether some tokens make up none. -/
def members (g : Grammar) : (count : Nat) → List Token → List Node × Bool
  | 0, tokens => ([], !tokens.isEmpty)
  | _ + 1, [] => ([], false)
  | count + 1, token :: rest =>
    if token.is ";" then members g count rest
    else
      match (topLevel g).run ⟨token :: rest, none⟩ with
      | some (found, cursor) =>
        let (more, broken) := members g count cursor.tokens
        (found :: more, broken)
      | none =>
        let (more, _) := members g count rest
        (more, true)

end ImportGuard.Grammar

namespace ImportGuard

namespace Node

mutual

/-- The tree with a comment put into the innermost node around it. -/
def insert (comment : Node) : Node → Node
  | ⟨kind, named, role, start, stop, children⟩ =>
    ⟨kind, named, role, start, stop, insertInto comment children⟩

def insertInto (comment : Node) : List Node → List Node
  | [] => [comment]
  | child :: rest =>
    if comment.stop ≤ child.start then comment :: child :: rest
    else if child.start < comment.start ∧ comment.stop ≤ child.stop then
      insert comment child :: rest
    else child :: insertInto comment rest

end

end Node

def commentNodes (pieces : List Piece) : List Node :=
  (pieces.filter (·.chunk = .comment)).map fun piece =>
    ⟨.comment, true, none, piece.start, piece.stop, []⟩

/-- **The syntax tree of a Go text**, and whether a part of the text could not be read. -/
def readTree (source : List UInt8) : Node × Bool :=
  let pieces := Token.pieces source
  let tokens := Token.ofPieces false pieces
  let grammar := Grammar.upTo (4 * tokens.length + 8)
  let (members, broken) := grammar.members (tokens.length + 1) tokens
  let comments := commentNodes pieces
  let first := (pieces.find? fun piece => piece.chunk ≠ .blank ∧ piece.chunk ≠ .newline).map
    (·.start)
  let root : Node :=
    ⟨.sourceFile, true, none, first.getD source.length, source.length, members⟩
  (comments.foldl (fun tree comment => Node.insert comment tree) root, broken)

end ImportGuard
