import ImportGuard.Syntax.Grammar.Expression

/-!
# Statements and declarations

A line feed or a semicolon ends a statement, but only where the statement can end.  A clause of a
switch that has statements reaches to the end of the terminator of its last statement; any other
node reaches from its first to its last token.
-/

namespace ImportGuard.Grammar

def assignments : List String :=
  ["=", "+=", "-=", "*=", "/=", "%=", "&=", "|=", "^=", "<<=", ">>=", "&^="]

/-- A statement without a keyword: an expression, a send, an increment or decrement, an assignment,
or a declaration with `:=`. -/
def readSimple (g : Grammar) (setting : Setting) : Reader Node := do
  let list ← expressionList g setting
  let alone : Node := match list.children with
    | [single] => single
    | _ => list
  match ← look setting.lineEnds with
  | none => return node (.statement "expression") [alone]
  | some token =>
    if token.is ":=" then
      let define ← mark ":="
      let right ← expressionList g setting
      return node .shortVarDeclaration [within .left list, define, within .right right]
    else if assignments.any (token.is ·) then
      let operator ← take fun _ => true
      let right ← expressionList g setting
      return node (.statement "assignment")
        [within .left list, sign operator, within .right right]
    else if token.is "++" then return node (.statement "inc") [alone, ← mark "++"]
    else if token.is "--" then return node (.statement "dec") [alone, ← mark "--"]
    else if token.is "<-" then
      return node (.statement "send") [alone, ← mark "<-", ← g.expression setting]
    else return node (.statement "expression") [alone]

/-- The condition that a statement in a header turns out to be. -/
def condition (statement : Node) : Node :=
  if statement.kind = .statement "expression" then
    match statement.children with
    | [inner] => inner
    | _ => statement
  else statement

/-! ### Declarations -/

/-- A keyword and its specs: one, or any number in parentheses. -/
def specs (kind : Kind) (text : String) (spec : Reader Node) : Reader Node := do
  let first ← keyword text
  if ← comesMark "(" then
    let opening ← mark "("
    let members ← terminated ")" spec
    return node kind ([first, opening] ++ members ++ [← mark ")"])
  else return node kind [first, ← spec]

def values (g : Grammar) : Reader (List Node) := do
  if (← look true).any (·.is "=") then
    let equals ← mark "="
    return [equals, within .value (← expressionList g .statement)]
  else return []

def declaredNames : Reader (List Node) :=
  commaList true (within .name <$> name .identifier)

def constSpec (g : Grammar) : Reader Node := do
  let names ← declaredNames
  let type ←
    if (← look true).any startsType then pure [within .type (← g.type true)] else pure []
  return node .constSpec (names ++ type ++ (← values g))

def varSpec (g : Grammar) : Reader Node := do
  let names ← declaredNames
  let type ←
    if ← comesMark "=" then pure [] else pure [within .type (← g.type true)]
  return node .varSpec (names ++ type ++ (← values g))

/-- A type and what it stands for.  `[n]T` behind the name is the type of an array if it can be one,
and otherwise a list of type parameters. -/
def typeSpec (g : Grammar) : Reader Node := do
  let declared ← within .name <$> name (.other "type_identifier")
  let definition (parameters : List Node) : Reader Node := do
    if ← comesMark "=" then
      let equals ← mark "="
      return node .typeAlias
        ([declared] ++ parameters ++ [equals, within .type (← g.type true)])
    else return node .typeSpec ([declared] ++ parameters ++ [within .type (← g.type true)])
  let generic : Reader Node := do
    definition [within .typeParameters (← typeParameterList g)]
  if ← comesMark "[" then definition [] <|> generic else definition []

def declaration (g : Grammar) (text : String) : Reader Node :=
  match text with
  | "const" => specs .constDeclaration text (constSpec g)
  | "var" => specs .varDeclaration text (varSpec g)
  | _ => specs .typeDeclaration text (typeSpec g)

/-! ### Lists of statements -/

def comesEnd : Reader Bool := do
  match ← peek with
  | none => return true
  | some token => return token.is "\x7d" || token.isWord "case" || token.isWord "default"

def isEmptyLabel (statement : Node) : Bool :=
  statement.kind = .statement "labeled" && statement.children.length = 2

/-- A list of statements, each with the end of its terminator. -/
def statements (g : Grammar) : Reader (List (Node × Nat)) :=
  collect do
    if ← comesEnd then return none
    let found ← g.statement
    let stop := match (← get).last with
      | some token => if isEmptyLabel found then found.stop else token.closed
      | none => found.stop
    if ← comesMark ";" then
      let _ ← mark ";"
    else
      match ← peek with
      | none => pure ()
      | some token => unless token.newline || (← comesEnd) do failure
    return some (found, stop)

def readBlock (g : Grammar) : Reader Node := do
  let opening ← mark "\x7b"
  let body ← statements g
  return node .block ([opening] ++ body.map (·.1) ++ [← mark "\x7d"])

/-- A clause of a switch: its head, the colon, and its statements. -/
def clause (g : Grammar) (kind : Kind) (head : List Node) : Reader Node := do
  let colon ← mark ":"
  let body ← statements g
  let whole := node kind (head ++ [colon] ++ body.map (·.1))
  match body.getLast? with
  | none => return whole
  | some (_, stop) => return { whole with stop := stop }

/-- The clauses of a switch in braces, where `head` reads what stands behind `case`. -/
def clauses (g : Grammar) (kind : Kind) (head : Reader (List Node)) : Reader (List Node) := do
  let opening ← mark "\x7b"
  let members ← collect do
    if ← comesMark "\x7d" then return none
    else if ← comes (·.isWord "default") then
      return some (← clause g .defaultCase [← keyword "default"])
    else
      let case ← keyword "case"
      return some (← clause g kind (case :: (← head)))
  return [opening] ++ members ++ [← mark "\x7d"]

/-! ### Statements with a header -/

/-- A statement that stands before the condition of a header, if a semicolon tells so. -/
def initializer? (g : Grammar) : Reader (List Node) :=
  (do
    let first ← g.simple .heading
    return [first, ← mark ";"]) <|> pure []

/-- An `if` with all its alternatives, of which `count` at most. -/
def ifStatement (g : Grammar) : (count : Nat) → Reader Node
  | 0 => failure
  | count + 1 => do
    let first ← keyword "if"
    let initial ← initializer? g
    let test ← g.expression .heading
    let parts := [first] ++ initial ++ [test, ← g.block]
    if (← look true).any (·.isWord "else") then
      let otherwise ← keyword "else"
      let alternative ← if ← comes (·.isWord "if") then ifStatement g count else g.block
      return node .ifStatement (parts ++ [otherwise, alternative])
    else return node .ifStatement parts

def rangeClause (g : Grammar) : Reader Node := do
  let left ←
    if ← comes (·.isWord "range") then pure []
    else
      let list ← expressionList g .heading
      let operator ← take fun token => token.is ":=" || token.is "="
      pure [within .left list, sign operator]
  let range ← keyword "range"
  return node .rangeClause (left ++ [range, within .right (← g.expression .heading)])

def forClause (g : Grammar) : Reader Node := do
  let first ← if ← comesMark ";" then pure [] else pure [← g.simple .heading]
  let second ← mark ";"
  let test ← if ← comesMark ";" then pure [] else pure [← g.expression .heading]
  let third ← mark ";"
  let step ← if ← comesMark "\x7b" then pure [] else pure [← g.simple .heading]
  return plain "for_clause" (first ++ [second] ++ test ++ [third] ++ step)

def forStatement (g : Grammar) : Reader Node := do
  let first ← keyword "for"
  let header ←
    if ← comesMark "\x7b" then pure []
    else pure [← rangeClause g <|> forClause g <|> g.expression .heading]
  return node .forStatement ([first] ++ header ++ [within .body (← g.block)])

/-- The header of a type switch: what it binds, the value, and `.(type)`. -/
def typeGuard (g : Grammar) : Reader (List Node) := do
  let bound ←
    (do
      let list ← expressionList g .heading
      return [within .bound list, ← mark ":="]) <|> pure []
  let value ← within .value <$> g.expression .heading
  let guard := [← mark ".", ← mark "(", ← keyword "type", ← mark ")"]
  return bound ++ [value] ++ guard

def caseTypes (g : Grammar) : Reader (List Node) :=
  commaList false (within .type <$> g.type false)

def switchStatement (g : Grammar) : Reader Node := do
  let overTypes : Reader Node := do
    let first ← keyword "switch"
    let header ← typeGuard g <|> (do
      let initial := [← g.simple .heading, ← mark ";"]
      return initial ++ (← typeGuard g))
    return node .typeSwitchStatement ([first] ++ header ++ (← clauses g .typeCase (caseTypes g)))
  let overValues : Reader Node := do
    let first ← keyword "switch"
    let initial ← if ← comesMark "\x7b" then pure [] else initializer? g
    let value ← if ← comesMark "\x7b" then pure [] else pure [← g.expression .heading]
    let cases ← clauses g .expressionCase (return [← expressionList g .inside])
    return node .expressionSwitchStatement ([first] ++ initial ++ value ++ cases)
  overTypes <|> overValues

/-- What a clause of a `select` waits for: a send, or a receive with or without a left side. -/
def communication (g : Grammar) : Reader (List Node) := do
  let list ← expressionList g .inside
  let alone : Node := match list.children with
    | [single] => single
    | _ => list
  match ← peek with
  | none => failure
  | some token =>
    if token.is ":=" || token.is "=" then
      let operator ← take fun _ => true
      let right ← within .right <$> g.expression .inside
      return [node .receiveStatement [within .left list, sign operator, right]]
    else if token.is "<-" then
      return [node (.statement "send") [alone, ← mark "<-", ← g.expression .inside]]
    else return [node .receiveStatement [within .right alone]]

def selectStatement (g : Grammar) : Reader Node := do
  let first ← keyword "select"
  return node .selectStatement (first :: (← clauses g .communicationCase (communication g)))

/-! ### All statements -/

/-- A statement that names a label, or may name one. -/
def jump (stem : String) (required : Bool) : Reader Node := do
  let first ← take fun _ => true
  if required || (← look true).any Token.isName then
    return node (.statement stem) [sign first, ← name (.other "label_name")]
  else return node (.statement stem) [sign first]

def labeled (g : Grammar) : Reader Node := do
  let label ← anyWord (.other "label_name")
  let colon ← mark ":"
  if ← comesEnd then return node (.statement "labeled") [label, colon]
  else return node (.statement "labeled") [label, colon, ← g.statement]

def wordStatement (g : Grammar) (text : String) : Reader Node := do
  match text with
  | "const" | "var" | "type" => declaration g text
  | "return" =>
    let first ← keyword "return"
    match ← look true with
    | none => return node (.statement "return") [first]
    | some token =>
      if token.is ";" || (← comesEnd) then return node (.statement "return") [first]
      else return node (.statement "return") [first, ← expressionList g .statement]
  | "go" | "defer" =>
    let first ← keyword text
    return node (.statement text) [first, ← g.expression .statement]
  | "break" | "continue" => jump text false
  | "goto" => jump text true
  | "fallthrough" => return node (.statement text) [← keyword text]
  | "if" => ifStatement g ((← get).tokens.length + 1)
  | "for" => forStatement g
  | "switch" => switchStatement g
  | "select" => selectStatement g
  | _ =>
    if (← comes Token.isName) && (← peekSecond).any (·.is ":") then labeled g
    else g.simple .statement

def readStatement (g : Grammar) : Reader Node := do
  match ← peek with
  | none => failure
  | some token =>
    match token.lexeme with
    | .word text => wordStatement g text
    | .mark "\x7b" => g.block
    | _ => g.simple .statement

end ImportGuard.Grammar
