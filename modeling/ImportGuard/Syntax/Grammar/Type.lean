import ImportGuard.Syntax.Grammar.Basic

/-!
# Types, parameters and signatures

In a list of parameters `a, b T` declares two names of one type, while `A, b.C` is two types without
names: names that stand directly before a named parameter belong to it.  `name [n]T` is a name with
the type of an array, and `T[A]` an instance of a generic type.
-/

namespace ImportGuard.Grammar

def startsType (token : Token) : Bool :=
  token.isName || ["*", "[", "(", "<-"].any (token.is ·) ||
    ["map", "chan", "func", "struct", "interface"].any (token.isWord ·)

def union (g : Grammar) (lineEnds : Bool) : Reader (List Node) := do
  let first ← g.type lineEnds
  let more ← collect do
    match ← look lineEnds with
    | some token =>
      if token.is "|" then
        let bar ← mark "|"
        return some [bar, ← g.type lineEnds]
      else return none
    | none => return none
  return first :: more.flatten

def typeArguments (g : Grammar) : Reader Node := do
  let opening ← mark "["
  let arguments ← commaTerminated "]" (plain "type_elem" <$> union g false)
  return plain "type_arguments" ([opening] ++ arguments ++ [← mark "]"])

/-- A type that is a name, of a package or of the file, perhaps with arguments. -/
def namedType (g : Grammar) (lineEnds : Bool) : Reader Node := do
  let first ← take Token.isName
  let base ←
    if (← look lineEnds).any (·.is ".") then
      let point ← mark "."
      let selected ← anyWord (.other "type_identifier")
      pure (node .qualifiedType
        [within .package (leaf first .packageIdentifier true), point, within .name selected])
    else pure (leaf first (.other "type_identifier") true)
  if (← look lineEnds).any (·.is "[") then
    return plain "generic_type" [base, ← typeArguments g]
  else return base

def arrayType (g : Grammar) (lineEnds : Bool) : Reader Node := do
  let opening ← mark "["
  let length ←
    if ← comesMark "]" then pure []
    else if ← comesMark "..." then pure [← mark "..."]
    else pure [← g.expression .inside]
  let closing ← mark "]"
  return plain "array_type" ([opening] ++ length ++ [closing, ← g.type lineEnds])

/-! ### Parameters -/

/-- A member of a list of parameters, before it is clear to which names a type belongs. -/
inductive Member where
  /-- A single name, of a parameter or of a type. -/
  | bare (token : Token)
  /-- A name and its type. -/
  | named (token : Token) (type : Node)
  /-- A type without a name, or a variadic parameter. -/
  | complete (declaration : Node)

def unnamed (type : Node) : Node :=
  node .parameterDeclaration [within .type type]

def parameterName (token : Token) : Node :=
  within .name (leaf token .identifier true)

def memberFromName (g : Grammar) (first : Token) (second : Option Token) : Reader Member := do
  let withType : Reader Member := do
    let _ ← take fun _ => true
    return .named first (← g.type false)
  let asType : Reader Member := (.complete <| unnamed ·) <$> g.type false
  let ends : Reader Unit := do
    unless (← comesMark ",") || (← comesMark ")") do failure
  match second with
  | none => asType
  | some token =>
    if token.is "," || token.is ")" then
      let _ ← take fun _ => true
      return .bare first
    else if token.is "..." then
      let _ ← take fun _ => true
      let dots ← mark "..."
      return .complete (node .variadicParameterDeclaration
        [parameterName first, dots, within .type (← g.type false)])
    else if token.is "[" then
      (do let found ← withType; ends; return found) <|> asType
    else if startsType token then withType
    else asType

def member (g : Grammar) : Reader Member := do
  match ← peek with
  | none => failure
  | some token =>
    if token.is "..." then
      let dots ← mark "..."
      return .complete
        (node .variadicParameterDeclaration [dots, within .type (← g.type false)])
    else if token.isName then memberFromName g token (← peekSecond)
    else return .complete (unnamed (← g.type false))

/-- The declarations of members, of which the names `waiting` come first. -/
def declarations (waiting : List Token) : List Member → List Node
  | [] => waiting.map typeOnly
  | .bare token :: rest => declarations (waiting ++ [token]) rest
  | .named token type :: rest =>
    node .parameterDeclaration
      ((waiting ++ [token]).map parameterName ++ [within .type type]) :: declarations [] rest
  | .complete declaration :: rest =>
    waiting.map typeOnly ++ declaration :: declarations [] rest
where
  typeOnly (token : Token) : Node :=
    unnamed (leaf token (.other "type_identifier") true)

def parameterList (g : Grammar) : Reader Node := do
  let opening ← mark "("
  let members ← commaTerminated ")" (member g)
  return node .parameterList ([opening] ++ declarations [] members ++ [← mark ")"])

/-- The parameters of a function and its result, if it has one. -/
def signature (g : Grammar) (lineEnds : Bool) : Reader (List Node) := do
  let parameters ← within .parameters <$> parameterList g
  match ← look lineEnds with
  | none => return [parameters]
  | some token =>
    if token.is "(" then return [parameters, within .result (← parameterList g)]
    else if startsType token then return [parameters, within .result (← g.type lineEnds)]
    else return [parameters]

def typeParameter (g : Grammar) : Reader Node := do
  let names ← commaList false (within .name <$> name .identifier)
  let constraint ← plain "type_constraint" <$> union g false
  return node .typeParameterDeclaration (names ++ [within .type constraint])

def typeParameterList (g : Grammar) : Reader Node := do
  let opening ← mark "["
  let parameters ← commaTerminated "]" (typeParameter g)
  return node .typeParameterList ([opening] ++ parameters ++ [← mark "]"])

/-! ### Structures and interfaces -/

def fieldParts (g : Grammar) : Reader (List Node) := do
  let named : Reader (List Node) := do
    let names ← commaList false (within .name <$> name (.other "field_identifier"))
    return names ++ [within .type (← g.type true)]
  let embedded : Reader (List Node) := return [within .type (← g.type true)]
  let ends : Reader Unit := do
    match ← look true with
    | none => pure ()
    | some token => unless token.is ";" || token.is "\x7d" || token.lexeme = .text do failure
  match ← peek, ← peekSecond with
  | some first, some second =>
    if !first.isName || second.newline then embedded
    else if second.is "[" then
      (do let parts ← embedded; ends; return parts) <|> named
    else if second.is "," || startsType second then named
    else embedded
  | _, _ => embedded

def field (g : Grammar) : Reader Node := do
  let parts ← fieldParts g
  if (← look true).any (·.lexeme = .text) then
    return node .fieldDeclaration (parts ++ [← stringLiteral])
  else return node .fieldDeclaration parts

def structType (g : Grammar) : Reader Node := do
  let opening := [← keyword "struct", ← mark "\x7b"]
  let fields ← terminated "\x7d" (field g)
  return plain "struct_type" (opening ++ fields ++ [← mark "\x7d"])

def interfaceElement (g : Grammar) : Reader Node := do
  if (← comes Token.isName) && (← peekSecond).any (·.is "(") then
    let method ← within .name <$> name (.other "field_identifier")
    return node .methodElem (method :: (← signature g true))
  else return plain "type_elem" (← union g true)

def interfaceType (g : Grammar) : Reader Node := do
  let opening := [← keyword "interface", ← mark "\x7b"]
  let elements ← terminated "\x7d" (interfaceElement g)
  return plain "interface_type" (opening ++ elements ++ [← mark "\x7d"])

/-! ### All types -/

def channelType (g : Grammar) (lineEnds : Bool) : Reader Node := do
  let chan ← keyword "chan"
  let arrow ← if ← comesMark "<-" then pure [← mark "<-"] else pure []
  return plain "channel_type" ([chan] ++ arrow ++ [← g.type lineEnds])

def keywordType (g : Grammar) (lineEnds : Bool) (text : String) : Reader Node := do
  match text with
  | "map" =>
    let opening := [← keyword "map", ← mark "["]
    let key ← g.type false
    let closing ← mark "]"
    return plain "map_type" (opening ++ [key, closing, ← g.type lineEnds])
  | "chan" => channelType g lineEnds
  | "func" =>
    let func ← keyword "func"
    return plain "function_type" (func :: (← signature g lineEnds))
  | "struct" => structType g
  | "interface" => interfaceType g
  | _ => namedType g lineEnds

def readType (g : Grammar) (lineEnds : Bool) : Reader Node := do
  match ← peek with
  | none => failure
  | some token =>
    match token.lexeme with
    | .word text => keywordType g lineEnds text
    | .mark "(" => return plain "parenthesized_type" [← mark "(", ← g.type false, ← mark ")"]
    | .mark "*" => return plain "pointer_type" [← mark "*", ← g.type lineEnds]
    | .mark "~" => return plain "negated_type" [← mark "~", ← g.type lineEnds]
    | .mark "<-" => return plain "channel_type" [← mark "<-", ← channelType g lineEnds]
    | .mark "[" => arrayType g lineEnds
    | _ => failure

end ImportGuard.Grammar
