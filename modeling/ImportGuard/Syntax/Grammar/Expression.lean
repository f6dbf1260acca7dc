import ImportGuard.Syntax.Grammar.Type

/-!
# Expressions

An expression is a row of operands with operators between them; how tightly operators bind does not
matter to the analysis, so the row stays flat.  Types are expressions too, since they stand in
conversions, in literals and among the arguments of calls.

A selection `a.b` keeps its two parts in roles, because it is what the analysis looks for.
-/

namespace ImportGuard.Grammar

def prefixes : List String := ["+", "-", "!", "^", "*", "&", "<-", "~"]

def operators : List String :=
  ["||", "&&", "==", "!=", "<", "<=", ">", ">=", "+", "-", "|", "^", "*", "/", "%", "<<", ">>", "&",
   "&^"]

/-- The names that always mean the same in an expression and are no identifiers there. -/
def reserved : List String := ["nil", "true", "false", "iota"]

def nameNode (token : Token) : Node :=
  match token.lexeme with
  | .word text =>
    if reserved.contains text then leaf token (.other text) true else leaf token .identifier true
  | _ => sign token

/-- A function literal, or the type of a function if no body comes. -/
def function (g : Grammar) (setting : Setting) : Reader Node := do
  let func ← keyword "func"
  let parts ← signature g setting.lineEnds
  if (← look setting.lineEnds).any (·.is "\x7b") then
    return node .functionLiteral (func :: parts ++ [within .body (← g.block)])
  else return plain "function_type" (func :: parts)

/-- A type that a composite literal may follow, and the literal if it does. -/
def literalOfType (g : Grammar) (setting : Setting) : Reader Node := do
  let type ← g.type setting.lineEnds
  if (← look setting.lineEnds).any (·.is "\x7b") then
    return plain "composite_literal" [type, ← g.literalValue]
  else return type

/-- What stands between square brackets behind an operand: an index, the bounds of a slice, or the
arguments of a type. -/
def brackets (g : Grammar) : Reader (List Node) := do
  let opening ← mark "["
  let parts ← collect do
    if ← comesMark "]" then return none
    else if ← comesMark ":" then return some (← mark ":")
    else if ← comesMark "," then return some (← mark ",")
    else return some (← g.expression .inside)
  return [opening] ++ parts ++ [← mark "]"]

def arguments (g : Grammar) : Reader Node := do
  let opening ← mark "("
  let parts ← collect do
    if ← comesMark ")" then return none
    else if ← comesMark "..." then return some (← mark "...")
    else if ← comesMark "," then return some (← mark ",")
    else return some (← g.expression .inside)
  return plain "argument_list" ([opening] ++ parts ++ [← mark ")"])

/-- Whether `.(type)` comes, which belongs to the header of a type switch. -/
def comesTypeGuard : Reader Bool := do
  match (← get).tokens with
  | point :: opening :: word :: _ => return point.is "." && opening.is "(" && word.isWord "type"
  | _ => return false

/-- An operand with one more suffix, if one comes: a selection, a type assertion, brackets, a call,
or the value of a composite literal.  `literal` tells whether the operand can be the type of a
literal; the answer tells so of the result. -/
def suffix? (g : Grammar) (setting : Setting) (operand : Node) (literal : Bool) :
    Reader (Option (Node × Bool)) := do
  match ← lookLexeme setting.lineEnds with
  | some (.mark ".") =>
    if ← comesTypeGuard then return none
    let point ← mark "."
    if ← comesMark "(" then
      let parts := [← mark "(", ← g.type false, ← mark ")"]
      return some (plain "type_assertion_expression" (operand :: point :: parts), false)
    let selected ← anyWord (.other "field_identifier")
    let selection := node .selectorExpression
      [within .operand operand, point, within .selected selected]
    return some (selection, literal && operand.kind = .identifier)
  | some (.mark "[") =>
    return some (plain "index_expression" (operand :: (← brackets g)), literal)
  | some (.mark "(") =>
    return some (plain "call_expression" [operand, ← arguments g], false)
  | some (.mark "\x7b") =>
    if literal && !setting.header then
      return some (plain "composite_literal" [operand, ← g.literalValue], false)
    else return none
  | _ => return none

/-- An operand with all its suffixes, at most `count` of them. -/
def suffixes (g : Grammar) (setting : Setting) (operand : Node) (literal : Bool) :
    (count : Nat) → Reader Node
  | 0 => pure operand
  | count + 1 => do
    match ← suffix? g setting operand literal with
    | none => pure operand
    | some (longer, literal) => suffixes g setting longer literal count

/-- An operand without suffixes, and whether it can be the type of a literal. -/
def operand (g : Grammar) (setting : Setting) : Reader (Node × Bool) := do
  match ← peek with
  | none => failure
  | some token =>
    match token.lexeme with
    | .constant | .text => return (sign (← take fun _ => true), false)
    | .word "func" => return (← function g setting, false)
    | .word "map" | .word "struct" | .mark "[" => return (← literalOfType g setting, false)
    | .word "chan" | .word "interface" => return (← g.type setting.lineEnds, false)
    | .mark "(" =>
      return (plain "parenthesized_expression"
        [← mark "(", ← g.expression .inside, ← mark ")"], false)
    | .word _ =>
      let token ← take Token.isName
      return (nameNode token, true)
    | _ => failure

/-- An operand with the operators before it, at most `count` of them, and its suffixes. -/
def unary (g : Grammar) (setting : Setting) : (count : Nat) → Reader Node
  | 0 => failure
  | count + 1 => do
    if ← comes fun token => prefixes.any (token.is ·) then
      let operator ← take fun _ => true
      return plain "unary_expression" [sign operator, ← unary g setting count]
    else
      let (first, literal) ← operand g setting
      suffixes g setting first literal (← get).tokens.length

def term (g : Grammar) (setting : Setting) : Reader Node := do
  unary g setting ((← get).tokens.length + 1)

def readExpression (g : Grammar) (setting : Setting) : Reader Node := do
  let first ← term g setting
  let more ← collect do
    match ← look setting.lineEnds with
    | some token =>
      if operators.any (token.is ·) then
        let operator ← take fun _ => true
        return some [sign operator, ← term g setting]
      else return none
    | none => return none
  if more.isEmpty then return first
  else return plain "binary_expression" (first :: more.flatten)

def expressionList (g : Grammar) (setting : Setting) : Reader Node := do
  return plain "expression_list" (← commaList setting.lineEnds (g.expression setting))

def literalElement (g : Grammar) : Reader Node := do
  let part : Reader Node := do
    if ← comesMark "\x7b" then g.literalValue else g.expression .inside
  let first ← part
  if ← comesMark ":" then
    let colon ← mark ":"
    return plain "keyed_element" [first, colon, ← part]
  else return first

def readLiteralValue (g : Grammar) : Reader Node := do
  let opening ← mark "\x7b"
  let elements ← commaTerminated "\x7d" (literalElement g)
  return plain "literal_value" ([opening] ++ elements ++ [← mark "\x7d"])

end ImportGuard.Grammar
