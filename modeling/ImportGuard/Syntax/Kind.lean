/-!
# Kinds and roles of syntax nodes

A node of a Go syntax tree has a **kind** and, below its parent, perhaps a **role**.  The kinds that
the analysis tells apart have constructors of their own.  Any other kind keeps its name; a name that
ends in `_statement` is a statement of some sort, known by its stem.

`Kind.isAnchor` singles out the nodes that comments can belong to.
-/

namespace ImportGuard

/-- What a syntax node is. -/
inductive Kind where
  | sourceFile
  | packageClause
  | packageIdentifier
  | importDeclaration
  | importSpec
  | comment
  | functionDeclaration
  | methodDeclaration
  | functionLiteral
  | constDeclaration
  | varDeclaration
  | typeDeclaration
  | constSpec
  | varSpec
  | typeSpec
  | typeAlias
  | fieldDeclaration
  | parameterDeclaration
  | variadicParameterDeclaration
  | typeParameterDeclaration
  | methodElem
  | methodSpec
  | parameterList
  | typeParameterList
  | selectorExpression
  | qualifiedType
  | identifier
  | shortVarDeclaration
  | rangeClause
  | receiveStatement
  | block
  | ifStatement
  | forStatement
  | expressionSwitchStatement
  | typeSwitchStatement
  | selectStatement
  | expressionCase
  | defaultCase
  | typeCase
  | communicationCase
  /-- The mark `:=`. -/
  | define
  /-- Another statement, named by its stem and `_statement`. -/
  | statement (stem : String)
  /-- Any other kind. -/
  | other (name : String)
deriving DecidableEq, Repr, Inhabited

namespace Kind

/-- The names of the kinds that the analysis tells apart. -/
def table : List (String × Kind) :=
  [("source_file", sourceFile), ("package_clause", packageClause),
   ("package_identifier", packageIdentifier), ("import_declaration", importDeclaration),
   ("import_spec", importSpec), ("comment", comment),
   ("function_declaration", functionDeclaration), ("method_declaration", methodDeclaration),
   ("func_literal", functionLiteral), ("const_declaration", constDeclaration),
   ("var_declaration", varDeclaration), ("type_declaration", typeDeclaration),
   ("const_spec", constSpec), ("var_spec", varSpec), ("type_spec", typeSpec),
   ("type_alias", typeAlias), ("field_declaration", fieldDeclaration),
   ("parameter_declaration", parameterDeclaration),
   ("variadic_parameter_declaration", variadicParameterDeclaration),
   ("type_parameter_declaration", typeParameterDeclaration), ("method_elem", methodElem),
   ("method_spec", methodSpec), ("parameter_list", parameterList),
   ("type_parameter_list", typeParameterList), ("selector_expression", selectorExpression),
   ("qualified_type", qualifiedType), ("identifier", identifier),
   ("short_var_declaration", shortVarDeclaration), ("range_clause", rangeClause),
   ("receive_statement", receiveStatement), ("block", block), ("if_statement", ifStatement),
   ("for_statement", forStatement), ("expression_switch_statement", expressionSwitchStatement),
   ("type_switch_statement", typeSwitchStatement), ("select_statement", selectStatement),
   ("expression_case", expressionCase), ("default_case", defaultCase), ("type_case", typeCase),
   ("communication_case", communicationCase), (":=", define)]

/-- What the name of every other statement ends in. -/
def statementSuffix : String := "_statement"

def ofName (name : String) : Kind :=
  match table.lookup name with
  | some kind => kind
  | none =>
    let (chars, suffix) := (name.toList, statementSuffix.toList)
    if suffix.isSuffixOf chars then
      .statement (String.ofList (chars.take (chars.length - suffix.length)))
    else .other name

def name (kind : Kind) : String :=
  match kind with
  | .statement stem => stem ++ statementSuffix
  | .other name => name
  | kind => ((table.find? (·.2 = kind)).map (·.1)).getD ""

/-- Whether comments can belong to nodes of the kind: declarations, their specs, fields,
parameters, statements, blocks and the clauses of switches. -/
def isAnchor : Kind → Bool
  | functionDeclaration | methodDeclaration | importDeclaration | constDeclaration
  | varDeclaration | typeDeclaration | importSpec | constSpec | varSpec | typeSpec | typeAlias
  | fieldDeclaration | parameterDeclaration | variadicParameterDeclaration | methodElem
  | methodSpec | shortVarDeclaration | block | expressionCase | defaultCase | typeCase
  | communicationCase => true
  | receiveStatement | ifStatement | forStatement | expressionSwitchStatement
  | typeSwitchStatement | selectStatement | statement _ => true
  | _ => false

def isParameter : Kind → Bool
  | parameterDeclaration | variadicParameterDeclaration | typeParameterDeclaration => true
  | _ => false

end Kind

/-- What a node is to its parent. -/
inductive Role where
  | name
  | type
  | value
  | left
  | right
  | operand
  | selected
  | package
  | path
  | bound
  | body
  | result
  | receiver
  | parameters
  | typeParameters
deriving DecidableEq, Repr, Inhabited

namespace Role

def table : List (String × Role) :=
  [("name", name), ("type", type), ("value", value), ("left", left), ("right", right),
   ("operand", operand), ("field", selected), ("package", package), ("path", path),
   ("alias", bound), ("body", body), ("result", result), ("receiver", receiver),
   ("parameters", parameters), ("type_parameters", typeParameters)]

/-- The role with a name; a name that the analysis never asks for gives no role. -/
def ofName? (name : String) : Option Role :=
  table.lookup name

end Role

end ImportGuard
