/-!
# Kinds of tree nodes

A kind is the label of a grammar construct.  The set is open: a tree may hold labels that are not
named here, and each stage of the pipeline acts on the kinds it knows.

## Main definitions

* `Kind` and the labels that the pipeline acts on.
* `Kind.isAssignmentOperator`, `Kind.isLiteral`, `Kind.isType` — the classes of kinds.
* `Kind.canonical` — the label that a label is an alias of.
-/

namespace TreeMend

/-- The label of a grammar construct. -/
abbrev Kind := String

namespace Kind

/-! ### The labels -/

/-- The root, which covers a whole file. -/
@[match_pattern] abbrev sourceFile : Kind := "SourceFile"

/-- The marker of width zero that closes a source file. -/
@[match_pattern] abbrev endOfFile : Kind := "EndOfFileToken"

/-- A statement around a single declaration list. -/
@[match_pattern] abbrev variableStatement : Kind := "VariableStatement"

/-- The declarations behind one binding keyword, without the closing semicolon. -/
@[match_pattern] abbrev declarationList : Kind := "VariableDeclarationList"

/-- One binding: a name, perhaps a type, perhaps an initializer. -/
@[match_pattern] abbrev declaration : Kind := "VariableDeclaration"

/-- A plain name. -/
@[match_pattern] abbrev identifier : Kind := "Identifier"

/-- A member name that starts with a hash. -/
@[match_pattern] abbrev privateIdentifier : Kind := "PrivateIdentifier"

/-- The type keyword `string`. -/
@[match_pattern] abbrev stringKeyword : Kind := "StringKeyword"

/-- A type given by name. -/
@[match_pattern] abbrev typeReference : Kind := "TypeReference"

/-- A quoted string. -/
@[match_pattern] abbrev stringLiteral : Kind := "StringLiteral"

/-- A number. -/
@[match_pattern] abbrev numericLiteral : Kind := "NumericLiteral"

/-- A template without substitutions. -/
@[match_pattern] abbrev plainTemplate : Kind := "NoSubstitutionTemplateLiteral"

/-- A template with substitutions. -/
@[match_pattern] abbrev templateExpression : Kind := "TemplateExpression"

/-- A statement that is a single expression. -/
@[match_pattern] abbrev expressionStatement : Kind := "ExpressionStatement"

/-- Two operands around an operator, assignments included. -/
@[match_pattern] abbrev binaryExpression : Kind := "BinaryExpression"

/-- The operator `=`. -/
@[match_pattern] abbrev equalsToken : Kind := "EqualsToken"

/-- A call: the callee, then the arguments. -/
@[match_pattern] abbrev callExpression : Kind := "CallExpression"

/-- Access to a named member. -/
@[match_pattern] abbrev propertyAccess : Kind := "PropertyAccessExpression"

/-- An operator before its operand. -/
@[match_pattern] abbrev prefixUnary : Kind := "PrefixUnaryExpression"

/-- An operator after its operand. -/
@[match_pattern] abbrev postfixUnary : Kind := "PostfixUnaryExpression"

/-- A class. -/
@[match_pattern] abbrev classDeclaration : Kind := "ClassDeclaration"

/-- What a class extends or implements. -/
@[match_pattern] abbrev heritageClause : Kind := "HeritageClause"

/-- One operand of a heritage clause. -/
@[match_pattern] abbrev heritageOperand : Kind := "ExpressionWithTypeArguments"

/-- The constructor of a class. -/
@[match_pattern] abbrev constructorMember : Kind := "Constructor"

/-- A method of a class. -/
@[match_pattern] abbrev methodDeclaration : Kind := "MethodDeclaration"

/-- A statement list in braces. -/
@[match_pattern] abbrev block : Kind := "Block"

/-- The reference to the base class inside a class. -/
@[match_pattern] abbrev superKeyword : Kind := "SuperKeyword"

/-- A stretch of source that could not be parsed. -/
@[match_pattern] abbrev unknown : Kind := "Unknown"

/-! ### Classes of kinds -/

/-- The operators that assign to their left operand. -/
def assignmentOperators : List Kind :=
  [equalsToken, "PlusEqualsToken", "MinusEqualsToken", "AsteriskEqualsToken",
    "AsteriskAsteriskEqualsToken", "SlashEqualsToken", "PercentEqualsToken",
    "LessThanLessThanEqualsToken", "GreaterThanGreaterThanEqualsToken",
    "GreaterThanGreaterThanGreaterThanEqualsToken", "AmpersandEqualsToken", "BarEqualsToken",
    "CaretEqualsToken", "AmpersandAmpersandEqualsToken", "BarBarEqualsToken",
    "QuestionQuestionEqualsToken", "FirstAssignment", "FirstCompoundAssignment",
    "LastCompoundAssignment"]

/-- The kinds of values that are written out in the source. -/
def literals : List Kind :=
  [stringLiteral, numericLiteral, "BigIntLiteral", plainTemplate, templateExpression,
    "RegularExpressionLiteral", "TrueKeyword", "FalseKeyword", "NullKeyword"]

/-- The kinds of type annotations. -/
def types : List Kind :=
  [stringKeyword, "NumberKeyword", "BooleanKeyword", "AnyKeyword", "UnknownKeyword",
    "VoidKeyword", "NeverKeyword", "ObjectKeyword", "SymbolKeyword", "BigIntKeyword",
    "UndefinedKeyword", typeReference, "ArrayType", "UnionType", "IntersectionType",
    "FunctionType", "TypeLiteral", "LiteralType", "TupleType"]

/-- Whether `k` is an operator that assigns to its left operand. -/
def isAssignmentOperator (k : Kind) : Bool := assignmentOperators.contains k

/-- Whether `k` is a value written out in the source. -/
def isLiteral (k : Kind) : Bool := literals.contains k

/-- Whether `k` is a type annotation. -/
def isType (k : Kind) : Bool := types.contains k

/-- The label that `k` is another name of, or `k` itself. -/
def canonical : Kind → Kind
  | "FirstStatement" => variableStatement
  | "FirstAssignment" => equalsToken
  | "FirstLiteralToken" => numericLiteral
  | "FirstTemplateToken" => plainTemplate
  | k => k

end Kind

end TreeMend
