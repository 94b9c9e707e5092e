import TreeMend.Tree.Kind

/-!
# From grammar rules to kinds

The names that the TypeScript grammar gives to its rules, and the kinds of the generic tree that
they become.  A rule without an entry of its own becomes the name that its words spell when each
starts with a capital letter.

## Main definitions

* `splicedRules` — rules that leave no node of their own behind.
* `operatorKind` — the kind of an operator.
* `typeKeywordKind`, `modifierKind`, `unaryKind` — kinds that depend on a word of the source.
* `ruleKind` — the kind of any other rule.
-/

namespace TreeMend.ParseTree

/-- The rules whose parts belong to the construct around them. -/
def splicedRules : List String :=
  ["class_heritage", "class_body", "formal_parameters", "arguments", "type_annotation",
    "type_arguments", "else_clause", "finally_clause", "template_substitution", "switch_body",
    "enum_body", "interface_body"]

/-- The rules that become a single node without children, with their kinds. -/
def leafKinds : List (String × Kind) :=
  [("identifier", Kind.identifier), ("property_identifier", Kind.identifier),
    ("shorthand_property_identifier", Kind.identifier),
    ("shorthand_property_identifier_pattern", Kind.identifier), ("undefined", Kind.identifier),
    ("private_property_identifier", Kind.privateIdentifier), ("this", "ThisKeyword"),
    ("super", Kind.superKeyword), ("string", Kind.stringLiteral), ("number", Kind.numericLiteral),
    ("true", "TrueKeyword"), ("false", "FalseKeyword"), ("null", "NullKeyword"),
    ("regex", "RegularExpressionLiteral"), ("optional_chain", "QuestionDotToken")]

/-- The kinds of the type keywords. -/
def typeKeywordKinds : List (String × Kind) :=
  [("string", Kind.stringKeyword), ("number", "NumberKeyword"), ("boolean", "BooleanKeyword"),
    ("any", "AnyKeyword"), ("unknown", "UnknownKeyword"), ("void", "VoidKeyword"),
    ("never", "NeverKeyword"), ("object", "ObjectKeyword"), ("symbol", "SymbolKeyword"),
    ("bigint", "BigIntKeyword"), ("undefined", "UndefinedKeyword")]

/-- The kind of a predefined type, by its source text. -/
def typeKeywordKind (text : String) : Kind :=
  (typeKeywordKinds.lookup text).getD Kind.typeReference

/-- The kind of an accessibility modifier, by its source text. -/
def modifierKind : String → Kind
  | "private" => "PrivateKeyword"
  | "protected" => "ProtectedKeyword"
  | _ => "PublicKeyword"

/-- The kind of an expression with an operator in front, by the operator. -/
def unaryKind : String → Kind
  | "typeof" => "TypeOfExpression"
  | "void" => "VoidExpression"
  | "delete" => "DeleteExpression"
  | _ => Kind.prefixUnary

/-- The kinds of the operators between two operands. -/
def operatorKinds : List (String × Kind) :=
  [("=", Kind.equalsToken), ("+=", "PlusEqualsToken"), ("-=", "MinusEqualsToken"),
    ("*=", "AsteriskEqualsToken"), ("**=", "AsteriskAsteriskEqualsToken"),
    ("/=", "SlashEqualsToken"), ("%=", "PercentEqualsToken"),
    ("<<=", "LessThanLessThanEqualsToken"), (">>=", "GreaterThanGreaterThanEqualsToken"),
    (">>>=", "GreaterThanGreaterThanGreaterThanEqualsToken"), ("&=", "AmpersandEqualsToken"),
    ("|=", "BarEqualsToken"), ("^=", "CaretEqualsToken"),
    ("&&=", "AmpersandAmpersandEqualsToken"), ("||=", "BarBarEqualsToken"),
    ("??=", "QuestionQuestionEqualsToken"), ("+", "PlusToken"), ("-", "MinusToken"),
    ("*", "AsteriskToken"), ("**", "AsteriskAsteriskToken"), ("/", "SlashToken"),
    ("%", "PercentToken"), ("==", "EqualsEqualsToken"), ("===", "EqualsEqualsEqualsToken"),
    ("!=", "ExclamationEqualsToken"), ("!==", "ExclamationEqualsEqualsToken"),
    ("<", "LessThanToken"), (">", "GreaterThanToken"), ("<=", "LessThanEqualsToken"),
    (">=", "GreaterThanEqualsToken"), ("&&", "AmpersandAmpersandToken"), ("||", "BarBarToken"),
    ("??", "QuestionQuestionToken"), ("&", "AmpersandToken"), ("|", "BarToken"),
    ("^", "CaretToken"), ("<<", "LessThanLessThanToken"), (">>", "GreaterThanGreaterThanToken"),
    (">>>", "GreaterThanGreaterThanGreaterThanToken"), ("instanceof", "InstanceOfKeyword"),
    ("in", "InKeyword")]

/-- The kind of an operator between two operands. -/
def operatorKind (operator : String) : Kind :=
  (operatorKinds.lookup operator).getD Kind.unknown

/-- The kinds that are not spelled like their rules. -/
def branchKinds : List (String × Kind) :=
  [("variable_declarator", Kind.declaration), ("generic_type", Kind.typeReference),
    ("object_type", "TypeLiteral"), ("class_declaration", Kind.classDeclaration),
    ("abstract_class_declaration", Kind.classDeclaration), ("class", "ClassExpression"),
    ("required_parameter", "Parameter"), ("optional_parameter", "Parameter"),
    ("public_field_definition", "PropertyDeclaration"),
    ("field_definition", "PropertyDeclaration"), ("ERROR", Kind.unknown),
    ("statement_block", Kind.block), ("call_expression", Kind.callExpression),
    ("member_expression", Kind.propertyAccess),
    ("subscript_expression", "ElementAccessExpression"), ("new_expression", "NewExpression"),
    ("ternary_expression", "ConditionalExpression"),
    ("function_expression", "FunctionExpression"), ("function", "FunctionExpression"),
    ("generator_function_declaration", "FunctionDeclaration"),
    ("object", "ObjectLiteralExpression"), ("array", "ArrayLiteralExpression"),
    ("pair", "PropertyAssignment"), ("object_pattern", "ObjectBindingPattern"),
    ("array_pattern", "ArrayBindingPattern"), ("import_statement", "ImportDeclaration"),
    ("export_statement", "ExportDeclaration"), ("catch_clause", "CatchClause"),
    ("switch_case", "CaseClause"), ("switch_default", "DefaultClause")]

/-- The words of a rule name, split at underscores. -/
def words : List Char → List (List Char)
  | [] => [[]]
  | '_' :: cs => [] :: words cs
  | c :: cs =>
    match words cs with
    | w :: ws => (c :: w) :: ws
    | [] => [[c]]

/-- The word with a capital letter in front. -/
def capitalize : List Char → List Char
  | [] => []
  | c :: cs => c.toUpper :: cs

/-- The words of a rule name joined, each with a capital letter in front. -/
def joinCapitalized (rule : String) : Kind :=
  String.ofList ((words rule.toList).flatMap capitalize)

/-- The kind of a rule that keeps its parts. -/
def ruleKind (rule : String) : Kind :=
  (branchKinds.lookup rule).getD (joinCapitalized rule)

end TreeMend.ParseTree
