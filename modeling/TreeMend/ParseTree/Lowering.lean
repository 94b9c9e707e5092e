import TreeMend.ParseTree.Basic
import TreeMend.ParseTree.Vocabulary
import TreeMend.Text.Bytes
import TreeMend.Tree.Node

/-!
# The generic tree of a parse tree

Lowering keeps what carries meaning: punctuation and comments go, wrapper rules hand their parts
to the construct around them, and every node that stays gets the text between its offsets.  What
could not be parsed stays as an unknown node, wherever it stands.

## Main definitions

* `textOf` — the source text of a node.
* `Shape`, `shapeOf` — what becomes of a node, decided by the node and its direct children.
* `lowerInto`, `lowerChildren` — the generic nodes that a parse tree, or a list of them, leaves.
* `lowerProgram` — the source file node of a whole source text.
-/

namespace TreeMend.ParseTree

variable (src : String)

/-- The source text between two offsets; empty if it cannot be cut out. -/
def textBetween (start stop : Nat) : String := (Text.slice? src start stop).getD ""

/-- The source text of a node. -/
def textOf (tok : Token) : String := textBetween src tok.start tok.stop

/-- The byte range of a node. -/
def Token.span (tok : Token) : Span := ⟨tok.start, tok.stop⟩

/-- The generic node over the range of `tok`. -/
def nodeOf (kind : Kind) (tok : Token) (children : List Node) : Node :=
  ⟨kind, textOf src tok, tok.span, children⟩

/-! ### What becomes of a node -/

/-- What becomes of a node that is kept. -/
inductive Shape where
  /-- A node without children. -/
  | leaf (kind : Kind)
  /-- A node with the children that its parts leave. -/
  | branch (kind : Kind)
  /-- A type reference around its own name. -/
  | typeName
  /-- A statement around a declaration list. -/
  | variableStatement
  /-- Two operands around an operator of the given kind. -/
  | operands (operator : Kind)
  /-- A template and what its substitutions leave. -/
  | template
  /-- A heritage clause, whose operands are wrapped one by one. -/
  | heritage
  /-- A constructor, which loses its name. -/
  | constructorMember
  deriving DecidableEq, Repr, Inhabited

/-- The kind of the token in place `operator`; empty if there is none. -/
def operatorOf (t : ParseTree) : String := ((t.field? "operator").map kind).getD ""

/-- What becomes of a node that is kept, by its rule and its direct children. -/
def shapeOf (t : ParseTree) : Shape :=
  match t.kind with
  | "lexical_declaration" => .variableStatement
  | "variable_declaration" => .variableStatement
  | "predefined_type" => .leaf (typeKeywordKind (textOf src t.token))
  | "accessibility_modifier" => .leaf (modifierKind (textOf src t.token))
  | "type_identifier" => .typeName
  | "nested_type_identifier" => .typeName
  | "template_string" => .template
  | "assignment_expression" => .operands Kind.equalsToken
  | "augmented_assignment_expression" => .operands (operatorKind (operatorOf t))
  | "binary_expression" => .operands (operatorKind (operatorOf t))
  | "update_expression" =>
    if t.children.head?.any (!·.token.named) then .branch Kind.prefixUnary
    else .branch Kind.postfixUnary
  | "unary_expression" => .branch (unaryKind (operatorOf t))
  | "extends_clause" => .heritage
  | "implements_clause" => .heritage
  | "extends_type_clause" => .heritage
  | "method_definition" =>
    if (t.field? "name").any fun name => textOf src name.token == "constructor" then
      .constructorMember
    else .branch Kind.methodDeclaration
  | "for_in_statement" =>
    if operatorOf t == "of" then .branch "ForOfStatement" else .branch "ForInStatement"
  | rule =>
    match leafKinds.lookup rule with
    | some kind => .leaf kind
    | none => .branch (ruleKind rule)

/-- What becomes of a node before its rule is looked at. -/
inductive Fate where
  /-- Nothing is left of it. -/
  | dropped
  /-- Its parts take its place. -/
  | spliced
  /-- It becomes one node. -/
  | kept
  deriving DecidableEq, Repr, Inhabited

/-- An error is always kept; of the rest, only named nodes other than comments and the
interpreter line leave anything, and wrappers leave their parts. -/
def Token.fate (tok : Token) : Fate :=
  if tok.error then .kept
  else if !tok.named || tok.extra || tok.kind == "hash_bang_line" then .dropped
  else if splicedRules.contains tok.kind then .spliced
  else .kept

/-- Whether a child is the name of a declared type, which is no reference to it. -/
def Token.isDeclaredName (tok : Token) : Bool :=
  tok.field == some "name" && tok.kind == "type_identifier"

/-! ### Assembling nodes -/

/-- The operator node of an expression over `ts`: the token in place `operator`, else whatever
follows the left operand, else an empty node. -/
def operatorNode (kind : Kind) (ts : List ParseTree) : Node :=
  match ts.find? (·.token.field == some "operator") with
  | some op => nodeOf src kind op.token []
  | none =>
    match (fromField "left" ts).tail with
    | op :: _ => nodeOf src kind op.token []
    | [] => { kind, text := "" }

/-- The statement around the declaration list that ends with its last declaration. -/
def variableStatementNode (tok : Token) (declarations : List Node) : Node :=
  let stop := (declarations.getLast?.map (·.span.stop)).getD tok.stop
  nodeOf src Kind.variableStatement tok
    [⟨Kind.declarationList, textBetween src tok.start stop, ⟨tok.start, stop⟩, declarations⟩]

/-- An operand of a heritage clause in its wrapper. -/
def heritageOperandNode (operand : Node) : Node :=
  ⟨Kind.heritageOperand, operand.text, operand.span, [operand]⟩

/-- The members of a constructor: without the name, if that comes first. -/
def constructorParts : List Node → List Node
  | [] => []
  | n :: ns =>
    if n.kind == Kind.identifier && n.text == "constructor" then ns else n :: ns

/-- A template with what its substitutions leave. -/
def templateNode (tok : Token) : List Node → Node
  | [] => nodeOf src Kind.plainTemplate tok []
  | n :: ns => nodeOf src Kind.templateExpression tok (n :: ns)

/-! ### Lowering -/

mutual

/-- The nodes that a parse tree leaves in the construct around it. -/
def lowerInto : ParseTree → List Node
  | ⟨tok, ts⟩ =>
    match tok.fate with
    | .dropped => []
    | .spliced => lowerChildren ts
    | .kept =>
      match shapeOf src ⟨tok, ts⟩ with
      | .leaf kind => [nodeOf src kind tok []]
      | .branch kind => [nodeOf src kind tok (lowerChildren ts)]
      | .typeName => [nodeOf src Kind.typeReference tok [nodeOf src Kind.identifier tok []]]
      | .variableStatement => [variableStatementNode src tok (lowerChildren ts)]
      | .operands operator =>
        [nodeOf src Kind.binaryExpression tok
          (lowerField "left" ts ++ operatorNode src operator ts :: lowerField "right" ts)]
      | .template => [templateNode src tok (lowerSubstitutions ts)]
      | .heritage =>
        [nodeOf src Kind.heritageClause tok ((lowerChildren ts).map heritageOperandNode)]
      | .constructorMember =>
        [nodeOf src Kind.constructorMember tok (constructorParts (lowerChildren ts))]

/-- The nodes that the parts of a construct leave, in source order. -/
def lowerChildren : List ParseTree → List Node
  | [] => []
  | ⟨tok, ts⟩ :: rest =>
    (if tok.isDeclaredName then [nodeOf src Kind.identifier tok []] else lowerInto ⟨tok, ts⟩) ++
      lowerChildren rest

/-- The nodes that the first part in place `name` leaves. -/
def lowerField (name : String) : List ParseTree → List Node
  | [] => []
  | ⟨tok, ts⟩ :: rest =>
    if tok.field == some name then lowerInto ⟨tok, ts⟩ else lowerField name rest

/-- The nodes that the substitutions of a template leave. -/
def lowerSubstitutions : List ParseTree → List Node
  | [] => []
  | ⟨tok, ts⟩ :: rest =>
    (if tok.named && tok.kind == "template_substitution" then lowerChildren ts else []) ++
      lowerSubstitutions rest

end

/-- The source file node of a whole source text, closed by an end marker. -/
def lowerProgram (t : ParseTree) : Node :=
  let stop := Text.byteLength src.toList
  ⟨Kind.sourceFile, src, ⟨0, stop⟩,
    lowerChildren src t.children ++ [⟨Kind.endOfFile, "", ⟨stop, stop⟩, []⟩]⟩

end TreeMend.ParseTree
