import TreeMend.Config.Basic
import TreeMend.Log
import TreeMend.Program.Basic
import TreeMend.Text.Alphanumeric
import TreeMend.Traced
import TreeMend.Tree.Outline

/-!
# Reading a tree as a program

Every kind that has a place in a program is read as one construct, from the children at fixed
places.  Kinds without a place, such as the marker at the end of a file, are read as nothing;
where a construct cannot do without a part, nothing is an error, and so is a part of the wrong
sort.  Each node that is visited gets a line in the log if the verbosity asks for it.

## Main definitions

* `RenderError` — why a tree is no program, with `RenderError.message`.
* `Node.Read` — a computation that reads a part of a program.
* `Node.build` — the construct that a tree is read as.
* `Node.render` — the source text of a tree.
-/

namespace TreeMend

/-! ### Errors -/

/-- A part that a construct cannot do without. -/
inductive Role where
  /-- The name that a declaration binds. -/
  | identifier
  /-- What is assigned to. -/
  | leftOperand
  /-- What is assigned. -/
  | rightOperand
  /-- What is called. -/
  | callee
  /-- What a call is given. -/
  | argument
  /-- What a member is taken of. -/
  | object
  /-- The name of a member. -/
  | propertyName
  deriving DecidableEq, Repr, Inhabited

/-- The part in words. -/
def Role.label : Role → String
  | .identifier => "identifier"
  | .leftOperand => "left operand"
  | .rightOperand => "right operand"
  | .callee => "callee"
  | .argument => "argument"
  | .object => "object"
  | .propertyName => "property name"

/-- What a construct needs at a place where it found something else. -/
inductive Expected where
  /-- A name. -/
  | identifier
  /-- An expression. -/
  | expression
  /-- The assignment operator. -/
  | equals
  deriving DecidableEq, Repr, Inhabited

/-- What was needed, in words. -/
def Expected.label : Expected → String
  | .identifier => "identifier"
  | .expression => "expression"
  | .equals => "`=` operator"

/-- Why a tree cannot be read as a program. -/
inductive RenderError where
  /-- A type annotation other than `string`. -/
  | unsupportedType (kind : Kind)
  /-- A literal that is no quoted string. -/
  | unsupportedLiteral (kind : Kind)
  /-- A part that is absent or is read as nothing. -/
  | missingChild (parent : Kind) (role : Role)
  /-- A part of the wrong sort. -/
  | unexpectedNode (parent : Kind) (expected : Expected) (found : Kind)
  deriving DecidableEq, Repr, Inhabited

/-- The error in words. -/
def RenderError.message : RenderError → String
  | .unsupportedType kind => "Unsupported type: " ++ kind
  | .unsupportedLiteral kind => "Unsupported literal: " ++ kind
  | .missingChild parent role => parent ++ " is missing its " ++ role.label
  | .unexpectedNode parent expected found =>
    parent ++ " expected " ++ expected.label ++ " but found " ++ found

namespace Node

/-! ### Leaves -/

/-- The binding keyword that a declaration list starts with; any other word counts as `const`. -/
def bindingKeyword (text : String) : BindingKeyword :=
  match String.ofList ((Text.trimStart text.toList).takeWhile Text.isWordChar) with
  | "let" => .letWord
  | "var" => .varWord
  | _ => .constWord

/-- The type annotation that a node stands for. -/
def typeAnnotation (n : Node) : Except RenderError TypeAnnotation :=
  if n.kind.canonical = Kind.stringKeyword then .ok .string
  else .error (.unsupportedType n.kind.canonical)

/-- The string literal that a node stands for. -/
def literal (n : Node) : Except RenderError Literal :=
  if n.kind.canonical = Kind.stringLiteral then
    match Literal.ofSource? n.text with
    | some l => .ok l
    | none => .error (.unsupportedLiteral n.kind)
  else .error (.unsupportedLiteral n.kind)

/-! ### Constructs -/

/-- A computation that reads a part of a program: it may fail, and what it logs depends on the
verbosity. -/
def Read (α : Type) : Type := ReaderT Verbosity (Traced Log.Line RenderError) α

namespace Read

variable {α β : Type}

instance : Monad Read := inferInstanceAs (Monad (ReaderT Verbosity (Traced Log.Line RenderError)))

/-- Read at a verbosity. -/
def run (x : Read α) (verbosity : Verbosity) : Traced Log.Line RenderError α := x verbosity

/-- The outcome of a reading that logs no nodes. -/
def outcome (x : Read α) : Except RenderError α := (x.run .normal).outcome

/-- Fail. -/
def fail (e : RenderError) : Read α := fun _ => Traced.fail e

/-- A reading that logs nothing. -/
def ofExcept (x : Except RenderError α) : Read α := fun _ => Traced.ofExcept x

@[simp] theorem outcome_pure (a : α) : (pure a : Read α).outcome = .ok a := rfl

@[simp] theorem outcome_fail (e : RenderError) : (fail e : Read α).outcome = .error e := rfl

@[simp] theorem outcome_ofExcept (x : Except RenderError α) : (ofExcept x).outcome = x := rfl

theorem run_bind (x : Read α) (f : α → Read β) (verbosity : Verbosity) :
    (x >>= f).run verbosity = x.run verbosity >>= fun a => (f a).run verbosity := rfl

@[simp] theorem outcome_bind (x : Read α) (f : α → Read β) :
    (x >>= f).outcome = x.outcome.bind fun a => (f a).outcome :=
  Traced.outcome_bind (x.run .normal) fun a => (f a).run .normal

end Read

open Read (fail ofExcept)

/-- Come by a node at a depth. -/
def visit (depth : Nat) (n : Node) : Read Unit := fun verbosity =>
  if verbosity.isDebug then Traced.record (Log.line .debug (n.line depth none)) else pure ()

/-- The initializer that a node stands for, which has to be a string literal. -/
def readInitializer (depth : Nat) (n : Node) : Read Expression := do
  visit depth n
  let l ← ofExcept n.literal
  pure (.literal l)

/-- The type that a node stands for. -/
def readType (depth : Nat) (n : Node) : Read TypeAnnotation := do
  visit depth n
  ofExcept n.typeAnnotation

/-- Which of the children after the name is the type and which the initializer: one child alone is
a type if its kind says so, and of more the first is the type and the second the initializer. -/
def declarationParts : List Node → Option Node × Option Node
  | [] => (none, none)
  | [only] => if only.kind.isType then (some only, none) else (none, some only)
  | type :: initializer :: _ => (some type, some initializer)

/-- The binding whose parts are `children`, in a declaration of kind `parent`. -/
def readDeclaration (depth : Nat) (parent : Kind) (children : List Node) : Read Declaration :=
  match children with
  | [] => fail (.missingChild parent .identifier)
  | name :: rest =>
    if name.kind.canonical ≠ Kind.identifier then
      fail (.unexpectedNode parent .identifier name.kind)
    else do
      visit (depth + 1) name
      let (type?, initializer?) := declarationParts rest
      let type ← type?.mapM (readType (depth + 1))
      let initializer ← initializer?.mapM (readInitializer (depth + 1))
      pure { name := name.text, type, initializer }

/-- The part `c` of a construct of kind `parent`, which was read as `built` and has to be an
expression. -/
def asExpression (parent : Kind) (role : Role) (c : Node) (built : Option Construct) :
    Read Expression :=
  match built with
  | some (.expression e) => pure e
  | some _ => fail (.unexpectedNode parent .expression c.kind)
  | none => fail (.missingChild parent role)

/-- The statement around the expression that `c` was read as, if it was read as anything. -/
def asStatement (parent : Kind) (c : Node) (built : Option Construct) : Read (Option Construct) :=
  match built with
  | some (.expression e) => pure (some (.statement (.expression e)))
  | some _ => fail (.unexpectedNode parent .expression c.kind)
  | none => pure none

/-- The error of an operator that is there and does not assign. -/
def checkOperator (parent : Kind) (children : List Node) : Read Unit :=
  match children with
  | _ :: operator :: _ =>
    if operator.kind.canonical = Kind.equalsToken then pure ()
    else fail (.unexpectedNode parent .equals operator.kind)
  | _ => pure ()

/-- The name of a member, which `e` has to be; `children` are the parts of the access. -/
def asMemberName (parent : Kind) (children : List Node) (e : Expression) : Read String :=
  match e, children with
  | .name id, _ => pure id
  | _, _ :: name :: _ => fail (.unexpectedNode parent .identifier name.kind)
  | _, _ => fail (.missingChild parent .propertyName)

/-- The statements among constructs. -/
def statementsOf (built : List (Option Construct)) : List Statement :=
  built.filterMap fun
    | some (.statement s) => some s
    | _ => none

/-- The declarations among constructs. -/
def declarationsOf (built : List (Option Construct)) : List Declaration :=
  built.filterMap fun
    | some (.declaration d) => some d
    | _ => none

mutual

/-- The construct that a node at a depth is read as; `none` if its kind has no place in a
program. -/
def build (depth : Nat) : Node → Read (Option Construct)
  | ⟨kind, text, span, children⟩ => do
    visit depth ⟨kind, text, span, children⟩
    match kind.canonical with
    | .sourceFile =>
      let built ← buildTopLevel depth children
      pure (some (.program ⟨statementsOf built⟩))
    | .variableStatement => buildFirstList (depth + 1) children
    | .declarationList =>
      let built ← buildAll (depth + 1) children
      pure (some (.statement (.declare (bindingKeyword text) (declarationsOf built))))
    | .declaration =>
      let d ← readDeclaration depth kind children
      pure (some (.declaration d))
    | .identifier => pure (some (.expression (.name text)))
    | .stringKeyword => pure (some (.type .string))
    | .stringLiteral =>
      let l ← ofExcept (literal ⟨kind, text, span, children⟩)
      pure (some (.expression (.literal l)))
    | .expressionStatement => buildStatement depth kind children
    | .binaryExpression =>
      checkOperator kind children
      let target ← buildExpression depth kind .leftOperand 0 children
      let value ← buildExpression depth kind .rightOperand 2 children
      pure (some (.expression (.assign target value)))
    | .callExpression =>
      let callee ← buildExpression depth kind .callee 0 children
      if 1 < children.length then
        let argument ← buildExpression depth kind .argument 1 children
        pure (some (.expression (.callWith callee argument)))
      else pure (some (.expression (.call callee)))
    | .propertyAccess =>
      let object ← buildExpression depth kind .object 0 children
      let name ← buildExpression depth kind .propertyName 1 children
      let id ← asMemberName kind children name
      pure (some (.expression (.member object id)))
    | other =>
      if other.isLiteral then
        let l ← ofExcept (literal ⟨kind, text, span, children⟩)
        pure (some (.expression (.literal l)))
      else pure none

/-- The constructs of a list of nodes at one depth. -/
def buildAll (depth : Nat) : List Node → Read (List (Option Construct))
  | [] => pure []
  | c :: cs => do
    let b ← build depth c
    let bs ← buildAll depth cs
    pure (b :: bs)

/-- The constructs at the top of a file at a depth: a variable statement counts by its children,
which keep their depth in the tree. -/
def buildTopLevel (depth : Nat) : List Node → Read (List (Option Construct))
  | [] => pure []
  | ⟨kind, text, span, children⟩ :: cs => do
    let bs ←
      -- the wrapper itself is not visited
      if kind.canonical = Kind.variableStatement then buildAll (depth + 2) children
      else do
        let b ← build (depth + 1) ⟨kind, text, span, children⟩
        pure [b]
    let rest ← buildTopLevel depth cs
    pure (bs ++ rest)

/-- The construct of the first declaration list among nodes at a depth. -/
def buildFirstList (depth : Nat) : List Node → Read (Option Construct)
  | [] => pure none
  | c :: cs => if c.kind = Kind.declarationList then build depth c else buildFirstList depth cs

/-- The statement that is made of the first of `children`. -/
def buildStatement (depth : Nat) (parent : Kind) : List Node → Read (Option Construct)
  | [] => pure none
  | c :: _ => do
    let b ← build (depth + 1) c
    asStatement parent c b

/-- The expression at a place among the children of a node at a depth. -/
def buildExpression (depth : Nat) (parent : Kind) (role : Role) :
    Nat → List Node → Read Expression
  | _, [] => fail (.missingChild parent role)
  | 0, c :: _ => do
    let b ← build (depth + 1) c
    asExpression parent role c b
  | i + 1, _ :: cs => buildExpression depth parent role i cs

end

/-- The source text of the construct that a tree is read as; empty if it is read as nothing. -/
def render (nl : NewLine) (n : Node) : Read String := do
  let built ← n.build 0
  pure ((built.map (Construct.render nl)).getD "")

end Node

end TreeMend
