import TreeMend.Program.Literal

/-!
# Programs that can be regenerated

The part of TypeScript that source text is printed for: declarations of names, with the type
`string` or without a type, initialized by a string literal or not at all, and statements made of
names, string literals, assignments, calls with at most one argument, and member accesses.

## Main definitions

* `Expression`, `Declaration`, `Statement`, `Program` — the constructs.
* `Construct` — any one of them, with `Construct.describe` naming its sort.
* `NewLine` — the line ends of a printed program.
* `Program.render`, `Construct.render` — the source text.
-/

namespace TreeMend

/-- An expression. -/
inductive Expression where
  /-- A name. -/
  | name (id : String)
  /-- A string literal. -/
  | literal (l : Literal)
  /-- An assignment. -/
  | assign (target value : Expression)
  /-- A call without arguments. -/
  | call (callee : Expression)
  /-- A call with one argument. -/
  | callWith (callee argument : Expression)
  /-- Access to a member by name. -/
  | member (object : Expression) (id : String)
  deriving DecidableEq, Repr, Inhabited

/-- A type annotation; the keyword `string` is the only one. -/
inductive TypeAnnotation where
  /-- The type of strings. -/
  | string
  deriving DecidableEq, Repr, Inhabited

/-- The keyword in front of a declaration list. -/
inductive BindingKeyword where
  /-- A binding that may be assigned again, of block scope. -/
  | letWord
  /-- A binding that may not be assigned again. -/
  | constWord
  /-- A binding that may be assigned again, of function scope. -/
  | varWord
  deriving DecidableEq, Repr, Inhabited

/-- One binding of a declaration list. -/
structure Declaration where
  /-- The declared name. -/
  name : String
  /-- The type of the name, if it is given. -/
  type : Option TypeAnnotation := none
  /-- The value of the name, if it is given. -/
  initializer : Option Expression := none
  deriving DecidableEq, Repr, Inhabited

/-- A statement. -/
inductive Statement where
  /-- A declaration list. -/
  | declare (keyword : BindingKeyword) (declarations : List Declaration)
  /-- An expression. -/
  | expression (e : Expression)
  deriving DecidableEq, Repr, Inhabited

/-- A whole file. -/
structure Program where
  /-- The statements in source order. -/
  statements : List Statement := []
  deriving DecidableEq, Repr, Inhabited

/-- Any construct that a tree can be read as. -/
inductive Construct where
  /-- A whole file. -/
  | program (p : Program)
  /-- A statement. -/
  | statement (s : Statement)
  /-- One binding. -/
  | declaration (d : Declaration)
  /-- A type annotation. -/
  | type (t : TypeAnnotation)
  /-- An expression. -/
  | expression (e : Expression)
  deriving DecidableEq, Repr, Inhabited

/-- The sort of a construct in words. -/
def Construct.describe : Construct → String
  | .program _ => "source file"
  | .statement _ => "statement"
  | .declaration _ => "variable declaration"
  | .type _ => "type"
  | .expression _ => "expression"

/-! ### Source text -/

/-- How the lines of a file end. -/
inductive NewLine where
  /-- With a line feed. -/
  | lineFeed
  /-- With a carriage return and a line feed. -/
  | carriageReturnLineFeed
  deriving DecidableEq, Repr, Inhabited

/-- The characters at the end of a line. -/
def NewLine.text : NewLine → String
  | .lineFeed => "\n"
  | .carriageReturnLineFeed => "\r\n"

/-- The source text of a binding keyword. -/
def BindingKeyword.text : BindingKeyword → String
  | .letWord => "let"
  | .constWord => "const"
  | .varWord => "var"

/-- The source text of a type annotation. -/
def TypeAnnotation.text : TypeAnnotation → String
  | .string => "string"

/-- The source text of an expression. -/
def Expression.render : Expression → String
  | .name id => id
  | .literal l => l.render
  | .assign target value => target.render ++ " = " ++ value.render
  | .call callee => callee.render ++ "()"
  | .callWith callee argument => callee.render ++ "(" ++ argument.render ++ ")"
  | .member object id => object.render ++ "." ++ id

/-- The source text of a binding. -/
def Declaration.render (d : Declaration) : String :=
  d.name ++
    (match d.type with
      | some t => ": " ++ t.text
      | none => "") ++
    (match d.initializer with
      | some e => " = " ++ e.render
      | none => "")

/-- The source text of a statement, closed by a semicolon. -/
def Statement.render : Statement → String
  | .declare keyword declarations =>
    keyword.text ++ " " ++ ", ".intercalate (declarations.map Declaration.render) ++ ";"
  | .expression e => e.render ++ ";"

/-- The source text of a file, one line for each statement. -/
def Program.render (nl : NewLine) (p : Program) : String :=
  String.join (p.statements.map fun s => s.render ++ nl.text)

/-- The source text of any construct; only a file has line ends. -/
def Construct.render (nl : NewLine) : Construct → String
  | .program p => p.render nl
  | .statement s => s.render
  | .declaration d => d.render
  | .type t => t.text
  | .expression e => e.render

end TreeMend
