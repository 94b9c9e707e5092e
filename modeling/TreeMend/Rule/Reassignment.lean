import TreeMend.Rule.Basic
import TreeMend.Text.Alphanumeric
import TreeMend.Text.Blank

/-!
# Bindings that are never assigned again are constant

A declaration list that starts with `let` gets `const` instead, if every declaration in it binds a
plain name and has an initializer, and nothing outside the list assigns to one of the names.
Names are compared as they are spelled; scopes do not matter.

## Main definitions

* `Reassignment.target?` — what a node assigns to.
* `Reassignment.assigns` — whether a tree assigns to a name outside a position.
* `Reassignment.boundNames?` — the names of a list that could be constant.
* `Reassignment.rule` — the rule.
-/

namespace TreeMend.Reassignment

/-! ### Assignments -/

/-- Whether `cs` starts or ends with the sign of an increment or a decrement. -/
def isUpdateText (cs : List Char) : Bool :=
  [['+', '+'], ['-', '-']].any fun op => op.isPrefixOf cs || op.isSuffixOf cs

/-- The node that `n` assigns to: the left operand of an assignment, the operand of an increment
or a decrement. -/
def target? (n : Node) : Option Node :=
  match n.kind with
  | .binaryExpression =>
    match n.children with
    | left :: operator :: _ => if operator.kind.isAssignmentOperator then some left else none
    | _ => none
  | .prefixUnary | .postfixUnary =>
    if isUpdateText (Text.trim n.text.toList) then n.children.head? else none
  | _ => none

/-- Whether `n` itself assigns to one of the names. -/
def assignsHere (names : List String) (n : Node) : Bool :=
  (target? n).any fun t => t.kind == Kind.identifier && names.contains t.text

mutual

/-- Whether a node of the tree assigns to one of the names, the subtree at `excluded` left out. -/
def assigns (names : List String) (excluded : Option Position) : Node → Bool
  | ⟨kind, text, span, children⟩ =>
    if excluded = some [] then false
    else assignsHere names ⟨kind, text, span, children⟩ ||
      assignsBelow names excluded 0 children

/-- Whether one of the children from number `i` on holds such a node. -/
def assignsBelow (names : List String) (excluded : Option Position) (i : Nat) :
    List Node → Bool
  | [] => false
  | c :: cs =>
    -- below this child, what is left out is named from the child on
    assigns names
        (match excluded with
          | some (j :: p) => if i = j then some p else none
          | _ => none) c ||
      assignsBelow names excluded (i + 1) cs

end

/-- Whether nothing outside the subtree at `position` assigns to one of the names. -/
def isNeverReassigned (root : Node) (position : Position) (names : List String) : Bool :=
  !assigns names (some position) root

/-! ### Declarations -/

/-- The name that a declaration binds, if it could be constant: a plain name, followed by
something that is no type. -/
def boundName? (declaration : Node) : Option String :=
  match declaration.children with
  | [] => none
  | name :: rest =>
    if name.kind == Kind.identifier && rest.any (!·.kind.isType) then some name.text else none

/-- The names of all declarations of a list, if each of them could be constant. -/
def boundNames? (list : Node) : Option (List String) :=
  (list.children.filter (·.kind == Kind.declaration)).mapM boundName?

/-- The text after a leading word, which has to end there. -/
def afterWord? (word cs : List Char) : Option (List Char) :=
  if word.isPrefixOf cs then
    let rest := cs.drop word.length
    if rest.head?.any Text.isWordChar then none else some rest
  else none

/-- The new text of a declaration list that could be constant. -/
def constantText? (text : String) : Option String :=
  let cs := text.toList
  (afterWord? "let".toList (Text.trimStart cs)).map fun rest =>
    String.ofList (cs.takeWhile Text.isBlank ++ "const".toList ++ rest)

/-- The new text of the node at a position. -/
def replacement (root : Node) (position : Position) (n : Node) : Option String :=
  if n.kind == Kind.declarationList then do
    let text ← constantText? n.text
    let names ← boundNames? n
    if names.isEmpty || !isNeverReassigned root position names then none else pure text
  else none

/-- Bindings that are never assigned again are constant. -/
def rule : FixRule where
  name := "use-let-never-reassigned"
  code := "TS101"
  description := "Rewrites let declarations that are never reassigned to const"
  message := "Replaced let with const"
  replacement := replacement

end TreeMend.Reassignment
