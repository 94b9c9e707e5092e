import TreeMend.Rule.Basic

/-!
# Constructors of derived classes call `super`

The rule looks at a class with a heritage clause: the first expression statement in the body of
its constructor has to hold a call with the word `super` in its text.  A class without a
constructor, a body or an expression statement in it gives the rule nothing to look at.

## Main definitions

* `SuperCall.verdict` — what the rule says about a node.
* `SuperCall.rule` — the rule.
-/

namespace TreeMend.SuperCall

/-- Whether `word` stands somewhere in `cs`. -/
def containsWord (word : List Char) : List Char → Bool
  | [] => word.isEmpty
  | c :: cs => word.isPrefixOf (c :: cs) || containsWord word cs

/-- The first expression statement in the body of a class's constructor. -/
def firstStatement? (n : Node) : Option Node := do
  let constructor ← n.child? Kind.constructorMember
  let body ← constructor.child? Kind.block
  body.child? Kind.expressionStatement

/-- What a finding says. -/
def message : String := "Constructor should call super() but does not"

/-- What the rule says about a node. -/
def verdict (n : Node) : Verdict :=
  if n.kind == Kind.classDeclaration && n.hasChild Kind.heritageClause then
    match firstStatement? n with
    | none => .halt
    | some statement =>
      match statement.child? Kind.callExpression with
      | some call =>
        if containsWord "super".toList call.text.toList then .clean else .violated message
      | none => .violated message
  else .clean

/-- Constructors of derived classes call `super`. -/
def rule : CheckRule where
  name := "call-super-in-constructor"
  code := "TS001"
  description := "Requires constructors of derived classes to call super()"
  suggestion := some "Call super(...) as the first statement of the constructor"
  verdict := verdict

end TreeMend.SuperCall
