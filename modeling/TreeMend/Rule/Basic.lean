import TreeMend.Tree.Node

/-!
# Rules

A check looks at one node and says whether it is clean, violates the rule, or lacks what the rule
needs to see; the last stops the traversal below that node.  A fix computes the text that a node
should have, and may look at the whole tree around it.

## Main definitions

* `Verdict`, `CheckRule` — checks.
* `FixRule` — fixes.
-/

namespace TreeMend

/-- What a check says about a node. -/
inductive Verdict where
  /-- The rule is satisfied or does not apply. -/
  | clean
  /-- The rule is violated, for the given reason. -/
  | violated (message : String)
  /-- The node lacks what the rule looks at: nothing below it is checked. -/
  | halt
  deriving DecidableEq, Repr, Inhabited

/-- A rule that only looks. -/
structure CheckRule where
  /-- The name, which is its key in a configuration. -/
  name : String
  /-- The code that findings carry. -/
  code : String
  /-- What the rule asks for. -/
  description : String := ""
  /-- A hint that findings carry. -/
  suggestion : Option String := none
  /-- What the rule says about a node. -/
  verdict : Node → Verdict

/-- A rule that gives nodes a new text. -/
structure FixRule where
  /-- The name, which is its key in a configuration. -/
  name : String
  /-- The code of the rule. -/
  code : String
  /-- What the rule does. -/
  description : String := ""
  /-- What is logged when the rule is applied. -/
  message : String
  /-- The new text of the node at a position of a tree; `none` to leave it as it is. -/
  replacement : (root : Node) → (position : Position) → Node → Option String

end TreeMend
