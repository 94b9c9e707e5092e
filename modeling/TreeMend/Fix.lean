import TreeMend.Config.Basic
import TreeMend.Log
import TreeMend.Rule.Basic
import TreeMend.Tree.Outline

/-!
# Fixing a tree

The nodes of a subtree are visited in source order.  At each of them the rules that run are asked
in turn for a new text, each seeing the tree as the fixes before it left it.

## Main definitions

* `Fix.Progress` — a pass under way: the tree, the number of fixes applied, the log.
* `Fix.applyRule`, `Fix.visit` — one rule at a position, all rules at a position.
* `Fix.passFrom`, `Fix.pass` — a pass over the subtree at a position, after others or on its own.
-/

namespace TreeMend.Fix

/-- A pass under way. -/
structure Progress where
  /-- The tree with the fixes so far. -/
  tree : Node
  /-- The number of fixes applied. -/
  applied : Nat := 0
  /-- What was logged. -/
  log : Log := []
  deriving DecidableEq, Repr, Inhabited

/-- Ask a rule for a new text of the node at a position, and put it in. -/
def applyRule (position : Position) (p : Progress) (rule : FixRule) : Progress :=
  match (p.tree.get? position).bind (rule.replacement p.tree position) with
  | none => p
  | some text =>
    ⟨p.tree.setTextAt position text, p.applied + 1,
      p.log ++ [Log.line .info ("[" ++ rule.name ++ "] " ++ rule.message)]⟩

/-- The line that the node at a position gets when every node gets one. -/
def trace (config : Config) (depth : Nat) (position : Position) (p : Progress) : Progress :=
  if config.verbosity.isDebug then
    match p.tree.get? position with
    | some n => { p with log := p.log ++ [Log.line .debug (n.line depth none)] }
    | none => p
  else p

/-- The rules that run. -/
def enabled (config : Config) (rules : List FixRule) : List FixRule :=
  rules.filter fun r => config.isEnabled r.name

/-- Ask all the rules that run about the node at a position. -/
def visit (config : Config) (rules : List FixRule) (depth : Nat) (p : Progress)
    (position : Position) : Progress :=
  (enabled config rules).foldl (applyRule position) (trace config depth position p)

/-- A pass over the subtree at a position, whose root counts as being at a depth.  It goes on from
`start`: its fixes are counted and logged after those before it. -/
def passFrom (config : Config) (rules : List FixRule) (start : Progress) (position : Position)
    (depth : Nat) : Progress :=
  let inner := ((start.tree.get? position).map Node.positions).getD []
  -- positions stay valid throughout: a fix changes texts only
  inner.foldl (fun p q => visit config rules (depth + q.length) p (position ++ q)) start

/-- A pass over the subtree at a position of a tree that nothing was done to before. -/
def pass (config : Config) (rules : List FixRule) (root : Node) (position : Position)
    (depth : Nat) : Progress :=
  passFrom config rules ⟨root, 0, []⟩ position depth

end TreeMend.Fix
