import TreeMend.Tree.Node

/-!
# One line per node

A tree is shown with one line for each node: two blanks for every level of depth, the kind, and
the text with its line feeds made blanks.  A limit on the number of characters of the text keeps
the lines of an outline short.

## Main definitions

* `Node.line` — the line of a node.
* `Node.withDepths` — the nodes of a tree in source order, each with its depth.
* `Node.outline` — the lines of a whole tree.
-/

namespace TreeMend.Node

/-- The line that shows node `n` at a depth, with at most `limit` characters of its text. -/
def line (n : Node) (depth : Nat) (limit : Option Nat) : String :=
  let flat := n.text.toList.map fun c => if c = '\n' then ' ' else c
  let shown := match limit with
    | some k => flat.take k
    | none => flat
  String.ofList (List.replicate (2 * depth) ' ') ++ "Kind: " ++ n.kind ++ ", Text: " ++
    String.ofList shown

mutual

/-- The nodes of a tree in source order, each with its depth; the root is at depth `d`. -/
def withDepths (d : Nat) : Node → List (Nat × Node)
  | ⟨k, t, s, cs⟩ => (d, ⟨k, t, s, cs⟩) :: withDepthsList (d + 1) cs

/-- The nodes of a list of trees with their depths; the roots are at depth `d`. -/
def withDepthsList (d : Nat) : List Node → List (Nat × Node)
  | [] => []
  | n :: ns => withDepths d n ++ withDepthsList d ns

end

/-- The number of characters of a node's text that an outline and a check show. -/
def outlineLimit : Nat := 20

/-- The lines of a whole tree, in source order. -/
def outline (n : Node) : List String :=
  (n.withDepths 0).map fun (d, m) => m.line d (some outlineLimit)

end TreeMend.Node
