import TreeMend.Json.Value
import TreeMend.ParseTree.Basic

/-!
# Parse trees as JSON

A parse tree is exchanged as the array of its nodes in source order.  Each node is an array of its
depth, its kind, a set of flags, the two ends of its byte range, and the place that it fills in
its parent's rule, or `null`.  The flags are, from the lowest bit: named, extra, error, missing.

## Main definitions

* `ParseTree.Token.ofJson?` — a node with its depth.
* `ParseTree.ofJson?` — the tree of such an array.
-/

namespace TreeMend.ParseTree

/-- The node of an array, with its depth. -/
def Token.ofJson? : Json → Option (Nat × Token)
  | .array [depth, kind, flags, start, stop, place] => do
    let flags ← flags.nat?
    pure (← depth.nat?,
      { kind := ← kind.text?, named := flags.testBit 0, extra := flags.testBit 1,
        error := flags.testBit 2, missing := flags.testBit 3, start := ← start.nat?,
        stop := ← stop.nat?, field := place.text? })
  | _ => none

/-- The tree of an array of nodes. -/
def ofJson? : Json → Option ParseTree
  | .array rows => (rows.mapM Token.ofJson?).bind ofListing?
  | _ => none

end TreeMend.ParseTree
