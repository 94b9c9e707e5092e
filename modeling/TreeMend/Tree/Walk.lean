import TreeMend.Tree.Node

/-!
# Walking a tree

A walk hands out the nodes of a tree one at a time.  Its whole state is the list of trees still to
be visited: the next node is the root of the first one, and its children take its place.

## Main definitions

* `Walk` — a walk under way.
* `Walk.next?` — the next node and the walk after it.
* `Walk.toList` — all the nodes that a walk still hands out.
* `Node.walk` — the nodes of a tree, in the order of a walk from its root.
* `Node.count` — the number of nodes that such a walk hands out.
-/

namespace TreeMend

/-- A walk under way: the trees still to be visited, the nearest one first. -/
structure Walk where
  /-- The trees still to be visited. -/
  pending : List Node
  deriving Repr, Inhabited

namespace Walk

/-- The walk that is about to visit the root of `n`. -/
def start (n : Node) : Walk := ⟨[n]⟩

/-- The next node and the walk after it, or `none` at the end. -/
def next? : Walk → Option (Node × Walk)
  | ⟨[]⟩ => none
  | ⟨n :: rest⟩ => some (n, ⟨n.children ++ rest⟩)

/-- All the nodes that the walk still hands out, in order. -/
def toList (w : Walk) : List Node :=
  match _h : w.next? with
  | none => []
  | some (n, w') => n :: w'.toList
termination_by Node.sizeList w.pending
decreasing_by
  obtain ⟨pending⟩ := w
  cases pending with
  | nil => simp [next?] at _h
  | cons m rest =>
    simp only [next?, Option.some.injEq, Prod.mk.injEq] at _h
    obtain ⟨rfl, rfl⟩ := _h
    simp [Node.sizeList_append, Node.size_eq]

end Walk

/-- The nodes of a tree, in the order of a walk from its root. -/
def Node.walk (n : Node) : List Node := (Walk.start n).toList

/-- The number of nodes that a walk from the root hands out. -/
def Node.count (n : Node) : Nat := n.walk.length

end TreeMend
