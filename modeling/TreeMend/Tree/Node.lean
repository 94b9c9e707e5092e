import TreeMend.Tree.Kind

/-!
# The generic tree

A node has a kind, the text it stands for, the byte range that text was read from, and its
children in source order.  Every stage of the pipeline works on this one type; only the text of a
node ever changes after a tree is made, so a *position* — the child indices on the way down from
the root — names the same node throughout a pass.

## Main definitions

* `Span` — a byte range.
* `Node` — a tree.
* `Node.preorder`, `Node.size` — the nodes of a tree in source order, and their number.
* `Node.get?`, `Node.setTextAt` — looking up and changing the text at a position.
* `Node.positions` — the positions of all nodes, in source order.
-/

namespace TreeMend

/-- A byte range of a source text. -/
structure Span where
  /-- The offset of the first byte. -/
  start : Nat := 0
  /-- The offset after the last byte. -/
  stop : Nat := 0
  deriving DecidableEq, Repr, Inhabited

namespace Span

/-- The number of bytes in the range; none if it runs backwards. -/
def length (s : Span) : Nat := s.stop - s.start

/-- Whether no byte is in the range. -/
def isEmpty (s : Span) : Bool := s.length == 0

end Span

/-- A node of the generic tree. -/
structure Node where
  /-- The construct that the node stands for. -/
  kind : Kind
  /-- The source text of the node. -/
  text : String
  /-- Where the text was read from. -/
  span : Span := {}
  /-- The parts of the construct, in source order. -/
  children : List Node := []
  deriving Inhabited, Repr

/-- A position in a tree: the child indices on the way down from the root. -/
abbrev Position := List Nat

namespace Node

/-! ### Equality -/

mutual

/-- Equality of trees is decidable, node by node. -/
def decEq : (a b : Node) → Decidable (a = b)
  | ⟨k₁, t₁, s₁, cs₁⟩, ⟨k₂, t₂, s₂, cs₂⟩ =>
    if h : k₁ = k₂ ∧ t₁ = t₂ ∧ s₁ = s₂ then
      match decEqList cs₁ cs₂ with
      | .isTrue hc => .isTrue (by obtain ⟨rfl, rfl, rfl⟩ := h; rw [hc])
      | .isFalse hc => .isFalse (by intro e; cases e; exact hc rfl)
    else .isFalse (by intro e; cases e; exact h ⟨rfl, rfl, rfl⟩)

/-- Equality of lists of trees is decidable. -/
def decEqList : (as bs : List Node) → Decidable (as = bs)
  | [], [] => .isTrue rfl
  | [], _ :: _ => .isFalse (by simp)
  | _ :: _, [] => .isFalse (by simp)
  | a :: as, b :: bs =>
    match decEq a b with
    | .isTrue ha =>
      match decEqList as bs with
      | .isTrue hs => .isTrue (by rw [ha, hs])
      | .isFalse hs => .isFalse (by intro e; cases e; exact hs rfl)
    | .isFalse ha => .isFalse (by intro e; cases e; exact ha rfl)

end

instance : DecidableEq Node := decEq

/-! ### Parts of a node -/

/-- The first child of the given kind. -/
def child? (n : Node) (k : Kind) : Option Node := n.children.find? (·.kind == k)

/-- The index of the first child of the given kind. -/
def childIndex? (n : Node) (k : Kind) : Option Nat := n.children.findIdx? (·.kind == k)

/-- Whether some child has the given kind. -/
def hasChild (n : Node) (k : Kind) : Bool := n.children.any (·.kind == k)

/-! ### Source order -/

mutual

/-- A node, then its children's nodes from left to right. -/
def preorder : Node → List Node
  | ⟨k, t, s, cs⟩ => ⟨k, t, s, cs⟩ :: preorderList cs

/-- The nodes of a list of trees, tree after tree. -/
def preorderList : List Node → List Node
  | [] => []
  | n :: ns => preorder n ++ preorderList ns

end

mutual

/-- The number of nodes of a tree. -/
def size : Node → Nat
  | ⟨_, _, _, cs⟩ => sizeList cs + 1

/-- The number of nodes of a list of trees. -/
def sizeList : List Node → Nat
  | [] => 0
  | n :: ns => size n + sizeList ns

end

@[simp] theorem preorderList_nil : preorderList [] = [] := rfl

@[simp] theorem preorderList_cons (n : Node) (ns : List Node) :
    preorderList (n :: ns) = n.preorder ++ preorderList ns := rfl

theorem preorder_eq (n : Node) : n.preorder = n :: preorderList n.children := by
  cases n; rfl

@[simp] theorem sizeList_nil : sizeList [] = 0 := rfl

@[simp] theorem sizeList_cons (n : Node) (ns : List Node) :
    sizeList (n :: ns) = n.size + sizeList ns := rfl

theorem size_eq (n : Node) : n.size = sizeList n.children + 1 := by
  cases n; rfl

theorem size_pos (n : Node) : 0 < n.size := by
  rw [size_eq]
  exact Nat.succ_pos _

theorem sizeList_append (ns ms : List Node) :
    sizeList (ns ++ ms) = sizeList ns + sizeList ms := by
  induction ns with
  | nil => simp
  | cons n ns ih => simp [ih, Nat.add_assoc]

/-! ### Positions -/

/-- The node at a position. -/
def get? (n : Node) : Position → Option Node
  | [] => some n
  | i :: p => n.children[i]?.bind fun c => c.get? p

/-- The tree with the text at a position replaced; the same tree if there is no such position. -/
def setTextAt (n : Node) : Position → String → Node
  | [], t => { n with text := t }
  | i :: p, t => { n with children := n.children.modify i fun c => c.setTextAt p t }

mutual

/-- The positions of all nodes of a tree, in source order. -/
def positions : Node → List Position
  | ⟨_, _, _, cs⟩ => [] :: positionsFrom 0 cs

/-- The positions of all nodes of a list of trees whose first is child number `i`. -/
def positionsFrom (i : Nat) : List Node → List Position
  | [] => []
  | c :: cs => (positions c).map (i :: ·) ++ positionsFrom (i + 1) cs

end

end Node

end TreeMend
