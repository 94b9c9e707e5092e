import TreeMend.Proofs.Tree.Positions
import TreeMend.Tree.Walk

/-!
# What a walk hands out

A walk holds the trees that it has still to visit.  What it hands out from there on are the nodes
of these trees, tree after tree in source order; a walk from the root hands out all nodes of the
tree in source order.  Each of them stands at one position.

## Main definitions

* `Node.located` — the nodes of a tree in source order, each with its position.

## Main results

* `Walk.toList_eq_preorderList` — what a walk hands out.
* `Node.map_snd_located` — the located nodes are those of a walk.
* `Node.get?_of_mem_located` — a located node stands at its position.
-/

namespace TreeMend

namespace Node

theorem preorderList_append (ns ms : List Node) :
    preorderList (ns ++ ms) = preorderList ns ++ preorderList ms := by
  induction ns with
  | nil => rfl
  | cons n ns ih =>
    rw [List.cons_append, preorderList_cons, preorderList_cons, ih, List.append_assoc]

theorem preorderList_eq_flatMap (ns : List Node) : preorderList ns = ns.flatMap preorder := by
  induction ns with
  | nil => rfl
  | cons n ns ih => rw [preorderList_cons, ih, List.flatMap_cons]

end Node

/-! ### Walks -/

/-- What a walk hands out: the nodes of the trees that are still to be visited. -/
theorem Walk.toList_eq_preorderList (w : Walk) : w.toList = Node.preorderList w.pending := by
  fun_induction Walk.toList w with
  | case1 w hend =>
    obtain ⟨pending⟩ := w
    cases pending with
    | nil => rfl
    | cons n rest => cases hend
  | case2 w n w' hnext ih =>
    obtain ⟨pending⟩ := w
    cases pending with
    | nil => cases hnext
    | cons m rest =>
      -- the children take the place of the node
      obtain ⟨rfl, rfl⟩ := Prod.mk.inj (Option.some.inj hnext)
      rw [ih, Node.preorderList_append, Node.preorderList_cons, Node.preorder_eq]
      rfl

namespace Node

theorem walk_eq_preorder (n : Node) : n.walk = n.preorder := by
  rw [walk, Walk.toList_eq_preorderList]
  exact List.append_nil n.preorder

/-! ### Located nodes -/

mutual

/-- The nodes of a tree in source order, each with its position. -/
def located : Node → List (Position × Node)
  | ⟨k, t, s, cs⟩ => ([], ⟨k, t, s, cs⟩) :: locatedFrom 0 cs

/-- The nodes of a list of trees with their positions; the first tree is child number `i`. -/
def locatedFrom (i : Nat) : List Node → List (Position × Node)
  | [] => []
  | c :: cs => (located c).map (fun x => (i :: x.1, x.2)) ++ locatedFrom (i + 1) cs

end

theorem locatedFrom_cons (i : Nat) (c : Node) (cs : List Node) :
    locatedFrom i (c :: cs) =
      c.located.map (fun x => (i :: x.1, x.2)) ++ locatedFrom (i + 1) cs := rfl

theorem located_eq (n : Node) : n.located = ([], n) :: locatedFrom 0 n.children := by
  cases n; rfl

theorem map_snd_locatedFrom {cs : List Node} (h : ∀ c ∈ cs, c.located.map (·.2) = c.preorder)
    (i : Nat) : (locatedFrom i cs).map (·.2) = preorderList cs := by
  induction cs generalizing i with
  | nil => rfl
  | cons c cs ih =>
    obtain ⟨hc, hcs⟩ := List.forall_mem_cons.mp h
    rw [locatedFrom_cons, List.map_append, ih hcs, List.map_map, preorderList_cons, ← hc]
    rfl

/-- The located nodes are those that a walk hands out. -/
theorem map_snd_located (n : Node) : n.located.map (·.2) = n.walk := by
  rw [walk_eq_preorder]
  induction n using inductionOn with
  | step n ih =>
    rw [located_eq, List.map_cons, map_snd_locatedFrom ih, preorder_eq]

theorem exists_of_mem_locatedFrom {i : Nat} {cs : List Node} {x : Position × Node}
    (h : x ∈ locatedFrom i cs) :
    ∃ j c y, cs[j]? = some c ∧ y ∈ c.located ∧ x = ((i + j) :: y.1, y.2) := by
  induction cs generalizing i with
  | nil => cases h
  | cons c cs ih =>
    rcases List.mem_append.mp h with h | h
    · obtain ⟨y, hy, rfl⟩ := List.mem_map.mp h
      exact ⟨0, c, y, rfl, hy, rfl⟩
    · obtain ⟨j, d, y, hd, hy, rfl⟩ := ih h
      exact ⟨j + 1, d, y, hd, hy, by rw [Nat.add_right_comm, Nat.add_assoc]⟩

/-- A located node stands at its position. -/
theorem get?_of_mem_located {n : Node} {x : Position × Node} (h : x ∈ n.located) :
    n.get? x.1 = some x.2 := by
  induction n using inductionOn generalizing x with
  | step n ih =>
    rw [located_eq] at h
    rcases List.mem_cons.mp h with rfl | h
    · exact get?_nil n
    · obtain ⟨j, c, y, hc, hy, rfl⟩ := exists_of_mem_locatedFrom h
      rw [Nat.zero_add]
      exact get?_cons_eq_some.mpr ⟨c, hc, ih c (List.mem_of_getElem? hc) hy⟩

end Node

end TreeMend
