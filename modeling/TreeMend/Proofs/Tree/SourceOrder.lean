import TreeMend.Proofs.Tree.Walking
import TreeMend.Tree.Outline

/-!
# The order of a walk and of an outline

A walk keeps what it has still to visit on a stack: a step takes the tree at the end and puts the
children of its root there, the last child first.  What is left to hand out are at every moment the
nodes of the trees on the stack, from its end to its start, and a step shortens this list by the
node that it hands out.  So a walk ends, and it hands out the nodes in source order, which is the
lexicographic order of their positions.  An outline has the same order and shows each node at the
depth that is the length of its position.

## Main definitions

* `Walk.stack` — the trees still to be visited, the nearest one at the end.
* `Walk.HandsOut` — the nodes that a walk hands out, one with each step, before it ends.

## Main results

* `Walk.next?_eq_some_iff` — what a step does to the stack.
* `Walk.preorderList_of_next?`, `Walk.handsOut_iff` — what a step and a whole walk hand out.
* `Node.pairwise_lt_positions` — positions are listed in lexicographic order.
* `Node.outline_eq` — an outline by the positions of the nodes.
* `Node.walk_inSourceOrder` — **a walk ends, visits every node once and in source order, and an
  outline has one line for each of its steps**.
-/

namespace TreeMend

namespace Walk

variable {w w' : Walk} {m : Node} {ms : List Node}

/-! ### Steps -/

/-- The trees still to be visited, the nearest one at the end. -/
def stack (w : Walk) : List Node := w.pending.reverse

theorem pending_eq (w : Walk) : w.pending = w.stack.reverse := (List.reverse_reverse _).symm

theorem next?_eq_none_iff : w.next? = none ↔ w.stack = [] := by
  obtain ⟨pending⟩ := w
  cases pending with
  | nil => simp [next?, stack]
  | cons n rest => simp [next?, stack]

/-- A step takes the tree at the end of the stack and puts the children of its root there, the last
child first. -/
theorem next?_eq_some_iff : w.next? = some (m, w') ↔
    ∃ below, w.stack = below ++ [m] ∧ w'.stack = below ++ m.children.reverse := by
  obtain ⟨pending⟩ := w
  obtain ⟨pending'⟩ := w'
  cases pending with
  | nil => simp [next?, stack]
  | cons n rest =>
    constructor
    · intro h
      obtain ⟨rfl, hrest⟩ := Prod.mk.inj (Option.some.inj h)
      obtain rfl := Walk.mk.inj hrest
      exact ⟨rest.reverse, List.reverse_cons, List.reverse_append⟩
    · rintro ⟨below, hstack, hstack'⟩
      rw [stack, List.reverse_cons] at hstack
      obtain ⟨rfl, hnode⟩ := List.append_inj' hstack rfl
      obtain rfl := (List.cons.inj hnode).1
      rw [← List.reverse_append] at hstack'
      obtain rfl : pending' = n.children ++ rest := List.reverse_inj.mp hstack'
      rfl

theorem preorderList_of_next?_eq_none (h : w.next? = none) : Node.preorderList w.pending = [] := by
  rw [pending_eq, next?_eq_none_iff.mp h]
  rfl

/-- A step shortens what is left by the node that it hands out. -/
theorem preorderList_of_next? (h : w.next? = some (m, w')) :
    Node.preorderList w.pending = m :: Node.preorderList w'.pending := by
  obtain ⟨below, hstack, hstack'⟩ := next?_eq_some_iff.mp h
  have hpending : w.pending = m :: below.reverse := by
    rw [pending_eq, hstack, List.reverse_append]
    rfl
  have hpending' : w'.pending = m.children ++ below.reverse := by
    rw [pending_eq, hstack', List.reverse_append, List.reverse_reverse]
  rw [hpending, hpending', Node.preorderList_cons, Node.preorder_eq, Node.preorderList_append]
  rfl

/-! ### Whole walks -/

/-- The walk hands out the nodes, one with each step, and then ends. -/
inductive HandsOut : Walk → List Node → Prop
  /-- Nothing is left. -/
  | done {w : Walk} (h : w.next? = none) : HandsOut w []
  /-- A step, and what is handed out after it. -/
  | step {w w' : Walk} {m : Node} {ms : List Node} (h : w.next? = some (m, w'))
      (hrest : HandsOut w' ms) : HandsOut w (m :: ms)

/-- A walk ends after it has handed out what is left. -/
theorem handsOut_of_preorderList_eq (h : Node.preorderList w.pending = ms) : w.HandsOut ms := by
  induction ms generalizing w with
  | nil =>
    cases hnext : w.next? with
    | none => exact .done hnext
    | some x => rw [preorderList_of_next? hnext] at h; cases h
  | cons m ms ih =>
    cases hnext : w.next? with
    | none => rw [preorderList_of_next?_eq_none hnext] at h; cases h
    | some x =>
      rw [preorderList_of_next? hnext] at h
      obtain ⟨rfl, hrest⟩ := List.cons.inj h
      exact .step hnext (ih hrest)

/-- A walk hands out what is left, and nothing else. -/
theorem handsOut_iff : w.HandsOut ms ↔ ms = w.toList := by
  rw [toList_eq_preorderList]
  constructor
  · intro h
    induction h with
    | done h => exact (preorderList_of_next?_eq_none h).symm
    | step h hrest ih => rw [preorderList_of_next? h, ih]
  · rintro rfl
    exact handsOut_of_preorderList_eq rfl

end Walk

namespace Node

/-! ### Positions -/

theorem map_fst_locatedFrom {cs : List Node} (h : ∀ c ∈ cs, c.located.map (·.1) = c.positions)
    (i : Nat) : (locatedFrom i cs).map (·.1) = positionsFrom i cs := by
  induction cs generalizing i with
  | nil => rfl
  | cons c cs ih =>
    obtain ⟨hc, hcs⟩ := List.forall_mem_cons.mp h
    rw [locatedFrom_cons, List.map_append, ih hcs, List.map_map, positionsFrom_cons, ← hc,
      List.map_map]
    rfl

/-- The located nodes stand at the positions of the tree, in the same order. -/
theorem map_fst_located (n : Node) : n.located.map (·.1) = n.positions := by
  induction n using inductionOn with
  | step n ih => rw [located_eq, List.map_cons, map_fst_locatedFrom ih, positions_eq]

theorem pairwise_lt_positionsFrom {cs : List Node}
    (h : ∀ c ∈ cs, c.positions.Pairwise (· < ·)) (i : Nat) :
    (positionsFrom i cs).Pairwise (· < ·) := by
  induction cs generalizing i with
  | nil => exact .nil
  | cons c cs ih =>
    obtain ⟨hc, hcs⟩ := List.forall_mem_cons.mp h
    rw [positionsFrom_cons, List.pairwise_append, List.pairwise_map]
    refine ⟨hc.imp fun hlt => List.cons_lt_cons_iff.mpr (Or.inr ⟨rfl, hlt⟩), ih hcs (i + 1), ?_⟩
    -- a position in a later tree starts with a larger index
    intro p hp q hq
    obtain ⟨p, -, rfl⟩ := List.mem_map.mp hp
    obtain ⟨j, d, q, -, -, rfl⟩ := mem_positionsFrom_iff.mp hq
    exact List.cons_lt_cons_iff.mpr (Or.inl (by omega))

/-- Positions are listed in lexicographic order: a node comes before those below it, and these come
from left to right. -/
theorem pairwise_lt_positions (n : Node) : n.positions.Pairwise (· < ·) := by
  induction n using inductionOn with
  | step n ih =>
    rw [positions_eq, List.pairwise_cons]
    refine ⟨fun p hp => ?_, pairwise_lt_positionsFrom ih 0⟩
    obtain ⟨j, c, q, -, -, rfl⟩ := mem_positionsFrom_iff.mp hp
    exact List.nil_lt_cons _ _

/-! ### Outlines -/

theorem withDepthsList_eq {d : Nat} {cs : List Node}
    (h : ∀ c ∈ cs, c.withDepths (d + 1) = c.located.map fun x => (d + 1 + x.1.length, x.2))
    (i : Nat) :
    withDepthsList (d + 1) cs = (locatedFrom i cs).map fun x => (d + x.1.length, x.2) := by
  induction cs generalizing i with
  | nil => rfl
  | cons c cs ih =>
    obtain ⟨hc, hcs⟩ := List.forall_mem_cons.mp h
    rw [withDepthsList, hc, ih hcs (i + 1), locatedFrom_cons, List.map_append, List.map_map]
    congr 1
    refine List.map_congr_left fun x _ => ?_
    simp only [Function.comp_apply, List.length_cons]
    rw [Nat.add_right_comm, Nat.add_assoc]

/-- The depth of a node is the length of its position. -/
theorem withDepths_eq (n : Node) (d : Nat) :
    n.withDepths d = n.located.map fun x => (d + x.1.length, x.2) := by
  induction n using inductionOn generalizing d with
  | step n ih =>
    obtain ⟨k, t, s, cs⟩ := n
    rw [withDepths, withDepthsList_eq (fun c hc => ih c hc (d + 1)) 0]
    rfl

/-- An outline shows the nodes at the lengths of their positions. -/
theorem outline_eq (n : Node) :
    n.outline = n.located.map fun x => x.2.line x.1.length (some 20) := by
  rw [outline, withDepths_eq, List.map_map]
  refine List.map_congr_left fun x _ => ?_
  simp [outlineLimit]

/-! ### Source order -/

theorem walk_eq_cons (n : Node) : n.walk = n :: n.children.flatMap walk := by
  have hwalk : walk = preorder := funext walk_eq_preorder
  rw [hwalk, preorder_eq, preorderList_eq_flatMap]

/-- **Source order.**  A walk from the root ends, and what it hands out is the root and then all
that walks from its children hand out, from left to right.  In this order stand the positions of the
tree: each of them once, in lexicographic order, and each with the node that it leads to.  An
outline has as many lines as the tree has nodes, and its lines show the nodes of the walk at their
depths. -/
theorem walk_inSourceOrder (n : Node) :
    (∀ ms, (Walk.start n).HandsOut ms ↔ ms = n.walk) ∧
      n.walk = n :: n.children.flatMap walk ∧
      (n.positions.Nodup ∧ n.positions.Pairwise (· < ·) ∧
        (∀ p, p ∈ n.positions ↔ ∃ m, n.get? p = some m) ∧
        List.Forall₂ (fun p m => n.get? p = some m) n.positions n.walk) ∧
      n.count = n.positions.length ∧ n.outline.length = n.count ∧
      ∀ (i : Nat) (p : Position) (m : Node), n.positions[i]? = some p → n.walk[i]? = some m →
        n.outline[i]? = some (m.line p.length (some 20)) := by
  refine ⟨fun ms => Walk.handsOut_iff, n.walk_eq_cons,
    ⟨n.nodup_positions, n.pairwise_lt_positions, fun p => mem_positions_iff, ?_⟩, ?_, ?_, ?_⟩
  · rw [← map_fst_located, ← map_snd_located, List.forall₂_map_left_iff,
      List.forall₂_map_right_iff, List.forall₂_same]
    exact fun x hx => get?_of_mem_located hx
  · rw [count, ← map_fst_located, ← map_snd_located, List.length_map, List.length_map]
  · rw [count, outline_eq, ← map_snd_located, List.length_map, List.length_map]
  · intro i p m hp hm
    rw [← map_fst_located, List.getElem?_map, Option.map_eq_some_iff] at hp
    rw [← map_snd_located, List.getElem?_map, Option.map_eq_some_iff] at hm
    obtain ⟨x, hx, rfl⟩ := hp
    obtain ⟨y, hy, rfl⟩ := hm
    obtain rfl : x = y := Option.some.inj (hx.symm.trans hy)
    rw [outline_eq, List.getElem?_map, hx]
    rfl

end Node

end TreeMend
