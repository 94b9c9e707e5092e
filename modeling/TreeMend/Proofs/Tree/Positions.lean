import Mathlib.Data.List.Nodup
import TreeMend.Tree.Node

/-!
# Positions in a tree

A position leads to at most one node, and every node of a tree has exactly one position.  What is
said of all nodes of a tree can therefore be said of all its positions, and an induction over a
tree is an induction over its positions.

## Main definitions

* `Node.positionsUnder` — the positions of a subtree, named from the root of the tree.
* `Node.Everywhere` — what holds of every node of a tree.

## Main results

* `Node.inductionOn` — a property that passes from the children to their parent holds everywhere.
* `Node.get?_append` — looking up in two steps.
* `Node.mem_positions_iff` — the listed positions are those that lead somewhere.
* `Node.nodup_positions` — no position is listed twice.
* `Node.mem_positionsUnder_iff` — the positions of a subtree are those that continue its own.
* `Node.everywhere_iff` — what holds of every node holds of the root and throughout the children.
-/

namespace TreeMend.Node

/-- A property that passes from the children of a node to the node holds of every tree. -/
@[elab_as_elim]
theorem inductionOn {motive : Node → Prop} (n : Node)
    (step : ∀ n : Node, (∀ c ∈ n.children, motive c) → motive n) : motive n := by
  refine @Node.rec motive (fun cs => ∀ c ∈ cs, motive c) ?_ ?_ ?_ n
  · intro k t s cs ih
    exact step ⟨k, t, s, cs⟩ ih
  · intro c hc
    cases hc
  · intro c cs hc hcs d hd
    rcases List.mem_cons.mp hd with rfl | hd
    · exact hc
    · exact hcs d hd

/-! ### Looking up -/

@[simp] theorem get?_nil (n : Node) : n.get? [] = some n := by
  cases n; rfl

theorem get?_cons (n : Node) (i : Nat) (p : Position) :
    n.get? (i :: p) = n.children[i]?.bind fun c => c.get? p := rfl

theorem get?_cons_eq_some {n m : Node} {i : Nat} {p : Position} :
    n.get? (i :: p) = some m ↔ ∃ c, n.children[i]? = some c ∧ c.get? p = some m := by
  rw [get?_cons, Option.bind_eq_some_iff]

/-- Concatenated positions are looked up one after the other. -/
theorem get?_append (n : Node) (p q : Position) :
    n.get? (p ++ q) = (n.get? p).bind fun m => m.get? q := by
  induction p generalizing n with
  | nil => simp
  | cons i p ih =>
    rw [List.cons_append, get?_cons, get?_cons]
    cases n.children[i]? with
    | none => rfl
    | some c => exact ih c

theorem kind_of_child? {n c : Node} {k : Kind} (h : n.child? k = some c) : c.kind = k :=
  beq_iff_eq.mp (List.find?_some h :)

/-- A child that is looked up by its kind stands right below the node. -/
theorem exists_get?_of_child? {root n c : Node} {q : Position} {k : Kind}
    (hn : root.get? q = some n) (h : n.child? k = some c) :
    ∃ i, root.get? (q ++ [i]) = some c := by
  obtain ⟨i, hi⟩ := List.mem_iff_getElem?.mp (List.mem_of_find?_eq_some h)
  refine ⟨i, ?_⟩
  rw [get?_append, hn]
  exact get?_cons_eq_some.mpr ⟨c, hi, get?_nil c⟩

/-! ### The listed positions -/

@[simp] theorem positionsFrom_nil (i : Nat) : positionsFrom i [] = [] := rfl

@[simp] theorem positionsFrom_cons (i : Nat) (c : Node) (cs : List Node) :
    positionsFrom i (c :: cs) = c.positions.map (i :: ·) ++ positionsFrom (i + 1) cs := rfl

theorem positions_eq (n : Node) : n.positions = [] :: positionsFrom 0 n.children := by
  cases n; rfl

theorem nil_mem_positions (n : Node) : [] ∈ n.positions := by
  rw [positions_eq]
  exact List.mem_cons_self

theorem mem_positionsFrom_iff {i : Nat} {cs : List Node} {p : Position} :
    p ∈ positionsFrom i cs ↔ ∃ j c q, cs[j]? = some c ∧ q ∈ c.positions ∧ p = (i + j) :: q := by
  induction cs generalizing i with
  | nil => simp
  | cons c cs ih =>
    rw [positionsFrom_cons, List.mem_append, List.mem_map, ih]
    constructor
    · rintro (⟨q, hq, rfl⟩ | ⟨j, d, q, hd, hq, rfl⟩)
      · exact ⟨0, c, q, rfl, hq, rfl⟩
      · exact ⟨j + 1, d, q, hd, hq, by rw [Nat.add_right_comm, Nat.add_assoc]⟩
    · rintro ⟨j, d, q, hd, hq, rfl⟩
      cases j with
      | zero =>
        have hcd : c = d := by simpa using hd
        exact Or.inl ⟨q, hcd ▸ hq, rfl⟩
      | succ j => exact Or.inr ⟨j, d, q, hd, hq, by rw [Nat.add_right_comm, Nat.add_assoc]⟩

theorem cons_mem_positions_iff {n : Node} {i : Nat} {p : Position} :
    i :: p ∈ n.positions ↔ ∃ c, n.children[i]? = some c ∧ p ∈ c.positions := by
  rw [positions_eq, List.mem_cons, mem_positionsFrom_iff]
  simp only [reduceCtorEq, false_or, Nat.zero_add, List.cons.injEq]
  constructor
  · rintro ⟨j, c, q, hc, hq, rfl, rfl⟩
    exact ⟨c, hc, hq⟩
  · rintro ⟨c, hc, hp⟩
    exact ⟨i, c, p, hc, hp, rfl, rfl⟩

/-- The listed positions are exactly those that lead to a node. -/
theorem mem_positions_iff {n : Node} {p : Position} :
    p ∈ n.positions ↔ ∃ m, n.get? p = some m := by
  induction p generalizing n with
  | nil => simp [nil_mem_positions]
  | cons i p ih =>
    rw [cons_mem_positions_iff]
    constructor
    · rintro ⟨c, hc, hp⟩
      obtain ⟨m, hm⟩ := ih.mp hp
      exact ⟨m, get?_cons_eq_some.mpr ⟨c, hc, hm⟩⟩
    · rintro ⟨m, hm⟩
      obtain ⟨c, hc, hm⟩ := get?_cons_eq_some.mp hm
      exact ⟨c, hc, ih.mpr ⟨m, hm⟩⟩

theorem nodup_positionsFrom {cs : List Node} (h : ∀ c ∈ cs, c.positions.Nodup) (i : Nat) :
    (positionsFrom i cs).Nodup := by
  induction cs generalizing i with
  | nil => exact List.nodup_nil
  | cons c cs ih =>
    have hc : (c.positions.map (i :: ·)).Nodup :=
      (h c List.mem_cons_self).map List.cons_injective
    have hcs := ih (fun d hd => h d (List.mem_cons_of_mem c hd)) (i + 1)
    refine hc.append hcs ?_
    -- the positions of later children start with a larger index
    intro p hp hp'
    obtain ⟨q, -, rfl⟩ := List.mem_map.mp hp
    obtain ⟨j, d, r, hd, hr, heq⟩ := mem_positionsFrom_iff.mp hp'
    have : i = i + 1 + j := (List.cons.inj heq).1
    omega

/-- No position is listed twice. -/
theorem nodup_positions (n : Node) : n.positions.Nodup := by
  induction n using inductionOn with
  | step n ih =>
    rw [positions_eq]
    refine List.nodup_cons.mpr ⟨?_, nodup_positionsFrom ih 0⟩
    intro h
    obtain ⟨j, c, q, -, -, heq⟩ := mem_positionsFrom_iff.mp h
    exact List.cons_ne_nil _ _ heq.symm

/-! ### The positions of a subtree -/

/-- The positions of the nodes of the subtree at `p`, named from the root of the tree. -/
def positionsUnder (n : Node) (p : Position) : List Position :=
  (((n.get? p).map positions).getD []).map (p ++ ·)

theorem positionsUnder_of_get? {n m : Node} {p : Position} (h : n.get? p = some m) :
    n.positionsUnder p = m.positions.map (p ++ ·) := by
  rw [positionsUnder, h]
  rfl

theorem mem_positionsUnder_iff {n : Node} {p q : Position} :
    q ∈ n.positionsUnder p ↔ p <+: q ∧ ∃ m, n.get? q = some m := by
  unfold positionsUnder
  rw [List.mem_map]
  constructor
  · rintro ⟨r, hr, rfl⟩
    refine ⟨List.prefix_append p r, ?_⟩
    rw [get?_append]
    cases hp : n.get? p with
    | none => simp [hp] at hr
    | some m => exact mem_positions_iff.mp (by simpa [hp] using hr)
  · rintro ⟨⟨r, rfl⟩, m, hm⟩
    refine ⟨r, ?_, rfl⟩
    rw [get?_append] at hm
    obtain ⟨k, hk, hm⟩ := Option.bind_eq_some_iff.mp hm
    rw [hk]
    exact mem_positions_iff.mpr ⟨m, hm⟩

theorem nodup_positionsUnder (n : Node) (p : Position) : (n.positionsUnder p).Nodup := by
  refine List.Nodup.map (fun a b hab => List.append_cancel_left hab) ?_
  cases n.get? p with
  | none => exact List.nodup_nil
  | some m => exact m.nodup_positions

/-! ### The nodes of a tree -/

theorem mem_preorderList_iff {cs : List Node} {m : Node} :
    m ∈ preorderList cs ↔ ∃ c ∈ cs, m ∈ c.preorder := by
  induction cs with
  | nil => simp
  | cons c cs ih => simp [ih]

/-- The nodes of a tree are those that some position leads to. -/
theorem mem_preorder_iff {n m : Node} : m ∈ n.preorder ↔ ∃ p, n.get? p = some m := by
  induction n using inductionOn with
  | step n ih =>
    rw [preorder_eq, List.mem_cons, mem_preorderList_iff]
    constructor
    · rintro (rfl | ⟨c, hc, hm⟩)
      · exact ⟨[], get?_nil m⟩
      · obtain ⟨i, hi⟩ := List.mem_iff_getElem?.mp hc
        obtain ⟨p, hp⟩ := (ih c hc).mp hm
        exact ⟨i :: p, get?_cons_eq_some.mpr ⟨c, hi, hp⟩⟩
    · rintro ⟨p, hp⟩
      cases p with
      | nil => exact Or.inl (by simpa using hp.symm)
      | cons i p =>
        obtain ⟨c, hi, hp⟩ := get?_cons_eq_some.mp hp
        have hc : c ∈ n.children := List.mem_of_getElem? hi
        exact Or.inr ⟨c, hc, (ih c hc).mpr ⟨p, hp⟩⟩

/-- Every node of the tree has the property. -/
def Everywhere (P : Node → Prop) (n : Node) : Prop := ∀ m ∈ n.preorder, P m

theorem everywhere_iff {P : Node → Prop} {n : Node} :
    n.Everywhere P ↔ P n ∧ ∀ c ∈ n.children, c.Everywhere P := by
  unfold Everywhere
  rw [preorder_eq, List.forall_mem_cons]
  refine and_congr_right fun _ => ?_
  constructor
  · intro h c hc m hm
    exact h m (mem_preorderList_iff.mpr ⟨c, hc, hm⟩)
  · intro h m hm
    obtain ⟨c, hc, hm⟩ := mem_preorderList_iff.mp hm
    exact h c hc m hm

end TreeMend.Node
