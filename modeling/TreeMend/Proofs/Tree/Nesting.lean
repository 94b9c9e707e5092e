import TreeMend.Proofs.Tree.Walking

/-!
# Trees whose ranges nest

The ranges of a tree nest when the children of every node stand inside its range, one after
another.  In such a tree the whole subtree of a node stands inside its range, so a walk, which
hands out nodes in source order, comes by them in the order in which they start.

## Main definitions

* `Span.Holds` — a range with some others inside it, one after another.
* `Node.WellNested` — a tree whose ranges nest.
* `Node.Arranged` — well nested trees inside a range, one after another.

## Main results

* `Node.wellNested_iff` — a tree is well nested if its children are arranged in its range.
* `Node.Arranged.sublist`, `Node.Arranged.flatMap`, `Node.Arranged.cut` — what stays arranged.
* `Node.WellNested.pairwise_start` — the nodes of a walk start in order.
-/

namespace TreeMend

/-- The ranges `inner` stand inside `outer`, one after another. -/
structure Span.Holds (outer : Span) (inner : List Span) : Prop where
  /-- The outer range does not run backwards. -/
  forward : outer.start ≤ outer.stop
  /-- The inner ranges stand inside. -/
  inside : ∀ s ∈ inner, outer.start ≤ s.start ∧ s.stop ≤ outer.stop
  /-- An inner range ends before any later one starts. -/
  ordered : inner.Pairwise fun a b => a.stop ≤ b.start

instance (outer : Span) (inner : List Span) : Decidable (outer.Holds inner) :=
  decidable_of_iff
    (outer.start ≤ outer.stop ∧
      (∀ s ∈ inner, outer.start ≤ s.start ∧ s.stop ≤ outer.stop) ∧
      inner.Pairwise fun a b => a.stop ≤ b.start)
    ⟨fun h => ⟨h.1, h.2.1, h.2.2⟩, fun h => ⟨h.forward, h.inside, h.ordered⟩⟩

namespace Span

variable {outer : Span} {inner : List Span}

theorem Holds.sublist (h : outer.Holds inner) {some : List Span} (hsub : some.Sublist inner) :
    outer.Holds some where
  forward := h.forward
  inside := fun s hs => h.inside s (hsub.subset hs)
  ordered := h.ordered.sublist hsub

/-- A range that holds others can be replaced among its neighbours by those. -/
theorem Holds.flatMap {α : Type} (range : α → Span) {xs : List α}
    (h : outer.Holds (xs.map range)) {f : α → List Span}
    (hf : ∀ x ∈ xs, (range x).Holds (f x)) : outer.Holds (xs.flatMap f) where
  forward := h.forward
  inside := by
    intro s hs
    obtain ⟨x, hx, hs⟩ := List.mem_flatMap.mp hs
    have houter := h.inside (range x) (List.mem_map_of_mem hx)
    have hinner := (hf x hx).inside s hs
    omega
  ordered := by
    rw [List.pairwise_flatMap]
    refine ⟨fun x hx => (hf x hx).ordered, ?_⟩
    refine (List.pairwise_map.mp h.ordered).imp_of_mem ?_
    intro x y hx hy hxy a ha b hb
    have hends := ((hf x hx).inside a ha).2
    have hstarts := ((hf y hy).inside b hb).1
    omega

end Span

namespace Node

/-- The children of every node stand inside its range, one after another. -/
def WellNested (n : Node) : Prop :=
  n.Everywhere fun m => m.span.Holds (m.children.map Node.span)

/-- The trees stand inside the range, one after another, and each is well nested. -/
structure Arranged (outer : Span) (ns : List Node) : Prop where
  /-- The roots stand inside the range, one after another. -/
  holds : outer.Holds (ns.map Node.span)
  /-- Each tree is well nested. -/
  nested : ∀ n ∈ ns, n.WellNested

theorem wellNested_iff {n : Node} : n.WellNested ↔ Arranged n.span n.children := by
  rw [WellNested, everywhere_iff]
  exact ⟨fun h => ⟨h.1, h.2⟩, fun h => ⟨h.holds, h.nested⟩⟩

theorem WellNested.forward {n : Node} (h : n.WellNested) : n.span.start ≤ n.span.stop :=
  (wellNested_iff.mp h).holds.forward

/-! ### Arranged trees -/

namespace Arranged

variable {outer : Span} {ns : List Node}

theorem nil (h : outer.start ≤ outer.stop) : Arranged outer [] :=
  ⟨⟨h, nofun, .nil⟩, nofun⟩

theorem singleton {n : Node} (h : n.WellNested) : Arranged n.span [n] where
  holds := ⟨h.forward, List.forall_mem_singleton.mpr ⟨Nat.le_refl _, Nat.le_refl _⟩,
    List.pairwise_singleton _ _⟩
  nested := List.forall_mem_singleton.mpr h

theorem sublist (h : Arranged outer ns) {ms : List Node} (hsub : ms.Sublist ns) :
    Arranged outer ms :=
  ⟨h.holds.sublist (hsub.map _), fun m hm => h.nested m (hsub.subset hm)⟩

/-- Things that stand one after another can each leave arranged trees in its range. -/
theorem flatMap {α : Type} (range : α → Span) {xs : List α} (h : outer.Holds (xs.map range))
    {f : α → List Node} (hf : ∀ x ∈ xs, Arranged (range x) (f x)) :
    Arranged outer (xs.flatMap f) where
  holds := by
    rw [List.map_flatMap]
    exact Span.Holds.flatMap range h fun x hx => (hf x hx).holds
  nested := by
    intro n hn
    obtain ⟨x, hx, hn⟩ := List.mem_flatMap.mp hn
    exact (hf x hx).nested n hn

/-- A wider range holds the same trees. -/
theorem widen (h : Arranged outer ns) {wide : Span} (hstart : wide.start ≤ outer.start)
    (hstop : outer.stop ≤ wide.stop) : Arranged wide ns where
  holds :=
    { forward := by
        have := h.holds.forward
        omega
      inside := by
        intro s hs
        have := h.holds.inside s hs
        omega
      ordered := h.holds.ordered }
  nested := h.nested

/-- One more tree at the end. -/
theorem concat (h : Arranged outer ns) {n : Node} (hn : n.WellNested)
    (hstart : ∀ m ∈ ns, m.span.stop ≤ n.span.start) (hinside : outer.start ≤ n.span.start)
    (hstop : n.span.stop ≤ outer.stop) : Arranged outer (ns ++ [n]) where
  holds :=
    { forward := h.holds.forward
      inside := by
        rw [List.map_append, List.forall_mem_append]
        exact ⟨h.holds.inside, List.forall_mem_singleton.mpr ⟨hinside, hstop⟩⟩
      ordered := by
        rw [List.map_append, List.pairwise_append]
        refine ⟨h.holds.ordered, List.pairwise_singleton _ _, ?_⟩
        intro a ha b hb
        obtain ⟨m, hm, rfl⟩ := List.mem_map.mp ha
        obtain rfl := List.mem_singleton.mp hb
        exact hstart m hm }
  nested := List.forall_mem_append.mpr ⟨h.nested, List.forall_mem_singleton.mpr hn⟩

/-- No tree ends after the last one. -/
theorem stop_le_last (h : Arranged outer ns) {last : Node} (hlast : ns.getLast? = some last) :
    ∀ n ∈ ns, n.span.stop ≤ last.span.stop := by
  obtain ⟨before, rfl⟩ := List.getLast?_eq_some_iff.mp hlast
  have hforward : last.span.start ≤ last.span.stop :=
    (h.nested last (List.mem_append_right _ List.mem_cons_self)).forward
  have hordered := h.holds.ordered
  rw [List.map_append, List.pairwise_append] at hordered
  intro n hn
  rcases List.mem_append.mp hn with hn | hn
  · have hbefore := hordered.2.2 n.span (List.mem_map_of_mem hn) last.span List.mem_cons_self
    omega
  · obtain rfl := List.mem_singleton.mp hn
    exact Nat.le_refl _

/-- The range that holds arranged trees can be cut where the last one ends. -/
theorem cut (h : Arranged outer ns) :
    Arranged ⟨outer.start, (ns.getLast?.map (·.span.stop)).getD outer.stop⟩ ns ∧
      (ns.getLast?.map (·.span.stop)).getD outer.stop ≤ outer.stop := by
  cases hlast : ns.getLast? with
  | none => exact ⟨h, Nat.le_refl _⟩
  | some last =>
    have hmem : last ∈ ns := List.mem_of_getLast? hlast
    have hinside := h.holds.inside last.span (List.mem_map_of_mem hmem)
    have hforward := (h.nested last hmem).forward
    refine ⟨⟨⟨?_, ?_, h.holds.ordered⟩, h.nested⟩, hinside.2⟩
    · exact Nat.le_trans hinside.1 hforward
    · intro s hs
      obtain ⟨n, hn, rfl⟩ := List.mem_map.mp hs
      exact ⟨(h.holds.inside n.span hs).1, h.stop_le_last hlast n hn⟩

end Arranged

/-! ### Walks -/

/-- Every node of a well nested tree starts inside the range of the root. -/
theorem WellNested.start_inside {n m : Node} (h : n.WellNested) (hm : m ∈ n.preorder) :
    n.span.start ≤ m.span.start ∧ m.span.start ≤ n.span.stop := by
  induction n using inductionOn with
  | step n ih =>
    have harranged := wellNested_iff.mp h
    rw [preorder_eq] at hm
    rcases List.mem_cons.mp hm with rfl | hm
    · exact ⟨Nat.le_refl _, h.forward⟩
    · obtain ⟨c, hc, hm⟩ := mem_preorderList_iff.mp hm
      have hchild := harranged.holds.inside c.span (List.mem_map_of_mem hc)
      have hbelow := ih c hc (harranged.nested c hc) hm
      omega

/-- The nodes that a walk hands out start in order. -/
theorem WellNested.pairwise_start {n : Node} (h : n.WellNested) :
    n.walk.Pairwise fun a b => a.span.start ≤ b.span.start := by
  rw [walk_eq_preorder]
  induction n using inductionOn with
  | step n ih =>
    have harranged := wellNested_iff.mp h
    rw [preorder_eq, List.pairwise_cons]
    constructor
    · intro m hm
      refine (h.start_inside ?_).1
      rw [preorder_eq]
      exact List.mem_cons_of_mem n hm
    · rw [preorderList_eq_flatMap, List.pairwise_flatMap]
      refine ⟨fun c hc => ih c hc (harranged.nested c hc), ?_⟩
      -- a subtree starts before its root ends, and the next one after that
      refine (List.pairwise_map.mp harranged.holds.ordered).imp_of_mem ?_
      intro c d hc hd hcd a ha b hb
      have hends := ((harranged.nested c hc).start_inside ha).2
      have hstarts := ((harranged.nested d hd).start_inside hb).1
      omega

end Node

end TreeMend
