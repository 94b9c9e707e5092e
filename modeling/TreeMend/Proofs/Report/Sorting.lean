import Mathlib.Data.List.Basic
import TreeMend.Report.Summary

/-!
# The order of findings

Findings are sorted by the components of their path, then by line, then by column.  Two findings
may have the same place, so the order leaves ties; sorting settles them by leaving tied findings as
they stand.  What a sorted list looks like therefore depends on one thing only: which findings
there are at each place, and in which order.

## Main definitions

* `List.tied` — the elements an order does not tell from a given one.
* `Summary.SamePlace` — two findings are at the same place.
* `Summary.InOrder` — a finding may stand in front of another.

## Main results

* `Path.compare_eq_eq_iff` — paths are equal in their order if they have the same components.
* `Summary.compare_eq_eq_iff`, `Summary.isLE_compare_iff` — the order in words.
* `List.tied_mergeSort`, `List.mergeSort_congr_tied` — sorting leaves tied elements as they stand,
  and what it gives depends on the ties alone.
* `Summary.pairwise_sort`, `Summary.filter_sort`, `Summary.sort_congr` — the same for findings.
-/

namespace List

/-! ### Sorting by an order with ties -/

variable {α : Type} (cmp : α → α → Ordering)

/-- The elements that an order does not tell from `a`, as they stand in a list. -/
def tied (a : α) (l : List α) : List α := l.filter (cmp a · == .eq)

theorem mem_tied_iff {a b : α} {l : List α} : b ∈ tied cmp a l ↔ b ∈ l ∧ cmp a b = .eq := by
  simp [tied]

theorem tied_cons_of_eq {a b : α} (h : cmp a b = .eq) (l : List α) :
    tied cmp a (b :: l) = b :: tied cmp a l :=
  filter_cons_of_pos (by simp [h])

theorem tied_cons_of_ne {a b : α} (h : cmp a b ≠ .eq) (l : List α) :
    tied cmp a (b :: l) = tied cmp a l :=
  filter_cons_of_neg (by simp [h])

variable [Std.TransCmp cmp]

omit [Std.TransCmp cmp] in
theorem isLE_or_isLE [Std.OrientedCmp cmp] (a b : α) :
    ((cmp a b).isLE || (cmp b a).isLE) = true := by
  have hswap : cmp b a = (cmp a b).swap := Std.OrientedCmp.eq_swap
  rw [hswap]
  cases cmp a b <;> rfl

theorem pairwise_mergeSort_compare (l : List α) :
    (l.mergeSort fun a b => (cmp a b).isLE).Pairwise fun a b => (cmp a b).isLE :=
  pairwise_mergeSort (fun _ _ _ => Std.TransCmp.isLE_trans) (isLE_or_isLE cmp) l

/-- Sorting leaves tied elements as they stand. -/
theorem tied_mergeSort (l : List α) (a : α) :
    tied cmp a (l.mergeSort fun a b => (cmp a b).isLE) = tied cmp a l := by
  have hperm := mergeSort_perm l fun a b => (cmp a b).isLE
  have hties : (tied cmp a l).Pairwise fun b c => (cmp b c).isLE := by
    refine pairwise_of_forall_mem_list fun b hb c hc => ?_
    have hb := (mem_tied_iff cmp).mp hb
    have hc := (mem_tied_iff cmp).mp hc
    rw [← Std.TransCmp.congr_left hb.2, hc.2]
    rfl
  -- a sublist that is in order already keeps its order
  have hsublist : (tied cmp a l).Sublist (l.mergeSort fun a b => (cmp a b).isLE) :=
    sublist_mergeSort (fun _ _ _ => Std.TransCmp.isLE_trans) (isLE_or_isLE cmp) hties
      filter_sublist
  have hfiltered := hsublist.filter (cmp a · == .eq)
  rw [tied, filter_filter] at hfiltered
  simp only [Bool.and_self] at hfiltered
  exact (hfiltered.eq_of_length (hperm.filter _).length_eq.symm).symm

omit [Std.TransCmp cmp] in
theorem mem_iff_of_tied_eq [Std.ReflCmp cmp] {xs ys : List α}
    (h : ∀ a, tied cmp a xs = tied cmp a ys) (a : α) : a ∈ xs ↔ a ∈ ys := by
  have ha : a ∈ tied cmp a xs ↔ a ∈ tied cmp a ys := by rw [h]
  have hself : cmp a a = .eq := Std.ReflCmp.compare_self
  simpa [mem_tied_iff, hself] using ha

/-- The first element of a sorted list stands in front of every element. -/
theorem isLE_head {x a : α} {xs : List α} (h : (x :: xs).Pairwise fun a b => (cmp a b).isLE)
    (ha : a ∈ x :: xs) : (cmp x a).isLE := by
  rcases mem_cons.mp ha with rfl | ha
  · have hself : cmp a a = .eq := Std.ReflCmp.compare_self
    rw [hself]
    rfl
  · exact rel_of_pairwise_cons h ha

/-- Sorted lists with the same ties are the same. -/
theorem eq_of_tied_eq {xs ys : List α} (hxs : xs.Pairwise fun a b => (cmp a b).isLE)
    (hys : ys.Pairwise fun a b => (cmp a b).isLE) (h : ∀ a, tied cmp a xs = tied cmp a ys) :
    xs = ys := by
  induction xs generalizing ys with
  | nil =>
    refine (eq_nil_iff_forall_not_mem.mpr fun a ha => ?_).symm
    exact not_mem_nil ((mem_iff_of_tied_eq cmp h a).mpr ha)
  | cons x xs ih =>
    cases ys with
    | nil => exact absurd ((mem_iff_of_tied_eq cmp h x).mp mem_cons_self) not_mem_nil
    | cons y ys =>
      -- the two heads stand in front of each other, so they are tied, and first among their ties
      have hxy := isLE_head cmp hxs ((mem_iff_of_tied_eq cmp h y).mpr mem_cons_self)
      have hyx := isLE_head cmp hys ((mem_iff_of_tied_eq cmp h x).mp mem_cons_self)
      have hheads := h x
      rw [tied_cons_of_eq cmp Std.ReflCmp.compare_self,
        tied_cons_of_eq cmp (Std.OrientedCmp.isLE_antisymm hxy hyx)] at hheads
      obtain ⟨rfl, -⟩ := cons.inj hheads
      have htails : ∀ a, tied cmp a xs = tied cmp a ys := by
        intro a
        have ha := h a
        by_cases hax : cmp a x = .eq
        · rw [tied_cons_of_eq cmp hax, tied_cons_of_eq cmp hax] at ha
          exact (cons.inj ha).2
        · rwa [tied_cons_of_ne cmp hax, tied_cons_of_ne cmp hax] at ha
      rw [ih hxs.of_cons hys.of_cons htails]

/-- Lists with the same ties are sorted alike. -/
theorem mergeSort_congr_tied {xs ys : List α} (h : ∀ a, tied cmp a xs = tied cmp a ys) :
    (xs.mergeSort fun a b => (cmp a b).isLE) = ys.mergeSort fun a b => (cmp a b).isLE := by
  refine eq_of_tied_eq cmp (pairwise_mergeSort_compare cmp xs) (pairwise_mergeSort_compare cmp ys)
    fun a => ?_
  rw [tied_mergeSort, tied_mergeSort, h]

end List

namespace TreeMend

/-- Things are in the order of what is looked up in them. -/
theorem transCmp_on {α β : Type} (cmp : β → β → Ordering) [Std.TransCmp cmp] (f : α → β) :
    Std.TransCmp fun a b => cmp (f a) (f b) where
  eq_swap := Std.OrientedCmp.eq_swap
  isLE_trans := Std.TransCmp.isLE_trans

/-! ### Paths -/

namespace Path

instance : Std.TransCmp Component.compare :=
  inferInstanceAs (Std.TransCmp (compareLex (compareOn Component.rank) (compareOn Component.name)))

instance : Std.LawfulEqCmp Component.compare where
  eq_of_compare {c d} h := by
    obtain ⟨hrank, hname⟩ := compareLex_eq_eq.mp h
    have hrank : c.rank = d.rank := Std.LawfulEqOrd.eq_of_compare hrank
    have hname : c.name = d.name := Std.LawfulEqOrd.eq_of_compare hname
    cases c <;> cases d <;> simp_all [Component.rank, Component.name]

instance : Std.TransCmp Path.compare :=
  transCmp_on (List.compareLex Component.compare) components

/-- Paths are equal in their order if they have the same components. -/
theorem compare_eq_eq_iff {p q : Path} :
    Path.compare p q = .eq ↔ components p = components q := by
  unfold Path.compare
  exact Std.LawfulEqCmp.compare_eq_iff_eq

end Path

/-! ### Findings -/

namespace Summary

/-- The two findings are at the same place: in one file, in the same line and column. -/
def SamePlace (v w : Violation) : Prop :=
  Path.components v.location.file = Path.components w.location.file ∧
    v.location.line = w.location.line ∧ v.location.column = w.location.column

instance (v w : Violation) : Decidable (SamePlace v w) :=
  inferInstanceAs (Decidable (_ ∧ _ ∧ _))

/-- The first finding may stand in front of the second: its file comes first, or in one file its
line, or in one line its column, or they are at the same place. -/
def InOrder (v w : Violation) : Prop :=
  Path.compare v.location.file w.location.file = .lt ∨
    Path.components v.location.file = Path.components w.location.file ∧
      (v.location.line < w.location.line ∨
        v.location.line = w.location.line ∧ v.location.column ≤ w.location.column)

instance : Std.TransCmp Summary.compare := by
  have hfile := transCmp_on Path.compare fun v : Violation => v.location.file
  unfold Summary.compare
  infer_instance

theorem compare_eq_eq_iff {v w : Violation} : compare v w = .eq ↔ SamePlace v w := by
  unfold compare SamePlace
  rw [compareLex_eq_eq, compareLex_eq_eq, Path.compare_eq_eq_iff, compareOn, compareOn,
    Std.LawfulEqCmp.compare_eq_iff_eq, Std.LawfulEqCmp.compare_eq_iff_eq]

theorem isLE_compare_iff {v w : Violation} : (compare v w).isLE ↔ InOrder v w := by
  have hthen : ∀ o o' : Ordering, (o.then o').isLE ↔ o = .lt ∨ o = .eq ∧ o'.isLE := by
    intro o o'
    cases o <;> simp
  change (Ordering.then _ (Ordering.then _ _)).isLE ↔ _
  rw [hthen, hthen, Path.compare_eq_eq_iff, compareOn, compareOn, Nat.compare_eq_lt,
    Nat.compare_eq_eq, Nat.isLE_compare]
  rfl

/-- A sorted result is in order. -/
theorem pairwise_sort (s : Summary) : s.sort.violations.Pairwise InOrder :=
  (List.pairwise_mergeSort_compare compare s.violations).imp isLE_compare_iff.mp

theorem filter_samePlace (v : Violation) (l : List Violation) :
    l.filter (SamePlace v ·) = l.tied compare v := by
  refine List.filter_congr fun w _ => ?_
  rw [Bool.eq_iff_iff, decide_eq_true_iff, beq_iff_eq, compare_eq_eq_iff]

/-- Sorting a result leaves the findings at one place as they stand. -/
theorem filter_sort (s : Summary) (v : Violation) :
    s.sort.violations.filter (SamePlace v ·) = s.violations.filter (SamePlace v ·) := by
  rw [filter_samePlace, filter_samePlace]
  exact List.tied_mergeSort compare s.violations v

/-- Results with the same findings at each place are sorted alike. -/
theorem sort_congr {s t : Summary} (hfiles : s.filesChecked = t.filesChecked)
    (h : ∀ v, s.violations.filter (SamePlace v ·) = t.violations.filter (SamePlace v ·)) :
    s.sort = t.sort := by
  have hties : ∀ v, s.violations.tied compare v = t.violations.tied compare v := by
    intro v
    rw [← filter_samePlace, ← filter_samePlace, h]
  have hsorted := List.mergeSort_congr_tied compare hties
  rw [sort, sort, hsorted, hfiles]

end Summary

end TreeMend
