/-!
# Collected results and keyed lists

Two facts about lists that readers and tables share.  An operation that may fail succeeds on a list
with the results that it has one by one; and a list with keys, none of which stands twice, gives to
a key what stands beside it.

## Main results

* `List.mapM_eq_some_iff` — results that are collected from a list.
* `List.mem_iff_lookup_eq_some` — looking up a key that stands once.
-/

namespace List

variable {α β κ : Type}

/-- An operation succeeds on a list with the results that it has one by one. -/
theorem mapM_eq_some_iff {f : α → Option β} {xs : List α} {ys : List β} :
    xs.mapM f = some ys ↔ xs.map f = ys.map some := by
  induction xs generalizing ys with
  | nil =>
    constructor
    · intro h
      obtain rfl := Option.some.inj h
      rfl
    · intro h
      rw [map_eq_nil_iff.mp h.symm]
      rfl
  | cons x xs ih =>
    rw [mapM_cons]
    simp only [Option.bind_eq_bind, Option.bind_eq_some_iff, Option.pure_def, Option.some.injEq,
      ih, map_cons]
    constructor
    · rintro ⟨first, hfirst, rest, hrest, rfl⟩
      rw [hfirst, hrest, map_cons]
    · intro h
      obtain ⟨first, rest, rfl, hfirst, hrest⟩ := map_eq_cons_iff.mp h.symm
      exact ⟨first, hfirst.symm, rest, hrest.symm, rfl⟩

/-- What is found in a table stands in it. -/
theorem mem_of_lookup [BEq κ] [LawfulBEq κ] {key : κ} {a : α} {es : List (κ × α)}
    (h : es.lookup key = some a) : (key, a) ∈ es := by
  obtain ⟨before, after, rfl, -⟩ := lookup_eq_some_iff.mp h
  exact mem_append_right before mem_cons_self

variable [DecidableEq κ]

theorem lookup_cons_eq_ite (key : κ) (e : κ × α) (es : List (κ × α)) :
    (e :: es).lookup key = if key = e.1 then some e.2 else es.lookup key := by
  rw [lookup_cons]
  by_cases hkey : key = e.1
  · simp [hkey]
  · simp [hkey, beq_eq_false_iff_ne.mpr hkey]

theorem lookup_eq_none_of_not_mem {key : κ} {es : List (κ × α)} (h : key ∉ es.map Prod.fst) :
    es.lookup key = none := by
  rw [lookup_eq_none_iff]
  intro e he
  rw [bne_iff_ne]
  rintro rfl
  exact h (mem_map_of_mem he)

/-- In a list that repeats no key, a key is given what stands beside it. -/
theorem mem_iff_lookup_eq_some {es : List (κ × α)} (h : (es.map Prod.fst).Nodup) {key : κ} {a : α} :
    (key, a) ∈ es ↔ es.lookup key = some a := by
  refine ⟨?_, mem_of_lookup⟩
  intro hmem
  induction es with
  | nil => exact absurd hmem not_mem_nil
  | cons e es ih =>
    obtain ⟨hfirst, hes⟩ := nodup_cons.mp h
    rw [lookup_cons_eq_ite]
    rcases mem_cons.mp hmem with rfl | hmem
    · rw [if_pos rfl]
    · have hother : key ≠ e.1 := by
        rintro rfl
        exact hfirst (mem_map.mpr ⟨(e.1, a), hmem, rfl⟩)
      rw [if_neg hother, ih hes hmem]

end List
