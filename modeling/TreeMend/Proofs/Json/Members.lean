import Mathlib.Data.List.Induction
import Mathlib.Data.List.Nodup
import TreeMend.Json.Value

/-!
# The members of an object

Of the members with one key the last one counts, in the place of the first.  What is left has no key
twice, so resolving repetitions again changes nothing, and an object that repeats no key to begin
with keeps its members as they are.

## Main results

* `Json.mem_keys_of_mem_entries`, `Json.nodup_entries` — the keys that are left.
* `Json.entries_of_nodup`, `Json.normalize_obj` — objects that repeat no key.
* `Json.get?_normalize_object` — members of an object whose repetitions are resolved.
-/

namespace TreeMend.Json

/-- The members after one more, which takes the place of one with its key. -/
def withEntry (acc : List (String × Json)) : Option String × Json → List (String × Json)
  | (none, _) => acc
  | (some k, v) =>
    if acc.any (·.1 == k) then acc.map fun e => if e.1 == k then (k, v) else e else acc ++ [(k, v)]

theorem entries_eq_foldl (ms : List (Option String × Json)) : entries ms = ms.foldl withEntry [] := by
  unfold entries
  congr
  funext acc ⟨k, v⟩
  cases k <;> rfl

theorem any_key_iff {acc : List (String × Json)} {k : String} :
    acc.any (·.1 == k) = true ↔ k ∈ acc.map Prod.fst := by
  simp

/-- One more member adds its key if it is not there yet. -/
theorem map_fst_withEntry (acc : List (String × Json)) (k : String) (v : Json) :
    (withEntry acc (some k, v)).map Prod.fst =
      if k ∈ acc.map Prod.fst then acc.map Prod.fst else acc.map Prod.fst ++ [k] := by
  rw [withEntry]
  by_cases hk : k ∈ acc.map Prod.fst
  · rw [if_pos (any_key_iff.mpr hk), if_pos hk, List.map_map]
    refine List.map_congr_left fun e _ => ?_
    by_cases he : e.1 = k
    · simp [he]
    · simp [he]
  · rw [if_neg (mt any_key_iff.mp hk), if_neg hk, List.map_append]
    rfl

/-- The keys that are left are keys of the object. -/
theorem mem_keys_of_mem_entries {ms : List (Option String × Json)} {k : String}
    (h : k ∈ (entries ms).map Prod.fst) : some k ∈ ms.map Prod.fst := by
  rw [entries_eq_foldl] at h
  induction ms using List.reverseRecOn with
  | nil => exact absurd h List.not_mem_nil
  | append_singleton ms m ih =>
    rw [List.foldl_append, List.foldl_cons, List.foldl_nil] at h
    rw [List.map_append, List.mem_append]
    obtain ⟨none | l, v⟩ := m
    · exact Or.inl (ih h)
    · rw [map_fst_withEntry] at h
      split at h
      · exact Or.inl (ih h)
      · rcases List.mem_append.mp h with h | h
        · exact Or.inl (ih h)
        · rw [List.mem_singleton.mp h]
          exact Or.inr List.mem_cons_self

/-- No key is left twice. -/
theorem nodup_entries (ms : List (Option String × Json)) : ((entries ms).map Prod.fst).Nodup := by
  rw [entries_eq_foldl]
  induction ms using List.reverseRecOn with
  | nil => exact List.nodup_nil
  | append_singleton ms m ih =>
    rw [List.foldl_append, List.foldl_cons, List.foldl_nil]
    obtain ⟨none | k, v⟩ := m
    · exact ih
    · rw [map_fst_withEntry]
      split
      · exact ih
      · next hk =>
        refine List.nodup_append.mpr ⟨ih, List.nodup_singleton k, ?_⟩
        intro a ha b hb hab
        rw [hab, List.mem_singleton.mp hb] at ha
        exact hk ha

/-- An object that repeats no key keeps its members. -/
theorem entries_of_nodup {es : List (String × Json)} (h : (es.map Prod.fst).Nodup) :
    entries (es.map fun e => (some e.1, e.2)) = es := by
  rw [entries_eq_foldl]
  induction es using List.reverseRecOn with
  | nil => rfl
  | append_singleton es e ih =>
    rw [List.map_append, List.nodup_append] at h
    obtain ⟨hes, -, happart⟩ := h
    have hnew : e.1 ∉ es.map Prod.fst := fun he =>
      happart e.1 he e.1 (List.mem_singleton.mpr rfl) rfl
    rw [List.map_append, List.foldl_append, ih hes, List.map_cons, List.map_nil, List.foldl_cons,
      List.foldl_nil, withEntry, if_neg (mt any_key_iff.mp hnew)]

theorem normalizeMembers_eq_map (ms : List (Option String × Json)) :
    normalizeMembers ms = ms.map fun m => (m.1, m.2.normalize) := by
  induction ms with
  | nil => rfl
  | cons m ms ih => rw [normalizeMembers, ih, List.map_cons]

/-- In an object that repeats no key, only the values can change. -/
theorem normalize_obj {es : List (String × Json)} (h : (es.map Prod.fst).Nodup) :
    (obj es).normalize = obj (es.map fun e => (e.1, e.2.normalize)) := by
  have hkeys : ((es.map fun e => (e.1, e.2.normalize)).map Prod.fst).Nodup := by
    rwa [List.map_map]
  rw [obj, normalize, normalizeMembers_eq_map, List.map_map]
  have hentries := entries_of_nodup hkeys
  rw [List.map_map] at hentries
  exact congrArg obj hentries

theorem get?_obj {es : List (String × Json)} (h : (es.map Prod.fst).Nodup) (key : String) :
    (obj es).get? key = es.lookup key := by
  rw [obj, get?]
  exact congrArg (List.lookup key) (entries_of_nodup h)

/-- What an object with resolved repetitions gives to a key. -/
theorem get?_normalize_object (ms : List (Option String × Json)) (key : String) :
    (object ms).normalize.get? key = (entries (normalizeMembers ms)).lookup key := by
  rw [normalize, get?_obj (nodup_entries _)]

/-- A key that no member has is given nothing. -/
theorem get?_normalize_of_not_mem {ms : List (Option String × Json)} {key : String}
    (h : some key ∉ ms.map Prod.fst) : (object ms).normalize.get? key = none := by
  rw [get?_normalize_object, List.lookup_eq_none_iff]
  intro e he
  have hkept := mem_keys_of_mem_entries (List.mem_map_of_mem he)
  rw [normalizeMembers_eq_map, List.map_map] at hkept
  rw [bne_iff_ne]
  rintro rfl
  exact h hkept

end TreeMend.Json
