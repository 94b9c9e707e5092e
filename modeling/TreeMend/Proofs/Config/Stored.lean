import Mathlib.Data.List.Perm.Basic
import TreeMend.Config.Json
import TreeMend.Proofs.Json.Members
import TreeMend.Proofs.Json.RoundTrip
import TreeMend.Proofs.Lists

/-!
# Configurations as JSON

A table of levels is settled by what it gives to each name, since its entries are sorted by name.
An object of levels is read as the table that gives each key the level that its value spells; a
whole configuration with such an object for its member `rules` has this table as well, so the two
ways to write levels down say the same, spelling by spelling.  A configuration that is written in
full has both of its members, so that rules with the names `rules` and `verbosity` are read back
like all others.

## Main definitions

* `Config.ofSound?` — the configuration of a value that a text may hold.

## Main results

* `RuleTable.ext_get?`, `RuleTable.get?_ofList` — tables and their levels.
* `RuleTable.ofJson?_obj_eq_some_iff` — an object of levels, key by key.
* `Config.ofJson?_toJson` — a configuration is read back.
* `Config.ofJson?_flat`, `Config.ofJson?_nested` — the two ways to write levels.
* `Config.parseJson_holds` — **a stored configuration comes back, and levels alone are a
  configuration**.
-/

namespace TreeMend

/-! ### Tables of levels -/

theorem lookup_insertLevel (name key : String) (level : RuleLevel)
    (es : List (String × RuleLevel)) :
    (insertLevel name level es).lookup key = if key = name then some level else es.lookup key := by
  induction es with
  | nil => rw [insertLevel, List.lookup_cons_eq_ite]
  | cons e es ih =>
    rw [insertLevel]
    split
    · rw [List.lookup_cons_eq_ite]
    · split
      · next hname =>
        rw [List.lookup_cons_eq_ite, List.lookup_cons_eq_ite, ← hname]
        split <;> rfl
      · next hname =>
        rw [List.lookup_cons_eq_ite, List.lookup_cons_eq_ite, ih]
        by_cases hkey : key = e.1
        · have hother : key ≠ name := fun h => hname (h.symm.trans hkey)
          rw [if_pos hkey, if_neg hother, if_pos hkey]
        · rw [if_neg hkey, if_neg hkey]

namespace RuleTable

theorem get?_insert (t : RuleTable) (name key : String) (level : RuleLevel) :
    (t.insert name level).get? key = if key = name then some level else t.get? key :=
  lookup_insertLevel name key level t.entries

/-- The table of a list that repeats no name. -/
theorem get?_ofList {es : List (String × RuleLevel)} (h : (es.map Prod.fst).Nodup) (key : String) :
    (ofList es).get? key = es.lookup key := by
  have hfold : ∀ t : RuleTable, (∀ e ∈ es, t.get? e.1 = none) →
      (es.foldl (fun t e => t.insert e.1 e.2) t).get? key = (es.lookup key).or (t.get? key) := by
    induction es with
    | nil => simp
    | cons e es ih =>
      intro t ht
      obtain ⟨hname, hes⟩ := List.nodup_cons.mp h
      obtain ⟨he, hrest⟩ := List.forall_mem_cons.mp ht
      have hnew : ∀ d ∈ es, (t.insert e.1 e.2).get? d.1 = none := by
        intro d hd
        have hne : d.1 ≠ e.1 := fun heq => hname (heq ▸ List.mem_map_of_mem hd)
        rw [get?_insert, if_neg hne, hrest d hd]
      rw [List.foldl_cons, ih hes _ hnew, get?_insert, List.lookup_cons_eq_ite]
      by_cases hkey : key = e.1
      · have hnone : es.lookup key = none := List.lookup_eq_none_of_not_mem (hkey ▸ hname)
        rw [if_pos hkey, if_pos hkey, hnone]
        rfl
      · rw [if_neg hkey, if_neg hkey]
  have hempty := hfold empty (fun _ _ => rfl)
  rw [ofList, hempty]
  exact Option.or_none

theorem nodup_names (t : RuleTable) : (t.entries.map Prod.fst).Nodup := by
  rw [List.Nodup, List.pairwise_map]
  apply t.sorted.imp
  intro a b hlt heq
  rw [heq] at hlt
  exact String.lt_irrefl b.1 hlt

/-- A table is settled by the levels that it gives. -/
theorem ext_get? {t u : RuleTable} (h : ∀ key, t.get? key = u.get? key) : t = u := by
  have hmem : ∀ e : String × RuleLevel, e ∈ t.entries ↔ e ∈ u.entries := by
    intro e
    have hkey : t.entries.lookup e.1 = u.entries.lookup e.1 := h e.1
    obtain ⟨name, level⟩ := e
    rw [List.mem_iff_lookup_eq_some t.nodup_names, List.mem_iff_lookup_eq_some u.nodup_names, hkey]
  have hperm : t.entries.Perm u.entries :=
    (List.perm_ext_iff_of_nodup t.nodup_names.of_map u.nodup_names.of_map).mpr hmem
  have hentries : t.entries = u.entries := by
    refine hperm.eq_of_pairwise ?_ t.sorted u.sorted
    intro a b _ _ hab hba
    exact absurd hba (String.lt_asymm hab)
  cases t
  cases u
  simp_all

/-! ### Objects of levels -/

theorem entryOfJson?_eq_some_iff {key : String} {v : Json} {e : String × RuleLevel} :
    entryOfJson? (some key, v) = some e ↔
      e.1 = key ∧ Json.case? RuleLevel.ofLabel? v = some e.2 := by
  obtain ⟨name, level⟩ := e
  cases h : Json.case? RuleLevel.ofLabel? v with
  | none => simp [entryOfJson?, h]
  | some l => simp [entryOfJson?, h, eq_comm]

/-- Entries that are read one by one have the keys of the members and the levels that their values
spell. -/
theorem lookup_of_map_entryOfJson? {es : List (String × Json)} {ls : List (String × RuleLevel)}
    (h : es.map (fun e => entryOfJson? (some e.1, e.2)) = ls.map some) :
    ls.map Prod.fst = es.map Prod.fst ∧ ∀ key,
      (es.lookup key).map (Json.case? RuleLevel.ofLabel?) = (ls.lookup key).map some := by
  induction es generalizing ls with
  | nil =>
    obtain rfl := List.map_eq_nil_iff.mp h.symm
    exact ⟨rfl, fun _ => rfl⟩
  | cons e es ih =>
    obtain ⟨l, rest, rfl, hl, hrest⟩ := List.map_eq_cons_iff.mp h.symm
    obtain ⟨hname, hlevel⟩ := entryOfJson?_eq_some_iff.mp hl.symm
    obtain ⟨hnames, hlookup⟩ := ih hrest.symm
    refine ⟨by rw [List.map_cons, List.map_cons, hname, hnames], ?_⟩
    intro key
    rw [List.lookup_cons_eq_ite, List.lookup_cons_eq_ite, hname]
    split
    · rw [Option.map_some, Option.map_some, hlevel]
    · exact hlookup key

/-- An object that repeats no key is read as the table that gives to each of its keys, and to no
other, the level that the value spells; it is not read if some value spells none. -/
theorem ofJson?_obj_eq_some_iff {es : List (String × Json)} (h : (es.map Prod.fst).Nodup)
    {t : RuleTable} :
    ofJson? (.obj es) = some t ↔ ∀ key,
      (es.lookup key).map (Json.case? RuleLevel.ofLabel?) = (t.get? key).map some := by
  have hread : ofJson? (.obj es) = some t ↔ ∃ ls,
      es.map (fun e => entryOfJson? (some e.1, e.2)) = ls.map some ∧ ofList ls = t := by
    rw [Json.obj, ofJson?, Option.map_eq_some_iff]
    simp only [List.mapM_eq_some_iff, List.map_map]
    rfl
  have hsame : ∀ {ls : List (String × RuleLevel)} (key : String),
      es.map (fun e => entryOfJson? (some e.1, e.2)) = ls.map some →
      (es.lookup key).map (Json.case? RuleLevel.ofLabel?) = ((ofList ls).get? key).map some := by
    intro ls key hls
    obtain ⟨hnames, hlookup⟩ := lookup_of_map_entryOfJson? hls
    rw [get?_ofList (hnames ▸ h), hlookup]
  rw [hread]
  constructor
  · rintro ⟨ls, hls, rfl⟩ key
    exact hsame key hls
  · intro hlevels
    have hentries : es.map (fun e => entryOfJson? (some e.1, e.2)) =
        (es.map fun e => (e.1, (t.get? e.1).getD .off)).map some := by
      rw [List.map_map]
      refine List.map_congr_left fun e he => ?_
      have hlevel := hlevels e.1
      rw [(List.mem_iff_lookup_eq_some h).mp he, Option.map_some] at hlevel
      obtain ⟨level, hget, hcase⟩ := Option.map_eq_some_iff.mp hlevel.symm
      rw [Function.comp_apply, hget]
      exact entryOfJson?_eq_some_iff.mpr ⟨rfl, hcase.symm⟩
    refine ⟨_, hentries, ext_get? fun key => ?_⟩
    have hkey := (hsame key hentries).symm.trans (hlevels key)
    exact Option.map_injective (fun _ _ => Option.some.inj) hkey

/-- What spells a case is a text or an object around nothing. -/
theorem depth_le_of_case? {α : Type} {ofLabel? : String → Option α} {v : Json}
    (h : (Json.case? ofLabel? v).isSome = true) : v.depth ≤ 1 := by
  unfold Json.case? at h
  split at h
  · simp [Json.depth]
  · simp [Json.depth, Json.depthMembers]
  · simp at h

theorem depthMembers_le {ms : List (Option String × Json)} {n : Nat} (h : ∀ m ∈ ms, m.2.depth ≤ n) :
    Json.depthMembers ms ≤ n := by
  induction ms with
  | nil => exact Nat.zero_le n
  | cons m ms ih =>
    obtain ⟨hm, hms⟩ := List.forall_mem_cons.mp h
    rw [Json.depthMembers]
    exact Nat.max_le.mpr ⟨hm, ih hms⟩

/-- An object of levels nests no deeper than they do. -/
theorem depth_le_of_ofJson? {ms : List (Option String × Json)} {t : RuleTable}
    (h : ofJson? (.object ms) = some t) : (Json.object ms).depth ≤ 2 := by
  obtain ⟨ls, hls, -⟩ := Option.map_eq_some_iff.mp h
  have hmembers : Json.depthMembers ms ≤ 1 := by
    apply depthMembers_le
    intro m hm
    have hread : entryOfJson? m ∈ ls.map some := by
      rw [← List.mapM_eq_some_iff.mp hls]
      exact List.mem_map_of_mem hm
    obtain ⟨e, -, he⟩ := List.mem_map.mp hread
    obtain ⟨none | key, v⟩ := m
    · simp [entryOfJson?] at he
    · have hlevel := (entryOfJson?_eq_some_iff.mp he.symm).2
      exact depth_le_of_case? (Option.isSome_of_eq_some hlevel)
  rw [Json.depth]
  omega

theorem ofLabel?_label (level : RuleLevel) : RuleLevel.ofLabel? level.label = some level := by
  cases level <;> decide

theorem ofJson?_toJson (t : RuleTable) : ofJson? t.toJson = some t := by
  have hkeys : ((t.entries.map fun e => (e.1, Json.str e.2.label)).map Prod.fst).Nodup := by
    rw [List.map_map]
    exact t.nodup_names
  rw [toJson, ofJson?_obj_eq_some_iff hkeys]
  intro key
  rw [get?]
  induction t.entries with
  | nil => rfl
  | cons e es ih =>
    rw [List.map_cons, List.lookup_cons_eq_ite, List.lookup_cons_eq_ite]
    split
    · exact congrArg some (ofLabel?_label e.2)
    · exact ih

end RuleTable

/-! ### Configurations -/

namespace Config

/-- The configuration of a value that a text spells, if all of it is sound and it does not nest too
deeply. -/
def ofSound? (v : Json) : Option Config :=
  if v.isSound ∧ v.depth ≤ Json.depthLimit then ofJson? v.normalize else none

theorem parseJson_eq {s : String} {v : Json} (h : Json.parse? s = some v) :
    parseJson s = (ofSound? v).elim (.error .parse) .ok := by
  rw [parseJson, Json.load?, h, ofSound?]
  by_cases hv : v.isSound = true ∧ v.depth ≤ Json.depthLimit
  · rw [if_pos hv, Option.filter_some, if_pos (by simpa using hv), Option.bind_some]
    cases ofJson? v.normalize <;> rfl
  · rw [if_neg hv, Option.filter_some, if_neg (by simpa using hv)]
    rfl

/-! ### A whole configuration -/

theorem nodup_members (v w : Json) : ([("verbosity", v), ("rules", w)].map Prod.fst).Nodup := by
  show ["verbosity", "rules"].Nodup
  decide

theorem nodup_rulesMember (v : Json) : ([("rules", v)].map Prod.fst).Nodup :=
  List.nodup_singleton "rules"

/-- An object that is written repeats no key. -/
theorem normalize_toJson (c : Config) : c.toJson.normalize = c.toJson := by
  have hrules : c.rules.toJson.normalize = c.rules.toJson := by
    rw [RuleTable.toJson, Json.normalize_obj, List.map_map]
    · rfl
    · rw [List.map_map]
      exact c.rules.nodup_names
  rw [toJson, Json.normalize_obj (nodup_members _ _), List.map_cons, List.map_cons, hrules]
  rfl

theorem ofJson?_toJson (c : Config) : ofJson? c.toJson = some c := by
  have hverbosity : Json.case? Verbosity.ofLabel? (.str c.verbosity.label) = some c.verbosity := by
    cases c.verbosity <;> decide
  have hget : ∀ key, c.toJson.get? key =
      [("verbosity", Json.str c.verbosity.label), ("rules", c.rules.toJson)].lookup key :=
    fun key => Json.get?_obj (nodup_members _ _) key
  have hfirst : c.toJson.get? "verbosity" = some (.str c.verbosity.label) := hget "verbosity"
  have hsecond : c.toJson.get? "rules" = some c.rules.toJson := hget "rules"
  rw [ofJson?, hfirst, hsecond]
  simp [memberOr, hverbosity, RuleTable.ofJson?_toJson]

theorem plain_toJson (c : Config) : c.toJson.Plain := by
  apply Json.Plain.obj
  intro m hm
  simp only [List.mem_cons, List.not_mem_nil, or_false] at hm
  rcases hm with rfl | rfl
  · exact Json.Plain.str _
  · apply Json.Plain.obj
    intro e he
    obtain ⟨entry, -, rfl⟩ := List.mem_map.mp he
    exact Json.Plain.str _

theorem isSound_toJson (c : Config) : c.toJson.isSound = true := by
  have hrules : c.rules.toJson.isSound = true := by
    rw [RuleTable.toJson, Json.obj, Json.isSound, List.map_map]
    induction c.rules.entries with
    | nil => rfl
    | cons e es ih =>
      rw [List.map_cons, Json.isSoundMembers, ih]
      rfl
  rw [toJson, Json.obj]
  simp [Json.isSound, Json.isSoundMembers, Json.str, hrules]

theorem depth_toJson_le (c : Config) : c.toJson.depth ≤ Json.depthLimit := by
  have hrules : c.rules.toJson.depth ≤ 2 := by
    have hread := RuleTable.ofJson?_toJson c.rules
    exact RuleTable.depth_le_of_ofJson? hread
  rw [toJson, Json.obj]
  simp only [Json.depth, Json.depthMembers, List.map_cons, List.map_nil, Json.str, Json.depthLimit]
  omega

/-- A configuration that is written on one line or over several is read back. -/
theorem parseJson_toJson (c : Config) {s : String} (h : s ∈ [c.toJson.compact, c.toJson.pretty]) :
    parseJson s = .ok c := by
  have hvalue : Json.parse? s = some c.toJson := by
    simp only [List.mem_cons, List.not_mem_nil, or_false] at h
    rcases h with rfl | rfl
    · rw [← String.append_empty (s := c.toJson.compact)]
      exact Json.parse?_compact c.plain_toJson (by simp)
    · rw [← String.append_empty (s := c.toJson.pretty)]
      exact Json.parse?_pretty c.plain_toJson (by simp)
  rw [parseJson_eq hvalue, ofSound?, if_pos ⟨c.isSound_toJson, c.depth_toJson_le⟩, normalize_toJson,
    ofJson?_toJson]
  rfl

/-! ### Levels alone -/

/-- An object without the members of a configuration is read as its levels. -/
theorem ofJson?_flat {v : Json} (hrules : v.get? "rules" = none)
    (hverbosity : v.get? "verbosity" = none) :
    ofJson? v = (RuleTable.ofJson? v).map fun rules => { rules } := by
  rw [ofJson?, hrules, hverbosity]
  rfl

/-- A configuration with its levels only. -/
theorem ofJson?_nested (v : Json) :
    ofJson? (.obj [("rules", v)]) = (RuleTable.ofJson? v).map fun rules => { rules } := by
  have hget : ∀ key, (Json.obj [("rules", v)]).get? key = [("rules", v)].lookup key :=
    fun key => Json.get?_obj (nodup_rulesMember v) key
  have hrules : (Json.obj [("rules", v)]).get? "rules" = some v := hget "rules"
  have hverbosity : (Json.obj [("rules", v)]).get? "verbosity" = none := hget "verbosity"
  rw [ofJson?, hrules, hverbosity]
  cases h : RuleTable.ofJson? v with
  | none => simp [memberOr, h]
  | some rules => simp [memberOr, h]

/-- The value of a configuration that has the member `rules` only. -/
def nested (v : Json) : Json := .object [(some "rules", v)]

theorem normalize_nested (v : Json) : (nested v).normalize = .obj [("rules", v.normalize)] :=
  Json.normalize_obj (nodup_rulesMember v)

theorem isSound_nested (v : Json) : (nested v).isSound = v.isSound := by
  simp [nested, Json.isSound, Json.isSoundMembers]

theorem depth_nested (v : Json) : (nested v).depth = v.depth + 1 := by
  simp [nested, Json.depth, Json.depthMembers]

variable {ms : List (Option String × Json)}

/-- Without repetitions the two ways to write levels are read alike. -/
theorem ofJson?_normalize_nested (hrules : some "rules" ∉ ms.map Prod.fst)
    (hverbosity : some "verbosity" ∉ ms.map Prod.fst) :
    ofJson? (nested (.object ms)).normalize = ofJson? (Json.object ms).normalize := by
  rw [normalize_nested, ofJson?_nested, ofJson?_flat (Json.get?_normalize_of_not_mem hrules)
    (Json.get?_normalize_of_not_mem hverbosity)]

/-- An object that repeats no key and nests as deep as a reader accepts holds more than levels. -/
theorem ofJson?_of_deep (hrules : some "rules" ∉ ms.map Prod.fst)
    (hverbosity : some "verbosity" ∉ ms.map Prod.fst)
    (hunique : (Json.object ms).normalize = .object ms)
    (hdeep : Json.depthLimit ≤ (Json.object ms).depth) : ofJson? (Json.object ms).normalize = none := by
  rw [ofJson?_flat (Json.get?_normalize_of_not_mem hrules)
    (Json.get?_normalize_of_not_mem hverbosity), hunique, Option.map_eq_none_iff]
  by_contra hread
  obtain ⟨t, ht⟩ := Option.ne_none_iff_exists'.mp hread
  have hshallow := RuleTable.depth_le_of_ofJson? ht
  rw [Json.depthLimit] at hdeep
  omega

/-- The two ways to write levels are read alike from texts.  An object that repeats a key may hold a
value that does not count and nests as deep as a reader accepts; it is left out here, since with one
more brace around it the reader gives up. -/
theorem ofSound?_nested (hrules : some "rules" ∉ ms.map Prod.fst)
    (hverbosity : some "verbosity" ∉ ms.map Prod.fst)
    (hunique : (Json.object ms).normalize = .object ms ∨
      (Json.object ms).depth < Json.depthLimit) :
    ofSound? (nested (.object ms)) = ofSound? (.object ms) := by
  rw [ofSound?, ofSound?, isSound_nested, depth_nested,
    ofJson?_normalize_nested hrules hverbosity]
  by_cases hdepth : (Json.object ms).depth < Json.depthLimit
  · have hsame : (Json.object ms).depth + 1 ≤ Json.depthLimit ↔
        (Json.object ms).depth ≤ Json.depthLimit := by omega
    simp only [hsame]
  · have hnone := ofJson?_of_deep hrules hverbosity (hunique.resolve_right hdepth) (by omega)
    rw [hnone, ite_self, ite_self]

/-- What an object of levels is read as. -/
theorem ofSound?_eq_some_iff (hrules : some "rules" ∉ ms.map Prod.fst)
    (hverbosity : some "verbosity" ∉ ms.map Prod.fst) {c : Config} :
    ofSound? (.object ms) = some c ↔
      (Json.object ms).isSound = true ∧ (Json.object ms).depth ≤ Json.depthLimit ∧
      c.verbosity = .normal ∧ ∀ key,
        ((Json.object ms).normalize.get? key).map (Json.case? RuleLevel.ofLabel?) =
          (c.rules.get? key).map some := by
  have hread : ofJson? (Json.object ms).normalize = some c ↔
      c.verbosity = .normal ∧ RuleTable.ofJson? (Json.object ms).normalize = some c.rules := by
    rw [ofJson?_flat (Json.get?_normalize_of_not_mem hrules)
      (Json.get?_normalize_of_not_mem hverbosity), Option.map_eq_some_iff]
    constructor
    · rintro ⟨rules, hrules, rfl⟩
      exact ⟨rfl, hrules⟩
    · rintro ⟨hnormal, hrules⟩
      refine ⟨c.rules, hrules, ?_⟩
      rw [← hnormal]
  have hlevels : RuleTable.ofJson? (Json.object ms).normalize = some c.rules ↔ ∀ key,
      ((Json.object ms).normalize.get? key).map (Json.case? RuleLevel.ofLabel?) =
        (c.rules.get? key).map some := by
    simp only [Json.get?_normalize_object]
    rw [Json.normalize]
    exact RuleTable.ofJson?_obj_eq_some_iff (Json.nodup_entries _)
  rw [ofSound?, ← hlevels, ← hread]
  split
  · next h => simp [h]
  · next h =>
    simp only [reduceCtorEq, false_iff]
    rintro ⟨hsound, hdepth, -⟩
    exact h ⟨hsound, hdepth⟩

/-- **A stored configuration comes back, and levels alone are a configuration.**  A configuration
that is written as JSON, on one line or over several, is read back, whatever its rules are called.
A text that spells an object with neither of the members `rules` and `verbosity` is read like any
text that spells the object with this one as its only member `rules`: both are refused, or both
give the configuration in which each key has the level that its value spells.  The objects are those
that repeat no key, as every value that was read or built does, and of the texts with repeated keys
those that nest below the limit of the reader. -/
theorem parseJson_holds :
    (∀ (c : Config) (s : String), s ∈ [c.toJson.compact, c.toJson.pretty] → parseJson s = .ok c) ∧
    ∀ (ms : List (Option String × Json)) (s t : String),
      Json.parse? s = some (.object ms) →
      Json.parse? t = some (.object [(some "rules", .object ms)]) →
      some "rules" ∉ ms.map Prod.fst → some "verbosity" ∉ ms.map Prod.fst →
      ((Json.object ms).normalize = .object ms ∨ (Json.object ms).depth < Json.depthLimit) →
      parseJson s = parseJson t ∧
      ∀ c, parseJson s = .ok c ↔
        (Json.object ms).isSound = true ∧ (Json.object ms).depth ≤ Json.depthLimit ∧
        c.verbosity = .normal ∧ ∀ key,
          ((Json.object ms).normalize.get? key).map (Json.case? RuleLevel.ofLabel?) =
            (c.rules.get? key).map some := by
  refine ⟨fun c s => c.parseJson_toJson, ?_⟩
  intro ms s t hs ht hrules hverbosity hunique
  have hnested : ofSound? (.object [(some "rules", .object ms)]) = ofSound? (.object ms) :=
    ofSound?_nested hrules hverbosity hunique
  rw [parseJson_eq hs, parseJson_eq ht, hnested]
  refine ⟨rfl, ?_⟩
  intro c
  rw [← ofSound?_eq_some_iff hrules hverbosity]
  cases ofSound? (.object ms) <;> simp

/-- Warnings in the two spellings that are not their name. -/
def warnings : List (Option String × Json) :=
  [(some "a", .str "warning"), (some "b", .object [(some "warn", .null)])]

/-- The configuration with these warnings. -/
def warningConfig : Config := { rules := .ofList [("a", .warn), ("b", .warn)] }

/-- A configuration whose rules have the names of its members. -/
def memberConfig : Config := { rules := .ofList [("rules", .off), ("verbosity", .warn)] }

theorem parseJson_holds_warnings :
    parseJson memberConfig.toJson.pretty = .ok memberConfig ∧
      parseJson (Json.object warnings).compact = .ok warningConfig ∧
      parseJson (Json.object [(some "rules", .object warnings)]).pretty = .ok warningConfig := by
  obtain ⟨hstored, hlevels⟩ := parseJson_holds
  have hplain : (Json.object warnings).Plain := by
    refine .object (by decide) ?_
    intro m hm
    simp only [warnings, List.mem_cons, List.not_mem_nil, or_false] at hm
    rcases hm with rfl | rfl
    · exact .str "warning"
    · exact .object (by decide) (by simp [Json.Plain.null])
  have hwhole : (Json.object [(some "rules", .object warnings)]).Plain :=
    .object (by decide) (by simpa using hplain)
  have hempty : ∀ b ∈ "".toList, Json.Reader.isBlank b = true := by simp
  have hflat := Json.parse?_compact hplain hempty
  have hnested := Json.parse?_pretty hwhole hempty
  rw [String.append_empty] at hflat hnested
  obtain ⟨hsame, hread⟩ := hlevels warnings _ _ hflat hnested (by decide) (by decide) (.inl rfl)
  have hwarnings : parseJson (Json.object warnings).compact = .ok warningConfig := by
    refine (hread warningConfig).mpr ⟨rfl, by decide, rfl, ?_⟩
    intro key
    have hget : (Json.object warnings).normalize.get? key =
        [("a", Json.str "warning"), ("b", .object [(some "warn", .null)])].lookup key := rfl
    have htable : warningConfig.rules.get? key =
        [("a", RuleLevel.warn), ("b", .warn)].lookup key := RuleTable.get?_ofList (by decide) key
    rw [hget, htable]
    simp only [List.lookup_cons_eq_ite, List.lookup_nil]
    split
    · rfl
    · split <;> rfl
  exact ⟨hstored memberConfig _ (by simp), hwarnings, hsame ▸ hwarnings⟩

end Config

end TreeMend
