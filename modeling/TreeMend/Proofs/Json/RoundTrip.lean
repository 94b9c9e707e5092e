import Mathlib.Data.List.Forall2
import TreeMend.Proofs.Json.Literals

/-!
# Reading printed values

A text spells a value if the reader takes it off the front of every input that does not go on with
a number, as long as it has two calls for each character.  Blanks may be put in front, and texts
that spell the items of an array, separated by commas, make one that spells the array; the same
holds of objects.  Both layouts of a value are made in this way, so both are read back.

## Main definitions

* `Json.Reader.Spells` — a text spells a value.
* `Json.Reader.SpellsItems`, `Json.Reader.SpellsMembers` — a text spells the items or members of a
  container, up to its closing bracket.
* `Json.Plain` — a value in which every string is a text and every digit a digit.

## Main results

* `Json.Reader.spells_array`, `Json.Reader.spells_object` — the containers.
* `Json.Plain.spells_prettyAt`, `Json.Plain.spells_compact` — the layouts spell what they print.
* `Json.parse?_pretty`, `Json.parse?_compact` — **a printed value is read back**.
-/

namespace TreeMend.Json

namespace Reader

/-! ### Blanks -/

theorem skipBlanks_append {bs : List Char} (h : ∀ b ∈ bs, isBlank b = true) (cs : List Char) :
    skipBlanks (bs ++ cs) = skipBlanks cs :=
  List.dropWhile_append_of_pos h

theorem skipBlanks_cons {c : Char} (h : isBlank c = false) (cs : List Char) :
    skipBlanks (c :: cs) = c :: cs :=
  List.dropWhile_cons_of_neg (by simp [h])

/-- A blank is no part of a number. -/
theorem endsNumber_append {bs cs : List Char} (h : ∀ b ∈ bs, isBlank b = true)
    (hcs : EndsNumber cs) : EndsNumber (bs ++ cs) := by
  cases bs with
  | nil => exact hcs
  | cons b bs =>
    intro c hc
    obtain rfl := Option.some.inj hc
    have hb := h b List.mem_cons_self
    simp only [isBlank, Bool.or_eq_true, beq_iff_eq] at hb
    rcases hb with ((rfl | rfl) | rfl) | rfl <;> decide

theorem endsNumber_cons {c : Char} (h : c = ',' ∨ c = ']' ∨ c = '\x7d') (cs : List Char) :
    EndsNumber (c :: cs) := by
  intro d hd
  obtain rfl := Option.some.inj hd
  rcases h with rfl | rfl | rfl <;> decide

/-! ### Spellings -/

/-- The text spells the value: the reader takes it off the front of the input. -/
def Spells (cs : List Char) (v : Json) : Prop :=
  ∀ fuel rest, 2 * cs.length ≤ fuel → EndsNumber rest → value? fuel (cs ++ rest) = some (v, rest)

/-- The text spells the items of an array up to its closing bracket. -/
def SpellsItems (cs : List Char) (vs : List Json) : Prop :=
  ∀ fuel rest, 2 * cs.length + 1 ≤ fuel → items? fuel (cs ++ rest) = some (vs, rest)

/-- The text spells a member of an object: a key, a colon and a value. -/
def SpellsMember (cs : List Char) (m : Option String × Json) : Prop :=
  ∃ bs key ds v, (∀ b ∈ bs, isBlank b = true) ∧ Spells ds v ∧ m = (some key, v) ∧
    cs = bs ++ (quoted key).toList ++ ':' :: ds

/-- The text spells the members of an object up to its closing brace. -/
def SpellsMembers (cs : List Char) (ms : List (Option String × Json)) : Prop :=
  ∀ fuel rest, 2 * cs.length + 1 ≤ fuel → members? fuel (cs ++ rest) = some (ms, rest)

theorem Spells.blanks {bs cs : List Char} {v : Json} (hbs : ∀ b ∈ bs, isBlank b = true)
    (h : Spells cs v) : Spells (bs ++ cs) v := by
  intro fuel rest hfuel hrest
  rw [List.length_append] at hfuel
  have hcs := h fuel rest (by omega) hrest
  cases fuel with
  | zero => simp [value?] at hcs
  | succ fuel =>
    rw [value?] at hcs ⊢
    rw [List.append_assoc, skipBlanks_append hbs]
    exact hcs

/-! ### Values without parts -/

/-- What one call reads is spelled. -/
theorem spells_of_succ {cs : List Char} {v : Json} (hcs : cs ≠ [])
    (h : ∀ fuel rest, EndsNumber rest → value? (fuel + 1) (cs ++ rest) = some (v, rest)) :
    Spells cs v := by
  intro fuel rest hfuel hrest
  have hlength := List.length_pos_of_ne_nil hcs
  obtain ⟨fuel, rfl⟩ : ∃ k, fuel = k + 1 := ⟨fuel - 1, by omega⟩
  exact h fuel rest hrest

theorem spells_null : Spells "null".toList .null :=
  spells_of_succ (by decide) fun _ _ _ => rfl

theorem spells_bool (b : Bool) : Spells (if b then "true" else "false").toList (.bool b) := by
  cases b with
  | false => exact spells_of_succ (by decide) fun _ _ _ => rfl
  | true => exact spells_of_succ (by decide) fun _ _ _ => rfl

theorem spells_quoted (s : String) : Spells (quoted s).toList (.string (some s)) := by
  rw [toList_quoted]
  refine spells_of_succ (List.cons_ne_nil _ _) fun fuel rest _ => ?_
  rw [value?, List.cons_append, List.append_assoc, skipBlanks_cons (by decide)]
  simp [stringBody?_quoted]

theorem spells_render {n : Number} (h : n.IsDecimal) : Spells n.render.toList (.number n) := by
  obtain ⟨c, cs, hcs, hc⟩ := exists_render_eq_cons n
  have hblank : isBlank c = false := by
    rcases hc with rfl | hc
    · rfl
    · by_contra hblank
      simp only [isBlank, Bool.not_eq_false, Bool.or_eq_true, beq_iff_eq] at hblank
      rcases hblank with ((rfl | rfl) | rfl) | rfl <;> exact absurd hc (by decide)
  rw [hcs]
  refine spells_of_succ (List.cons_ne_nil c cs) fun fuel rest hrest => ?_
  have hread := number?_render h hrest
  rw [hcs, List.cons_append] at hread
  have hstart : ∀ {d ds}, c :: (cs ++ rest) = d :: ds → d = '-' ∨ d.isDigit = true := by
    rintro _ _ ⟨⟩
    exact hc
  rw [value?, List.cons_append, skipBlanks_cons hblank]
  split
  case h_7 =>
    rw [hread]
    rfl
  -- every other value starts with something else
  all_goals next hother => exact absurd (hstart hother) (by decide)

/-! ### Containers -/

theorem spells_emptyArray : Spells "[]".toList (.array []) :=
  spells_of_succ (by decide) fun _ _ _ => rfl

theorem spells_emptyObject : Spells "\x7b\x7d".toList (.object []) :=
  spells_of_succ (by decide) fun _ _ _ => rfl

theorem spellsItems_singleton {cs bs : List Char} {v : Json} (h : Spells cs v)
    (hbs : ∀ b ∈ bs, isBlank b = true) : SpellsItems (cs ++ (bs ++ [']'])) [v] := by
  intro fuel rest hfuel
  simp only [List.length_append, List.length_singleton] at hfuel
  obtain ⟨fuel, rfl⟩ : ∃ k, fuel = k + 1 := ⟨fuel - 1, by omega⟩
  have hend : EndsNumber (bs ++ ']' :: rest) :=
    endsNumber_append hbs (endsNumber_cons (by decide) rest)
  have hv := h fuel _ (by omega) hend
  rw [items?]
  simp only [List.append_assoc, List.singleton_append]
  rw [hv]
  simp [skipBlanks_append hbs, skipBlanks_cons (c := ']') (by decide)]

theorem spellsItems_cons {cs ds : List Char} {v : Json} {vs : List Json} (h : Spells cs v)
    (hs : SpellsItems ds vs) : SpellsItems (cs ++ ',' :: ds) (v :: vs) := by
  intro fuel rest hfuel
  simp only [List.length_append, List.length_cons] at hfuel
  obtain ⟨fuel, rfl⟩ : ∃ k, fuel = k + 1 := ⟨fuel - 1, by omega⟩
  have hv := h fuel (',' :: (ds ++ rest)) (by omega) (endsNumber_cons (by decide) _)
  have hvs := hs fuel rest (by omega)
  rw [items?]
  simp only [List.append_assoc, List.cons_append]
  rw [hv]
  simp [skipBlanks_cons (c := ',') (by decide), hvs]

theorem spellsMember {m : Option String × Json} (hkey : m.1.isSome = true) {cs : List Char}
    (h : Spells cs m.2) : SpellsMember ((quoted (m.1.getD "")).toList ++ ':' :: cs) m := by
  obtain ⟨key, v⟩ := m
  obtain ⟨key, rfl⟩ := Option.isSome_iff_exists.mp hkey
  refine ⟨[], key, cs, v, by simp, h, rfl, ?_⟩
  rw [List.nil_append, Option.getD_some]

theorem SpellsMember.blanks {bs cs : List Char} {m : Option String × Json}
    (hbs : ∀ b ∈ bs, isBlank b = true) (h : SpellsMember cs m) : SpellsMember (bs ++ cs) m := by
  obtain ⟨bs', key, ds, v, hbs', hds, rfl, rfl⟩ := h
  refine ⟨bs ++ bs', key, ds, v, ?_, hds, rfl, by simp only [List.append_assoc]⟩
  intro b hb
  exact (List.mem_append.mp hb).elim (hbs b) (hbs' b)

/-- A member is read in front of what ends the object or goes on with other members. -/
theorem members?_member {bs cs rest : List Char} {key : String} {v : Json} {fuel : Nat}
    (hbs : ∀ b ∈ bs, isBlank b = true) (hv : value? fuel (cs ++ rest) = some (v, rest))
    {ms : List (Option String × Json)} {after : List Char}
    (hrest : skipBlanks rest = '\x7d' :: after ∧ ms = [] ∨
      ∃ rest', skipBlanks rest = ',' :: rest' ∧ members? fuel rest' = some (ms, after)) :
    members? (fuel + 1) (bs ++ (quoted key).toList ++ ':' :: cs ++ rest) =
      some ((some key, v) :: ms, after) := by
  have hstring := stringBody?_quoted key (':' :: (cs ++ rest))
  rw [members?, toList_quoted]
  simp only [List.append_assoc, List.cons_append, List.nil_append]
  rw [skipBlanks_append hbs, skipBlanks_cons (by decide)]
  simp only [hstring, Option.bind_eq_bind, Option.bind_some]
  rw [skipBlanks_cons (by decide)]
  simp only [hv, Option.bind_some]
  obtain ⟨hend, rfl⟩ | ⟨rest', hcomma, hms⟩ := hrest
  · rw [hend]
    rfl
  · rw [hcomma]
    simp only [hms]
    rfl

theorem spellsMembers_singleton {cs bs : List Char} {m : Option String × Json}
    (h : SpellsMember cs m) (hbs : ∀ b ∈ bs, isBlank b = true) :
    SpellsMembers (cs ++ (bs ++ ['\x7d'])) [m] := by
  obtain ⟨bs', key, ds, v, hbs', hds, rfl, rfl⟩ := h
  intro fuel rest hfuel
  simp only [List.length_append, List.length_cons] at hfuel
  obtain ⟨fuel, rfl⟩ : ∃ k, fuel = k + 1 := ⟨fuel - 1, by omega⟩
  have hend : EndsNumber (bs ++ '\x7d' :: rest) :=
    endsNumber_append hbs (endsNumber_cons (by decide) rest)
  have hv := hds fuel _ (by omega) hend
  have hbrace : skipBlanks (bs ++ '\x7d' :: rest) = '\x7d' :: rest := by
    rw [skipBlanks_append hbs, skipBlanks_cons (by decide)]
  have hmember := @members?_member bs' ds _ key v fuel hbs' hv [] rest (.inl ⟨hbrace, rfl⟩)
  simpa only [List.append_assoc, List.cons_append, List.nil_append] using hmember

theorem spellsMembers_cons {cs ds : List Char} {m : Option String × Json}
    {ms : List (Option String × Json)} (h : SpellsMember cs m) (hs : SpellsMembers ds ms) :
    SpellsMembers (cs ++ ',' :: ds) (m :: ms) := by
  obtain ⟨bs, key, cs, v, hbs, hcs, rfl, rfl⟩ := h
  intro fuel rest hfuel
  simp only [List.length_append, List.length_cons] at hfuel
  obtain ⟨fuel, rfl⟩ : ∃ k, fuel = k + 1 := ⟨fuel - 1, by omega⟩
  have hv := hcs fuel (',' :: (ds ++ rest)) (by omega) (endsNumber_cons (by decide) _)
  have hcomma : skipBlanks (',' :: (ds ++ rest)) = ',' :: (ds ++ rest) :=
    skipBlanks_cons (by decide) _
  have hms := hs fuel rest (by omega)
  have hmember := @members?_member bs cs _ key v fuel hbs hv ms rest (.inr ⟨_, hcomma, hms⟩)
  simpa only [List.append_assoc, List.cons_append] using hmember

theorem skipBlanks_ne_of_items? {fuel : Nat} {cs : List Char} {x : List Json × List Char}
    (h : items? fuel cs = some x) (ds : List Char) : skipBlanks cs ≠ ']' :: ds := by
  intro hclose
  have hvalue : ∀ k, value? k cs = none := by
    intro k
    cases k with
    | zero => rfl
    | succ k =>
      rw [value?, hclose]
      rfl
  cases fuel with
  | zero => cases h
  | succ fuel =>
    rw [items?, hvalue] at h
    cases h

theorem skipBlanks_ne_of_members? {fuel : Nat} {cs : List Char}
    {x : List (Option String × Json) × List Char} (h : members? fuel cs = some x)
    (ds : List Char) : skipBlanks cs ≠ '\x7d' :: ds := by
  intro hclose
  cases fuel with
  | zero => cases h
  | succ fuel =>
    rw [members?, hclose] at h
    cases h

/-- A bracket in front of the items of an array makes the array. -/
theorem spells_array {cs : List Char} {vs : List Json} (h : SpellsItems cs vs) :
    Spells ('[' :: cs) (.array vs) := by
  intro fuel rest hfuel _
  rw [List.length_cons] at hfuel
  obtain ⟨fuel, rfl⟩ : ∃ k, fuel = k + 1 := ⟨fuel - 1, by omega⟩
  have hitems := h fuel rest (by omega)
  rw [value?, List.cons_append, skipBlanks_cons (by decide)]
  simp only [hitems, Option.map_some]
  split
  · next hclose => exact absurd hclose (skipBlanks_ne_of_items? hitems _)
  · rfl

/-- A brace in front of the members of an object makes the object. -/
theorem spells_object {cs : List Char} {ms : List (Option String × Json)}
    (h : SpellsMembers cs ms) : Spells ('\x7b' :: cs) (.object ms) := by
  intro fuel rest hfuel _
  rw [List.length_cons] at hfuel
  obtain ⟨fuel, rfl⟩ : ∃ k, fuel = k + 1 := ⟨fuel - 1, by omega⟩
  have hmembers := h fuel rest (by omega)
  rw [value?, List.cons_append, skipBlanks_cons (by decide)]
  simp only [hmembers, Option.map_some]
  split
  · next hclose => exact absurd hclose (skipBlanks_ne_of_members? hmembers _)
  · rfl

/-! ### Layouts -/

/-- Parts with commas between them make a list, whatever stands in front of each. -/
theorem spellsAll_intercalate {α : Type} {Part : List Char → α → Prop}
    {All : List Char → List α → Prop} {gap close : List Char}
    (hgap : ∀ {cs x}, Part cs x → Part (gap ++ cs) x)
    (hsingleton : ∀ {cs x}, Part cs x → All (cs ++ close) [x])
    (hcons : ∀ {cs ds x xs}, Part cs x → All ds xs → All (cs ++ ',' :: ds) (x :: xs))
    {parts : List (List Char)} {x : α} {xs : List α}
    (h : List.Forall₂ Part parts (x :: xs)) :
    All (gap ++ ((',' :: gap).intercalate parts ++ close)) (x :: xs) := by
  induction xs generalizing parts x with
  | nil =>
    obtain ⟨p, ps, hp, hps, rfl⟩ := List.forall₂_cons_right_iff.mp h
    obtain rfl := List.forall₂_nil_right_iff.mp hps
    rw [List.intercalate_singleton, ← List.append_assoc]
    exact hsingleton (hgap hp)
  | cons y ys ih =>
    obtain ⟨p, ps, hp, hps, rfl⟩ := List.forall₂_cons_right_iff.mp h
    obtain ⟨q, qs, hq, hqs, rfl⟩ := List.forall₂_cons_right_iff.mp hps
    have hall := hcons (hgap hp) (ih (.cons hq hqs))
    rw [List.intercalate_cons_cons]
    simpa only [List.append_assoc, List.cons_append] using hall

/-- The items of an array between brackets, with blanks in front of each and at the end. -/
theorem spells_array_intercalate {gap bs : List Char} {parts : List (List Char)} {v : Json}
    {vs : List Json} (hgap : ∀ b ∈ gap, isBlank b = true) (hbs : ∀ b ∈ bs, isBlank b = true)
    (h : List.Forall₂ Spells parts (v :: vs)) :
    Spells ('[' :: (gap ++ ((',' :: gap).intercalate parts ++ (bs ++ [']'])))) (.array (v :: vs)) :=
  spells_array (spellsAll_intercalate (.blanks hgap) (fun hp => spellsItems_singleton hp hbs)
    spellsItems_cons h)

/-- The members of an object between braces, with blanks in front of each and at the end. -/
theorem spells_object_intercalate {gap bs : List Char} {parts : List (List Char)}
    {m : Option String × Json} {ms : List (Option String × Json)}
    (hgap : ∀ b ∈ gap, isBlank b = true) (hbs : ∀ b ∈ bs, isBlank b = true)
    (h : List.Forall₂ SpellsMember parts (m :: ms)) :
    Spells ('\x7b' :: (gap ++ ((',' :: gap).intercalate parts ++ (bs ++ ['\x7d']))))
      (.object (m :: ms)) :=
  spells_object (spellsAll_intercalate (.blanks hgap) (fun hp => spellsMembers_singleton hp hbs)
    spellsMembers_cons h)

end Reader

/-! ### Printed values -/

/-- Every string of the value is a text, and every digit of its numbers is a digit. -/
inductive Plain : Json → Prop
  /-- Nothing. -/
  | null : Plain .null
  /-- A truth value. -/
  | bool (b : Bool) : Plain (.bool b)
  /-- A number. -/
  | number {n : Number} (h : n.IsDecimal) : Plain (.number n)
  /-- A text. -/
  | string (s : String) : Plain (.string (some s))
  /-- An array of such values. -/
  | array {vs : List Json} (h : ∀ v ∈ vs, Plain v) : Plain (.array vs)
  /-- An object with texts for keys and such values. -/
  | object {ms : List (Option String × Json)} (hkeys : ∀ m ∈ ms, m.1.isSome = true)
      (hvalues : ∀ m ∈ ms, Plain m.2) : Plain (.object ms)

theorem Plain.str (s : String) : Plain (.str s) := .string s

theorem Plain.nat (k : Nat) : Plain (.nat k) :=
  .number fun _ hd => absurd hd List.not_mem_nil

theorem Plain.obj {ms : List (String × Json)} (h : ∀ m ∈ ms, Plain m.2) : Plain (.obj ms) := by
  refine .object (fun m hm => ?_) (fun m hm => ?_)
  · obtain ⟨⟨k, v⟩, -, rfl⟩ := List.mem_map.mp hm
    rfl
  · obtain ⟨⟨k, v⟩, hkv, rfl⟩ := List.mem_map.mp hm
    exact h (k, v) hkv

theorem prettyItems_eq_map (level : Nat) (vs : List Json) :
    prettyItems level vs = vs.map (prettyAt level) := by
  induction vs with
  | nil => rfl
  | cons v vs ih => rw [prettyItems, ih, List.map_cons]

theorem prettyMembers_eq_map (level : Nat) (ms : List (Option String × Json)) :
    prettyMembers level ms =
      ms.map fun m => quoted (m.1.getD "") ++ ": " ++ prettyAt level m.2 := by
  induction ms with
  | nil => rfl
  | cons m ms ih => rw [prettyMembers, ih, List.map_cons]

theorem compactItems_eq_map (vs : List Json) : compactItems vs = vs.map compact := by
  induction vs with
  | nil => rfl
  | cons v vs ih => rw [compactItems, ih, List.map_cons]

theorem compactMembers_eq_map (ms : List (Option String × Json)) :
    compactMembers ms = ms.map fun m => quoted (m.1.getD "") ++ ":" ++ compact m.2 := by
  induction ms with
  | nil => rfl
  | cons m ms ih => rw [compactMembers, ih, List.map_cons]

theorem isBlank_breakAt (level : Nat) : ∀ b ∈ (breakAt level).toList, Reader.isBlank b = true := by
  intro b hb
  simp only [breakAt, String.toList_append, List.mem_append, String.toList_ofList] at hb
  rcases hb with hb | hb
  · obtain rfl := List.mem_singleton.mp hb
    rfl
  · obtain rfl := List.eq_of_mem_replicate hb
    rfl

theorem toList_spread (opening closing : String) (level : Nat) (parts : List String) :
    (spread opening closing level parts).toList =
      opening.toList ++ ((breakAt (level + 1)).toList ++
        ((',' :: (breakAt (level + 1)).toList).intercalate (parts.map String.toList) ++
          ((breakAt level).toList ++ closing.toList))) := by
  simp only [spread, String.toList_append, String.toList_intercalate, List.append_assoc]
  rfl

theorem toList_enclosed (opening closing : String) (parts : List String) :
    (opening ++ ",".intercalate parts ++ closing).toList =
      opening.toList ++ ([] ++ ([','].intercalate (parts.map String.toList) ++
        ([] ++ closing.toList))) := by
  simp only [String.toList_append, String.toList_intercalate, List.append_assoc, List.nil_append]
  rfl

namespace Plain

open Reader

variable {v : Json}

/-- A value over several lines spells the value, at whatever level it stands. -/
theorem spells_prettyAt (h : Plain v) (level : Nat) : Spells (prettyAt level v).toList v := by
  induction h generalizing level with
  | null => exact spells_null
  | bool b => exact spells_bool b
  | number h => exact spells_render h
  | string s => exact spells_quoted s
  | @array vs _ ih =>
    cases vs with
    | nil => exact spells_emptyArray
    | cons v vs =>
      rw [prettyAt, toList_spread, prettyItems_eq_map, List.map_map]
      refine spells_array_intercalate (isBlank_breakAt _) (isBlank_breakAt level) ?_
      refine List.forall₂_map_left_iff.mpr (List.forall₂_same.mpr fun u hu => ?_)
      exact ih u hu (level + 1)
  | @object ms hkeys _ ih =>
    cases ms with
    | nil => exact spells_emptyObject
    | cons m ms =>
      rw [prettyAt, toList_spread, prettyMembers_eq_map, List.map_map]
      refine spells_object_intercalate (isBlank_breakAt _) (isBlank_breakAt level) ?_
      refine List.forall₂_map_left_iff.mpr (List.forall₂_same.mpr fun u hu => ?_)
      have hblank : ∀ b ∈ [' '], isBlank b = true := List.forall_mem_singleton.mpr rfl
      have hvalue := (ih u hu (level + 1)).blanks hblank
      simpa [String.toList_append] using spellsMember (hkeys u hu) hvalue

/-- A value on one line spells the value. -/
theorem spells_compact (h : Plain v) : Spells (compact v).toList v := by
  induction h with
  | null => exact spells_null
  | bool b => exact spells_bool b
  | number h => exact spells_render h
  | string s => exact spells_quoted s
  | @array vs _ ih =>
    cases vs with
    | nil =>
      rw [compact, toList_enclosed]
      exact spells_emptyArray
    | cons v vs =>
      rw [compact, toList_enclosed, compactItems_eq_map, List.map_map]
      refine spells_array_intercalate (by simp) (by simp) ?_
      exact List.forall₂_map_left_iff.mpr (List.forall₂_same.mpr ih)
  | @object ms hkeys _ ih =>
    cases ms with
    | nil =>
      rw [compact, toList_enclosed]
      exact spells_emptyObject
    | cons m ms =>
      rw [compact, toList_enclosed, compactMembers_eq_map, List.map_map]
      refine spells_object_intercalate (by simp) (by simp) ?_
      refine List.forall₂_map_left_iff.mpr (List.forall₂_same.mpr fun u hu => ?_)
      simpa [String.toList_append] using spellsMember (hkeys u hu) (ih u hu)

end Plain

/-- A text that spells a value, with blanks after it, is read as the value. -/
theorem parse?_of_spells {cs bs : List Char} {v : Json} (h : Reader.Spells cs v)
    (hbs : ∀ b ∈ bs, Reader.isBlank b = true) : parse? (String.ofList (cs ++ bs)) = some v := by
  have hrest : Reader.skipBlanks bs = [] := by
    have hskip := Reader.skipBlanks_append hbs []
    rwa [List.append_nil] at hskip
  have hend : Reader.EndsNumber bs := by
    rw [← List.append_nil bs]
    exact Reader.endsNumber_append hbs (by simp [Reader.EndsNumber])
  have hv := h (2 * (cs ++ bs).length + 2) bs (by simp; omega) hend
  rw [parse?, String.length_ofList, String.toList_ofList, hv]
  simp [hrest]

/-- **A value printed over several lines is read back**, whatever blanks follow. -/
theorem parse?_pretty {v : Json} (h : Plain v) {blanks : String}
    (hblanks : ∀ b ∈ blanks.toList, Reader.isBlank b = true) :
    parse? (v.pretty ++ blanks) = some v := by
  have hread := parse?_of_spells (h.spells_prettyAt 0) hblanks
  rwa [← String.toList_append, String.ofList_toList] at hread

/-- **A value printed on one line is read back**, whatever blanks follow. -/
theorem parse?_compact {v : Json} (h : Plain v) {blanks : String}
    (hblanks : ∀ b ∈ blanks.toList, Reader.isBlank b = true) :
    parse? (v.compact ++ blanks) = some v := by
  have hread := parse?_of_spells h.spells_compact hblanks
  rwa [← String.toList_append, String.ofList_toList] at hread

end TreeMend.Json
