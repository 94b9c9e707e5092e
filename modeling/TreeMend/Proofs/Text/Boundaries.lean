import TreeMend.Text.Bytes

/-!
# Boundaries of a text

A boundary is the byte length of an initial part of a text.  A text can be cut out between two
offsets exactly when both are boundaries and in order, and the initial parts up to two boundaries
nest as the boundaries are ordered.  Below every offset there is a boundary, at the latest in front
of the text, so that a search that goes down byte by byte finds the greatest one.

## Main definitions

* `Text.IsBoundary` — a character starts at an offset, or the text ends there.
* `Text.boundaryBelow?` — the search for a boundary, byte by byte downwards.

## Main results

* `Text.takeBytes_eq_some_iff`, `Text.dropBytes_eq_some_iff` — the two sides of a boundary.
* `Text.slice?_eq_some_iff` — what stands between two boundaries.
* `Text.prefix_of_byteLength_le` — initial parts nest.
* `Text.prefix_takeWithin` — `takeWithin` gives the longest initial part that fits.
* `Text.boundaryBelow?_min` — the search ends at that part and does not leave the text.
-/

namespace TreeMend.Text

theorem takeBytes_append (before rest : List Char) :
    takeBytes (byteLength before) (before ++ rest) = some before := by
  induction before with
  | nil => simp
  | cons c before ih =>
    have hc : 0 < c.utf8Size := c.utf8Size_pos
    obtain ⟨n, hn⟩ : ∃ n, byteLength (c :: before) = n + 1 :=
      ⟨byteLength (c :: before) - 1, by rw [byteLength_cons]; omega⟩
    have hle : c.utf8Size ≤ n + 1 := by rw [← hn, byteLength_cons]; omega
    have hrest : n + 1 - c.utf8Size = byteLength before := by
      rw [← hn, byteLength_cons]; omega
    rw [hn, List.cons_append, takeBytes, if_pos hle, hrest, ih]
    rfl

theorem dropBytes_append (before rest : List Char) :
    dropBytes (byteLength before) (before ++ rest) = some rest := by
  obtain ⟨after, hafter, hsplit⟩ := takeBytes_append_dropBytes (takeBytes_append before rest)
  rw [hafter, List.append_cancel_left hsplit]

/-- What stands before a boundary. -/
theorem takeBytes_eq_some_iff {n : Nat} {cs before : List Char} :
    takeBytes n cs = some before ↔ before <+: cs ∧ byteLength before = n := by
  constructor
  · intro h
    induction cs generalizing n before with
    | nil =>
      cases n with
      | zero =>
        obtain rfl := Option.some.inj h
        exact ⟨List.nil_prefix, rfl⟩
      | succ n => cases h
    | cons c cs ih =>
      cases n with
      | zero =>
        obtain rfl := Option.some.inj h
        exact ⟨List.nil_prefix, rfl⟩
      | succ n =>
        rw [takeBytes] at h
        split at h
        · next hle =>
          obtain ⟨inner, hinner, rfl⟩ := Option.map_eq_some_iff.mp h
          obtain ⟨hinitial, hlength⟩ := ih hinner
          refine ⟨List.cons_prefix_cons.mpr ⟨rfl, hinitial⟩, ?_⟩
          rw [byteLength_cons, hlength]
          omega
        · cases h
  · rintro ⟨⟨rest, rfl⟩, rfl⟩
    exact takeBytes_append before rest

/-- What stands after a boundary. -/
theorem dropBytes_eq_some_iff {n : Nat} {cs rest : List Char} :
    dropBytes n cs = some rest ↔ ∃ before, cs = before ++ rest ∧ byteLength before = n := by
  constructor
  · intro h
    induction cs generalizing n with
    | nil =>
      cases n with
      | zero =>
        obtain rfl := Option.some.inj h
        exact ⟨[], rfl, rfl⟩
      | succ n => cases h
    | cons c cs ih =>
      cases n with
      | zero =>
        obtain rfl := Option.some.inj h
        exact ⟨[], rfl, rfl⟩
      | succ n =>
        rw [dropBytes] at h
        split at h
        · next hle =>
          obtain ⟨before, rfl, hlength⟩ := ih h
          refine ⟨c :: before, rfl, ?_⟩
          rw [byteLength_cons, hlength]
          omega
        · cases h
  · rintro ⟨before, rfl, rfl⟩
    exact dropBytes_append before rest

/-- What stands between two boundaries. -/
theorem slice?_eq_some_iff {s part : String} {start stop : Nat} :
    slice? s start stop = some part ↔ ∃ before after : List Char,
      s.toList = before ++ (part.toList ++ after) ∧ byteLength before = start ∧
        byteLength (before ++ part.toList) = stop := by
  unfold slice?
  constructor
  · intro h
    split at h
    · next hle =>
      obtain ⟨inner, hinner, rfl⟩ := Option.map_eq_some_iff.mp h
      obtain ⟨rest, hrest, htake⟩ := Option.bind_eq_some_iff.mp hinner
      obtain ⟨before, hsplit, hstart⟩ := dropBytes_eq_some_iff.mp hrest
      obtain ⟨⟨after, rfl⟩, hlength⟩ := takeBytes_eq_some_iff.mp htake
      refine ⟨before, after, by rw [hsplit, String.toList_ofList], hstart, ?_⟩
      rw [String.toList_ofList, byteLength_append, hstart, hlength]
      omega
    · cases h
  · rintro ⟨before, after, hsplit, rfl, rfl⟩
    rw [byteLength_append, if_pos (Nat.le_add_right _ _), Nat.add_sub_cancel_left, hsplit,
      dropBytes_append, Option.bind_some, takeBytes_append, Option.map_some, String.ofList_toList]

/-- Of two initial parts of a text, the one with fewer bytes is an initial part of the other. -/
theorem prefix_of_byteLength_le {cs as bs : List Char} (ha : as <+: cs) (hb : bs <+: cs)
    (h : byteLength as ≤ byteLength bs) : as <+: bs := by
  rcases List.prefix_or_prefix_of_prefix ha hb with hprefix | ⟨rest, rfl⟩
  · exact hprefix
  · -- the longer one has no bytes more, so it has no characters more
    rw [byteLength_append] at h
    cases rest with
    | nil => exact ⟨[], by rw [List.append_nil, List.append_nil]⟩
    | cons c rest =>
      have hc : 0 < c.utf8Size := c.utf8Size_pos
      rw [byteLength_cons] at h
      omega

theorem byteLength_le_of_initial {as bs : List Char} (h : as <+: bs) :
    byteLength as ≤ byteLength bs := by
  obtain ⟨rest, rfl⟩ := h
  rw [byteLength_append]
  exact Nat.le_add_right _ _

theorem byteLength_eq (cs : List Char) : byteLength cs = (String.ofList cs).utf8ByteSize := by
  induction cs with
  | nil => rfl
  | cons c cs ih =>
    rw [byteLength_cons, ih, String.ofList_cons, String.utf8ByteSize_append,
      String.utf8ByteSize_singleton]

/-- The bytes of a text are those of its characters. -/
theorem byteLength_toList (s : String) : byteLength s.toList = s.utf8ByteSize := by
  rw [byteLength_eq, String.ofList_toList]

/-! ### The longest initial part within a number of bytes -/

theorem takeWithin_initial (n : Nat) (cs : List Char) : takeWithin n cs <+: cs := by
  induction cs generalizing n with
  | nil => exact List.nil_prefix
  | cons c cs ih =>
    rw [takeWithin]
    split
    · exact List.cons_prefix_cons.mpr ⟨rfl, ih _⟩
    · exact List.nil_prefix

theorem byteLength_takeWithin_le (n : Nat) (cs : List Char) : byteLength (takeWithin n cs) ≤ n := by
  induction cs generalizing n with
  | nil => exact Nat.zero_le n
  | cons c cs ih =>
    rw [takeWithin]
    split
    · have hrest := ih (n - c.utf8Size)
      rw [byteLength_cons]
      omega
    · exact Nat.zero_le n

/-- Every initial part that fits is part of the longest one. -/
theorem prefix_takeWithin {n : Nat} {cs part : List Char} (h : part <+: cs)
    (hn : byteLength part ≤ n) : part <+: takeWithin n cs := by
  induction cs generalizing n part with
  | nil => exact h
  | cons c cs ih =>
    cases part with
    | nil => exact List.nil_prefix
    | cons d part =>
      obtain ⟨rfl, hpart⟩ := List.cons_prefix_cons.mp h
      rw [byteLength_cons] at hn
      rw [takeWithin, if_pos (by omega)]
      exact List.cons_prefix_cons.mpr ⟨rfl, ih hpart (by omega)⟩

theorem takeWithin_prefix_takeWithin {m n : Nat} (h : m ≤ n) (cs : List Char) :
    takeWithin m cs <+: takeWithin n cs :=
  prefix_takeWithin (takeWithin_initial m cs) (Nat.le_trans (byteLength_takeWithin_le m cs) h)

/-- A character starts at an offset, or the text ends there. -/
def IsBoundary (n : Nat) (cs : List Char) : Prop := ∃ before, before <+: cs ∧ byteLength before = n

instance (n : Nat) (cs : List Char) : Decidable (IsBoundary n cs) :=
  decidable_of_iff ((takeBytes n cs).isSome = true) <| by
    rw [Option.isSome_iff_exists]
    exact exists_congr fun _ => takeBytes_eq_some_iff

theorem isBoundary_zero (cs : List Char) : IsBoundary 0 cs := ⟨[], List.nil_prefix, rfl⟩

/-- What fits into the bytes up to a boundary fills them. -/
theorem isBoundary_iff {n : Nat} {cs : List Char} :
    IsBoundary n cs ↔ byteLength (takeWithin n cs) = n := by
  constructor
  · rintro ⟨before, hinitial, hlength⟩
    have hlower := byteLength_le_of_initial (prefix_takeWithin hinitial (Nat.le_of_eq hlength))
    have hupper := byteLength_takeWithin_le n cs
    omega
  · intro h
    exact ⟨takeWithin n cs, takeWithin_initial n cs, h⟩

/-- The first boundary that a search downwards from byte `n` comes to; `none` if it would have to go
on below the first byte. -/
def boundaryBelow? (cs : List Char) : Nat → Option Nat
  | 0 => if IsBoundary 0 cs then some 0 else none
  | n + 1 => if IsBoundary (n + 1) cs then some (n + 1) else boundaryBelow? cs n

/-- The search ends where the longest part ends that fits. -/
theorem boundaryBelow?_eq (cs : List Char) (n : Nat) :
    boundaryBelow? cs n = some (byteLength (takeWithin n cs)) := by
  induction n with
  | zero =>
    rw [boundaryBelow?, if_pos (isBoundary_zero cs), isBoundary_iff.mp (isBoundary_zero cs)]
  | succ n ih =>
    rw [boundaryBelow?]
    split
    · next h => rw [isBoundary_iff.mp h]
    · next h =>
      -- what fits into one byte more does not fill it, so it fits without that byte
      have hlength := byteLength_takeWithin_le (n + 1) cs
      have hne := mt isBoundary_iff.mpr h
      have hfits := prefix_takeWithin (takeWithin_initial (n + 1) cs) (by omega : _ ≤ n)
      rw [ih, hfits.eq_of_length_le (takeWithin_prefix_takeWithin n.le_succ cs).length_le]

/-- Beyond the end of a text there is no more of it. -/
theorem takeWithin_min (n : Nat) (cs : List Char) :
    takeWithin (min n (byteLength cs)) cs = takeWithin n cs := by
  refine (takeWithin_prefix_takeWithin (Nat.min_le_left n _) cs).eq_of_length_le ?_
  have hfits : byteLength (takeWithin n cs) ≤ min n (byteLength cs) :=
    Nat.le_min.mpr ⟨byteLength_takeWithin_le n cs, byteLength_le_of_initial (takeWithin_initial n cs)⟩
  exact (prefix_takeWithin (takeWithin_initial n cs) hfits).length_le

/-- The search from an offset, or from the end of the text if the offset is beyond it. -/
theorem boundaryBelow?_min (s : String) (n : Nat) :
    boundaryBelow? s.toList (min n s.utf8ByteSize) =
      some (byteLength (takeWithin n s.toList)) := by
  rw [boundaryBelow?_eq, ← byteLength_toList, takeWithin_min]

end TreeMend.Text
