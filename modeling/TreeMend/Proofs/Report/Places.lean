import Mathlib.Data.List.DropRight
import Mathlib.Data.Prod.Lex
import TreeMend.Proofs.Report.Sorting
import TreeMend.Proofs.Text.Boundaries
import TreeMend.SourceFile

/-!
# Lines and columns

The line of an offset counts the line feeds in front of it, the column the characters since the
last of them.  A line feed raises the line and any other character the column, so each character
moves the place on: places are in the order of their offsets, and only offsets inside one character
or beyond the end share a place.

## Main results

* `SourceFile.advance_eq` — line and column by counting.
* `SourceFile.lt_advance` — each character moves the place on.
* `SourceFile.lineColumn_mono`, `SourceFile.lineColumn_lt` — places are in the order of offsets.
* `SourceFile.sort_violations` — findings in one file are sorted by their offsets.
* `SourceFile.lineColumn_exact` — **places are exact and monotone**.
-/

namespace TreeMend.SourceFile

open Text

/-! ### The place after some text -/

theorem advance_append (p : Nat × Nat) (cs ds : List Char) :
    advance p (cs ++ ds) = advance (advance p cs) ds := by
  induction cs generalizing p with
  | nil => rfl
  | cons c cs ih =>
    rw [List.cons_append, advance, advance, ih]

/-- The place after some text: its line feeds, and its characters since the last of them. -/
theorem advance_eq (cs : List Char) :
    advance (1, 1) cs = (1 + cs.count '\n', 1 + (cs.rtakeWhile (· ≠ '\n')).length) := by
  -- from the right, where the last line is
  induction cs using List.reverseRecOn with
  | nil => rfl
  | append_singleton cs c ih =>
    rw [advance_append, ih, advance, advance, List.count_append, List.rtakeWhile_concat]
    by_cases hc : c = '\n'
    · simp [hc, Nat.add_assoc]
    · simp [hc, Nat.add_assoc]

/-- Each character moves the place on. -/
theorem lt_advance_cons (p : Nat × Nat) (c : Char) : toLex p < toLex (advance p [c]) := by
  rw [advance, advance, Prod.Lex.toLex_lt_toLex]
  split
  · exact Or.inl p.1.lt_succ_self
  · exact Or.inr ⟨rfl, p.2.lt_succ_self⟩

theorem lt_advance (p : Nat × Nat) {cs : List Char} (h : cs ≠ []) :
    toLex p < toLex (advance p cs) := by
  induction cs generalizing p with
  | nil => exact absurd rfl h
  | cons c cs ih =>
    have hstep := lt_advance_cons p c
    have hsplit : advance p (c :: cs) = advance (advance p [c]) cs := advance_append p [c] cs
    rw [hsplit]
    cases cs with
    | nil => exact hstep
    | cons d cs => exact hstep.trans (ih _ (List.cons_ne_nil d cs))

/-! ### The place of an offset -/

variable (f : SourceFile) {a b : Nat}

/-- Places are in the order of their offsets. -/
theorem lineColumn_mono (h : a ≤ b) : toLex (f.lineColumn a) ≤ toLex (f.lineColumn b) := by
  obtain ⟨between, hbetween⟩ := takeWithin_prefix_takeWithin h f.content.toList
  rw [lineColumn, lineColumn, ← hbetween, advance_append]
  rcases eq_or_ne between [] with rfl | hne
  · exact le_refl _
  · exact (lt_advance _ hne).le

/-- Offsets of different characters have different places. -/
theorem lineColumn_lt (ha : IsBoundary a f.content.toList) (hb : IsBoundary b f.content.toList)
    (h : a < b) : toLex (f.lineColumn a) < toLex (f.lineColumn b) := by
  obtain ⟨between, hbetween⟩ := takeWithin_prefix_takeWithin h.le f.content.toList
  have hlength := congrArg byteLength hbetween
  rw [byteLength_append, isBoundary_iff.mp ha, isBoundary_iff.mp hb] at hlength
  have hne : between ≠ [] := by
    rintro rfl
    rw [byteLength_nil] at hlength
    omega
  rw [lineColumn, lineColumn, ← hbetween, advance_append]
  exact lt_advance _ hne

theorem lineColumn_le_iff (ha : IsBoundary a f.content.toList)
    (hb : IsBoundary b f.content.toList) :
    toLex (f.lineColumn a) ≤ toLex (f.lineColumn b) ↔ a ≤ b := by
  constructor
  · intro h
    by_contra hba
    exact (f.lineColumn_lt hb ha (not_le.mp hba)).not_ge h
  · exact f.lineColumn_mono

/-- A finding in a file, at a character of it or at its end. -/
def Finds (v : Violation) : Prop :=
  ∃ span : Span, IsBoundary span.start f.content.toList ∧ v.location = f.location span

/-- Of two findings in a file, the one with the smaller offset comes first. -/
theorem isLE_compare_iff {v w : Violation} (hv : f.Finds v) (hw : f.Finds w) :
    (Summary.compare v w).isLE ↔ v.location.offset ≤ w.location.offset := by
  obtain ⟨s, hs, hv⟩ := hv
  obtain ⟨t, ht, hw⟩ := hw
  have hfile : ¬ Path.compare f.relative f.relative = .lt := by
    rw [Path.compare_eq_eq_iff.mpr rfl]
    decide
  have horder := f.lineColumn_le_iff hs ht
  rw [Prod.Lex.toLex_le_toLex] at horder
  rw [Summary.isLE_compare_iff, Summary.InOrder, hv, hw]
  exact ⟨fun h => horder.mp (h.resolve_left hfile).2, fun h => Or.inr ⟨rfl, horder.mpr h⟩⟩

/-- Findings in one file are sorted by their offsets. -/
theorem sort_violations {s : Summary} (h : ∀ v ∈ s.violations, f.Finds v) :
    s.sort.violations =
      s.violations.mergeSort fun v w => v.location.offset ≤ w.location.offset := by
  have hsort := List.map_mergeSort (f := id) (l := s.violations)
    (r := fun v w => (Summary.compare v w).isLE)
    (s := fun v w => v.location.offset ≤ w.location.offset) fun v hv w hw => by
      rw [Bool.eq_iff_iff, decide_eq_true_iff]
      exact f.isLE_compare_iff (h v hv) (h w hw)
  rwa [List.map_id, List.map_id] at hsort

/-- **Places are exact and monotone.**  The line and column of any offset are those after the longest
initial part of the text that ends at a boundary and not beyond the offset, where the search for
that boundary, byte by byte downwards, ends within the text: the line counts the line feeds, the
column the characters since the last of them.  Places are therefore in the order of their offsets,
those of different characters are different, and findings sorted by place are sorted by offset. -/
theorem lineColumn_exact (f : SourceFile) :
    (∀ offset, ∃ before,
      boundaryBelow? f.content.toList (min offset f.content.utf8ByteSize) =
        some (byteLength before) ∧
      before <+: f.content.toList ∧ byteLength before ≤ offset ∧
      (∀ part, part <+: f.content.toList → byteLength part ≤ offset → part <+: before) ∧
      f.lineColumn offset =
        (1 + before.count '\n', 1 + (before.rtakeWhile (· ≠ '\n')).length)) ∧
    (∀ a b, a ≤ b → toLex (f.lineColumn a) ≤ toLex (f.lineColumn b)) ∧
    (∀ a b, IsBoundary a f.content.toList → IsBoundary b f.content.toList →
      (a < b → toLex (f.lineColumn a) < toLex (f.lineColumn b)) ∧
      (f.lineColumn a = f.lineColumn b → a = b)) ∧
    ∀ s : Summary, (∀ v ∈ s.violations, f.Finds v) →
      s.sort.violations =
        s.violations.mergeSort fun v w => v.location.offset ≤ w.location.offset := by
  refine ⟨?_, fun a b => f.lineColumn_mono, ?_, fun s => f.sort_violations⟩
  · intro offset
    refine ⟨takeWithin offset f.content.toList, boundaryBelow?_min f.content offset,
      takeWithin_initial _ _, byteLength_takeWithin_le _ _, ?_, advance_eq _⟩
    intro part hinitial hfits
    exact prefix_takeWithin hinitial hfits
  · intro a b ha hb
    refine ⟨f.lineColumn_lt ha hb, ?_⟩
    intro hsame
    apply Nat.le_antisymm
    · rw [← f.lineColumn_le_iff ha hb, hsame]
    · rw [← f.lineColumn_le_iff hb ha, hsame]

/-- Two lines, the first of which starts with a character of two bytes. -/
def twoLines : SourceFile := ⟨"a.ts", "é;\n'x'"⟩

/-- A finding in `twoLines`. -/
def twoLinesFinding (start : Nat) : Violation :=
  ⟨"TS102", "double-quotes", .warning, twoLines.location ⟨start, 7⟩, "", none⟩

theorem lineColumn_exact_twoLines :
    twoLines.lineColumn 1 = (1, 1) ∧ twoLines.lineColumn 4 = (2, 1) ∧
      toLex (twoLines.lineColumn 1) ≤ toLex (twoLines.lineColumn 3) ∧
      toLex (twoLines.lineColumn 3) < toLex (twoLines.lineColumn 4) ∧
      (Summary.sort ⟨[twoLinesFinding 5, twoLinesFinding 0, twoLinesFinding 3], 1⟩).violations.map
        (·.location.offset) = [0, 3, 5] := by
  obtain ⟨hplace, hmono, hstrict, hsort⟩ := lineColumn_exact twoLines
  have hfinds : ∀ v ∈ [twoLinesFinding 5, twoLinesFinding 0, twoLinesFinding 3],
      twoLines.Finds v := by
    intro v hv
    simp only [List.mem_cons, List.not_mem_nil, or_false] at hv
    rcases hv with rfl | rfl | rfl
    · exact ⟨⟨5, 7⟩, by decide +kernel, rfl⟩
    · exact ⟨⟨0, 7⟩, by decide +kernel, rfl⟩
    · exact ⟨⟨3, 7⟩, by decide +kernel, rfl⟩
  refine ⟨by decide +kernel, by decide +kernel, hmono 1 3 (by decide), ?_, ?_⟩
  · exact (hstrict 3 4 (by decide +kernel) (by decide +kernel)).1 (by decide)
  · rw [hsort _ hfinds]
    simp [List.mergeSort, twoLinesFinding, location]

end TreeMend.SourceFile
