import TreeMend.Text.Alphanumeric
import TreeMend.Text.Blank

/-!
# Blanks around a text and its first word

Trimming leaves what starts and ends with visible characters, and the leading word of a text ends
at the first character that belongs to no word.

## Main results

* `Text.trim_quoted`, `Text.prefix_trim`, `Text.suffix_trim` — visible characters stay.
* `Text.takeWhile_isWordChar_append`, `Text.word_append_inj` — the leading word of a text, and that
  it has only one.
-/

namespace TreeMend.Text

/-! ### Blanks -/

/-- A text that starts and ends with characters that are not blank has no blanks to trim. -/
theorem trim_quoted {c d : Char} (hc : isBlank c = false) (hd : isBlank d = false)
    (cs : List Char) : trim (c :: cs ++ [d]) = c :: cs ++ [d] := by
  have hstart : trimStart (c :: cs ++ [d]) = c :: cs ++ [d] := by
    simp [trimStart, hc]
  rw [trim, hstart, trimEnd, List.reverse_append, List.reverse_singleton, List.singleton_append,
    List.dropWhile_cons_of_neg (by simp [hd]), List.reverse_cons, List.reverse_reverse]

/-- The blanks in front of a word do not count. -/
theorem trimStart_append {blanks rest : List Char} {c : Char}
    (hblanks : ∀ b ∈ blanks, isBlank b) (hc : isBlank c = false) :
    trimStart (blanks ++ c :: rest) = c :: rest := by
  rw [trimStart, List.dropWhile_append_of_pos hblanks, List.dropWhile_cons_of_neg (by simp [hc])]

theorem dropWhile_isBlank_append {xs ys : List Char} (h : ys.dropWhile isBlank = ys) :
    (xs ++ ys).dropWhile isBlank = xs.dropWhile isBlank ++ ys := by
  rw [List.dropWhile_append]
  split
  · next hempty => rw [h, List.isEmpty_iff.mp hempty, List.nil_append]
  · rfl

/-- Two visible characters in front stay in front. -/
theorem prefix_trim {a b : Char} {cs : List Char} (ha : isBlank a = false)
    (hb : isBlank b = false) (h : [a, b] <+: cs) : [a, b] <+: trim cs := by
  obtain ⟨rest, rfl⟩ := h
  have hstart : trimStart ([a, b] ++ rest) = [a, b] ++ rest := by
    simp [trimStart, ha]
  have hsolid : [b, a].dropWhile isBlank = [b, a] := by simp [hb]
  rw [trim, hstart, trimEnd, List.reverse_append, List.reverse_cons, List.reverse_singleton,
    List.singleton_append, dropWhile_isBlank_append hsolid, List.reverse_append]
  exact List.prefix_append _ _

/-- Two visible characters at the end stay at the end. -/
theorem suffix_trim {a b : Char} {cs : List Char} (ha : isBlank a = false)
    (hb : isBlank b = false) (h : [a, b] <:+ cs) : [a, b] <:+ trim cs := by
  obtain ⟨rest, rfl⟩ := h
  have hstart : trimStart (rest ++ [a, b]) = trimStart rest ++ [a, b] :=
    dropWhile_isBlank_append (by simp [ha])
  have hend : trimEnd (trimStart rest ++ [a, b]) = trimStart rest ++ [a, b] := by
    simp [trimEnd, hb]
  rw [trim, hstart, hend]
  exact List.suffix_append _ _

/-! ### Words -/

/-- The leading word of a text that starts with a word. -/
theorem takeWhile_isWordChar_append {word rest : List Char} (hword : word.all isWordChar = true)
    (hrest : rest.head?.any isWordChar = false) :
    (word ++ rest).takeWhile isWordChar = word := by
  rw [List.takeWhile_append_of_pos (List.all_eq_true.mp hword)]
  cases rest with
  | nil => simp
  | cons c rest =>
    have hc : ¬ isWordChar c = true := by simpa using hrest
    simp [hc]

/-- A text has only one leading word. -/
theorem word_append_inj {word word' rest rest' : List Char} (hword : word.all isWordChar = true)
    (hword' : word'.all isWordChar = true) (hrest : rest.head?.any isWordChar = false)
    (hrest' : rest'.head?.any isWordChar = false) (h : word ++ rest = word' ++ rest') :
    word = word' ∧ rest = rest' := by
  have hsame : word = word' := by
    rw [← takeWhile_isWordChar_append hword hrest, h, takeWhile_isWordChar_append hword' hrest']
  subst hsame
  exact ⟨rfl, List.append_cancel_left h⟩

end TreeMend.Text
