/-!
# Byte offsets

Offsets into a text count the bytes of its UTF-8 form, while the text itself is a list of
characters.  An offset is a *boundary* when a character starts there or the text ends there; only
the text between two boundaries can be cut out.

## Main definitions

* `byteLength` — the number of bytes of a text.
* `takeBytes`, `dropBytes` — the two sides of a boundary, or `none` where there is none.
* `slice?` — the text between two boundaries.
* `takeWithin` — the longest initial part that fits into a number of bytes.

## Main results

* `takeBytes_append_dropBytes` — a boundary splits the text and loses nothing.
-/

namespace TreeMend.Text

/-- The number of bytes of a text. -/
def byteLength : List Char → Nat
  | [] => 0
  | c :: cs => c.utf8Size + byteLength cs

/-- The text before the boundary at byte `n`. -/
def takeBytes : Nat → List Char → Option (List Char)
  | 0, _ => some []
  | _ + 1, [] => none
  | n + 1, c :: cs =>
      if c.utf8Size ≤ n + 1 then (takeBytes (n + 1 - c.utf8Size) cs).map (c :: ·) else none

/-- The text after the boundary at byte `n`. -/
def dropBytes : Nat → List Char → Option (List Char)
  | 0, cs => some cs
  | _ + 1, [] => none
  | n + 1, c :: cs => if c.utf8Size ≤ n + 1 then dropBytes (n + 1 - c.utf8Size) cs else none

/-- The text from byte `start` to byte `stop`, if both are boundaries and in this order. -/
def slice? (s : String) (start stop : Nat) : Option String :=
  if start ≤ stop then
    ((dropBytes start s.toList).bind (takeBytes (stop - start))).map String.ofList
  else none

/-- The longest initial part of a text that takes at most `n` bytes. -/
def takeWithin : Nat → List Char → List Char
  | _, [] => []
  | n, c :: cs => if c.utf8Size ≤ n then c :: takeWithin (n - c.utf8Size) cs else []

@[simp] theorem byteLength_nil : byteLength [] = 0 := rfl

@[simp] theorem byteLength_cons (c : Char) (cs : List Char) :
    byteLength (c :: cs) = c.utf8Size + byteLength cs := rfl

theorem byteLength_append (cs ds : List Char) :
    byteLength (cs ++ ds) = byteLength cs + byteLength ds := by
  induction cs with
  | nil => simp
  | cons c cs ih => simp [ih, Nat.add_assoc]

@[simp] theorem takeBytes_zero (cs : List Char) : takeBytes 0 cs = some [] := by
  cases cs <;> rfl

@[simp] theorem dropBytes_zero (cs : List Char) : dropBytes 0 cs = some cs := by
  cases cs <;> rfl

/-- A boundary splits the text and loses nothing. -/
theorem takeBytes_append_dropBytes {n : Nat} {cs before : List Char}
    (h : takeBytes n cs = some before) :
    ∃ after, dropBytes n cs = some after ∧ before ++ after = cs := by
  induction cs generalizing n before with
  | nil =>
    cases n with
    | zero => simp_all
    | succ n => simp [takeBytes] at h
  | cons c cs ih =>
    cases n with
    | zero => simp_all
    | succ n =>
      by_cases hc : c.utf8Size ≤ n + 1
      · simp only [takeBytes, hc, if_true, Option.map_eq_some_iff] at h
        obtain ⟨inner, hinner, rfl⟩ := h
        obtain ⟨after, hafter, hsplit⟩ := ih hinner
        exact ⟨after, by simp [dropBytes, hc, hafter], by simp [hsplit]⟩
      · simp [takeBytes, hc] at h

end TreeMend.Text
