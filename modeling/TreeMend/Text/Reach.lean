/-!
# Positions that a pattern reaches

A pattern with wildcards can match the start of a text in many ways, and each leaves another
position from which the rest of the pattern has to go on.  Here all of these positions are
followed at once: a part of a pattern takes the positions that are reached in front of it to those
reached behind it.  So the work is the length of the text times that of the pattern, however the
wildcards are nested.

## Main definitions

* `Text.Reach` — for every position of a text whether it is reached.
* `Text.Reach.one`, `Text.Reach.many` — behind one item of a class, behind any number of them.
* `Text.Reach.atEnd` — the whole text has been matched.

## Main results

* `Text.Reach.length_one`, `Text.Reach.length_many` — a text has as many positions afterwards as
  before.
-/

namespace TreeMend.Text

/-- For every position of a text, its end included, whether it is reached. -/
abbrev Reach := List Bool

namespace Reach

variable {α : Type}

/-- Only the start of the text. -/
def start (text : List α) : Reach := true :: text.map fun _ => false

/-- No position of the text. -/
def nowhere (text : List α) : Reach := false :: text.map fun _ => false

/-- The end of the text, if any position is reached. -/
def last (text : List α) (r : Reach) : Reach := (text.map fun _ => false) ++ [r.any id]

/-- The positions in either of two sets. -/
def or (r s : Reach) : Reach := List.zipWith (· || ·) r s

/-- The positions behind one item of the class `p`. -/
def one (p : α → Bool) (text : List α) (r : Reach) : Reach :=
  false :: List.zipWith (fun a here => here && p a) text r

/-- The positions behind any number of items of the class `p`, where `carried` says whether the
first position is reached from in front of the text. -/
def manyFrom (p : α → Bool) : Bool → List α → Reach → Reach
  | _, _, [] => []
  | carried, [], here :: _ => [carried || here]
  | carried, a :: text, here :: r =>
    (carried || here) :: manyFrom p ((carried || here) && p a) text r

/-- The positions behind any number of items of the class `p`. -/
def many (p : α → Bool) (text : List α) (r : Reach) : Reach := manyFrom p false text r

/-- Whether the end of the text is reached. -/
def atEnd (r : Reach) : Bool := r.getLast? == some true

@[simp] theorem length_start (text : List α) : (start text).length = text.length + 1 := by
  simp [start]

@[simp] theorem length_one (p : α → Bool) (text : List α) (r : Reach)
    (h : r.length = text.length + 1) : (one p text r).length = text.length + 1 := by
  simp [one, h]

theorem length_manyFrom (p : α → Bool) (carried : Bool) (text : List α) (r : Reach)
    (h : r.length = text.length + 1) :
    (manyFrom p carried text r).length = text.length + 1 := by
  induction text generalizing carried r with
  | nil =>
    cases r with
    | nil => simp at h
    | cons here r => simp [manyFrom]
  | cons a text ih =>
    cases r with
    | nil => simp at h
    | cons here r => simp [manyFrom, ih _ r (by simpa using h)]

@[simp] theorem length_many (p : α → Bool) (text : List α) (r : Reach)
    (h : r.length = text.length + 1) : (many p text r).length = text.length + 1 :=
  length_manyFrom p false text r h

end Reach

end TreeMend.Text
