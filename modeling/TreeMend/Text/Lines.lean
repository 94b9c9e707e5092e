/-!
# Lines of a file

The bytes of a file are cut into lines before they are read as texts, so that bytes which are no
text only spoil the line they are in.

## Main definitions

* `Text.lines` — the lines of a file, each as its bytes.
* `Text.ofBytes?` — the text that bytes encode.

## Main results

* `Text.lines_append_feed` — a line feed ends a line, and the next one starts behind it.
-/

namespace TreeMend.Text

/-- The text that bytes encode in UTF-8. -/
def ofBytes? (bytes : List UInt8) : Option String := String.fromUTF8? ⟨bytes.toArray⟩

/-- A line that a line feed ends, the last byte first: a carriage return in front of the line feed
does not belong to it. -/
def endedLine : List UInt8 → List UInt8
  | 0x0D :: line => line.reverse
  | line => line.reverse

/-- The lines of a file, where `line` are the bytes read of the first one, the last byte first. -/
def linesFrom (line : List UInt8) : List UInt8 → List (List UInt8)
  | [] => if line.isEmpty then [] else [line.reverse]
  | b :: bs =>
    if b = 0x0A then endedLine line :: linesFrom [] bs else linesFrom (b :: line) bs

/-- The lines of a file, each as its bytes. -/
def lines (bytes : List UInt8) : List (List UInt8) := linesFrom [] bytes

theorem linesFrom_append_feed (line bs rest : List UInt8) (h : 0x0A ∉ bs) :
    linesFrom line (bs ++ 0x0A :: rest) = endedLine (bs.reverse ++ line) :: lines rest := by
  induction bs generalizing line with
  | nil => simp [linesFrom, lines]
  | cons b bs ih =>
    have hb : b ≠ 0x0A := fun e => h (by simp [e])
    simp [linesFrom, hb, ih (b :: line) (fun m => h (List.mem_cons_of_mem b m))]

/-- A line feed ends a line, and the next one starts behind it. -/
theorem lines_append_feed (bs rest : List UInt8) (h : 0x0A ∉ bs) :
    lines (bs ++ 0x0A :: rest) = endedLine bs.reverse :: lines rest := by
  simp [lines, linesFrom_append_feed [] bs rest h]

end TreeMend.Text
