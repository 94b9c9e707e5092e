import Mathlib.Data.List.Basic
import TreeMend.Program.Literal
import TreeMend.Proofs.Text.Words
import TreeMend.Rule.Quotes

/-!
# Reading string literals

How the escapes of a literal are read, one equation for each form, and when a text stands between
quotes.

## Main results

* `Literal.unescapeAfter_plain` and its companions — what a backslash and its followers stand for.
* `Literal.split?_quoted` — a text between two equal quotes is split at them.
* `Quotes.doubleQuoted?_eq_some_iff` — the rule on quotes and the reader of literals agree on what
  stands between double quotes.
-/

namespace TreeMend

namespace Literal

/-! ### Escapes -/

theorem unescape_backslash (cs : List Char) : unescape ('\\' :: cs) = unescapeAfter cs := by
  rw [unescape_cons, if_pos rfl]

theorem unescape_of_ne {c : Char} (h : c ≠ '\\') (cs : List Char) :
    unescape (c :: cs) = c :: unescape cs := by
  rw [unescape_cons, if_neg h]

@[simp] theorem unescapeAfter_nil : unescapeAfter [] = ['\\'] := rfl

theorem unescapeAfter_hex2 (a b : Char) (cs : List Char) :
    unescapeAfter ('x' :: a :: b :: cs) = numericEscape ['\\', 'x'] [a, b] [] ++ unescape cs :=
  rfl

theorem unescapeAfter_hex4 {a : Char} (h : a ≠ '\x7b') (b c d : Char) (cs : List Char) :
    unescapeAfter ('u' :: a :: b :: c :: d :: cs) =
      numericEscape ['\\', 'u'] [a, b, c, d] [] ++ unescape cs := by
  rw [unescapeAfter]
  simpa using h

theorem unescapeAfter_braced (cs : List Char) :
    unescapeAfter ('u' :: '\x7b' :: cs) = unescapeBraced [] cs := rfl

theorem unescapeAfter_zero (cs : List Char) :
    unescapeAfter ('0' :: cs) =
      (if cs.head?.any Char.isDigit then '0' else Char.ofNat 0) :: unescape cs := by
  cases cs with
  | nil => rfl
  | cons d cs => rfl

theorem unescapeAfter_return_feed (cs : List Char) :
    unescapeAfter ('\r' :: '\n' :: cs) = unescape cs := rfl

theorem unescapeAfter_return {cs : List Char} (h : cs.head? ≠ some '\n') :
    unescapeAfter ('\r' :: cs) = unescape cs := by
  rw [unescapeAfter]
  rintro rest rfl
  exact h rfl

theorem unescapeAfter_plain {c : Char} (hx : c ≠ 'x') (hu : c ≠ 'u') (h0 : c ≠ '0')
    (hr : c ≠ '\r') (cs : List Char) :
    unescapeAfter (c :: cs) = plainEscape c ++ unescape cs := by
  rw [unescapeAfter] <;> simp_all

/-- The digits between braces are read up to the closing one. -/
theorem unescapeBraced_append {ds : List Char} (h : '\x7d' ∉ ds) (digits cs : List Char) :
    unescapeBraced digits (ds ++ '\x7d' :: cs) =
      numericEscape ['\\', 'u', '\x7b'] (digits ++ ds) ['\x7d'] ++ unescape cs := by
  induction ds generalizing digits with
  | nil => rw [List.nil_append, unescapeBraced, if_pos rfl, List.append_nil]
  | cons d ds ih =>
    rw [List.mem_cons, not_or] at h
    obtain ⟨hd, hds⟩ := h
    rw [List.cons_append, unescapeBraced, if_neg (Ne.symm hd), ih hds, List.append_assoc]
    rfl

end Literal

/-! ### Quotes -/

namespace Quote

theorem isBlank_char (q : Quote) : Text.isBlank q.char = false := by
  cases q <;> decide

@[simp] theorem ofChar?_char (q : Quote) : ofChar? q.char = some q := by
  cases q <;> decide

end Quote

namespace Literal

/-- A text between two equal quotes is split at them. -/
theorem split?_quoted (q : Quote) (body : List Char) :
    split? (String.ofList (q.char :: body ++ [q.char])) = some (q, body) := by
  unfold split?
  rw [String.toList_ofList, Text.trim_quoted q.isBlank_char q.isBlank_char]
  simp

/-- A text between two equal quotes is a literal. -/
theorem ofSource?_quoted (q : Quote) (body : List Char) :
    ofSource? (String.ofList (q.char :: body ++ [q.char])) =
      some ⟨String.ofList (unescape body), q⟩ := by
  rw [ofSource?, split?_quoted]
  rfl

end Literal

namespace Quotes

/-- What stands between double quotes for the rule does so for the reader. -/
theorem doubleQuoted?_eq_some_iff {text : String} {body : List Char} :
    doubleQuoted? text = some body ↔ Literal.split? text = some (.double, body) := by
  unfold doubleQuoted? Literal.split?
  cases Text.trim text.toList with
  | nil => simp
  | cons c rest =>
    by_cases hdouble : c = '"'
    · subst hdouble
      by_cases hlast : rest.getLast? = some '"' <;> simp [hlast, Quote.ofChar?]
    · by_cases hsingle : c = '\''
      · subst hsingle
        by_cases hlast : rest.getLast? = some '\'' <;> simp [hlast, Quote.ofChar?]
      · simp [hdouble, hsingle, Quote.ofChar?]

end Quotes

end TreeMend
