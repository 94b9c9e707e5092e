import TreeMend.Proofs.Literal.RoundTrip

/-!
# Literals in single quotes

The rule on quotes gives a new text to the literals that are read as standing in double quotes.
What it adds are backslashes before apostrophes, and none of them gets between the parts of an
escape sequence.  So a literal that is valid by the grammar stays valid in its new quotes, and
spells the same code points.

## Main definitions

* `Literal.HasValue` — a text is a valid literal in the given quotes, with the given code units.

## Main results

* `Literal.Spells.requoted` — what a text spells between double quotes it spells, with its
  apostrophes escaped, between single ones.
* `Quotes.replacement_hasValue` — **new quotes keep the value**, and they are given to the literals
  in double quotes only.
-/

namespace TreeMend

namespace Literal

open Quotes (escapeApostrophes)

/-- The text is a valid literal in the quotes, and its value is the sequence of code units. -/
def HasValue (q : Quote) (text : List Char) (units : List Nat) : Prop :=
  ∃ body ps, text = q.char :: body ++ [q.char] ∧ Spells q body ps ∧ valueOf ps = units

/-- A valid literal has one value. -/
theorem HasValue.unique {q : Quote} {text : List Char} {units units' : List Nat}
    (h : HasValue q text units) (h' : HasValue q text units') : units = units' := by
  obtain ⟨body, ps, rfl, hbody, rfl⟩ := h
  obtain ⟨body', ps', htext, hbody', rfl⟩ := h'
  obtain rfl : body = body' := List.append_cancel_right (List.cons.inj htext).2
  rw [hbody.unique hbody']

/-- Escaping apostrophes puts no line feed in front. -/
theorem head?_escapeApostrophes_ne_feed {cs : List Char} (h : cs.head? ≠ some '\n') :
    (escapeApostrophes cs).head? ≠ some '\n' := by
  rw [head?_escapeApostrophes]
  split
  · decide
  · exact h

/-- What a text spells between double quotes it spells, with its apostrophes escaped, between
single ones. -/
theorem Spells.requoted {body : List Char} {ps : List Nat} (h : Spells .double body ps) :
    Spells .single (escapeApostrophes body) ps := by
  induction h with
  | nil => exact .nil
  | @plain c cs ps hquote hescape hfeed hreturn hcs ih =>
    by_cases ha : c = '\''
    · -- the one character that may stand raw between double quotes only
      subst ha
      rw [escapeApostrophes_apostrophe]
      exact .escape (by decide) (by decide) (by decide) (by decide) ih
    · rw [escapeApostrophes_of_ne hescape ha]
      exact .plain ha hescape hfeed hreturn ih
  | escape hdigit hx hu hline hcs ih =>
    rw [escapeApostrophes_escape]
    exact .escape hdigit hx hu hline ih
  | @zero cs ps hnext hcs ih =>
    rw [escapeApostrophes_escape]
    exact .zero ((any_isDigit_head?_escapeApostrophes cs).trans hnext) ih
  | @hex2 a b cs p ps hp hcs ih =>
    have hdigits := escapeApostrophes_digits hp.isHexDigit cs
    simp only [List.cons_append, List.nil_append] at hdigits
    rw [escapeApostrophes_escape, hdigits]
    exact .hex2 hp ih
  | @hex4 a b c d cs p ps hp hcs ih =>
    have hdigits := escapeApostrophes_digits hp.isHexDigit cs
    simp only [List.cons_append, List.nil_append] at hdigits
    rw [escapeApostrophes_escape, hdigits]
    exact .hex4 hp ih
  | @braced ds cs rest p ps hp hmax hrest hcs ih =>
    rw [escapeApostrophes_escape, escapeApostrophes_of_ne (by decide) (by decide), hrest,
      escapeApostrophes_digits hp.isHexDigit, escapeApostrophes_of_ne (by decide) (by decide)]
    exact .braced hp hmax rfl ih
  | continued hline hreturn hcs ih =>
    rw [escapeApostrophes_escape]
    exact .continued hline (fun hr => head?_escapeApostrophes_ne_feed (hreturn hr)) ih
  | continuedReturnFeed hcs ih =>
    rw [escapeApostrophes_escape, escapeApostrophes_of_ne (by decide) (by decide)]
    exact .continuedReturnFeed ih

end Literal

/-! ### The rule -/

namespace Quotes

open Literal (HasValue closed?)

variable {n : Node}

/-- New quotes are given to the literals that stand in double quotes. -/
theorem isSome_replacement_iff (hkind : n.kind = Kind.stringLiteral) :
    (replacement n).isSome ↔ ∃ l, Literal.ofSource? n.text = some l ∧ l.quote = .double := by
  rw [replacement, hkind, beq_self_eq_true, if_pos rfl, Option.isSome_map]
  constructor
  · intro h
    obtain ⟨body, hbody⟩ := Option.isSome_iff_exists.mp h
    refine ⟨⟨String.ofList (Literal.unescape body), .double⟩, ?_, rfl⟩
    rw [Literal.ofSource?, doubleQuoted?_eq_some_iff.mp hbody]
    rfl
  · rintro ⟨l, hl, hquote⟩
    obtain ⟨⟨q, body⟩, hsplit, rfl⟩ := Option.map_eq_some_iff.mp hl
    obtain rfl : q = .double := hquote
    rw [doubleQuoted?_eq_some_iff.mpr hsplit]
    rfl

/-- A text between double quotes stands between single ones, with its apostrophes escaped. -/
theorem replacement_of_doubleQuoted (hkind : n.kind = Kind.stringLiteral) {body : List Char}
    (h : Text.trim n.text.toList = '"' :: body ++ ['"']) :
    replacement n = some (String.ofList ('\'' :: escapeApostrophes body ++ ['\''])) := by
  have hbody : doubleQuoted? n.text = some body := by
    simp [doubleQuoted?, h]
  rw [replacement, hkind, beq_self_eq_true, if_pos rfl, hbody]
  rfl

/-- **New quotes keep the value.**  A string literal gets a new text exactly if it is read as one in
double quotes.  Where its text, without the blanks around it, is a valid literal in double quotes,
the new one is a valid literal in single quotes, with the same code units as its value, and the
first apostrophe behind the opening one that is not escaped is its last character. -/
theorem replacement_hasValue (hkind : n.kind = Kind.stringLiteral) :
    ((replacement n).isSome ↔ ∃ l, Literal.ofSource? n.text = some l ∧ l.quote = .double) ∧
      ∀ units, HasValue .double (Text.trim n.text.toList) units →
        ∃ body, replacement n = some (String.ofList ('\'' :: body ++ ['\''])) ∧
          closed? .single (body ++ ['\'']) = some (body, []) ∧
          ∀ units', HasValue .single ('\'' :: body ++ ['\'']) units' ↔ units' = units := by
  refine ⟨isSome_replacement_iff hkind, ?_⟩
  rintro units ⟨body, ps, htext, hbody, rfl⟩
  have hsingle := hbody.requoted
  refine ⟨escapeApostrophes body, replacement_of_doubleQuoted hkind htext,
    Literal.closed?_of_spells hsingle [], ?_⟩
  have hvalue : HasValue .single ('\'' :: escapeApostrophes body ++ ['\'']) (Literal.valueOf ps) :=
    ⟨escapeApostrophes body, ps, rfl, hsingle, rfl⟩
  intro units'
  constructor
  · intro h
    exact h.unique hvalue
  · rintro rfl
    exact hvalue

/-- Apostrophes and quotation marks with and without a backslash, a number, and blanks around. -/
theorem replacement_hasValue_mixed :
    ∃ body, replacement ⟨Kind.stringLiteral, " \"'\\'\\\"\\x41\\\\\"\n", {}, []⟩ =
        some (String.ofList ('\'' :: body ++ ['\''])) ∧
      closed? .single (body ++ ['\'']) = some (body, []) ∧
      ∀ units', HasValue .single ('\'' :: body ++ ['\'']) units' ↔
        units' = [0x27, 0x27, 0x22, 0x41, 0x5C] := by
  refine (replacement_hasValue rfl).2 [0x27, 0x27, 0x22, 0x41, 0x5C] ?_
  refine ⟨['\'', '\\', '\'', '\\', '"', '\\', 'x', '4', '1', '\\', '\\'],
    [0x27, 0x27, 0x22, 0x41, 0x5C], by decide, ?_, by decide⟩
  refine .plain (by decide) (by decide) (by decide) (by decide) ?_
  refine .escape (by decide) (by decide) (by decide) (by decide) ?_
  refine .escape (by decide) (by decide) (by decide) (by decide) ?_
  refine .hex2 (Literal.numeral_upper (List.cons_ne_nil 4 [1]) (by decide) rfl) ?_
  exact .escape (by decide) (by decide) (by decide) (by decide) .nil

end Quotes

end TreeMend
