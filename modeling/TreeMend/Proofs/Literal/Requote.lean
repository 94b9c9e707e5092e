import TreeMend.Proofs.Literal.Reading

/-!
# Changing the quotes of a literal

The rule on quotes escapes apostrophes and leaves escape sequences alone, without knowing how long
they are.  That is right as long as the numeric escapes have the digits they need: an incomplete
one swallows whatever follows, an apostrophe or the backslash put before it included.

## Main definitions

* `Literal.WellEscaped` — every numeric escape of a text between quotes is complete.

## Main results

* `Literal.unescape_escapeApostrophes` — escaping apostrophes does not change the value.
* `Quotes.ofSource?_replacement` — a literal with new quotes has the value that it had.
-/

namespace TreeMend

namespace Literal

/-- The character is a hexadecimal digit. -/
def IsHexDigit (c : Char) : Prop := (Text.hexDigit? c).isSome = true

instance (c : Char) : Decidable (IsHexDigit c) :=
  inferInstanceAs (Decidable ((Text.hexDigit? c).isSome = true))

/-- The text between quotes has complete numeric escapes only: two digits after `\x`, four after
`\u`, or one or more in braces. -/
inductive WellEscaped : List Char → Prop
  /-- Nothing is left. -/
  | nil : WellEscaped []
  /-- A character that starts no escape. -/
  | plain {c : Char} {cs : List Char} (hc : c ≠ '\\') (hcs : WellEscaped cs) : WellEscaped (c :: cs)
  /-- A backslash at the very end. -/
  | lone : WellEscaped ['\\']
  /-- An escape that is not numeric. -/
  | simple {c : Char} {cs : List Char} (hx : c ≠ 'x') (hu : c ≠ 'u') (hcs : WellEscaped cs) :
      WellEscaped ('\\' :: c :: cs)
  /-- Two digits. -/
  | hex2 {a b : Char} {cs : List Char} (ha : IsHexDigit a) (hb : IsHexDigit b)
      (hcs : WellEscaped cs) : WellEscaped ('\\' :: 'x' :: a :: b :: cs)
  /-- Four digits. -/
  | hex4 {a b c d : Char} {cs : List Char} (ha : IsHexDigit a) (hb : IsHexDigit b)
      (hc : IsHexDigit c) (hd : IsHexDigit d) (hcs : WellEscaped cs) :
      WellEscaped ('\\' :: 'u' :: a :: b :: c :: d :: cs)
  /-- Digits in braces. -/
  | braced {ds cs : List Char} (hne : ds ≠ []) (hds : ∀ d ∈ ds, IsHexDigit d)
      (hcs : WellEscaped cs) : WellEscaped ('\\' :: 'u' :: '\x7b' :: (ds ++ '\x7d' :: cs))

/-! ### Escaping apostrophes -/

open Quotes (escapeApostrophes)

theorem escapeApostrophes_escape (c : Char) (cs : List Char) :
    escapeApostrophes ('\\' :: c :: cs) = '\\' :: c :: escapeApostrophes cs := by
  rw [escapeApostrophes]

theorem escapeApostrophes_apostrophe (cs : List Char) :
    escapeApostrophes ('\'' :: cs) = '\\' :: '\'' :: escapeApostrophes cs := by
  rw [escapeApostrophes] <;> simp

theorem escapeApostrophes_of_ne {c : Char} (hb : c ≠ '\\') (ha : c ≠ '\'') (cs : List Char) :
    escapeApostrophes (c :: cs) = c :: escapeApostrophes cs := by
  rw [escapeApostrophes] <;> simp_all

theorem IsHexDigit.ne_of_hexDigit?_eq_none {c d : Char} (hc : IsHexDigit c)
    (hd : Text.hexDigit? d = none) : c ≠ d := by
  rintro rfl
  rw [IsHexDigit, hd] at hc
  cases hc

theorem IsHexDigit.ne_backslash {c : Char} (hc : IsHexDigit c) : c ≠ '\\' :=
  hc.ne_of_hexDigit?_eq_none (by decide)

theorem IsHexDigit.ne_apostrophe {c : Char} (hc : IsHexDigit c) : c ≠ '\'' :=
  hc.ne_of_hexDigit?_eq_none (by decide)

/-- Digits hold nothing to escape. -/
theorem escapeApostrophes_digit {c : Char} (hc : IsHexDigit c) (cs : List Char) :
    escapeApostrophes (c :: cs) = c :: escapeApostrophes cs :=
  escapeApostrophes_of_ne hc.ne_backslash hc.ne_apostrophe cs

theorem escapeApostrophes_digits {ds : List Char} (hds : ∀ d ∈ ds, IsHexDigit d)
    (cs : List Char) : escapeApostrophes (ds ++ cs) = ds ++ escapeApostrophes cs := by
  induction ds with
  | nil => rfl
  | cons d ds ih =>
    rw [List.cons_append, escapeApostrophes_digit (hds d List.mem_cons_self),
      ih fun e he => hds e (List.mem_cons_of_mem d he)]
    rfl

/-- The escaped text starts with the character that the text starts with, or with the backslash
put before an apostrophe. -/
theorem head?_escapeApostrophes (cs : List Char) :
    (escapeApostrophes cs).head? = if cs.head? = some '\'' then some '\\' else cs.head? := by
  match cs with
  | [] => rfl
  | ['\\'] => rfl
  | '\\' :: c :: cs => rw [escapeApostrophes_escape]; rfl
  | c :: cs =>
    by_cases hb : c = '\\'
    · subst hb
      cases cs with
      | nil => rfl
      | cons c cs => rw [escapeApostrophes_escape]; rfl
    · by_cases ha : c = '\''
      · subst ha
        rw [escapeApostrophes_apostrophe]; rfl
      · rw [escapeApostrophes_of_ne hb ha]
        simp [ha]

/-- Whether a digit follows does not change. -/
theorem any_isDigit_head?_escapeApostrophes (cs : List Char) :
    (escapeApostrophes cs).head?.any Char.isDigit = cs.head?.any Char.isDigit := by
  rw [head?_escapeApostrophes]
  split
  · next h => rw [h]; decide
  · rfl

/-- What a backslash before `c` and the rest stand for, when `c` starts no numeric escape. -/
theorem unescapeAfter_escapeApostrophes {c : Char} (hx : c ≠ 'x') (hu : c ≠ 'u')
    {cs : List Char} (h : unescape (escapeApostrophes cs) = unescape cs) :
    unescapeAfter (c :: escapeApostrophes cs) = unescapeAfter (c :: cs) := by
  by_cases h0 : c = '0'
  · subst h0
    rw [unescapeAfter_zero, unescapeAfter_zero, any_isDigit_head?_escapeApostrophes, h]
  by_cases hr : c = '\r'
  · subst hr
    -- a carriage return takes a following line feed with it
    by_cases hfeed : cs.head? = some '\n'
    · obtain ⟨rest, rfl⟩ : ∃ rest, cs = '\n' :: rest := by
        cases cs with
        | nil => cases hfeed
        | cons d rest => exact ⟨rest, by rw [Option.some.inj hfeed]⟩
      rw [escapeApostrophes_of_ne (by decide) (by decide)] at h ⊢
      rw [unescape_of_ne (by decide), unescape_of_ne (by decide)] at h
      rw [unescapeAfter_return_feed, unescapeAfter_return_feed]
      exact (List.cons.inj h).2
    · have hfeed' : (escapeApostrophes cs).head? ≠ some '\n' := by
        rw [head?_escapeApostrophes]
        split
        · decide
        · exact hfeed
      rw [unescapeAfter_return hfeed, unescapeAfter_return hfeed', h]
  · rw [unescapeAfter_plain hx hu h0 hr, unescapeAfter_plain hx hu h0 hr, h]

/-- Escaping the apostrophes of a text with complete escapes does not change its value. -/
theorem unescape_escapeApostrophes {body : List Char} (h : WellEscaped body) :
    unescape (escapeApostrophes body) = unescape body := by
  induction h with
  | nil => rfl
  | lone => rfl
  | @plain c cs hc hcs ih =>
    by_cases ha : c = '\''
    · subst ha
      rw [escapeApostrophes_apostrophe, unescape_backslash, unescape_of_ne (by decide),
        unescapeAfter_plain (by decide) (by decide) (by decide) (by decide), ih]
      rfl
    · rw [escapeApostrophes_of_ne hc ha, unescape_of_ne hc, unescape_of_ne hc, ih]
  | @simple c cs hx hu hcs ih =>
    rw [escapeApostrophes_escape, unescape_backslash, unescape_backslash,
      unescapeAfter_escapeApostrophes hx hu ih]
  | @hex2 a b cs ha hb hcs ih =>
    rw [escapeApostrophes_escape, escapeApostrophes_digit ha, escapeApostrophes_digit hb,
      unescape_backslash, unescape_backslash, unescapeAfter_hex2, unescapeAfter_hex2, ih]
  | @hex4 a b c d cs ha hb hc hd hcs ih =>
    have hbrace : a ≠ '\x7b' := ha.ne_of_hexDigit?_eq_none (by decide)
    rw [escapeApostrophes_escape, escapeApostrophes_digit ha, escapeApostrophes_digit hb,
      escapeApostrophes_digit hc, escapeApostrophes_digit hd, unescape_backslash,
      unescape_backslash, unescapeAfter_hex4 hbrace, unescapeAfter_hex4 hbrace, ih]
  | @braced ds cs hne hds hcs ih =>
    have hclose : '\x7d' ∉ ds := fun hmem =>
      (hds _ hmem).ne_of_hexDigit?_eq_none (by decide) rfl
    rw [escapeApostrophes_escape, escapeApostrophes_of_ne (by decide) (by decide),
      escapeApostrophes_digits hds, escapeApostrophes_of_ne (by decide) (by decide),
      unescape_backslash, unescape_backslash, unescapeAfter_braced, unescapeAfter_braced,
      unescapeBraced_append hclose, unescapeBraced_append hclose, ih]

end Literal

/-! ### New quotes -/

namespace Quotes

/-- A literal with new quotes is the literal that it was, in single quotes. -/
theorem ofSource?_replacement {n : Node} {t : String} (h : replacement n = some t)
    (hbody : ∀ body, doubleQuoted? n.text = some body → Literal.WellEscaped body) :
    ∃ l, Literal.ofSource? n.text = some l ∧
      Literal.ofSource? t = some { l with quote := .single } := by
  unfold replacement at h
  split at h
  · obtain ⟨body, hdouble, rfl⟩ := Option.map_eq_some_iff.mp h
    refine ⟨⟨String.ofList (Literal.unescape body), .double⟩, ?_, ?_⟩
    · rw [Literal.ofSource?, doubleQuoted?_eq_some_iff.mp hdouble]
      rfl
    · have hread := Literal.ofSource?_quoted .single (escapeApostrophes body)
      rw [Literal.unescape_escapeApostrophes (hbody body hdouble)] at hread
      exact hread
  · cases h

/-- A string literal that gets no new quotes is in single quotes already, or is no literal. -/
theorem quote_of_replacement_eq_none {n : Node} (hkind : n.kind = Kind.stringLiteral)
    (h : replacement n = none) {l : Literal} (hl : Literal.ofSource? n.text = some l) :
    l.quote = .single := by
  rw [replacement, hkind, beq_self_eq_true, if_pos rfl, Option.map_eq_none_iff] at h
  obtain ⟨⟨q, body⟩, hsplit, rfl⟩ := Option.map_eq_some_iff.mp hl
  cases q with
  | single => rfl
  | double =>
    rw [doubleQuoted?_eq_some_iff.mpr hsplit] at h
    cases h

end Quotes

end TreeMend
