import Mathlib.Algebra.Ring.Parity
import Mathlib.Data.List.DropRight
import TreeMend.Proofs.Literal.RoundTrip

/-!
# Written literals are closed and on one line

A backslash escapes the character behind it unless it is escaped itself, so a character is escaped
if the run of backslashes in front of it has an odd length.  This is a rule about the text as it
stands; the cut that `Literal.closed?` finds from left to right agrees with it.  In a literal that
is written every quote but the last is escaped, and no character breaks or controls a line.

## Main definitions

* `Literal.Escapes` — a text ends with a backslash that escapes what comes next.
* `Text.StaysOnLine` — a character that is no control character and separates no lines.

## Main results

* `Literal.escapes_concat` — the rule, one character at a time.
* `Literal.escapes_of_closed?` — the cut at the first quote that is not escaped.
* `Literal.escapes_render_iff` — of the quotes in a written literal the last one is not escaped.
* `Literal.staysOnLine_render` — a written literal stays on its line.
-/

namespace TreeMend

/-- A character that is no control character and separates neither lines nor paragraphs. -/
def Text.StaysOnLine (c : Char) : Prop :=
  Text.isControl c = false ∧ c.toNat ≠ 0x2028 ∧ c.toNat ≠ 0x2029

instance (c : Char) : Decidable (Text.StaysOnLine c) :=
  inferInstanceAs (Decidable (_ ∧ _ ∧ _))

namespace Literal

/-! ### Escaped characters -/

/-- The text ends with a backslash that escapes what comes next: the backslashes at its end are odd
in number. -/
def Escapes (before : List Char) : Prop := Odd (before.rtakeWhile (· = '\\')).length

/-- A backslash escapes what comes next unless it is escaped itself. -/
theorem escapes_concat (before : List Char) (c : Char) :
    Escapes (before ++ [c]) ↔ c = '\\' ∧ ¬ Escapes before := by
  unfold Escapes
  rw [List.rtakeWhile_concat]
  by_cases hc : c = '\\'
  · simp [hc, Nat.odd_add_one]
  · simp [hc]

theorem not_escapes_concat {before : List Char} {c : Char} (hc : c ≠ '\\') :
    ¬ Escapes (before ++ [c]) := by
  rw [escapes_concat]
  exact fun h => hc h.1

theorem not_escapes_pair {before : List Char} (h : ¬ Escapes before) (c : Char) :
    ¬ Escapes (before ++ ['\\', c]) := by
  have hfirst : Escapes (before ++ ['\\']) := (escapes_concat before '\\').mpr ⟨rfl, h⟩
  have hsplit : before ++ ['\\', c] = (before ++ ['\\']) ++ [c] := by simp
  rw [hsplit, escapes_concat]
  exact fun hboth => hboth.2 hfirst

/-- The cut at the first quote that is not escaped: that quote is not, those in front of it are. -/
theorem escapes_of_closed? {q : Quote} {cs body rest front : List Char}
    (h : closed? q cs = some (body, rest)) (hfront : ¬ Escapes front) :
    cs = body ++ q.char :: rest ∧ ¬ Escapes (front ++ body) ∧
      ∀ before after, body = before ++ q.char :: after → Escapes (front ++ before) := by
  fun_induction closed? q cs generalizing body rest front with
  | case1 => simp at h
  | case2 c cs ih =>
    obtain ⟨⟨inner, rest'⟩, hinner, heq⟩ := Option.map_eq_some_iff.mp h
    obtain ⟨rfl, rfl⟩ := Prod.mk.inj heq
    -- a pair that hides its second character, whatever that is
    obtain ⟨hsplit, hend, hquotes⟩ := ih hinner (not_escapes_pair hfront c)
    refine ⟨by rw [hsplit]; rfl, by simpa using hend, ?_⟩
    intro before after hbody
    match before with
    | [] =>
      obtain ⟨hquote, -⟩ := List.cons.inj hbody
      cases q <;> exact absurd hquote (by decide)
    | [b] =>
      obtain ⟨rfl, -⟩ := List.cons.inj hbody
      exact (escapes_concat front '\\').mpr ⟨rfl, hfront⟩
    | b :: d :: before =>
      obtain ⟨hb, htail⟩ := List.cons.inj hbody
      obtain ⟨hd, hinner⟩ := List.cons.inj htail
      rw [← hb, ← hd]
      simpa using hquotes before after hinner
  | case3 cs hpair =>
    obtain ⟨rfl, rfl⟩ := Prod.mk.inj (Option.some.inj h)
    refine ⟨rfl, by simpa using hfront, ?_⟩
    intro before after hbody
    simp at hbody
  | case4 c cs hpair hc ih =>
    obtain ⟨⟨inner, rest'⟩, hinner, heq⟩ := Option.map_eq_some_iff.mp h
    obtain ⟨rfl, rfl⟩ := Prod.mk.inj heq
    have hplain : c ≠ '\\' := by
      rintro rfl
      cases cs with
      | nil => simp [closed?] at hinner
      | cons d cs => exact hpair d cs rfl rfl
    obtain ⟨hsplit, hend, hquotes⟩ := ih hinner (not_escapes_concat hplain)
    refine ⟨by rw [hsplit]; rfl, by simpa using hend, ?_⟩
    intro before after hbody
    cases before with
    | nil =>
      obtain ⟨hquote, -⟩ := List.cons.inj hbody
      exact absurd hquote hc
    | cons b before =>
      obtain ⟨hb, hinner⟩ := List.cons.inj hbody
      rw [← hb]
      simpa using hquotes before after hinner

/-- Of the quotes behind the opening one in a written literal, the last one is not escaped, and the
others are. -/
theorem escapes_render_iff (l : Literal) {before after : List Char}
    (h : l.render.toList = l.quote.char :: before ++ l.quote.char :: after) :
    Escapes (l.quote.char :: before) ↔ after ≠ [] := by
  have hopening : ¬ Escapes [l.quote.char] := by
    have hquote : l.quote.char ≠ '\\' := by cases l.quote <;> decide
    exact @not_escapes_concat [] _ hquote
  obtain ⟨-, hend, hquotes⟩ :=
    escapes_of_closed? (closed?_of_spells (spells_escape l.quote l.value.toList) []) hopening
  rw [toList_render, List.cons_append, List.cons.injEq] at h
  have hbody := h.2
  rcases List.eq_nil_or_concat after with rfl | ⟨after, c, rfl⟩
  · obtain ⟨rfl, -⟩ := List.append_inj' hbody rfl
    simpa using hend
  · rw [List.concat_eq_append, ← List.cons_append, ← List.append_assoc] at hbody
    obtain ⟨hbody, -⟩ := List.append_inj' hbody rfl
    simpa using hquotes before after hbody

/-! ### Characters -/

theorem staysOnLine_upperHexDigit {d : Nat} (h : d < 16) :
    Text.StaysOnLine (Text.upperHexDigit d) := by
  revert d
  decide

theorem staysOnLine_hex4 (n : Nat) : ∀ c ∈ Text.hex4 n, Text.StaysOnLine c := by
  intro c hc
  simp only [Text.hex4, List.mem_cons, List.not_mem_nil, or_false] at hc
  rcases hc with rfl | rfl | rfl | rfl
  all_goals exact staysOnLine_upperHexDigit (Nat.mod_lt _ (by decide))

theorem staysOnLine_quote (q : Quote) : Text.StaysOnLine q.char := by
  cases q <;> decide

/-- A character is written in characters that stay on the line. -/
theorem staysOnLine_escapeChar (q : Quote) (d : Char) (next : Option Char) :
    ∀ c ∈ escapeChar q d next, Text.StaysOnLine c := by
  fun_cases escapeChar q d next with
  | case12 _ _ _ _ _ _ _ _ _ _ hquote =>
    subst hquote
    intro c hc
    simp only [List.mem_cons, List.not_mem_nil, or_false] at hc
    rcases hc with rfl | rfl
    · decide
    · exact staysOnLine_quote q
  | case13 =>
    intro c hc
    simp only [List.cons_append, List.nil_append, List.mem_cons] at hc
    rcases hc with rfl | rfl | hc
    · decide
    · decide
    · exact staysOnLine_hex4 d.toNat c hc
  | case14 _ _ _ _ _ _ _ _ hline hparagraph _ hcontrol =>
    intro c hc
    obtain rfl := List.mem_singleton.mp hc
    exact ⟨Bool.eq_false_iff.mpr hcontrol, hline, hparagraph⟩
  | _ =>
    -- the characters with an escape of their own, each written out
    simp only [List.forall_mem_cons, List.not_mem_nil, false_implies, implies_true]
    decide

theorem staysOnLine_escape (q : Quote) (cs : List Char) :
    ∀ c ∈ escape q cs, Text.StaysOnLine c := by
  induction cs with
  | nil => simp
  | cons d cs ih =>
    intro c hc
    rw [escape_cons] at hc
    rcases List.mem_append.mp hc with hc | hc
    · exact staysOnLine_escapeChar q d cs.head? c hc
    · exact ih c hc

/-- A written literal stays on its line. -/
theorem staysOnLine_render (l : Literal) : ∀ c ∈ l.render.toList, Text.StaysOnLine c := by
  intro c hc
  simp only [toList_render, List.mem_cons, List.mem_append, List.not_mem_nil, or_false] at hc
  rcases hc with rfl | hc | rfl
  · exact staysOnLine_quote l.quote
  · exact staysOnLine_escape l.quote l.value.toList c hc
  · exact staysOnLine_quote l.quote

end Literal

end TreeMend
