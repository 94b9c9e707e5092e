import Mathlib.Data.List.TakeDrop
import TreeMend.Json.Printer
import TreeMend.Json.Reader

/-!
# Reading printed strings and numbers

A printed string is read up to its closing quote, whatever follows.  A printed number has no such
end: it is read up to the first character that could not belong to it, so what follows must not go
on with one.

## Main definitions

* `Json.Reader.EndsNumber` — an input that does not go on with a number.
* `Json.Number.IsDecimal` — a number whose digits after the point are digits.

## Main results

* `Json.Reader.stringBody?_quoted` — a printed string is read back.
* `Json.Reader.number?_render` — a printed number is read back.
-/

namespace TreeMend.Json

namespace Reader

/-! ### Strings -/

theorem hexValue?_control :
    ∀ n < 0x20, Text.hexValue? ['0', '0', lowerHexDigit (n / 16), lowerHexDigit (n % 16)] =
      some n := by
  decide

theorem joinUnits_char (c : Char) (ps : List Piece) :
    joinUnits (.char c :: ps) = (joinUnits ps).map (c :: ·) := rfl

/-- A unit below the surrogates is a character by itself. -/
theorem joinUnits_unit {c : Char} (h : c.toNat < 0xD800) (ps : List Piece) :
    joinUnits (.unit c.toNat :: ps) = (joinUnits ps).map (c :: ·) := by
  have hhigh : isHighSurrogate c.toNat = false := by
    simp [isHighSurrogate]
    omega
  have hscalar : Text.scalar? c.toNat = some c := by
    have hvalid : c.toNat.isValidChar := c.valid
    rw [Text.scalar?, if_pos hvalid, Char.ofNat_toNat]
  cases ps with
  | nil => simp [joinUnits, hscalar]
  | cons p ps =>
    cases p with
    | char d => simp [joinUnits, hscalar]
    | unit n => simp [joinUnits, hscalar, hhigh]

/-- The three ways to print a character: by a letter, by its number, or as it is. -/
theorem escapeChar_cases (c : Char) :
    (∃ e, e ≠ 'u' ∧ escapedChar? e = some c ∧ escapeChar c = ['\\', e]) ∨
      (c.toNat < 0x20 ∧ escapeChar c =
        ['\\', 'u', '0', '0', lowerHexDigit (c.toNat / 16), lowerHexDigit (c.toNat % 16)]) ∨
      (c ≠ '"' ∧ c ≠ '\\' ∧ ¬ c.toNat < 0x20 ∧ escapeChar c = [c]) := by
  have hnumber : ∀ {k : Nat}, c.toNat = k → some (Char.ofNat k) = some c := by
    rintro _ rfl
    rw [Char.ofNat_toNat]
  unfold escapeChar
  split
  · next h =>
    subst h
    exact .inl ⟨'"', by decide, rfl, rfl⟩
  split
  · next h =>
    subst h
    exact .inl ⟨'\\', by decide, rfl, rfl⟩
  split
  · next h =>
    subst h
    exact .inl ⟨'n', by decide, rfl, rfl⟩
  split
  · next h =>
    subst h
    exact .inl ⟨'r', by decide, rfl, rfl⟩
  split
  · next h =>
    subst h
    exact .inl ⟨'t', by decide, rfl, rfl⟩
  split
  · next h => exact .inl ⟨'b', by decide, hnumber h, rfl⟩
  split
  · next h => exact .inl ⟨'f', by decide, hnumber h, rfl⟩
  split
  · next h => exact .inr (.inl ⟨h, rfl⟩)
  · next hquote hslash _ _ _ _ _ h => exact .inr (.inr ⟨hquote, hslash, h, rfl⟩)

theorem pieces?_letter {e c : Char} (he : e ≠ 'u') (h : escapedChar? e = some c) (cs : List Char) :
    pieces? ('\\' :: e :: cs) = (pieces? cs).map fun x => (.char c :: x.1, x.2) := by
  rw [pieces?, h]
  · cases pieces? cs <;> rfl
  · rintro _ _ _ _ _ rfl
    exact fun _ => he rfl

theorem pieces?_number {n : Nat} (h : n < 0x20) (cs : List Char) :
    pieces? ('\\' :: 'u' :: '0' :: '0' :: lowerHexDigit (n / 16) :: lowerHexDigit (n % 16) :: cs) =
      (pieces? cs).map fun x => (.unit n :: x.1, x.2) := by
  rw [pieces?, hexValue?_control n h]
  cases pieces? cs <;> rfl

theorem pieces?_raw {c : Char} (hquote : c ≠ '"') (hslash : c ≠ '\\') (h : ¬ c.toNat < 0x20)
    (cs : List Char) : pieces? (c :: cs) = (pieces? cs).map fun x => (.char c :: x.1, x.2) := by
  rw [pieces?]
  · rw [if_neg h]
    cases pieces? cs <;> rfl
  · exact hquote
  · exact fun _ _ _ _ _ h _ => hslash h
  · exact fun _ _ h _ => hslash h

/-- A printed character is read as one element, which denotes it. -/
theorem exists_pieces?_escapeChar (c : Char) :
    ∃ p, (∀ cs, pieces? (escapeChar c ++ cs) = (pieces? cs).map fun x => (p :: x.1, x.2)) ∧
      ∀ ps, joinUnits (p :: ps) = (joinUnits ps).map (c :: ·) := by
  obtain ⟨e, he, hc, hprinted⟩ | ⟨hc, hprinted⟩ | ⟨hquote, hslash, hc, hprinted⟩ :=
    escapeChar_cases c
  · exact ⟨.char c, fun cs => hprinted ▸ pieces?_letter he hc cs, joinUnits_char c⟩
  · exact ⟨.unit c.toNat, fun cs => hprinted ▸ pieces?_number hc cs, joinUnits_unit (by omega)⟩
  · exact ⟨.char c, fun cs => hprinted ▸ pieces?_raw hquote hslash hc cs, joinUnits_char c⟩

/-- A printed text is read up to the closing quote. -/
theorem exists_pieces?_flatMap (text rest : List Char) :
    ∃ ps, pieces? (text.flatMap escapeChar ++ '"' :: rest) = some (ps, rest) ∧
      joinUnits ps = some text := by
  induction text with
  | nil => exact ⟨[], rfl, rfl⟩
  | cons c cs ih =>
    obtain ⟨p, hp, hc⟩ := exists_pieces?_escapeChar c
    obtain ⟨ps, hps, hcs⟩ := ih
    refine ⟨p :: ps, ?_, ?_⟩
    · rw [List.flatMap_cons, List.append_assoc, hp, hps]
      rfl
    · rw [hc, hcs]
      rfl

theorem toList_quoted (s : String) :
    (quoted s).toList = '"' :: (s.toList.flatMap escapeChar ++ ['"']) := by
  simp [quoted, String.toList_append]

/-- A printed string is read back. -/
theorem stringBody?_quoted (s : String) (rest : List Char) :
    stringBody? (s.toList.flatMap escapeChar ++ '"' :: rest) = some (some s, rest) := by
  obtain ⟨ps, hps, htext⟩ := exists_pieces?_flatMap s.toList rest
  simp [stringBody?, hps, htext]

/-! ### Digits -/

/-- The input does not go on with a number. -/
def EndsNumber (cs : List Char) : Prop :=
  ∀ c ∈ cs.head?, c.isDigit = false ∧ c ≠ '.' ∧ c ≠ 'e' ∧ c ≠ 'E'

theorem digits_append {ds rest : List Char} (hds : ∀ d ∈ ds, d.isDigit = true)
    (hrest : ∀ c ∈ rest.head?, c.isDigit = false) : digits (ds ++ rest) = (ds, rest) := by
  have hstop : rest.takeWhile Char.isDigit = [] ∧ rest.dropWhile Char.isDigit = rest := by
    cases rest with
    | nil => exact ⟨rfl, rfl⟩
    | cons c cs =>
      have hc := hrest c rfl
      exact ⟨List.takeWhile_cons_of_neg (by simp [hc]), List.dropWhile_cons_of_neg (by simp [hc])⟩
  rw [digits, List.span_eq_takeWhile_dropWhile, List.takeWhile_append_of_pos hds,
    List.dropWhile_append_of_pos hds, hstop.1, hstop.2, List.append_nil]

theorem decimal_toDigits (n : Nat) : decimal (Nat.toDigits 10 n) = n := by
  have hstep : withDigit = fun acc c => 10 * acc + (c.toNat - '0'.toNat) := by
    funext acc c
    rw [withDigit, Nat.mul_comm]
  rw [decimal, hstep]
  exact Nat.ofDigitChars_ten_toDigits

theorem isDigit_of_mem_toDigits {n : Nat} : ∀ d ∈ Nat.toDigits 10 n, d.isDigit = true :=
  fun _ => Nat.isDigit_of_mem_toDigits (by decide) (by decide)

theorem toDigits_append_ne {c : Char} (hc : c.isDigit = false) (n : Nat) (rest cs : List Char) :
    Nat.toDigits 10 n ++ rest ≠ c :: cs := by
  cases h : Nat.toDigits 10 n with
  | nil => exact absurd h Nat.toDigits_ne_nil
  | cons d ds =>
    have hd : d.isDigit = true := isDigit_of_mem_toDigits d (h ▸ List.mem_cons_self)
    rintro ⟨rfl, -⟩
    exact Bool.noConfusion (hd.symm.trans hc)

/-- Only zero starts with a zero. -/
theorem toDigits_ne_zero_cons {n : Nat} (hn : n ≠ 0) (cs : List Char) :
    Nat.toDigits 10 n ≠ '0' :: cs := by
  induction n using Nat.strongRecOn generalizing cs with
  | ind n ih =>
    by_cases hsmall : n < 10
    · rw [Nat.toDigits_of_lt_base hsmall]
      intro h
      have hzero : ∀ k < 10, k ≠ 0 → k.digitChar ≠ '0' := by decide
      exact hzero n hsmall hn (List.cons.inj h).1
    · rw [Nat.toDigits_of_base_le (by decide) (by omega)]
      cases hfront : Nat.toDigits 10 (n / 10) with
      | nil => exact absurd hfront Nat.toDigits_ne_nil
      | cons d ds =>
        intro h
        obtain ⟨rfl, -⟩ := List.cons.inj h
        exact ih (n / 10) (by omega) (by omega) ds hfront

theorem whole?_toDigits (n : Nat) {rest : List Char}
    (hrest : ∀ c ∈ rest.head?, c.isDigit = false) :
    whole? (Nat.toDigits 10 n ++ rest) = some (n, rest) := by
  by_cases hn : n = 0
  · subst hn
    rfl
  · have hdigits := digits_append (isDigit_of_mem_toDigits (n := n)) hrest
    have hvalue := decimal_toDigits n
    cases h : Nat.toDigits 10 n with
    | nil => exact absurd h Nat.toDigits_ne_nil
    | cons d ds =>
      have hd : d ≠ '0' := by
        rintro rfl
        exact toDigits_ne_zero_cons hn ds h
      rw [h] at hdigits hvalue
      rw [List.cons_append] at hdigits ⊢
      rw [whole?]
      · rw [hdigits]
        simp [hvalue]
      · exact fun _ h => hd (List.cons.inj h).1

/-! ### Numbers -/

/-- The digits after the point as they are printed, point included. -/
def fractionText (fraction : String) : List Char :=
  if fraction = "" then [] else '.' :: fraction.toList

/-- An exponent as it is printed. -/
def exponentText : Option Int → List Char
  | none => []
  | some (.ofNat k) => 'e' :: Nat.toDigits 10 k
  | some (.negSucc k) => 'e' :: '-' :: Nat.toDigits 10 (k + 1)

theorem toList_render (n : Number) :
    n.render.toList = (if n.negative then ['-'] else []) ++
      (Nat.toDigits 10 n.whole ++ (fractionText n.fraction ++ exponentText n.exponent)) := by
  have hsign : (if n.negative then "-" else "").toList = if n.negative then ['-'] else [] := by
    split <;> rfl
  have hfraction : (if n.fraction == "" then "" else "." ++ n.fraction).toList =
      fractionText n.fraction := by
    unfold fractionText
    by_cases h : n.fraction = "" <;> simp [h]
  have hexponent : (n.exponent.elim "" fun e => "e" ++ toString e).toList =
      exponentText n.exponent := by
    cases n.exponent with
    | none => rfl
    | some e =>
      cases e with
      | ofNat k =>
        change ("e" ++ Nat.repr k).toList = _
        simp [Nat.repr_eq_ofList_toDigits, exponentText]
      | negSucc k =>
        change ("e" ++ ("-" ++ Nat.repr (k + 1))).toList = _
        simp [Nat.repr_eq_ofList_toDigits, exponentText]
  rw [Number.render, String.toList_append, String.toList_append, String.toList_append, hsign,
    hfraction, Nat.toString_eq_ofList_toDigits, String.toList_ofList, List.append_assoc,
    List.append_assoc, ← hexponent]
  cases n.exponent <;> rfl

theorem fraction?_fractionText {fraction : String}
    (h : ∀ d ∈ fraction.toList, d.isDigit = true) {rest : List Char}
    (hrest : ∀ c ∈ rest.head?, c.isDigit = false ∧ c ≠ '.') :
    fraction? (fractionText fraction ++ rest) = some (fraction, rest) := by
  unfold fractionText
  split
  · next hempty =>
    subst hempty
    rw [List.nil_append, fraction?]
    exact fun cs h => (hrest '.' (h ▸ rfl)).2 rfl
  · next hfraction =>
    have hdigits := digits_append h fun c hc => (hrest c hc).1
    rw [List.cons_append, fraction?, hdigits]
    cases hds : fraction.toList with
    | nil => exact absurd (String.toList_eq_nil_iff.mp hds) hfraction
    | cons d ds => simp [← hds]

theorem exponentDigits?_toDigits (negative : Bool) (k : Nat) {rest : List Char}
    (hrest : ∀ c ∈ rest.head?, c.isDigit = false) :
    exponentDigits? negative (Nat.toDigits 10 k ++ rest) =
      some (some (if negative then -(k : Int) else k), rest) := by
  have hdigits := digits_append (isDigit_of_mem_toDigits (n := k)) hrest
  have hvalue := decimal_toDigits k
  rw [exponentDigits?, hdigits]
  cases hds : Nat.toDigits 10 k with
  | nil => exact absurd hds Nat.toDigits_ne_nil
  | cons d ds =>
    rw [hds] at hvalue
    simp [hvalue]

theorem exponent?_exponentText (exponent : Option Int) {rest : List Char}
    (hrest : ∀ c ∈ rest.head?, c.isDigit = false ∧ c ≠ 'e' ∧ c ≠ 'E') :
    exponent? (exponentText exponent ++ rest) = some (exponent, rest) := by
  have hdigits : ∀ c ∈ rest.head?, c.isDigit = false := fun c hc => (hrest c hc).1
  match exponent with
  | none =>
    cases rest with
    | nil => rfl
    | cons c cs =>
      obtain ⟨-, hlower, hupper⟩ := hrest c rfl
      change exponent? (c :: cs) = _
      simp [exponent?, hlower, hupper]
  | some (.ofNat k) =>
    rw [exponentText, List.cons_append, exponent?]
    · exact exponentDigits?_toDigits false k hdigits
    · exact toDigits_append_ne (by decide) k rest
    · exact toDigits_append_ne (by decide) k rest
  | some (.negSucc k) =>
    exact exponentDigits?_toDigits true (k + 1) hdigits

/-- What follows the digits after the point does not go on with them. -/
theorem head_exponentText {rest : List Char} (hrest : EndsNumber rest) (exponent : Option Int) :
    ∀ c ∈ (exponentText exponent ++ rest).head?, c.isDigit = false ∧ c ≠ '.' := by
  match exponent with
  | none => exact fun c hc => ⟨(hrest c hc).1, (hrest c hc).2.1⟩
  | some (.ofNat k) =>
    intro c hc
    obtain rfl := Option.some.inj hc
    decide
  | some (.negSucc k) =>
    intro c hc
    obtain rfl := Option.some.inj hc
    decide

/-- What follows the digits before the point does not go on with them. -/
theorem head_fractionText {rest : List Char} (hrest : EndsNumber rest) (fraction : String)
    (exponent : Option Int) :
    ∀ c ∈ (fractionText fraction ++ (exponentText exponent ++ rest)).head?, c.isDigit = false := by
  unfold fractionText
  split
  · exact fun c hc => (head_exponentText hrest exponent c hc).1
  · intro c hc
    obtain rfl := Option.some.inj hc
    decide

end Reader

/-- The digits after the point are digits. -/
def Number.IsDecimal (n : Number) : Prop := ∀ d ∈ n.fraction.toList, d.isDigit = true

namespace Reader

/-- A printed number starts with its sign or with a digit. -/
theorem exists_render_eq_cons (n : Number) :
    ∃ c cs, n.render.toList = c :: cs ∧ (c = '-' ∨ c.isDigit = true) := by
  rw [toList_render]
  cases n.negative with
  | true => exact ⟨'-', _, rfl, .inl rfl⟩
  | false =>
    cases h : Nat.toDigits 10 n.whole with
    | nil => exact absurd h Nat.toDigits_ne_nil
    | cons d ds => exact ⟨d, _, rfl, .inr (isDigit_of_mem_toDigits d (h ▸ List.mem_cons_self))⟩

/-- A printed number is read back. -/
theorem number?_render {n : Number} (h : n.IsDecimal) {rest : List Char}
    (hrest : EndsNumber rest) : number? (n.render.toList ++ rest) = some (n, rest) := by
  have hexponent := exponent?_exponentText n.exponent
    fun c hc => ⟨(hrest c hc).1, (hrest c hc).2.2⟩
  have hfraction := fraction?_fractionText h (head_exponentText hrest n.exponent)
  have hwhole := whole?_toDigits n.whole (head_fractionText hrest n.fraction n.exponent)
  have hunsigned : ∀ negative, unsigned? negative (Nat.toDigits 10 n.whole ++
      (fractionText n.fraction ++ (exponentText n.exponent ++ rest))) =
        some ({ n with negative }, rest) := by
    intro negative
    simp [unsigned?, hwhole, hfraction, hexponent]
  rw [toList_render]
  simp only [List.append_assoc]
  cases hsign : n.negative with
  | false =>
    rw [if_neg Bool.false_ne_true, List.nil_append, number?]
    · rw [hunsigned, ← hsign]
    · exact toDigits_append_ne (by decide) n.whole _
  | true =>
    rw [if_pos rfl, List.cons_append, List.nil_append, number?, hunsigned, ← hsign]

end Reader

end TreeMend.Json
