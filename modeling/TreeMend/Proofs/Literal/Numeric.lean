import Mathlib.Data.List.TakeWhile
import TreeMend.Proofs.Literal.Regenerated

/-!
# Numeric escapes, complete and not

An escape may name a character by the digits of its code point, in one of three forms.  Each form
takes a stretch of what follows for the digits, whatever stands there: two characters, four, or all
up to a closing brace.  The escape stands for the character if the stretch holds its digits, and
otherwise for itself.

So escapes that are not complete should be kept as they are written.  There are two exceptions.  A
plus sign may take the place of the first digit, and braces that are not closed count as closed at
the end of the text, where an escape that is kept gains the brace that it lacks.

## Main definitions

* `NumericForm` — the three forms.
* `NumericForm.Complete` — a text starts with the digits that a form asks for.
* `NumericForm.Decodes`, `NumericForm.Keeps` — an escape stands for a character, for itself.
* `NumericForm.Names`, `NumericForm.NamesSigned` — the digits of a character, bare or signed.

## Main results

* `NumericForm.decodes_of_names`, `NumericForm.unescape_of_nameless` — what an escape stands for.
* `NumericForm.complete_iff` — completeness by the stretch that is taken for the digits.
* `NumericForm.decodes_iff` — **which numeric escapes are decoded, what becomes of the others, and
  when only complete ones are decoded and all others kept**.
* `NumericForm.malformed_not_kept` — a sign and braces that are not closed.
-/

namespace TreeMend.Literal

/-! ### Digits as they are read -/

theorem isDigitOf_of_hexDigit? {c : Char} {v : Nat} (h : Text.hexDigit? c = some v) :
    IsDigitOf c v := by
  have hdecimal : ∀ i : Fin 10,
      hexDigits[i.val]? = some (Char.ofNat (48 + i), Char.ofNat (48 + i)) := by decide
  have hletter : ∀ i : Fin 6,
      hexDigits[i.val + 10]? = some (Char.ofNat (97 + i), Char.ofNat (65 + i)) := by decide
  have hsame : ∀ {base : Nat}, base ≤ c.toNat → c = Char.ofNat (base + (c.toNat - base)) := by
    intro base hbase
    rw [Nat.add_sub_cancel' hbase, Char.ofNat_toNat]
  revert h
  fun_cases Text.hexDigit? c with
  | case1 hc =>
    rintro ⟨⟩
    have hlow : 48 ≤ c.toNat := Char.le_def.mp hc.1
    have hhigh : c.toNat ≤ 57 := Char.le_def.mp hc.2
    exact ⟨_, hdecimal ⟨c.toNat - 48, by omega⟩, Or.inl (hsame hlow)⟩
  | case2 _ hc =>
    rintro ⟨⟩
    have hlow : 97 ≤ c.toNat := Char.le_def.mp hc.1
    have hhigh : c.toNat ≤ 102 := Char.le_def.mp hc.2
    exact ⟨_, hletter ⟨c.toNat - 97, by omega⟩, Or.inl (hsame hlow)⟩
  | case3 _ _ hc =>
    rintro ⟨⟩
    have hlow : 65 ≤ c.toNat := Char.le_def.mp hc.1
    have hhigh : c.toNat ≤ 70 := Char.le_def.mp hc.2
    exact ⟨_, hletter ⟨c.toNat - 65, by omega⟩, Or.inr (hsame hlow)⟩
  | case4 =>
    intro h
    cases h

theorem digits_of_hexValueFrom? {ds : List Char} {acc n : Nat}
    (h : Text.hexValueFrom? acc ds = some n) :
    ∃ vs, List.Forall₂ IsDigitOf ds vs ∧ vs.foldl (fun n v => 16 * n + v) acc = n := by
  induction ds generalizing acc with
  | nil => exact ⟨[], .nil, Option.some.inj h⟩
  | cons d ds ih =>
    obtain ⟨v, hv, hrest⟩ := Option.bind_eq_some_iff.mp h
    obtain ⟨vs, hvs, rfl⟩ := ih hrest
    refine ⟨v :: vs, .cons (isDigitOf_of_hexDigit? hv) hvs, ?_⟩
    rw [List.foldl_cons, Nat.mul_comm]

/-- Only digits are read as a number. -/
theorem hexValue?_eq_some_iff {ds : List Char} {n : Nat} :
    Text.hexValue? ds = some n ↔ Numeral ds n := by
  refine ⟨fun h => ?_, Numeral.hexValue?⟩
  cases ds with
  | nil => cases h
  | cons d ds => exact ⟨List.cons_ne_nil d ds, digits_of_hexValueFrom? h⟩

/-- A sign in front of the digits does not matter. -/
theorem signedHexValue?_eq_some_iff {ds : List Char} {n : Nat} :
    Text.signedHexValue? ds = some n ↔ Numeral ds n ∨ ∃ es, ds = '+' :: es ∧ Numeral es n := by
  constructor
  · intro h
    fun_cases Text.signedHexValue? ds with
    | case1 es => exact Or.inr ⟨es, rfl, hexValue?_eq_some_iff.mp h⟩
    | case2 ds hplus =>
      rw [Text.signedHexValue?] at h
      · exact Or.inl (hexValue?_eq_some_iff.mp h)
      · exact hplus
  · rintro (h | ⟨es, rfl, h⟩)
    · exact h.signedHexValue?
    · exact h.hexValue?

theorem scalar?_eq_some_iff {n : Nat} {c : Char} : Text.scalar? n = some c ↔ c.toNat = n := by
  have hscalar := map_toNat_scalar? n
  constructor
  · intro h
    rw [h, Option.map_some] at hscalar
    split at hscalar
    · exact Option.some.inj hscalar
    · cases hscalar
  · rintro rfl
    have hvalid : c.toNat.isValidChar := c.valid
    rw [Text.scalar?, if_pos hvalid, Char.ofNat_toNat]

/-- Digits of a character, behind a plus sign or not, are decoded. -/
theorem numericEscape_of_numeral {ds : List Char} {c : Char}
    (h : Numeral ds c.toNat ∨ ∃ es, ds = '+' :: es ∧ Numeral es c.toNat) (lead tail : List Char) :
    numericEscape lead ds tail = [c] := by
  rw [numericEscape, signedHexValue?_eq_some_iff.mpr h, Option.bind_some,
    scalar?_eq_some_iff.mpr rfl]

/-- What is not that is kept. -/
theorem numericEscape_of_not_numeral {ds : List Char}
    (h : ∀ c : Char, ¬ (Numeral ds c.toNat ∨ ∃ es, ds = '+' :: es ∧ Numeral es c.toNat))
    (lead tail : List Char) : numericEscape lead ds tail = lead ++ ds ++ tail := by
  unfold numericEscape
  split
  · next c hc =>
    obtain ⟨n, hn, hscalar⟩ := Option.bind_eq_some_iff.mp hc
    obtain rfl := scalar?_eq_some_iff.mp hscalar
    exact absurd (signedHexValue?_eq_some_iff.mp hn) (h c)
  · rfl

/-! ### Where the digits are looked for -/

/-- What stands up to a closing brace is taken for the digits, or all there is if there is none. -/
theorem unescapeBraced_eq (digits cs : List Char) :
    unescapeBraced digits cs =
      numericEscape ['\\', 'u', '\x7b'] (digits ++ cs.takeWhile (· ≠ '\x7d')) ['\x7d'] ++
        unescape (cs.drop ((cs.takeWhile (· ≠ '\x7d')).length + 1)) := by
  induction cs generalizing digits with
  | nil => simp [unescapeBraced]
  | cons c cs ih =>
    rw [unescapeBraced]
    split
    · next hc => simp [hc]
    · next hc => rw [ih]; simp [hc]

/-- With less than four characters left there is nothing to decode. -/
theorem unescapeAfter_hex4_short {cs : List Char} (h : cs.length < 4)
    (hbrace : cs.head? ≠ some '\x7b') : unescapeAfter ('u' :: cs) = '\\' :: 'u' :: cs := by
  rw [unescapeAfter]
  · rintro rest rfl
    exact hbrace rfl
  · rintro a b c d rest rfl
    simp at h
    omega

/-! ### The three forms -/

/-- The forms of an escape that names a character by the digits of its code point. -/
inductive NumericForm where
  /-- Two digits. -/
  | two
  /-- Four digits. -/
  | four
  /-- Digits in braces. -/
  | braced

namespace NumericForm

variable {f : NumericForm} {w : List Char} {c : Char}

/-- What stands in front of the digits. -/
def lead : NumericForm → List Char
  | two => ['\\', 'x']
  | four => ['\\', 'u']
  | braced => ['\\', 'u', '\x7b']

/-- What stands behind the digits. -/
def close : NumericForm → List Char
  | two => []
  | four => []
  | braced => ['\x7d']

/-- How many digits there may be. -/
def Takes : NumericForm → Nat → Prop
  | two, k => k = 2
  | four, k => k = 4
  | braced, k => 0 < k

instance (f : NumericForm) (k : Nat) : Decidable (f.Takes k) :=
  match f with
  | two => inferInstanceAs (Decidable (k = 2))
  | four => inferInstanceAs (Decidable (k = 4))
  | braced => inferInstanceAs (Decidable (0 < k))

/-- Behind `f.lead`, the text is read as an escape of this form: four digits are only looked for
where no brace opens. -/
def Admits (f : NumericForm) (w : List Char) : Prop := f = four → w.head? ≠ some '\x7b'

/-- The text starts with the digits of a complete escape and with what stands behind them. -/
def Complete (f : NumericForm) (w : List Char) : Prop :=
  ∃ ds rest, w = ds ++ f.close ++ rest ∧ f.Takes ds.length ∧ ∀ d ∈ ds, IsHexDigit d

/-- How much of the text the escape takes, if there is as much. -/
def reach : NumericForm → List Char → Nat
  | two, _ => 2
  | four, _ => 4
  | braced, w => (w.takeWhile (· ≠ '\x7d')).length + 1

/-- The characters that belong to the escape: two of them, four, or those up to the closing brace
and the brace. -/
def consumed (f : NumericForm) (w : List Char) : List Char := w.take (f.reach w)

/-- The characters behind the escape. -/
def rest (f : NumericForm) (w : List Char) : List Char := w.drop (f.reach w)

/-- What is taken for the digits. -/
def digits : NumericForm → List Char → List Char
  | two, w => w.take 2
  | four, w => w.take 4
  | braced, w => w.takeWhile (· ≠ '\x7d')

/-- The braces of the escape are not closed. -/
def Unclosed (f : NumericForm) (w : List Char) : Prop := f = braced ∧ '\x7d' ∉ w

/-- The escape is read as the character. -/
def Decodes (f : NumericForm) (w : List Char) (c : Char) : Prop :=
  unescape (f.lead ++ w) = c :: unescape (f.rest w)

/-- The escape is read as it is written. -/
def Keeps (f : NumericForm) (w : List Char) : Prop :=
  unescape (f.lead ++ w) = f.lead ++ f.consumed w ++ unescape (f.rest w)

/-- As many digits as there may be are those of the character. -/
def Names (f : NumericForm) (w : List Char) (c : Char) : Prop :=
  f.Takes (f.digits w).length ∧ Numeral (f.digits w) c.toNat

/-- The digits are those of the character behind a plus sign, which counts as one of them. -/
def NamesSigned (f : NumericForm) (w : List Char) (c : Char) : Prop :=
  f.Takes (f.digits w).length ∧ ∃ ds, f.digits w = '+' :: ds ∧ Numeral ds c.toNat

/-! ### What an escape stands for -/

/-- The digits are read if there are enough of them, and the escape stays if there are not. -/
theorem unescape_lead (h : f.Admits w) :
    unescape (f.lead ++ w) =
      (if f.Takes (f.digits w).length then numericEscape f.lead (f.digits w) f.close
        else f.lead ++ f.digits w ++ f.close) ++ unescape (f.rest w) := by
  cases f with
  | two =>
    match w with
    | a :: b :: w => exact (unescape_backslash _).trans (unescapeAfter_hex2 a b w)
    | [] => rfl
    | [a] => rfl
  | four =>
    have hbrace : w.head? ≠ some '\x7b' := h rfl
    match w with
    | a :: b :: c :: d :: w =>
      have ha : a ≠ '\x7b' := by rintro rfl; exact hbrace rfl
      exact (unescape_backslash _).trans (unescapeAfter_hex4 ha b c d w)
    | [] => rfl
    | [a] | [a, b] | [a, b, c] =>
      refine (unescape_backslash _).trans ((unescapeAfter_hex4_short ?_ hbrace).trans ?_)
      · simp
      · rfl
  | braced =>
    have hread : unescape (braced.lead ++ w) =
        numericEscape braced.lead (braced.digits w) braced.close ++ unescape (braced.rest w) :=
      (unescape_backslash _).trans (unescapeBraced_eq [] w)
    rw [hread]
    split
    · rfl
    · next hnone =>
      have hempty : braced.digits w = [] :=
        List.length_eq_zero_iff.mp (Nat.eq_zero_of_not_pos hnone)
      rw [hempty]
      rfl

/-- An escape that names a character is decoded. -/
theorem decodes_of_names (h : f.Admits w) (hc : f.Names w c ∨ f.NamesSigned w c) :
    f.Decodes w c := by
  have htakes : f.Takes (f.digits w).length := hc.elim (·.1) (·.1)
  have hnumeral : Numeral (f.digits w) c.toNat ∨
      ∃ ds, f.digits w = '+' :: ds ∧ Numeral ds c.toNat := hc.imp (·.2) (·.2)
  rw [Decodes, unescape_lead h, if_pos htakes, numericEscape_of_numeral hnumeral]
  rfl

/-- An escape that names no character stays, and with closed braces if it has braces. -/
theorem unescape_of_nameless (h : f.Admits w) (hc : ∀ c, ¬ (f.Names w c ∨ f.NamesSigned w c)) :
    unescape (f.lead ++ w) = f.lead ++ f.digits w ++ f.close ++ unescape (f.rest w) := by
  rw [unescape_lead h]
  split
  · next htakes =>
    rw [numericEscape_of_not_numeral]
    intro c hnumeral
    exact hc c (hnumeral.imp (⟨htakes, ·⟩) (⟨htakes, ·⟩))
  · rfl

/-- Only an escape that names a character is decoded. -/
theorem names_of_decodes (h : f.Admits w) (hc : f.Decodes w c) :
    f.Names w c ∨ f.NamesSigned w c := by
  by_cases hnames : ∃ d, f.Names w d ∨ f.NamesSigned w d
  · obtain ⟨d, hd⟩ := hnames
    have hsame : c :: unescape (f.rest w) = d :: unescape (f.rest w) :=
      hc.symm.trans (decodes_of_names h hd)
    rw [(List.cons.inj hsame).1]
    exact hd
  · -- an escape that stays is longer than a character
    have hkept := hc.symm.trans (unescape_of_nameless h (not_exists.mp hnames))
    have hlength := congrArg List.length hkept
    have hlead : 2 ≤ f.lead.length := by cases f <;> decide
    simp only [List.length_cons, List.length_append] at hlength
    omega

/-! ### Complete escapes -/

theorem takeWhile_brace {ds : List Char} (h : '\x7d' ∉ ds) (rest : List Char) :
    (ds ++ '\x7d' :: rest).takeWhile (· ≠ '\x7d') = ds := by
  have hds : ∀ d ∈ ds, decide (d ≠ '\x7d') = true := by
    intro d hd
    rw [decide_eq_true_eq]
    rintro rfl
    exact h hd
  rw [List.takeWhile_append_of_pos hds]
  simp

theorem digits_of_unclosed (h : f.Unclosed w) : f.digits w = w := by
  obtain ⟨rfl, hbrace⟩ := h
  refine List.takeWhile_eq_self_iff.mpr fun d hd => ?_
  rw [decide_eq_true_eq]
  rintro rfl
  exact hbrace hd

/-- The characters of an escape are what is taken for the digits and what stands behind them. -/
theorem consumed_of_closed (h : ¬ f.Unclosed w) : f.consumed w = f.digits w ++ f.close := by
  cases f with
  | two => exact (List.append_nil _).symm
  | four => exact (List.append_nil _).symm
  | braced =>
    have hmem : '\x7d' ∈ w := not_not.mp fun hbrace => h ⟨rfl, hbrace⟩
    obtain ⟨ds, rest, rfl, hds⟩ := List.eq_append_cons_of_mem hmem
    have hdigits : braced.digits (ds ++ '\x7d' :: rest) = ds := takeWhile_brace hds rest
    rw [consumed, reach, takeWhile_brace hds, hdigits, List.append_cons]
    exact List.take_left' List.length_append

/-- Completeness is a matter of the stretch that is taken for the digits. -/
theorem complete_iff : f.Complete w ↔
    ¬ f.Unclosed w ∧ f.Takes (f.digits w).length ∧ ∀ d ∈ f.digits w, IsHexDigit d := by
  constructor
  · rintro ⟨ds, rest, rfl, htakes, hds⟩
    have hdigits : f.digits (ds ++ f.close ++ rest) = ds := by
      cases f with
      | two =>
        rw [close, List.append_nil]
        exact List.take_left' htakes
      | four =>
        rw [close, List.append_nil]
        exact List.take_left' htakes
      | braced =>
        have hbrace : '\x7d' ∉ ds := fun hmem =>
          (hds _ hmem).ne_of_hexDigit?_eq_none (by decide) rfl
        rw [close, ← List.append_cons]
        exact takeWhile_brace hbrace rest
    rw [hdigits]
    refine ⟨?_, htakes, hds⟩
    rintro ⟨rfl, hbrace⟩
    exact hbrace (by simp [close])
  · rintro ⟨hclosed, htakes, hds⟩
    refine ⟨f.digits w, f.rest w, ?_, htakes, hds⟩
    rw [← consumed_of_closed hclosed]
    exact (List.take_append_drop _ w).symm

/-! ### When the right escapes are decoded -/

/-- Of the escapes whose braces are closed those that are kept are kept as they are written, and no
others. -/
theorem keeps_iff_of_nameless (h : f.Admits w) (hc : ∀ c, ¬ (f.Names w c ∨ f.NamesSigned w c)) :
    f.Keeps w ↔ ¬ f.Unclosed w := by
  rw [Keeps, unescape_of_nameless h hc]
  constructor
  · intro hkept hunclosed
    have hlength := congrArg List.length hkept
    have hconsumed : (f.consumed w).length ≤ w.length := List.length_take_le' _ _
    rw [digits_of_unclosed hunclosed] at hlength
    obtain ⟨rfl, -⟩ := hunclosed
    simp only [List.length_append, close, List.length_singleton] at hlength
    omega
  · intro hclosed
    rw [consumed_of_closed hclosed, List.append_assoc f.lead]

/-- A sign is no digit. -/
theorem NamesSigned.not_complete (hc : f.NamesSigned w c) : ¬ f.Complete w := by
  obtain ⟨-, ds, hdigits, -⟩ := hc
  rw [complete_iff, hdigits]
  rintro ⟨-, -, hhex⟩
  exact (hhex '+' List.mem_cons_self).ne_of_hexDigit?_eq_none (by decide) rfl

/-- Only complete escapes are decoded, and all others kept, unless there is a sign or braces are not
closed. -/
theorem readsRightly_iff (h : f.Admits w) :
    ((∀ c, f.Decodes w c → f.Complete w) ∧ ((∀ c, ¬ f.Decodes w c) → f.Keeps w)) ↔
      ¬ f.Unclosed w ∧ ∀ c, ¬ f.NamesSigned w c := by
  constructor
  · rintro ⟨hcomplete, hkeeps⟩
    refine ⟨fun hunclosed => ?_, fun c hc => ?_⟩
    · by_cases hdecodes : ∃ c, f.Decodes w c
      · obtain ⟨c, hc⟩ := hdecodes
        exact (complete_iff.mp (hcomplete c hc)).1 hunclosed
      · rw [not_exists] at hdecodes
        have hnameless : ∀ c, ¬ (f.Names w c ∨ f.NamesSigned w c) := fun c hc =>
          hdecodes c (decodes_of_names h hc)
        exact (keeps_iff_of_nameless h hnameless).mp (hkeeps hdecodes) hunclosed
    · exact hc.not_complete (hcomplete c (decodes_of_names h (Or.inr hc)))
  · rintro ⟨hclosed, hunsigned⟩
    refine ⟨fun c hc => ?_, fun hdecodes => ?_⟩
    · obtain ⟨htakes, hnumeral⟩ := (names_of_decodes h hc).resolve_right (hunsigned c)
      exact complete_iff.mpr ⟨hclosed, htakes, hnumeral.isHexDigit⟩
    · refine (keeps_iff_of_nameless h fun c hc => ?_).mpr hclosed
      exact hdecodes c (decodes_of_names h hc)

/-- A numeric escape is decoded if and only if the stretch that is taken for its digits holds those
of a character, behind a plus sign or not; it stays otherwise, and then its braces are closed.  So
only complete escapes are decoded, and all others are kept as they are written, exactly if the
braces are closed in the text and there is no sign in front of the digits of a character. -/
theorem decodes_iff (h : f.Admits w) :
    (∀ c, f.Decodes w c ↔ f.Names w c ∨ f.NamesSigned w c) ∧
      ((∀ c, ¬ f.Decodes w c) →
        unescape (f.lead ++ w) = f.lead ++ f.digits w ++ f.close ++ unescape (f.rest w)) ∧
      (((∀ c, f.Decodes w c → f.Complete w) ∧ ((∀ c, ¬ f.Decodes w c) → f.Keeps w)) ↔
        ¬ f.Unclosed w ∧ ∀ c, ¬ f.NamesSigned w c) := by
  have hdecodes : ∀ c, f.Decodes w c ↔ f.Names w c ∨ f.NamesSigned w c := fun c =>
    ⟨names_of_decodes h, decodes_of_names h⟩
  refine ⟨hdecodes, fun hnone => ?_, readsRightly_iff h⟩
  exact unescape_of_nameless h fun c hc => hnone c ((hdecodes c).mpr hc)

/-- A sign in the place of the first of four digits. -/
theorem decodes_iff_signed :
    four.Admits ['+', '0', '4', '1'] ∧ four.Decodes ['+', '0', '4', '1'] 'A' ∧
      ¬ ((∀ c, four.Decodes ['+', '0', '4', '1'] c → four.Complete ['+', '0', '4', '1']) ∧
        ((∀ c, ¬ four.Decodes ['+', '0', '4', '1'] c) → four.Keeps ['+', '0', '4', '1'])) := by
  have hadmits : four.Admits ['+', '0', '4', '1'] := fun _ => by decide
  have hsigned : four.NamesSigned ['+', '0', '4', '1'] 'A' :=
    ⟨rfl, ['0', '4', '1'], rfl, numeral_upper (List.cons_ne_nil 0 [4, 1]) (by decide) rfl⟩
  obtain ⟨hdecodes, -, hright⟩ := decodes_iff hadmits
  exact ⟨hadmits, (hdecodes 'A').mpr (Or.inr hsigned), fun h => (hright.mp h).2 'A' hsigned⟩

/-- Two characters of which one is a sign are decoded, so are digits in braces that are not closed,
and where such braces hold something else a closing brace is added. -/
theorem malformed_not_kept :
    (two.Decodes ['+', '4'] (Char.ofNat 4) ∧ ¬ two.Complete ['+', '4']) ∧
      (braced.Decodes ['4', '1'] 'A' ∧ ¬ braced.Complete ['4', '1']) ∧
      (∀ c, ¬ braced.Decodes ['z', 'z'] c) ∧ ¬ braced.Keeps ['z', 'z'] := by
  have hsigned : two.NamesSigned ['+', '4'] (Char.ofNat 4) :=
    ⟨rfl, ['4'], rfl, numeral_upper (List.cons_ne_nil 4 []) (by decide) rfl⟩
  refine ⟨⟨rfl, hsigned.not_complete⟩, ⟨rfl, ?_⟩, ?_, ?_⟩
  · intro hcomplete
    exact (complete_iff.mp hcomplete).1 ⟨rfl, by decide⟩
  · intro c hc
    have hkept : ['\\', 'u', '\x7b', 'z', 'z', '\x7d'] = [c] := hc
    simp at hkept
  · unfold Keeps
    decide

end NumericForm

end TreeMend.Literal
