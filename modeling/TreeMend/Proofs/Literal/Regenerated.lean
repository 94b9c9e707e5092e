import TreeMend.Proofs.Literal.Grammar

/-!
# Literals that are read and written again

Whatever a literal holds, it is written as a valid literal for it.  Reading is exact as well, but
for escapes that name a surrogate: these have no character to stand for, so their own characters
become part of what the literal holds, and writing it again escapes the backslash.

## Main results

* `Literal.denotes_render` — a literal that is written denotes the characters that it holds.
* `Literal.Spells.regained` — what reading makes of the code points of a text.
* `Literal.valueOf_regenerated_iff` — **a literal that is read and written again keeps its value
  exactly when none of its escapes names a surrogate**.
* `Literal.regenerated_surrogatePair` — a character given by a pair of escapes does not survive.
-/

namespace TreeMend.Literal

/-! ### Writing -/

theorem isDigitOf_upperHexDigit {d : Nat} (h : d < 16) : IsDigitOf (Text.upperHexDigit d) d := by
  have key : ∀ i : Fin hexDigits.length, Text.upperHexDigit i.val = (hexDigits.get i).2 := by
    decide
  exact ⟨hexDigits.get ⟨d, h⟩, List.getElem?_eq_getElem h, Or.inr (key ⟨d, h⟩)⟩

theorem numeral_upper {vs : List Nat} {n : Nat} (hne : vs ≠ []) (hlt : ∀ v ∈ vs, v < 16)
    (hn : vs.foldl (fun n v => 16 * n + v) 0 = n) : Numeral (vs.map Text.upperHexDigit) n := by
  refine ⟨by simpa using hne, vs, ?_, hn⟩
  rw [List.forall₂_map_left_iff, List.forall₂_same]
  exact fun v hv => isDigitOf_upperHexDigit (hlt v hv)

theorem numeral_hex4 {n : Nat} (h : n < 0x10000) : Numeral (Text.hex4 n) n := by
  refine numeral_upper (List.cons_ne_nil (n / 4096 % 16) [n / 256 % 16, n / 16 % 16, n % 16]) ?_ ?_
  · simp [Nat.mod_lt]
  · simp only [List.foldl_cons, List.foldl_nil]
    omega

/-- A character is written as itself or as an escape. -/
theorem escapeChar_eq_or (q : Quote) (c : Char) (next : Option Char) :
    escapeChar q c next = [c] ∨ (escapeChar q c next).head? = some '\\' := by
  fun_cases escapeChar q c next
  case case14 => exact Or.inl rfl
  all_goals exact Or.inr rfl

/-- What is written starts with a digit only if the value does. -/
theorem any_isDigit_head?_escape (q : Quote) {cs : List Char}
    (h : cs.head?.any Char.isDigit = false) : (escape q cs).head?.any Char.isDigit = false := by
  cases cs with
  | nil => rfl
  | cons c cs =>
    rw [escape_cons]
    rcases escapeChar_eq_or q c cs.head? with hc | hc
    · rw [hc]
      exact h
    · rw [List.head?_append, hc]
      rfl

/-- One character is written as one that is spelled by the grammar. -/
theorem spells_escapeChar {q : Quote} {c : Char} {next : Option Char} {rest : List Char}
    {ps : List Nat} (hrest : Spells q rest ps)
    (hnext : next.any Char.isDigit = false → rest.head?.any Char.isDigit = false) :
    Spells q (escapeChar q c next ++ rest) (c.toNat :: ps) := by
  have hescape : ∀ d : Char, d.isDigit = false → d ≠ 'x' → d ≠ 'u' → ¬ IsLineEnd d →
      escapedPoint d = c.toNat → Spells q ('\\' :: d :: rest) (c.toNat :: ps) := by
    intro d hdigit hx hu hline hpoint
    rw [← hpoint]
    exact .escape hdigit hx hu hline hrest
  have hunicode : c.toNat < 0x10000 →
      Spells q ('\\' :: 'u' :: (Text.hex4 c.toNat ++ rest)) (c.toNat :: ps) := fun hlt =>
    .hex4 (numeral_hex4 hlt) hrest
  fun_cases escapeChar q c next with
  | case1 hbackslash =>
    subst hbackslash
    exact hescape '\\' (by decide) (by decide) (by decide) (by decide) rfl
  | case2 _ hfeed =>
    subst hfeed
    exact hescape 'n' (by decide) (by decide) (by decide) (by decide) rfl
  | case3 _ _ hreturn =>
    subst hreturn
    exact hescape 'r' (by decide) (by decide) (by decide) (by decide) rfl
  | case4 _ _ _ htab =>
    subst htab
    exact hescape 't' (by decide) (by decide) (by decide) (by decide) rfl
  | case5 _ _ _ _ hback =>
    exact hescape 'b' (by decide) (by decide) (by decide) (by decide) hback.symm
  | case6 _ _ _ _ _ hform =>
    exact hescape 'f' (by decide) (by decide) (by decide) (by decide) hform.symm
  | case7 _ _ _ _ _ _ hvertical =>
    exact hescape 'v' (by decide) (by decide) (by decide) (by decide) hvertical.symm
  | case8 _ _ _ _ _ _ _ hzero hdigit =>
    -- two digits, lest the digit that follows be taken for part of the escape
    rw [hzero]
    exact .hex2 (numeral_upper (List.cons_ne_nil 0 [0]) (by decide) rfl) hrest
  | case9 _ _ _ _ _ _ _ hzero hdigit =>
    rw [hzero]
    exact .zero (hnext (Bool.eq_false_iff.mpr hdigit)) hrest
  | case10 _ _ _ _ _ _ _ _ hline =>
    have h := hunicode (by omega)
    rw [hline] at h ⊢
    exact h
  | case11 _ _ _ _ _ _ _ _ _ hparagraph =>
    have h := hunicode (by omega)
    rw [hparagraph] at h ⊢
    exact h
  | case12 _ _ _ _ _ _ _ _ _ _ hquote =>
    subst hquote
    cases q with
    | single => exact hescape '\'' (by decide) (by decide) (by decide) (by decide) rfl
    | double => exact hescape '"' (by decide) (by decide) (by decide) (by decide) rfl
  | case13 _ _ _ _ _ _ _ _ _ _ _ hcontrol =>
    refine hunicode ?_
    simp only [Text.isControl, Bool.or_eq_true, Bool.and_eq_true, decide_eq_true_eq] at hcontrol
    omega
  | case14 hbackslash hfeed hreturn _ _ _ _ _ _ _ hquote _ =>
    exact .plain hquote hbackslash hfeed hreturn hrest

theorem spells_escape (q : Quote) (cs : List Char) :
    Spells q (escape q cs) (cs.map Char.toNat) := by
  induction cs with
  | nil => exact .nil
  | cons c cs ih =>
    rw [escape_cons, List.map_cons]
    exact spells_escapeChar ih (any_isDigit_head?_escape q)

/-- A literal that is written denotes the characters that it holds. -/
theorem denotes_render (l : Literal) : Denotes l.render (l.value.toList.map Char.toNat) :=
  ⟨l.quote, escape l.quote l.value.toList, String.toList_ofList, spells_escape _ _⟩

/-! ### Reading -/

theorem not_isSurrogate_iff {p : Nat} (h : p ≤ 0x10FFFF) : ¬ IsSurrogate p ↔ p.isValidChar := by
  unfold IsSurrogate Nat.isValidChar
  omega

theorem not_isSurrogate_toNat (c : Char) : ¬ IsSurrogate c.toNat := by
  have hvalid : c.toNat.isValidChar := c.valid
  have hmax : c.toNat ≤ 0x10FFFF := by
    unfold Nat.isValidChar at hvalid
    omega
  exact (not_isSurrogate_iff hmax).mpr hvalid

theorem Numeral.signedHexValue? {ds : List Char} {n : Nat} (h : Numeral ds n) :
    Text.signedHexValue? ds = some n := by
  have hplus : '+' ∉ ds := fun hmem =>
    (h.isHexDigit _ hmem).ne_of_hexDigit?_eq_none (by decide) rfl
  cases ds with
  | nil => exact absurd rfl h.1
  | cons d ds =>
    have hd : d ≠ '+' := fun hd => hplus (hd ▸ List.mem_cons_self)
    rw [Text.signedHexValue?]
    · exact h.hexValue?
    · simpa using hd

theorem map_toNat_scalar? (n : Nat) :
    (Text.scalar? n).map Char.toNat = if n.isValidChar then some n else none := by
  unfold Text.scalar?
  split
  · next h =>
    have hchar : Char.ofNat n = Char.ofNatAux n h := dif_pos h
    rw [hchar]
    rfl
  · rfl

/-- A numeric escape is read as the character that it names; where it names a surrogate, it is kept
as it is written. -/
theorem map_toNat_numericEscape {ds : List Char} {p : Nat} (hp : Numeral ds p) (hmax : p ≤ 0x10FFFF)
    (lead tail : List Char) :
    (numericEscape lead ds tail).map Char.toNat =
      if IsSurrogate p then (lead ++ ds ++ tail).map Char.toNat else [p] := by
  have hscalar := map_toNat_scalar? p
  unfold numericEscape
  rw [hp.signedHexValue?, Option.bind_some]
  by_cases hsurrogate : IsSurrogate p
  · have hvalid : ¬ p.isValidChar := fun hvalid => (not_isSurrogate_iff hmax).mpr hvalid hsurrogate
    rw [if_neg hvalid, Option.map_eq_none_iff] at hscalar
    rw [hscalar, if_pos hsurrogate]
  · rw [if_pos ((not_isSurrogate_iff hmax).mp hsurrogate), Option.map_eq_some_iff] at hscalar
    obtain ⟨c, hc, rfl⟩ := hscalar
    rw [hc, if_neg hsurrogate]
    rfl

/-- What becomes of code points that are read: they stay as they are or, where one of them is a
surrogate, take more units than they did. -/
def Regained (ps qs : List Nat) : Prop :=
  ((∀ p ∈ ps, ¬ IsSurrogate p) ∧ qs = ps) ∨
    ((∃ p ∈ ps, IsSurrogate p) ∧ (valueOf ps).length < (valueOf qs).length)

namespace Regained

theorem nil : Regained [] [] := Or.inl ⟨fun _ h => absurd h List.not_mem_nil, rfl⟩

theorem length_le {ps qs : List Nat} (h : Regained ps qs) :
    (valueOf ps).length ≤ (valueOf qs).length := by
  rcases h with ⟨-, rfl⟩ | ⟨-, hlt⟩
  · exact Nat.le_refl _
  · exact Nat.le_of_lt hlt

theorem cons {p : Nat} {ps qs : List Nat} (hp : ¬ IsSurrogate p) (h : Regained ps qs) :
    Regained (p :: ps) (p :: qs) := by
  rcases h with ⟨hps, rfl⟩ | ⟨⟨r, hr, hsurrogate⟩, hlt⟩
  · refine Or.inl ⟨fun r hr => ?_, rfl⟩
    rcases List.mem_cons.mp hr with rfl | hr
    · exact hp
    · exact hps r hr
  · refine Or.inr ⟨⟨r, List.mem_cons_of_mem p hr, hsurrogate⟩, ?_⟩
    rw [valueOf_cons, valueOf_cons, List.length_append, List.length_append]
    omega

/-- The escape of a surrogate takes one unit as it was meant, and more as it is written. -/
theorem cons_surrogate {p : Nat} {escape ps qs : List Nat} (hp : IsSurrogate p)
    (hlong : 2 ≤ escape.length) (h : Regained ps qs) : Regained (p :: ps) (escape ++ qs) := by
  refine Or.inr ⟨⟨p, List.mem_cons_self, hp⟩, ?_⟩
  have hone := length_codeUnits_surrogate hp
  have hescape := length_le_length_valueOf escape
  have hrest := h.length_le
  rw [valueOf_cons, valueOf_append, List.length_append, List.length_append]
  omega

theorem valueOf_eq_iff {ps qs : List Nat} (h : Regained ps qs) :
    valueOf qs = valueOf ps ↔ ∀ p ∈ ps, ¬ IsSurrogate p := by
  rcases h with ⟨hps, rfl⟩ | ⟨⟨p, hp, hsurrogate⟩, hlt⟩
  · exact iff_of_true rfl hps
  · refine iff_of_false (fun heq => ?_) fun hps => hps p hp hsurrogate
    rw [heq] at hlt
    exact Nat.lt_irrefl _ hlt

/-- The step over a numeric escape. -/
theorem numericEscape {ds lead tail : List Char} {p : Nat} {ps qs : List Nat} (hp : Numeral ds p)
    (hmax : p ≤ 0x10FFFF) (hlead : 2 ≤ lead.length) (h : Regained ps qs) :
    Regained (p :: ps) ((numericEscape lead ds tail).map Char.toNat ++ qs) := by
  rw [map_toNat_numericEscape hp hmax]
  split
  · next hsurrogate =>
    refine h.cons_surrogate hsurrogate ?_
    rw [List.length_map, List.length_append, List.length_append]
    omega
  · next hsurrogate => exact h.cons hsurrogate

end Regained

/-- A backslash before a character that ends no line stands for one character. -/
theorem plainEscape_of_not_isLineEnd {c : Char} (h : ¬ IsLineEnd c) :
    ∃ d : Char, plainEscape c = [d] ∧ d.toNat = escapedPoint c := by
  fun_cases plainEscape c with
  | case1 h | case2 _ h | case3 _ _ h | case4 _ _ _ h | case5 _ _ _ _ h | case6 _ _ _ _ _ h =>
    subst h
    exact ⟨_, rfl, rfl⟩
  | case7 _ _ _ _ _ _ hline =>
    rcases hline with hline | hline
    · exact absurd (Or.inl hline) h
    · exact absurd (Or.inr (Or.inr hline)) h
  | case8 hn hr ht hb hf hv =>
    refine ⟨c, rfl, ?_⟩
    unfold escapedPoint
    split <;> first | rfl | contradiction

/-- A backslash before the end of a line stands for nothing. -/
theorem unescapeAfter_isLineEnd {c : Char} {cs : List Char} (h : IsLineEnd c)
    (hreturn : c = '\r' → cs.head? ≠ some '\n') : unescapeAfter (c :: cs) = unescape cs := by
  have hpoint : ∀ n, c.toNat = n → c = Char.ofNat n := fun n hn => by rw [← hn, Char.ofNat_toNat]
  rcases h with rfl | rfl | h | h
  · rw [unescapeAfter_plain (by decide) (by decide) (by decide) (by decide)]
    rfl
  · exact unescapeAfter_return (hreturn rfl)
  · rw [hpoint _ h, unescapeAfter_plain (by decide) (by decide) (by decide) (by decide)]
    rfl
  · rw [hpoint _ h, unescapeAfter_plain (by decide) (by decide) (by decide) (by decide)]
    rfl

/-- What reading makes of the code points of a text. -/
theorem Spells.regained {q : Quote} {body : List Char} {ps : List Nat} (h : Spells q body ps) :
    Regained ps ((unescape body).map Char.toNat) := by
  -- every form but the numeric ones is read as what it stands for
  induction h with
  | nil => exact .nil
  | @plain c cs ps hquote hescape hfeed hreturn hcs ih =>
    rw [unescape_of_ne hescape, List.map_cons]
    exact ih.cons (not_isSurrogate_toNat c)
  | @escape c cs ps hdigit hx hu hline hcs ih =>
    have h0 : c ≠ '0' := by
      rintro rfl
      exact absurd hdigit (by decide)
    have hr : c ≠ '\r' := fun hr => hline (Or.inr (Or.inl hr))
    obtain ⟨d, hd, hpoint⟩ := plainEscape_of_not_isLineEnd hline
    rw [unescape_backslash, unescapeAfter_plain hx hu h0 hr, hd, ← hpoint]
    exact ih.cons (not_isSurrogate_toNat d)
  | @zero cs ps hnext hcs ih =>
    rw [unescape_backslash, unescapeAfter_zero, hnext]
    exact ih.cons (by decide)
  | @hex2 a b cs p ps hp hcs ih =>
    have hlt : p < 16 ^ 2 := hp.lt_pow
    rw [unescape_backslash, unescapeAfter_hex2, List.map_append]
    exact .numericEscape hp (by omega) (by decide) ih
  | @hex4 a b c d cs p ps hp hcs ih =>
    have hlt : p < 16 ^ 4 := hp.lt_pow
    have hbrace : a ≠ '\x7b' := fun ha => hp.not_mem_brace.1 (ha ▸ List.mem_cons_self)
    rw [unescape_backslash, unescapeAfter_hex4 hbrace, List.map_append]
    exact .numericEscape hp (by omega) (by decide) ih
  | @braced ds cs rest p ps hp hmax hrest hcs ih =>
    rw [hrest, unescape_backslash, unescapeAfter_braced, unescapeBraced_append hp.not_mem_brace.2,
      List.map_append]
    exact .numericEscape hp hmax (by decide) ih
  | @continued c cs ps hline hreturn hcs ih =>
    rw [unescape_backslash, unescapeAfter_isLineEnd hline hreturn]
    exact ih
  | @continuedReturnFeed cs ps hcs ih =>
    rw [unescape_backslash, unescapeAfter_return_feed]
    exact ih

/-! ### Both -/

/-- Every valid literal is read. -/
theorem ofSource?_of_denotes {text : String} {ps : List Nat} (h : Denotes text ps) :
    ∃ l, ofSource? text = some l ∧ Regained ps (l.value.toList.map Char.toNat) := by
  obtain ⟨q, body, htext, hbody⟩ := h
  have hsource := ofSource?_quoted q body
  rw [← htext, String.ofList_toList] at hsource
  refine ⟨⟨String.ofList (unescape body), q⟩, hsource, ?_⟩
  rw [String.toList_ofList]
  exact hbody.regained

/-- A valid literal is read, and writing it again in either quotes gives a valid literal; this one
has the same value exactly when no escape names a surrogate. -/
theorem valueOf_regenerated_iff {text : String} {ps : List Nat} (h : Denotes text ps) :
    ∃ l, ofSource? text = some l ∧ ∀ q, ∃ qs, Denotes (render ⟨l.value, q⟩) qs ∧
      (valueOf qs = valueOf ps ↔ ∀ p ∈ ps, ¬ IsSurrogate p) := by
  obtain ⟨l, hl, hregained⟩ := ofSource?_of_denotes h
  exact ⟨l, hl, fun q => ⟨_, denotes_render ⟨l.value, q⟩, hregained.valueOf_eq_iff⟩⟩

/-- Escapes of every length and a continued line, none of them with a surrogate. -/
theorem valueOf_regenerated_mixed :
    ∃ l, ofSource? "\"\\x41\\u0042\\u\x7b1F600\x7d'\\\n\\v\\0\"" = some l ∧
      ∀ q, ∃ qs, Denotes (render ⟨l.value, q⟩) qs ∧
        valueOf qs = valueOf [0x41, 0x42, 0x1F600, 0x27, 0x0B, 0] := by
  have hmixed : Denotes "\"\\x41\\u0042\\u\x7b1F600\x7d'\\\n\\v\\0\""
      [0x41, 0x42, 0x1F600, 0x27, 0x0B, 0] := by
    refine ⟨.double, ['\\', 'x', '4', '1', '\\', 'u', '0', '0', '4', '2', '\\', 'u', '\x7b', '1',
      'F', '6', '0', '0', '\x7d', '\'', '\\', '\n', '\\', 'v', '\\', '0'], by decide, ?_⟩
    refine .hex2 (numeral_upper (List.cons_ne_nil 4 [1]) (by decide) rfl) ?_
    refine .hex4 (numeral_upper (List.cons_ne_nil 0 [0, 4, 2]) (by decide) rfl) ?_
    refine .braced (numeral_upper (List.cons_ne_nil 1 [15, 6, 0, 0]) (by decide) (by simp))
      (by omega) rfl ?_
    refine .plain (by decide) (by decide) (by decide) (by decide) ?_
    refine .continued (by decide) (by decide) ?_
    refine .escape (by decide) (by decide) (by decide) (by decide) ?_
    exact .zero rfl .nil
  obtain ⟨l, hl, hregenerated⟩ := valueOf_regenerated_iff hmixed
  refine ⟨l, hl, fun q => ?_⟩
  obtain ⟨qs, hqs, hiff⟩ := hregenerated q
  exact ⟨qs, hqs, hiff.mpr (by decide)⟩

/-- A character given by the escapes of its two halves is not kept. -/
theorem regenerated_surrogatePair :
    ¬ ∀ text ps, Denotes text ps → ∃ l, ofSource? text = some l ∧
      ∀ q, ∃ qs, Denotes (render ⟨l.value, q⟩) qs ∧ valueOf qs = valueOf ps := by
  intro hkept
  have hpair : Denotes "'\\uD83D\\uDE00'" [0xD83D, 0xDE00] := by
    refine ⟨.single, ['\\', 'u', 'D', '8', '3', 'D', '\\', 'u', 'D', 'E', '0', '0'], by decide, ?_⟩
    refine .hex4 (numeral_upper (List.cons_ne_nil 13 [8, 3, 13]) (by decide) rfl) ?_
    exact .hex4 (numeral_upper (List.cons_ne_nil 13 [14, 0, 0]) (by decide) rfl) .nil
  obtain ⟨l, hl, hregenerated⟩ := hkept _ _ hpair
  obtain ⟨l', hl', hregained⟩ := ofSource?_of_denotes hpair
  obtain rfl : l = l' := Option.some.inj (hl.symm.trans hl')
  obtain ⟨qs, hqs, hvalue⟩ := hregenerated .single
  obtain rfl := hqs.unique (denotes_render ⟨l.value, .single⟩)
  exact hregained.valueOf_eq_iff.mp hvalue 0xD83D (by decide) (by decide)

end TreeMend.Literal
