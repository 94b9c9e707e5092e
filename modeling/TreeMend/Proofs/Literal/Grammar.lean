import Mathlib.Algebra.Ring.Nat
import Mathlib.Data.List.Forall2
import TreeMend.Proofs.Literal.Requote

/-!
# The literals of the language and their values

What a string literal denotes is laid down by ECMAScript, in strict mode: a literal stands for a
sequence of code points, one for each character and for each escape and none for a continued line,
and its value is the sequence of their UTF-16 code units.  An escape may name half of a surrogate
pair, which is no character on its own; that is why points are numbers here and not characters.

The grammar is said once, as a relation between the text between the quotes and the points that it
spells, and it is unambiguous.

## Main definitions

* `Literal.codeUnits`, `Literal.valueOf` — code units of a code point, of a sequence of them.
* `Literal.Numeral` — hexadecimal digits and their number.
* `Literal.Spells` — the grammar of what stands between the quotes.
* `Literal.Denotes` — a source text is a valid literal for some code points.

## Main results

* `Literal.Denotes.unique` — a text denotes at most one sequence of code points.
-/

namespace TreeMend.Literal

/-! ### Code points -/

/-- Half of a pair in UTF-16, and no character on its own. -/
def IsSurrogate (p : Nat) : Prop := 0xD800 ≤ p ∧ p ≤ 0xDFFF

instance (p : Nat) : Decidable (IsSurrogate p) :=
  inferInstanceAs (Decidable (0xD800 ≤ p ∧ p ≤ 0xDFFF))

/-- The UTF-16 code units of a code point. -/
def codeUnits (p : Nat) : List Nat :=
  if p < 0x10000 then [p]
  else [0xD800 + (p - 0x10000) / 0x400, 0xDC00 + (p - 0x10000) % 0x400]

/-- The code units of a sequence of code points. -/
def valueOf (ps : List Nat) : List Nat := ps.flatMap codeUnits

@[simp] theorem valueOf_cons (p : Nat) (ps : List Nat) :
    valueOf (p :: ps) = codeUnits p ++ valueOf ps := rfl

theorem valueOf_append (ps qs : List Nat) : valueOf (ps ++ qs) = valueOf ps ++ valueOf qs :=
  List.flatMap_append

theorem length_codeUnits_pos (p : Nat) : 0 < (codeUnits p).length := by
  unfold codeUnits
  split <;> simp

theorem length_codeUnits_surrogate {p : Nat} (h : IsSurrogate p) : (codeUnits p).length = 1 := by
  have hlt : p < 0x10000 := by
    have := h.2
    omega
  rw [codeUnits, if_pos hlt]
  rfl

theorem length_le_length_valueOf (ps : List Nat) : ps.length ≤ (valueOf ps).length := by
  induction ps with
  | nil => exact Nat.le_refl 0
  | cons p ps ih =>
    have hp := length_codeUnits_pos p
    rw [valueOf_cons, List.length_append, List.length_cons]
    omega

/-! ### Numbers -/

/-- The hexadecimal digits by value, in either case. -/
def hexDigits : List (Char × Char) :=
  [('0', '0'), ('1', '1'), ('2', '2'), ('3', '3'), ('4', '4'), ('5', '5'), ('6', '6'), ('7', '7'),
    ('8', '8'), ('9', '9'), ('a', 'A'), ('b', 'B'), ('c', 'C'), ('d', 'D'), ('e', 'E'), ('f', 'F')]

/-- The digit `c` has the value `v`. -/
def IsDigitOf (c : Char) (v : Nat) : Prop :=
  ∃ d, hexDigits[v]? = some d ∧ (c = d.1 ∨ c = d.2)

/-- The digits `ds`, at least one, are those of the number `n`. -/
def Numeral (ds : List Char) (n : Nat) : Prop :=
  ds ≠ [] ∧ ∃ vs, List.Forall₂ IsDigitOf ds vs ∧ vs.foldl (fun n v => 16 * n + v) 0 = n

theorem IsDigitOf.hexDigit? {c : Char} {v : Nat} (h : IsDigitOf c v) :
    Text.hexDigit? c = some v := by
  have key : ∀ i : Fin hexDigits.length, Text.hexDigit? (hexDigits.get i).1 = some i.val ∧
      Text.hexDigit? (hexDigits.get i).2 = some i.val := by decide
  obtain ⟨d, hd, hc⟩ := h
  obtain ⟨hv, rfl⟩ := List.getElem?_eq_some_iff.mp hd
  rcases hc with rfl | rfl
  · exact (key ⟨v, hv⟩).1
  · exact (key ⟨v, hv⟩).2

theorem IsDigitOf.isHexDigit {c : Char} {v : Nat} (h : IsDigitOf c v) : IsHexDigit c := by
  rw [IsHexDigit, h.hexDigit?]
  rfl

theorem Numeral.isHexDigit {ds : List Char} {n : Nat} (h : Numeral ds n) :
    ∀ d ∈ ds, IsHexDigit d := by
  obtain ⟨-, vs, hvs, -⟩ := h
  induction hvs with
  | nil => intro d hd; cases hd
  | cons hd _ ih =>
    intro e he
    rcases List.mem_cons.mp he with rfl | he
    · exact hd.isHexDigit
    · exact ih e he

theorem hexValueFrom?_of_digits {ds : List Char} {vs : List Nat}
    (h : List.Forall₂ IsDigitOf ds vs) (acc : Nat) :
    Text.hexValueFrom? acc ds = some (vs.foldl (fun n v => 16 * n + v) acc) := by
  induction h generalizing acc with
  | nil => rfl
  | cons hd _ ih =>
    rw [Text.hexValueFrom?, hd.hexDigit?, Option.bind_some, Nat.mul_comm acc 16, ih,
      List.foldl_cons]

/-- Digits are read as the number that they are. -/
theorem Numeral.hexValue? {ds : List Char} {n : Nat} (h : Numeral ds n) :
    Text.hexValue? ds = some n := by
  obtain ⟨hne, vs, hvs, rfl⟩ := h
  cases ds with
  | nil => exact absurd rfl hne
  | cons d ds => exact hexValueFrom?_of_digits hvs 0

theorem Numeral.unique {ds : List Char} {n m : Nat} (hn : Numeral ds n) (hm : Numeral ds m) :
    n = m := by
  have h := hn.hexValue?
  rw [hm.hexValue?] at h
  exact (Option.some.inj h).symm

theorem IsDigitOf.lt {c : Char} {v : Nat} (h : IsDigitOf c v) : v < 16 := by
  obtain ⟨d, hd, -⟩ := h
  exact (List.getElem?_eq_some_iff.mp hd).1

theorem foldl_digits_lt {ds : List Char} {vs : List Nat} (h : List.Forall₂ IsDigitOf ds vs)
    (acc : Nat) : vs.foldl (fun n v => 16 * n + v) acc < (acc + 1) * 16 ^ ds.length := by
  induction h generalizing acc with
  | nil => simp
  | @cons d v ds vs hd _ ih =>
    have hv := hd.lt
    calc (v :: vs).foldl (fun n v => 16 * n + v) acc
        < (16 * acc + v + 1) * 16 ^ ds.length := ih _
      _ ≤ ((acc + 1) * 16) * 16 ^ ds.length := Nat.mul_le_mul_right _ (by omega)
      _ = (acc + 1) * 16 ^ (d :: ds).length := by
        rw [List.length_cons, Nat.pow_succ', Nat.mul_assoc]

theorem Numeral.lt_pow {ds : List Char} {n : Nat} (h : Numeral ds n) : n < 16 ^ ds.length := by
  obtain ⟨-, vs, hvs, rfl⟩ := h
  simpa using foldl_digits_lt hvs 0

/-! ### The grammar -/

/-- The characters that end a line. -/
def IsLineEnd (c : Char) : Prop :=
  c = '\n' ∨ c = '\r' ∨ c.toNat = 0x2028 ∨ c.toNat = 0x2029

instance (c : Char) : Decidable (IsLineEnd c) :=
  inferInstanceAs (Decidable (c = '\n' ∨ c = '\r' ∨ c.toNat = 0x2028 ∨ c.toNat = 0x2029))

/-- The code point that a backslash before `c` stands for, where `c` is all of the escape. -/
def escapedPoint (c : Char) : Nat :=
  match c with
  | 'b' => 0x08
  | 't' => 0x09
  | 'n' => 0x0A
  | 'v' => 0x0B
  | 'f' => 0x0C
  | 'r' => 0x0D
  | c => c.toNat

/-- The text between quotes `q` is that of a valid literal, and it spells the code points. -/
inductive Spells (q : Quote) : List Char → List Nat → Prop
  /-- Nothing is left. -/
  | nil : Spells q [] []
  /-- A character that stands for itself; the separators of lines and paragraphs are among them,
  a line feed and a carriage return are not. -/
  | plain {c : Char} {cs : List Char} {ps : List Nat} (hquote : c ≠ q.char) (hescape : c ≠ '\\')
      (hfeed : c ≠ '\n') (hreturn : c ≠ '\r') (hcs : Spells q cs ps) :
      Spells q (c :: cs) (c.toNat :: ps)
  /-- An escape of one character, which is no digit and starts no longer escape. -/
  | escape {c : Char} {cs : List Char} {ps : List Nat} (hdigit : c.isDigit = false) (hx : c ≠ 'x')
      (hu : c ≠ 'u') (hline : ¬ IsLineEnd c) (hcs : Spells q cs ps) :
      Spells q ('\\' :: c :: cs) (escapedPoint c :: ps)
  /-- The escape of the code point zero, which no digit may follow. -/
  | zero {cs : List Char} {ps : List Nat} (hnext : cs.head?.any Char.isDigit = false)
      (hcs : Spells q cs ps) : Spells q ('\\' :: '0' :: cs) (0 :: ps)
  /-- Two digits. -/
  | hex2 {a b : Char} {cs : List Char} {p : Nat} {ps : List Nat} (hp : Numeral [a, b] p)
      (hcs : Spells q cs ps) : Spells q ('\\' :: 'x' :: a :: b :: cs) (p :: ps)
  /-- Four digits. -/
  | hex4 {a b c d : Char} {cs : List Char} {p : Nat} {ps : List Nat} (hp : Numeral [a, b, c, d] p)
      (hcs : Spells q cs ps) : Spells q ('\\' :: 'u' :: a :: b :: c :: d :: cs) (p :: ps)
  /-- Digits in braces, of a number that is a code point. -/
  | braced {ds cs rest : List Char} {p : Nat} {ps : List Nat} (hp : Numeral ds p)
      (hmax : p ≤ 0x10FFFF) (hrest : rest = ds ++ '\x7d' :: cs) (hcs : Spells q cs ps) :
      Spells q ('\\' :: 'u' :: '\x7b' :: rest) (p :: ps)
  /-- A continued line. -/
  | continued {c : Char} {cs : List Char} {ps : List Nat} (hline : IsLineEnd c)
      (hreturn : c = '\r' → cs.head? ≠ some '\n') (hcs : Spells q cs ps) :
      Spells q ('\\' :: c :: cs) ps
  /-- A continued line that ends with a carriage return and a line feed. -/
  | continuedReturnFeed {cs : List Char} {ps : List Nat} (hcs : Spells q cs ps) :
      Spells q ('\\' :: '\r' :: '\n' :: cs) ps

/-- The text is a valid literal for the code points, in either quotes. -/
def Denotes (text : String) (ps : List Nat) : Prop :=
  ∃ q body, text.toList = Quote.char q :: body ++ [q.char] ∧ Spells q body ps

/-! ### Unambiguity -/

/-- A digit is no brace. -/
theorem Numeral.not_mem_brace {ds : List Char} {n : Nat} (h : Numeral ds n) :
    '\x7b' ∉ ds ∧ '\x7d' ∉ ds := by
  constructor
  · intro hmem
    exact (h.isHexDigit _ hmem).ne_of_hexDigit?_eq_none (by decide) rfl
  · intro hmem
    exact (h.isHexDigit _ hmem).ne_of_hexDigit?_eq_none (by decide) rfl

theorem append_brace_inj {ds ds' cs cs' : List Char} (h : '\x7d' ∉ ds) (h' : '\x7d' ∉ ds')
    (heq : ds ++ '\x7d' :: cs = ds' ++ '\x7d' :: cs') : ds = ds' ∧ cs = cs' := by
  induction ds generalizing ds' with
  | nil =>
    cases ds' with
    | nil => exact ⟨rfl, (List.cons.inj heq).2⟩
    | cons d' ds' => exact absurd List.mem_cons_self ((List.cons.inj heq).1 ▸ h')
  | cons d ds ih =>
    cases ds' with
    | nil => exact absurd List.mem_cons_self ((List.cons.inj heq).1 ▸ h)
    | cons d' ds' =>
      obtain ⟨rfl, htail⟩ := List.cons.inj heq
      rw [List.mem_cons, not_or] at h h'
      obtain ⟨rfl, rfl⟩ := ih h.2 h'.2 htail
      exact ⟨rfl, rfl⟩

theorem Spells.unique {q : Quote} {cs : List Char} {ps ps' : List Nat} (h : Spells q cs ps)
    (h' : Spells q cs ps') : ps = ps' := by
  induction h generalizing ps' with
  | nil => cases h'; rfl
  | plain hquote hescape hfeed hreturn hcs ih =>
    cases h' with
    | plain _ _ _ _ hcs' => rw [ih hcs']
    | _ => exact absurd rfl hescape
  | escape hdigit hx hu hline hcs ih =>
    cases h' with
    | plain _ hescape _ _ _ => exact absurd rfl hescape
    | escape _ _ _ _ hcs' => rw [ih hcs']
    | zero _ _ => exact absurd hdigit (by decide)
    | hex2 _ _ => exact absurd rfl hx
    | hex4 _ _ => exact absurd rfl hu
    | braced _ _ _ _ => exact absurd rfl hu
    | continued hline' _ _ => exact absurd hline' hline
    | continuedReturnFeed _ => exact absurd (by decide) hline
  | zero hnext hcs ih =>
    cases h' with
    | plain _ hescape _ _ _ => exact absurd rfl hescape
    | escape hdigit _ _ _ _ => exact absurd hdigit (by decide)
    | zero _ hcs' => rw [ih hcs']
    | continued hline _ _ => exact absurd hline (by decide)
  | hex2 hp hcs ih =>
    cases h' with
    | plain _ hescape _ _ _ => exact absurd rfl hescape
    | escape _ hx _ _ _ => exact absurd rfl hx
    | hex2 hp' hcs' => rw [ih hcs', hp.unique hp']
    | continued hline _ _ => exact absurd hline (by decide)
  | hex4 hp hcs ih =>
    cases h' with
    | plain _ hescape _ _ _ => exact absurd rfl hescape
    | escape _ _ hu _ _ => exact absurd rfl hu
    | hex4 hp' hcs' => rw [ih hcs', hp.unique hp']
    | braced _ _ _ _ => exact absurd List.mem_cons_self hp.not_mem_brace.1
    | continued hline _ _ => exact absurd hline (by decide)
  | braced hp hmax hrest hcs ih =>
    cases h' with
    | plain _ hescape _ _ _ => exact absurd rfl hescape
    | escape _ _ hu _ _ => exact absurd rfl hu
    | hex4 hp' _ => exact absurd List.mem_cons_self hp'.not_mem_brace.1
    | braced hp' _ hrest' hcs' =>
      obtain ⟨rfl, rfl⟩ := append_brace_inj hp.not_mem_brace.2 hp'.not_mem_brace.2
        (hrest.symm.trans hrest')
      rw [ih hcs', hp.unique hp']
    | continued hline _ _ => exact absurd hline (by decide)
  | continued hline hreturn hcs ih =>
    cases h' with
    | plain _ hescape _ _ _ => exact absurd rfl hescape
    | escape _ _ _ hline' _ => exact absurd hline hline'
    | zero _ _ => exact absurd hline (by decide)
    | hex2 _ _ => exact absurd hline (by decide)
    | hex4 _ _ => exact absurd hline (by decide)
    | braced _ _ _ _ => exact absurd hline (by decide)
    | continued _ _ hcs' => exact ih hcs'
    | continuedReturnFeed _ => exact absurd rfl (hreturn rfl)
  | continuedReturnFeed hcs ih =>
    cases h' with
    | plain _ hescape _ _ _ => exact absurd rfl hescape
    | escape _ _ _ hline _ => exact absurd (by decide) hline
    | continued _ hreturn _ => exact absurd rfl (hreturn rfl)
    | continuedReturnFeed hcs' => exact ih hcs'

/-- A text denotes at most one sequence of code points. -/
theorem Denotes.unique {text : String} {ps ps' : List Nat} (h : Denotes text ps)
    (h' : Denotes text ps') : ps = ps' := by
  obtain ⟨q, body, htext, hbody⟩ := h
  obtain ⟨q', body', htext', hbody'⟩ := h'
  rw [htext] at htext'
  obtain ⟨hquote, hrest⟩ := List.cons.inj htext'
  obtain rfl : q = q' := by simpa using congrArg Quote.ofChar? hquote
  obtain rfl : body = body' := List.append_cancel_right hrest
  exact hbody.unique hbody'

end TreeMend.Literal
