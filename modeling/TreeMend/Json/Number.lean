/-!
# JSON numbers

A number keeps the parts it was written with.  Two readers ask whether its value is small enough
to be a double: one takes the nearest double to the exact value, the other keeps the leading
digits that fit into 64 bits and multiplies them by a power of ten, rounding at each step.  Near
the greatest double the two disagree.

## Main definitions

* `Json.Number` — a number by its parts.
* `Json.Number.nat?` — the natural number of 64 bits that a number spells out.
* `Json.Number.isFinite` — the nearest double is finite.
* `Json.Number.isInRange` — the product of leading digits and power of ten is finite.

## Main results

* `Json.nearestDouble_of_lt` — a number of at most 53 binary digits is a double itself.
-/

namespace TreeMend.Json

/-- A number by the parts it is written with. -/
structure Number where
  /-- Whether a minus sign stands in front. -/
  negative : Bool := false
  /-- The digits before the point. -/
  whole : Nat
  /-- The digits after the point; empty if there is no point. -/
  fraction : String := ""
  /-- The exponent, if one is written. -/
  exponent : Option Int := none
  deriving DecidableEq, Repr, Inhabited

/-- The number that spells out `k`. -/
def Number.ofNat (k : Nat) : Number := { whole := k }

/-- The natural number of 64 bits that `n` spells out without sign, point or exponent. -/
def Number.nat? (n : Number) : Option Nat :=
  if !n.negative && n.fraction == "" && n.exponent.isNone && n.whole < UInt64.size then
    some n.whole
  else none

/-- The number of value `acc` with a decimal digit behind it. -/
def withDigit (acc : Nat) (c : Char) : Nat := acc * 10 + (c.toNat - '0'.toNat)

/-- The least number that has no nearest double: halfway beyond the greatest one. -/
def doubleBound : Nat := Nat.pow 2 1024 - Nat.pow 2 970

/-! ### The exact value -/

/-- All the digits of `n`, read as one number. -/
def Number.digits (n : Number) : Nat := n.fraction.toList.foldl withDigit n.whole

/-- The power of ten that scales `n.digits` to the value of `n`. -/
def Number.scale (n : Number) : Int := n.exponent.getD 0 - n.fraction.length

/-- Whether the value of `n` has a nearest double. -/
def Number.isFinite (n : Number) : Bool :=
  if n.digits = 0 then true
  else match n.scale with
    | .ofNat k => k ≤ 308 && n.digits * Nat.pow 10 k < doubleBound
    | .negSucc k => n.digits < doubleBound * Nat.pow 10 (min k (n.digits.log2) + 1)

/-! ### The product of leading digits and power of ten -/

/-- The nearest number to `n` with at most 53 binary digits before its zeros, and of two that are
equally near the one whose last digit is even. -/
def nearestDouble (n : Nat) : Nat :=
  let unit := Nat.pow 2 (n.log2 - 52)
  let rest := n % unit
  let below := n - rest
  if 2 * rest < unit || (2 * rest == unit && below / unit % 2 == 0) then below else below + unit

/-- A number of at most 53 binary digits is a double itself. -/
theorem nearestDouble_of_lt {n : Nat} (h : n < Nat.pow 2 53) : nearestDouble n = n := by
  have hlog : n.log2 - 52 = 0 := by
    by_cases hn : n = 0
    · simp [hn]
    · have := (Nat.log2_lt hn).2 h
      omega
  simp [nearestDouble, hlog, Nat.mod_one]

/-- The digits of a run that, read behind the number `acc`, keep it within 64 bits: the number
that they make, and the digits left over. -/
def leading : Nat → List Char → Nat × List Char
  | acc, [] => (acc, [])
  | acc, c :: cs =>
    if withDigit acc c < UInt64.size then leading (withDigit acc c) cs else (acc, c :: cs)

/-- The leading digits of `n` that fit into 64 bits, and the power of ten that goes with them.
Digits before the point that do not fit count in the power, those after it do not. -/
def Number.kept (n : Number) : Nat × Int :=
  let (front, dropped) := leading 0 (Nat.toDigits 10 n.whole)
  let (all, ignored) := leading front n.fraction.toList
  (all, n.exponent.getD 0 + dropped.length - (n.fraction.length - ignored.length : Nat))

/-- Whether the leading digits of `n`, multiplied by their power of ten, give a finite double. -/
def Number.isInRange (n : Number) : Bool :=
  match n.kept with
  | (digits, .ofNat k) =>
    digits == 0 || (k ≤ 308 && nearestDouble digits * nearestDouble (Nat.pow 10 k) < doubleBound)
  | (_, .negSucc _) => true

end TreeMend.Json
