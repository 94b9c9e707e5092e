/-!
# Hexadecimal numbers

Reading and writing numbers to base sixteen, and the step from a number to the character with that
code point.

## Main definitions

* `hexDigit?`, `hexValue?` — the value of a digit, of a non-empty run of digits.
* `signedHexValue?` — the same, with one plus sign allowed in front.
* `scalar?` — the character with a given code point, surrogates and numbers beyond `10FFFF` refused.
* `hex4` — the last four digits of a number, in upper case.
-/

namespace TreeMend.Text

/-- The value of a hexadecimal digit of either case. -/
def hexDigit? (c : Char) : Option Nat :=
  if '0' ≤ c ∧ c ≤ '9' then some (c.toNat - '0'.toNat)
  else if 'a' ≤ c ∧ c ≤ 'f' then some (c.toNat - 'a'.toNat + 10)
  else if 'A' ≤ c ∧ c ≤ 'F' then some (c.toNat - 'A'.toNat + 10)
  else none

/-- The value of `cs` read as digits that follow a number of value `acc`. -/
def hexValueFrom? (acc : Nat) : List Char → Option Nat
  | [] => some acc
  | c :: cs => (hexDigit? c).bind fun d => hexValueFrom? (acc * 16 + d) cs

/-- The value of a non-empty run of hexadecimal digits. -/
def hexValue? : List Char → Option Nat
  | [] => none
  | c :: cs => hexValueFrom? 0 (c :: cs)

/-- The value of a non-empty run of hexadecimal digits after at most one plus sign. -/
def signedHexValue? : List Char → Option Nat
  | '+' :: cs => hexValue? cs
  | cs => hexValue? cs

/-- The character with code point `n`, if `n` is the code point of one. -/
def scalar? (n : Nat) : Option Char :=
  if n.isValidChar then some (Char.ofNat n) else none

/-- The upper-case hexadecimal digit of value `d`. -/
def upperHexDigit (d : Nat) : Char :=
  if d < 10 then Char.ofNat ('0'.toNat + d) else Char.ofNat ('A'.toNat + (d - 10))

/-- The last four hexadecimal digits of `n`, the upper-case ones. -/
def hex4 (n : Nat) : List Char :=
  [upperHexDigit (n / 4096 % 16), upperHexDigit (n / 256 % 16), upperHexDigit (n / 16 % 16),
    upperHexDigit (n % 16)]

end TreeMend.Text
