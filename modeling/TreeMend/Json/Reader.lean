import TreeMend.Json.Value
import TreeMend.Text.Hex

/-!
# Reading JSON

The grammar is strict: no comments, no trailing commas, no leading zeros, no raw control
characters in strings, nothing but blanks after the value.

## Main definitions

* `Json.Reader.joinUnits` — the text that the characters and escaped code units of a literal denote.
* `Json.parse?` — the value that a text spells.
* `Json.load?` — the same, for a reader that needs all of the value and bounds its depth.
-/

namespace TreeMend.Json.Reader

/-- The blanks between tokens. -/
def isBlank (c : Char) : Bool := c == ' ' || c == '\t' || c == '\n' || c == '\r'

/-- The rest of the input without the blanks it starts with. -/
def skipBlanks (cs : List Char) : List Char := cs.dropWhile isBlank

/-! ### Strings -/

/-- One element of a string literal. -/
inductive Piece where
  /-- A character, raw or by a one-letter escape. -/
  | char (c : Char)
  /-- A code unit given by four hexadecimal digits. -/
  | unit (n : Nat)
  deriving DecidableEq, Repr, Inhabited

/-- The character that a one-letter escape stands for. -/
def escapedChar? : Char → Option Char
  | '"' => some '"'
  | '\\' => some '\\'
  | '/' => some '/'
  | 'b' => some (Char.ofNat 8)
  | 'f' => some (Char.ofNat 12)
  | 'n' => some '\n'
  | 'r' => some '\r'
  | 't' => some '\t'
  | _ => none

/-- The elements of a string literal up to its closing quote, and the input after it. -/
def pieces? : List Char → Option (List Piece × List Char)
  | [] => none
  | '"' :: rest => some ([], rest)
  | '\\' :: 'u' :: a :: b :: c :: d :: rest => do
    let n ← Text.hexValue? [a, b, c, d]
    let (ps, after) ← pieces? rest
    pure (.unit n :: ps, after)
  | '\\' :: e :: rest => do
    let c ← escapedChar? e
    let (ps, after) ← pieces? rest
    pure (.char c :: ps, after)
  | c :: rest =>
    if c.toNat < 0x20 then none
    else do
      let (ps, after) ← pieces? rest
      pure (.char c :: ps, after)

/-- Whether `n` is the first half of a surrogate pair. -/
def isHighSurrogate (n : Nat) : Bool := 0xD800 ≤ n && n ≤ 0xDBFF

/-- Whether `n` is the second half of a surrogate pair. -/
def isLowSurrogate (n : Nat) : Bool := 0xDC00 ≤ n && n ≤ 0xDFFF

/-- The code point of a surrogate pair. -/
def pairValue (high low : Nat) : Nat := 0x10000 + (high - 0xD800) * 0x400 + (low - 0xDC00)

/-- The text that the elements denote; `none` if half of a surrogate pair stands alone. -/
def joinUnits : List Piece → Option (List Char)
  | [] => some []
  | .char c :: ps => (joinUnits ps).map (c :: ·)
  | .unit m :: .unit n :: ps =>
    if isHighSurrogate m && isLowSurrogate n then do
      let c ← Text.scalar? (pairValue m n)
      (joinUnits ps).map (c :: ·)
    else do
      let c ← Text.scalar? m
      (joinUnits (.unit n :: ps)).map (c :: ·)
  | .unit m :: ps => do
    let c ← Text.scalar? m
    (joinUnits ps).map (c :: ·)

/-- A string literal whose opening quote has been read. -/
def stringBody? (cs : List Char) : Option (Option String × List Char) :=
  (pieces? cs).map fun (ps, rest) => ((joinUnits ps).map String.ofList, rest)

/-! ### Numbers -/

/-- A run of digits at the start of the input and what follows it. -/
def digits (cs : List Char) : List Char × List Char := cs.span Char.isDigit

/-- The number that a run of decimal digits spells. -/
def decimal (ds : List Char) : Nat := ds.foldl withDigit 0

/-- The digits before the point: a lone zero, or digits that start with another one. -/
def whole? : List Char → Option (Nat × List Char)
  | '0' :: rest => some (0, rest)
  | cs => match digits cs with
    | ([], _) => none
    | (ds, rest) => some (decimal ds, rest)

/-- The digits after a point, if there is one. -/
def fraction? : List Char → Option (String × List Char)
  | '.' :: rest => match digits rest with
    | ([], _) => none
    | (ds, rest') => some (String.ofList ds, rest')
  | cs => some ("", cs)

/-- The digits of an exponent whose sign has been read. -/
def exponentDigits? (negative : Bool) (cs : List Char) : Option (Option Int × List Char) :=
  match digits cs with
  | ([], _) => none
  | (ds, rest) => some (some (if negative then -(decimal ds : Int) else decimal ds), rest)

/-- The exponent, if there is one. -/
def exponent? : List Char → Option (Option Int × List Char)
  | e :: cs =>
    if e == 'e' || e == 'E' then
      match cs with
      | '-' :: rest => exponentDigits? true rest
      | '+' :: rest => exponentDigits? false rest
      | _ => exponentDigits? false cs
    else some (none, e :: cs)
  | [] => some (none, [])

/-- A number whose sign has been read. -/
def unsigned? (negative : Bool) (cs : List Char) : Option (Number × List Char) := do
  let (whole, cs) ← whole? cs
  let (fraction, cs) ← fraction? cs
  let (exponent, cs) ← exponent? cs
  pure ({ negative, whole, fraction, exponent }, cs)

/-- A number. -/
def number? : List Char → Option (Number × List Char)
  | '-' :: rest => unsigned? true rest
  | cs => unsigned? false cs

/-! ### Values

Each function reads from the start of the input and gives back what follows.  The first argument
bounds the number of nested calls; two for each character and two more are always enough, since a
character is consumed at every other call. -/

mutual

/-- A value, blanks before it included. -/
def value? : Nat → List Char → Option (Json × List Char)
  | 0, _ => none
  | fuel + 1, cs =>
    match skipBlanks cs with
    | '"' :: rest => (stringBody? rest).map fun (t, rest') => (.string t, rest')
    | '[' :: rest =>
      match skipBlanks rest with
      | ']' :: rest' => some (.array [], rest')
      | _ => (items? fuel rest).map fun (vs, rest') => (.array vs, rest')
    | '\x7b' :: rest =>
      match skipBlanks rest with
      | '\x7d' :: rest' => some (.object [], rest')
      | _ => (members? fuel rest).map fun (ms, rest') => (.object ms, rest')
    | 'n' :: 'u' :: 'l' :: 'l' :: rest => some (.null, rest)
    | 't' :: 'r' :: 'u' :: 'e' :: rest => some (.bool true, rest)
    | 'f' :: 'a' :: 'l' :: 's' :: 'e' :: rest => some (.bool false, rest)
    | cs => (number? cs).map fun (n, rest) => (.number n, rest)

/-- The items of a non-empty array and its closing bracket. -/
def items? : Nat → List Char → Option (List Json × List Char)
  | 0, _ => none
  | fuel + 1, cs => do
    let (v, rest) ← value? fuel cs
    match skipBlanks rest with
    | ',' :: rest' =>
      let (vs, after) ← items? fuel rest'
      pure (v :: vs, after)
    | ']' :: rest' => pure ([v], rest')
    | _ => none

/-- The members of a non-empty object and its closing brace. -/
def members? : Nat → List Char → Option (List (Option String × Json) × List Char)
  | 0, _ => none
  | fuel + 1, cs =>
    match skipBlanks cs with
    | '"' :: rest => do
      let (key, rest) ← stringBody? rest
      match skipBlanks rest with
      | ':' :: rest =>
        let (v, rest) ← value? fuel rest
        match skipBlanks rest with
        | ',' :: rest' =>
          let (ms, after) ← members? fuel rest'
          pure ((key, v) :: ms, after)
        | '\x7d' :: rest' => pure ([(key, v)], rest')
        | _ => none
      | _ => none
    | _ => none

end

end Reader

/-- The value that a text spells. -/
def parse? (s : String) : Option Json :=
  match Reader.value? (2 * s.length + 2) s.toList with
  | some (v, rest) => if (Reader.skipBlanks rest).isEmpty then some v else none
  | none => none

/-- The value that a text spells, if all of it is sound and it does not nest too deeply. -/
def load? (s : String) : Option Json :=
  (parse? s).filter fun v => v.isSound && v.depth ≤ depthLimit

end TreeMend.Json
