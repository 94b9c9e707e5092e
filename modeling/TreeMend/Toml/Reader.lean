import TreeMend.Json.Value
import TreeMend.Text.Hex
import TreeMend.Toml.Value

/-!
# Reading TOML

Version 1.0 of the format.  A byte order mark in front is passed over.  Values nest at most 79
deep, and a dotted key has at most 79 parts.

## Main definitions

* `Toml.Reader` — readers of the parts of a document; each takes the input and gives back what it
  read and the rest.
* `Toml.parse?` — the entries of a document.
-/

namespace TreeMend.Toml

/-- A reader of some part of a document. -/
abbrev Reader (α : Type) := List Char → Option (α × List Char)

namespace Reader

/-- The most arrays and tables in braces that may stand around a value, and the most parts of a
dotted key. -/
def nestingLimit : Nat := 79

/-! ### Blanks, comments and line ends -/

/-- The blanks inside a line. -/
def isBlank (c : Char) : Bool := c == ' ' || c == '\t'

/-- The input after blanks. -/
def skipBlanks (cs : List Char) : List Char := cs.dropWhile isBlank

/-- Characters that may stand raw in comments and literal strings, quotes apart. -/
def isPlain (c : Char) : Bool :=
  c == '\t' || (0x20 ≤ c.toNat && c.toNat ≤ 0x7E) || 0x80 ≤ c.toNat

/-- The input after a comment, if it starts with one. -/
def skipComment : List Char → List Char
  | '#' :: cs => cs.dropWhile isPlain
  | cs => cs

/-- The input after a line end. -/
def lineEnd? : List Char → Option (List Char)
  | '\n' :: cs => some cs
  | '\r' :: '\n' :: cs => some cs
  | _ => none

/-- The input after the rest of a line, which may hold blanks and a comment. -/
def restOfLine? (cs : List Char) : Option (List Char) :=
  match skipComment (skipBlanks cs) with
  | [] => some []
  | cs => lineEnd? cs

/-- The input after blanks, comments and line ends; at most `fuel` of them. -/
def skipLines : Nat → List Char → List Char
  | 0, cs => cs
  | fuel + 1, cs =>
    let cs := skipBlanks cs
    match lineEnd? (skipComment cs) with
    | some rest => skipLines fuel rest
    | none => cs

/-- The input after all blanks, comments and line ends that it starts with. -/
def skipSpace (cs : List Char) : List Char := skipLines (cs.length + 1) cs

/-! ### Strings -/

/-- The character of an escape sequence, whose backslash has been read. -/
def escape? : Reader Char
  | 'b' :: cs => some (Char.ofNat 8, cs)
  | 't' :: cs => some ('\t', cs)
  | 'n' :: cs => some ('\n', cs)
  | 'f' :: cs => some (Char.ofNat 12, cs)
  | 'r' :: cs => some ('\r', cs)
  | '"' :: cs => some ('"', cs)
  | '\\' :: cs => some ('\\', cs)
  | 'u' :: a :: b :: c :: d :: cs => do
    pure (← (← Text.hexValue? [a, b, c, d]) |> Text.scalar?, cs)
  | 'U' :: a :: b :: c :: d :: e :: f :: g :: h :: cs => do
    pure (← (← Text.hexValue? [a, b, c, d, e, f, g, h]) |> Text.scalar?, cs)
  | _ => none

/-- The characters of a string on one line between double quotes, up to the closing one. -/
def basicBody? : Nat → Reader (List Char)
  | 0, _ => none
  | fuel + 1, cs =>
    match cs with
    | '"' :: rest => some ([], rest)
    | '\\' :: rest => do
      let (c, rest) ← escape? rest
      let (body, rest) ← basicBody? fuel rest
      pure (c :: body, rest)
    | c :: rest =>
      if isPlain c then do
        let (body, rest) ← basicBody? fuel rest
        pure (c :: body, rest)
      else none
    | [] => none

/-- The characters of a string on one line between apostrophes, up to the closing one. -/
def literalBody? : Reader (List Char)
  | [] => none
  | '\'' :: rest => some ([], rest)
  | c :: rest =>
    if isPlain c then do
      let (body, rest) ← literalBody? rest
      pure (c :: body, rest)
    else none

/-- The closing quotes of a string over several lines: three, after at most two that belong to the
string; `none` if the input starts with fewer than three. -/
def closing? (quote : Char) (cs : List Char) : Option (List Char × List Char) :=
  let run := (cs.takeWhile (· == quote)).length
  if run < 3 then none
  else some (List.replicate (min (run - 3) 2) quote, cs.drop (min run 5))

/-- The input after blanks and line ends; at most `fuel` of the latter. -/
def skipBlankLines : Nat → List Char → List Char
  | 0, cs => cs
  | fuel + 1, cs =>
    match lineEnd? (skipBlanks cs) with
    | some rest => skipBlankLines fuel rest
    | none => skipBlanks cs

/-- The input after a line break that a backslash escapes, the blanks and line ends after it
included. -/
def escapedLineEnd? (cs : List Char) : Option (List Char) :=
  (lineEnd? (skipBlanks cs)).map fun rest => skipBlankLines (rest.length + 1) rest

/-- The characters of a string over several lines, up to the closing quotes; in double quotes
there are escapes. -/
def multilineBody? (quote : Char) : Nat → Reader (List Char)
  | 0, _ => none
  | fuel + 1, cs =>
    match closing? quote cs with
    | some found => some found
    | none =>
      match cs with
      | [] => none
      | c :: rest =>
        if c = '\\' ∧ quote = '"' then
          match escapedLineEnd? rest with
          | some rest => multilineBody? quote fuel rest
          | none => do
            let (c, rest) ← escape? rest
            let (body, rest) ← multilineBody? quote fuel rest
            pure (c :: body, rest)
        else match lineEnd? cs with
          | some rest => do
            let (body, rest) ← multilineBody? quote fuel rest
            pure ('\n' :: body, rest)
          | none =>
            if isPlain c then do
              let (body, rest) ← multilineBody? quote fuel rest
              pure (c :: body, rest)
            else none

/-- The input without the line end that it may start with. -/
def dropLineEnd (cs : List Char) : List Char := (lineEnd? cs).getD cs

/-- A string of any of the four sorts. -/
def string? (cs : List Char) : Option (String × List Char) :=
  let body : Option (List Char × List Char) := match cs with
    | '"' :: '"' :: '"' :: rest => multilineBody? '"' (rest.length + 1) (dropLineEnd rest)
    | '\'' :: '\'' :: '\'' :: rest => multilineBody? '\'' (rest.length + 1) (dropLineEnd rest)
    | '"' :: rest => basicBody? (rest.length + 1) rest
    | '\'' :: rest => literalBody? rest
    | _ => none
  body.map fun (chars, rest) => (String.ofList chars, rest)

/-! ### Keys -/

/-- The characters of a key without quotes. -/
def isKeyChar (c : Char) : Bool := c.isAlphanum || c == '_' || c == '-'

/-- A part of a key: a word, or a string on one line. -/
def keyPart? (cs : List Char) : Option (String × List Char) :=
  match cs with
  | '"' :: rest => (basicBody? (rest.length + 1) rest).map fun (k, rest) => (String.ofList k, rest)
  | '\'' :: rest => (literalBody? rest).map fun (k, rest) => (String.ofList k, rest)
  | _ =>
    match cs.span isKeyChar with
    | ([], _) => none
    | (k, rest) => some (String.ofList k, rest)

/-- The parts of a dotted key, at most `fuel` of them. -/
def keyParts? : Nat → Reader (List String)
  | 0, _ => none
  | fuel + 1, cs => do
    let (part, rest) ← keyPart? (skipBlanks cs)
    match skipBlanks rest with
    | '.' :: rest =>
      let (parts, rest) ← keyParts? fuel rest
      pure (part :: parts, rest)
    | rest => pure ([part], rest)

/-- A key, the blanks around it included: the parts before the last, and the last. -/
def key? (cs : List Char) : Option ((List String × String) × List Char) := do
  let (parts, rest) ← keyParts? nestingLimit cs
  let last ← parts.getLast?
  pure ((parts.dropLast, last), rest)

/-! ### Numbers, dates and times -/

/-- Digits that single underscores may divide; at least one. -/
def digitRun? (isDigit : Char → Bool) : Reader (List Char)
  | [] => none
  | c :: cs =>
    if isDigit c then
      match cs with
      | '_' :: d :: rest =>
        if isDigit d then (digitRun? isDigit (d :: rest)).map fun (ds, rest) => (c :: ds, rest)
        else some ([c], cs)
      | d :: rest =>
        if isDigit d then (digitRun? isDigit (d :: rest)).map fun (ds, rest) => (c :: ds, rest)
        else some ([c], cs)
      | [] => some ([c], [])
    else none

/-- The value of digits to a base. -/
def valueOf (base : Nat) (ds : List Char) : Nat :=
  ds.foldl (fun acc c => acc * base + (Text.hexDigit? c).getD 0) 0

/-- The sign in front of a number: whether it is negative. -/
def sign : List Char → Bool × List Char
  | '-' :: cs => (true, cs)
  | '+' :: cs => (false, cs)
  | cs => (false, cs)

/-- Decimal digits without leading zeros. -/
def decimal? : Reader (List Char)
  | '0' :: cs => some (['0'], cs)
  | cs => digitRun? Char.isDigit cs

/-- A whole number to base 2, 8 or 16, which has no sign. -/
def based? : Reader Nat
  | '0' :: 'x' :: cs =>
    (digitRun? (fun c => (Text.hexDigit? c).isSome) cs).map fun (ds, rest) => (valueOf 16 ds, rest)
  | '0' :: 'o' :: cs =>
    (digitRun? (fun c => '0' ≤ c ∧ c ≤ '7') cs).map fun (ds, rest) => (valueOf 8 ds, rest)
  | '0' :: 'b' :: cs =>
    (digitRun? (fun c => c == '0' || c == '1') cs).map fun (ds, rest) => (valueOf 2 ds, rest)
  | _ => none

/-- The number of negative integers of 64 bits, and of those that are not negative. -/
def integerBound : Nat := 0x8000000000000000

/-- A whole number that fits into 64 bits, one of them for the sign. -/
def integer? (cs : List Char) : Option (Toml × List Char) :=
  match based? cs with
  | some (n, rest) => if n < integerBound then some (.integer n, rest) else none
  | none => do
    let (negative, cs) := sign cs
    let (ds, rest) ← decimal? cs
    let n := valueOf 10 ds
    if negative then if n ≤ integerBound then pure (.integer (-n), rest) else none
    else if n < integerBound then pure (.integer n, rest) else none

/-- The exponent of a number. -/
def exponent? : Reader Int
  | e :: cs =>
    if e == 'e' || e == 'E' then do
      let (negative, cs) := sign cs
      let (ds, rest) ← digitRun? Char.isDigit cs
      pure (if negative then -(valueOf 10 ds : Int) else valueOf 10 ds, rest)
    else none
  | [] => none

/-- A number with a fraction, an exponent or both.  A positive number beyond the doubles is
refused. -/
def fractional? (cs : List Char) : Option (List Char) := do
  let (negative, cs) := sign cs
  let (whole, cs) ← decimal? cs
  let (fraction, cs) ← match cs with
    | '.' :: rest => digitRun? Char.isDigit rest
    | _ => (exponent? cs).map fun _ => ([], cs)
  let (exponent, cs) := match exponent? cs with
    | some (e, rest) => (some e, rest)
    | none => (none, cs)
  let n : Json.Number :=
    { negative, whole := valueOf 10 whole, fraction := String.ofList fraction, exponent }
  -- a negative number may be too large, a positive one may not
  if negative || n.isFinite then pure cs else none

/-- One of the special numbers. -/
def special? (cs : List Char) : Option (List Char) :=
  match (sign cs).2 with
  | 'i' :: 'n' :: 'f' :: rest => some rest
  | 'n' :: 'a' :: 'n' :: rest => some rest
  | _ => none

/-- What a reader has consumed. -/
def consumed (cs rest : List Char) : String := String.ofList (cs.take (cs.length - rest.length))

/-- A number that is not whole. -/
def float? (cs : List Char) : Option (Toml × List Char) :=
  ((fractional? cs).or (special? cs)).map fun rest => (.float (consumed cs rest), rest)

/-- Exactly `n` decimal digits, as a number between two bounds. -/
def fixed? (n lo hi : Nat) (cs : List Char) : Option (Nat × List Char) :=
  let ds := cs.take n
  if ds.length = n ∧ ds.all Char.isDigit ∧ lo ≤ valueOf 10 ds ∧ valueOf 10 ds ≤ hi then
    some (valueOf 10 ds, cs.drop n)
  else none

/-- The input after a given character. -/
def after? (c : Char) : List Char → Option (List Char)
  | d :: cs => if d = c then some cs else none
  | [] => none

/-- The number of days of a month. -/
def daysIn (year month : Nat) : Nat :=
  if month = 2 then
    if year % 4 = 0 ∧ (year % 100 ≠ 0 ∨ year % 400 = 0) then 29 else 28
  else if month = 4 ∨ month = 6 ∨ month = 9 ∨ month = 11 then 30
  else 31

/-- The input after a date. -/
def date? (cs : List Char) : Option (List Char) := do
  let (year, cs) ← fixed? 4 0 9999 cs
  let cs ← after? '-' cs
  let (month, cs) ← fixed? 2 1 12 cs
  let cs ← after? '-' cs
  let (_, cs) ← fixed? 2 1 (daysIn year month) cs
  pure cs

/-- The input after a time, fractions of a second included. -/
def time? (cs : List Char) : Option (List Char) := do
  let (_, cs) ← fixed? 2 0 23 cs
  let cs ← after? ':' cs
  let (_, cs) ← fixed? 2 0 59 cs
  let cs ← after? ':' cs
  let (_, cs) ← fixed? 2 0 60 cs
  match cs with
  | '.' :: rest =>
    match rest.span Char.isDigit with
    | ([], _) => pure cs
    | (_, rest) => pure rest
  | _ => pure cs

/-- The input after an offset from universal time, if it starts with one. -/
def skipOffset (cs : List Char) : List Char :=
  let offset? : Option (List Char) := match cs with
    | 'Z' :: rest => some rest
    | 'z' :: rest => some rest
    | c :: rest =>
      if c = '+' ∨ c = '-' then do
        let (_, rest) ← fixed? 2 0 23 rest
        let rest ← after? ':' rest
        let (_, rest) ← fixed? 2 0 59 rest
        pure rest
      else none
    | [] => none
  offset?.getD cs

/-- The input after the time that may follow a date. -/
def skipTimeOfDay (cs : List Char) : List Char :=
  match cs with
  | c :: rest =>
    if c = 'T' ∨ c = 't' ∨ c = ' ' then ((time? rest).map skipOffset).getD cs else cs
  | [] => []

/-- A date, a time, or both. -/
def dateTime? (cs : List Char) : Option (Toml × List Char) :=
  (((date? cs).map skipTimeOfDay).or (time? cs)).map fun rest =>
    (.dateTime (consumed cs rest), rest)

/-! ### Values -/

/-- The items of an array up to its closing bracket, where `item?` reads one. -/
def arrayItems? (item? : Reader Toml) : Nat → Reader (List Toml)
  | 0, _ => none
  | fuel + 1, cs =>
    match skipSpace cs with
    | ']' :: rest => some ([], rest)
    | cs => do
      let (v, rest) ← item? cs
      match skipSpace rest with
      | ',' :: rest =>
        let (vs, rest) ← arrayItems? item? fuel rest
        pure (v :: vs, rest)
      | ']' :: rest => pure ([v], rest)
      | _ => none

/-- A key and its value, where `item?` reads the value. -/
def pair? (item? : Reader Toml) (cs : List Char) :
    Option ((List String × String × Toml) × List Char) := do
  let ((path, key), rest) ← key? cs
  let rest ← after? '=' rest
  let (v, rest) ← item? (skipBlanks rest)
  pure ((path, key, v), rest)

/-- The entries of a table in braces up to the closing one, after `es`. -/
def tableEntries? (item? : Reader Toml) : Nat → Entries → Reader Entries
  | 0, _, _ => none
  | fuel + 1, es, cs => do
    let ((path, key, v), rest) ← pair? item? cs
    let es ← insert? path key v es
    match skipBlanks rest with
    | ',' :: rest => tableEntries? item? fuel es rest
    | '\x7d' :: rest => pure (es, rest)
    | _ => none

/-- A table in braces, of which the opening one has been read. -/
def inlineTable? (item? : Reader Toml) (cs : List Char) : Option (Toml × List Char) :=
  match skipBlanks cs with
  | '\x7d' :: rest => some (.table .inline [], rest)
  | _ => (tableEntries? item? cs.length [] cs).map fun (es, rest) => (.table .inline es, rest)

/-- A number, a date or a time. -/
def numeric? (cs : List Char) : Option (Toml × List Char) :=
  ((dateTime? cs).or (float? cs)).or (integer? cs)

/-- A value around which at most `room` arrays and tables in braces stand. -/
def value? (room : Nat) (cs : List Char) : Option (Toml × List Char) :=
  match cs with
  | '[' :: rest =>
    match room with
    | 0 => none
    | room + 1 => (arrayItems? (value? room) (rest.length + 1) rest).map fun (vs, rest) =>
        (.array vs, rest)
  | '\x7b' :: rest =>
    match room with
    | 0 => none
    | room + 1 => inlineTable? (value? room) rest
  | 't' :: 'r' :: 'u' :: 'e' :: rest => some (.boolean true, rest)
  | 'f' :: 'a' :: 'l' :: 's' :: 'e' :: rest => some (.boolean false, rest)
  | c :: rest =>
    if c = '"' ∨ c = '\'' then (string? (c :: rest)).map fun (s, rest) => (.string s, rest)
    else numeric? (c :: rest)
  | [] => none

/-! ### Documents -/

/-- A document read so far: its entries, and the path of the table that lines add to. -/
structure Progress where
  /-- The entries. -/
  root : Entries := []
  /-- The path of the open table. -/
  current : List String := []

/-- A header in brackets, of which the opening ones have been read. -/
def header? (isArray : Bool) (p : Progress) (cs : List Char) : Option (Progress × List Char) := do
  let ((path, key), rest) ← key? cs
  let rest ← after? ']' rest
  let rest ← if isArray then after? ']' rest else some rest
  let rest ← restOfLine? rest
  let root ← within? (if isArray then openArray? key else openTable? key) path p.root
  pure (⟨root, path ++ [key]⟩, rest)

/-- A line with a key and a value. -/
def entry? (p : Progress) (cs : List Char) : Option (Progress × List Char) := do
  let ((path, key, v), rest) ← pair? (value? nestingLimit) cs
  let rest ← restOfLine? rest
  let root ← within? (insert? path key v) p.current p.root
  pure (⟨root, p.current⟩, rest)

/-- The lines of a document, at most `fuel` of them. -/
def lines? : Nat → Progress → List Char → Option Entries
  | 0, _, _ => none
  | fuel + 1, p, cs =>
    match skipBlanks cs with
    | [] => some p.root
    | '[' :: '[' :: rest => do
      let (p, rest) ← header? true p rest
      lines? fuel p rest
    | '[' :: rest => do
      let (p, rest) ← header? false p rest
      lines? fuel p rest
    | cs =>
      match restOfLine? cs with
      | some rest => lines? fuel p rest
      | none => do
        let (p, rest) ← entry? p cs
        lines? fuel p rest

end Reader

/-- The entries of a document. -/
def parse? (s : String) : Option Entries :=
  let cs := match s.toList with
    | c :: rest => if c.toNat = 0xFEFF then rest else c :: rest
    | [] => []
  Reader.lines? (cs.length + 1) {} cs

end TreeMend.Toml
