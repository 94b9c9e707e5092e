import TreeMend.Json.Value
import TreeMend.Text.Hex

/-!
# Printing JSON

Two layouts: everything on one line, and one item or member a line, indented by two blanks for
each level.  Only what has to be escaped is escaped.

## Main definitions

* `Json.quoted` — a string literal.
* `Json.compact` — a value on one line.
* `Json.pretty` — a value over several lines.
-/

namespace TreeMend.Json

/-- A lower-case hexadecimal digit. -/
def lowerHexDigit (d : Nat) : Char :=
  if d < 10 then Char.ofNat ('0'.toNat + d) else Char.ofNat ('a'.toNat + (d - 10))

/-- A character as it stands inside a string literal. -/
def escapeChar (c : Char) : List Char :=
  if c = '"' then ['\\', '"']
  else if c = '\\' then ['\\', '\\']
  else if c = '\n' then ['\\', 'n']
  else if c = '\r' then ['\\', 'r']
  else if c = '\t' then ['\\', 't']
  else if c.toNat = 8 then ['\\', 'b']
  else if c.toNat = 12 then ['\\', 'f']
  else if c.toNat < 0x20 then
    ['\\', 'u', '0', '0', lowerHexDigit (c.toNat / 16), lowerHexDigit (c.toNat % 16)]
  else [c]

/-- A text as a string literal. -/
def quoted (s : String) : String :=
  "\"" ++ String.ofList (s.toList.flatMap escapeChar) ++ "\""

/-- A number by its parts. -/
def Number.render (n : Number) : String :=
  (if n.negative then "-" else "") ++ toString n.whole ++
    (if n.fraction == "" then "" else "." ++ n.fraction) ++
    (match n.exponent with
      | some e => "e" ++ toString e
      | none => "")

mutual

/-- A value on one line. -/
def compact : Json → String
  | .null => "null"
  | .bool b => if b then "true" else "false"
  | .number n => n.render
  | .string text => quoted (text.getD "")
  | .array items => "[" ++ ",".intercalate (compactItems items) ++ "]"
  | .object members => "\x7b" ++ ",".intercalate (compactMembers members) ++ "\x7d"

/-- The items, each on its own. -/
def compactItems : List Json → List String
  | [] => []
  | v :: vs => compact v :: compactItems vs

/-- The members, each with its key. -/
def compactMembers : List (Option String × Json) → List String
  | [] => []
  | (k, v) :: ms => (quoted (k.getD "") ++ ":" ++ compact v) :: compactMembers ms

end

/-- A line break followed by the blanks of a level. -/
def breakAt (level : Nat) : String :=
  "\n" ++ String.ofList (List.replicate (2 * level) ' ')

/-- The parts of a container, one a line. -/
def spread (opening closing : String) (level : Nat) (parts : List String) : String :=
  opening ++ breakAt (level + 1) ++ ("," ++ breakAt (level + 1)).intercalate parts ++
    breakAt level ++ closing

mutual

/-- A value over several lines, standing at a level; empty containers stay on one line. -/
def prettyAt (level : Nat) : Json → String
  | .null => "null"
  | .bool b => if b then "true" else "false"
  | .number n => n.render
  | .string text => quoted (text.getD "")
  | .array [] => "[]"
  | .array (v :: vs) => spread "[" "]" level (prettyItems (level + 1) (v :: vs))
  | .object [] => "\x7b\x7d"
  | .object (m :: ms) => spread "\x7b" "\x7d" level (prettyMembers (level + 1) (m :: ms))

/-- The items at a level. -/
def prettyItems (level : Nat) : List Json → List String
  | [] => []
  | v :: vs => prettyAt level v :: prettyItems level vs

/-- The members at a level. -/
def prettyMembers (level : Nat) : List (Option String × Json) → List String
  | [] => []
  | (k, v) :: ms => (quoted (k.getD "") ++ ": " ++ prettyAt level v) :: prettyMembers level ms

end

/-- A value over several lines. -/
def pretty (v : Json) : String := prettyAt 0 v

end TreeMend.Json
