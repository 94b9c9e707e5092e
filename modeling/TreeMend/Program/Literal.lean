import TreeMend.Text.Blank
import TreeMend.Text.Hex

/-!
# String literals

A literal is kept as the value it denotes and the quotes it is written in.  Reading resolves
escape sequences; writing escapes what cannot stand raw, so that a literal is always one closed
token on one line.

Numeric escapes that do not denote a character stay as they are written: their characters become
part of the value.  An escaped character that is no known escape stands for itself, and a
backslash before a line break joins the two lines.

## Main definitions

* `Quote`, `Literal` — the two quotes, and literals.
* `Literal.unescape` — the value of the text between the quotes.
* `Literal.ofSource?` — the literal that a source text holds.
* `Literal.render` — the source text of a literal.
-/

namespace TreeMend

/-- The quotes around a string. -/
inductive Quote where
  /-- An apostrophe at either end. -/
  | single
  /-- A quotation mark at either end. -/
  | double
  deriving DecidableEq, Repr, Inhabited

/-- The character that a quote is. -/
def Quote.char : Quote → Char
  | .single => '\''
  | .double => '"'

/-- The quote that a character is. -/
def Quote.ofChar? (c : Char) : Option Quote :=
  if c = '\'' then some .single else if c = '"' then some .double else none

/-- A string literal. -/
structure Literal where
  /-- The string that the literal denotes. -/
  value : String
  /-- The quotes that it is written in. -/
  quote : Quote
  deriving DecidableEq, Repr, Inhabited

namespace Literal

/-! ### Reading -/

/-- The character that hexadecimal digits denote, or else the escape as it is written. -/
def numericEscape (lead digits tail : List Char) : List Char :=
  match (Text.signedHexValue? digits).bind Text.scalar? with
  | some c => [c]
  | none => lead ++ digits ++ tail

/-- What a backslash before `c` stands for, where no further character matters. -/
def plainEscape (c : Char) : List Char :=
  if c = 'n' then ['\n']
  else if c = 'r' then ['\r']
  else if c = 't' then ['\t']
  else if c = 'b' then [Char.ofNat 8]
  else if c = 'f' then [Char.ofNat 12]
  else if c = 'v' then [Char.ofNat 11]
  else if c = '\n' ∨ c.toNat = 0x2028 ∨ c.toNat = 0x2029 then []
  else [c]

mutual

/-- The value of the text between the quotes. -/
def unescape : List Char → List Char
  | [] => []
  | c :: cs => if c = '\\' then unescapeAfter cs else c :: unescape cs

/-- The value of what follows a backslash, the escape itself included. -/
def unescapeAfter : List Char → List Char
  | [] => ['\\']
  | e :: cs =>
    match e, cs with
    | 'x', a :: b :: rest => numericEscape ['\\', 'x'] [a, b] [] ++ unescape rest
    | 'x', short => '\\' :: 'x' :: short
    | 'u', '\x7b' :: rest => unescapeBraced [] rest
    | 'u', a :: b :: c :: d :: rest =>
      numericEscape ['\\', 'u'] [a, b, c, d] [] ++ unescape rest
    | 'u', short => '\\' :: 'u' :: short
    | '0', [] => [Char.ofNat 0]
    | '0', d :: rest => (if d.isDigit then '0' else Char.ofNat 0) :: unescape (d :: rest)
    | '\r', '\n' :: rest => unescape rest
    | '\r', rest => unescape rest
    | e, rest => plainEscape e ++ unescape rest

/-- The value of what follows an opening brace, of which `digits` has been read. -/
def unescapeBraced (digits : List Char) : List Char → List Char
  | [] => numericEscape ['\\', 'u', '\x7b'] digits ['\x7d']
  | c :: cs =>
    if c = '\x7d' then numericEscape ['\\', 'u', '\x7b'] digits ['\x7d'] ++ unescape cs
    else unescapeBraced (digits ++ [c]) cs

end

/-- The text between the quotes, and which quotes they are; blanks around them do not count. -/
def split? (text : String) : Option (Quote × List Char) :=
  match Text.trim text.toList with
  | [] => none
  | c :: rest =>
    match Quote.ofChar? c with
    | none => none
    | some q => if rest.getLast? = some c then some (q, rest.dropLast) else none

/-- The literal that a source text holds, if it stands between two equal quotes. -/
def ofSource? (text : String) : Option Literal :=
  (split? text).map fun (q, body) => ⟨String.ofList (unescape body), q⟩

/-! ### Writing -/

/-- A character of a value as it stands between quotes; `next` is the one after it. -/
def escapeChar (q : Quote) (c : Char) (next : Option Char) : List Char :=
  if c = '\\' then ['\\', '\\']
  else if c = '\n' then ['\\', 'n']
  else if c = '\r' then ['\\', 'r']
  else if c = '\t' then ['\\', 't']
  else if c.toNat = 8 then ['\\', 'b']
  else if c.toNat = 12 then ['\\', 'f']
  else if c.toNat = 11 then ['\\', 'v']
  else if c.toNat = 0 then
    if next.any Char.isDigit then ['\\', 'x', '0', '0'] else ['\\', '0']
  else if c.toNat = 0x2028 then ['\\', 'u', '2', '0', '2', '8']
  else if c.toNat = 0x2029 then ['\\', 'u', '2', '0', '2', '9']
  else if c = q.char then ['\\', c]
  else if Text.isControl c then ['\\', 'u'] ++ Text.hex4 c.toNat
  else [c]

/-- A value as it stands between quotes. -/
def escape (q : Quote) : List Char → List Char
  | [] => []
  | c :: cs => escapeChar q c cs.head? ++ escape q cs

/-- The source text of a literal. -/
def render (l : Literal) : String :=
  String.ofList (l.quote.char :: escape l.quote l.value.toList ++ [l.quote.char])

@[simp] theorem unescape_nil : unescape [] = [] := rfl

theorem unescape_cons (c : Char) (cs : List Char) :
    unescape (c :: cs) = if c = '\\' then unescapeAfter cs else c :: unescape cs := by
  rw [unescape]

@[simp] theorem escape_nil (q : Quote) : escape q [] = [] := rfl

@[simp] theorem escape_cons (q : Quote) (c : Char) (cs : List Char) :
    escape q (c :: cs) = escapeChar q c cs.head? ++ escape q cs := rfl

end Literal

end TreeMend
