import TreeMend.Text.Reach

/-!
# Exclude patterns

A pattern is matched against the whole text of a path.  A star stands for any text and a question
mark for any character, separators included; two stars that fill a whole component stand for any
number of components; brackets stand for one character of a set, or for one outside it after an
exclamation mark.

## Main definitions

* `Glob.Token`, `Glob` — the parts of a pattern, and patterns.
* `Glob.parse?` — the pattern that a text spells; `none` if it is malformed.
* `Glob.fits` — whether a pattern matches a text.
-/

namespace TreeMend

/-- A part of a pattern. -/
inductive Glob.Token where
  /-- The character itself. -/
  | char (c : Char)
  /-- Any one character. -/
  | anyChar
  /-- One character in one of the ranges, or in none of them. -/
  | set (negated : Bool) (ranges : List (Char × Char))
  /-- Any text. -/
  | anyText
  /-- Any number of whole components. -/
  | anyComponents
  deriving DecidableEq, Repr, Inhabited

/-- A pattern. -/
abbrev Glob := List Glob.Token

namespace Glob

/-! ### Reading -/

/-- The ranges of a set: two characters around a hyphen, or single ones. -/
def ranges : List Char → List (Char × Char)
  | a :: '-' :: b :: cs => (a, b) :: ranges cs
  | a :: cs => (a, a) :: ranges cs
  | [] => []

/-- The set whose opening bracket has been read, and the rest.  The first character belongs to the
set whatever it is. -/
def set? (cs : List Char) : Option (Token × List Char) :=
  let (negated, body) := match cs with
    | '!' :: rest => (true, rest)
    | _ => (false, cs)
  match body with
  | [] => none
  | first :: rest =>
    match rest.span (· != ']') with
    | (inside, ']' :: after) => some (.set negated (ranges (first :: inside)), after)
    | _ => none

/-- The pattern that the rest of a text spells, where `start` says whether a component starts
here. -/
def tokens? : Nat → Bool → List Char → Option Glob
  | 0, _, _ => none
  | _, _, [] => some []
  | fuel + 1, start, c :: cs =>
    if c = '*' then
      match cs with
      | '*' :: '*' :: _ => none
      | '*' :: '/' :: rest =>
        if start then (tokens? fuel true rest).map (.anyComponents :: ·) else none
      | ['*'] => if start then some [.anyComponents] else none
      | '*' :: _ => none
      | _ => (tokens? fuel false cs).map (.anyText :: ·)
    else if c = '?' then (tokens? fuel false cs).map (.anyChar :: ·)
    else if c = '[' then do
      let (set, rest) ← set? cs
      (tokens? fuel false rest).map (set :: ·)
    else (tokens? fuel (c == '/') cs).map (.char c :: ·)

/-- The pattern that a text spells. -/
def parse? (text : String) : Option Glob := tokens? (text.length + 1) true text.toList

/-! ### Matching -/

/-- Whether `c` is in one of the ranges. -/
def inRanges (rs : List (Char × Char)) (c : Char) : Bool :=
  rs.any fun r => r.1 ≤ c && c ≤ r.2

/-- The positions of a text behind a part of a pattern. -/
def Token.advance (text : List Char) (r : Text.Reach) : Token → Text.Reach
  | .char a => r.one (a == ·) text
  | .anyChar => r.one (fun _ => true) text
  | .set negated rs => r.one (inRanges rs · != negated) text
  | .anyText => r.many (fun _ => true) text
  | .anyComponents =>
    -- no component, all up to some separator, or the whole rest
    (r.or ((r.many (fun _ => true) text).one (· == '/') text)).or (r.last text)

/-- Whether a pattern matches a whole text. -/
def matchesChars (g : Glob) (text : List Char) : Bool :=
  (g.foldl (Token.advance text) (Text.Reach.start text)).atEnd

/-- Whether a pattern matches a whole path. -/
def fits (g : Glob) (path : String) : Bool := matchesChars g path.toList

end Glob

end TreeMend
