import TreeMend.Text.Reach

/-!
# Patterns of ignore files

A pattern is matched against the bytes of a whole path.  A question mark and a star stay within
one component; brackets stand for one byte of a set, a separator included; braces hold
alternatives; two stars that fill a component stand for any number of components; a backslash
takes a character literally.

A pattern is read in two steps.  First its text is cut into lexemes, which settles escapes and
sets.  Then the lexemes are put together, which settles braces and what two stars mean where they
stand.

## Main definitions

* `Ignore.Malformed` — why a text spells no pattern.
* `Ignore.Lexeme`, `Ignore.lexemes` — the first step.
* `Ignore.Token`, `Ignore.Pattern`, `Ignore.Pattern.parse` — the second step.
* `Ignore.Pattern.fits` — whether a pattern matches a path.
-/

namespace TreeMend.Ignore

/-- Why a text spells no pattern. -/
inductive Malformed where
  /-- A range whose first character comes after its last. -/
  | emptyRange (first last : Char)
  /-- A closing brace without an opening one. -/
  | unopenedBraces
  /-- An opening brace without a closing one. -/
  | unclosedBraces
  /-- A backslash at the end. -/
  | danglingEscape
  deriving DecidableEq, Repr, Inhabited

/-- The reason in words. -/
def Malformed.message : Malformed → String
  | .emptyRange first last =>
    "invalid range; '" ++ String.singleton first ++ "' > '" ++ String.singleton last ++ "'"
  | .unopenedBraces =>
    "unopened alternate group; missing '\x7b' (maybe escape '\x7d' with '[\x7d]'?)"
  | .unclosedBraces =>
    "unclosed alternate group; missing '\x7d' (maybe escape '\x7b' with '[\x7b]'?)"
  | .danglingEscape => "dangling '\\'"

/-! ### Lexemes -/

/-- A piece of the text of a pattern. -/
inductive Lexeme where
  /-- A character without a meaning of its own. -/
  | plain (c : Char)
  /-- A character behind a backslash. -/
  | escaped (c : Char)
  /-- A separator. -/
  | slash
  /-- A question mark. -/
  | question
  /-- A star. -/
  | star
  /-- A set in brackets. -/
  | set (negated : Bool) (ranges : List (Char × Char))
  /-- An opening brace. -/
  | opening
  /-- A comma. -/
  | comma
  /-- A closing brace. -/
  | closing
  /-- The place where the text is malformed. -/
  | fault (reason : Malformed)
  deriving DecidableEq, Repr, Inhabited

/-- The ranges of a set up to its closing bracket, and the rest; `none` if it is not closed.
Here `before` are the ranges read, the last one first, and `inRange` says whether a hyphen has
been read after that one.  The first character belongs to the set whatever it is. -/
def ranges (before : List (Char × Char)) (inRange : Bool) : List Char →
    Except Malformed (Option (List (Char × Char) × List Char))
  | [] => .ok none
  | c :: cs =>
    match before with
    | [] => ranges [(c, c)] false cs
    | (lo, hi) :: more =>
      if c = ']' then .ok (some (if inRange then ('-', '-') :: before else before, cs))
      else if inRange then
        if c < lo then .error (.emptyRange lo c) else ranges ((lo, c) :: more) false cs
      else if c = '-' then ranges ((lo, hi) :: more) true cs
      else ranges ((c, c) :: before) false cs

/-- The set whose opening bracket has been read, and the rest; `none` if it is not closed. -/
def set (cs : List Char) : Except Malformed (Option (Lexeme × List Char)) :=
  let (negated, body) := match cs with
    | '!' :: rest => (true, rest)
    | '^' :: rest => (true, rest)
    | _ => (false, cs)
  (ranges [] false body).map (·.map fun (rs, rest) => (.set negated rs, rest))

/-- The lexeme of a character that is neither a backslash nor an opening bracket. -/
def lexeme (c : Char) : Lexeme :=
  if c = '/' then .slash
  else if c = '?' then .question
  else if c = '*' then .star
  else if c = '\x7b' then .opening
  else if c = ',' then .comma
  else if c = '\x7d' then .closing
  else .plain c

/-- The lexemes of a text of at most `fuel` characters, up to the place where it is malformed.
An opening bracket without a closing one stands for itself, and so do all behind it: `sets` says
that no such bracket has been found. -/
def lexemesFrom : Nat → Bool → List Char → List Lexeme
  | 0, _, _ => []
  | _, _, [] => []
  | fuel + 1, sets, c :: cs =>
    if c = '\\' then
      match cs with
      | e :: rest => .escaped e :: lexemesFrom fuel sets rest
      | [] => [.fault .danglingEscape]
    else if c = '[' && sets then
      match set cs with
      | .ok (some (l, rest)) => l :: lexemesFrom fuel sets rest
      | .ok none => .plain c :: lexemesFrom fuel false cs
      | .error reason => [.fault reason]
    else lexeme c :: lexemesFrom fuel sets cs

/-- The lexemes of a text. -/
def lexemes (cs : List Char) : List Lexeme := lexemesFrom cs.length true cs

/-! ### Tokens -/

/-- A part of a pattern. -/
inductive Token where
  /-- The bytes of a character. -/
  | char (c : Char)
  /-- One byte that is no separator. -/
  | anyByte
  /-- Any number of bytes that are no separators. -/
  | anyName
  /-- One byte in one of the ranges, or in none of them. -/
  | set (negated : Bool) (ranges : List (Char × Char))
  /-- Any number of components at the start. -/
  | deepStart
  /-- A separator, and any number of components with a separator behind each. -/
  | deep
  /-- A separator and anything behind it. -/
  | deepEnd
  /-- One of the alternatives; nothing if there are none. -/
  | oneOf (alternatives : List (List Token))
  deriving Inhabited, Repr

/-- A pattern. -/
abbrev Pattern := List Token

/-- Whether a part of a pattern stands for nothing at all. -/
def Token.isVoid : Token → Bool
  | .oneOf [] => true
  | _ => false

/-- Braces that are open. -/
structure Frame where
  /-- The tokens in front of the opening brace, the last one first. -/
  outer : List Token
  /-- The alternatives that are complete, the last one first. -/
  alternatives : List (List Token) := []
  deriving Inhabited, Repr

/-- The braces of a frame, with the tokens of its last alternative, the last one first.  An
alternative that stands for nothing does not count. -/
def Frame.close (f : Frame) (done : List Token) : Token :=
  .oneOf ((done.reverse :: f.alternatives).reverse.filter (!·.all Token.isVoid))

/-- Whether two stars behind this character can fill a component; inside braces they also can
behind what would otherwise start an alternative. -/
def divides (inside : Bool) (c : Char) : Bool := c = '/' || (inside && (c = ',' || c = '\x7b'))

/-- The tokens read, the last one first, when two stars fill the component behind them: `t` takes
the place of the separator in front. -/
def fill (t : Token) : List Token → List Token
  | .deepStart :: done => .deepStart :: done
  | .deepEnd :: done => .deepEnd :: done
  | _ :: done => t :: done
  | [] => [t]

/-- Whether a component ends in front of these lexemes, by the end of the pattern or of an
alternative. -/
def endsHere (inside : Bool) : List Lexeme → Bool
  | [] => true
  | .comma :: _ => inside
  | .closing :: _ => inside
  | _ => false

/-- The pattern that lexemes make, where `frames` are the braces that are open, the innermost
first, `done` the tokens read since the last of them was opened, the last one first, and `divided`
says whether a component starts here. -/
def assemble (frames : List Frame) (done : List Token) (divided : Bool) :
    List Lexeme → Except Malformed Pattern
  | [] => if frames.isEmpty then .ok done.reverse else .error .unclosedBraces
  | .fault reason :: _ => .error reason
  | .star :: .star :: .slash :: rest =>
    if done.isEmpty then assemble frames [.deepStart] true rest
    else if divided then assemble frames (fill .deep done) true rest
    else assemble frames (.char '/' :: .anyName :: .anyName :: done) true rest
  | .star :: .star :: rest =>
    if done.isEmpty && rest.isEmpty then assemble frames [.deepStart] false rest
    else if !done.isEmpty && divided && endsHere (!frames.isEmpty) rest then
      assemble frames (fill .deepEnd done) false rest
    else assemble frames (.anyName :: .anyName :: done) false rest
  | .star :: rest => assemble frames (.anyName :: done) false rest
  | .question :: rest => assemble frames (.anyByte :: done) false rest
  | .set negated rs :: rest => assemble frames (.set negated rs :: done) false rest
  | .slash :: rest => assemble frames (.char '/' :: done) true rest
  | .plain c :: rest => assemble frames (.char c :: done) false rest
  | .escaped c :: rest => assemble frames (.char c :: done) (divides (!frames.isEmpty) c) rest
  | .opening :: rest => assemble ({ outer := done } :: frames) [] false rest
  | .comma :: rest =>
    match frames with
    | [] => assemble [] (.char ',' :: done) false rest
    | f :: frames =>
      assemble ({ f with alternatives := done.reverse :: f.alternatives } :: frames) [] false rest
  | .closing :: rest =>
    match frames with
    | [] => .error .unopenedBraces
    | f :: frames => assemble frames (f.close done :: f.outer) false rest

/-- The pattern that a text spells. -/
def Pattern.parse (cs : List Char) : Except Malformed Pattern := assemble [] [] false (lexemes cs)

/-! ### Matching -/

/-- The bytes of a text. -/
def bytes (cs : List Char) : List UInt8 := cs.flatMap String.utf8EncodeChar

/-- The byte of a separator. -/
def separator : UInt8 := 0x2F

/-- The ranges of bytes that a range of characters stands for.  The bytes of the two characters
count one by one, and the hyphen joins the two bytes that it stands between. -/
def byteRanges (r : Char × Char) : List (UInt8 × UInt8) :=
  let singles := List.map fun b => (b, b)
  let first := String.utf8EncodeChar r.1
  if r.1 = r.2 then singles first
  else match first.getLast?, String.utf8EncodeChar r.2 with
    | some lo, hi :: more => singles first.dropLast ++ (lo, hi) :: singles more
    | _, _ => []

/-- Whether a byte is in a set of ranges of characters. -/
def inSet (rs : List (Char × Char)) (b : UInt8) : Bool :=
  (rs.flatMap byteRanges).any fun r => r.1 ≤ b && b ≤ r.2

/-- The positions behind a separator. -/
def behindSeparator (text : List UInt8) (r : Text.Reach) : Text.Reach :=
  r.one (· == separator) text

/-- The positions behind any bytes. -/
def behindAny (text : List UInt8) (r : Text.Reach) : Text.Reach := r.many (fun _ => true) text

mutual

/-- The positions of a path behind a part of a pattern. -/
def advance (text : List UInt8) (r : Text.Reach) : Token → Text.Reach
  | .char c => (String.utf8EncodeChar c).foldl (fun r b => r.one (b == ·) text) r
  | .anyByte => r.one (· != separator) text
  | .anyName => r.many (· != separator) text
  | .set negated rs => r.one (inSet rs · != negated) text
  | .deepStart => r.or (behindSeparator text (behindAny text r))
  | .deep =>
    let inside := behindSeparator text r
    inside.or (behindSeparator text (behindAny text inside))
  | .deepEnd => behindAny text (behindSeparator text r)
  | .oneOf alternatives =>
    if alternatives.isEmpty then r else advanceAny text r alternatives

/-- The positions of a path behind the parts of a pattern. -/
def advanceAll (text : List UInt8) (r : Text.Reach) : List Token → Text.Reach
  | [] => r
  | t :: ts => advanceAll text (advance text r t) ts

/-- The positions of a path behind one of several alternatives. -/
def advanceAny (text : List UInt8) (r : Text.Reach) : List (List Token) → Text.Reach
  | [] => Text.Reach.nowhere text
  | ts :: alternatives => (advanceAll text r ts).or (advanceAny text r alternatives)

end

/-- Whether a pattern matches a whole path; one that is nothing but any number of components
matches every path. -/
def Pattern.fits (p : Pattern) (path : List UInt8) : Bool :=
  match p with
  | [.deepStart] => true
  | _ => (advanceAll path (Text.Reach.start path) p).atEnd

end TreeMend.Ignore
