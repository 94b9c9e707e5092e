import TreeMend.Files.Ignore.Pattern
import TreeMend.Path
import TreeMend.Text.Blank
import TreeMend.Text.Lines

/-!
# Ignore files

A directory may hold a file that lists, one pattern a line, which entries below it are passed
over.  A pattern is matched against the path from that directory; a pattern without a slash in
front or inside may match at any depth.  A slash at the end restricts a pattern to directories, an
exclamation mark in front takes entries back in.  Of several patterns that match the last one
counts.

A line that spells no pattern is left out.  Bytes that are no text end the file at their line.

## Main definitions

* `Ignore.Rule`, `Ignore.Listing` — the rule of a line, and the rules of a file.
* `Ignore.parse` — the rules of a file.
* `Ignore.Listing.verdict?` — what the rules of a file say about a path.
-/

namespace TreeMend.Ignore

/-- The rule of a line. -/
structure Rule where
  /-- The pattern. -/
  pattern : Pattern
  /-- Whether entries are taken back in. -/
  negated : Bool
  /-- Whether only directories are meant. -/
  onlyDirectories : Bool
  deriving Repr, Inhabited

/-- What is wrong with a line. -/
inductive Problem where
  /-- The line spells no pattern. -/
  | malformed (line : String) (reason : Malformed)
  /-- The line is no text. -/
  | invalidText
  deriving DecidableEq, Repr, Inhabited

/-- The problem in words. -/
def Problem.message : Problem → String
  | .malformed line reason => "error parsing glob '" ++ line ++ "': " ++ reason.message
  | .invalidText => "stream did not contain valid UTF-8"

/-- The rules of a file. -/
structure Listing where
  /-- The rules, in order. -/
  rules : List Rule := []
  /-- What is wrong, each with the number of its line. -/
  problems : List (Nat × Problem) := []
  deriving Repr, Inhabited

/-- What is to be said about a file, in words; nothing if all that is wrong with it is that it
could not be read to its end. -/
def Listing.complaints (l : Listing) : List String :=
  match l.problems with
  | [(_, .invalidText)] => []
  | problems => problems.map fun (n, p) => "line " ++ toString n ++ ": " ++ p.message

/-! ### Reading -/

/-- The line without the blanks at its end, unless it ends with an escaped one. -/
def trimLine (cs : List Char) : List Char :=
  if [' ', '\\'].isPrefixOf cs.reverse then cs else Text.trimEnd cs

/-- The pattern without the slash at its end, escaped or not, and whether there was one. -/
def trimSlash (cs : List Char) : List Char × Bool :=
  match cs.reverse with
  | '/' :: '\\' :: rest => (rest.reverse, true)
  | '/' :: rest => (rest.reverse, true)
  | _ => (cs, false)

/-- The text of the pattern that is matched against whole paths.  A pattern that is neither
`rooted` nor has a slash may match at any depth, and one that ends with everything below a
directory does not match the directory itself. -/
def wholePath (rooted : Bool) (cs : List Char) : List Char :=
  let cs := if rooted || cs.contains '/' || cs == ['*', '*'] then cs else '*' :: '*' :: '/' :: cs
  -- everything below a directory is at least one component further down
  if ['*', '*', '/'].isPrefixOf cs.reverse then cs ++ ['/', '*'] else cs

/-- The rule of a line that is neither empty nor a comment. -/
def rule (cs : List Char) : Except Malformed Rule := do
  let (negated, rooted, cs) := match cs with
    | '\\' :: '!' :: rest => (false, false, '!' :: rest)
    | '\\' :: '#' :: rest => (false, false, '#' :: rest)
    | '!' :: '/' :: rest => (true, true, rest)
    | '!' :: rest => (true, false, rest)
    | '/' :: rest => (false, true, rest)
    | cs => (false, false, cs)
  let (cs, onlyDirectories) := trimSlash cs
  let pattern ← Pattern.parse (wholePath rooted cs)
  pure { pattern, negated, onlyDirectories }

/-- The listing with line number `n` in front. -/
def Listing.addLine (n : Nat) (line : List Char) (l : Listing) : Listing :=
  let cs := trimLine line
  if line.head? == some '#' || cs.isEmpty then l
  else match rule cs with
    | .ok r => { l with rules := r :: l.rules }
    | .error reason =>
      { l with problems := (n, .malformed (String.ofList cs) reason) :: l.problems }

/-- The rules of the lines from number `n` on. -/
def parseLines (n : Nat) : List (List UInt8) → Listing
  | [] => {}
  | line :: lines =>
    match Text.ofBytes? line with
    | some text =>
      let cs := text.toList
      -- byte order marks at the start of the file do not count
      let cs := if n = 1 then cs.dropWhile (·.toNat == 0xFEFF) else cs
      (parseLines (n + 1) lines).addLine n cs
    | none => { problems := [(n, .invalidText)] }

/-- The rules of a file. -/
def parse (content : ByteArray) : Listing := parseLines 1 (Text.lines content.data.toList)

/-! ### Matching -/

/-- Whether a rule is about a path. -/
def Rule.applies (r : Rule) (path : List UInt8) (isDirectory : Bool) : Bool :=
  (!r.onlyDirectories || isDirectory) && r.pattern.fits path

/-- What the rules of a file say about a path below its directory: whether it is passed over, or
`none` if no rule is about it. -/
def Listing.verdict? (l : Listing) (path : Path) (isDirectory : Bool) : Option Bool :=
  let path := bytes path.toList
  (l.rules.reverse.find? (·.applies path isDirectory)).map (!·.negated)

end TreeMend.Ignore
