import TreeMend.Report.Violation
import TreeMend.Text.Bytes

/-!
# Source files

A source file knows its text and its path below the root of a run, which is all that is needed to
turn byte offsets into places.

## Main definitions

* `sourceExtensions` — which files hold source text.
* `SourceFile.lineColumn` — the line and column of a byte offset.
* `SourceFile.location` — the place of a byte range.
-/

namespace TreeMend

/-- The extensions of the files that hold source text. -/
def sourceExtensions : List String := ["ts", "tsx", "mts", "cts"]

/-- A source file of a run. -/
structure SourceFile where
  /-- The path below the root of the run. -/
  relative : Path
  /-- The text. -/
  content : String
  deriving DecidableEq, Repr, Inhabited

namespace SourceFile

/-- The file at a path, in a run over the directory `root`; a path outside it stays whole. -/
def under (root path : Path) (content : String) : SourceFile :=
  ⟨(Path.below? path root).getD path, content⟩

/-- The line and column after some text, both counted from one: a line feed starts a new line. -/
def advance : Nat × Nat → List Char → Nat × Nat
  | p, [] => p
  | (line, column), c :: cs =>
    advance (if c = '\n' then (line + 1, 1) else (line, column + 1)) cs

/-- The line and column of a byte offset, counted in characters; an offset inside a character
counts as its start, one beyond the end as the end. -/
def lineColumn (f : SourceFile) (offset : Nat) : Nat × Nat :=
  advance (1, 1) (Text.takeWithin offset f.content.toList)

/-- The place of a byte range. -/
def location (f : SourceFile) (span : Span) : Location :=
  let (line, column) := f.lineColumn span.start
  ⟨f.relative, line, column, span.start, span.length⟩

end SourceFile

end TreeMend
