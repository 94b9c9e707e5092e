import TreeMend.ParseTree.Basic
import TreeMend.Path

/-!
# Dialects

TypeScript comes in two dialects with a grammar each: the plain one and the one with markup
elements.  The extension of a file decides between them.

## Main definitions

* `Dialect`, `Dialect.ofPath` — the dialects, and the dialect of a file.
* `Parser` — a parser for both dialects.
-/

namespace TreeMend

/-- A dialect of the source language. -/
inductive Dialect where
  /-- Without markup elements. -/
  | plain
  /-- With markup elements. -/
  | markup
  deriving DecidableEq, Repr, Inhabited

/-- The dialect of the file with a path. -/
def Dialect.ofPath (p : Path) : Dialect :=
  match Path.extension? p with
  | some "tsx" | some "jsx" => .markup
  | _ => .plain

/-- A parser: what it makes of the text of the file with a path, read in a dialect. -/
abbrev Parser := Dialect → Path → String → ParseTree

end TreeMend
