import TreeMend.Check
import TreeMend.Report.Summary
import TreeMend.Rule.Catalog
import TreeMend.World

/-!
# Linting files

Each file is read, parsed and checked in turn; the findings of all of them make one result, in
order.

## Main definitions

* `Lint.Checked` — a file with what was found in it.
* `Lint.summarize` — the result of a list of checked files.
* `Lint.run` — linting the files with the given paths.
-/

namespace TreeMend.Lint

/-- A file with what was found in it. -/
structure Checked where
  /-- The file. -/
  file : SourceFile
  /-- The findings. -/
  violations : List Violation
  deriving DecidableEq, Repr, Inhabited

/-- The result of a list of checked files: their findings in order, and how many files they are. -/
def summarize (checked : List Checked) : Summary :=
  (checked.foldl (fun (s : Summary) c => s.extend ⟨c.violations, 1⟩) {}).sort

/-- Read, parse and check the file with a path, in a run over the directory `root`. -/
def checkFile (w : World) (root : Path) (config : Config) (p : Path) : Task Checked := do
  let content ← w.read p
  let tree ← w.parseFile p content
  let file := SourceFile.under root p content
  let found := (⟨config, Catalog.checks, some file⟩ : Check.Run).check 0 tree
  Traced.recordAll found.log
  pure ⟨file, found.violations⟩

/-- Lint the files with the given paths: the result, and the files that were read. -/
def run (w : World) (root : Path) (config : Config) (paths : List Path) :
    Task (Summary × List SourceFile) := do
  let checked ← paths.mapM (checkFile w root config)
  pure (summarize checked, checked.map (·.file))

end TreeMend.Lint
