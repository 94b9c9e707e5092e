import TreeMend.Report.Violation

/-!
# The result of a run

All the findings of a run over several files, and how many files were looked at.

## Main definitions

* `Summary` — the result of a run.
* `Summary.push`, `Summary.extend`, `Summary.sort` — building a result up.
* `Summary.errors`, `Summary.warnings`, `Summary.hasErrors` — counting findings.
-/

namespace TreeMend

/-- The result of a run. -/
structure Summary where
  /-- The findings. -/
  violations : List Violation := []
  /-- The number of files looked at, a machine word. -/
  filesChecked : Nat := 0
  deriving DecidableEq, Repr, Inhabited

namespace Summary

/-- The result with one more finding. -/
def push (s : Summary) (v : Violation) : Summary :=
  { s with violations := s.violations ++ [v] }

/-- Two results in one; the number of files is counted in a word of 64 bits. -/
def extend (s t : Summary) : Summary :=
  ⟨s.violations ++ t.violations, (s.filesChecked + t.filesChecked) % UInt64.size⟩

/-- Findings in order: by file, then by line, then by column. -/
def compare : Violation → Violation → Ordering :=
  compareLex (fun v w => Path.compare v.location.file w.location.file)
    (compareLex (compareOn fun v => v.location.line) (compareOn fun v => v.location.column))

/-- The result with its findings in order; findings at one place keep theirs. -/
def sort (s : Summary) : Summary :=
  { s with violations := s.violations.mergeSort fun v w => (compare v w).isLE }

/-- The number of findings of a severity. -/
def count (s : Summary) (severity : Severity) : Nat :=
  s.violations.countP (·.severity == severity)

/-- The number of errors. -/
def errors (s : Summary) : Nat := s.count .error

/-- The number of warnings. -/
def warnings (s : Summary) : Nat := s.count .warning

/-- Whether some finding is an error. -/
def hasErrors (s : Summary) : Bool := s.violations.any (·.severity == .error)

/-- The object of a result. -/
def toJson (s : Summary) : Json :=
  .obj [("violations", .array (s.violations.map Violation.toJson)),
    ("files_checked", .nat s.filesChecked)]

/-- The result of a value. -/
def ofJson? (v : Json) : Option Summary := do
  match ← Json.record? ["violations", "files_checked"] v with
  | [some (.array items), some files] =>
    pure ⟨← items.mapM Violation.ofJson?, ← files.nat?⟩
  | _ => none

end Summary

end TreeMend
