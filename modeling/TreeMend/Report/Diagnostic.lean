import TreeMend.Report.Violation

/-!
# Diagnostics

A violation as it is shown next to the source text: a headline, a label under the place, and
perhaps a word of help.

## Main definitions

* `Diagnostic` — what is shown.
* `Violation.diagnostic` — the diagnostic of a violation.
-/

namespace TreeMend

/-- What is shown of a violation next to the source text. -/
structure Diagnostic where
  /-- The first line. -/
  headline : String
  /-- A hint on what to do. -/
  help : Option String
  /-- What stands under the place. -/
  label : String
  /-- The byte offset of the place. -/
  offset : Nat
  /-- The number of bytes of the place. -/
  length : Nat
  deriving DecidableEq, Repr, Inhabited

/-- The diagnostic of a violation. -/
def Violation.diagnostic (v : Violation) : Diagnostic where
  headline := "[" ++ v.code ++ "] " ++ v.message
  help := v.suggestion
  label := v.rule
  offset := v.location.offset
  length := v.location.length

end TreeMend
