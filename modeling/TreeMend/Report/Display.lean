import TreeMend.Json.Printer
import TreeMend.Report.Diagnostic
import TreeMend.Report.Summary
import TreeMend.SourceFile

/-!
# Showing a result

Four ways to show the result of a run: a few lines for each finding, with colours; diagnostics
with the line of source they are about; JSON; and one line for each finding.

## Main definitions

* `Layout` — the four ways.
* `Summary.lines` — the lines of a result in one of them.
-/

namespace TreeMend

/-- A way to show a result. -/
inductive Layout where
  /-- A few lines for each finding. -/
  | text
  /-- Diagnostics next to the source. -/
  | pretty
  /-- JSON. -/
  | json
  /-- One line for each finding. -/
  | compact
  deriving DecidableEq, Repr, Inhabited

namespace Layout

/-- The name of a layout. -/
def label : Layout → String
  | .text => "text"
  | .pretty => "pretty"
  | .json => "json"
  | .compact => "compact"

/-- All layouts. -/
def all : List Layout := [.text, .pretty, .json, .compact]

/-- The layout of a name. -/
def ofLabel? (name : String) : Option Layout := all.find? (·.label == name)

end Layout

/-! ### Colours -/

/-- A colour of a terminal. -/
inductive Colour where
  /-- For errors. -/
  | red
  /-- For warnings. -/
  | yellow
  /-- For success. -/
  | green
  deriving DecidableEq, Repr, Inhabited

/-- The number of a colour. -/
def Colour.code : Colour → String
  | .red => "31"
  | .yellow => "33"
  | .green => "32"

/-- A text in a colour. -/
def Colour.paint (c : Colour) (s : String) : String :=
  "\x1b[" ++ c.code ++ "m" ++ s ++ "\x1b[0m"

/-- The colour of a severity. -/
def Severity.colour : Severity → Colour
  | .error => .red
  | .warning => .yellow

/-! ### Layouts -/

/-- Each of the texts on a line of its own. -/
def unlines (ls : List String) : String := String.join (ls.map (· ++ "\n"))

/-- A finding over a few lines, with a blank one at the end. -/
def Violation.paragraph (v : Violation) : List String :=
  [v.code ++ " " ++ v.rule ++ " at " ++ v.location.display,
    "  " ++ v.severity.colour.paint v.severity.label ++ ": " ++ v.message] ++
    (v.suggestion.map ("  = help: " ++ ·)).toList ++ [""]

/-- The line of a text with a number counted from one; empty if there is none. -/
def lineOf (content : String) (number : Nat) : String :=
  (content.splitOn "\n").getD (number - 1) ""

/-- A diagnostic of a finding in one of the given files, with a blank line at the end. -/
def Violation.excerpt (files : List SourceFile) (v : Violation) : List String :=
  let d := v.diagnostic
  let content := ((files.find? fun f =>
    (Path.compare f.relative v.location.file).isEq).map (·.content)).getD ""
  [d.headline, "  at " ++ v.location.display,
    "  " ++ toString v.location.line ++ " | " ++ lineOf content v.location.line,
    "  " ++ d.label] ++ (d.help.map ("  help: " ++ ·)).toList ++ [""]

namespace Summary

/-- The colour of a result. -/
def colour (s : Summary) : Colour :=
  if 0 < s.errors then .red else if 0 < s.warnings then .yellow else .green

/-- The result in numbers. -/
def total (s : Summary) : String :=
  s.colour.paint ("Found " ++ toString s.errors ++ " error(s), " ++ toString s.warnings ++
    " warning(s) in " ++ toString s.filesChecked ++ " file(s)")

/-- The lines of the result in a layout; `files` are the files that it is about. -/
def lines (s : Summary) (files : List SourceFile) : Layout → List String
  | .text =>
    if s.violations.isEmpty then [Colour.green.paint "No issues found"]
    else s.violations.flatMap Violation.paragraph ++ [s.total]
  | .pretty =>
    if s.violations.isEmpty then ["No issues found"]
    else s.violations.flatMap (Violation.excerpt files) ++ [s.total]
  | .json => [s.toJson.pretty]
  | .compact => s.violations.map Violation.display

end Summary

end TreeMend
