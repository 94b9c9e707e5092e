import TreeMend.Json.Value
import TreeMend.Path
import TreeMend.Tree.Json

/-!
# Violations

A finding of a rule: which rule, how severe, where, and what it says.

## Main definitions

* `Severity`, `Location`, `Violation` — the parts of a finding.
* `Violation.display` — a finding on one line.
* `Violation.toJson`, `Violation.ofJson?` — findings as JSON.
-/

namespace TreeMend

/-- How severe a finding is. -/
inductive Severity where
  /-- It should be looked at. -/
  | warning
  /-- It has to be mended. -/
  | error
  deriving DecidableEq, Repr, Inhabited

/-- The name of a severity. -/
def Severity.label : Severity → String
  | .warning => "warning"
  | .error => "error"

/-- The severity of a name. -/
def Severity.ofLabel? : String → Option Severity
  | "warning" => some .warning
  | "error" => some .error
  | _ => none

/-- A place in a source file. -/
structure Location where
  /-- The path of the file below the root of the run. -/
  file : Path
  /-- The line, counted from one. -/
  line : Nat
  /-- The column in characters, counted from one. -/
  column : Nat
  /-- The byte offset. -/
  offset : Nat := 0
  /-- The number of bytes. -/
  length : Nat := 0
  deriving DecidableEq, Repr, Inhabited

/-- A finding. -/
structure Violation where
  /-- The code of the rule. -/
  code : String
  /-- The name of the rule. -/
  rule : String
  /-- How severe it is. -/
  severity : Severity
  /-- Where it is. -/
  location : Location
  /-- What is wrong. -/
  message : String
  /-- How it could be mended. -/
  suggestion : Option String := none
  deriving DecidableEq, Repr, Inhabited

namespace Location

/-- The place as path, line and column. -/
def display (l : Location) : String :=
  l.file ++ ":" ++ toString l.line ++ ":" ++ toString l.column

/-- The object of a place. -/
def toJson (l : Location) : Json :=
  .obj [("file", .str l.file), ("line", .nat l.line), ("column", .nat l.column),
    ("offset", .nat l.offset), ("length", .nat l.length)]

end Location

namespace Violation

/-- The finding on one line. -/
def display (v : Violation) : String :=
  v.location.display ++ ": " ++ v.severity.label ++ " [" ++ v.code ++ "] " ++ v.message

/-- The object of a finding; without a suggestion that member is left out. -/
def toJson (v : Violation) : Json :=
  .obj ([("code", .str v.code), ("rule", .str v.rule), ("severity", .str v.severity.label),
    ("location", v.location.toJson), ("message", .str v.message)] ++
    (match v.suggestion with
      | some s => [("suggestion", .obj [("message", .str s)])]
      | none => []))

end Violation

/-! ### Reading

A record is an object with its members in any order, others passed over, or an array of its
members in their fixed order.  An enumeration is the name of a case, or an object with that name
as its only key and `null` as the value. -/

namespace Json

/-- The case that a value names, where `ofLabel?` knows the names. -/
def case? {α : Type} (ofLabel? : String → Option α) : Json → Option α
  | .string text => text.bind ofLabel?
  | .object [(some name, .null)] => ofLabel? name
  | _ => none

/-- The members of a record in the order `keys`, each with its value if it is there. -/
def record? (keys : List String) : Json → Option (List (Option Json))
  | .object members =>
    if members.any (·.1.isNone) then none
    else some (keys.map fun key => (entries members).lookup key)
  | .array items =>
    if items.length ≤ keys.length then
      some (items.map some ++ List.replicate (keys.length - items.length) none)
    else none
  | _ => none

end Json

/-- The place of a value. -/
def Location.ofJson? (v : Json) : Option Location := do
  match ← Json.record? ["file", "line", "column", "offset", "length"] v with
  | [file, line, column, offset, length] =>
    pure { file := ← file.bind Json.text?, line := ← line.bind Json.nat?,
           column := ← column.bind Json.nat?, offset := ← offset.bind Json.nat?,
           length := ← length.bind Json.nat? }
  | _ => none

/-- The message of a suggestion. -/
def suggestionOfJson? (v : Json) : Option String := do
  match ← Json.record? ["message"] v with
  | [message] => message.bind Json.text?
  | _ => none

/-- The finding of a value. -/
def Violation.ofJson? (v : Json) : Option Violation := do
  match ← Json.record? ["code", "rule", "severity", "location", "message", "suggestion"] v with
  | [code, rule, severity, location, message, suggestion] =>
    let found : Violation :=
      { code := ← code.bind Json.text?, rule := ← rule.bind Json.text?,
        severity := ← severity.bind (Json.case? Severity.ofLabel?),
        location := ← location.bind Location.ofJson?, message := ← message.bind Json.text? }
    match suggestion with
    | none | some .null => pure found
    | some s => pure { found with suggestion := some (← suggestionOfJson? s) }
  | _ => none

end TreeMend
