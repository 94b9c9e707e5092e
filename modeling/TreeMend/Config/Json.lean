import TreeMend.Config.Basic
import TreeMend.Json.Reader

/-!
# Configurations as JSON

An object with the member `rules` or `verbosity` is a whole configuration, of which either may be
left out and others are passed over.  Any other object is read as the levels alone.

## Main definitions

* `Config.toJson` — the object of a configuration.
* `Config.ofJson?` — the configuration of a value without repeated keys.
* `Config.parseJson` — the configuration that a text holds.
-/

namespace TreeMend

namespace RuleTable

/-- The object of a table. -/
def toJson (t : RuleTable) : Json :=
  .obj (t.entries.map fun e => (e.1, .str e.2.label))

/-- The level that a member gives to its key. -/
def entryOfJson? (m : Option String × Json) : Option (String × RuleLevel) := do
  pure (← m.1, ← Json.case? RuleLevel.ofLabel? m.2)

/-- The table of an object. -/
def ofJson? : Json → Option RuleTable
  | .object members => (members.mapM entryOfJson?).map ofList
  | _ => none

end RuleTable

namespace Config

/-- The object of a configuration. -/
def toJson (c : Config) : Json :=
  .obj [("verbosity", .str c.verbosity.label), ("rules", c.rules.toJson)]

/-- What a member says if it is there, and a default if it is not. -/
def memberOr {α : Type} (default : α) (read? : Json → Option α) : Option Json → Option α
  | none => some default
  | some v => read? v

/-- The configuration of a value in which no object repeats a key. -/
def ofJson? (v : Json) : Option Config :=
  if (v.get? "rules").isSome || (v.get? "verbosity").isSome then do
    let verbosity ← memberOr .normal (Json.case? Verbosity.ofLabel?) (v.get? "verbosity")
    let rules ← memberOr .empty RuleTable.ofJson? (v.get? "rules")
    pure { verbosity, rules }
  else (RuleTable.ofJson? v).map fun rules => { rules }

/-- The configuration that a text holds. -/
def parseJson (s : String) : Except ConfigError Config :=
  match (Json.load? s).bind fun v => ofJson? v.normalize with
  | some c => .ok c
  | none => .error .parse

end Config

end TreeMend
