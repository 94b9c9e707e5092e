import TreeMend.Config.Basic
import TreeMend.Toml.Reader

/-!
# Configurations as TOML

The document has the keys `verbosity` and `rules`, each of which may be left out; others are
passed over.  A setting is the name of a case, or a table with that name as its only key and an
empty table or array as the value.

## Main definitions

* `Config.ofToml?` — the configuration of a document.
* `Config.parseToml` — the configuration that a text holds.
-/

namespace TreeMend

namespace Toml

/-- Whether a value is an empty table or an empty array. -/
def isEmpty : Toml → Bool
  | .array [] => true
  | .table _ [] => true
  | .tables [] => true
  | _ => false

/-- The case that a value names, where `ofLabel?` knows the names. -/
def case? {α : Type} (ofLabel? : String → Option α) : Toml → Option α
  | .string s => ofLabel? s
  | .table _ [(name, v)] => if v.isEmpty then ofLabel? name else none
  | _ => none

end Toml

namespace RuleTable

/-- The level that an entry gives to its key. -/
def entryOfToml? (e : String × Toml) : Option (String × RuleLevel) := do
  pure (e.1, ← Toml.case? RuleLevel.ofLabel? e.2)

/-- The levels of a table. -/
def ofToml? : Toml → Option RuleTable
  | .table _ es => (es.mapM entryOfToml?).map ofList
  | _ => none

end RuleTable

namespace Config

/-- The configuration of a document. -/
def ofToml? (es : Toml.Entries) : Option Config := do
  let verbosity ← match es.lookup "verbosity" with
    | none => some .normal
    | some v => Toml.case? Verbosity.ofLabel? v
  let rules ← match es.lookup "rules" with
    | none => some .empty
    | some v => RuleTable.ofToml? v
  pure { verbosity, rules }

/-- The configuration that a text holds. -/
def parseToml (s : String) : Except ConfigError Config :=
  match (Toml.parse? s).bind ofToml? with
  | some c => .ok c
  | none => .error .parse

end Config

end TreeMend
