import TreeMend.Rule.Quotes
import TreeMend.Rule.Reassignment
import TreeMend.Rule.SuperCall

/-!
# The built-in rules

The rules that a run applies, in their order: the checks, then the fixes, of which those on
declarations come before those on literals.

## Main definitions

* `Catalog.checks`, `Catalog.fixes` — the rules of either stage.
* `Catalog.all`, `Catalog.names` — all the rules, described, and their names.
-/

namespace TreeMend.Catalog

/-- The checks, in order. -/
def checks : List CheckRule := [SuperCall.rule]

/-- The fixes, in order. -/
def fixes : List FixRule := [Reassignment.rule, Quotes.rule]

/-- The stage that a rule belongs to. -/
inductive Stage where
  /-- The rule only looks. -/
  | check
  /-- The rule changes texts. -/
  | fix
  deriving DecidableEq, Repr, Inhabited

/-- The name of a stage. -/
def Stage.label : Stage → String
  | .check => "check"
  | .fix => "fix"

/-- What there is to say about a rule. -/
structure Entry where
  /-- The code. -/
  code : String
  /-- The name. -/
  name : String
  /-- What the rule does. -/
  description : String
  /-- Where it runs. -/
  stage : Stage
  deriving DecidableEq, Repr, Inhabited

/-- All the rules, described. -/
def all : List Entry :=
  checks.map (fun r => ⟨r.code, r.name, r.description, .check⟩) ++
    fixes.map (fun r => ⟨r.code, r.name, r.description, .fix⟩)

/-- The names of all the rules. -/
def names : List String := all.map (·.name)

end TreeMend.Catalog
