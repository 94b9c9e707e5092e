import TreeMend.Config.Basic
import TreeMend.Log
import TreeMend.Rule.Basic
import TreeMend.SourceFile
import TreeMend.Tree.Outline

/-!
# Checking a tree

The rules that run are asked about every node in source order, each rule in its turn.  A violation
is reported and the check goes on; a rule that halts ends the check of that node, of its children,
and of the rules after it.

## Main definitions

* `Findings` — what a check yields: the violations, the log, and whether something was found.
* `Check.Run` — what the checks of a run have in common.
* `Check.Run.askRules` — what the rules say about one node, up to the first that halts.
* `Check.Run.check` — the findings in a tree.
-/

namespace TreeMend

/-- What a check yields. -/
structure Findings where
  /-- The violations in the order they were found. -/
  violations : List Violation := []
  /-- What was logged. -/
  log : Log := []
  /-- Whether something was found. -/
  isViolated : Bool := false
  deriving DecidableEq, Repr, Inhabited

namespace Findings

/-- The findings of two checks, one after the other. -/
def append (a b : Findings) : Findings :=
  ⟨a.violations ++ b.violations, a.log ++ b.log, a.isViolated || b.isViolated⟩

instance : Append Findings := ⟨append⟩

end Findings

namespace Check

/-- What the checks of a run have in common. -/
structure Run where
  /-- The configuration. -/
  config : Config
  /-- The rules, in order. -/
  rules : List CheckRule
  /-- The file that the tree comes from, if it is known. -/
  file : Option SourceFile := none

/-- The place of a node; without a file it has only its byte range. -/
def Run.location (r : Run) (span : Span) : Location :=
  match r.file with
  | some f => f.location span
  | none => ⟨"", 1, 1, span.start, span.length⟩

/-- The log line of a violation; without a file it has no place. -/
def Run.lineText (r : Run) (rule : CheckRule) (location : Location) (message : String) : String :=
  (if r.file.isSome then location.display ++ ": " else "") ++ "[" ++ rule.name ++ "] " ++ message

/-- The levels of the log lines of a finding, by the level of its rule. -/
def lineLevels : RuleLevel → List Log.Level
  | .error => [.error]
  | .warn => [.warn]
  | .off => []

/-- What is reported of a rule of a level that is violated at a node. -/
def Run.report (r : Run) (rule : CheckRule) (level : RuleLevel) (n : Node) (message : String) :
    Findings :=
  match level.severity? with
  | none => {}
  | some severity =>
    let location := r.location n.span
    { violations := [⟨rule.code, rule.name, severity, location, message, rule.suggestion⟩]
      log := (lineLevels level).map fun l => Log.line l (r.lineText rule location message) }

/-- The findings of the rules at one node, up to the first that halts, and whether one did. -/
def Run.askRules (r : Run) (n : Node) : List CheckRule → Findings × Bool
  | [] => ({}, false)
  | rule :: rules =>
    let level := r.config.level rule.name
    if level.isEnabled then
      match rule.verdict n with
      | .clean => r.askRules n rules
      | .halt => ({}, true)
      | .violated message =>
        let (rest, halted) := r.askRules n rules
        ({ r.report rule level n message with isViolated := true } ++ rest, halted)
    else r.askRules n rules

/-- The line that a node gets when every node gets one. -/
def Run.trace (r : Run) (depth : Nat) (n : Node) : Findings :=
  if r.config.verbosity.isDebug then
    { log := [Log.line .debug (n.line depth (some Node.outlineLimit))] }
  else {}

mutual

/-- The findings in a tree whose root is at a depth. -/
def Run.check (r : Run) (depth : Nat) : Node → Findings
  | ⟨kind, text, span, children⟩ =>
    let n : Node := ⟨kind, text, span, children⟩
    match r.askRules n r.rules with
    | (found, true) => r.trace depth n ++ found
    | (found, false) => r.trace depth n ++ found ++ r.checkAll (depth + 1) children

/-- The findings in a list of trees whose roots are at a depth. -/
def Run.checkAll (r : Run) (depth : Nat) : List Node → Findings
  | [] => {}
  | n :: ns => r.check depth n ++ r.checkAll depth ns

end

end Check

end TreeMend
