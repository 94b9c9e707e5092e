import TreeMend.Report.Violation

/-!
# Configurations

A configuration gives each rule a level and says how much a run tells about its traversal.  Rules
without an entry are off.

## Main definitions

* `RuleLevel`, `Verbosity` — the two settings.
* `RuleTable` — levels by rule name, sorted by name.
* `Config` — a configuration.
* `Config.validate` — refusing rules that are not known.
-/

namespace TreeMend

/-! ### Settings -/

/-- What becomes of the findings of a rule. -/
inductive RuleLevel where
  /-- They are errors. -/
  | error
  /-- They are warnings. -/
  | warn
  /-- There are none: the rule does not run. -/
  | off
  deriving DecidableEq, Repr, Inhabited

namespace RuleLevel

/-- The name of a level. -/
def label : RuleLevel → String
  | .error => "error"
  | .warn => "warn"
  | .off => "off"

/-- The level of a name; warnings have two names. -/
def ofLabel? : String → Option RuleLevel
  | "error" => some .error
  | "warn" => some .warn
  | "warning" => some .warn
  | "off" => some .off
  | _ => none

/-- Whether the rule runs. -/
def isEnabled : RuleLevel → Bool
  | .off => false
  | _ => true

/-- The severity of the findings; `none` if the rule does not run. -/
def severity? : RuleLevel → Option Severity
  | .error => some .error
  | .warn => some .warning
  | .off => none

end RuleLevel

/-- How much a run tells about its traversal. -/
inductive Verbosity where
  /-- Findings and fixes only. -/
  | normal
  /-- Also a line for each node. -/
  | debug
  deriving DecidableEq, Repr, Inhabited

namespace Verbosity

/-- The name of a verbosity. -/
def label : Verbosity → String
  | .normal => "normal"
  | .debug => "debug"

/-- The verbosity of a name. -/
def ofLabel? : String → Option Verbosity
  | "normal" => some .normal
  | "debug" => some .debug
  | _ => none

/-- Whether each node gets a line. -/
def isDebug : Verbosity → Bool
  | .debug => true
  | .normal => false

end Verbosity

/-! ### Levels by rule name -/

/-- Put a level into a list sorted by name, in place of one that the name already has. -/
def insertLevel (name : String) (level : RuleLevel) :
    List (String × RuleLevel) → List (String × RuleLevel)
  | [] => [(name, level)]
  | e :: es =>
    if name < e.1 then (name, level) :: e :: es
    else if name = e.1 then (name, level) :: es
    else e :: insertLevel name level es

theorem mem_insertLevel {name : String} {level : RuleLevel} {e : String × RuleLevel}
    {es : List (String × RuleLevel)} (h : e ∈ insertLevel name level es) :
    e = (name, level) ∨ e ∈ es := by
  induction es with
  | nil => simpa [insertLevel] using h
  | cons f fs ih =>
    unfold insertLevel at h
    split at h
    · simpa using h
    · split at h
      · rcases List.mem_cons.1 h with h | h
        · exact .inl h
        · exact .inr (List.mem_cons_of_mem _ h)
      · rcases List.mem_cons.1 h with h | h
        · exact .inr (h ▸ List.mem_cons_self)
        · exact (ih h).imp_right (List.mem_cons_of_mem _)

theorem sorted_insertLevel (name : String) (level : RuleLevel) {es : List (String × RuleLevel)}
    (h : es.Pairwise (·.1 < ·.1)) : (insertLevel name level es).Pairwise (·.1 < ·.1) := by
  induction es with
  | nil => simp [insertLevel]
  | cons e es ih =>
    obtain ⟨he, hes⟩ := List.pairwise_cons.1 h
    unfold insertLevel
    split
    · next hlt =>
      refine List.pairwise_cons.2 ⟨?_, h⟩
      intro f hf
      rcases List.mem_cons.1 hf with rfl | hf
      · exact hlt
      · exact String.lt_trans hlt (he f hf)
    · next hle =>
      split
      · next heq =>
        refine List.pairwise_cons.2 ⟨?_, hes⟩
        intro f hf
        exact heq ▸ he f hf
      · next hne =>
        refine List.pairwise_cons.2 ⟨?_, ih hes⟩
        intro f hf
        rcases mem_insertLevel hf with rfl | hf
        · exact Std.lt_of_le_of_ne (Std.not_lt.1 hle) (Ne.symm hne)
        · exact he f hf

/-- Levels by rule name. -/
structure RuleTable where
  /-- The names with their levels. -/
  entries : List (String × RuleLevel) := []
  /-- The names are sorted, and none stands twice. -/
  sorted : entries.Pairwise (·.1 < ·.1) := by exact .nil
  deriving Repr, DecidableEq

namespace RuleTable

/-- The table without any level. -/
def empty : RuleTable := {}

instance : Inhabited RuleTable := ⟨empty⟩

/-- The table with a level given to a name. -/
def insert (t : RuleTable) (name : String) (level : RuleLevel) : RuleTable :=
  ⟨insertLevel name level t.entries, sorted_insertLevel name level t.sorted⟩

/-- The level of a name. -/
def get? (t : RuleTable) (name : String) : Option RuleLevel := t.entries.lookup name

/-- The table of a list of levels; of two for one name the later counts. -/
def ofList (es : List (String × RuleLevel)) : RuleTable :=
  es.foldl (fun t e => t.insert e.1 e.2) empty

end RuleTable

/-! ### Configurations -/

/-- A configuration. -/
structure Config where
  /-- How much a run tells. -/
  verbosity : Verbosity := .normal
  /-- The levels of the rules. -/
  rules : RuleTable := .empty
  deriving Repr, DecidableEq, Inhabited

/-- Why a text or a configuration is refused. -/
inductive ConfigError where
  /-- The text is no configuration. -/
  | parse
  /-- A rule with a level is not known. -/
  | unknownRule (name : String)
  deriving DecidableEq, Repr, Inhabited

/-- The error in words. -/
def ConfigError.message : ConfigError → String
  | .parse => "Failed to parse config"
  | .unknownRule name => "Unknown rule in config: " ++ name

namespace Config

/-- The level of a rule; a rule without an entry is off. -/
def level (c : Config) (rule : String) : RuleLevel := (c.rules.get? rule).getD .off

/-- Whether a rule runs. -/
def isEnabled (c : Config) (rule : String) : Bool := (c.level rule).isEnabled

/-- The configuration with a level given to a rule. -/
def withRule (c : Config) (rule : String) (level : RuleLevel) : Config :=
  { c with rules := c.rules.insert rule level }

/-- The error of the first rule by name that is not among `known`. -/
def validate (c : Config) (known : List String) : Except ConfigError Unit :=
  match c.rules.entries.find? fun e => !known.contains e.1 with
  | some (name, _) => .error (.unknownRule name)
  | none => .ok ()

end Config

end TreeMend
