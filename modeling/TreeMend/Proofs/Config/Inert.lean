import TreeMend.Format
import TreeMend.Proofs.Check.Meaning
import TreeMend.Proofs.Fix.Account
import TreeMend.Proofs.Program.Unread

/-!
# Settings that change nothing

A configuration decides which rules run.  The rest of what it says goes into severities and into
the lines that trace a traversal, and so does the depth that a tree counts as being at.  Two runs
of a stage come to the same if the same rules run in them; rules that do not run may say what they
like.

Both runs are compared with one that knows nothing of the settings: the findings of a check are
stripped of their severities, and the progress of a pass of the lines that are no fixes.

## Main definitions

* `Violation.unranked` — a violation without its severity.
* `Fix.Progress.untraced` — the progress of a pass without the traces in its log.

## Main results

* `Check.Run.check_congr` — checks in which the same rules run find the same.
* `Fix.untraced_visit`, `Fix.untraced_passFrom` — one step of a pass and a whole pass, without the
  traces, are known from the rules that run.
* `settings_inert` — **levels, verbosity, depth and rules that do not run change nothing**.
-/

namespace TreeMend

/-! ### Checks -/

/-- The violation without its severity. -/
def Violation.unranked (v : Violation) : Violation := { v with severity := .warning }

namespace Check.Run

variable {r r' : Run}

theorem halts_congr (h : r.running = r'.running) (m : Node) : r.Halts m ↔ r'.Halts m := by
  unfold Halts
  rw [h]

theorem reaches_congr (h : r.running = r'.running) (n : Node) (p : Position) :
    r.Reaches n p ↔ r'.Reaches n p := by
  simp only [Reaches, halts_congr h]

theorem visited_congr (h : r.running = r'.running) (n : Node) : r.visited n = r'.visited n :=
  List.filter_congr fun x _ => decide_eq_decide.mpr (reaches_congr h n x.1)

theorem unranked_violation (hfile : r.file = r'.file) (rule : CheckRule) (m : Node)
    (message : String) :
    (r.violation rule m message).unranked = (r'.violation rule m message).unranked := by
  unfold violation location Violation.unranked
  rw [hfile]

theorem map_unranked_violationsOf (hfile : r.file = r'.file) (m : Node) (rules : List CheckRule) :
    (r.violationsOf m rules).map Violation.unranked =
      (r'.violationsOf m rules).map Violation.unranked := by
  induction rules with
  | nil => rfl
  | cons rule rules ih =>
    cases hverdict : rule.verdict m with
    | clean => rw [violationsOf_cons_clean hverdict, violationsOf_cons_clean hverdict, ih]
    | halt => rw [violationsOf_cons_halt hverdict, violationsOf_cons_halt hverdict]
    | violated message =>
      rw [violationsOf_cons_violated hverdict, violationsOf_cons_violated hverdict,
        List.map_cons, List.map_cons, unranked_violation hfile, ih]

/-- Checks in which the same rules run come by the same nodes and find the same there. -/
theorem check_congr (h : r.running = r'.running) (hfile : r.file = r'.file) (depth depth' : Nat)
    (n : Node) :
    (r.check depth n).isViolated = (r'.check depth' n).isViolated ∧
      (r.check depth n).violations.map Violation.unranked =
        (r'.check depth' n).violations.map Violation.unranked := by
  have hviolations : (r.check depth n).violations.map Violation.unranked =
      (r'.check depth' n).violations.map Violation.unranked := by
    rw [violations_check, violations_check, List.map_flatMap, List.map_flatMap, visited_congr h]
    simp only [violationsAt, h, map_unranked_violationsOf hfile]
  refine ⟨?_, hviolations⟩
  -- the flag tells whether there are violations, and stripping them leaves their number
  rw [Bool.eq_iff_iff, isViolated_check, isViolated_check, ne_eq, ne_eq,
    ← List.map_eq_nil_iff (f := Violation.unranked), hviolations, List.map_eq_nil_iff]

end Check.Run

/-! ### Fixes -/

namespace Fix

/-- The progress without the lines that are no fixes. -/
def Progress.untraced (p : Progress) : Progress :=
  { p with log := p.log.filter (·.level = .info) }

theorem untraced_trace (config : Config) (depth : Nat) (position : Position) (p : Progress) :
    (trace config depth position p).untraced = p.untraced := by
  unfold trace Progress.untraced
  split
  · cases p.tree.get? position with
    | none => rfl
    | some n => simp [Log.line]
  · rfl

/-- A rule does not look at the log, and its own line stays. -/
theorem untraced_applyRule (position : Position) (p : Progress) (rule : FixRule) :
    (applyRule position p rule).untraced = applyRule position p.untraced rule := by
  unfold applyRule Progress.untraced
  cases (p.tree.get? position).bind (rule.replacement p.tree position) with
  | none => rfl
  | some text => simp [Log.line]

/-- One step of a pass. -/
theorem untraced_visit (config : Config) (rules : List FixRule) (depth : Nat) (p : Progress)
    (position : Position) :
    (visit config rules depth p position).untraced =
      (enabled config rules).foldl (applyRule position) p.untraced := by
  rw [visit, ← untraced_trace config depth position p]
  exact (List.foldl_hom Progress.untraced fun q rule =>
    (untraced_applyRule position q rule).symm).symm

/-- A whole pass. -/
theorem untraced_passFrom (config : Config) (rules : List FixRule) (start : Progress)
    (position : Position) (depth : Nat) :
    (passFrom config rules start position depth).untraced =
      (((start.tree.get? position).map Node.positions).getD []).foldl
        (fun p q => (enabled config rules).foldl (applyRule (position ++ q)) p)
        start.untraced :=
  (List.foldl_hom Progress.untraced fun p q =>
    (untraced_visit config rules (depth + q.length) p (position ++ q)).symm).symm

end Fix

/-! ### All stages -/

/-- **Levels, verbosity, depth and rules that do not run change nothing.**  Under two
configurations and at two depths, and with lists of rules of which the same ones run: a check
raises the same flag and finds the same violations, up to their severity; a pass of fixes leaves
the same tree, the same count and the same lines about fixes; and a tree is read as the same
construct and has the same text, or is refused for the same reason. -/
theorem settings_inert (config config' : Config) (depth depth' : Nat) (root : Node) :
    (∀ (file : Option SourceFile) (rules rules' : List CheckRule),
      Check.enabled config rules = Check.enabled config' rules' →
      let found := Check.Run.check ⟨config, rules, file⟩ depth root
      let found' := Check.Run.check ⟨config', rules', file⟩ depth' root
      found.isViolated = found'.isViolated ∧
        found.violations.map Violation.unranked = found'.violations.map Violation.unranked) ∧
    (∀ (applied : Nat) (log : Log) (position : Position) (rules rules' : List FixRule),
      Fix.enabled config rules = Fix.enabled config' rules' →
      let last := Fix.passFrom config rules ⟨root, applied, log⟩ position depth
      let last' := Fix.passFrom config' rules' ⟨root, applied, log⟩ position depth'
      last.tree = last'.tree ∧ last.applied = last'.applied ∧
        last.log.filter (·.level = .info) = last'.log.filter (·.level = .info)) ∧
    ∀ nl : NewLine,
      ((root.build depth).run config.verbosity).outcome =
          ((root.build depth').run config'.verbosity).outcome ∧
        (Format.renderTree config.verbosity root nl).outcome =
          (Format.renderTree config'.verbosity root nl).outcome := by
  refine ⟨?_, ?_, ?_⟩
  · intro file rules rules' h
    let run : Check.Run := ⟨config, rules, file⟩
    let run' : Check.Run := ⟨config', rules', file⟩
    have hrunning : run.running = run'.running := h
    exact Check.Run.check_congr hrunning rfl depth depth' root
  · intro applied log position rules rules' h last last'
    have huntraced : last.untraced = last'.untraced := by
      rw [Fix.untraced_passFrom, Fix.untraced_passFrom, h]
    exact ⟨congrArg (·.tree) huntraced, congrArg (·.applied) huntraced,
      congrArg (·.log) huntraced⟩
  · intro nl
    refine ⟨?_, ?_⟩
    · rw [Node.steady_build, Node.steady_build, root.outcome_build_depth depth depth']
    · exact (root.steady_render nl _).trans (root.steady_render nl _).symm

/-- The rule that there are no string literals. -/
def noLiterals : CheckRule where
  name := "no-literals"
  code := "TS002"
  verdict n := if n.kind = Kind.stringLiteral then .violated "a literal" else .clean

/-- A rule that halts everywhere. -/
def haltsEverywhere : CheckRule where
  name := "halts-everywhere"
  code := "TS003"
  verdict _ := .halt

/-- Errors only, and no traces. -/
def strictSettings : Config :=
  { rules := .ofList [(noLiterals.name, .error), (Quotes.rule.name, .error)] }

/-- Warnings only, traces, and an entry for no rule. -/
def mildSettings : Config :=
  { verbosity := .debug
    rules := .ofList [(noLiterals.name, .warn), (Quotes.rule.name, .warn), ("other", .error)] }

theorem settings_inert_quotedTwice :
    let tree := Fix.quotedTwice
    let checked := Check.Run.check ⟨mildSettings, [haltsEverywhere, noLiterals], none⟩ 3 tree
    let fixed := Fix.passFrom mildSettings Catalog.fixes ⟨tree, 0, []⟩ [] 3
    checked.isViolated = true ∧
      checked.violations.map Violation.unranked =
        [⟨"TS002", "no-literals", .warning, ⟨"", 1, 1, 8, 3⟩, "a literal", none⟩,
          ⟨"TS002", "no-literals", .warning, ⟨"", 1, 1, 17, 3⟩, "a literal", none⟩] ∧
      (fixed.tree.get? [0, 0]).map Node.text = some "let a = \"b\"" ∧
      (fixed.tree.get? [1, 0, 2]).map Node.text = some "'d'" ∧
      fixed.applied = 2 ∧
      fixed.log.filter (·.level = .info) = List.replicate 2
        (Log.line .info "[double-quotes] Converted double quotes to single quotes") ∧
      (Format.renderTree mildSettings.verbosity tree).outcome =
        (Format.renderTree strictSettings.verbosity tree).outcome := by
  obtain ⟨hcheck, hfix, hrender⟩ :=
    settings_inert mildSettings strictSettings 3 0 Fix.quotedTwice
  obtain ⟨hflag, hviolations⟩ := hcheck none [haltsEverywhere, noLiterals] [noLiterals] rfl
  obtain ⟨htree, happlied, hlog⟩ := hfix 0 [] [] Catalog.fixes [Quotes.rule] rfl
  refine ⟨?_, ?_, ?_, ?_, ?_, ?_, (hrender .lineFeed).2⟩
  · exact hflag.trans (by decide +kernel)
  · exact hviolations.trans (by decide +kernel)
  · rw [htree]
    decide +kernel
  · rw [htree]
    decide +kernel
  · exact happlied.trans (by decide +kernel)
  · exact hlog.trans (by decide +kernel)

end TreeMend
