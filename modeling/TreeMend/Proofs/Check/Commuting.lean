import TreeMend.Proofs.Check.Meaning
import TreeMend.Proofs.Fix.Account

/-!
# Checking and fixing commute

A check reads kinds and ranges, which no fix changes, and the texts of calls.  The built-in fixes
give new texts to declaration lists and string literals only.  So the rules say the same of every
node before and after a pass of fixes, whatever the pass did, the check comes by the same nodes,
and what it reports differs at most in the lines that trace the traversal.

## Main definitions

* `CheckRule.Steady` — a rule that says the same of a node after a harmless edit.
* `Findings.reported` — findings with only those log lines that tell of violations.

## Main results

* `SuperCall.steady_rule` — the built-in check is steady.
* `Check.Run.violationsAt_edit` — one node of an edited tree.
* `Check.Run.reported_check_edit` — a whole check of an edited tree.
* `Check.Run.check_passFrom` — **checking and fixing commute**.
-/

namespace TreeMend

open Node (Harmless)

/-- A rule that says the same of a node after a harmless edit. -/
def CheckRule.Steady (rule : CheckRule) : Prop :=
  ∀ {f : Position → Node → Option String}, Harmless f →
    ∀ n : Node, rule.verdict (n.edit f) = rule.verdict n

/-! ### Children of an edited node -/

namespace Node

variable {f : Position → Node → Option String}

theorem exists_find?_editFrom (h : Harmless f) (k : Kind) (i : Nat) (cs : List Node) :
    ∃ g, Harmless g ∧
      (editFrom f i cs).find? (·.kind == k) = (cs.find? (·.kind == k)).map (·.edit g) := by
  induction cs generalizing i with
  | nil => exact ⟨f, h, rfl⟩
  | cons c cs ih =>
    rw [editFrom_cons, List.find?_cons, List.find?_cons, kind_edit]
    cases c.kind == k with
    | true => exact ⟨_, h.child i, rfl⟩
    | false => exact ih (i + 1)

/-- The first child of a kind is the same child, edited. -/
theorem Harmless.exists_child? (h : Harmless f) (n : Node) (k : Kind) :
    ∃ g, Harmless g ∧ (n.edit f).child? k = (n.child? k).map (·.edit g) := by
  rw [child?, children_edit]
  exact exists_find?_editFrom h k 0 n.children

theorem hasChild_edit (f : Position → Node → Option String) (n : Node) (k : Kind) :
    (n.edit f).hasChild k = n.hasChild k := by
  rw [hasChild, children_edit]
  exact any_kind_editFrom f (· == k) 0 n.children

end Node

/-! ### The built-in check -/

namespace SuperCall

variable {f : Position → Node → Option String}

/-- The statement that the rule looks at is the same statement, edited. -/
theorem exists_firstStatement?_edit (h : Harmless f) (n : Node) :
    ∃ g, Harmless g ∧ firstStatement? (n.edit f) = (firstStatement? n).map (·.edit g) := by
  unfold firstStatement?
  obtain ⟨g, hg, hmember⟩ := h.exists_child? n Kind.constructorMember
  rw [hmember]
  cases n.child? Kind.constructorMember with
  | none => exact ⟨g, hg, rfl⟩
  | some member =>
    obtain ⟨g', hg', hbody⟩ := hg.exists_child? member Kind.block
    simp only [Option.map_some, Option.bind_eq_bind, Option.bind_some, hbody]
    cases member.child? Kind.block with
    | none => exact ⟨g', hg', rfl⟩
    | some body => exact hg'.exists_child? body Kind.expressionStatement

/-- The rule reads no text but that of a call, which no harmless edit changes. -/
theorem steady_rule : rule.Steady := by
  intro f h n
  obtain ⟨g, hg, hstatement⟩ := exists_firstStatement?_edit h n
  change verdict (n.edit f) = verdict n
  unfold verdict
  rw [Node.kind_edit, Node.hasChild_edit, hstatement]
  cases firstStatement? n with
  | none => rfl
  | some statement =>
    obtain ⟨g', hg', hcall⟩ := hg.exists_child? statement Kind.callExpression
    simp only [Option.map_some, hcall]
    cases hfound : statement.child? Kind.callExpression with
    | none => rfl
    | some call =>
      have hkind : call.kind = Kind.callExpression := Node.kind_of_child? hfound
      have htext : (call.edit g').text = call.text :=
        hg'.text_edit (by rw [hkind]; decide) (by rw [hkind]; decide)
      simp only [Option.map_some, htext]

end SuperCall

/-! ### Checks of edited trees -/

/-- The findings with only those log lines that tell of violations. -/
def Findings.reported (found : Findings) : Findings :=
  { found with log := found.log.filter fun l => l.level = .warn ∨ l.level = .error }

theorem Findings.reported_append (a b : Findings) :
    (a ++ b).reported = a.reported ++ b.reported := by
  ext1
  · rfl
  · exact List.filter_append a.log b.log
  · rfl

namespace Check.Run

variable {r : Run} {f : Position → Node → Option String}

theorem halts_edit (hsteady : ∀ rule ∈ r.running, rule.Steady) (h : Harmless f) (m : Node) :
    r.Halts (m.edit f) ↔ r.Halts m := by
  constructor
  · rintro ⟨rule, hrule, hhalt⟩
    exact ⟨rule, hrule, (hsteady rule hrule h m).symm.trans hhalt⟩
  · rintro ⟨rule, hrule, hhalt⟩
    exact ⟨rule, hrule, (hsteady rule hrule h m).trans hhalt⟩

theorem violationsOf_edit {rules : List CheckRule} (hsteady : ∀ rule ∈ rules, rule.Steady)
    (h : Harmless f) (m : Node) : r.violationsOf (m.edit f) rules = r.violationsOf m rules := by
  induction rules with
  | nil => rfl
  | cons rule rules ih =>
    obtain ⟨hrule, hrules⟩ := List.forall_mem_cons.mp hsteady
    have hsame : rule.verdict (m.edit f) = rule.verdict m := hrule h m
    cases hverdict : rule.verdict m with
    | clean =>
      rw [violationsOf_cons_clean (hsame.trans hverdict), violationsOf_cons_clean hverdict,
        ih hrules]
    | halt => rw [violationsOf_cons_halt (hsame.trans hverdict), violationsOf_cons_halt hverdict]
    | violated message =>
      -- the place of the violation is known from the range, which stays
      have hviolation : r.violation rule (m.edit f) message = r.violation rule m message := by
        rw [violation, violation, Node.span_edit]
      rw [violationsOf_cons_violated (hsame.trans hverdict), violationsOf_cons_violated hverdict,
        ih hrules, hviolation]

/-- Steady rules find the same at a node after a harmless edit. -/
theorem violationsAt_edit (hsteady : ∀ rule ∈ r.running, rule.Steady) (h : Harmless f)
    (m : Node) : r.violationsAt (m.edit f) = r.violationsAt m :=
  violationsOf_edit hsteady h m

/-- What is reported of a node are its violations; the line of the node itself is no report. -/
theorem reported_findingsAt (r : Run) (depth : Nat) (m : Node) :
    (r.findingsAt depth m).reported = (r.account (r.violationsAt m)).reported := by
  have htrace : (r.trace depth m).reported = {} := by
    rw [trace]
    split <;> rfl
  rw [findingsAt, Findings.reported_append, htrace, Findings.empty_append]

theorem reported_checkAll_edit {depth : Nat} {cs : List Node}
    (hcs : ∀ c ∈ cs, ∀ {g : Position → Node → Option String}, Harmless g →
      (r.check depth (c.edit g)).reported = (r.check depth c).reported)
    (h : Harmless f) (i : Nat) :
    (r.checkAll depth (Node.editFrom f i cs)).reported = (r.checkAll depth cs).reported := by
  induction cs generalizing i with
  | nil => rfl
  | cons c cs ih =>
    obtain ⟨hc, hcs⟩ := List.forall_mem_cons.mp hcs
    rw [Node.editFrom_cons, checkAll, checkAll, Findings.reported_append,
      Findings.reported_append, hc (h.child i), ih hcs (i + 1)]

/-- A check with steady rules reports the same after a harmless edit. -/
theorem reported_check_edit (hsteady : ∀ rule ∈ r.running, rule.Steady) (h : Harmless f)
    (depth : Nat) (n : Node) :
    (r.check depth (n.edit f)).reported = (r.check depth n).reported := by
  induction n using Node.inductionOn generalizing f depth with
  | step n ih =>
    rw [check_eq, check_eq, Findings.reported_append, Findings.reported_append,
      reported_findingsAt, reported_findingsAt, violationsAt_edit hsteady h, Node.children_edit]
    by_cases hn : r.Halts n
    · rw [if_pos hn, if_pos ((halts_edit hsteady h n).mpr hn)]
    · rw [if_neg hn, if_neg (mt (halts_edit hsteady h n).mp hn),
        reported_checkAll_edit (fun c hc _ hg => ih c hc hg (depth + 1)) h 0]

/-- **Checking and fixing commute.**  Under any two configurations, with a known file or none, a
check of the tree that a pass of the built-in fixes leaves raises the same flag, finds the same
violations in the same order and logs the same warnings and errors as a check of the tree that the
pass started from. -/
theorem check_passFrom (fixing checking : Config) (file : Option SourceFile)
    (start : Fix.Progress) (position : Position) (depth depth' : Nat) :
    let run : Run := ⟨checking, Catalog.checks, file⟩
    let before := run.check depth' start.tree
    let after := run.check depth' (Fix.passFrom fixing Catalog.fixes start position depth).tree
    after.isViolated = before.isViolated ∧ after.violations = before.violations ∧
      after.log.filter (fun l => l.level = .warn ∨ l.level = .error) =
        before.log.filter fun l => l.level = .warn ∨ l.level = .error := by
  intro run before after
  have hsteady : ∀ rule ∈ run.running, rule.Steady := by
    intro rule hrule
    obtain rfl := List.mem_singleton.mp (List.mem_filter.mp hrule).1
    exact SuperCall.steady_rule
  have hharmless := (Fix.settledRules_fixes.enabled fixing).harmless_editAt start.tree
    (start.tree.positionsUnder position)
  have hsame : after.reported = before.reported := by
    change (run.check depth' (Fix.passFrom fixing Catalog.fixes start position depth).tree).reported
      = _
    rw [Fix.passFrom_eq_progressAt Fix.settledRules_fixes]
    exact reported_check_edit hsteady hharmless depth' start.tree
  exact ⟨congrArg (·.isViolated) hsame, congrArg (·.violations) hsame, congrArg (·.log) hsame⟩

end Check.Run

end TreeMend
