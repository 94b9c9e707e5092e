import TreeMend.Check
import TreeMend.Proofs.Tree.Walking

/-!
# What a check finds

A check is known from the nodes that it comes by and from what the rules that run say about each
of them.  It comes by a node if none of the nodes above it halts the check, and there it finds the
violations of the rules before the first that halts.  The violations, the log and the flag are put
together separately on the way; all three tell the same.

## Main definitions

* `Check.Run.running`, `Check.Run.Halts` — the rules that run, and the nodes at which one halts.
* `Check.Run.visited` — the nodes that are come by: no node above them halts.
* `Check.Run.violationsAt`, `Check.Run.lineOf` — the violations at a node, and the log line of one.
* `Check.Run.account` — the findings that consist of some violations and their lines.

## Main results

* `Check.Run.askRules_eq` — the rules at one node.
* `Check.Run.check_eq_join` — a check is the findings at the visited nodes, one after the other.
* `Check.Run.check_findings` — **the exact meaning of a check**.
-/

namespace TreeMend

/-! ### Findings one after the other -/

namespace Findings

@[simp] theorem violations_append (a b : Findings) :
    (a ++ b).violations = a.violations ++ b.violations := rfl

@[simp] theorem log_append (a b : Findings) : (a ++ b).log = a.log ++ b.log := rfl

@[simp] theorem isViolated_append (a b : Findings) :
    (a ++ b).isViolated = (a.isViolated || b.isViolated) := rfl

@[ext] theorem ext {a b : Findings} (hviolations : a.violations = b.violations)
    (hlog : a.log = b.log) (hviolated : a.isViolated = b.isViolated) : a = b := by
  cases a; cases b; simp_all

theorem append_assoc (a b c : Findings) : a ++ b ++ c = a ++ (b ++ c) := by
  ext1 <;> simp [Bool.or_assoc]

@[simp] theorem append_empty (a : Findings) : a ++ ({} : Findings) = a := by
  ext1 <;> simp

@[simp] theorem empty_append (a : Findings) : ({} : Findings) ++ a = a := by
  ext1 <;> simp

/-- The findings of a list of checks, one after the other. -/
def join (fs : List Findings) : Findings := fs.foldr (· ++ ·) {}

@[simp] theorem join_nil : join [] = {} := rfl

@[simp] theorem join_cons (f : Findings) (fs : List Findings) : join (f :: fs) = f ++ join fs := rfl

theorem join_append (fs gs : List Findings) : join (fs ++ gs) = join fs ++ join gs := by
  induction fs with
  | nil => simp
  | cons f fs ih => rw [List.cons_append, join_cons, join_cons, ih, append_assoc]

theorem violations_join (fs : List Findings) :
    (join fs).violations = fs.flatMap (·.violations) := by
  induction fs with
  | nil => rfl
  | cons f fs ih => rw [join_cons, violations_append, ih, List.flatMap_cons]

theorem log_join (fs : List Findings) : (join fs).log = fs.flatMap (·.log) := by
  induction fs with
  | nil => rfl
  | cons f fs ih => rw [join_cons, log_append, ih, List.flatMap_cons]

/-- A flag that tells of violations in each part tells of them in the whole. -/
theorem isViolated_join_iff {fs : List Findings}
    (h : ∀ f ∈ fs, f.isViolated = true ↔ f.violations ≠ []) :
    (join fs).isViolated = true ↔ (join fs).violations ≠ [] := by
  induction fs with
  | nil => simp
  | cons f fs ih =>
    obtain ⟨hf, hfs⟩ := List.forall_mem_cons.mp h
    rw [join_cons, isViolated_append, violations_append, Bool.or_eq_true, hf, ih hfs]
    simp only [ne_eq, List.append_eq_nil_iff, not_and_or]

end Findings

namespace Check

/-- The rules that run. -/
def enabled (config : Config) (rules : List CheckRule) : List CheckRule :=
  rules.filter fun rule => config.isEnabled rule.name

theorem enabled_cons_of_pos {config : Config} {rule : CheckRule}
    (h : (config.level rule.name).isEnabled = true) (rules : List CheckRule) :
    enabled config (rule :: rules) = rule :: enabled config rules :=
  List.filter_cons_of_pos h

theorem enabled_cons_of_neg {config : Config} {rule : CheckRule}
    (h : ¬ (config.level rule.name).isEnabled = true) (rules : List CheckRule) :
    enabled config (rule :: rules) = enabled config rules :=
  List.filter_cons_of_neg h

namespace Run

/-! ### One node -/

/-- The rules of the run that run, in order. -/
def running (r : Run) : List CheckRule := enabled r.config r.rules

/-- A rule that runs halts at the node. -/
def Halts (r : Run) (m : Node) : Prop := ∃ rule ∈ r.running, rule.verdict m = .halt

instance (r : Run) (m : Node) : Decidable (r.Halts m) :=
  inferInstanceAs (Decidable (∃ rule ∈ r.running, rule.verdict m = .halt))

/-- The violation of a rule at a node. -/
def violation (r : Run) (rule : CheckRule) (m : Node) (message : String) : Violation where
  code := rule.code
  rule := rule.name
  severity := if r.config.level rule.name = .error then .error else .warning
  location := r.location m.span
  message := message
  suggestion := rule.suggestion

/-- The violations at a node of those rules of a list that come before the first that halts. -/
def violationsOf (r : Run) (m : Node) (rules : List CheckRule) : List Violation :=
  (rules.takeWhile fun rule => rule.verdict m ≠ .halt).filterMap fun rule =>
    match rule.verdict m with
    | .violated message => some (r.violation rule m message)
    | _ => none

/-- The violations at a node: one for each rule that runs and is violated, up to the first that
halts. -/
def violationsAt (r : Run) (m : Node) : List Violation := r.violationsOf m r.running

/-- The log line of a violation. -/
def lineOf (r : Run) (v : Violation) : Log.Line :=
  Log.line (if v.severity = .error then .error else .warn)
    ((if r.file.isSome then v.location.display ++ ": " else "") ++ "[" ++ v.rule ++ "] " ++
      v.message)

/-- What is logged about a node: its line, if every node gets one, and a line for each
violation. -/
def linesAt (r : Run) (depth : Nat) (m : Node) : Log :=
  (if r.config.verbosity.isDebug then
    [Log.line .debug (m.line depth (some Node.outlineLimit))] else []) ++
  (r.violationsAt m).map r.lineOf

/-- The findings that consist of some violations and their lines. -/
def account (r : Run) (vs : List Violation) : Findings := ⟨vs, vs.map r.lineOf, !vs.isEmpty⟩

theorem account_append (r : Run) (vs ws : List Violation) :
    r.account (vs ++ ws) = r.account vs ++ r.account ws := by
  ext1
  · rfl
  · exact List.map_append
  · cases vs <;> rfl

/-- The report of a rule that runs is its violation and one line. -/
theorem report_eq_account {r : Run} {rule : CheckRule}
    (h : (r.config.level rule.name).isEnabled = true) (m : Node) (message : String) :
    { r.report rule (r.config.level rule.name) m message with isViolated := true } =
      r.account [r.violation rule m message] := by
  unfold report account violation lineOf
  generalize r.config.level rule.name = level at h ⊢
  cases level with
  | error => rfl
  | warn => rfl
  | off => cases h

theorem violationsOf_cons_clean {r : Run} {m : Node} {rule : CheckRule}
    (h : rule.verdict m = .clean) (rules : List CheckRule) :
    r.violationsOf m (rule :: rules) = r.violationsOf m rules := by
  simp [violationsOf, h]

theorem violationsOf_cons_halt {r : Run} {m : Node} {rule : CheckRule}
    (h : rule.verdict m = .halt) (rules : List CheckRule) :
    r.violationsOf m (rule :: rules) = [] := by
  simp [violationsOf, h]

theorem violationsOf_cons_violated {r : Run} {m : Node} {rule : CheckRule} {message : String}
    (h : rule.verdict m = .violated message) (rules : List CheckRule) :
    r.violationsOf m (rule :: rules) = r.violation rule m message :: r.violationsOf m rules := by
  simp [violationsOf, h]

/-- The rules at one node are known from those that run. -/
theorem askRules_eq (r : Run) (m : Node) (rules : List CheckRule) :
    r.askRules m rules =
      (r.account (r.violationsOf m (enabled r.config rules)),
        decide (∃ rule ∈ enabled r.config rules, rule.verdict m = .halt)) := by
  induction rules with
  | nil => rfl
  | cons rule rules ih =>
    rw [askRules]
    by_cases henabled : (r.config.level rule.name).isEnabled = true
    · rw [if_pos henabled, enabled_cons_of_pos henabled]
      cases hverdict : rule.verdict m with
      | clean =>
        rw [violationsOf_cons_clean hverdict]
        simp [ih, hverdict]
      | halt =>
        rw [violationsOf_cons_halt hverdict]
        simp [account, hverdict]
      | violated message =>
        rw [violationsOf_cons_violated hverdict, ← List.singleton_append, account_append,
          ← report_eq_account henabled]
        simp [ih, hverdict]
    · rw [if_neg henabled, enabled_cons_of_neg henabled]
      exact ih

/-! ### The nodes that are visited -/

/-- No node above the position halts. -/
def Reaches (r : Run) (root : Node) (p : Position) : Prop :=
  ∀ k < p.length, ∀ m ∈ root.get? (p.take k), ¬ r.Halts m

instance (r : Run) (root : Node) (p : Position) : Decidable (r.Reaches root p) :=
  inferInstanceAs (Decidable (∀ k < p.length, ∀ m ∈ root.get? (p.take k), ¬ r.Halts m))

/-- The nodes of a tree that no node above them halts, in source order and with their
positions. -/
def visited (r : Run) (n : Node) : List (Position × Node) :=
  n.located.filter fun x => r.Reaches n x.1

theorem reaches_nil (r : Run) (n : Node) : r.Reaches n [] := by
  intro k hk
  exact absurd hk (Nat.not_lt_zero k)

/-- A position below a child is reached if the root does not halt and it is reached from the
child. -/
theorem reaches_cons_iff {r : Run} {n c : Node} {i : Nat} (hc : n.children[i]? = some c)
    (p : Position) : r.Reaches n (i :: p) ↔ ¬ r.Halts n ∧ r.Reaches c p := by
  have hget : ∀ k, n.get? ((i :: p).take (k + 1)) = c.get? (p.take k) := by
    intro k
    rw [List.take_succ_cons, Node.get?_cons, hc]
    rfl
  constructor
  · intro h
    refine ⟨h 0 (Nat.succ_pos _) n (by simp), ?_⟩
    intro k hk m hm
    refine h (k + 1) (Nat.succ_lt_succ hk) m ?_
    rw [hget]
    exact hm
  · rintro ⟨hroot, hbelow⟩ k hk m hm
    cases k with
    | zero =>
      have hm : n = m := by simpa using hm
      exact hm ▸ hroot
    | succ k =>
      rw [hget] at hm
      exact hbelow k (Nat.lt_of_succ_lt_succ hk) m hm

/-- The visited nodes of a list of trees of which the first is child number `i`. -/
def visitedFrom (r : Run) (i : Nat) : List Node → List (Position × Node)
  | [] => []
  | c :: cs => (r.visited c).map (fun x => (i :: x.1, x.2)) ++ r.visitedFrom (i + 1) cs

theorem filter_located_child {r : Run} {n c : Node} {i : Nat} (hn : ¬ r.Halts n)
    (hc : n.children[i]? = some c) :
    (c.located.map fun x => (i :: x.1, x.2)).filter (fun x => r.Reaches n x.1) =
      (r.visited c).map fun x => (i :: x.1, x.2) := by
  rw [List.filter_map, visited]
  congr 1
  refine List.filter_congr fun x _ => ?_
  simp [reaches_cons_iff hc, hn]

theorem filter_locatedFrom {r : Run} {n : Node} (hn : ¬ r.Halts n) (before cs : List Node)
    (h : n.children = before ++ cs) :
    (Node.locatedFrom before.length cs).filter (fun x => r.Reaches n x.1) =
      r.visitedFrom before.length cs := by
  induction cs generalizing before with
  | nil => rfl
  | cons c cs ih =>
    have hc : n.children[before.length]? = some c := by simp [h]
    have hlater := ih (before ++ [c]) (by simp [h])
    rw [List.length_append, List.length_singleton] at hlater
    rw [Node.locatedFrom_cons, List.filter_append, filter_located_child hn hc, hlater, visitedFrom]

/-- The root is always visited. -/
theorem visited_eq_cons (r : Run) (n : Node) :
    r.visited n =
      ([], n) :: (Node.locatedFrom 0 n.children).filter fun x => r.Reaches n x.1 := by
  have hroot : decide (r.Reaches n []) = true := decide_eq_true (r.reaches_nil n)
  rw [visited, Node.located_eq, List.filter_cons, if_pos hroot]

theorem visited_of_not_halts {r : Run} {n : Node} (hn : ¬ r.Halts n) :
    r.visited n = ([], n) :: r.visitedFrom 0 n.children := by
  have hchildren := filter_locatedFrom hn [] n.children rfl
  rw [visited_eq_cons]
  exact congrArg _ hchildren

/-- Below a node that halts nothing is visited. -/
theorem visited_of_halts {r : Run} {n : Node} (hn : r.Halts n) : r.visited n = [([], n)] := by
  have hchildren : (Node.locatedFrom 0 n.children).filter (fun x => r.Reaches n x.1) = [] := by
    refine List.filter_eq_nil_iff.mpr fun x hx => ?_
    obtain ⟨j, c, y, hc, -, rfl⟩ := Node.exists_of_mem_locatedFrom hx
    rw [Nat.zero_add, decide_eq_true_eq, reaches_cons_iff hc]
    exact fun h => h.1 hn
  rw [visited_eq_cons, hchildren]

/-! ### A whole check -/

/-- The findings at one node. -/
def findingsAt (r : Run) (depth : Nat) (m : Node) : Findings :=
  r.trace depth m ++ r.account (r.violationsAt m)

/-- The check of a node is what is found at the node and, unless that halts, the check of its
children. -/
theorem check_eq (r : Run) (depth : Nat) (n : Node) :
    r.check depth n =
      r.findingsAt depth n ++ if r.Halts n then {} else r.checkAll (depth + 1) n.children := by
  obtain ⟨kind, text, span, children⟩ := n
  have hask := r.askRules_eq ⟨kind, text, span, children⟩ r.rules
  rw [check, hask]
  by_cases hn : r.Halts ⟨kind, text, span, children⟩
  · rw [if_pos hn, decide_eq_true (show ∃ rule ∈ enabled r.config r.rules, _ from hn),
      Findings.append_empty]
    rfl
  · rw [if_neg hn, decide_eq_false (show ¬ ∃ rule ∈ enabled r.config r.rules, _ from hn)]
    rfl

theorem checkAll_eq_join {r : Run} {depth : Nat} {cs : List Node}
    (h : ∀ c ∈ cs, r.check (depth + 1) c = Findings.join
      ((r.visited c).map fun x => r.findingsAt (depth + 1 + x.1.length) x.2)) (i : Nat) :
    r.checkAll (depth + 1) cs = Findings.join
      ((r.visitedFrom i cs).map fun x => r.findingsAt (depth + x.1.length) x.2) := by
  induction cs generalizing i with
  | nil => rfl
  | cons c cs ih =>
    obtain ⟨hc, hcs⟩ := List.forall_mem_cons.mp h
    have hdepth : ∀ x : Position × Node,
        depth + (i :: x.1).length = depth + 1 + x.1.length := by
      intro x
      rw [List.length_cons]
      omega
    rw [visitedFrom, List.map_append, Findings.join_append, ← ih hcs (i + 1), List.map_map]
    change r.check (depth + 1) c ++ r.checkAll (depth + 1) cs = _
    rw [hc]
    simp only [Function.comp_def, hdepth]

/-- A check is the findings at the visited nodes, one after the other. -/
theorem check_eq_join (r : Run) (depth : Nat) (n : Node) :
    r.check depth n = Findings.join
      ((r.visited n).map fun x => r.findingsAt (depth + x.1.length) x.2) := by
  induction n using Node.inductionOn generalizing depth with
  | step n ih =>
    rw [check_eq]
    by_cases hn : r.Halts n
    · rw [if_pos hn, visited_of_halts hn]
      rfl
    · rw [if_neg hn, visited_of_not_halts hn, checkAll_eq_join (fun c hc => ih c hc (depth + 1)) 0]
      rfl

theorem violations_findingsAt (r : Run) (depth : Nat) (m : Node) :
    (r.findingsAt depth m).violations = r.violationsAt m := by
  rw [findingsAt, Findings.violations_append, trace]
  split <;> rfl

theorem log_findingsAt (r : Run) (depth : Nat) (m : Node) :
    (r.findingsAt depth m).log = r.linesAt depth m := by
  rw [findingsAt, Findings.log_append, trace, linesAt]
  split <;> rfl

theorem isViolated_findingsAt (r : Run) (depth : Nat) (m : Node) :
    (r.findingsAt depth m).isViolated = true ↔ (r.findingsAt depth m).violations ≠ [] := by
  have htrace : (r.trace depth m).isViolated = false := by
    rw [trace]
    split <;> rfl
  rw [violations_findingsAt, findingsAt, Findings.isViolated_append, htrace]
  simp [account]

theorem violations_check (r : Run) (depth : Nat) (n : Node) :
    (r.check depth n).violations = (r.visited n).flatMap fun x => r.violationsAt x.2 := by
  rw [check_eq_join, Findings.violations_join, List.flatMap_map]
  simp only [violations_findingsAt]

theorem log_check (r : Run) (depth : Nat) (n : Node) :
    (r.check depth n).log =
      (r.visited n).flatMap fun x => r.linesAt (depth + x.1.length) x.2 := by
  rw [check_eq_join, Findings.log_join, List.flatMap_map]
  simp only [log_findingsAt]

theorem isViolated_check (r : Run) (depth : Nat) (n : Node) :
    (r.check depth n).isViolated = true ↔ (r.check depth n).violations ≠ [] := by
  rw [check_eq_join]
  refine Findings.isViolated_join_iff fun f hf => ?_
  obtain ⟨x, -, rfl⟩ := List.mem_map.mp hf
  exact r.isViolated_findingsAt _ x.2

/-- A violation comes from a rule that runs, and its severity is the level of that rule. -/
theorem severity_of_mem_violationsAt {r : Run} {m : Node} {v : Violation}
    (h : v ∈ r.violationsAt m) :
    (r.config.level v.rule = .error ∧ v.severity = .error) ∨
      (r.config.level v.rule = .warn ∧ v.severity = .warning) := by
  obtain ⟨rule, hrule, hv⟩ := List.mem_filterMap.mp h
  have henabled : (r.config.level rule.name).isEnabled = true :=
    (List.mem_filter.mp (List.takeWhile_subset _ hrule)).2
  cases hverdict : rule.verdict m with
  | clean => simp [hverdict] at hv
  | halt => simp [hverdict] at hv
  | violated message =>
    rw [hverdict] at hv
    obtain rfl := Option.some.inj hv
    unfold violation
    cases hlevel : r.config.level rule.name with
    | error => simp
    | warn => simp
    | off =>
      rw [hlevel] at henabled
      cases henabled

/-- **The exact meaning of a check.**  The nodes that are visited are those of a walk that no node
above them halts, in the order of the walk.  The violations are, node by node, those of the rules
that run and come before the first that halts; the flag is raised if and only if there is one; and
the log has, node by node, the line of the node if every node gets one, then one line for each
violation, which is an error if and only if the level of the rule and the severity of the
violation are. -/
theorem check_findings (r : Run) (depth : Nat) (n : Node) :
    let found := r.check depth n
    n.located.map (·.2) = n.walk ∧ (∀ x ∈ n.located, n.get? x.1 = some x.2) ∧
      found.violations = (r.visited n).flatMap (fun x => r.violationsAt x.2) ∧
      (found.isViolated = true ↔ found.violations ≠ []) ∧
      found.log = (r.visited n).flatMap (fun x => r.linesAt (depth + x.1.length) x.2) ∧
      ∀ v ∈ found.violations,
        ((r.lineOf v).level = .error ∧ r.config.level v.rule = .error ∧ v.severity = .error) ∨
          ((r.lineOf v).level = .warn ∧ r.config.level v.rule = .warn ∧
            v.severity = .warning) := by
  intro found
  refine ⟨n.map_snd_located, fun x hx => Node.get?_of_mem_located hx, r.violations_check depth n,
    r.isViolated_check depth n, r.log_check depth n, ?_⟩
  intro v hv
  rw [r.violations_check depth n] at hv
  obtain ⟨x, -, hv⟩ := List.mem_flatMap.mp hv
  rcases severity_of_mem_violationsAt hv with ⟨hlevel, hseverity⟩ | ⟨hlevel, hseverity⟩
  · refine Or.inl ⟨?_, hlevel, hseverity⟩
    rw [lineOf, hseverity]
    rfl
  · refine Or.inr ⟨?_, hlevel, hseverity⟩
    rw [lineOf, hseverity]
    rfl

end Run

end Check

end TreeMend
