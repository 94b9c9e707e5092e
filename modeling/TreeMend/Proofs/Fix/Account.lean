import TreeMend.Proofs.Fix.Simultaneous
import TreeMend.Proofs.Program.Fixed

/-!
# The account that a pass gives of itself

A pass counts the fixes that it applies and logs them, with a line for each node that it comes by
if it is told to.  Settled rules say during a pass what they say of the tree that it started from,
so the count and the log, like the texts, can be read off that tree: what a pass has done is known
from the positions that it has visited.

A rule is *exhausted* by a text that it gave itself.  The built-in fixes are, so a fix that was
applied always shows as a text that differs, and the count is the number of such texts.

## Main definitions

* `Fix.firingAt`, `Fix.linesAt` — the rule that gives a node its new text, and what is logged
  about a node, both by the first tree.
* `Fix.progressAt` — the progress of a pass that has visited some positions.
* `Fix.Exhausted` — a rule that has nothing more to say about a text of its own.

## Main results

* `Fix.visit_progressAt`, `Fix.foldl_visit_progressAt`, `Fix.passFrom_eq_progressAt` — one step,
  a run of steps, a whole pass.
* `Fix.passFrom_simultaneous` — **a pass is a simultaneous rewrite of the first tree**, with its
  count and its log.
-/

namespace TreeMend

theorem Node.line_edit {f : Position → Node → Option String} {n : Node} (h : f [] n = none)
    (depth : Nat) (limit : Option Nat) : (n.edit f).line depth limit = n.line depth limit := by
  have htext : (n.edit f).text = n.text := by rw [Node.text_edit, h]; rfl
  unfold Node.line
  rw [Node.kind_edit, htext]

namespace Fix

/-! ### The account of a node -/

/-- The rule that runs and has a new text for the node at a position, with that text. -/
def firingAt (config : Config) (rules : List FixRule) (root : Node) (q : Position) :
    Option (FixRule × String) :=
  (root.get? q).bind (firing (enabled config rules) root q)

/-- What a pass logs about the node at a position: its line, if every node gets one, and the
message of the rule that gives it a new text, if one does. -/
def linesAt (config : Config) (rules : List FixRule) (root : Node) (depth : Nat) (q : Position) :
    Log :=
  (if config.verbosity.isDebug then
    ((root.get? q).map fun n => Log.line .debug (n.line depth none)).toList else []) ++
  ((firingAt config rules root q).map fun f =>
    Log.line .info ("[" ++ f.1.name ++ "] " ++ f.1.message)).toList

theorem firingAt_of_get? {config : Config} {rules : List FixRule} {root n : Node} {q : Position}
    (hn : root.get? q = some n) :
    firingAt config rules root q = firing (enabled config rules) root q n := by
  rw [firingAt, hn]
  rfl

theorem mem_enabled_iff {config : Config} {rules : List FixRule} {r : FixRule} :
    r ∈ enabled config rules ↔ r ∈ rules ∧ config.isEnabled r.name = true :=
  List.mem_filter

/-- Of settled rules at most one has a new text for a node, whatever their order. -/
theorem SettledRules.firing_eq_some_iff {rules : List FixRule} (h : SettledRules rules)
    {root n : Node} {q : Position} {r : FixRule} {t : String} :
    firing rules root q n = some (r, t) ↔ r ∈ rules ∧ r.replacement root q n = some t := by
  constructor
  · exact exists_rule_of_firing
  · rintro ⟨hr, ht⟩
    induction rules with
    | nil => cases hr
    | cons s rules ih =>
      obtain ⟨hapart, -⟩ := List.pairwise_cons.mp h.apart
      rw [firing_cons]
      rcases List.mem_cons.mp hr with rfl | hr
      · rw [ht]
      · -- a rule before `r` would leave `r` nothing to say
        have hs : s.replacement root q n = none := by
          cases hs : s.replacement root q n with
          | none => rfl
          | some t' =>
            have hnone : r.replacement root q n = none := hapart r hr hs rfl
            rw [ht] at hnone
            cases hnone
        rw [hs]
        exact ih h.tail hr

/-! ### One step -/

/-- The progress of a pass that started from `start` and has visited some positions, of which
`depthOf` says at which depth they count as being. -/
def progressAt (config : Config) (rules : List FixRule) (start : Progress)
    (depthOf : Position → Nat) (visited : List Position) : Progress where
  tree := start.tree.edit (editAt (enabled config rules) start.tree visited)
  applied := start.applied +
    visited.countP fun q => (firingAt config rules start.tree q).isSome
  log := start.log ++ visited.flatMap fun q => linesAt config rules start.tree (depthOf q) q

theorem progressAt_nil (config : Config) (rules : List FixRule) (start : Progress)
    (depthOf : Position → Nat) : progressAt config rules start depthOf [] = start := by
  unfold progressAt
  rw [edit_editAt_nil]
  simp

/-- The line of a node shows it as it was in the first tree. -/
theorem trace_progressAt (config : Config) (rules : List FixRule) {start : Progress} {n : Node}
    (depthOf : Position → Nat) {visited : List Position} {q : Position}
    (hn : start.tree.get? q = some n) (hq : q ∉ visited) :
    (trace config (depthOf q) q (progressAt config rules start depthOf visited)).applied =
        (progressAt config rules start depthOf visited).applied ∧
      (trace config (depthOf q) q (progressAt config rules start depthOf visited)).log =
        (progressAt config rules start depthOf visited).log ++
          if config.verbosity.isDebug then [Log.line .debug (n.line (depthOf q) none)] else [] := by
  set f := editAt (enabled config rules) start.tree visited with hf
  have hget : (progressAt config rules start depthOf visited).tree.get? q =
      some (n.edit fun r => f (q ++ r)) := by
    change (start.tree.edit f).get? q = _
    rw [Node.get?_edit, hn]
    rfl
  have hfresh : f (q ++ []) n = none := by
    rw [List.append_nil, hf, editAt]
    simp [hq]
  have hline : (n.edit fun r => f (q ++ r)).line (depthOf q) none = n.line (depthOf q) none :=
    Node.line_edit hfresh (depthOf q) none
  unfold trace
  by_cases hdebug : config.verbosity.isDebug = true
  · rw [if_pos hdebug, if_pos hdebug, hget, ← hline]
    exact ⟨rfl, rfl⟩
  · rw [if_neg hdebug, if_neg hdebug, List.append_nil]
    exact ⟨rfl, rfl⟩

/-- One step of a pass adds one position to those that were visited. -/
theorem visit_progressAt {rules : List FixRule} (h : SettledRules rules) (config : Config)
    {start : Progress} (depthOf : Position → Nat) {visited : List Position} {q : Position}
    (hvalid : ∃ n, start.tree.get? q = some n) (hq : q ∉ visited) :
    visit config rules (depthOf q) (progressAt config rules start depthOf visited) q =
      progressAt config rules start depthOf (visited ++ [q]) := by
  obtain ⟨n, hn⟩ := hvalid
  obtain ⟨happlied, hlog⟩ := trace_progressAt config rules depthOf hn hq
  set p := progressAt config rules start depthOf visited with hp
  have hptree : p.tree = start.tree.edit (editAt (enabled config rules) start.tree visited) := rfl
  -- the texts are known already; the count and the log follow the rule that fires
  have htree := visit_tree h config (depthOf q) hn hq hptree
  have hfold := foldl_applyRule (h.enabled config)
    ((h.enabled config).harmless_editAt start.tree visited) hn (by simp [editAt, hq])
    ((trace_tree config (depthOf q) q p).trans hptree)
  have hcount : (visit config rules (depthOf q) p q).applied =
      p.applied + if (firingAt config rules start.tree q).isSome then 1 else 0 := by
    rw [visit, hfold, firingAt_of_get? hn]
    cases firing (enabled config rules) start.tree q n with
    | none => exact happlied
    | some f => exact congrArg (· + 1) happlied
  have hlines : (visit config rules (depthOf q) p q).log =
      p.log ++ linesAt config rules start.tree (depthOf q) q := by
    rw [visit, hfold, linesAt, firingAt_of_get? hn, hn, ← List.append_assoc]
    cases firing (enabled config rules) start.tree q n with
    | none =>
      rw [Option.map_none, Option.toList_none, List.append_nil]
      exact hlog
    | some f => exact congrArg (· ++ [_]) hlog
  have happend : progressAt config rules start depthOf (visited ++ [q]) =
      ⟨start.tree.edit (editAt (enabled config rules) start.tree (visited ++ [q])),
        p.applied + if (firingAt config rules start.tree q).isSome then 1 else 0,
        p.log ++ linesAt config rules start.tree (depthOf q) q⟩ := by
    rw [hp, progressAt, progressAt]
    simp only [List.countP_append, List.countP_singleton, List.flatMap_append,
      List.flatMap_singleton, Nat.add_assoc, List.append_assoc]
  rw [happend, ← htree, ← hcount, ← hlines]

/-- The steps at positions none of which was visited before. -/
theorem foldl_visit_progressAt {rules : List FixRule} (h : SettledRules rules) (config : Config)
    {start : Progress} (depthOf : Position → Nat) {todo visited : List Position}
    (hvalid : ∀ q ∈ todo, ∃ n, start.tree.get? q = some n) (hnodup : todo.Nodup)
    (hfresh : ∀ q ∈ todo, q ∉ visited) :
    todo.foldl (fun p q => visit config rules (depthOf q) p q)
        (progressAt config rules start depthOf visited) =
      progressAt config rules start depthOf (visited ++ todo) := by
  induction todo generalizing visited with
  | nil => rw [List.foldl_nil, List.append_nil]
  | cons q todo ih =>
    obtain ⟨hqtodo, hnodup⟩ := List.nodup_cons.mp hnodup
    rw [List.append_cons, List.foldl_cons, visit_progressAt h config depthOf
      (hvalid q List.mem_cons_self) (hfresh q List.mem_cons_self)]
    refine ih (fun r hr => hvalid r (List.mem_cons_of_mem q hr)) hnodup ?_
    intro r hr hmem
    rcases List.mem_append.mp hmem with hmem | hmem
    · exact hfresh r (List.mem_cons_of_mem q hr) hmem
    · exact hqtodo (List.mem_singleton.mp hmem ▸ hr)

/-- A pass comes by the positions of its subtree. -/
theorem passFrom_eq_progressAt {rules : List FixRule} (h : SettledRules rules) (config : Config)
    (start : Progress) (position : Position) (depth : Nat) :
    passFrom config rules start position depth =
      progressAt config rules start (fun q => depth + (q.length - position.length))
        (start.tree.positionsUnder position) := by
  set depthOf : Position → Nat := fun q => depth + (q.length - position.length)
  have hfresh : ∀ q ∈ start.tree.positionsUnder position, q ∉ ([] : List Position) :=
    fun q _ hq => by cases hq
  have hrun := foldl_visit_progressAt h config depthOf
    (fun q hq => (Node.mem_positionsUnder_iff.mp hq).2)
    (start.tree.nodup_positionsUnder position) hfresh
  rw [progressAt_nil, List.nil_append] at hrun
  rw [passFrom_eq_foldl, hrun]

/-! ### Texts that a rule gave itself -/

/-- A rule that has nothing more to say about a node with a text of its own. -/
def Exhausted (r : FixRule) : Prop :=
  ∀ ⦃root n : Node⦄ ⦃p : Position⦄ ⦃t : String⦄, r.replacement root p n = some t →
    ∀ ⦃root' n' : Node⦄ ⦃p' : Position⦄, n'.kind = n.kind → n'.text = t →
      r.replacement root' p' n' = none

theorem Exhausted.ne_text {r : FixRule} (h : Exhausted r) {root n : Node} {p : Position}
    {t : String} (ht : r.replacement root p n = some t) : t ≠ n.text := by
  intro htext
  have hnone : r.replacement root p n = none := h ht rfl htext.symm
  rw [ht] at hnone
  cases hnone

/-- The new text of a list starts with `const`, and the rule needs `let`. -/
theorem exhausted_reassignment : Exhausted Reassignment.rule := by
  intro root n p t ht root' n' p' hkind htext
  obtain ⟨-, hconstant, -⟩ := Reassignment.replacement_eq_some_iff.mp ht
  cases hagain : Reassignment.rule.replacement root' p' n' with
  | none => rfl
  | some t' =>
    obtain ⟨-, hconstant', -⟩ := Reassignment.replacement_eq_some_iff.mp hagain
    rw [htext] at hconstant'
    have hconst := (Reassignment.bindingKeyword_of_constantText? hconstant).2
    have hlet := (Reassignment.bindingKeyword_of_constantText? hconstant').1
    rw [hconst] at hlet
    cases hlet

/-- The new text of a literal is in single quotes, and the rule needs double ones. -/
theorem exhausted_quotes : Exhausted Quotes.rule := by
  intro root n p t ht root' n' p' hkind htext
  change Quotes.replacement n = some t at ht
  change Quotes.replacement n' = none
  unfold Quotes.replacement at ht ⊢
  split at ht
  · obtain ⟨body, -, rfl⟩ := Option.map_eq_some_iff.mp ht
    have hdouble : Quotes.doubleQuoted? n'.text = none := by
      cases hd : Quotes.doubleQuoted? n'.text with
      | none => rfl
      | some body' =>
        have hsplit := Quotes.doubleQuoted?_eq_some_iff.mp hd
        rw [htext] at hsplit
        have hsingle := Literal.split?_quoted .single (Quotes.escapeApostrophes body)
        cases hsplit.symm.trans hsingle
    rw [hdouble, Option.map_none, ite_self]
  · cases ht

theorem exhausted_fixes : ∀ r ∈ Catalog.fixes, Exhausted r := by
  intro r hr
  rcases List.mem_cons.mp hr with rfl | hr
  · exact exhausted_reassignment
  · rw [List.mem_singleton.mp hr]
    exact exhausted_quotes

/-! ### A whole pass -/

/-- The text of a node is that of the rule that gives it one, once the node was visited. -/
theorem text_progressAt {config : Config} {rules : List FixRule} {start : Progress}
    {depthOf : Position → Nat} {visited : List Position} {q : Position} {m : Node}
    (hm : start.tree.get? q = some m) :
    ((progressAt config rules start depthOf visited).tree.get? q).map Node.text =
      some (if q ∈ visited then ((firingAt config rules start.tree q).map (·.2)).getD m.text
        else m.text) := by
  change ((start.tree.edit _).get? q).map Node.text = _
  rw [Node.get?_edit, hm, Option.map_some, Option.map_some, Node.text_edit, List.append_nil,
    firingAt_of_get? hm, editAt]
  by_cases hq : q ∈ visited
  · rw [if_pos hq, if_pos (List.contains_iff_mem.mpr hq)]
    rfl
  · rw [if_neg hq, if_neg (mt List.contains_iff_mem.mp hq)]
    rfl

/-- A text that differs is the text of a node that was visited and that some rule fixed. -/
theorem text_progressAt_ne_iff {config : Config} {rules : List FixRule}
    (hexhausted : ∀ r ∈ rules, Exhausted r) {start : Progress} {depthOf : Position → Nat}
    {visited : List Position} {q : Position} {m : Node} (hm : start.tree.get? q = some m) :
    ((progressAt config rules start depthOf visited).tree.get? q).map Node.text ≠
        (start.tree.get? q).map Node.text ↔
      q ∈ visited ∧ (firingAt config rules start.tree q).isSome = true := by
  rw [text_progressAt hm, hm, Option.map_some, ne_eq, Option.some.injEq, firingAt_of_get? hm]
  by_cases hq : q ∈ visited
  · rw [if_pos hq]
    cases hfiring : firing (enabled config rules) start.tree q m with
    | none => simp
    | some f =>
      obtain ⟨hr, ht⟩ := exists_rule_of_firing (r := f.1) (t := f.2) hfiring
      have hne : f.2 ≠ m.text := (hexhausted f.1 (mem_enabled_iff.mp hr).1).ne_text ht
      simp [hq, hne]
  · simp [hq]

/-- The fixes that are applied are the texts that differ. -/
theorem countP_firingAt {config : Config} {rules : List FixRule}
    (hexhausted : ∀ r ∈ rules, Exhausted r) (start : Progress) (depthOf : Position → Nat)
    (position : Position) :
    (start.tree.positionsUnder position).countP
        (fun q => (firingAt config rules start.tree q).isSome) =
      (start.tree.positions.filter fun q =>
        ((progressAt config rules start depthOf
          (start.tree.positionsUnder position)).tree.get? q).map Node.text ≠
          (start.tree.get? q).map Node.text).length := by
  rw [List.countP_eq_length_filter]
  -- both lists hold each position once, and the same positions
  refine List.Perm.length_eq ?_
  refine (List.perm_ext_iff_of_nodup ((start.tree.nodup_positionsUnder position).filter _)
    (start.tree.nodup_positions.filter _)).mpr fun q => ?_
  rw [List.mem_filter, List.mem_filter, decide_eq_true_eq]
  constructor
  · rintro ⟨hq, hfiring⟩
    obtain ⟨-, m, hm⟩ := Node.mem_positionsUnder_iff.mp hq
    exact ⟨Node.mem_positions_iff.mpr ⟨m, hm⟩,
      (text_progressAt_ne_iff hexhausted hm).mpr ⟨hq, hfiring⟩⟩
  · rintro ⟨hq, hne⟩
    obtain ⟨m, hm⟩ := Node.mem_positions_iff.mp hq
    exact (text_progressAt_ne_iff hexhausted hm).mp hne

/-- **A pass is a simultaneous rewrite of the first tree.**  The built-in fixes may run in either
order.  Kinds, ranges and the nesting of nodes stay; a node of the subtree has the text that the
rule that fires on it has for it in the first tree, which is the only rule that runs and has one,
and all other texts stay; the count grows by the number of texts that differ; and the log grows by
what is logged about each node of the subtree, in source order. -/
theorem passFrom_simultaneous {rules : List FixRule} (hrules : rules.Perm Catalog.fixes)
    (config : Config) (start : Progress) {position : Position} {n : Node}
    (hn : start.tree.get? position = some n) (depth : Nat) :
    let first := start.tree
    let last := passFrom config rules start position depth
    (∀ q, (last.tree.get? q).map (fun m => (m.kind, m.span, m.children.length)) =
        (first.get? q).map fun m => (m.kind, m.span, m.children.length)) ∧
      (∀ q m, first.get? q = some m →
        (last.tree.get? q).map Node.text =
          some (if position <+: q then ((firingAt config rules first q).map (·.2)).getD m.text
            else m.text)) ∧
      (∀ q r t, firingAt config rules first q = some (r, t) ↔
        r ∈ rules ∧ config.isEnabled r.name = true ∧
          (first.get? q).bind (r.replacement first q) = some t) ∧
      last.applied = start.applied +
        (first.positions.filter fun q =>
          (last.tree.get? q).map Node.text ≠ (first.get? q).map Node.text).length ∧
      last.log = start.log ++
        n.positions.flatMap fun q =>
          linesAt config rules first (depth + q.length) (position ++ q) := by
  have hsettled : SettledRules rules := settledRules_fixes.perm hrules
  have hexhausted : ∀ r ∈ rules, Exhausted r := fun r hr =>
    exhausted_fixes r (hrules.mem_iff.mp hr)
  intro first last
  have hlast : last = progressAt config rules start (fun q => depth + (q.length - position.length))
      (first.positionsUnder position) := passFrom_eq_progressAt hsettled config start position depth
  refine ⟨?_, ?_, ?_, ?_, ?_⟩
  · intro q
    rw [hlast]
    change ((first.edit _).get? q).map _ = _
    rw [Node.get?_edit, Option.map_map]
    refine Option.map_congr fun m _ => ?_
    rw [Function.comp_apply, Node.kind_edit, Node.span_edit, Node.children_edit,
      Node.length_editFrom]
  · intro q m hm
    have hunder : q ∈ first.positionsUnder position ↔ position <+: q := by
      rw [Node.mem_positionsUnder_iff]
      exact and_iff_left ⟨m, hm⟩
    rw [hlast, text_progressAt hm]
    simp only [hunder]
    rfl
  · intro q r t
    cases hm : first.get? q with
    | none => simp [firingAt, hm]
    | some m =>
      rw [firingAt_of_get? hm, (hsettled.enabled config).firing_eq_some_iff, mem_enabled_iff,
        and_assoc]
      rfl
  · rw [hlast, ← countP_firingAt hexhausted]
    rfl
  · rw [hlast]
    change start.log ++ (first.positionsUnder position).flatMap _ = _
    rw [Node.positionsUnder_of_get? hn, List.flatMap_map]
    simp only [List.length_append, Nat.add_sub_cancel_left]
    rfl

/-- The tree of `let a = "b"; c = "d";`. -/
def quotedTwice : Node :=
  ⟨Kind.sourceFile, "let a = \"b\"; c = \"d\";", ⟨0, 21⟩,
    [⟨Kind.variableStatement, "let a = \"b\";", ⟨0, 12⟩,
      [⟨Kind.declarationList, "let a = \"b\"", ⟨0, 11⟩,
        [⟨Kind.declaration, "a = \"b\"", ⟨4, 11⟩,
          [⟨Kind.identifier, "a", ⟨4, 5⟩, []⟩,
            ⟨Kind.stringLiteral, "\"b\"", ⟨8, 11⟩, []⟩]⟩]⟩]⟩,
      ⟨Kind.expressionStatement, "c = \"d\";", ⟨13, 21⟩,
        [⟨Kind.binaryExpression, "c = \"d\"", ⟨13, 20⟩,
          [⟨Kind.identifier, "c", ⟨13, 14⟩, []⟩, ⟨Kind.equalsToken, "=", ⟨15, 16⟩, []⟩,
            ⟨Kind.stringLiteral, "\"d\"", ⟨17, 20⟩, []⟩]⟩]⟩]⟩

/-- The configuration in which both fixes run and every node gets a line. -/
def tracedFixes : Config :=
  { verbosity := .debug
    rules := .ofList [(Reassignment.rule.name, .warn), (Quotes.rule.name, .error)] }

theorem passFrom_simultaneous_quotedTwice :
    Catalog.fixes.reverse.Perm Catalog.fixes ∧
    (quotedTwice.get? [0, 0]).isSome = true ∧
    let last := passFrom tracedFixes Catalog.fixes.reverse ⟨quotedTwice, 3, []⟩ [0, 0] 2
    (last.tree.get? [0, 0]).map Node.text = some "const a = \"b\"" ∧
      (last.tree.get? [0, 0, 0, 1]).map Node.text = some "'b'" ∧
      (last.tree.get? [1, 0, 2]).map Node.text = some "\"d\"" ∧
      last.applied = 5 ∧
      last.log =
        [Log.line .debug "    Kind: VariableDeclarationList, Text: let a = \"b\"",
          Log.line .info "[use-let-never-reassigned] Replaced let with const",
          Log.line .debug "      Kind: VariableDeclaration, Text: a = \"b\"",
          Log.line .debug "        Kind: Identifier, Text: a",
          Log.line .debug "        Kind: StringLiteral, Text: \"b\"",
          Log.line .info "[double-quotes] Converted double quotes to single quotes"] := by
  have hperm : Catalog.fixes.reverse.Perm Catalog.fixes := List.reverse_perm _
  obtain ⟨n, hn⟩ : ∃ n, quotedTwice.get? [0, 0] = some n := ⟨_, rfl⟩
  obtain ⟨-, htext, -, happlied, hlog⟩ :=
    passFrom_simultaneous hperm tracedFixes ⟨quotedTwice, 3, []⟩ hn 2
  refine ⟨hperm, by rw [hn]; rfl, ?_, ?_, ?_, ?_, ?_⟩
  · exact (htext [0, 0] _ rfl).trans (by decide +kernel)
  · exact (htext [0, 0, 0, 1] _ rfl).trans (by decide +kernel)
  · exact (htext [1, 0, 2] _ rfl).trans (by decide +kernel)
  · exact happlied.trans (by decide +kernel)
  · obtain rfl := Option.some.inj hn
    exact hlog.trans (by decide +kernel)

end Fix

end TreeMend
