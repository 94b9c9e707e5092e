import Mathlib.Data.List.Pairwise
import TreeMend.Proofs.Fix.Account

/-!
# A second pass does nothing

After a pass no rule has anything more to say about the nodes of its subtree.  A node that a rule
has fixed has a text that exhausts this rule, and the other rules are for other kinds of nodes; a
node that no rule has fixed is seen by settled rules as it was before the pass, when they had
nothing to say about it either.

## Main results

* `Fix.firingAt_passFrom` — after a pass nothing fires.
* `Fix.passFrom_again` — **fixing is idempotent**.
-/

namespace TreeMend.Fix

theorem firing_eq_none_iff {rules : List FixRule} {root n : Node} {p : Position} :
    firing rules root p n = none ↔ ∀ r ∈ rules, r.replacement root p n = none := by
  unfold firing
  simp

/-- Two settled rules are the same or for different kinds of nodes. -/
theorem SettledRules.eq_or_apart {rules : List FixRule} (h : SettledRules rules) {r s : FixRule}
    (hr : r ∈ rules) (hs : s ∈ rules) : r = s ∨ Apart r s := by
  by_cases heq : r = s
  · exact Or.inl heq
  · have : Std.Symm Apart := ⟨fun _ _ => Apart.symm⟩
    exact Or.inr (h.apart.forall hr hs heq)

/-- After a pass nothing fires in its subtree. -/
theorem firingAt_passFrom {rules : List FixRule} (h : SettledRules rules)
    (hexhausted : ∀ r ∈ rules, Exhausted r) (config : Config) (start : Progress)
    {position : Position} (depth : Nat) {q : Position} (hq : position <+: q) :
    firingAt config rules (passFrom config rules start position depth).tree q = none := by
  set running := enabled config rules with hrunning
  set visited := start.tree.positionsUnder position with hvisited
  set f := editAt running start.tree visited with hf
  have hsettled : SettledRules running := h.enabled config
  have htree : (passFrom config rules start position depth).tree = start.tree.edit f := by
    rw [passFrom_eq_progressAt h]
    rfl
  rw [htree]
  cases hn : start.tree.get? q with
  | none => rw [firingAt, Node.get?_edit, hn]; rfl
  | some n =>
    have hmem : q ∈ visited := Node.mem_positionsUnder_iff.mpr ⟨hq, n, hn⟩
    have hfq : f q n = newText running start.tree q n := by
      rw [hf, editAt, if_pos (List.contains_iff_mem.mpr hmem)]
    have hget : (start.tree.edit f).get? q = some (n.edit fun r => f (q ++ r)) := by
      rw [Node.get?_edit, hn]
      rfl
    rw [firingAt_of_get? hget, firing_eq_none_iff]
    intro r hr
    cases hfiring : firing running start.tree q n with
    | none =>
      -- the node is as it was, and so is what `r` says of it
      have hnone : f q n = none := by rw [hfq, newText, hfiring]; rfl
      rw [(hsettled.settled r hr).replacement_edit (hsettled.harmless_editAt start.tree visited)
        start.tree n q hnone]
      exact firing_eq_none_iff.mp hfiring r hr
    | some fired =>
      obtain ⟨s, t⟩ := fired
      obtain ⟨hs, ht⟩ := exists_rule_of_firing hfiring
      have htext : (n.edit fun r => f (q ++ r)).text = t := by
        rw [Node.text_edit, List.append_nil, hfq, newText, hfiring]
        rfl
      rcases hsettled.eq_or_apart hs hr with rfl | hapart
      · exact hexhausted s (mem_enabled_iff.mp hs).1 ht (Node.kind_edit _ n) htext
      · exact hapart ht (Node.kind_edit _ n)

/-- **Fixing is idempotent.**  A second pass over the same subtree, whatever was counted and logged
before it, leaves the tree as the first one left it, counts nothing, and logs at most the lines
that every node gets. -/
theorem passFrom_again (config : Config) (start : Progress) (position : Position)
    (depth depth' applied : Nat) (log : Log) :
    let first := passFrom config Catalog.fixes start position depth
    let second := passFrom config Catalog.fixes ⟨first.tree, applied, log⟩ position depth'
    second.tree = first.tree ∧ second.applied = applied ∧
      ∃ lines, second.log = log ++ lines ∧ ∀ line ∈ lines, line.level = .debug := by
  intro first second
  have hnone : ∀ q ∈ first.tree.positionsUnder position,
      firingAt config Catalog.fixes first.tree q = none := fun q hq =>
    firingAt_passFrom settledRules_fixes exhausted_fixes config start depth
      (Node.mem_positionsUnder_iff.mp hq).1
  have hsecond : second = progressAt config Catalog.fixes ⟨first.tree, applied, log⟩
      (fun q => depth' + (q.length - position.length)) (first.tree.positionsUnder position) :=
    passFrom_eq_progressAt settledRules_fixes config _ position depth'
  refine ⟨?_, ?_, ?_⟩
  · rw [hsecond]
    change first.tree.edit _ = _
    refine (Node.edit_congr _ _ fun q m hm => ?_).trans (Node.edit_none first.tree)
    rw [editAt]
    split
    · next hq =>
      have hfiring := hnone q (List.contains_iff_mem.mp hq)
      rw [firingAt_of_get? hm] at hfiring
      rw [newText, hfiring]
      rfl
    · rfl
  · rw [hsecond]
    change applied + List.countP _ _ = applied
    rw [List.countP_eq_zero.mpr fun q hq => by rw [hnone q hq]; exact Bool.false_ne_true]
    rfl
  · refine ⟨_, by rw [hsecond]; rfl, ?_⟩
    intro line hline
    obtain ⟨q, hq, hline⟩ := List.mem_flatMap.mp hline
    -- of what is logged about a node only its own line is left
    rw [linesAt, hnone q hq, Option.map_none, Option.toList_none, List.append_nil] at hline
    split at hline
    · obtain ⟨m, -, rfl⟩ := Option.map_eq_some_iff.mp (Option.mem_toList.mp hline)
      rfl
    · cases hline

end TreeMend.Fix
