import TreeMend.Proofs.Fix.Harmless

/-!
# A pass of fixes is one simultaneous edit

A pass changes texts one after another, and each rule sees the tree as the fixes before it left
it.  Settled rules do not notice: what they say of a node is what they say of it in the tree that
the pass started from.  So the outcome of a pass is one edit of that tree.

## Main definitions

* `Fix.firing`, `Fix.newText` — the first rule that has a new text for a node, and that text.
* `Fix.editAt` — the edit that gives new texts at some positions.
* `Fix.Progress.fix` — a pass in which a rule has just given a node a new text.
* `Fix.treeAt` — the tree as it is when a pass comes to a node.

## Main results

* `Fix.foldl_applyRule` — at a node not yet changed, the rules do what `firing` says.
* `Fix.visit_tree` — one step of a pass.
* `Fix.replacement_treeAt` — what a rule says during a pass is what it says of the first tree.
* `Fix.pass_tree` — **the outcome of a pass**: every node of the subtree has the text that the
  first tree gives it, and all other nodes keep theirs.
-/

namespace TreeMend.Fix

open Node (Harmless)

/-- The first of the rules that has a new text for a node, with that text. -/
def firing (rules : List FixRule) (root : Node) (p : Position) (n : Node) :
    Option (FixRule × String) :=
  rules.findSome? fun r => (r.replacement root p n).map fun t => (r, t)

/-- The text that the rules have for a node. -/
def newText (rules : List FixRule) (root : Node) (p : Position) (n : Node) : Option String :=
  (firing rules root p n).map (·.2)

/-- The edit that gives new texts at the positions in `visited`. -/
def editAt (rules : List FixRule) (root : Node) (visited : List Position) (p : Position)
    (m : Node) : Option String :=
  if visited.contains p then newText rules root p m else none

/-- The pass in which `rule` has just given the node at `q` the text `t`. -/
def Progress.fix (p : Progress) (q : Position) (rule : FixRule) (t : String) : Progress :=
  ⟨p.tree.setTextAt q t, p.applied + 1,
    p.log ++ [Log.line .info ("[" ++ rule.name ++ "] " ++ rule.message)]⟩

theorem firing_cons (r : FixRule) (rules : List FixRule) (root : Node) (p : Position) (n : Node) :
    firing (r :: rules) root p n =
      match r.replacement root p n with
      | some t => some (r, t)
      | none => firing rules root p n := by
  unfold firing
  rw [List.findSome?_cons]
  cases r.replacement root p n <;> rfl

/-- What the rules say comes from one of them. -/
theorem exists_rule_of_firing {rules : List FixRule} {root n : Node} {p : Position} {r : FixRule}
    {t : String} (h : firing rules root p n = some (r, t)) :
    r ∈ rules ∧ r.replacement root p n = some t := by
  obtain ⟨s, hs, hst⟩ := List.exists_of_findSome?_eq_some h
  obtain ⟨t', ht', heq⟩ := Option.map_eq_some_iff.mp hst
  obtain ⟨rfl, rfl⟩ := Prod.mk.inj heq
  exact ⟨hs, ht'⟩

/-- Settled rules give new texts only where that is harmless. -/
theorem SettledRules.harmless_editAt {rules : List FixRule} (h : SettledRules rules) (root : Node)
    (visited : List Position) : Harmless (editAt rules root visited) := by
  intro p m t ht
  unfold editAt at ht
  split at ht
  · obtain ⟨⟨r, t'⟩, hfiring, rfl⟩ := Option.map_eq_some_iff.mp ht
    obtain ⟨hr, hreplaced⟩ := exists_rule_of_firing hfiring
    exact (h.settled r hr).fixable hreplaced
  · cases ht

theorem edit_editAt_nil (rules : List FixRule) (root : Node) :
    root.edit (editAt rules root []) = root := by
  refine (Node.edit_congr _ _ fun p m hm => ?_).trans (Node.edit_none root)
  simp [editAt]

/-! ### One node -/

theorem applyRule_of_some {q : Position} {p : Progress} {r : FixRule} {m : Node} {t : String}
    (hm : p.tree.get? q = some m) (ht : r.replacement p.tree q m = some t) :
    applyRule q p r = p.fix q r t := by
  unfold applyRule
  rw [hm, Option.bind_some, ht]
  rfl

theorem applyRule_of_none {q : Position} {p : Progress} {r : FixRule} {m : Node}
    (hm : p.tree.get? q = some m) (ht : r.replacement p.tree q m = none) :
    applyRule q p r = p := by
  unfold applyRule
  rw [hm, Option.bind_some, ht]

theorem foldl_applyRule_of_none {q : Position} {p : Progress} {m : Node} {rules : List FixRule}
    (hm : p.tree.get? q = some m) (h : ∀ r ∈ rules, r.replacement p.tree q m = none) :
    rules.foldl (applyRule q) p = p := by
  induction rules with
  | nil => rfl
  | cons r rules ih =>
    rw [List.foldl_cons, applyRule_of_none hm (h r List.mem_cons_self)]
    exact ih fun s hs => h s (List.mem_cons_of_mem r hs)

/-- At a node that was not changed yet, the rules do what they say of it in the first tree. -/
theorem foldl_applyRule {rules : List FixRule} (h : SettledRules rules)
    {f : Position → Node → Option String} (hf : Harmless f) {root n : Node} {q : Position}
    (hn : root.get? q = some n) (hq : f q n = none) {p : Progress} (hp : p.tree = root.edit f) :
    rules.foldl (applyRule q) p =
      match firing rules root q n with
      | some (r, t) => p.fix q r t
      | none => p := by
  have hget : p.tree.get? q = some (n.edit fun r => f (q ++ r)) := by
    rw [hp, Node.get?_edit, hn]; rfl
  induction rules with
  | nil => rfl
  | cons r rules ih =>
    have hsame := (h.settled r List.mem_cons_self).replacement_edit hf root n q hq
    rw [← hp] at hsame
    rw [List.foldl_cons, firing_cons]
    cases hr : r.replacement root q n with
    | none =>
      rw [applyRule_of_none hget (hsame.trans hr)]
      exact ih h.tail
    | some t =>
      -- the node keeps its kind, so no later rule has anything to say about it
      rw [applyRule_of_some hget (hsame.trans hr)]
      have hget' : (p.fix q r t).tree.get? q =
          some (n.edit fun s => if q ++ s = q then fun _ => some t else f (q ++ s)) := by
        change (p.tree.setTextAt q t).get? q = _
        rw [hp, Node.setTextAt_edit, Node.get?_edit, hn, Option.map_some]
        congr 2
        funext s m
        split <;> rfl
      refine foldl_applyRule_of_none hget' fun s hs => ?_
      exact (List.pairwise_cons.mp h.apart).1 s hs hr (Node.kind_edit _ n)

/-! ### One step, and a whole pass -/

theorem trace_tree (config : Config) (depth : Nat) (q : Position) (p : Progress) :
    (trace config depth q p).tree = p.tree := by
  unfold trace
  split
  · split <;> rfl
  · rfl

/-- One step of a pass puts the new text of one more node in. -/
theorem visit_tree {rules : List FixRule} (h : SettledRules rules) (config : Config) (depth : Nat)
    {root n : Node} {visited : List Position} {q : Position} (hn : root.get? q = some n)
    (hq : q ∉ visited) {p : Progress}
    (hp : p.tree = root.edit (editAt (enabled config rules) root visited)) :
    (visit config rules depth p q).tree =
      root.edit (editAt (enabled config rules) root (visited ++ [q])) := by
  have hf := (h.enabled config).harmless_editAt root visited
  have hnone : editAt (enabled config rules) root visited q n = none := by
    simp [editAt, hq]
  have htraced : (trace config depth q p).tree =
      root.edit (editAt (enabled config rules) root visited) := by rw [trace_tree, hp]
  unfold visit
  rw [foldl_applyRule (h.enabled config) hf hn hnone htraced]
  cases hfiring : firing (enabled config rules) root q n with
  | none =>
    -- nothing happens at `q`, and the edit gives it nothing
    change (trace config depth q p).tree = _
    rw [htraced]
    refine Node.edit_congr _ _ fun r m hm => ?_
    by_cases hrq : r = q
    · subst hrq
      obtain rfl : n = m := Option.some.inj (hn.symm.trans hm)
      simp [editAt, newText, hfiring, hq]
    · simp [editAt, hrq]
  | some rt =>
    obtain ⟨r, t⟩ := rt
    change (trace config depth q p).tree.setTextAt q t = _
    rw [htraced, Node.setTextAt_edit]
    refine Node.edit_congr _ _ fun s m hm => ?_
    by_cases hsq : s = q
    · subst hsq
      obtain rfl : n = m := Option.some.inj (hn.symm.trans hm)
      simp [editAt, newText, hfiring]
    · simp [editAt, hsq]

/-- The steps at the positions in `todo`, none of which was visited before. -/
theorem foldl_visit_tree {rules : List FixRule} (h : SettledRules rules) (config : Config)
    (depthOf : Position → Nat) {root : Node} {todo visited : List Position}
    (hvalid : ∀ q ∈ todo, ∃ n, root.get? q = some n) (hnodup : todo.Nodup)
    (hfresh : ∀ q ∈ todo, q ∉ visited) {p : Progress}
    (hp : p.tree = root.edit (editAt (enabled config rules) root visited)) :
    (todo.foldl (fun p q => visit config rules (depthOf q) p q) p).tree =
      root.edit (editAt (enabled config rules) root (visited ++ todo)) := by
  induction todo generalizing visited p with
  | nil => simpa using hp
  | cons q todo ih =>
    obtain ⟨n, hn⟩ := hvalid q List.mem_cons_self
    obtain ⟨hqtodo, hnodup⟩ := List.nodup_cons.mp hnodup
    rw [List.foldl_cons, List.append_cons]
    refine ih (fun r hr => hvalid r (List.mem_cons_of_mem q hr)) hnodup ?_
      (visit_tree h config (depthOf q) hn (hfresh q List.mem_cons_self) hp)
    intro r hr hmem
    rcases List.mem_append.mp hmem with hmem | hmem
    · exact hfresh r (List.mem_cons_of_mem q hr) hmem
    · exact hqtodo (List.mem_singleton.mp hmem ▸ hr)

/-- The tree as it is when a pass over the whole of `root` comes to a position. -/
def treeAt (config : Config) (rules : List FixRule) (root : Node) (depth : Nat) (p : Position) :
    Node :=
  ((root.positions.takeWhile (· != p)).foldl
    (fun s q => visit config rules (depth + q.length) s q) ⟨root, 0, []⟩).tree

/-- What a rule says of a node when a pass comes to it is what it says of it in the first tree. -/
theorem replacement_treeAt {rules : List FixRule} (h : SettledRules rules) {r : FixRule}
    (hr : r ∈ rules) (config : Config) (root : Node) (depth : Nat) (p : Position) :
    ((treeAt config rules root depth p).get? p).bind
        (r.replacement (treeAt config rules root depth p) p) =
      (root.get? p).bind (r.replacement root p) := by
  set before := root.positions.takeWhile (· != p) with hbefore
  have hsub : before.Sublist root.positions := List.takeWhile_sublist _
  have hp : p ∉ before := fun hmem => by
    simpa using List.all_eq_true.mp List.all_takeWhile p hmem
  have htree : treeAt config rules root depth p =
      root.edit (editAt (enabled config rules) root ([] ++ before)) :=
    foldl_visit_tree h config (fun q => depth + q.length)
      (fun q hq => Node.mem_positions_iff.mp (hsub.subset hq)) (root.nodup_positions.sublist hsub)
      (fun q _ hq => by cases hq) (edit_editAt_nil _ root).symm
  rw [htree, List.nil_append, Node.get?_edit]
  cases hn : root.get? p with
  | none => rfl
  | some n =>
    have hnone : editAt (enabled config rules) root before p n = none := by
      simp [editAt, hp]
    exact (h.settled r hr).replacement_edit
      ((h.enabled config).harmless_editAt root before) root n p hnone

/-- A pass is a step at each position of the subtree, in source order. -/
theorem passFrom_eq_foldl (config : Config) (rules : List FixRule) (start : Progress)
    (position : Position) (depth : Nat) :
    passFrom config rules start position depth =
      (start.tree.positionsUnder position).foldl
        (fun p q => visit config rules (depth + (q.length - position.length)) p q) start := by
  rw [Node.positionsUnder, List.foldl_map]
  simp only [List.length_append, Nat.add_sub_cancel_left]
  rfl

/-- **The outcome of a pass.**  Every node of the subtree at `position` has the text that the rules
that run have for it in the first tree, and all other nodes keep theirs. -/
theorem pass_tree {rules : List FixRule} (h : SettledRules rules) (config : Config) (root : Node)
    (position : Position) (depth : Nat) :
    (pass config rules root position depth).tree =
      root.edit fun p m =>
        if position <+: p then newText (enabled config rules) root p m else none := by
  rw [pass, passFrom_eq_foldl, foldl_visit_tree h config
    (fun q => depth + (q.length - position.length))
    (fun q hq => (Node.mem_positionsUnder_iff.mp hq).2) (root.nodup_positionsUnder position)
    (fun q _ hq => by cases hq) (edit_editAt_nil _ root).symm]
  refine Node.edit_congr _ _ fun p m hm => ?_
  by_cases hp : position <+: p
  · have hmem : p ∈ root.positionsUnder position :=
      Node.mem_positionsUnder_iff.mpr ⟨hp, m, hm⟩
    simp [editAt, hp, hmem]
  · have hmem : p ∉ root.positionsUnder position :=
      fun hmem => hp (Node.mem_positionsUnder_iff.mp hmem).1
    simp [editAt, hp, hmem]

end TreeMend.Fix
