import TreeMend.Fix
import TreeMend.Proofs.Reassignment.Search
import TreeMend.Proofs.Tree.Edit
import TreeMend.Rule.Catalog

/-!
# Edits that no rule notices

The built-in fixes give new texts to declaration lists and to string literals only, and none of
them reads the text of such a node other than the one that it is about to change.  So a rule says
the same of a node before and after any number of fixes elsewhere.

## Main definitions

* `Node.Harmless` — an edit that gives new texts to declaration lists and string literals only.
* `Fix.Settled`, `Fix.Apart`, `Fix.SettledRules` — rules that do not notice harmless edits, rules
  for different kinds of nodes, and lists of such rules.

## Main results

* `Reassignment.isNeverReassigned_edit` — the search for assignments does not notice them.
* `Fix.settledRules_fixes` — the built-in fixes are settled.
-/

namespace TreeMend

namespace Node

/-- An edit that gives new texts to declaration lists and string literals only. -/
def Harmless (f : Position → Node → Option String) : Prop :=
  ∀ p m t, f p m = some t → m.kind = Kind.declarationList ∨ m.kind = Kind.stringLiteral

variable {f : Position → Node → Option String}

/-- What a harmless edit does below a position is harmless. -/
theorem Harmless.below (h : Harmless f) (p : Position) : Harmless fun q => f (p ++ q) :=
  fun q m t ht => h (p ++ q) m t ht

/-- What a harmless edit does in a child is harmless. -/
theorem Harmless.child (h : Harmless f) (i : Nat) : Harmless fun q => f (i :: q) :=
  h.below [i]

/-- A harmless edit leaves the texts of all other kinds. -/
theorem Harmless.text_edit (h : Harmless f) {n : Node} (hlist : n.kind ≠ Kind.declarationList)
    (hliteral : n.kind ≠ Kind.stringLiteral) : (n.edit f).text = n.text := by
  rw [Node.text_edit]
  cases hf : f [] n with
  | none => rfl
  | some t =>
    rcases h [] n t hf with hk | hk
    · exact absurd hk hlist
    · exact absurd hk hliteral

theorem Harmless.text_edit_identifier (h : Harmless f) {n : Node}
    (hkind : n.kind = Kind.identifier) : (n.edit f).text = n.text :=
  h.text_edit (by rw [hkind]; decide) (by rw [hkind]; decide)

/-- Whether some child is of a kind in a class does not change under edits. -/
theorem any_kind_editFrom (f : Position → Node → Option String) (class? : Kind → Bool) (i : Nat)
    (cs : List Node) :
    (editFrom f i cs).any (fun c => class? c.kind) = cs.any fun c => class? c.kind := by
  induction cs generalizing i with
  | nil => rfl
  | cons c cs ih => simp [ih]

end Node

/-! ### The search for assignments -/

namespace Reassignment

open Node (Harmless)

variable {f : Position → Node → Option String}

/-- Which name a node assigns to depends on texts that harmless edits leave. -/
theorem assignsTo_edit_iff (h : Harmless f) {n : Node} {name : String} :
    AssignsTo (n.edit f) name ↔ AssignsTo n name := by
  have hunary : n.kind = Kind.prefixUnary ∨ n.kind = Kind.postfixUnary →
      (n.edit f).text = n.text := by
    rintro (hk | hk) <;> exact h.text_edit (by rw [hk]; decide) (by rw [hk]; decide)
  unfold AssignsTo
  simp only [List.head?_eq_getElem?, Node.getElem?_children_edit, Option.map_eq_some_iff,
    Node.kind_edit]
  constructor
  · rintro ⟨_, ⟨target, htarget, rfl⟩, hkind, hname, hform⟩
    rw [Node.kind_edit] at hkind
    rw [(h.child 0).text_edit_identifier hkind] at hname
    refine ⟨target, htarget, hkind, hname, ?_⟩
    rcases hform with ⟨hbinary, _, ⟨operator, hoperator, rfl⟩, hassigns⟩ | ⟨hk, hsign⟩
    · exact Or.inl ⟨hbinary, operator, hoperator, by rwa [Node.kind_edit] at hassigns⟩
    · exact Or.inr ⟨hk, by rwa [hunary hk] at hsign⟩
  · rintro ⟨target, htarget, hkind, hname, hform⟩
    refine ⟨_, ⟨target, htarget, rfl⟩, by rwa [Node.kind_edit],
      by rwa [(h.child 0).text_edit_identifier hkind], ?_⟩
    rcases hform with ⟨hbinary, operator, hoperator, hassigns⟩ | ⟨hk, hsign⟩
    · exact Or.inl ⟨hbinary, _, ⟨operator, hoperator, rfl⟩, by rwa [Node.kind_edit]⟩
    · exact Or.inr ⟨hk, by rwa [hunary hk]⟩

/-- The search for assignments does not notice harmless edits. -/
theorem isNeverReassigned_edit (h : Harmless f) (root : Node) (position : Position)
    (names : List String) :
    isNeverReassigned (root.edit f) position names = isNeverReassigned root position names := by
  rw [Bool.eq_iff_iff, isNeverReassigned_eq_true_iff, isNeverReassigned_eq_true_iff]
  constructor
  · intro hnever q m hm hout name hname hassigns
    have hedited : (root.edit f).get? q = some (m.edit fun r => f (q ++ r)) := by
      rw [Node.get?_edit, hm]; rfl
    exact hnever q _ hedited hout name hname ((assignsTo_edit_iff (h.below q)).mpr hassigns)
  · intro hnever q m hm hout name hname hassigns
    rw [Node.get?_edit, Option.map_eq_some_iff] at hm
    obtain ⟨m, hm, rfl⟩ := hm
    exact hnever q m hm hout name hname ((assignsTo_edit_iff (h.below q)).mp hassigns)

/-! ### The names of a list -/

theorem boundName?_edit (h : Harmless f) (d : Node) : boundName? (d.edit f) = boundName? d := by
  unfold boundName?
  rw [Node.children_edit]
  cases d.children with
  | nil => rfl
  | cons name rest =>
    have hany : (Node.editFrom f 1 rest).any (!·.kind.isType) = rest.any (!·.kind.isType) :=
      Node.any_kind_editFrom f (!Kind.isType ·) 1 rest
    simp only [Node.editFrom_cons, Node.kind_edit, Nat.zero_add, hany]
    by_cases hkind : name.kind = Kind.identifier
    · rw [(h.child 0).text_edit_identifier hkind]
    · simp [hkind]

/-- The names of a list do not change under harmless edits. -/
theorem boundNames?_edit (h : Harmless f) (list : Node) :
    boundNames? (list.edit f) = boundNames? list := by
  have key : ∀ (cs : List Node) (i : Nat),
      ((Node.editFrom f i cs).filter (·.kind == Kind.declaration)).mapM boundName? =
        (cs.filter (·.kind == Kind.declaration)).mapM boundName? := by
    intro cs
    induction cs with
    | nil => intro i; rfl
    | cons c cs ih =>
      intro i
      rw [Node.editFrom_cons]
      by_cases hkind : c.kind = Kind.declaration
      · rw [List.filter_cons_of_pos (by simpa using hkind),
          List.filter_cons_of_pos (by simpa using hkind), List.mapM_cons, List.mapM_cons, ih,
          boundName?_edit (h.child i)]
      · rw [List.filter_cons_of_neg (by simpa using hkind),
          List.filter_cons_of_neg (by simpa using hkind), ih]
  rw [boundNames?, Node.children_edit]
  exact key list.children 0

end Reassignment

/-! ### Settled rules -/

namespace Fix

open Node (Harmless)

/-- A rule that says the same of a node whatever harmless edit is made of other nodes, and that
itself makes only harmless ones. -/
structure Settled (rule : FixRule) : Prop where
  /-- Only texts that may change are changed. -/
  fixable : ∀ {root n : Node} {p : Position} {t : String}, rule.replacement root p n = some t →
    n.kind = Kind.declarationList ∨ n.kind = Kind.stringLiteral
  /-- What the rule says of a node does not depend on texts of others that may change. -/
  replacement_edit : ∀ {f : Position → Node → Option String}, Harmless f →
    ∀ (root n : Node) (p : Position), f p n = none →
      rule.replacement (root.edit f) p (n.edit fun q => f (p ++ q)) = rule.replacement root p n

/-- Two rules for different kinds of nodes: where one has a new text, the other has none. -/
def Apart (r s : FixRule) : Prop :=
  ∀ {root n : Node} {p : Position} {t : String}, r.replacement root p n = some t →
    ∀ {root' n' : Node} {p' : Position}, n'.kind = n.kind → s.replacement root' p' n' = none

/-- Rules of which at most one has a new text for a node, and none notices the others. -/
structure SettledRules (rules : List FixRule) : Prop where
  /-- Each rule is settled. -/
  settled : ∀ r ∈ rules, Settled r
  /-- A rule and any after it are for different kinds of nodes. -/
  apart : rules.Pairwise Apart

theorem SettledRules.tail {r : FixRule} {rules : List FixRule} (h : SettledRules (r :: rules)) :
    SettledRules rules :=
  ⟨fun s hs => h.settled s (List.mem_cons_of_mem r hs), (List.pairwise_cons.mp h.apart).2⟩

/-- The rules that run are settled if all rules are. -/
theorem SettledRules.enabled {rules : List FixRule} (h : SettledRules rules) (config : Config) :
    SettledRules (enabled config rules) :=
  ⟨fun r hr => h.settled r (List.mem_filter.mp hr).1, h.apart.filter _⟩

theorem Apart.symm {r s : FixRule} (h : Apart r s) : Apart s r := by
  intro root n p t hs root' n' p' hkind
  cases hr : r.replacement root' p' n' with
  | none => rfl
  | some t' =>
    -- then `s` would have nothing to say about a node of the kind of `n'`
    have hnone : s.replacement root p n = none := h hr hkind.symm
    rw [hs] at hnone
    cases hnone

/-- The order of the rules does not matter. -/
theorem SettledRules.perm {rules rules' : List FixRule} (h : SettledRules rules)
    (hperm : rules'.Perm rules) : SettledRules rules' where
  settled := fun r hr => h.settled r (hperm.mem_iff.mp hr)
  apart := hperm.symm.pairwise h.apart Apart.symm

/-! ### The built-in fixes -/

theorem kind_of_reassignment {root n : Node} {p : Position} {t : String}
    (h : Reassignment.rule.replacement root p n = some t) : n.kind = Kind.declarationList :=
  (Reassignment.replacement_eq_some_iff.mp h).1

theorem kind_of_quotes {root n : Node} {p : Position} {t : String}
    (h : Quotes.rule.replacement root p n = some t) : n.kind = Kind.stringLiteral := by
  change Quotes.replacement n = some t at h
  unfold Quotes.replacement at h
  split at h
  · next hk => exact beq_iff_eq.mp hk
  · cases h

theorem settled_reassignment : Settled Reassignment.rule where
  fixable := fun h => Or.inl (kind_of_reassignment h)
  replacement_edit := by
    intro f hf root n p hp
    have htext : (n.edit fun q => f (p ++ q)).text = n.text := by
      rw [Node.text_edit, List.append_nil, hp]; rfl
    change Reassignment.replacement _ p _ = Reassignment.replacement root p n
    unfold Reassignment.replacement
    rw [Node.kind_edit, htext, Reassignment.boundNames?_edit (hf.below p)]
    simp only [Reassignment.isNeverReassigned_edit hf]

theorem settled_quotes : Settled Quotes.rule where
  fixable := fun h => Or.inr (kind_of_quotes h)
  replacement_edit := by
    intro f hf root n p hp
    have htext : (n.edit fun q => f (p ++ q)).text = n.text := by
      rw [Node.text_edit, List.append_nil, hp]; rfl
    change Quotes.replacement _ = Quotes.replacement n
    unfold Quotes.replacement
    rw [Node.kind_edit, htext]

theorem apart_reassignment_quotes : Apart Reassignment.rule Quotes.rule := by
  intro root n p t h root' n' p' hkind
  cases hq : Quotes.rule.replacement root' p' n' with
  | none => rfl
  | some t' =>
    rw [kind_of_reassignment h, kind_of_quotes hq] at hkind
    exact absurd hkind (by decide)

/-- The built-in fixes are settled. -/
theorem settledRules_fixes : SettledRules Catalog.fixes where
  settled := by
    intro r hr
    rcases List.mem_cons.mp hr with rfl | hr
    · exact settled_reassignment
    · rw [List.mem_singleton.mp hr]
      exact settled_quotes
  apart := List.pairwise_pair.mpr apart_reassignment_quotes

end Fix

end TreeMend
