import TreeMend.Proofs.Check.Meaning
import TreeMend.Proofs.Check.SuperCalls
import TreeMend.Rule.Catalog

/-!
# Classes that are checked for calls of `super`

The check on derived constructors asks for a heritage clause, and lowering makes such a clause of
what a class extends and of what it implements alike.  So a class that extends nothing is checked
as well if it implements an interface, and is reported for a call that it could not make.

Every class that is reported comes from one with either clause.  Whether all of them extend
something depends on the classes that only implement: on none of those that the check comes to
lacking a call with the word.

## Main definitions

* `ParseTree.IsClass`, `ParseTree.HasClause` — classes, and the clauses in their heritage.
* `ParseTree.HeritageInPlace` — where the grammar has such clauses.

## Main results

* `ParseTree.hasChild_heritageClause_iff` — the clauses that a class node shows.
* `SuperCall.mem_violationsAt_iff` — what the check reports at a node.
* `SuperCall.violations_lowered_iff` — **which classes are reported**.
* `SuperCall.violations_implementing` — one that extends nothing may be.
-/

namespace TreeMend

/-! ### Heritage -/

namespace ParseTree

variable {src : String} {t c h u : ParseTree} {m n : Node}

/-- The rules of the clauses in a heritage. -/
def clauseRules : List String := ["extends_clause", "implements_clause", "extends_type_clause"]

/-- The node declares a class. -/
def IsClass (c : ParseTree) : Prop :=
  c.kind = "class_declaration" ∨ c.kind = "abstract_class_declaration"

/-- A clause of the given rule stands in the heritage of the class. -/
def HasClause (c : ParseTree) (rule : String) : Prop :=
  ∃ h ∈ c.children, h.kind = "class_heritage" ∧ ∃ e ∈ h.children, e.kind = rule

instance (c : ParseTree) (rule : String) : Decidable (c.HasClause rule) :=
  inferInstanceAs (Decidable (∃ h ∈ c.children, h.kind = "class_heritage" ∧
    ∃ e ∈ h.children, e.kind = rule))

/-- The rules of heritages and their clauses, each with the rules that have it as a part; an error
may have any. -/
def heritageParents : List (String × List String) :=
  [("extends_clause", ["class_heritage", "ERROR"]),
    ("implements_clause", ["class_heritage", "ERROR"]),
    ("extends_type_clause", ["interface_declaration", "ERROR"]),
    ("class_heritage", ["class_declaration", "abstract_class_declaration", "class", "ERROR"])]

/-- Heritages and their clauses are where the grammar has them. -/
structure HeritageInPlace (t : ParseTree) : Prop where
  /-- They are parts of the right rules. -/
  parent : ∀ u ∈ t.subtrees, ∀ c ∈ u.children, ∀ e ∈ heritageParents, c.kind = e.1 →
    u.kind ∈ e.2
  /-- They are rules of the grammar, and may not stand just anywhere. -/
  named : ∀ u ∈ t.subtrees, u.kind ∈ heritageParents.map (·.1) →
    u.token.named = true ∧ u.token.extra = false
  /-- Errors have a rule of their own. -/
  error : ∀ u ∈ t.subtrees, u.token.error = true → u.kind = "ERROR"

theorem HeritageInPlace.mono (ht : t.HeritageInPlace) (hsub : u.subtrees ⊆ t.subtrees) :
    u.HeritageInPlace where
  parent := fun v hv => ht.parent v (hsub hv)
  named := fun v hv => ht.named v (hsub hv)
  error := fun v hv => ht.error v (hsub hv)

theorem HeritageInPlace.child (ht : t.HeritageInPlace) (hc : c ∈ t.children) :
    c.HeritageInPlace :=
  ht.mono (subtrees_subset_of_mem hc)

/-- What has a clause as a part. -/
theorem HeritageInPlace.clauseParent (ht : t.HeritageInPlace) (hc : c ∈ t.children)
    (hclause : c.kind ∈ clauseRules) :
    ∃ e ∈ heritageParents, e.1 = c.kind ∧ t.kind ∈ e.2 := by
  have hall : ∀ r ∈ clauseRules, ∃ e ∈ heritageParents, e.1 = r := by decide
  obtain ⟨e, he, hrule⟩ := hall _ hclause
  exact ⟨e, he, hrule, ht.parent t t.mem_subtrees_self c hc e he hrule.symm⟩

/-- Only the rules of clauses become heritage clauses. -/
theorem mem_clauseRules_of_kind (hspelled : u.token.Spelled) (hfate : u.token.fate = .kept)
    (hlower : lowerInto src u = [n]) (hkind : n.kind = Kind.heritageClause) :
    u.kind ∈ clauseRules := by
  have hall : ∀ e ∈ tellingRules, e.2 = Kind.heritageClause → e.1 ∈ clauseRules := by
    decide +kernel
  exact hall _ (mem_tellingRules hspelled (by rw [hkind]; decide) (kind_mem_kinds hfate hlower))
    hkind

/-- A heritage clause that a part leaves comes from the part, or from a clause in it if the part is
a heritage. -/
theorem exists_clause_of_mem (ht : c.HeritageInPlace)
    (hspelled : ∀ u ∈ c.subtrees, u.token.Spelled) (hm : m ∈ lowerPart src c)
    (hkind : m.kind = Kind.heritageClause) :
    c.kind ∈ clauseRules ∨ c.kind = "class_heritage" ∧ ∃ e ∈ c.children, e.kind ∈ clauseRules := by
  induction c using ParseTree.inductionOn with
  | step c ih =>
    rw [lowerPart] at hm
    split at hm
    · obtain rfl := List.mem_singleton.mp hm
      exact absurd (show Kind.identifier = Kind.heritageClause from hkind) (by decide)
    cases hfate : c.token.fate with
    | dropped =>
      rw [lowerInto_dropped src hfate] at hm
      cases hm
    | kept =>
      obtain ⟨n, hn⟩ := exists_lowerInto_kept src hfate
      rw [hn] at hm
      obtain rfl := List.mem_singleton.mp hm
      exact Or.inl
        (mem_clauseRules_of_kind (hspelled c c.mem_subtrees_self) hfate hn hkind)
    | spliced =>
      have hwrapper := mem_splicedRules_of_fate hfate
      rw [lowerInto_spliced src hfate, lowerChildren_eq_flatMap] at hm
      obtain ⟨d, hd, hm⟩ := List.mem_flatMap.mp hm
      -- of the wrappers only a heritage has clauses, and none has a heritage
      rcases ih d hd (ht.child hd) (fun u hu => hspelled u (subtrees_subset_of_mem hd hu)) hm with
        hclause | ⟨hheritage, -⟩
      · have hwrappers : ∀ e ∈ heritageParents, e.1 ∈ clauseRules → ∀ r ∈ e.2,
            r ∈ splicedRules → r = "class_heritage" := by decide
        obtain ⟨e, he, hrule, hparent⟩ := ht.clauseParent hd hclause
        exact Or.inr ⟨hwrappers e he (hrule ▸ hclause) _ hparent hwrapper, d, hd, hclause⟩
      · have hwrappers : ∀ e ∈ heritageParents, e.1 = "class_heritage" → ∀ r ∈ e.2,
            r ∉ splicedRules := by decide
        obtain ⟨e, he, hrule⟩ : ∃ e ∈ heritageParents, e.1 = "class_heritage" := by decide
        have hparent := ht.parent c c.mem_subtrees_self d hd e he (hheritage.trans hrule.symm)
        exact absurd hwrapper (hwrappers e he hrule _ hparent)

/-- What a class extends and implements is left in the class. -/
theorem exists_heritageClause_of_hasClause (ht : c.HeritageInPlace) {rule : String}
    (hrule : rule = "extends_clause" ∨ rule = "implements_clause") (hclause : c.HasClause rule) :
    ∃ m ∈ lowerChildren src c.children, m.kind = Kind.heritageClause := by
  obtain ⟨h, hh, hheritage, e, he, rfl⟩ := hclause
  have hhc := ht.child hh
  have hec := hhc.child he
  obtain ⟨hnamed, hextra⟩ := hhc.named h h.mem_subtrees_self (by rw [hheritage]; decide)
  obtain ⟨hnamed', hextra'⟩ := hec.named e e.mem_subtrees_self (by
    rcases hrule with hrule | hrule <;> rw [hrule] <;> decide)
  have hfate : h.token.fate = .spliced := by
    have herror : h.token.error = false := by
      rw [← Bool.not_eq_true]
      intro herror
      exact absurd (hheritage.symm.trans (hhc.error h h.mem_subtrees_self herror)) (by decide)
    have hkind : h.token.kind = "class_heritage" := hheritage
    rw [Token.fate, herror, hnamed, hextra, hkind]
    rfl
  have hfate' : e.token.fate = .kept := by
    refine fate_of_reached (Or.inr ⟨hnamed', hextra', ?_⟩) ?_
    · rcases hrule with hrule | hrule <;> rw [show e.token.kind = _ from hrule] <;> decide
    · rcases hrule with hrule | hrule <;> rw [hrule] <;> decide
  have hshape : shapeOf src e = .heritage := by
    rcases hrule with hrule | hrule <;> rw [shapeOf, hrule] <;> rfl
  have hpart : lowerPart src e = lowerInto src e := by
    refine lowerPart_eq_lowerInto src ?_
    rcases hrule with hrule | hrule <;> rw [hrule] <;> decide
  refine ⟨nodeOf src Kind.heritageClause e.token
    ((lowerChildren src e.children).map heritageOperandNode), ?_, rfl⟩
  rw [lowerChildren_eq_flatMap]
  refine List.mem_flatMap.mpr ⟨h, hh, ?_⟩
  rw [lowerPart_eq_lowerInto src (by rw [hheritage]; decide), lowerInto_spliced src hfate,
    lowerChildren_eq_flatMap]
  refine List.mem_flatMap.mpr ⟨e, he, ?_⟩
  rw [hpart, lowerInto_heritage src hfate' hshape]
  exact List.mem_singleton_self _

theorem shapeOf_class (src : String) (hclass : c.IsClass) :
    shapeOf src c = .branch Kind.classDeclaration := by
  rcases hclass with hrule | hrule <;> rw [shapeOf, hrule] <;> rfl

/-- A class becomes a class node. -/
theorem kind_of_isClass (hclass : c.IsClass) (hfate : c.token.fate = .kept)
    (hlower : lowerInto src c = [n]) : n.kind = Kind.classDeclaration := by
  rw [lowerInto_branch src hfate (shapeOf_class src hclass)] at hlower
  obtain rfl := List.singleton_inj.mp hlower
  rfl

/-- A class node shows a heritage clause if the class extends or implements something. -/
theorem hasChild_heritageClause_iff (ht : c.HeritageInPlace)
    (hspelled : ∀ u ∈ c.subtrees, u.token.Spelled) (hclass : c.IsClass)
    (hfate : c.token.fate = .kept) (hlower : lowerInto src c = [n]) :
    n.hasChild Kind.heritageClause = true ↔
      c.HasClause "extends_clause" ∨ c.HasClause "implements_clause" := by
  rw [lowerInto_branch src hfate (shapeOf_class src hclass)] at hlower
  obtain rfl := List.singleton_inj.mp hlower
  have hchildren : (nodeOf src Kind.classDeclaration c.token
      (lowerChildren src c.children)).hasChild Kind.heritageClause = true ↔
        ∃ m ∈ lowerChildren src c.children, m.kind = Kind.heritageClause := by
    simp [Node.hasChild, nodeOf]
  rw [hchildren]
  constructor
  · rintro ⟨m, hm, hkind⟩
    rw [lowerChildren_eq_flatMap] at hm
    obtain ⟨d, hd, hm⟩ := List.mem_flatMap.mp hm
    rcases exists_clause_of_mem (ht.child hd)
      (fun u hu => hspelled u (subtrees_subset_of_mem hd hu)) hm hkind with
        hclause | ⟨hheritage, e, he, hclause⟩
    · -- a clause is no part of a class itself
      have hclasses : ∀ e ∈ heritageParents, e.1 ∈ clauseRules → ∀ r ∈ e.2,
          r ≠ "class_declaration" ∧ r ≠ "abstract_class_declaration" := by decide
      obtain ⟨e, he, hrule, hparent⟩ := ht.clauseParent hd hclause
      obtain ⟨hplain, habstract⟩ := hclasses e he (hrule ▸ hclause) _ hparent
      exact (hclass.elim hplain habstract).elim
    · have hheritages : ∀ e ∈ heritageParents, e.1 ∈ clauseRules → "class_heritage" ∈ e.2 →
          e.1 = "extends_clause" ∨ e.1 = "implements_clause" := by decide
      obtain ⟨e', he', hrule, hparent⟩ := (ht.child hd).clauseParent he hclause
      rw [hheritage] at hparent
      rcases hheritages e' he' (hrule ▸ hclause) hparent with hextends | himplements
      · exact Or.inl ⟨d, hd, hheritage, e, he, hrule ▸ hextends⟩
      · exact Or.inr ⟨d, hd, hheritage, e, he, hrule ▸ himplements⟩
  · rintro (hclause | hclause)
    · exact exists_heritageClause_of_hasClause ht (Or.inl rfl) hclause
    · exact exists_heritageClause_of_hasClause ht (Or.inr rfl) hclause

end ParseTree

/-! ### Violations -/

namespace SuperCall

open Check (Run)
open ParseTree (lowerProgram place)

variable {src : String} {t : ParseTree} {config : Config} {file : Option SourceFile}

/-- The check reports, if it runs, each class with a heritage clause whose constructor lacks the
word. -/
theorem mem_violationsAt_iff {m : Node} {v : Violation} :
    v ∈ (Run.mk config Catalog.checks file).violationsAt m ↔
      config.isEnabled rule.name = true ∧ m.kind = Kind.classDeclaration ∧
        m.hasChild Kind.heritageClause = true ∧ LacksSuper m ∧
          v = (Run.mk config Catalog.checks file).violation rule m message := by
  set r : Run := ⟨config, Catalog.checks, file⟩
  have hone : v ∈ r.violationsOf m [rule] ↔
      ∃ text, verdict m = .violated text ∧ v = r.violation rule m text := by
    cases hverdict : verdict m with
    | clean =>
      rw [Run.violationsOf_cons_clean hverdict]
      simp [Run.violationsOf]
    | halt =>
      rw [Run.violationsOf_cons_halt hverdict]
      simp
    | violated text =>
      rw [Run.violationsOf_cons_violated hverdict]
      simp [Run.violationsOf]
  by_cases henabled : config.isEnabled rule.name = true
  · have hrunning : r.running = [rule] := Check.enabled_cons_of_pos henabled []
    rw [Run.violationsAt, hrunning, hone, and_iff_right henabled]
    simp only [verdict_eq_violated_iff]
    constructor
    · rintro ⟨text, ⟨hkind, hheritage, hlacks, rfl⟩, rfl⟩
      exact ⟨hkind, hheritage, hlacks, rfl⟩
    · rintro ⟨hkind, hheritage, hlacks, rfl⟩
      exact ⟨message, ⟨hkind, hheritage, hlacks, rfl⟩, rfl⟩
  · have hrunning : r.running = [] := Check.enabled_cons_of_neg henabled []
    rw [Run.violationsAt, hrunning]
    simp [Run.violationsOf, henabled]

/-- A class node comes from a class, and shows whether that extends or implements something. -/
theorem exists_class_of_kind (hplaces : t.HeritageInPlace)
    (hspelled : ∀ u ∈ t.subtrees, u.token.Spelled) {q : Position} {n : Node}
    (hn : (lowerProgram src t).get? q = some n) (hkind : n.kind = Kind.classDeclaration) :
    ∃ p c, t.get? p = some c ∧ place src .parts t p = some q ∧ c.IsClass ∧
      (n.hasChild Kind.heritageClause = true ↔
        c.HasClause "extends_clause" ∨ c.HasClause "implements_clause") := by
  obtain ⟨p, c, hc, hplace, hfate, hlower⟩ :=
    ParseTree.exists_origin hn (by rw [hkind]; decide)
  have hsub := ParseTree.subtrees_subset_of_get? hc
  have hclass : c.IsClass := by
    have hall : ∀ e ∈ ParseTree.tellingRules, e.2 = Kind.classDeclaration →
        e.1 = "class_declaration" ∨ e.1 = "abstract_class_declaration" := by decide +kernel
    exact hall _ (ParseTree.mem_tellingRules (hspelled c (hsub c.mem_subtrees_self))
      (by rw [hkind]; decide) (ParseTree.kind_mem_kinds hfate hlower)) hkind
  exact ⟨p, c, hc, hplace, hclass, ParseTree.hasChild_heritageClause_iff (hplaces.mono hsub)
    (fun u hu => hspelled u (hsub hu)) hclass hfate hlower⟩

/-- **Which classes are reported.**  The violations in the tree of a file are those at the nodes
that the check visits, and each is at a class node that comes from a class with an extends clause or
an implements clause.  All of them come from classes with an extends clause exactly if, of the
visited classes with an implements clause only, none lacks the word in its constructor. -/
theorem violations_lowered_iff (hplaces : t.HeritageInPlace)
    (hspelled : ∀ u ∈ t.subtrees, u.token.Spelled) (depth : Nat) :
    let r : Run := ⟨config, Catalog.checks, file⟩
    let tree := lowerProgram src t
    (r.check depth tree).violations = (r.visited tree).flatMap (fun x => r.violationsAt x.2) ∧
      (∀ x ∈ r.visited tree, ∀ v ∈ r.violationsAt x.2, x.2.kind = Kind.classDeclaration ∧
        ∃ p c, t.get? p = some c ∧ place src .parts t p = some x.1 ∧ c.IsClass ∧
          (c.HasClause "extends_clause" ∨ c.HasClause "implements_clause")) ∧
      ((∀ x ∈ r.visited tree, ∀ v ∈ r.violationsAt x.2,
          ∃ p c, t.get? p = some c ∧ place src .parts t p = some x.1 ∧ c.IsClass ∧
            c.HasClause "extends_clause") ↔
        (config.isEnabled rule.name = true → ∀ x ∈ r.visited tree, ∀ p c, t.get? p = some c →
          place src .parts t p = some x.1 → c.IsClass → c.HasClause "implements_clause" →
            ¬ c.HasClause "extends_clause" → ¬ LacksSuper x.2)) := by
  intro r tree
  have hat : ∀ x ∈ r.visited tree, tree.get? x.1 = some x.2 := fun x hx =>
    Node.get?_of_mem_located (List.mem_filter.mp hx).1
  have horigin : ∀ x ∈ r.visited tree, ∀ v ∈ r.violationsAt x.2,
      x.2.kind = Kind.classDeclaration ∧
        ∃ p c, t.get? p = some c ∧ place src .parts t p = some x.1 ∧ c.IsClass ∧
          (c.HasClause "extends_clause" ∨ c.HasClause "implements_clause") := by
    intro x hx v hv
    obtain ⟨-, hkind, hheritage, -⟩ := mem_violationsAt_iff.mp hv
    obtain ⟨p, c, hc, hplace, hclass, hclauses⟩ :=
      exists_class_of_kind hplaces hspelled (hat x hx) hkind
    exact ⟨hkind, p, c, hc, hplace, hclass, hclauses.mp hheritage⟩
  refine ⟨r.violations_check depth tree, horigin, ?_, ?_⟩
  · intro hextends henabled x hx p c hc hplace hclass himplements hnot hlacks
    -- such a class would be reported, and no other class has its place
    obtain ⟨n, hn, hfate, hlower⟩ := ParseTree.nodeIn_place hc hplace
    obtain rfl : n = x.2 :=
      Option.some.inj ((ParseTree.get?_lowerProgram hn).symm.trans (hat x hx))
    have hsub := ParseTree.subtrees_subset_of_get? hc
    have hheritage := (ParseTree.hasChild_heritageClause_iff (hplaces.mono hsub)
      (fun u hu => hspelled u (hsub hu)) hclass hfate hlower).mpr (Or.inr himplements)
    have hkind := ParseTree.kind_of_isClass hclass hfate hlower
    obtain ⟨p', c', hc', hplace', -, hclause⟩ :=
      hextends x hx _ (mem_violationsAt_iff.mpr ⟨henabled, hkind, hheritage, hlacks, rfl⟩)
    obtain rfl := ParseTree.place_injective hc hc' hplace hplace'
    obtain rfl := Option.some.inj (hc.symm.trans hc')
    exact hnot hclause
  · intro hnone x hx v hv
    obtain ⟨henabled, -, -, hlacks, -⟩ := mem_violationsAt_iff.mp hv
    obtain ⟨-, p, c, hc, hplace, hclass, hclauses⟩ := horigin x hx v hv
    refine ⟨p, c, hc, hplace, hclass, ?_⟩
    by_contra hnot
    exact hnone henabled x hx p c hc hplace hclass (hclauses.resolve_left hnot) hnot hlacks

/-- A source with a class that implements an interface and extends nothing. -/
def implementingSource : String :=
  "class A implements I \x7b constructor() \x7b foo(); \x7d \x7d"

/-- The parse tree of `implementingSource`. -/
def implementingTree : ParseTree :=
  ⟨⟨"program", true, false, false, false, 0, 49, none⟩, [
    ⟨⟨"class_declaration", true, false, false, false, 0, 49, none⟩, [
      ⟨⟨"class", false, false, false, false, 0, 5, none⟩, []⟩,
      ⟨⟨"type_identifier", true, false, false, false, 6, 7, some "name"⟩, []⟩,
      ⟨⟨"class_heritage", true, false, false, false, 8, 20, none⟩, [
        ⟨⟨"implements_clause", true, false, false, false, 8, 20, none⟩, [
          ⟨⟨"implements", false, false, false, false, 8, 18, none⟩, []⟩,
          ⟨⟨"type_identifier", true, false, false, false, 19, 20, none⟩, []⟩]⟩]⟩,
      ⟨⟨"class_body", true, false, false, false, 21, 49, some "body"⟩, [
        ⟨⟨"\x7b", false, false, false, false, 21, 22, none⟩, []⟩,
        ⟨⟨"method_definition", true, false, false, false, 23, 47, none⟩, [
          ⟨⟨"property_identifier", true, false, false, false, 23, 34, some "name"⟩, []⟩,
          ⟨⟨"formal_parameters", true, false, false, false, 34, 36, some "parameters"⟩, [
            ⟨⟨"(", false, false, false, false, 34, 35, none⟩, []⟩,
            ⟨⟨")", false, false, false, false, 35, 36, none⟩, []⟩]⟩,
          ⟨⟨"statement_block", true, false, false, false, 37, 47, some "body"⟩, [
            ⟨⟨"\x7b", false, false, false, false, 37, 38, none⟩, []⟩,
            ⟨⟨"expression_statement", true, false, false, false, 39, 45, none⟩, [
              ⟨⟨"call_expression", true, false, false, false, 39, 44, none⟩, [
                ⟨⟨"identifier", true, false, false, false, 39, 42, some "function"⟩, []⟩,
                ⟨⟨"arguments", true, false, false, false, 42, 44, some "arguments"⟩, [
                  ⟨⟨"(", false, false, false, false, 42, 43, none⟩, []⟩,
                  ⟨⟨")", false, false, false, false, 43, 44, none⟩, []⟩]⟩]⟩,
              ⟨⟨";", false, false, false, false, 44, 45, none⟩, []⟩]⟩,
            ⟨⟨"\x7d", false, false, false, false, 46, 47, none⟩, []⟩]⟩]⟩,
        ⟨⟨"\x7d", false, false, false, false, 48, 49, none⟩, []⟩]⟩]⟩]⟩

/-- The check is on. -/
def implementingRun : Run := ⟨{ rules := .ofList [(rule.name, .error)] }, Catalog.checks, none⟩

theorem heritageInPlace_implementingTree : implementingTree.HeritageInPlace where
  parent := by decide +kernel
  named := by decide +kernel
  error := by decide +kernel

/-- The class of `implementingSource` is reported, and extends nothing. -/
theorem exists_violation_implementingTree :
    (∃ v, v ∈ (implementingRun.check 0
      (lowerProgram implementingSource implementingTree)).violations) ∧
      ∀ u ∈ implementingTree.subtrees, ¬ u.HasClause "extends_clause" := by
  refine ⟨List.exists_mem_of_length_pos ?_, by decide +kernel⟩
  decide +kernel

theorem violations_lowered_implementingTree :
    implementingTree.HeritageInPlace ∧ (∀ u ∈ implementingTree.subtrees, u.token.Spelled) ∧
      ∃ x ∈ implementingRun.visited (lowerProgram implementingSource implementingTree),
        x.2.kind = Kind.classDeclaration ∧ ∃ p c, implementingTree.get? p = some c ∧
          place implementingSource .parts implementingTree p = some x.1 ∧
          c.HasClause "implements_clause" ∧ ¬ c.HasClause "extends_clause" := by
  have hspelled : ∀ u ∈ implementingTree.subtrees, u.token.Spelled := by decide +kernel
  refine ⟨heritageInPlace_implementingTree, hspelled, ?_⟩
  obtain ⟨hall, horigin, -⟩ := @violations_lowered_iff implementingSource implementingTree
    implementingRun.config none heritageInPlace_implementingTree hspelled 0
  obtain ⟨⟨v, hv⟩, hnone⟩ := exists_violation_implementingTree
  obtain ⟨x, hx, hv⟩ := List.mem_flatMap.mp (hall ▸ hv)
  obtain ⟨hkind, p, c, hc, hplace, -, hclauses⟩ := horigin x hx v hv
  have hnot := hnone c (ParseTree.mem_subtrees hc)
  exact ⟨x, hx, hkind, p, c, hc, hplace, hclauses.resolve_left hnot, hnot⟩

/-- A class that extends nothing may be reported. -/
theorem violations_implementing :
    ¬ ∀ (src : String) (t : ParseTree) (config : Config) (file : Option SourceFile) (depth : Nat),
      t.HeritageInPlace → (∀ u ∈ t.subtrees, u.token.Spelled) →
        let r : Run := ⟨config, Catalog.checks, file⟩
        let tree := lowerProgram src t
        ∀ v ∈ (r.check depth tree).violations, ∃ x ∈ r.visited tree, v ∈ r.violationsAt x.2 ∧
          ∃ p c, t.get? p = some c ∧ place src .parts t p = some x.1 ∧ c.IsClass ∧
            c.HasClause "extends_clause" := by
  intro h
  have hclaim := h implementingSource implementingTree implementingRun.config none 0
    heritageInPlace_implementingTree (by decide +kernel)
  obtain ⟨⟨v, hv⟩, hnone⟩ := exists_violation_implementingTree
  obtain ⟨-, -, -, p, c, hc, -, -, hclause⟩ := hclaim v hv
  exact hnone c (ParseTree.mem_subtrees hc) hclause

end SuperCall

end TreeMend
