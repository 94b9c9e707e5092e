import TreeMend.Proofs.Lowering.Origins
import TreeMend.Proofs.Reassignment.Search
import TreeMend.Proofs.Supported.Language

/-!
# Declarations without an initializer

A constant binding needs an initializer, but the generic tree does not say which part of a
declaration is one.  The rule on reassignment takes any part behind the name whose kind is not that
of a type.  Of the rules for types only some become such a kind; any other type counts as an
initializer, so that a binding without a value is made constant if its type is of such a rule.

## Main definitions

* `ParseTree.typeRules` — the rules for types that are recognized.
* `ParseTree.IsBinding` — what the grammar has in a declaration.
* `ParseTree.HidesType` — the type of a binding is of another rule.
* `ParseTree.ErrorFree` — what is assumed of a parse tree without errors.

## Main results

* `ParseTree.exists_lowerPart_isType_iff` — which nodes have the kind of a type.
* `ParseTree.isSome_boundName?_binding_iff` — which bindings could be constant.
* `Reassignment.replacement_uninitialized_iff` — **when a list with a binding without a value keeps
  its text**.
* `Reassignment.replacement_hiddenType` — so it may be made constant.
-/

namespace TreeMend

namespace ParseTree

variable {src : String} {t u v a d : ParseTree} {p : Position} {n : Node}

/-! ### Bindings -/

/-- The rules for types that become the kind of a type. -/
def typeRules : List String :=
  ["predefined_type", "type_identifier", "nested_type_identifier", "generic_type", "object_type",
    "array_type", "union_type", "intersection_type", "function_type", "literal_type", "tuple_type"]

/-- The rules that do not become one node of their own. -/
def passedRules : List String := "hash_bang_line" :: splicedRules

/-- An annotation with one type. -/
structure IsTypeAnnotation (a : ParseTree) : Prop where
  /-- It is an annotation. -/
  kind : a.kind = "type_annotation"
  /-- The type is its only part, and has no name in it. -/
  parts : ∃ s, a.significant = [s] ∧ s.kind ∉ passedRules ∧ s.token.field = none

/-- A binding: a name or a pattern, perhaps a type, perhaps a value. -/
structure IsBinding (v : ParseTree) : Prop where
  /-- It is a binding. -/
  kind : v.kind = "variable_declarator"
  /-- Its parts are in this order. -/
  parts : ∃ name type? value?, v.significant = name :: (type?.toList ++ value?.toList) ∧
    v.field? "name" = some name ∧ v.field? "type" = type? ∧ v.field? "value" = value? ∧
    name.kind ∈ ["identifier", "object_pattern", "array_pattern"] ∧
    (∀ a, type? = some a → IsTypeAnnotation a) ∧
    ∀ s, value? = some s → s.kind ∉ typeRules ∧ s.kind ∉ passedRules

/-- What is bound is a plain name. -/
def BindsName (v : ParseTree) : Prop :=
  ∃ name, v.field? "name" = some name ∧ name.kind = "identifier"

/-- The type of the binding is of a rule that is not recognized. -/
def HidesType (v : ParseTree) : Prop :=
  ∃ a, v.field? "type" = some a ∧ ∃ s ∈ a.significant, s.kind ∉ typeRules

/-- What is assumed of a parse tree without errors. -/
structure ErrorFree (t : ParseTree) : Prop where
  /-- Its nodes are what they may be. -/
  grammatical : Grammatical t
  /-- No node is an error. -/
  error : t.hasError = false
  /-- No rule but those of the grammar spells a kind that constructs are known by. -/
  spelled : ∀ u ∈ t.subtrees, u.token.Spelled

theorem exists_get?_of_mem (hu : t.get? p = some u) {c : ParseTree} (hc : c ∈ u.children) :
    ∃ i, t.get? (p ++ [i]) = some c := by
  obtain ⟨i, hi⟩ := List.mem_iff_getElem?.mp hc
  exact ⟨i, by rw [get?_append, hu]; exact get?_cons_eq_some.mpr ⟨c, hi, rfl⟩⟩

/-- In a tree without errors only the parts of a node leave anything. -/
theorem ErrorFree.lowerChildren_eq (ht : t.ErrorFree) (hu : t.get? p = some u) :
    lowerChildren src u.children = u.significant.flatMap (lowerPart src) := by
  refine lowerChildren_eq_filter (fun c hc => ?_) fun c hc => ?_
  · obtain ⟨i, hi⟩ := exists_get?_of_mem hu hc
    exact ht.grammatical.regular _ c hi
  · obtain ⟨i, hi⟩ := exists_get?_of_mem hu hc
    exact error_of_get? ht.error hi

/-! ### Types -/

/-- The recognized rules become the kind of a type. -/
theorem isType_of_mem_typeRules (h : t.kind ∈ typeRules) {k : Kind}
    (hk : k ∈ (shapeOf src t).kinds) : k.isType = true := by
  have hname : ∀ {s : Shape}, shapeOf src t = s → s.kinds = [Kind.typeReference] →
      k.isType = true := by
    intro s hs hkinds
    rw [hs, hkinds] at hk
    rw [List.mem_singleton.mp hk]
    rfl
  rcases List.mem_cons.mp h with hrule | h
  · -- a keyword decides about the kind, which is that of a type in any case
    rw [shapeOf_predefinedType src hrule] at hk
    obtain rfl := List.mem_singleton.mp hk
    have hall : ∀ k ∈ Kind.typeReference :: typeKeywordKinds.map (·.2), k.isType = true := by
      decide
    exact hall _ (typeKeywordKind_mem _)
  rcases List.mem_cons.mp h with hrule | h
  · exact hname (by rw [shapeOf, hrule]) rfl
  rcases List.mem_cons.mp h with hrule | h
  · exact hname (by rw [shapeOf, hrule]) rfl
  · have hall : ∀ r ∈ typeRules.drop 3, r ∉ shapedRules ∧ leafKinds.lookup r = none ∧
        (ruleKind r).isType = true := by decide +kernel
    obtain ⟨hshaped, hleaf, htype⟩ := hall _ h
    rw [shapeOf_branch src hshaped hleaf] at hk
    rwa [List.mem_singleton.mp hk]

/-- A part becomes a node with the kind of a type exactly if its rule is recognized. -/
theorem exists_lowerPart_isType_iff (src : String) (hspelled : u.token.Spelled)
    (hsignificant : u.token.isSignificant = true) (hrule : u.kind ∉ passedRules)
    (hname : u.token.isDeclaredName = false) :
    ∃ n, lowerPart src u = [n] ∧ (n.kind.isType = true ↔ u.kind ∈ typeRules) := by
  have hfate := fate_of_isSignificant hsignificant hrule
  obtain ⟨n, hn⟩ := exists_lowerInto_kept src hfate
  refine ⟨n, (Layout.lowerPart_of_not_isDeclaredName hname).trans hn, fun htype => ?_, fun htype =>
    isType_of_mem_typeRules htype (kind_mem_kinds hfate hn)⟩
  have htelling : n.kind ∈ tellingKinds :=
    List.mem_append_right _ (List.contains_iff_mem.mp htype)
  have hall : ∀ e ∈ tellingRules, e.2.isType = true → e.1 ∈ typeRules := by decide +kernel
  exact hall _ (mem_tellingRules hspelled htelling (kind_mem_kinds hfate hn)) htype

/-- An annotation leaves what its type becomes. -/
theorem exists_lowerPart_typeAnnotation (src : String) (ht : t.ErrorFree)
    (ha : t.get? p = some a) (h : IsTypeAnnotation a) (hsignificant : a.token.isSignificant = true) :
    ∃ n, lowerPart src a = [n] ∧
      (n.kind.isType = false ↔ ∃ s ∈ a.significant, s.kind ∉ typeRules) := by
  obtain ⟨s, hparts, hrule, hfield⟩ := h.parts
  have hs : s ∈ a.significant := by rw [hparts]; exact List.mem_singleton_self s
  obtain ⟨i, hi⟩ := exists_get?_of_mem ha (List.mem_filter.mp hs).1
  have hname : s.token.isDeclaredName = false := by
    rw [Token.isDeclaredName, hfield]
    rfl
  obtain ⟨n, hn, htype⟩ := exists_lowerPart_isType_iff src
    (ht.spelled s (mem_subtrees hi)) (isSignificant_of_mem hs) hrule hname
  refine ⟨n, ?_, ?_⟩
  · rw [lowerPart_of_mem_splicedRules src (error_of_get? ht.error ha) hsignificant
      (by rw [h.kind]; decide), ht.lowerChildren_eq ha, hparts, List.flatMap_singleton, hn]
  · rw [hparts, ← Bool.not_eq_true, htype]
    simp

/-- A value leaves a node without the kind of a type. -/
theorem exists_lowerPart_value (src : String) (hspelled : u.token.Spelled)
    (hsignificant : u.token.isSignificant = true) (hrule : u.kind ∉ typeRules)
    (hkept : u.kind ∉ passedRules) : ∃ n, lowerPart src u = [n] ∧ n.kind.isType = false := by
  have hname : u.kind ≠ "type_identifier" := by
    intro hkind
    rw [hkind] at hrule
    exact hrule (by decide)
  obtain ⟨n, hn, htype⟩ := exists_lowerPart_isType_iff src hspelled hsignificant hkept
    (isDeclaredName_of_ne hname)
  refine ⟨n, hn, ?_⟩
  rw [← Bool.not_eq_true, htype]
  exact hrule

/-! ### Declarations -/

/-- A name becomes a name, and a pattern does not. -/
theorem exists_lowerPart_bound (src : String) (hsignificant : u.token.isSignificant = true)
    (hrule : u.kind ∈ ["identifier", "object_pattern", "array_pattern"]) :
    ∃ n, lowerPart src u = [n] ∧ (n.kind = Kind.identifier ↔ u.kind = "identifier") := by
  by_cases hname : u.kind = "identifier"
  · have hmem : (u.kind, Shape.leaf Kind.identifier) ∈ fixedShapes := by rw [hname]; decide
    exact ⟨_, lowerPart_leaf src hsignificant hmem, by simp [hname, nodeOf]⟩
  · have hall : ∀ r ∈ ["identifier", "object_pattern", "array_pattern"], r = "identifier" ∨
        (r ∉ passedRules ∧ r ≠ "type_identifier") ∧ r ∉ shapedRules ∧
          leafKinds.lookup r = none ∧ ruleKind r ≠ Kind.identifier := by decide +kernel
    obtain ⟨⟨hkept, hdeclared⟩, hshaped, hleaf, hkind⟩ := (hall _ hrule).resolve_left hname
    refine ⟨nodeOf src (ruleKind u.kind) u.token (lowerChildren src u.children), ?_,
      by simp [hname, nodeOf, hkind]⟩
    rw [lowerPart_eq_lowerInto src hdeclared, lowerInto_branch src
      (fate_of_isSignificant hsignificant hkept) (shapeOf_branch src hshaped hleaf)]

/-- A binding could be constant if it binds a plain name and has a value, or a type that is not
recognized. -/
theorem isSome_boundName?_binding_iff (ht : t.ErrorFree) (hv : t.get? p = some v)
    (h : IsBinding v) :
    (Reassignment.boundName?
        (nodeOf src Kind.declaration v.token (lowerChildren src v.children))).isSome = true ↔
      v.BindsName ∧ (v.field? "value" = none → v.HidesType) := by
  obtain ⟨name, type?, value?, hparts, hname, htype, hvalue, hrule, htyped, hvalued⟩ := h.parts
  have hpart : ∀ c ∈ v.significant, ∃ i, t.get? (p ++ [i]) = some c := fun c hc =>
    exists_get?_of_mem hv (List.mem_filter.mp hc).1
  obtain ⟨m, hm, hmkind⟩ := exists_lowerPart_bound src
    (isSignificant_of_mem (t := v) (by rw [hparts]; exact List.mem_cons_self)) hrule
  -- what the type leaves, and what the value leaves
  have htypes : (type?.toList.flatMap (lowerPart src)).any (!·.kind.isType) = true ↔
      v.HidesType := by
    cases type? with
    | none => simp [HidesType, htype]
    | some a =>
      have ha : a ∈ v.significant := by rw [hparts]; simp
      obtain ⟨i, hi⟩ := hpart a ha
      obtain ⟨n, hn, hntype⟩ := exists_lowerPart_typeAnnotation src ht hi (htyped a rfl)
        (isSignificant_of_mem ha)
      simp [HidesType, htype, hn, hntype]
  have hvalues : (value?.toList.flatMap (lowerPart src)).any (!·.kind.isType) = true ↔
      value? ≠ none := by
    cases value? with
    | none => simp
    | some s =>
      have hs : s ∈ v.significant := by rw [hparts]; simp
      obtain ⟨i, hi⟩ := hpart s hs
      obtain ⟨hnotype, hkept⟩ := hvalued s rfl
      obtain ⟨n, hn, hno⟩ := exists_lowerPart_value src (ht.spelled s (mem_subtrees hi))
        (isSignificant_of_mem hs) hnotype hkept
      simp [hn, hno]
  have hchildren : lowerChildren src v.children = m :: (type?.toList.flatMap (lowerPart src) ++
      value?.toList.flatMap (lowerPart src)) := by
    rw [ht.lowerChildren_eq hv, hparts, List.flatMap_cons, List.flatMap_append, hm,
      List.singleton_append]
  have hbinds : v.BindsName ↔ name.kind = "identifier" := by
    simp [BindsName, hname]
  rw [Reassignment.isSome_boundName?_iff (show (nodeOf src Kind.declaration v.token
    (lowerChildren src v.children)).children = _ from hchildren), List.any_append,
    Bool.or_eq_true, htypes, hvalues, hmkind, hbinds, hvalue]
  exact and_congr_right fun _ => or_comm.trans imp_iff_not_or.symm

/-- The declarations in the list of a declaration are what its bindings become. -/
theorem lowerChildren_eq_map (ht : t.ErrorFree) (hd : t.get? p = some d)
    (hbindings : ∀ v ∈ d.significant, IsBinding v) :
    lowerChildren src d.children = d.significant.map fun v =>
      nodeOf src Kind.declaration v.token (lowerChildren src v.children) := by
  rw [ht.lowerChildren_eq hd, List.map_eq_flatMap]
  refine List.flatMap_congr fun v hv => ?_
  have hmem : (v.kind, Shape.branch Kind.declaration) ∈ fixedShapes := by
    rw [(hbindings v hv).kind]
    decide
  obtain ⟨hfate, hs, hpart⟩ := kept_of_mem src (isSignificant_of_mem hv) hmem
  rw [hpart, lowerInto_branch src hfate hs]

/-- A declaration in the list of a declaration cannot be constant for what its binding is. -/
theorem exists_boundName?_eq_none_iff (ht : t.ErrorFree) (hd : t.get? p = some d)
    (hbindings : ∀ v ∈ d.significant, IsBinding v) :
    (∃ c ∈ lowerChildren src d.children, c.kind = Kind.declaration ∧
        Reassignment.boundName? c = none) ↔
      ∃ v ∈ d.significant, ¬ (v.BindsName ∧ (v.field? "value" = none → v.HidesType)) := by
  have hsome : ∀ v ∈ d.significant, (Reassignment.boundName? (nodeOf src Kind.declaration v.token
      (lowerChildren src v.children))).isSome = true ↔
        v.BindsName ∧ (v.field? "value" = none → v.HidesType) := by
    intro v hv
    obtain ⟨i, hi⟩ := exists_get?_of_mem hd (List.mem_filter.mp hv).1
    exact isSome_boundName?_binding_iff ht hi (hbindings v hv)
  rw [lowerChildren_eq_map ht hd hbindings]
  constructor
  · rintro ⟨c, hc, -, hnone⟩
    obtain ⟨v, hv, rfl⟩ := List.mem_map.mp hc
    refine ⟨v, hv, fun h => ?_⟩
    have hbound := (hsome v hv).mpr h
    rw [hnone] at hbound
    cases hbound
  · rintro ⟨v, hv, hnot⟩
    refine ⟨_, List.mem_map_of_mem hv, rfl, ?_⟩
    rwa [← hsome v hv, Option.not_isSome_iff_eq_none] at hnot

/-- The list of a declaration that is lowered stands below its place. -/
theorem exists_declarationList (src : String) (hd : t.get? p = some d)
    (hkind : d.kind = "lexical_declaration") {q : Position} (hplace : place src .parts t p = some q) :
    ∃ list, (lowerProgram src t).get? (q ++ [0]) = some list ∧
      list.kind = Kind.declarationList ∧ list.children = lowerChildren src d.children := by
  obtain ⟨s, hs, hfate, hlower⟩ := nodeIn_place hd hplace
  have hshape : shapeOf src d = .variableStatement :=
    shapeOf_of_mem src (by rw [hkind]; decide)
  rw [lowerInto_variableStatement src hfate hshape] at hlower
  obtain rfl := List.singleton_inj.mp hlower
  rw [Node.get?_append, get?_lowerProgram hs]
  exact ⟨_, rfl, rfl, rfl⟩

end ParseTree

namespace Reassignment

open ParseTree (lowerProgram lowerChildren place nodeOf IsBinding)

variable {src : String} {t d v : ParseTree} {p q : Position}

/-- **When a list with a binding without a value keeps its text.**  In the tree of a file without
errors, take a declaration with `let` or `const` that is lowered, and a binding in it that has no
value.  The rule on reassignment has no new text for its list if the binding has no type, or one of
a recognized rule.  In all, it has none exactly if the text does not start with `let`, if a binding
has a pattern in place of a name, if a binding has neither a value nor a type of a rule that is not
recognized, or if a node outside the list assigns to one of the names. -/
theorem replacement_uninitialized_iff (ht : t.ErrorFree) (hd : t.get? p = some d)
    (hkind : d.kind = "lexical_declaration") (hbindings : ∀ v ∈ d.significant, IsBinding v)
    (hplace : place src .parts t p = some q) (hv : v ∈ d.significant)
    (hvalue : v.field? "value" = none) :
    ∃ list, (lowerProgram src t).get? (q ++ [0]) = some list ∧
      list.kind = Kind.declarationList ∧ list.children = lowerChildren src d.children ∧
      (¬ v.HidesType → replacement (lowerProgram src t) (q ++ [0]) list = none) ∧
      (replacement (lowerProgram src t) (q ++ [0]) list = none ↔
        constantText? list.text = none ∨
          (∃ u ∈ d.significant, ¬ u.BindsName) ∨
          (∃ u ∈ d.significant, u.field? "value" = none ∧ ¬ u.HidesType) ∨
          ∃ r m name, (lowerProgram src t).get? r = some m ∧ ¬ (q ++ [0]) <+: r ∧
            Declares list name ∧ AssignsTo m name) := by
  obtain ⟨list, hget, hlist, hchildren⟩ :=
    ParseTree.exists_declarationList src hd hkind hplace
  have hdeclaration : ∃ c ∈ list.children, c.kind = Kind.declaration := by
    rw [hchildren, ParseTree.lowerChildren_eq_map ht hd hbindings]
    exact ⟨_, List.mem_map_of_mem hv, rfl⟩
  -- the declarations that could not be constant come from the bindings in question
  have hbound : (∃ c ∈ list.children, c.kind = Kind.declaration ∧ boundName? c = none) ↔
      (∃ u ∈ d.significant, ¬ u.BindsName) ∨
        ∃ u ∈ d.significant, u.field? "value" = none ∧ ¬ u.HidesType := by
    rw [hchildren, ParseTree.exists_boundName?_eq_none_iff ht hd hbindings]
    constructor
    · rintro ⟨u, hu, hnot⟩
      by_cases hname : u.BindsName
      · obtain ⟨hnone, hhides⟩ := Classical.not_imp.mp fun h => hnot ⟨hname, h⟩
        exact Or.inr ⟨u, hu, hnone, hhides⟩
      · exact Or.inl ⟨u, hu, hname⟩
    · rintro (⟨u, hu, hname⟩ | ⟨u, hu, hnone, hhides⟩)
      · exact ⟨u, hu, fun h => hname h.1⟩
      · exact ⟨u, hu, fun h => hhides (h.2 hnone)⟩
  have hiff := replacement_eq_none_iff (lowerProgram src t) (q ++ [0]) hlist hdeclaration
  rw [hbound, or_assoc] at hiff
  exact ⟨list, hget, hlist, hchildren,
    fun hhides => hiff.mpr (Or.inr (Or.inr (Or.inl ⟨v, hv, hvalue, hhides⟩))), hiff⟩

/-- A source with a type that is not recognized. -/
def hiddenSource : String := "let k: keyof T;"

/-- The parse tree of `hiddenSource`. -/
def hiddenTree : ParseTree :=
  ⟨⟨"program", true, false, false, false, 0, 15, none⟩, [
    ⟨⟨"lexical_declaration", true, false, false, false, 0, 15, none⟩, [
      ⟨⟨"let", false, false, false, false, 0, 3, some "kind"⟩, []⟩,
      ⟨⟨"variable_declarator", true, false, false, false, 4, 14, none⟩, [
        ⟨⟨"identifier", true, false, false, false, 4, 5, some "name"⟩, []⟩,
        ⟨⟨"type_annotation", true, false, false, false, 5, 14, some "type"⟩, [
          ⟨⟨":", false, false, false, false, 5, 6, none⟩, []⟩,
          ⟨⟨"index_type_query", true, false, false, false, 7, 14, none⟩, [
            ⟨⟨"keyof", false, false, false, false, 7, 12, none⟩, []⟩,
            ⟨⟨"type_identifier", true, false, false, false, 13, 14, none⟩, []⟩]⟩]⟩]⟩,
      ⟨⟨";", false, false, false, false, 14, 15, none⟩, []⟩]⟩]⟩

theorem errorFree_hiddenTree : hiddenTree.ErrorFree where
  grammatical := .of_listing (Or.inl rfl) (by decide +kernel)
  error := by decide +kernel
  spelled := by decide +kernel

/-- The binding of `hiddenSource` has no value, and is made constant. -/
theorem exists_hiddenBinding : ∃ d v list, hiddenTree.get? [0] = some d ∧
    d.kind = "lexical_declaration" ∧ (∀ u ∈ d.significant, IsBinding u) ∧
    place hiddenSource .parts hiddenTree [0] = some [0] ∧ v ∈ d.significant ∧
    v.field? "value" = none ∧
    (lowerProgram hiddenSource hiddenTree).get? ([0] ++ [0]) = some list ∧
    replacement (lowerProgram hiddenSource hiddenTree) ([0] ++ [0]) list =
      some "const k: keyof T" := by
  obtain ⟨d, v, hd, hone, hkind, hvalue, hbinding⟩ : ∃ d v, hiddenTree.get? [0] = some d ∧
      d.significant = [v] ∧ d.kind = "lexical_declaration" ∧ v.field? "value" = none ∧
        IsBinding v := by
    refine ⟨_, _, rfl, rfl, rfl, rfl, rfl, _, _, _, rfl, rfl, rfl, rfl, by decide, ?_, nofun⟩
    intro a ha
    obtain rfl := Option.some.inj ha
    exact ⟨rfl, _, rfl, by decide, rfl⟩
  refine ⟨d, v, _, hd, hkind, ?_, by decide +kernel, ?_, hvalue, rfl, by decide +kernel⟩
  · rw [hone]
    exact List.forall_mem_singleton.mpr hbinding
  · rw [hone]
    exact List.mem_singleton_self v

theorem replacement_uninitialized_hiddenTree :
    hiddenTree.ErrorFree ∧ ∃ d v, hiddenTree.get? [0] = some d ∧
      (∀ u ∈ d.significant, IsBinding u) ∧ v ∈ d.significant ∧ v.field? "value" = none ∧
        v.HidesType := by
  obtain ⟨d, v, list, hd, hkind, hbindings, hplace, hv, hvalue, hlist, htext⟩ :=
    exists_hiddenBinding
  obtain ⟨list', hlist', -, -, hkept, -⟩ := replacement_uninitialized_iff errorFree_hiddenTree hd
    hkind hbindings hplace hv hvalue
  obtain rfl : list = list' := Option.some.inj (hlist.symm.trans hlist')
  refine ⟨errorFree_hiddenTree, d, v, hd, hbindings, hv, hvalue, ?_⟩
  -- if the type were recognized, the list would keep its text
  by_contra hhides
  rw [hkept hhides] at htext
  cases htext

/-- A list with a binding without a value may be made constant. -/
theorem replacement_hiddenType :
    ¬ ∀ (src : String) (t d v : ParseTree) (p q : Position) (list : Node), t.ErrorFree →
      t.get? p = some d → d.kind = "lexical_declaration" →
        (∀ v ∈ d.significant, IsBinding v) → place src .parts t p = some q →
          v ∈ d.significant → v.field? "value" = none →
            (lowerProgram src t).get? (q ++ [0]) = some list →
              replacement (lowerProgram src t) (q ++ [0]) list = none := by
  intro h
  obtain ⟨d, v, list, hd, hkind, hbindings, hplace, hv, hvalue, hlist, htext⟩ :=
    exists_hiddenBinding
  have hnone := h hiddenSource hiddenTree d v [0] [0] list errorFree_hiddenTree hd hkind hbindings
    hplace hv hvalue hlist
  rw [hnone] at htext
  cases htext

end Reassignment

end TreeMend
