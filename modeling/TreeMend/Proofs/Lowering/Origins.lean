import TreeMend.Proofs.Lowering.Paths

/-!
# Where the nodes of the generic tree come from

Every node of the generic tree is what some node of the parse tree leaves, at the place of that
node, but for the few kinds of nodes that lowering puts in by itself: the two ends of a file, the
declaration list inside a statement, the wrapper of a heritage operand, names, and operators.  So
what a rule says of a node of another kind is said of a node of the parse tree.

Which rule that node has can be told from the kind, up to rules that are spelled alike.

## Main definitions

* `ParseTree.madeKinds` — the kinds of the nodes that lowering puts in.
* `ParseTree.Shape.kinds` — the kinds of the nodes of a shape.
* `ParseTree.kindTable` — the rules that do not just become the kind that they spell.
* `ParseTree.Token.Spelled` — the kinds that constructs are known by are spelled by few rules.

## Main results

* `ParseTree.exists_place_of_nodeIn` — **every node of another kind has an origin**.
* `ParseTree.exists_origin` — the same for the tree of a file.
* `ParseTree.mem_kindTable_of_mem_kinds` — a kind stands in the table or is spelled by the rule.
-/

namespace TreeMend.ParseTree

variable {src : String} {t : ParseTree} {n : Node}

/-! ### Kinds and rules -/

/-- The kinds that a node of the shape may have. -/
def Shape.kinds : Shape → List Kind
  | .leaf k => [k]
  | .branch k => [k]
  | .typeName => [Kind.typeReference]
  | .variableStatement => [Kind.variableStatement]
  | .operands _ => [Kind.binaryExpression]
  | .template => [Kind.plainTemplate, Kind.templateExpression]
  | .heritage => [Kind.heritageClause]
  | .constructorMember => [Kind.constructorMember]

theorem kind_mem_kinds (hfate : t.token.fate = .kept) (h : lowerInto src t = [n]) :
    n.kind ∈ (shapeOf src t).kinds := by
  rw [lowerInto_eq, hfate] at h
  cases hs : shapeOf src t <;> rw [hs] at h <;> obtain rfl := List.singleton_inj.mp h
  case template =>
    cases lowerSubstitutions src t.children with
    | nil => exact List.mem_cons_self
    | cons m ms => exact List.mem_cons_of_mem _ List.mem_cons_self
  all_goals exact List.mem_cons_self

/-- The rules that do not just become the kind that they spell, with the kinds that they may
become. -/
def kindTable : List (String × Kind) :=
  leafKinds ++ branchKinds ++
    (Kind.typeReference :: typeKeywordKinds.map (·.2)).map (("predefined_type", ·)) ++
    [("lexical_declaration", Kind.variableStatement),
      ("variable_declaration", Kind.variableStatement),
      ("accessibility_modifier", "PrivateKeyword"),
      ("accessibility_modifier", "ProtectedKeyword"),
      ("accessibility_modifier", "PublicKeyword"), ("type_identifier", Kind.typeReference),
      ("nested_type_identifier", Kind.typeReference), ("template_string", Kind.plainTemplate),
      ("template_string", Kind.templateExpression),
      ("assignment_expression", Kind.binaryExpression),
      ("augmented_assignment_expression", Kind.binaryExpression),
      ("binary_expression", Kind.binaryExpression), ("update_expression", Kind.prefixUnary),
      ("update_expression", Kind.postfixUnary), ("unary_expression", "TypeOfExpression"),
      ("unary_expression", "VoidExpression"), ("unary_expression", "DeleteExpression"),
      ("unary_expression", Kind.prefixUnary), ("extends_clause", Kind.heritageClause),
      ("implements_clause", Kind.heritageClause), ("extends_type_clause", Kind.heritageClause),
      ("method_definition", Kind.constructorMember),
      ("method_definition", Kind.methodDeclaration), ("for_in_statement", "ForOfStatement"),
      ("for_in_statement", "ForInStatement")]

/-- The kind of a type keyword is one of the table. -/
theorem typeKeywordKind_mem (text : String) :
    typeKeywordKind text ∈ Kind.typeReference :: typeKeywordKinds.map (·.2) := by
  unfold typeKeywordKind
  cases h : typeKeywordKinds.lookup text with
  | none => exact List.mem_cons_self
  | some k =>
    exact List.mem_cons_of_mem _ (List.mem_map.mpr ⟨(text, k), List.mem_of_lookup h, rfl⟩)

/-- The kinds of a node stand in the table with its rule, or its rule spells them. -/
theorem mem_kindTable_of_mem_kinds {k : Kind} (h : k ∈ (shapeOf src t).kinds) :
    (t.kind, k) ∈ kindTable ∨ k = joinCapitalized t.kind := by
  have hone : ∀ {k' : Kind}, (t.kind, k') ∈ kindTable → k ∈ [k'] →
      (t.kind, k) ∈ kindTable ∨ k = joinCapitalized t.kind := by
    intro k' hmem hk
    rw [List.mem_singleton.mp hk]
    exact Or.inl hmem
  unfold shapeOf at h
  split at h
  · next hrule => exact hone (by rw [hrule]; decide) h
  · next hrule => exact hone (by rw [hrule]; decide) h
  · next hrule =>
    refine hone ?_ h
    rw [hrule]
    refine List.mem_append_left _ (List.mem_append_right _ ?_)
    exact List.mem_map.mpr ⟨_, typeKeywordKind_mem _, rfl⟩
  · next hrule =>
    refine hone ?_ h
    rw [hrule]
    unfold modifierKind
    split <;> decide
  · next hrule => exact hone (by rw [hrule]; decide) h
  · next hrule => exact hone (by rw [hrule]; decide) h
  · next hrule =>
    rcases List.mem_cons.mp h with rfl | h
    · exact Or.inl (by rw [hrule]; decide)
    · exact hone (by rw [hrule]; decide) h
  · next hrule => exact hone (by rw [hrule]; decide) h
  · next hrule => exact hone (by rw [hrule]; decide) h
  · next hrule => exact hone (by rw [hrule]; decide) h
  · next hrule =>
    split at h
    · exact hone (by rw [hrule]; decide) h
    · exact hone (by rw [hrule]; decide) h
  · next hrule =>
    refine hone ?_ h
    rw [hrule]
    unfold unaryKind
    split <;> decide
  · next hrule => exact hone (by rw [hrule]; decide) h
  · next hrule => exact hone (by rw [hrule]; decide) h
  · next hrule => exact hone (by rw [hrule]; decide) h
  · next hrule =>
    split at h
    · exact hone (by rw [hrule]; decide) h
    · exact hone (by rw [hrule]; decide) h
  · next hrule =>
    split at h
    · exact hone (by rw [hrule]; decide) h
    · exact hone (by rw [hrule]; decide) h
  · split at h
    · next k' hlookup =>
      refine hone ?_ h
      exact List.mem_append_left _ (List.mem_append_left _
        (List.mem_append_left _ (List.mem_of_lookup hlookup)))
    · have hk : k = ruleKind t.kind := List.mem_singleton.mp h
      unfold ruleKind at hk
      cases hlookup : branchKinds.lookup t.kind with
      | none => exact Or.inr (by rwa [hlookup] at hk)
      | some k' =>
        rw [hlookup, Option.getD_some] at hk
        refine Or.inl ?_
        rw [hk]
        exact List.mem_append_left _ (List.mem_append_left _
          (List.mem_append_right _ (List.mem_of_lookup hlookup)))

/-! ### Nodes that lowering puts in -/

/-- The kinds of the nodes that lowering puts in, and that no node of the parse tree becomes by
itself. -/
def madeKinds : List Kind :=
  [Kind.sourceFile, Kind.endOfFile, Kind.declarationList, Kind.heritageOperand, Kind.identifier,
    Kind.unknown] ++ operatorKinds.map (·.2)

theorem operatorKind_mem_madeKinds (operator : String) : operatorKind operator ∈ madeKinds := by
  unfold operatorKind
  cases h : operatorKinds.lookup operator with
  | none => exact List.mem_append_left _ (by decide)
  | some k =>
    exact List.mem_append_right _ (List.mem_map.mpr ⟨(operator, k), List.mem_of_lookup h, rfl⟩)

/-- The operator of an operation is put in. -/
theorem mem_madeKinds_of_operands {k : Kind} (h : shapeOf src t = .operands k) :
    k ∈ madeKinds := by
  have hrule := kind_of_shapeOf_operands h
  simp only [operandRules, List.mem_cons, List.not_mem_nil, or_false] at hrule
  rcases hrule with hrule | hrule | hrule <;> rw [shapeOf, hrule] at h <;>
    obtain rfl := Shape.operands.inj h
  · decide
  · exact operatorKind_mem_madeKinds _
  · exact operatorKind_mem_madeKinds _

theorem children_operatorNode (kind : Kind) (ts : List ParseTree) :
    (operatorNode src kind ts).children = [] := by
  unfold operatorNode
  split
  · rfl
  · split <;> rfl

/-- A node without children stands only at itself. -/
theorem eq_of_get?_of_children {y : Node} (h : y.children = []) {r : Position}
    (hn : y.get? r = some n) : n = y := by
  cases r with
  | nil => exact (Option.some.inj hn).symm
  | cons i r =>
    rw [Node.get?_cons, h] at hn
    cases hn

/-! ### From a node to the parts -/

namespace Layout

variable {l : Layout} {ts : List ParseTree} {m : Nat} {y : Node}

/-- An element of what the parts of a construct leave stands in the stretch of a part, or it is a
name or an operator that was put in. -/
theorem exists_part (h : (l.inner src ts)[m]? = some y) :
    (∃ i c o portion k, ts[i]? = some c ∧ l.offset src ts i c = some (o, portion) ∧ o + k = m ∧
        (leaves src portion c)[k]? = some y) ∨
      (y.kind = Kind.identifier ∧ y.children = []) ∨
      ∃ k, l = .operands k ∧ y.kind = k ∧ y.children = [] := by
  have hchildren : (lowerChildren src ts)[m]? = some y →
      (∃ i c o portion k, ts[i]? = some c ∧
        (if c.token.isDeclaredName then none
          else some ((lowerChildren src (ts.take i)).length, Portion.whole)) = some (o, portion) ∧
        o + k = m ∧ (leaves src portion c)[k]? = some y) ∨
      (y.kind = Kind.identifier ∧ y.children = []) := by
    intro h
    rw [lowerChildren_eq_flatMap] at h
    obtain ⟨i, c, k, hc, hk, hindex⟩ := exists_stretch h
    cases hname : c.token.isDeclaredName with
    | true =>
      rw [lowerPart, if_pos hname] at hk
      obtain rfl := List.mem_singleton.mp (List.mem_of_getElem? hk)
      exact Or.inr ⟨rfl, rfl⟩
    | false =>
      rw [lowerPart_of_not_isDeclaredName hname] at hk
      refine Or.inl ⟨i, c, _, .whole, k, hc, by rw [hname]; rfl, ?_, hk⟩
      rw [lowerChildren_eq_flatMap]
      exact hindex
  have hfield : ∀ {name : String} {k : Nat}, (lowerField src name ts)[k]? = some y →
      ∃ i c, ts[i]? = some c ∧ ts.findIdx? (·.token.field == some name) = some i ∧
        (lowerInto src c)[k]? = some y := by
    intro name k h
    rw [lowerField_eq] at h
    split at h
    · next c hc =>
      obtain ⟨hplace, i, hi, rfl, hbefore⟩ := List.find?_eq_some_iff_getElem.mp hc
      refine ⟨i, ts[i], List.getElem?_eq_getElem hi, ?_, h⟩
      exact List.findIdx?_eq_some_iff_getElem.mpr
        ⟨hi, hplace, fun j hj => by simpa using hbefore j hj⟩
    · cases h
  cases l with
  | operands operator =>
    rw [inner] at h
    -- the left operand, the operator, and the right operand
    rcases Nat.lt_trichotomy m (lowerField src "left" ts).length with hm | rfl | hm
    · rw [List.getElem?_append_left hm] at h
      obtain ⟨i, c, hc, hindex, hk⟩ := hfield h
      exact Or.inl ⟨i, c, 0, .whole, m, hc, offset_operands_iff.mpr ⟨rfl, Or.inl ⟨hindex, rfl⟩⟩,
        Nat.zero_add m, hk⟩
    · rw [List.getElem?_append_right (Nat.le_refl _), Nat.sub_self, List.getElem?_cons_zero,
        Option.some.injEq] at h
      subst h
      exact Or.inr (Or.inr ⟨operator, rfl, kind_operatorNode src operator ts,
        children_operatorNode operator ts⟩)
    · obtain ⟨k, rfl⟩ := Nat.exists_eq_add_of_lt hm
      have hshift : (lowerField src "left" ts).length + k + 1 -
          (lowerField src "left" ts).length = k + 1 := by omega
      rw [List.getElem?_append_right (by omega), hshift, List.getElem?_cons_succ] at h
      obtain ⟨i, c, hc, hindex, hk⟩ := hfield h
      exact Or.inl ⟨i, c, _, .whole, k, hc, offset_operands_iff.mpr ⟨rfl, Or.inr ⟨hindex, rfl⟩⟩,
        by omega, hk⟩
  | substitutions =>
    rw [inner, lowerSubstitutions_eq_flatMap] at h
    obtain ⟨i, c, k, hc, hk, hindex⟩ := exists_stretch h
    cases hnamed : c.token.named && c.token.kind == "template_substitution" with
    | false =>
      rw [lowerSubstitution, hnamed] at hk
      cases hk
    | true =>
      rw [lowerSubstitution_of_named hnamed] at hk
      refine Or.inl ⟨i, c, _, .parts, k, hc, by rw [offset, hnamed]; rfl, ?_, hk⟩
      rw [lowerSubstitutions_eq_flatMap]
      exact hindex
  | spread => exact (hchildren h).imp_right Or.inl
  | children => exact (hchildren h).imp_right Or.inl
  | declarations => exact (hchildren h).imp_right Or.inl
  | heritage => exact (hchildren h).imp_right Or.inl
  | members => exact (hchildren h).imp_right Or.inl

end Layout

/-- What stands below a kept node stands below an element of what its parts leave, unless it was
put in. -/
theorem exists_inner_of_child (hfate : t.token.fate = .kept) {y c : Node}
    (hlower : lowerInto src t = [y]) {i : Nat} (hc : y.children[i]? = some c) {q : Position}
    (hn : c.get? q = some n) (hkind : n.kind ∉ madeKinds) :
    ∃ l m w r z, (shapeOf src t).layout = some l ∧ l.wrap src t.children m = some w ∧
      0 :: i :: q = w ++ r ∧ (l.inner src t.children)[m]? = some z ∧ z.get? r = some n := by
  cases hs : shapeOf src t with
  | leaf k =>
    rw [lowerInto_leaf src hfate hs] at hlower
    obtain rfl := List.singleton_inj.mp hlower
    cases hc
  | typeName =>
    rw [lowerInto_eq, hfate, hs] at hlower
    obtain rfl := List.singleton_inj.mp hlower
    obtain rfl := List.mem_singleton.mp (List.mem_of_getElem? hc)
    have hname : n.kind = Kind.identifier := by rw [eq_of_get?_of_children rfl hn]; rfl
    rw [hname] at hkind
    exact absurd (by decide) hkind
  | branch k =>
    rw [lowerInto_branch src hfate hs] at hlower
    obtain rfl := List.singleton_inj.mp hlower
    exact ⟨.children, i, [0, i], q, c, rfl, rfl, rfl, hc, hn⟩
  | operands k =>
    rw [lowerInto_operands src hfate hs] at hlower
    obtain rfl := List.singleton_inj.mp hlower
    exact ⟨.operands k, i, [0, i], q, c, rfl, rfl, rfl, hc, hn⟩
  | template =>
    rw [lowerInto_template src hfate hs] at hlower
    obtain rfl := List.singleton_inj.mp hlower
    rw [children_templateNode] at hc
    exact ⟨.substitutions, i, [0, i], q, c, rfl, rfl, rfl, hc, hn⟩
  | variableStatement =>
    rw [lowerInto_variableStatement src hfate hs] at hlower
    obtain rfl := List.singleton_inj.mp hlower
    -- the list stands between the statement and the declarations
    have hlist := List.getElem?_eq_some_iff.mp hc
    obtain rfl : i = 0 := Nat.lt_one_iff.mp hlist.1
    obtain rfl := Option.some.inj hc
    cases q with
    | nil =>
      have hmade : n.kind = Kind.declarationList := by rw [← Option.some.inj hn]
      rw [hmade] at hkind
      exact absurd (by decide) hkind
    | cons k q =>
      obtain ⟨d, hd, hn⟩ := Node.get?_cons_eq_some.mp hn
      exact ⟨.declarations, k, [0, 0, k], q, d, rfl, rfl, rfl, hd, hn⟩
  | heritage =>
    rw [lowerInto_heritage src hfate hs] at hlower
    obtain rfl := List.singleton_inj.mp hlower
    -- so does the wrapper of an operand
    have hoperand : ((lowerChildren src t.children).map heritageOperandNode)[i]? = some c := hc
    rw [List.getElem?_map, Option.map_eq_some_iff] at hoperand
    obtain ⟨d, hd, rfl⟩ := hoperand
    cases q with
    | nil =>
      have hmade : n.kind = Kind.heritageOperand := by rw [← Option.some.inj hn]; rfl
      rw [hmade] at hkind
      exact absurd (by decide) hkind
    | cons k q =>
      obtain ⟨e, he, hn⟩ := Node.get?_cons_eq_some.mp hn
      have honly := List.getElem?_eq_some_iff.mp he
      obtain rfl : k = 0 := Nat.lt_one_iff.mp honly.1
      obtain rfl := Option.some.inj he
      exact ⟨.heritage, i, [0, i, 0], q, d, rfl, rfl, rfl, hd, hn⟩
  | constructorMember =>
    rw [lowerInto_constructorMember src hfate hs, constructorParts_eq] at hlower
    obtain rfl := List.singleton_inj.mp hlower
    cases hname : namesConstructor (lowerChildren src t.children) with
    | true =>
      have htail : (lowerChildren src t.children).tail[i]? = some c := by
        rwa [hname, if_pos rfl] at hc
      rw [List.getElem?_tail] at htail
      exact ⟨.members, i + 1, [0, i], q, c, rfl, by simp [Layout.wrap, hname], rfl, htail, hn⟩
    | false =>
      have hall : (lowerChildren src t.children)[i]? = some c := by
        rwa [hname, if_neg Bool.false_ne_true] at hc
      exact ⟨.members, i, [0, i], q, c, rfl, by simp [Layout.wrap, hname], rfl, hall, hn⟩

/-- A node below what a construct leaves is the construct's own, or it stands below an element of
what the parts leave. -/
theorem exists_inner_of_nodeIn {portion : Portion} {q : Position}
    (h : nodeIn (leaves src portion t) q = some n) (hkind : n.kind ∉ madeKinds) :
    (portion = .whole ∧ t.token.fate = .kept ∧ q = [0]) ∨
      ∃ l m w r y, layout src portion t = some l ∧ l.wrap src t.children m = some w ∧
        q = w ++ r ∧ (l.inner src t.children)[m]? = some y ∧ y.get? r = some n := by
  cases q with
  | nil => cases h
  | cons j q =>
    obtain ⟨y, hy, hn⟩ := nodeIn_cons_eq_some.mp h
    cases portion with
    | parts => exact Or.inr ⟨.spread, j, [j], q, y, rfl, rfl, rfl, hy, hn⟩
    | whole =>
      rw [leaves] at hy
      by_cases hdropped : t.token.fate = .dropped
      · rw [lowerInto_dropped src hdropped] at hy
        cases hy
      by_cases hspliced : t.token.fate = .spliced
      · rw [lowerInto_spliced src hspliced] at hy
        exact Or.inr ⟨.spread, j, [j], q, y, by rw [layout, hspliced], rfl, rfl, hy, hn⟩
      have hfate : t.token.fate = .kept := by
        cases hfate : t.token.fate <;> simp_all
      obtain ⟨only, honly⟩ := exists_lowerInto_kept src hfate
      rw [honly] at hy
      have hfirst := List.getElem?_eq_some_iff.mp hy
      obtain rfl : j = 0 := Nat.lt_one_iff.mp hfirst.1
      obtain rfl := Option.some.inj hy
      cases q with
      | nil => exact Or.inl ⟨rfl, hfate, rfl⟩
      | cons i q =>
        obtain ⟨c, hc, hn⟩ := Node.get?_cons_eq_some.mp hn
        obtain ⟨l, m, w, r, z, hl, hw, hq, hz, hr⟩ :=
          exists_inner_of_child hfate honly hc hn hkind
        exact Or.inr ⟨l, m, w, r, z, by rw [layout, hfate]; exact hl, hw, hq, hz, hr⟩

/-- **Every node that lowering does not put in has an origin**: it stands at the place of some path
in the parse tree. -/
theorem exists_place_of_nodeIn {portion : Portion} {q : Position}
    (h : nodeIn (leaves src portion t) q = some n) (hkind : n.kind ∉ madeKinds) :
    ∃ p u, t.get? p = some u ∧ place src portion t p = some q := by
  induction t using ParseTree.inductionOn generalizing portion q with
  | step t ih =>
    rcases exists_inner_of_nodeIn h hkind with ⟨rfl, hfate, rfl⟩ |
      ⟨l, m, w, r, y, hl, hw, rfl, hy, hn⟩
    · exact ⟨[], t, rfl, place_nil_eq_some.mpr ⟨rfl, hfate, rfl⟩⟩
    · rcases Layout.exists_part hy with ⟨i, c, o, portion', k, hc, ho, rfl, hk⟩ |
        ⟨hmade, hleaf⟩ | ⟨operator, rfl, hmade, hleaf⟩
      · obtain ⟨p, u, hu, hplace⟩ := ih c (List.mem_of_getElem? hc)
          (nodeIn_cons_eq_some.mpr ⟨y, hk, hn⟩)
        exact ⟨i :: p, u, get?_cons_eq_some.mpr ⟨c, hc, hu⟩,
          place_cons_eq_some.mpr ⟨l, c, o, portion', k, r, w, hl, hc, ho, hplace, hw, rfl⟩⟩
      · rw [eq_of_get?_of_children hleaf hn, hmade] at hkind
        exact absurd (List.mem_append_left _ (by decide)) hkind
      · -- the operator of an operation
        rw [eq_of_get?_of_children hleaf hn, hmade] at hkind
        cases portion with
        | parts => cases hl
        | whole =>
          rcases layout_whole_eq_some hl with ⟨-, hspread⟩ | ⟨-, hshape⟩
          · cases hspread
          · cases hs : shapeOf src t <;> rw [hs] at hshape <;> cases hshape
            exact absurd (mem_madeKinds_of_operands hs) hkind

/-- The range of what a kept node becomes is its own. -/
theorem span_of_lowerInto (hfate : t.token.fate = .kept) (h : lowerInto src t = [n]) :
    n.span = t.token.span := by
  rw [lowerInto_eq, hfate] at h
  cases hs : shapeOf src t <;> rw [hs] at h <;> obtain rfl := List.singleton_inj.mp h
  case template => cases lowerSubstitutions src t.children <;> rfl
  all_goals rfl

/-- A node of the tree of a file is what the node of the parse tree leaves that it stands at the
place of, unless it was put in. -/
theorem exists_origin {q : Position} (h : (lowerProgram src t).get? q = some n)
    (hkind : n.kind ∉ madeKinds) :
    ∃ p u, t.get? p = some u ∧ place src .parts t p = some q ∧ u.token.fate = .kept ∧
      lowerInto src u = [n] := by
  have hn : nodeIn (leaves src .parts t) q = some n := by
    cases q with
    | nil =>
      obtain rfl := Option.some.inj h
      exact absurd (show Kind.sourceFile ∈ madeKinds by decide) hkind
    | cons k r =>
      obtain ⟨c, hc, hr⟩ := Node.get?_cons_eq_some.mp h
      change (lowerChildren src t.children ++ _)[k]? = some c at hc
      rw [List.getElem?_append] at hc
      split at hc
      · exact nodeIn_cons_eq_some.mpr ⟨c, hc, hr⟩
      · -- the end marker
        obtain rfl := List.mem_singleton.mp (List.mem_of_getElem? hc)
        obtain rfl := eq_of_get?_of_children rfl hr
        exact absurd (show Kind.endOfFile ∈ madeKinds by decide) hkind
  obtain ⟨p, u, hu, hplace⟩ := exists_place_of_nodeIn hn hkind
  obtain ⟨n', hn', hfate, hlower⟩ := nodeIn_place hu hplace
  obtain rfl : n' = n := Option.some.inj (hn'.symm.trans hn)
  exact ⟨p, u, hu, hplace, hfate, hlower⟩

/-! ### Kinds that tell the rule -/

/-- The kinds that rules and checks know a construct by. -/
def tellingKinds : List Kind :=
  [Kind.classDeclaration, Kind.heritageClause, Kind.callExpression, Kind.superKeyword] ++ Kind.types

/-- The rules that spell one of these kinds. -/
def spellingRules : List String :=
  ["class_declaration", "call_expression", "array_type", "union_type", "intersection_type",
    "function_type", "literal_type", "tuple_type"]

/-- No other rule of the grammar spells one of these kinds. -/
def Token.Spelled (tok : Token) : Prop :=
  joinCapitalized tok.kind ∈ tellingKinds → tok.kind ∈ spellingRules

instance (tok : Token) : Decidable tok.Spelled :=
  inferInstanceAs (Decidable (joinCapitalized tok.kind ∈ tellingKinds → tok.kind ∈ spellingRules))

/-- The rules that may become such a kind, with the kind. -/
def tellingRules : List (String × Kind) :=
  kindTable ++ spellingRules.map fun rule => (rule, joinCapitalized rule)

theorem mem_tellingRules (hspelled : t.token.Spelled) {k : Kind} (hk : k ∈ tellingKinds)
    (h : k ∈ (shapeOf src t).kinds) : (t.kind, k) ∈ tellingRules := by
  rcases mem_kindTable_of_mem_kinds h with htable | rfl
  · exact List.mem_append_left _ htable
  · exact List.mem_append_right _ (List.mem_map.mpr ⟨t.kind, hspelled hk, rfl⟩)

end TreeMend.ParseTree
