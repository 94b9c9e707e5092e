import TreeMend.ParseTree.Lowering

/-!
# What a parse tree leaves

One equation for each thing that can become of a node of a parse tree, and the lists of nodes that
the parts of a construct leave in terms of the parts.

## Main definitions

* `ParseTree.get?` — the node at the end of a path.
* `ParseTree.subtrees` — all nodes.
* `ParseTree.lowerPart`, `ParseTree.lowerSubstitution` — what a part leaves in a construct, and in
  a template.

## Main results

* `ParseTree.inductionOn` — a property that passes from the parts to the whole holds everywhere.
* `ParseTree.lowerInto_eq`, with `ParseTree.lowerInto_branch` and its companions for each shape —
  what becomes of a node.
* `ParseTree.shapeOf_of_mem`, `ParseTree.shapeOf_branch` — the shapes of the rules in
  `ParseTree.fixedShapes`, and of those that have none of their own.
* `ParseTree.lowerChildren_eq_flatMap`, `ParseTree.lowerSubstitutions_eq_flatMap`,
  `ParseTree.lowerField_eq` — what the parts of a construct leave.
* `ParseTree.exists_mem_listing` — every node of a tree is listed.
-/

namespace TreeMend.ParseTree

/-- A property that passes from the parts of a node to the node holds of every parse tree. -/
@[elab_as_elim]
theorem inductionOn {motive : ParseTree → Prop} (t : ParseTree)
    (step : ∀ t : ParseTree, (∀ c ∈ t.children, motive c) → motive t) : motive t := by
  refine @ParseTree.rec motive (fun ts => ∀ c ∈ ts, motive c) ?_ ?_ ?_ t
  · intro tok ts ih
    exact step ⟨tok, ts⟩ ih
  · intro c hc
    cases hc
  · intro c ts hc hts d hd
    rcases List.mem_cons.mp hd with rfl | hd
    · exact hc
    · exact hts d hd

/-- The node at the end of a path, which is given by child indices as a position is. -/
def get? (t : ParseTree) : Position → Option ParseTree
  | [] => some t
  | i :: p => t.children[i]?.bind fun c => c.get? p

@[simp] theorem get?_nil (t : ParseTree) : t.get? [] = some t := rfl

theorem get?_cons_eq_some {t u : ParseTree} {i : Nat} {p : Position} :
    t.get? (i :: p) = some u ↔ ∃ c, t.children[i]? = some c ∧ c.get? p = some u := by
  rw [get?, Option.bind_eq_some_iff]

/-- Two paths are followed one after the other. -/
theorem get?_append (t : ParseTree) (p q : Position) :
    t.get? (p ++ q) = (t.get? p).bind fun u => u.get? q := by
  induction p generalizing t with
  | nil => rfl
  | cons i p ih =>
    rw [List.cons_append, get?, get?]
    cases t.children[i]? with
    | none => rfl
    | some c => exact ih c

mutual

/-- The nodes of a tree in source order, each with all that is below it. -/
def subtrees : ParseTree → List ParseTree
  | ⟨tok, ts⟩ => ⟨tok, ts⟩ :: subtreesOfList ts

/-- The nodes of a list of trees. -/
def subtreesOfList : List ParseTree → List ParseTree
  | [] => []
  | t :: ts => subtrees t ++ subtreesOfList ts

end

theorem subtrees_eq (t : ParseTree) : t.subtrees = t :: subtreesOfList t.children := by
  cases t; rfl

theorem subtrees_subset {c : ParseTree} {ts : List ParseTree} (h : c ∈ ts) :
    c.subtrees ⊆ subtreesOfList ts := by
  induction ts with
  | nil => cases h
  | cons t ts ih =>
    rw [subtreesOfList]
    rcases List.mem_cons.mp h with rfl | h
    · exact List.subset_append_left _ _
    · exact List.Subset.trans (ih h) (List.subset_append_right _ _)

theorem mem_subtrees {t u : ParseTree} {p : Position} (h : t.get? p = some u) :
    u ∈ t.subtrees := by
  induction p generalizing t with
  | nil =>
    obtain rfl := Option.some.inj h
    rw [subtrees_eq]
    exact List.mem_cons_self
  | cons i p ih =>
    obtain ⟨c, hc, hu⟩ := get?_cons_eq_some.mp h
    rw [subtrees_eq]
    exact List.mem_cons_of_mem _ (subtrees_subset (List.mem_of_getElem? hc) (ih hu))

mutual

theorem map_listing (d : Nat) (t : ParseTree) :
    (t.listing d).map (·.2) = t.subtrees.map (·.token) := by
  obtain ⟨tok, ts⟩ := t
  rw [listing, subtrees, List.map_cons, List.map_cons, map_listingOfList]

theorem map_listingOfList (d : Nat) (ts : List ParseTree) :
    (listingOfList d ts).map (·.2) = (subtreesOfList ts).map (·.token) := by
  cases ts with
  | nil => rfl
  | cons t ts =>
    rw [listingOfList, subtreesOfList, List.map_append, List.map_append, map_listing,
      map_listingOfList]

end

/-- Every node of a tree is listed. -/
theorem exists_mem_listing {t u : ParseTree} {p : Position} (h : t.get? p = some u) (d : Nat) :
    ∃ e, (e, u.token) ∈ t.listing d := by
  have hmem : u.token ∈ (t.listing d).map (·.2) := by
    rw [map_listing]
    exact List.mem_map_of_mem (mem_subtrees h)
  obtain ⟨⟨e, tok⟩, he, rfl⟩ := List.mem_map.mp hmem
  exact ⟨e, he⟩

variable (src : String) {t : ParseTree}

/-! ### One node -/

/-- What becomes of a node, by its fate and its shape. -/
theorem lowerInto_eq (t : ParseTree) :
    lowerInto src t =
      match t.token.fate with
      | .dropped => []
      | .spliced => lowerChildren src t.children
      | .kept =>
        match shapeOf src t with
        | .leaf k => [nodeOf src k t.token []]
        | .branch k => [nodeOf src k t.token (lowerChildren src t.children)]
        | .typeName =>
          [nodeOf src Kind.typeReference t.token [nodeOf src Kind.identifier t.token []]]
        | .variableStatement => [variableStatementNode src t.token (lowerChildren src t.children)]
        | .operands k =>
          [nodeOf src Kind.binaryExpression t.token
            (lowerField src "left" t.children ++
              operatorNode src k t.children :: lowerField src "right" t.children)]
        | .template => [templateNode src t.token (lowerSubstitutions src t.children)]
        | .heritage =>
          [nodeOf src Kind.heritageClause t.token
            ((lowerChildren src t.children).map heritageOperandNode)]
        | .constructorMember =>
          [nodeOf src Kind.constructorMember t.token
            (constructorParts (lowerChildren src t.children))] := by
  obtain ⟨tok, ts⟩ := t
  rfl

theorem lowerInto_dropped (h : t.token.fate = .dropped) : lowerInto src t = [] := by
  rw [lowerInto_eq, h]

theorem lowerInto_spliced (h : t.token.fate = .spliced) :
    lowerInto src t = lowerChildren src t.children := by
  rw [lowerInto_eq, h]

theorem lowerInto_leaf (h : t.token.fate = .kept) {k : Kind} (hs : shapeOf src t = .leaf k) :
    lowerInto src t = [nodeOf src k t.token []] := by
  rw [lowerInto_eq, h, hs]

theorem lowerInto_branch (h : t.token.fate = .kept) {k : Kind} (hs : shapeOf src t = .branch k) :
    lowerInto src t = [nodeOf src k t.token (lowerChildren src t.children)] := by
  rw [lowerInto_eq, h, hs]

theorem lowerInto_variableStatement (h : t.token.fate = .kept)
    (hs : shapeOf src t = .variableStatement) :
    lowerInto src t = [variableStatementNode src t.token (lowerChildren src t.children)] := by
  rw [lowerInto_eq, h, hs]

theorem lowerInto_operands (h : t.token.fate = .kept) {k : Kind}
    (hs : shapeOf src t = .operands k) :
    lowerInto src t = [nodeOf src Kind.binaryExpression t.token
      (lowerField src "left" t.children ++
        operatorNode src k t.children :: lowerField src "right" t.children)] := by
  rw [lowerInto_eq, h, hs]

theorem lowerInto_template (h : t.token.fate = .kept) (hs : shapeOf src t = .template) :
    lowerInto src t = [templateNode src t.token (lowerSubstitutions src t.children)] := by
  rw [lowerInto_eq, h, hs]

theorem lowerInto_heritage (h : t.token.fate = .kept) (hs : shapeOf src t = .heritage) :
    lowerInto src t = [nodeOf src Kind.heritageClause t.token
      ((lowerChildren src t.children).map heritageOperandNode)] := by
  rw [lowerInto_eq, h, hs]

theorem lowerInto_constructorMember (h : t.token.fate = .kept)
    (hs : shapeOf src t = .constructorMember) :
    lowerInto src t = [nodeOf src Kind.constructorMember t.token
      (constructorParts (lowerChildren src t.children))] := by
  rw [lowerInto_eq, h, hs]

/-- A kept node becomes one node. -/
theorem exists_lowerInto_kept (h : t.token.fate = .kept) : ∃ n, lowerInto src t = [n] := by
  rw [lowerInto_eq, h]
  cases shapeOf src t <;> exact ⟨_, rfl⟩

/-! ### Shapes of some rules -/

/-- Rules whose shape depends on nothing else, with their shapes. -/
def fixedShapes : List (String × Shape) :=
  [("identifier", .leaf Kind.identifier), ("property_identifier", .leaf Kind.identifier),
    ("string", .leaf Kind.stringLiteral), ("lexical_declaration", .variableStatement),
    ("variable_declaration", .variableStatement),
    ("variable_declarator", .branch Kind.declaration),
    ("assignment_expression", .operands Kind.equalsToken),
    ("call_expression", .branch Kind.callExpression),
    ("member_expression", .branch Kind.propertyAccess),
    ("expression_statement", .branch Kind.expressionStatement)]

theorem shapeOf_of_mem {s : Shape} (h : (t.kind, s) ∈ fixedShapes) : shapeOf src t = s := by
  simp only [fixedShapes, List.mem_cons, Prod.mk.injEq, List.not_mem_nil, or_false] at h
  rcases h with ⟨hk, rfl⟩ | ⟨hk, rfl⟩ | ⟨hk, rfl⟩ | ⟨hk, rfl⟩ | ⟨hk, rfl⟩ | ⟨hk, rfl⟩ | ⟨hk, rfl⟩ |
    ⟨hk, rfl⟩ | ⟨hk, rfl⟩ | ⟨hk, rfl⟩ <;> (rw [shapeOf, hk]; rfl)

/-- The rules that have a shape of their own. -/
def shapedRules : List String :=
  ["lexical_declaration", "variable_declaration", "predefined_type", "accessibility_modifier",
    "type_identifier", "nested_type_identifier", "template_string", "assignment_expression",
    "augmented_assignment_expression", "binary_expression", "update_expression",
    "unary_expression", "extends_clause", "implements_clause", "extends_type_clause",
    "method_definition", "for_in_statement"]

/-- Any other rule becomes its kind, unless it stands in the table of leaves. -/
theorem shapeOf_branch (h : t.kind ∉ shapedRules) (hleaf : leafKinds.lookup t.kind = none) :
    shapeOf src t = .branch (ruleKind t.kind) := by
  unfold shapeOf
  split
  -- the last case is that of the rules without one
  case h_18 => rw [hleaf]
  all_goals
    next hk => exact absurd (by rw [hk]; decide) h

theorem shapeOf_predefinedType (h : t.kind = "predefined_type") :
    shapeOf src t = .leaf (typeKeywordKind (textOf src t.token)) := by
  rw [shapeOf, h]
  rfl

theorem shapeOf_augmentedAssignment (h : t.kind = "augmented_assignment_expression") :
    shapeOf src t = .operands (operatorKind (operatorOf t)) := by
  rw [shapeOf, h]
  rfl

theorem shapeOf_update (h : t.kind = "update_expression") :
    shapeOf src t = .branch Kind.prefixUnary ∨ shapeOf src t = .branch Kind.postfixUnary := by
  rw [shapeOf, h]
  simp only
  split
  · exact Or.inl rfl
  · exact Or.inr rfl

/-! ### The parts of a construct -/

/-- What a part leaves in the construct around it: the name of a declared type is a plain name. -/
def lowerPart (t : ParseTree) : List Node :=
  if t.token.isDeclaredName then [nodeOf src Kind.identifier t.token []] else lowerInto src t

/-- What a part leaves in a template: substitutions leave their parts, and all else nothing. -/
def lowerSubstitution (t : ParseTree) : List Node :=
  if t.token.named && t.token.kind == "template_substitution" then lowerChildren src t.children
  else []

theorem isDeclaredName_of_ne (h : t.kind ≠ "type_identifier") :
    t.token.isDeclaredName = false := by
  rw [Token.isDeclaredName, Bool.and_eq_false_iff, beq_eq_false_iff_ne, beq_eq_false_iff_ne]
  exact Or.inr h

theorem lowerPart_eq_lowerInto (h : t.kind ≠ "type_identifier") :
    lowerPart src t = lowerInto src t := by
  rw [lowerPart, isDeclaredName_of_ne h]
  rfl

theorem lowerChildren_eq_flatMap (ts : List ParseTree) :
    lowerChildren src ts = ts.flatMap (lowerPart src) := by
  induction ts with
  | nil => rfl
  | cons t ts ih =>
    obtain ⟨tok, us⟩ := t
    rw [List.flatMap_cons, ← ih]
    rfl

theorem lowerSubstitutions_eq_flatMap (ts : List ParseTree) :
    lowerSubstitutions src ts = ts.flatMap (lowerSubstitution src) := by
  induction ts with
  | nil => rfl
  | cons t ts ih =>
    obtain ⟨tok, us⟩ := t
    rw [List.flatMap_cons, ← ih]
    rfl

/-- The first part in a place counts, if there is one. -/
theorem lowerField_eq (name : String) (ts : List ParseTree) :
    lowerField src name ts =
      match ts.find? (·.token.field == some name) with
      | some t => lowerInto src t
      | none => [] := by
  induction ts with
  | nil => rfl
  | cons t ts ih =>
    obtain ⟨tok, us⟩ := t
    change (if tok.field == some name then lowerInto src ⟨tok, us⟩
      else lowerField src name ts) = _
    rw [List.find?_cons]
    cases tok.field == some name with
    | true => rfl
    | false => exact ih

theorem lowerField_of_field? {name : String} {c : ParseTree} (h : t.field? name = some c) :
    lowerField src name t.children = lowerInto src c := by
  rw [lowerField_eq, show t.children.find? (·.token.field == some name) = some c from h]

theorem kind_operatorNode (kind : Kind) (ts : List ParseTree) :
    (operatorNode src kind ts).kind = kind := by
  unfold operatorNode
  split
  · rfl
  · split <;> rfl

end TreeMend.ParseTree
