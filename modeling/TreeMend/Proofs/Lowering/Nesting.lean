import TreeMend.Proofs.Lowering.Paths
import TreeMend.Proofs.Lowering.Slices
import TreeMend.Proofs.Tree.Nesting

/-!
# Lowering keeps order and nesting

The parts of a parse tree stand inside their constructs, one after another.  Lowering drops some of
them, spreads others into the construct around them and wraps others again, and still what is left
stands in the source order: every part leaves nodes inside its own range, so whatever takes its
place among its neighbours does not disturb them.

An operation is put together from parts that are looked up by their places; that these stand in
the order in which they are put together is all that is assumed beside the nesting.

## Main definitions

* `ParseTree.WellNested` — a parse tree whose ranges nest.
* `ParseTree.OperandsInOrder` — the parts of an operation stand in order.

## Main results

* `ParseTree.OperandsInOrder.exists_sublist` — the parts that an operation is put together from.
* `ParseTree.arranged_leaves` — a parse node leaves well nested nodes inside its range.
* `ParseTree.wellNested_lowerProgram` — **lowering keeps source order and nesting**.
-/

namespace TreeMend.ParseTree

/-- The parts of every node stand inside its range, one after another. -/
def WellNested (t : ParseTree) : Prop :=
  ∀ u ∈ t.subtrees, u.token.span.Holds (u.children.map (·.token.span))

/-- Something stands between the left operand and the right one, or between the left operand and
the end if there is no right one; and so does the operator, if it has a place of its own. -/
def OperandsInOrder (ts : List ParseTree) : Prop :=
  ts.findIdx (·.token.field == some "left") + 1 < ts.findIdx (·.token.field == some "right") ∧
    (ts.findIdx (·.token.field == some "operator") < ts.length →
      ts.findIdx (·.token.field == some "left") <
          ts.findIdx (·.token.field == some "operator") ∧
        ts.findIdx (·.token.field == some "operator") <
          ts.findIdx (·.token.field == some "right"))

instance (ts : List ParseTree) : Decidable (OperandsInOrder ts) :=
  inferInstanceAs (Decidable (_ ∧ _))

/-- In every operation of the tree the parts stand in order. -/
def OperationsInOrder (t : ParseTree) : Prop :=
  ∀ u ∈ t.subtrees, u.kind ∈ operandRules → OperandsInOrder u.children

theorem mem_subtrees_self (t : ParseTree) : t ∈ t.subtrees := by
  rw [subtrees_eq]
  exact List.mem_cons_self

theorem subtrees_subset_of_mem {t c : ParseTree} (hc : c ∈ t.children) :
    c.subtrees ⊆ t.subtrees := by
  rw [t.subtrees_eq]
  exact List.Subset.trans (subtrees_subset hc) (List.subset_cons_self _ _)

section Parts

variable {t c : ParseTree}

theorem WellNested.child (h : t.WellNested) (hc : c ∈ t.children) : c.WellNested :=
  fun u hu => h u (subtrees_subset_of_mem hc hu)

theorem WellNested.holds (h : t.WellNested) :
    t.token.span.Holds (t.children.map (·.token.span)) :=
  h t t.mem_subtrees_self

theorem OperationsInOrder.child (h : t.OperationsInOrder) (hc : c ∈ t.children) :
    c.OperationsInOrder :=
  fun u hu => h u (subtrees_subset_of_mem hc hu)

end Parts

/-! ### The parts of an operation -/

/-- An element and some that come after it. -/
theorem cons_sublist_drop {α : Type} {xs ys : List α} {x : α} {i m : Nat} (hx : xs[i]? = some x)
    (hm : m ≤ i) (hys : ys.Sublist (xs.drop (i + 1))) : (x :: ys).Sublist (xs.drop m) := by
  obtain ⟨hi, rfl⟩ := List.getElem?_eq_some_iff.mp hx
  have hdrop : (xs.drop i).Sublist (xs.drop m) := List.drop_sublist_drop_left xs hm
  rw [List.drop_eq_getElem_cons hi] at hdrop
  exact (hys.cons_cons _).trans hdrop

/-- The operator is the part in the place `operator` or, without one, the part after the left
operand; either way it stands between the operands. -/
theorem OperandsInOrder.exists_sublist {ts : List ParseTree} (h : OperandsInOrder ts)
    (src : String) :
    ∃ left operator, ts.find? (·.token.field == some "left") = some left ∧
      (∀ kind, operatorNode src kind ts = nodeOf src kind operator.token []) ∧
      (left :: operator :: (ts.find? (·.token.field == some "right")).toList).Sublist ts := by
  obtain ⟨hnext, hoperator⟩ := h
  set i := ts.findIdx (·.token.field == some "left") with hi
  set j := ts.findIdx (·.token.field == some "right") with hj
  have hjlength : j ≤ ts.length := List.findIdx_le_length
  -- whatever stands between the operands can be the operator
  have key : ∀ k, i < k → k < j → ∃ left operator,
      ts.find? (·.token.field == some "left") = some left ∧ ts[k]? = some operator ∧
      (left :: operator :: (ts.find? (·.token.field == some "right")).toList).Sublist ts := by
    intro k hik hkj
    obtain ⟨left, hleft⟩ : ∃ left, ts[i]? = some left :=
      ⟨_, List.getElem?_eq_getElem (by omega)⟩
    obtain ⟨operator, hk⟩ : ∃ operator, ts[k]? = some operator :=
      ⟨_, List.getElem?_eq_getElem (by omega)⟩
    refine ⟨left, operator, by rw [List.find?_eq_getElem?_findIdx]; exact hleft, hk, ?_⟩
    have hright : (ts.find? (·.token.field == some "right")).toList.Sublist
        (ts.drop (k + 1)) := by
      rw [List.find?_eq_getElem?_findIdx, ← hj]
      cases hr : ts[j]? with
      | none => exact List.nil_sublist _
      | some right => exact cons_sublist_drop hr hkj (List.nil_sublist _)
    exact cons_sublist_drop hleft (Nat.zero_le i) (cons_sublist_drop hk hik hright)
  cases hfind : ts.find? (·.token.field == some "operator") with
  | some operator =>
    have hlt : ts.findIdx (·.token.field == some "operator") < ts.length :=
      List.findIdx_lt_length.mpr ⟨operator, List.mem_of_find?_eq_some hfind,
        (List.find?_some hfind :)⟩
    obtain ⟨hafter, hbefore⟩ := hoperator hlt
    obtain ⟨left, operator', hleft, hk, hsub⟩ := key _ hafter hbefore
    rw [← List.find?_eq_getElem?_findIdx, hfind, Option.some.injEq] at hk
    subst hk
    exact ⟨left, operator, hleft, fun kind => by rw [operatorNode, hfind], hsub⟩
  | none =>
    obtain ⟨left, operator, hleft, hk, hsub⟩ := key (i + 1) (Nat.lt_succ_self i) hnext
    have htail : (fromField "left" ts).tail = ts.drop (i + 1) := by
      rw [fromField, List.dropWhile_eq_drop_findIdx_not, List.tail_drop]
      simp only [bne, Bool.not_not, ← hi]
    obtain ⟨hlt, hget⟩ := List.getElem?_eq_some_iff.mp hk
    refine ⟨left, operator, hleft, fun kind => ?_, hsub⟩
    rw [operatorNode, hfind, htail, List.drop_eq_getElem_cons hlt, hget]

/-! ### One node -/

variable {src : String}

open Node (Arranged)

theorem wellNested_nodeOf {kind : Kind} {tok : Token} {ns : List Node}
    (h : Arranged tok.span ns) : (nodeOf src kind tok ns).WellNested :=
  Node.wellNested_iff.mpr h

theorem arranged_nodeOf {kind : Kind} {tok : Token} {ns : List Node}
    (h : Arranged tok.span ns) : Arranged tok.span [nodeOf src kind tok ns] :=
  .singleton (wellNested_nodeOf h)

/-- A declaration list starts with its statement and ends with its last declaration. -/
theorem wellNested_variableStatementNode {tok : Token} {declarations : List Node}
    (h : Arranged tok.span declarations) :
    (variableStatementNode src tok declarations).WellNested := by
  obtain ⟨hlist, hstop⟩ := h.cut
  refine wellNested_nodeOf ?_
  exact (Arranged.singleton (Node.wellNested_iff.mpr hlist)).widen (Nat.le_refl _) hstop

theorem wellNested_heritageOperandNode {n : Node} (h : n.WellNested) :
    (heritageOperandNode n).WellNested :=
  Node.wellNested_iff.mpr (Arranged.singleton h)

/-- Wrapping operands one by one leaves them where they are. -/
theorem arranged_map_heritageOperandNode {outer : Span} {ns : List Node} (h : Arranged outer ns) :
    Arranged outer (ns.map heritageOperandNode) where
  holds := by
    rw [List.map_map]
    exact h.holds
  nested := by
    intro m hm
    obtain ⟨n, hn, rfl⟩ := List.mem_map.mp hm
    exact wellNested_heritageOperandNode (h.nested n hn)

theorem arranged_templateNode {tok : Token} {ns : List Node} (h : Arranged tok.span ns) :
    Arranged tok.span [templateNode src tok ns] := by
  cases ns with
  | nil => exact arranged_nodeOf h
  | cons n ns => exact arranged_nodeOf h

theorem constructorParts_sublist (ns : List Node) : (constructorParts ns).Sublist ns := by
  rw [constructorParts_eq]
  split
  · exact List.tail_sublist ns
  · exact List.Sublist.refl ns

/-! ### Whole trees -/

section Whole

variable {t : ParseTree}

/-- What the parts of a construct leave is arranged in its range if each part leaves what is
arranged in its own. -/
theorem arranged_lowerChildren (h : t.WellNested)
    (ih : ∀ c ∈ t.children, Arranged c.token.span (lowerInto src c)) :
    Arranged t.token.span (lowerChildren src t.children) := by
  rw [lowerChildren_eq_flatMap]
  refine Arranged.flatMap (·.token.span) h.holds fun c hc => ?_
  rw [lowerPart]
  split
  · exact arranged_nodeOf (.nil (h.child hc).holds.forward)
  · exact ih c hc

theorem arranged_lowerSubstitutions (h : t.WellNested)
    (ih : ∀ c ∈ t.children, Arranged c.token.span (lowerChildren src c.children)) :
    Arranged t.token.span (lowerSubstitutions src t.children) := by
  rw [lowerSubstitutions_eq_flatMap]
  refine Arranged.flatMap (·.token.span) h.holds fun c hc => ?_
  rw [lowerSubstitution]
  split
  · exact ih c hc
  · exact .nil (h.child hc).holds.forward

/-- An operation is put together from parts that stand in this order. -/
theorem arranged_operands (h : t.WellNested) (horder : OperandsInOrder t.children)
    (ih : ∀ c ∈ t.children, Arranged c.token.span (lowerInto src c)) (operator : Kind) :
    Arranged t.token.span (lowerField src "left" t.children ++
      operatorNode src operator t.children :: lowerField src "right" t.children) := by
  obtain ⟨left, op, hleft, hop, hsub⟩ := horder.exists_sublist src
  set right? := t.children.find? (·.token.field == some "right") with hright
  -- the parts, each with what is put in its place
  set pieces : List (ParseTree × List Node) :=
    (left, lowerInto src left) :: (op, [nodeOf src operator op.token []]) ::
      right?.toList.map fun r => (r, lowerInto src r) with hpieces
  have hflat : lowerField src "left" t.children ++
      operatorNode src operator t.children :: lowerField src "right" t.children =
      pieces.flatMap (·.2) := by
    rw [lowerField_eq, hleft, hop, lowerField_eq, ← hright, hpieces]
    cases right? <;> simp
  have hparts : pieces.map (·.1) = left :: op :: right?.toList := by
    rw [hpieces]
    cases right? <;> rfl
  have hheld : t.token.span.Holds (pieces.map fun x => x.1.token.span) := by
    have := h.holds.sublist (hsub.map _)
    rwa [← hparts, List.map_map] at this
  rw [hflat]
  refine Arranged.flatMap (·.1.token.span) hheld fun x hx => ?_
  have hmem : x.1 ∈ t.children := by
    refine hsub.subset ?_
    rw [← hparts]
    exact List.mem_map_of_mem hx
  rw [hpieces, List.mem_cons, List.mem_cons, List.mem_map] at hx
  rcases hx with rfl | rfl | ⟨right, -, rfl⟩
  · exact ih left hmem
  · exact arranged_nodeOf (.nil (h.child hmem).holds.forward)
  · exact ih right hmem

/-- A parse node leaves nodes arranged in its range if its parts do. -/
theorem arranged_of_parts (h : t.WellNested) (horder : t.OperationsInOrder)
    (ih : ∀ c ∈ t.children, ∀ portion, Arranged c.token.span (leaves src portion c))
    (portion : Portion) : Arranged t.token.span (leaves src portion t) := by
  have hchildren := arranged_lowerChildren h fun c hc => ih c hc .whole
  have hforward : t.token.span.start ≤ t.token.span.stop := h.holds.forward
  cases portion with
  | parts => exact hchildren
  | whole =>
    rw [leaves, lowerInto_eq]
    cases t.token.fate with
    | dropped => exact .nil hforward
    | spliced => exact hchildren
    | kept =>
      cases hs : shapeOf src t with
      | leaf kind => exact arranged_nodeOf (.nil hforward)
      | branch kind => exact arranged_nodeOf hchildren
      | typeName => exact arranged_nodeOf (arranged_nodeOf (.nil hforward))
      | variableStatement => exact .singleton (wellNested_variableStatementNode hchildren)
      | operands operator =>
        have hoperands := horder t t.mem_subtrees_self (kind_of_shapeOf_operands hs)
        exact arranged_nodeOf
          (arranged_operands h hoperands (fun c hc => ih c hc .whole) operator)
      | template =>
        exact arranged_templateNode (arranged_lowerSubstitutions h fun c hc => ih c hc .parts)
      | heritage => exact arranged_nodeOf (arranged_map_heritageOperandNode hchildren)
      | constructorMember =>
        exact arranged_nodeOf (hchildren.sublist (constructorParts_sublist _))

/-- A parse node leaves well nested nodes inside its range, one after another. -/
theorem arranged_leaves (h : t.WellNested) (horder : t.OperationsInOrder) (portion : Portion) :
    Arranged t.token.span (leaves src portion t) := by
  induction t using ParseTree.inductionOn generalizing portion with
  | step t ih =>
    exact arranged_of_parts h horder
      (fun c hc portion => ih c hc (h.child hc) (horder.child hc) portion) portion

/-- **Lowering keeps source order and nesting.**  If the ranges of a parse tree nest and lie inside
the source, and the parts of its operations stand in order, then the ranges of the lowered tree
nest: the children of every node stand inside its range, one after another.  So the nodes of a walk
start in order; and the last child of the root is the end marker, which stands where the source
ends. -/
theorem wellNested_lowerProgram (src : String) (h : t.WellNested)
    (hsource : t.token.stop ≤ src.utf8ByteSize) (horder : t.OperationsInOrder) :
    let tree := lowerProgram src t
    tree.WellNested ∧ (tree.walk.Pairwise fun a b => a.span.start ≤ b.span.start) ∧
      tree.children.getLast? =
        some ⟨Kind.endOfFile, "", ⟨src.utf8ByteSize, src.utf8ByteSize⟩, []⟩ := by
  intro tree
  have hlength : Text.byteLength src.toList = src.utf8ByteSize := Text.byteLength_toList src
  set marker : Node := ⟨Kind.endOfFile, "", ⟨src.utf8ByteSize, src.utf8ByteSize⟩, []⟩ with hmarker
  have htree : tree = ⟨Kind.sourceFile, src, ⟨0, src.utf8ByteSize⟩,
      lowerChildren src t.children ++ [marker]⟩ := by
    change lowerProgram src t = _
    rw [lowerProgram, hlength]
  have hparts : Arranged t.token.span (lowerChildren src t.children) :=
    arranged_leaves h horder .parts
  have hend : marker.WellNested := Node.wellNested_iff.mpr (.nil (Nat.le_refl _))
  have hwide : Arranged ⟨0, src.utf8ByteSize⟩ (lowerChildren src t.children) :=
    hparts.widen (Nat.zero_le _) hsource
  have hchildren : Arranged ⟨0, src.utf8ByteSize⟩ (lowerChildren src t.children ++ [marker]) := by
    refine hwide.concat hend ?_ (Nat.zero_le _) (Nat.le_refl _)
    -- the parts end inside the source
    intro m hm
    exact Nat.le_trans (hparts.holds.inside m.span (List.mem_map_of_mem hm)).2 hsource
  have hnested : tree.WellNested := by
    rw [htree]
    exact Node.wellNested_iff.mpr hchildren
  refine ⟨hnested, hnested.pairwise_start, ?_⟩
  rw [htree]
  exact List.getLast?_concat

end Whole

/-- The parse tree of `let a: T = b += 1;`. -/
def typedSum : ParseTree :=
  ⟨{ kind := "program", start := 0, stop := 18 },
    [⟨{ kind := "lexical_declaration", start := 0, stop := 18 },
      [⟨{ kind := "let", named := false, start := 0, stop := 3, field := some "kind" }, []⟩,
        ⟨{ kind := "variable_declarator", start := 4, stop := 17 },
          [⟨{ kind := "identifier", start := 4, stop := 5, field := some "name" }, []⟩,
            ⟨{ kind := "type_annotation", start := 5, stop := 8, field := some "type" },
              [⟨{ kind := ":", named := false, start := 5, stop := 6 }, []⟩,
                ⟨{ kind := "type_identifier", start := 7, stop := 8 }, []⟩]⟩,
            ⟨{ kind := "=", named := false, start := 9, stop := 10 }, []⟩,
            ⟨{ kind := "augmented_assignment_expression", start := 11, stop := 17,
               field := some "value" },
              [⟨{ kind := "identifier", start := 11, stop := 12, field := some "left" }, []⟩,
                ⟨{ kind := "+=", named := false, start := 13, stop := 15,
                   field := some "operator" }, []⟩,
                ⟨{ kind := "number", start := 16, stop := 17, field := some "right" }, []⟩]⟩]⟩,
        ⟨{ kind := ";", named := false, start := 17, stop := 18 }, []⟩]⟩]⟩

theorem wellNested_lowerProgram_typedSum :
    typedSum.WellNested ∧ typedSum.OperationsInOrder ∧
      (lowerProgram "let a: T = b += 1;" typedSum).WellNested ∧
      (lowerProgram "let a: T = b += 1;" typedSum).walk.map (·.span) =
        [⟨0, 18⟩, ⟨0, 18⟩, ⟨0, 17⟩, ⟨4, 17⟩, ⟨4, 5⟩, ⟨7, 8⟩, ⟨7, 8⟩, ⟨11, 17⟩, ⟨11, 12⟩,
          ⟨13, 15⟩, ⟨16, 17⟩, ⟨18, 18⟩] := by
  have hnested : typedSum.WellNested := by
    unfold WellNested
    decide +kernel
  have horder : typedSum.OperationsInOrder := by
    unfold OperationsInOrder
    decide +kernel
  obtain ⟨htree, -⟩ :=
    wellNested_lowerProgram "let a: T = b += 1;" hnested (by decide +kernel) horder
  refine ⟨hnested, horder, htree, ?_⟩
  rw [Node.walk_eq_preorder]
  decide +kernel

end TreeMend.ParseTree
