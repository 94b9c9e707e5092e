import TreeMend.Proofs.Lowering.Uncommented

/-!
# Comments and the generic tree

Comments are no part of a program, and lowering drops them wherever it goes through the parts of a
construct or looks for a part in a named place.  In two cases it takes a part for what comes first
or comes next without asking whether that is a comment: an assignment has no named place for its
operator, which is taken to follow the left operand, and an update expression is a prefix one if it
starts with punctuation.  A comment in such a position *obscures* the node.

Whether taking out comments changes the generic tree is followed from a construct to its parts, one
element at a time: an element of what a construct leaves is the same if the elements of the parts
are that stand in it, and if the construct is not obscured itself.  Going by elements matters,
since the name of a constructor is dropped with all that is in it.

## Main definitions

* `ParseTree.OperatorHidden`, `ParseTree.Obscured` — comments in the way of an operator, and of
  either kind.
* `ParseTree.Layout.InStretch` — an element of what the parts of a construct leave, counted in its
  part; `ParseTree.Layout.PartsAgree` says that the comments in that part do not matter to it.
* `ParseTree.Clear` — nothing in an element of what a node leaves is obscured.

## Main results

* `ParseTree.operatorNode_uncommented_iff` — the operator changes exactly where it is hidden.
* `ParseTree.Layout.getElem?_inner_uncommented_iff`, `ParseTree.getElem?_leaves_iff_inner` — from
  the parts to what they leave together, and from there to the construct.
* `ParseTree.clear_iff` — the same two steps for what is obscured.
* `ParseTree.lowerProgram_uncommented_iff` — **comments change nothing unless they obscure a node**.
-/

namespace TreeMend.ParseTree

/-! ### The operator of an operation -/

/-- The operator of an operation is hidden behind comments. -/
structure OperatorHidden (t : ParseTree) : Prop where
  /-- The node is an operation. -/
  operation : t.kind ∈ operandRules
  /-- The operator has no place of its own. -/
  placeless : t.field? "operator" = none
  /-- The left operand is followed by a comment, and what comes after the comments, if anything,
  covers another range. -/
  comment : ∃ c ∈ (fromField "left" t.children).tail.head?, c.isComment = true ∧
    c.token.span ≠ (((fromField "left" t.children).tail.find? (!·.isComment)).map
      (·.token.span)).getD {}

instance (t : ParseTree) : Decidable t.OperatorHidden :=
  decidable_of_iff
    (t.kind ∈ operandRules ∧ t.field? "operator" = none ∧
      ∃ c ∈ (fromField "left" t.children).tail.head?, c.isComment = true ∧
        c.token.span ≠ (((fromField "left" t.children).tail.find? (!·.isComment)).map
          (·.token.span)).getD {})
    ⟨fun h => ⟨h.1, h.2.1, h.2.2⟩, fun h => ⟨h.operation, h.placeless, h.comment⟩⟩

/-- Comments obscure a node: they hide the operator of an operation or the form of an update
expression. -/
def Obscured (t : ParseTree) : Prop := t.OperatorHidden ∨ t.FormHidden

instance (t : ParseTree) : Decidable t.Obscured :=
  inferInstanceAs (Decidable (_ ∨ _))

section Operator

variable {src : String} {t : ParseTree} {ts : List ParseTree}

/-- The range that the operator of an operation is taken from. -/
def operatorSpan (ts : List ParseTree) : Span :=
  match ts.find? (·.token.field == some "operator") with
  | some op => op.token.span
  | none => ((fromField "left" ts).tail.head?.map (·.token.span)).getD {}

theorem operatorNode_eq (kind : Kind) (ts : List ParseTree) :
    operatorNode src kind ts = ⟨kind, textBetween src (operatorSpan ts).start
      (operatorSpan ts).stop, operatorSpan ts, []⟩ := by
  have hempty : textBetween src 0 0 = "" := by
    rw [textBetween, Text.slice?]
    simp
  rw [operatorNode, operatorSpan]
  cases ts.find? (·.token.field == some "operator") with
  | some op => rfl
  | none =>
    cases (fromField "left" ts).tail with
    | nil =>
      change _ = (⟨kind, textBetween src 0 0, ⟨0, 0⟩, []⟩ : Node)
      rw [hempty]
    | cons op rest => rfl

/-- Taking out comments changes the operator of an operation only where comments hide it. -/
theorem operatorSpan_uncommented_iff (h : CommentsPlaceless t.children)
    (hkind : t.kind ∈ operandRules) :
    operatorSpan (uncommentedList t.children) = operatorSpan t.children ↔
      ¬ t.OperatorHidden := by
  rw [operatorSpan, operatorSpan, find?_uncommentedList h, tail_fromField_uncommentedList h,
    head?_uncommentedList]
  cases hfind : t.children.find? (·.token.field == some "operator") with
  | some op =>
    have hvisible : ¬ t.OperatorHidden := fun hidden => by
      cases hfind.symm.trans hidden.placeless
    simpa using hvisible
  | none =>
    cases htail : (fromField "left" t.children).tail with
    | nil =>
      have hvisible : ¬ t.OperatorHidden := fun hidden => by
        obtain ⟨c, hc, -⟩ := hidden.comment
        rw [htail] at hc
        cases hc
      simpa using hvisible
    | cons c rest =>
      -- only what follows the left operand is left to look at
      have hidden_iff : t.OperatorHidden ↔ c.isComment = true ∧
          c.token.span ≠ (((c :: rest).find? (!·.isComment)).map (·.token.span)).getD {} := by
        constructor
        · intro hidden
          obtain ⟨d, hd, hcomment⟩ := hidden.comment
          rw [htail] at hd hcomment
          obtain rfl : c = d := by simpa using hd
          exact hcomment
        · intro hcomment
          exact ⟨hkind, hfind, c, by rw [htail]; rfl, by rw [htail]; exact hcomment⟩
      rw [hidden_iff]
      cases hc : c.isComment with
      | true => simp [hc, Function.comp_def, eq_comm]
      | false => simp [hc]

theorem operatorNode_uncommented_iff (h : CommentsPlaceless t.children)
    (hkind : t.kind ∈ operandRules) (operator : Kind) :
    operatorNode src operator (uncommentedList t.children) =
      operatorNode src operator t.children ↔ ¬ t.OperatorHidden := by
  rw [operatorNode_eq, operatorNode_eq, ← operatorSpan_uncommented_iff h hkind]
  constructor
  · intro hnode
    exact (Node.mk.inj hnode).2.2.1
  · intro hspan
    rw [hspan]

end Operator

/-! ### What the parts of a construct leave -/

namespace Layout

/-- Counted from the start of the stretch of the part `c`, element number `m` of what the parts of
a construct leave is number `k`. -/
def InStretch (src : String) (l : Layout) (ts : List ParseTree) (m : Nat) (c : ParseTree)
    (portion : Portion) (k : Nat) : Prop :=
  ∃ i o, ts[i]? = some c ∧ l.offset src ts i c = some (o, portion) ∧ o + k = m

/-- Taking the comments out of a part changes nothing at element number `m`. -/
def PartsAgree (src : String) (l : Layout) (ts : List ParseTree) (m : Nat) : Prop :=
  ∀ c portion k, l.InStretch src ts m c portion k →
    (leaves src portion c.uncommented)[k]? = (leaves src portion c)[k]?

variable {src : String} {t c : ParseTree} {ts : List ParseTree} {l : Layout} {m i : Nat}

/-- A list of stretches, in which a part either counts as some portion or leaves the same with its
comments and without them. -/
theorem getElem?_flatMap_uncommented_iff (h : CommentsPlaceless t.subtrees)
    {f : ParseTree → List Node}
    (hf : ∀ c, (∃ portion, (∀ i, l.offset src t.children i c =
          some (((t.children.take i).flatMap f).length, portion)) ∧
        f c = leaves src portion c ∧ f c.uncommented = leaves src portion c.uncommented) ∨
      ((∀ i, l.offset src t.children i c = none) ∧ f c.uncommented = f c)) :
    (t.children.flatMap fun c => f c.uncommented)[m]? = (t.children.flatMap f)[m]? ↔
      l.PartsAgree src t.children m := by
  have hlength : ∀ c ∈ t.children, (f c.uncommented).length = (f c).length := by
    intro c hc
    rcases hf c with ⟨portion, -, hleaves, huncommented⟩ | ⟨-, hsame⟩
    · rw [hleaves, huncommented, length_leaves_uncommented (h.child hc)]
    · rw [hsame]
  rw [getElem?_flatMap_eq_iff hlength]
  constructor
  · rintro hparts c portion k ⟨i, o, hc, ho, hm⟩
    rcases hf c with ⟨portion', hoffset, hleaves, huncommented⟩ | ⟨hoffset, -⟩
    · rw [hoffset] at ho
      obtain ⟨rfl, rfl⟩ := Prod.mk.inj (Option.some.inj ho)
      rw [← hleaves, ← huncommented]
      exact hparts i c k hc hm
    · cases (hoffset i).symm.trans ho
  · intro hparts i c k hc hm
    rcases hf c with ⟨portion, hoffset, hleaves, huncommented⟩ | ⟨-, hsame⟩
    · rw [hleaves, huncommented]
      exact hparts c portion k ⟨i, _, hc, hoffset i, hm⟩
    · rw [hsame]

theorem getElem?_lowerChildren_uncommented_iff (h : CommentsPlaceless t.subtrees) :
    (lowerChildren src (uncommentedList t.children))[m]? = (lowerChildren src t.children)[m]? ↔
      children.PartsAgree src t.children m := by
  rw [lowerChildren_uncommented h.children, lowerChildren_eq_flatMap]
  refine getElem?_flatMap_uncommented_iff h fun c => ?_
  cases hname : c.token.isDeclaredName with
  | true =>
    refine Or.inr ⟨fun i => if_pos hname, ?_⟩
    rw [lowerPart, lowerPart, token_uncommented, if_pos hname, if_pos hname]
  | false =>
    refine Or.inl ⟨.whole, fun i => ?_, lowerPart_of_not_isDeclaredName hname, ?_⟩
    · rw [← lowerChildren_eq_flatMap]
      exact if_neg (by simp [hname])
    · exact lowerPart_of_not_isDeclaredName (by rw [token_uncommented, hname])

theorem getElem?_lowerSubstitutions_uncommented_iff (h : CommentsPlaceless t.subtrees) :
    (lowerSubstitutions src (uncommentedList t.children))[m]? =
        (lowerSubstitutions src t.children)[m]? ↔
      substitutions.PartsAgree src t.children m := by
  rw [lowerSubstitutions_uncommented, lowerSubstitutions_eq_flatMap]
  refine getElem?_flatMap_uncommented_iff h fun c => ?_
  cases hnamed : c.token.named && c.token.kind == "template_substitution" with
  | true =>
    refine Or.inl ⟨.parts, fun i => ?_, lowerSubstitution_of_named hnamed, ?_⟩
    · rw [offset, if_pos hnamed, lowerSubstitutions_eq_flatMap]
    · exact lowerSubstitution_of_named (by rw [token_uncommented, hnamed])
  | false =>
    refine Or.inr ⟨fun i => by rw [offset, hnamed]; rfl, ?_⟩
    rw [lowerSubstitution, lowerSubstitution, token_uncommented, hnamed]
    rfl

theorem length_lowerField_uncommented (h : CommentsPlaceless t.subtrees) (name : String) :
    (lowerField src name (uncommentedList t.children)).length =
      (lowerField src name t.children).length := by
  rw [lowerField_uncommented h.children, lowerField_eq]
  cases hfind : t.children.find? (·.token.field == some name) with
  | none => rfl
  | some c =>
    exact length_leaves_uncommented (h.child (List.mem_of_find?_eq_some hfind)) .whole

/-- What the part in a place leaves changes as that part does. -/
theorem getElem?_lowerField_uncommented_iff (h : CommentsPlaceless ts) (name : String) {k : Nat} :
    (lowerField src name (uncommentedList ts))[k]? = (lowerField src name ts)[k]? ↔
      ∀ i c, ts[i]? = some c → ts.findIdx? (·.token.field == some name) = some i →
        (leaves src .whole c.uncommented)[k]? = (leaves src .whole c)[k]? := by
  rw [lowerField_uncommented h, lowerField_eq, List.find?_eq_getElem?_findIdx]
  constructor
  · intro hfield i c hc hi
    obtain ⟨-, hindex⟩ := List.findIdx?_eq_some_iff_findIdx_eq.mp hi
    rw [hindex, hc] at hfield
    exact hfield
  · intro hpart
    cases hc : ts[ts.findIdx (·.token.field == some name)]? with
    | none => rfl
    | some c =>
      obtain ⟨hlt, -⟩ := List.getElem?_eq_some_iff.mp hc
      exact hpart _ c hc (List.findIdx?_eq_some_iff_findIdx_eq.mpr ⟨hlt, rfl⟩)

theorem getElem?_operands_uncommented_iff (h : CommentsPlaceless t.subtrees) (operator : Kind) :
    ((operands operator).inner src (uncommentedList t.children))[m]? =
        ((operands operator).inner src t.children)[m]? ↔
      (m = (lowerField src "left" t.children).length →
        operatorNode src operator (uncommentedList t.children) =
          operatorNode src operator t.children) ∧
      (operands operator).PartsAgree src t.children m := by
  rw [inner, inner, getElem?_append_cons_eq_iff (length_lowerField_uncommented h "left"),
    getElem?_lowerField_uncommented_iff h.children]
  simp only [getElem?_lowerField_uncommented_iff h.children]
  constructor
  · rintro ⟨hleft, hoperator, hright⟩
    refine ⟨hoperator, ?_⟩
    rintro c portion k ⟨i, o, hc, ho, hm⟩
    obtain ⟨rfl, ⟨hi, rfl⟩ | ⟨hi, rfl⟩⟩ := offset_operands_iff.mp ho
    · obtain rfl : k = m := by omega
      exact hleft i c hc hi
    · exact hright k hm i c hc hi
  · rintro ⟨hoperator, hparts⟩
    refine ⟨fun i c hc hi => ?_, hoperator, fun k hm i c hc hi => ?_⟩
    · exact hparts c .whole m
        ⟨i, 0, hc, offset_operands_iff.mpr ⟨rfl, Or.inl ⟨hi, rfl⟩⟩, Nat.zero_add m⟩
    · exact hparts c .whole k
        ⟨i, _, hc, offset_operands_iff.mpr ⟨rfl, Or.inr ⟨hi, rfl⟩⟩, hm⟩

/-- Taking out comments changes nothing at an element of what the parts of a construct leave if it
changes nothing in the part that the element is in, or if it is the operator and is not hidden. -/
theorem getElem?_inner_uncommented_iff (h : CommentsPlaceless t.subtrees)
    (hl : ∀ operator, l = .operands operator → t.kind ∈ operandRules) :
    (l.inner src (uncommentedList t.children))[m]? = (l.inner src t.children)[m]? ↔
      (∀ operator, l = .operands operator → m = (lowerField src "left" t.children).length →
        ¬ t.OperatorHidden) ∧
      l.PartsAgree src t.children m := by
  cases l with
  | operands operator =>
    rw [getElem?_operands_uncommented_iff h,
      operatorNode_uncommented_iff h.children (hl operator rfl)]
    simp
  | substitutions =>
    rw [and_iff_right nofun]
    exact getElem?_lowerSubstitutions_uncommented_iff h
  | _ =>
    rw [and_iff_right nofun]
    exact getElem?_lowerChildren_uncommented_iff h

/-! ### Where it stands -/

/-- Only what is spread stands beside the construct; all else stands below its one node. -/
theorem exists_wrap_eq_cons_zero {w : Position} (hl : l ≠ .spread)
    (hw : l.wrap src ts m = some w) : ∃ r, w = 0 :: r := by
  cases l with
  | spread => exact absurd rfl hl
  | members =>
    rw [wrap] at hw
    split at hw
    · split at hw
      · cases hw
      · exact ⟨_, (Option.some.inj hw).symm⟩
    · exact ⟨_, (Option.some.inj hw).symm⟩
  | _ => exact ⟨_, (Option.some.inj hw).symm⟩

theorem wrap_ne_some_nil : l.wrap src ts m ≠ some [] := by
  intro hw
  by_cases hl : l = .spread
  · subst hl
    cases hw
  · obtain ⟨r, hr⟩ := exists_wrap_eq_cons_zero hl hw
    cases hr

theorem forall_wrap_iff (hl : l ≠ .spread) {k : Nat} {P : Nat → Prop} :
    (∀ m r, l.wrap src ts m = some (k :: r) → P m) ↔
      (k = 0 → ∀ m, (l.wrap src ts m).isSome → P m) := by
  constructor
  · rintro h rfl m hm
    obtain ⟨w, hw⟩ := Option.isSome_iff_exists.mp hm
    obtain ⟨r, rfl⟩ := exists_wrap_eq_cons_zero hl hw
    exact h m r hw
  · intro h m r hw
    obtain ⟨r', hr⟩ := exists_wrap_eq_cons_zero hl hw
    exact h (List.cons.inj hr).1 m (by rw [hw]; rfl)

end Layout

section Wrapping

variable {src : String} {t : ParseTree} {l : Layout} {tok : Token}

theorem Shape.layout_ne_spread {s : Shape} (h : s.layout = some l) : l ≠ .spread := by
  rintro rfl
  cases s <;> cases h

/-! The nodes that lowering puts together show what the parts left. -/

theorem nodeOf_injective (kind : Kind) : Function.Injective (nodeOf src kind tok) := by
  intro ns ms h
  exact (Node.mk.inj h).2.2.2

theorem variableStatementNode_injective : Function.Injective (variableStatementNode src tok) := by
  intro ns ms h
  have hlist := List.singleton_inj.mp (nodeOf_injective Kind.variableStatement h)
  exact (Node.mk.inj hlist).2.2.2

theorem templateNode_injective : Function.Injective (templateNode src tok) := by
  have hchildren : ∀ ns, (templateNode src tok ns).children = ns := by
    intro ns
    cases ns <;> rfl
  intro ns ms h
  rw [← hchildren ns, h, hchildren]

theorem heritageNode_injective : Function.Injective fun operands : List Node =>
    nodeOf src Kind.heritageClause tok (operands.map heritageOperandNode) := by
  have hoperand : Function.Injective heritageOperandNode := fun n m h =>
    List.singleton_inj.mp (Node.mk.inj h).2.2.2
  exact (nodeOf_injective _).comp (List.map_injective_iff.mpr hoperand)

theorem getElem?_singleton_iff {n n' : Node} {k : Nat} :
    [n'][k]? = [n][k]? ↔ (k = 0 → n' = n) := by
  cases k <;> simp

/-- A node that shows what the parts left is the same if all elements of that are. -/
theorem getElem?_singleton_iff_of_injective {build : List Node → Node}
    (hbuild : Function.Injective build) {ns ns' : List Node} {p : Nat → Prop} (hp : ∀ m, p m)
    {k : Nat} :
    [build ns'][k]? = [build ns][k]? ↔ (k = 0 → ∀ m, p m → ns'[m]? = ns[m]?) := by
  rw [getElem?_singleton_iff, hbuild.eq_iff, List.ext_getElem?_iff]
  simp only [hp, true_implies]

/-- The members of a constructor are those elements that have a position. -/
theorem constructorParts_eq_iff {ts : List ParseTree} {ns : List Node}
    (hname : namesConstructor ns = namesConstructor (lowerChildren src ts)) :
    constructorParts ns = constructorParts (lowerChildren src ts) ↔
      ∀ m, (Layout.members.wrap src ts m).isSome → ns[m]? = (lowerChildren src ts)[m]? := by
  rw [constructorParts_eq, constructorParts_eq, hname]
  simp only [Layout.wrap]
  split
  · rw [List.ext_getElem?_iff]
    constructor
    · intro h m hm
      cases m with
      | zero => cases hm
      | succ m => simpa only [List.getElem?_tail] using h m
    · intro h m
      rw [List.getElem?_tail, List.getElem?_tail]
      exact h (m + 1) rfl
  · simp [List.ext_getElem?_iff]

/-- Unless its form is hidden, what a node leaves is the same without comments if the elements are
that have a position in it. -/
theorem getElem?_leaves_iff_inner (h : CommentsPlaceless t.subtrees) {portion : Portion}
    (hl : layout src portion t = some l)
    (hform : portion = .whole → t.token.fate = .kept → ¬ t.FormHidden) {k : Nat} :
    (leaves src portion t.uncommented)[k]? = (leaves src portion t)[k]? ↔
      ∀ m r, l.wrap src t.children m = some (k :: r) →
        (l.inner src (uncommentedList t.children))[m]? = (l.inner src t.children)[m]? := by
  have hspread : (lowerChildren src t.uncommented.children)[k]? =
        (lowerChildren src t.children)[k]? ↔
      ∀ m r, Layout.spread.wrap src t.children m = some (k :: r) →
        (lowerChildren src (uncommentedList t.children))[m]? =
          (lowerChildren src t.children)[m]? := by
    rw [children_uncommented]
    constructor
    · rintro hk m r hw
      obtain ⟨rfl, -⟩ := List.cons.inj (Option.some.inj hw)
      exact hk
    · intro hm
      exact hm k [] rfl
  cases portion with
  | parts =>
    obtain rfl := Option.some.inj hl
    exact hspread
  | whole =>
    rw [leaves, leaves]
    rcases layout_whole_eq_some hl with ⟨hfate, rfl⟩ | ⟨hfate, hshape⟩
    · rw [lowerInto_spliced src hfate, lowerInto_spliced src (by rw [token_uncommented, hfate])]
      exact hspread
    rw [Layout.forall_wrap_iff (Shape.layout_ne_spread hshape), lowerInto_eq, lowerInto_eq,
      token_uncommented, hfate, shapeOf_uncommented h.children (hform rfl hfate),
      children_uncommented]
    generalize shapeOf src t = s at hshape ⊢
    cases s with
    | leaf kind => cases hshape
    | typeName => cases hshape
    | branch kind =>
      cases hshape
      exact getElem?_singleton_iff_of_injective (nodeOf_injective kind) fun _ => rfl
    | variableStatement =>
      cases hshape
      exact getElem?_singleton_iff_of_injective variableStatementNode_injective fun _ => rfl
    | operands operator =>
      cases hshape
      exact getElem?_singleton_iff_of_injective (nodeOf_injective Kind.binaryExpression)
        fun _ => rfl
    | template =>
      cases hshape
      exact getElem?_singleton_iff_of_injective templateNode_injective fun _ => rfl
    | heritage =>
      cases hshape
      exact getElem?_singleton_iff_of_injective heritageNode_injective fun _ => rfl
    | constructorMember =>
      cases hshape
      rw [getElem?_singleton_iff, (nodeOf_injective Kind.constructorMember).eq_iff,
        constructorParts_eq_iff (namesConstructor_uncommented h)]
      rfl

end Wrapping

/-! ### Whole trees -/

section Whole

variable {src : String} {t : ParseTree} {l : Layout} {portion : Portion}

/-- Every operation keeps two operands around an operator. -/
theorem exists_shapeOf_operands (src : String) (h : t.kind ∈ operandRules) :
    ∃ operator, shapeOf src t = .operands operator := by
  simp only [operandRules, List.mem_cons, List.not_mem_nil, or_false] at h
  rcases h with hk | hk | hk <;> exact ⟨_, by rw [shapeOf, hk]; rfl⟩

/-- A node without a layout leaves no more than its token says. -/
theorem leaves_uncommented_of_layout (h : CommentsPlaceless t.subtrees)
    (hl : layout src portion t = none) :
    leaves src portion t.uncommented = leaves src portion t := by
  cases portion with
  | parts => cases hl
  | whole =>
    rw [layout] at hl
    rw [leaves, leaves, lowerInto_eq, lowerInto_eq, token_uncommented]
    cases hfate : t.token.fate with
    | dropped => rfl
    | spliced => rw [hfate] at hl; cases hl
    | kept =>
      rw [hfate] at hl
      have hform : ¬ t.FormHidden := by
        intro hform
        obtain ⟨k, k', hs, -⟩ := hform.exists_shapeOf src
        rw [hs] at hl
        cases hl
      rw [shapeOf_uncommented h.children hform]
      cases hs : shapeOf src t with
      | leaf kind => rfl
      | typeName => rfl
      | _ => rw [hs] at hl; cases hl

/-- Only an operation that is kept has its parts laid out around an operator. -/
theorem of_layout_operands {operator : Kind}
    (hl : layout src portion t = some (.operands operator)) :
    portion = .whole ∧ t.token.fate = .kept ∧ t.kind ∈ operandRules := by
  cases portion with
  | parts => cases hl
  | whole =>
    rcases layout_whole_eq_some hl with ⟨-, hspread⟩ | ⟨hfate, hshape⟩
    · cases hspread
    · refine ⟨rfl, hfate, ?_⟩
      cases hs : shapeOf src t with
      | operands _ => exact kind_of_shapeOf_operands hs
      | _ => rw [hs] at hshape; cases hshape

/-- No node that leaves something in element number `k` of what a node leaves is obscured. -/
def Clear (src : String) (portion : Portion) (t : ParseTree) (k : Nat) : Prop :=
  ∀ p u r, t.get? p = some u → place src portion t p = some (k :: r) → ¬ u.Obscured

/-- A node that has no layout is neither an operation nor an update expression. -/
theorem clear_of_layout (hl : layout src portion t = none) {k : Nat} : Clear src portion t k := by
  intro p u r hu hq
  cases p with
  | nil =>
    obtain rfl := Option.some.inj hu
    obtain ⟨rfl, hfate, -⟩ := place_nil_eq_some.mp hq
    rw [layout, hfate] at hl
    rintro (hidden | hidden)
    · obtain ⟨operator, hs⟩ := exists_shapeOf_operands src hidden.operation
      rw [hs] at hl
      cases hl
    · obtain ⟨k, k', hs, -⟩ := hidden.exists_shapeOf src
      rw [hs] at hl
      cases hl
  | cons i p =>
    obtain ⟨l, c, o, portion', k', r', w, hl', -⟩ := place_cons_eq_some.mp hq
    cases hl.symm.trans hl'

/-- The nodes in a node are the node itself and those in its parts. -/
theorem clear_iff (hl : layout src portion t = some l)
    (hform : portion = .whole → t.token.fate = .kept → ¬ t.FormHidden) {k : Nat} :
    Clear src portion t k ↔ ∀ m r, l.wrap src t.children m = some (k :: r) →
      (∀ operator, l = .operands operator → m = (lowerField src "left" t.children).length →
        ¬ t.OperatorHidden) ∧
      ∀ c portion' k', l.InStretch src t.children m c portion' k' →
        Clear src portion' c k' := by
  constructor
  · intro hclear m r hw
    refine ⟨?_, ?_⟩
    · rintro operator rfl - hidden
      obtain ⟨rfl, hfate, -⟩ := of_layout_operands hl
      obtain ⟨rfl, -⟩ := List.cons.inj (Option.some.inj hw)
      exact hclear [] t [] rfl (place_nil_eq_some.mpr ⟨rfl, hfate, rfl⟩) (Or.inl hidden)
    · rintro c portion' k' ⟨i, o, hc, ho, rfl⟩ p u r' hu hq
      exact hclear (i :: p) u (r ++ r') (get?_cons_eq_some.mpr ⟨c, hc, hu⟩)
        (place_cons_eq_some.mpr ⟨l, c, o, portion', k', r', _, hl, hc, ho, hq, hw, rfl⟩)
  · intro hparts p u r hu hq
    cases p with
    | nil =>
      obtain rfl := Option.some.inj hu
      obtain ⟨rfl, hfate, hk⟩ := place_nil_eq_some.mp hq
      obtain ⟨rfl, -⟩ := List.cons.inj hk
      rintro (hidden | hidden)
      · obtain ⟨operator, hs⟩ := exists_shapeOf_operands src hidden.operation
        obtain rfl : l = .operands operator := by
          rw [layout, hfate, hs] at hl
          exact (Option.some.inj hl).symm
        exact (hparts _ _ rfl).1 operator rfl rfl hidden
      · exact hform rfl hfate hidden
    | cons i p =>
      obtain ⟨l', c, o, portion', k', r', w, hl', hc, ho, hplace, hw, hq⟩ :=
        place_cons_eq_some.mp hq
      obtain rfl : l = l' := Option.some.inj (hl.symm.trans hl')
      obtain ⟨c', hc', hu⟩ := get?_cons_eq_some.mp hu
      obtain rfl : c = c' := Option.some.inj (hc.symm.trans hc')
      cases w with
      | nil => exact absurd hw Layout.wrap_ne_some_nil
      | cons j w =>
        obtain ⟨rfl, -⟩ := List.cons.inj hq
        exact (hparts _ _ hw).2 c portion' k' ⟨i, o, hc, ho, rfl⟩ p u r' hu hplace

/-- An update expression whose form is hidden is one node, which changes. -/
theorem FormHidden.getElem?_leaves_iff (hform : t.FormHidden) (hfate : t.token.fate = .kept)
    {k : Nat} :
    (leaves src .whole t.uncommented)[k]? = (leaves src .whole t)[k]? ↔
      Clear src .whole t k := by
  have hfate' : t.uncommented.token.fate = .kept := by rw [token_uncommented, hfate]
  obtain ⟨kind, kind', hs, hs', hne, -⟩ := hform.exists_shapeOf src
  have hleaves := lowerInto_branch src hfate hs
  rw [leaves, leaves, hleaves, lowerInto_branch src hfate' hs', getElem?_singleton_iff]
  constructor
  · intro hnode p u r hu hq
    obtain ⟨n, hn, -⟩ := nodeIn_place hu hq
    obtain ⟨m, hm, -⟩ := nodeIn_cons_eq_some.mp hn
    cases k with
    | zero => exact absurd (Node.mk.inj (hnode rfl)).1 hne
    | succ k =>
      rw [leaves, hleaves] at hm
      cases hm
  · rintro hclear rfl
    exact absurd (Or.inr hform) (hclear [] t [] rfl (place_nil_eq_some.mpr ⟨rfl, hfate, rfl⟩))

/-- Taking out comments leaves an element of what a node leaves alone exactly if no node in it is
obscured. -/
theorem getElem?_leaves_uncommented_iff (h : CommentsPlaceless t.subtrees) {k : Nat} :
    (leaves src portion t.uncommented)[k]? = (leaves src portion t)[k]? ↔
      Clear src portion t k := by
  induction t using ParseTree.inductionOn generalizing portion k with
  | step t ih =>
    cases hl : layout src portion t with
    | none =>
      refine iff_of_true ?_ (clear_of_layout hl)
      rw [leaves_uncommented_of_layout h hl]
    | some l =>
      by_cases hform : portion = .whole ∧ t.token.fate = .kept ∧ t.FormHidden
      · obtain ⟨rfl, hfate, hform⟩ := hform
        exact hform.getElem?_leaves_iff hfate
      have hform : portion = .whole → t.token.fate = .kept → ¬ t.FormHidden :=
        fun hportion hfate hhidden => hform ⟨hportion, hfate, hhidden⟩
      rw [getElem?_leaves_iff_inner h hl hform, clear_iff hl hform]
      refine forall₃_congr fun m r hw => ?_
      rw [Layout.getElem?_inner_uncommented_iff h fun operator hl' =>
        (of_layout_operands (hl' ▸ hl)).2.2]
      refine and_congr_right fun _ => forall₃_congr fun c portion' k' => ?_
      refine imp_congr_right fun hstretch => ?_
      obtain ⟨i, o, hc, -⟩ := hstretch
      exact ih c (List.mem_of_getElem? hc) (h.child (List.mem_of_getElem? hc))

/-- **Comments are no part of the program, unless they obscure a node.**  If comments fill no
places, then taking all of them out of a parse tree leaves its generic tree the same exactly if
they obscure no node that has a place in it. -/
theorem lowerProgram_uncommented_iff (src : String) (h : CommentsPlaceless t.subtrees) :
    lowerProgram src t.uncommented = lowerProgram src t ↔
      ∀ p u, t.get? p = some u → (place src .parts t p).isSome → ¬ u.Obscured := by
  have hchildren : lowerProgram src t.uncommented = lowerProgram src t ↔
      leaves src .parts t.uncommented = leaves src .parts t := by
    rw [lowerProgram, lowerProgram, Node.mk.injEq, List.append_cancel_right_eq]
    simp [leaves]
  rw [hchildren, List.ext_getElem?_iff]
  simp only [getElem?_leaves_uncommented_iff h]
  constructor
  · intro hclear p u hu hq
    obtain ⟨q, hq⟩ := Option.isSome_iff_exists.mp hq
    obtain ⟨n, hn, -⟩ := nodeIn_place hu hq
    cases q with
    | nil => cases hn
    | cons k r => exact hclear k p u r hu hq
  · intro hpaths k p u r hu hq
    exact hpaths p u hu (by rw [hq]; rfl)

end Whole

/-- The parse tree of `a /* b */ += c /* d */ ++;`. -/
def commentedSum : ParseTree :=
  ⟨{ kind := "program", start := 0, stop := 26 },
    [⟨{ kind := "expression_statement", start := 0, stop := 26 },
      [⟨{ kind := "augmented_assignment_expression", start := 0, stop := 25 },
        [⟨{ kind := "identifier", start := 0, stop := 1, field := some "left" }, []⟩,
          ⟨{ kind := "comment", extra := true, start := 2, stop := 9 }, []⟩,
          ⟨{ kind := "+=", named := false, start := 10, stop := 12, field := some "operator" }, []⟩,
          ⟨{ kind := "update_expression", start := 13, stop := 25, field := some "right" },
            [⟨{ kind := "identifier", start := 13, stop := 14, field := some "argument" }, []⟩,
              ⟨{ kind := "comment", extra := true, start := 15, stop := 22 }, []⟩,
              ⟨{ kind := "++", named := false, start := 23, stop := 25,
                 field := some "operator" }, []⟩]⟩]⟩,
        ⟨{ kind := ";", named := false, start := 25, stop := 26 }, []⟩]⟩]⟩

theorem lowerProgram_uncommented_commentedSum :
    CommentsPlaceless commentedSum.subtrees ∧ (commentedSum.subtrees.filter isComment).length = 2 ∧
      lowerProgram "a /* b */ += c /* d */ ++;" commentedSum.uncommented =
        lowerProgram "a /* b */ += c /* d */ ++;" commentedSum := by
  have hplaceless : CommentsPlaceless commentedSum.subtrees := by decide +kernel
  have hclear : ∀ u ∈ commentedSum.subtrees, ¬ u.Obscured := by decide +kernel
  refine ⟨hplaceless, by decide +kernel, ?_⟩
  exact (lowerProgram_uncommented_iff _ hplaceless).mpr fun p u hu _ =>
    hclear u (mem_subtrees hu)

/-- The parse tree of `x /* c */ = 2;`. -/
def commentedAssignment : ParseTree :=
  ⟨{ kind := "program", start := 0, stop := 14 },
    [⟨{ kind := "expression_statement", start := 0, stop := 14 },
      [⟨{ kind := "assignment_expression", start := 0, stop := 13 },
        [⟨{ kind := "identifier", start := 0, stop := 1, field := some "left" }, []⟩,
          ⟨{ kind := "comment", extra := true, start := 2, stop := 9 }, []⟩,
          ⟨{ kind := "=", named := false, start := 10, stop := 11 }, []⟩,
          ⟨{ kind := "number", start := 12, stop := 13, field := some "right" }, []⟩]⟩,
        ⟨{ kind := ";", named := false, start := 13, stop := 14 }, []⟩]⟩]⟩

/-- The comment takes the place of the operator. -/
theorem lowerProgram_commentedAssignment :
    CommentsPlaceless commentedAssignment.subtrees ∧
      (lowerProgram "x /* c */ = 2;" commentedAssignment).get? [0, 0, 1] =
        some ⟨Kind.equalsToken, "/* c */", ⟨2, 9⟩, []⟩ ∧
      (lowerProgram "x /* c */ = 2;" commentedAssignment.uncommented).get? [0, 0, 1] =
        some ⟨Kind.equalsToken, "=", ⟨10, 11⟩, []⟩ ∧
      lowerProgram "x /* c */ = 2;" commentedAssignment.uncommented ≠
        lowerProgram "x /* c */ = 2;" commentedAssignment := by
  decide +kernel

end TreeMend.ParseTree
