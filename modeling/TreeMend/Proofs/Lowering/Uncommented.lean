import TreeMend.Proofs.Lowering.Nesting

/-!
# Parse trees without their comments

A comment is a leaf that the parser puts wherever it finds one.  Taking all comments out of a parse
tree leaves every node with the token and the fate that it had.  Parts that are looked up by their
places are found as before, since comments fill no place; but a part that is taken for what it is
because it comes first, or next after another, may be another part than before.

Comments leave nothing, so that what the parts of a construct leave is made of as many nodes as
before.  Which of these nodes change is the matter of `TreeMend.Proofs.Lowering.Comments`.

## Main definitions

* `ParseTree.isComment`, `ParseTree.uncommented` — comments, and a tree without them.
* `ParseTree.CommentsPlaceless` — what the parser promises of comments.
* `ParseTree.FormHidden` — an update expression that starts with a comment.

## Main results

* `ParseTree.find?_uncommentedList`, `ParseTree.tail_fromField_uncommentedList` — a part in a place
  and the parts after it.
* `ParseTree.shapeOf_uncommented` — the shape of a node, unless its form is hidden.
* `ParseTree.lowerChildren_uncommented` and its companions — what the parts of a construct leave
  when each is without comments.
* `ParseTree.map_namesConstructor_leaves` — a node leaves as many nodes as before, and the name of
  a constructor where it did.
-/

namespace TreeMend.ParseTree

/-- A comment: a leaf that may stand anywhere and is no error. -/
def isComment (t : ParseTree) : Bool :=
  t.token.extra && !t.token.error && t.children.isEmpty

mutual

/-- The tree without the comments in it. -/
def uncommented : ParseTree → ParseTree
  | ⟨tok, ts⟩ => ⟨tok, uncommentedList ts⟩

/-- The trees that are no comments, each without the comments in it. -/
def uncommentedList : List ParseTree → List ParseTree
  | [] => []
  | t :: ts => if t.isComment then uncommentedList ts else uncommented t :: uncommentedList ts

end

/-- The comments among some trees fill no place of a rule. -/
def CommentsPlaceless (ts : List ParseTree) : Prop :=
  ∀ c ∈ ts, c.isComment = true → c.token.field = none

/-- The form of an update expression is hidden: it starts with a comment, and what comes first
after the comments is punctuation where the comment is not, or the other way round. -/
structure FormHidden (t : ParseTree) : Prop where
  /-- The node is an update expression. -/
  update : t.kind = "update_expression"
  /-- Its first part says something else than the first one that is no comment. -/
  first : (t.children.find? (!·.isComment)).any (!·.token.named) ≠
    t.children.head?.any (!·.token.named)

instance (ts : List ParseTree) : Decidable (CommentsPlaceless ts) :=
  inferInstanceAs (Decidable (∀ c ∈ ts, c.isComment = true → c.token.field = none))

instance (t : ParseTree) : Decidable t.FormHidden :=
  decidable_of_iff
    (t.kind = "update_expression" ∧ (t.children.find? (!·.isComment)).any (!·.token.named) ≠
      t.children.head?.any (!·.token.named))
    ⟨fun h => ⟨h.1, h.2⟩, fun h => ⟨h.update, h.first⟩⟩

section Uncommented

variable {t c : ParseTree} {ts us : List ParseTree}

@[simp] theorem token_uncommented (t : ParseTree) : t.uncommented.token = t.token := by
  cases t; rfl

@[simp] theorem kind_uncommented (t : ParseTree) : t.uncommented.kind = t.kind := by
  cases t; rfl

@[simp] theorem children_uncommented (t : ParseTree) :
    t.uncommented.children = uncommentedList t.children := by
  cases t; rfl

theorem uncommentedList_cons_comment (h : c.isComment = true) :
    uncommentedList (c :: ts) = uncommentedList ts := by
  rw [uncommentedList, if_pos h]

theorem uncommentedList_cons (h : c.isComment = false) :
    uncommentedList (c :: ts) = c.uncommented :: uncommentedList ts := by
  rw [uncommentedList, h]
  rfl

theorem children_of_isComment (h : c.isComment = true) : c.children = [] := by
  rw [isComment, Bool.and_eq_true] at h
  exact List.isEmpty_iff.mp h.2

theorem fate_of_isComment (h : c.isComment = true) : c.token.fate = .dropped := by
  rw [isComment, Bool.and_eq_true, Bool.and_eq_true, Bool.not_eq_true'] at h
  rw [Token.fate, h.1.2, h.1.1]
  simp

/-- There is no comment in a comment. -/
theorem uncommented_of_isComment (h : c.isComment = true) : c.uncommented = c := by
  obtain ⟨tok, ts⟩ := c
  obtain rfl : ts = [] := children_of_isComment h
  rfl

/-- The first tree that is left is the first that is no comment. -/
theorem head?_uncommentedList (ts : List ParseTree) :
    (uncommentedList ts).head? = (ts.find? (!·.isComment)).map uncommented := by
  induction ts with
  | nil => rfl
  | cons c ts ih =>
    cases hc : c.isComment with
    | true => rw [uncommentedList_cons_comment hc, ih, List.find?_cons_of_neg (by simp [hc])]
    | false =>
      rw [uncommentedList_cons hc, List.find?_cons_of_pos (by simp [hc])]
      rfl

/-! ### Parts in a place -/

theorem CommentsPlaceless.mono (h : CommentsPlaceless ts) (hsub : us ⊆ ts) :
    CommentsPlaceless us :=
  fun c hc => h c (hsub hc)

theorem CommentsPlaceless.child (h : CommentsPlaceless t.subtrees) (hc : c ∈ t.children) :
    CommentsPlaceless c.subtrees :=
  h.mono (subtrees_subset_of_mem hc)

theorem CommentsPlaceless.children (h : CommentsPlaceless t.subtrees) :
    CommentsPlaceless t.children :=
  h.mono fun c hc => subtrees_subset_of_mem hc c.mem_subtrees_self

theorem CommentsPlaceless.tail (h : CommentsPlaceless (c :: ts)) : CommentsPlaceless ts :=
  h.mono (List.subset_cons_self c ts)

theorem CommentsPlaceless.field_beq (h : CommentsPlaceless (c :: ts)) (hc : c.isComment = true)
    (name : String) : (c.token.field == some name) = false := by
  rw [h c List.mem_cons_self hc]
  rfl

theorem find?_uncommentedList (h : CommentsPlaceless ts) (name : String) :
    (uncommentedList ts).find? (·.token.field == some name) =
      (ts.find? (·.token.field == some name)).map uncommented := by
  induction ts with
  | nil => rfl
  | cons c ts ih =>
    cases hc : c.isComment with
    | true =>
      rw [uncommentedList_cons_comment hc, ih h.tail, List.find?_cons, h.field_beq hc]
    | false =>
      rw [uncommentedList_cons hc, List.find?_cons, List.find?_cons, token_uncommented]
      cases c.token.field == some name with
      | true => rfl
      | false => exact ih h.tail

theorem fromField_cons (name : String) (c : ParseTree) (ts : List ParseTree) :
    fromField name (c :: ts) =
      if c.token.field == some name then c :: ts else fromField name ts := by
  rw [fromField, List.dropWhile_cons, bne]
  cases c.token.field == some name <;> rfl

/-- What comes after the part in a place: that part itself is no comment. -/
theorem tail_fromField_uncommentedList (h : CommentsPlaceless ts) (name : String) :
    (fromField name (uncommentedList ts)).tail = uncommentedList (fromField name ts).tail := by
  induction ts with
  | nil => rfl
  | cons c ts ih =>
    rw [fromField_cons]
    cases hc : c.isComment with
    | true =>
      rw [uncommentedList_cons_comment hc, ih h.tail, h.field_beq hc]
      rfl
    | false =>
      rw [uncommentedList_cons hc, fromField_cons, token_uncommented]
      cases c.token.field == some name with
      | true => rfl
      | false => exact ih h.tail

theorem field?_uncommented (h : CommentsPlaceless t.children) (name : String) :
    t.uncommented.field? name = (t.field? name).map uncommented := by
  rw [field?, children_uncommented, find?_uncommentedList h]
  rfl

theorem operatorOf_uncommented (h : CommentsPlaceless t.children) :
    operatorOf t.uncommented = operatorOf t := by
  rw [operatorOf, field?_uncommented h, Option.map_map, operatorOf]
  simp only [Function.comp_def, kind_uncommented]

end Uncommented

/-! ### Shapes -/

section Shapes

variable {src : String} {t : ParseTree}

theorem shapeOf_update_eq (h : t.kind = "update_expression") :
    shapeOf src t = .branch
      (if t.children.head?.any (!·.token.named) then Kind.prefixUnary else Kind.postfixUnary) := by
  rw [shapeOf, h]
  simp only
  split <;> rfl

/-- Without comments an update expression is told by its first part that is no comment. -/
theorem shapeOf_update_uncommented (h : t.kind = "update_expression") :
    shapeOf src t.uncommented = .branch
      (if (t.children.find? (!·.isComment)).any (!·.token.named) then Kind.prefixUnary
        else Kind.postfixUnary) := by
  rw [shapeOf_update_eq (by rw [kind_uncommented, h]), children_uncommented,
    head?_uncommentedList, Option.any_map]
  simp only [token_uncommented]

theorem shapeOf_uncommented (h : CommentsPlaceless t.children) (hform : ¬ t.FormHidden) :
    shapeOf src t.uncommented = shapeOf src t := by
  by_cases hkind : t.kind = "update_expression"
  · have hfirst : (t.children.find? (!·.isComment)).any (!·.token.named) =
        t.children.head?.any (!·.token.named) := by
      by_contra hne
      exact hform ⟨hkind, hne⟩
    rw [shapeOf_update_uncommented hkind, hfirst, shapeOf_update_eq hkind]
  · have hname : ((t.field? "name").map uncommented).any
        (fun name => textOf src name.token == "constructor") =
        (t.field? "name").any fun name => textOf src name.token == "constructor" := by
      cases t.field? "name" <;> simp
    unfold shapeOf
    rw [kind_uncommented, token_uncommented, operatorOf_uncommented h, field?_uncommented h, hname]
    split
    any_goals rfl
    next hk => exact absurd hk hkind

/-- Where the form of an update expression is hidden, it changes with the comments. -/
theorem FormHidden.exists_shapeOf (h : t.FormHidden) (src : String) :
    ∃ k k', shapeOf src t = .branch k ∧ shapeOf src t.uncommented = .branch k' ∧ k' ≠ k ∧
      k ≠ Kind.identifier ∧ k' ≠ Kind.identifier := by
  refine ⟨_, _, shapeOf_update_eq h.update, shapeOf_update_uncommented h.update, ?_⟩
  have hfirst := h.first
  revert hfirst
  cases (t.children.find? (!·.isComment)).any (!·.token.named) <;>
    cases t.children.head?.any (!·.token.named) <;> decide

end Shapes

/-! ### What the parts leave -/

section Parts

variable {src : String} {t c : ParseTree} {ts : List ParseTree}

/-- Leaving out comments makes no difference to a list of what each tree leaves. -/
theorem flatMap_uncommentedList {f : ParseTree → List Node}
    (hf : ∀ c ∈ ts, c.isComment = true → f c = []) :
    (uncommentedList ts).flatMap f = ts.flatMap fun c => f c.uncommented := by
  induction ts with
  | nil => rfl
  | cons c ts ih =>
    have ih := ih fun d hd => hf d (List.mem_cons_of_mem c hd)
    rw [List.flatMap_cons, ← ih]
    cases hc : c.isComment with
    | true =>
      rw [uncommentedList_cons_comment hc, uncommented_of_isComment hc,
        hf c List.mem_cons_self hc, List.nil_append]
    | false => rw [uncommentedList_cons hc, List.flatMap_cons]

theorem lowerChildren_uncommented (h : CommentsPlaceless ts) :
    lowerChildren src (uncommentedList ts) = ts.flatMap fun c => lowerPart src c.uncommented := by
  rw [lowerChildren_eq_flatMap]
  refine flatMap_uncommentedList fun c hc hcomment => ?_
  rw [lowerPart, Token.isDeclaredName, h c hc hcomment,
    lowerInto_dropped src (fate_of_isComment hcomment)]
  rfl

theorem lowerSubstitutions_uncommented :
    lowerSubstitutions src (uncommentedList ts) =
      ts.flatMap fun c => lowerSubstitution src c.uncommented := by
  rw [lowerSubstitutions_eq_flatMap]
  refine flatMap_uncommentedList fun c _ hcomment => ?_
  rw [lowerSubstitution, children_of_isComment hcomment]
  exact ite_self []

theorem lowerField_uncommented (h : CommentsPlaceless ts) (name : String) :
    lowerField src name (uncommentedList ts) =
      match ts.find? (·.token.field == some name) with
      | some c => lowerInto src c.uncommented
      | none => [] := by
  rw [lowerField_eq, find?_uncommentedList h]
  cases ts.find? (·.token.field == some name) <;> rfl

/-! ### How many nodes a node leaves -/

/-- The name of a constructor is told node by node. -/
theorem namesConstructor_eq (ns : List Node) :
    namesConstructor ns = (ns.map fun n => namesConstructor [n]).head?.any id := by
  cases ns <;> rfl

/-- A kept node is the name of a constructor with its comments or without them. -/
theorem map_namesConstructor_kept (h : CommentsPlaceless t.children)
    (hfate : t.token.fate = .kept) :
    (lowerInto src t.uncommented).map (fun n => namesConstructor [n]) =
      (lowerInto src t).map fun n => namesConstructor [n] := by
  have hfate' : t.uncommented.token.fate = .kept := by rw [token_uncommented, hfate]
  by_cases hform : t.FormHidden
  · obtain ⟨k, k', hs, hs', -, hk, hk'⟩ := hform.exists_shapeOf src
    rw [lowerInto_branch src hfate hs, lowerInto_branch src hfate' hs']
    simp [namesConstructor, nodeOf, beq_eq_false_iff_ne.mpr hk, beq_eq_false_iff_ne.mpr hk']
  · rw [lowerInto_eq, lowerInto_eq, hfate, hfate', token_uncommented, shapeOf_uncommented h hform]
    cases shapeOf src t with
    | template =>
      -- substitutions tell apart two kinds, and neither is that of names
      cases lowerSubstitutions src t.uncommented.children <;>
        cases lowerSubstitutions src t.children <;> rfl
    | _ => rfl

/-- A node leaves as many nodes as without the comments in it, and the names of constructors among
them are the same. -/
theorem map_namesConstructor_leaves (h : CommentsPlaceless t.subtrees) (portion : Portion) :
    (leaves src portion t.uncommented).map (fun n => namesConstructor [n]) =
      (leaves src portion t).map fun n => namesConstructor [n] := by
  induction t using ParseTree.inductionOn generalizing portion with
  | step t ih =>
    have hparts : (lowerChildren src t.uncommented.children).map (fun n => namesConstructor [n]) =
        (lowerChildren src t.children).map fun n => namesConstructor [n] := by
      rw [children_uncommented, lowerChildren_uncommented h.children, lowerChildren_eq_flatMap,
        List.map_flatMap, List.map_flatMap]
      refine List.flatMap_congr fun c hc => ?_
      rw [lowerPart, lowerPart, token_uncommented]
      split
      · rfl
      · exact ih c hc (h.child hc) .whole
    cases portion with
    | parts => exact hparts
    | whole =>
      cases hfate : t.token.fate with
      | dropped =>
        rw [leaves, leaves, lowerInto_dropped src hfate,
          lowerInto_dropped src (by rw [token_uncommented, hfate])]
      | spliced =>
        rw [leaves, leaves, lowerInto_spliced src hfate,
          lowerInto_spliced src (by rw [token_uncommented, hfate])]
        exact hparts
      | kept => exact map_namesConstructor_kept h.children hfate

theorem length_leaves_uncommented (h : CommentsPlaceless t.subtrees) (portion : Portion) :
    (leaves src portion t.uncommented).length = (leaves src portion t).length := by
  simpa using congrArg List.length (map_namesConstructor_leaves h portion)

theorem namesConstructor_uncommented (h : CommentsPlaceless t.subtrees) :
    namesConstructor (lowerChildren src (uncommentedList t.children)) =
      namesConstructor (lowerChildren src t.children) := by
  have hmap : (lowerChildren src t.uncommented.children).map (fun n => namesConstructor [n]) =
      (lowerChildren src t.children).map fun n => namesConstructor [n] :=
    map_namesConstructor_leaves h .parts
  rw [children_uncommented] at hmap
  rw [namesConstructor_eq, hmap, ← namesConstructor_eq]

end Parts

end TreeMend.ParseTree
