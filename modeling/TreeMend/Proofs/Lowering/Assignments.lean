import TreeMend.Proofs.Lowering.Paths
import TreeMend.Proofs.Reassignment.Search
import TreeMend.Proofs.Text.Words

/-!
# Assignments are seen through lowering

An assignment somewhere in a parse tree keeps a `let` declaration of its target from becoming
constant, as long as lowering keeps the path to it: it stands in the generic tree with its target
in front and its operator behind it, outside of any declaration that it was not part of.

## Main definitions

* `ParseTree.AssignsName`, `ParseTree.DeclaresName` — a parse node that assigns to a name, and a
  declaration that binds one.

## Main results

* `ParseTree.assignsTo_of_assignsName`, `ParseTree.declares_of_declaresName` — lowering keeps
  assignments and declarations.
* `ParseTree.replacement_eq_none_of_assigned` — **an assigned name is not made constant**.
-/

namespace TreeMend

/-! ### Signs -/

namespace Text

/-- The sign of an increment or a decrement is not trimmed away. -/
theorem sign_trim {sign cs : List Char} (hsign : sign ∈ [['+', '+'], ['-', '-']])
    (h : sign <+: cs ∨ sign <:+ cs) : sign <+: trim cs ∨ sign <:+ trim cs := by
  have hplus : isBlank '+' = false := by decide
  have hminus : isBlank '-' = false := by decide
  rcases List.mem_cons.mp hsign with rfl | hsign
  · exact h.imp (prefix_trim hplus hplus) (suffix_trim hplus hplus)
  · rw [List.mem_singleton.mp hsign] at h ⊢
    exact h.imp (prefix_trim hminus hminus) (suffix_trim hminus hminus)

end Text

namespace ParseTree

/-! ### Assignments and declarations in a parse tree -/

/-- The operators that compute and assign. -/
def compoundOperators : List String :=
  ["+=", "-=", "*=", "**=", "/=", "%=", "<<=", ">>=", ">>>=", "&=", "|=", "^=", "&&=", "||=", "??="]

variable (src : String)

/-- The node is the plain name `name`. -/
structure IsName (u : ParseTree) (name : String) : Prop where
  /-- It is an identifier. -/
  kind : u.kind = "identifier"
  /-- It is named. -/
  named : u.token.named = true
  /-- It is not extra. -/
  extra : u.token.extra = false
  /-- It is spelled so. -/
  text : textOf src u.token = name

/-- The node assigns to `name`: an assignment, perhaps with a compound operator, whose left operand
is the name, or an increment or decrement with the name as its only part. -/
def AssignsName (a : ParseTree) (name : String) : Prop :=
  ((a.kind = "assignment_expression" ∨
      (a.kind = "augmented_assignment_expression" ∧ operatorOf a ∈ compoundOperators)) ∧
    ∃ left, a.field? "left" = some left ∧ IsName src left name) ∨
  (a.kind = "update_expression" ∧ (∀ c ∈ a.children, c.token.error = false) ∧
    (∃ id, a.children.filter (·.token.isSignificant) = [id] ∧ IsName src id name) ∧
    ∃ sign ∈ [['+', '+'], ['-', '-']],
      sign <+: (textOf src a.token).toList ∨ sign <:+ (textOf src a.token).toList)

/-- The node is a `let` or `const` declaration, one of whose bindings starts with `name`. -/
def DeclaresName (d : ParseTree) (name : String) : Prop :=
  d.kind = "lexical_declaration" ∧ ∃ v ∈ d.children, v.kind = "variable_declarator" ∧
    ∃ id, v.children.find? (·.token.named) = some id ∧ id.kind = "identifier" ∧
      textOf src id.token = name

variable {src} {u a : ParseTree} {name : String}

/-- A name is lowered to a name. -/
theorem IsName.lowerPart (h : IsName src u name) :
    lowerPart src u = [⟨Kind.identifier, name, u.token.span, []⟩] := by
  have hsignificant : u.token.isSignificant = true := by
    rw [Token.isSignificant, h.named, h.extra]
    rfl
  have hmem : (u.kind, Shape.leaf Kind.identifier) ∈ fixedShapes := by rw [h.kind]; decide
  rw [lowerPart_leaf src hsignificant hmem, nodeOf, h.text]

theorem IsName.lowerInto (h : IsName src u name) :
    lowerInto src u = [⟨Kind.identifier, name, u.token.span, []⟩] := by
  rw [← lowerPart_eq_lowerInto src (by rw [h.kind]; decide), h.lowerPart]

theorem isAssignmentOperator_of_mem {operator : String} (h : operator ∈ compoundOperators) :
    (operatorKind operator).isAssignmentOperator = true := by
  have hall : ∀ o ∈ compoundOperators, (operatorKind o).isAssignmentOperator = true := by decide
  exact hall operator h

/-- An assignment is lowered to an assignment. -/
theorem assignsTo_of_assignsName (h : AssignsName src a name)
    (hregular : ∀ p u, a.get? p = some u → u.token.Regular) (hfate : a.token.fate = .kept)
    {n : Node} (hn : lowerInto src a = [n]) : Reassignment.AssignsTo n name := by
  rcases h with ⟨hkind, left, hfield, hname⟩ |
    ⟨hkind, herror, ⟨id, hfilter, hname⟩, sign, hsign, htext⟩
  · -- the name is the left operand, and the operator stands behind it
    obtain ⟨k, hs, hassigns⟩ : ∃ k, shapeOf src a = .operands k ∧
        k.isAssignmentOperator = true := by
      rcases hkind with hkind | ⟨hkind, hoperator⟩
      · exact ⟨Kind.equalsToken, shapeOf_of_mem src (by rw [hkind]; decide), by decide⟩
      · exact ⟨_, shapeOf_augmentedAssignment src hkind, isAssignmentOperator_of_mem hoperator⟩
    have hleft : lowerField src "left" a.children =
        [⟨Kind.identifier, name, left.token.span, []⟩] := by
      rw [lowerField_of_field? src hfield, hname.lowerInto]
    rw [lowerInto_operands src hfate hs, hleft] at hn
    obtain rfl := List.singleton_inj.mp hn
    refine ⟨_, rfl, rfl, rfl, Or.inl ⟨rfl, _, rfl, ?_⟩⟩
    rw [kind_operatorNode]
    exact hassigns
  · -- the name is the only part, and the sign is in the text
    have hchildren : lowerChildren src a.children =
        [⟨Kind.identifier, name, id.token.span, []⟩] := by
      have hparts : ∀ c ∈ a.children, c.token.Regular := by
        intro c hc
        obtain ⟨i, hi⟩ := List.mem_iff_getElem?.mp hc
        exact hregular [i] c (get?_cons_eq_some.mpr ⟨c, hi, rfl⟩)
      rw [lowerChildren_eq_filter hparts herror, hfilter, List.flatMap_singleton]
      exact hname.lowerPart
    obtain ⟨k, hs, hk⟩ : ∃ k, shapeOf src a = .branch k ∧
        (k = Kind.prefixUnary ∨ k = Kind.postfixUnary) := by
      rcases shapeOf_update src hkind with hs | hs
      · exact ⟨_, hs, Or.inl rfl⟩
      · exact ⟨_, hs, Or.inr rfl⟩
    rw [lowerInto_branch src hfate hs, hchildren] at hn
    obtain rfl := List.singleton_inj.mp hn
    exact ⟨_, rfl, rfl, rfl, Or.inr ⟨hk, sign, hsign, Text.sign_trim hsign htext⟩⟩

/-- The first named part of a construct is the first that leaves anything, if it is a name. -/
theorem head?_lowerChildren {ts : List ParseTree} (hregular : ∀ c ∈ ts, c.token.Regular)
    (hfind : ts.find? (·.token.named) = some u) (hkind : u.kind = "identifier")
    (htext : textOf src u.token = name) :
    (lowerChildren src ts).head? = some ⟨Kind.identifier, name, u.token.span, []⟩ := by
  obtain ⟨hnamed, before, after, rfl, hbefore⟩ := List.find?_eq_some_iff_append.mp hfind
  have hname : IsName src u name := by
    have hu : u ∈ before ++ u :: after := List.mem_append_right before List.mem_cons_self
    obtain ⟨-, hextra⟩ := (hregular u hu).named (by rw [show u.token.kind = _ from hkind]; decide)
    exact ⟨hkind, hnamed, hextra, htext⟩
  -- what comes before it is neither named nor an error
  have hnone : ∀ c ∈ before, lowerPart src c = [] := by
    intro c hc
    have hcnamed : c.token.named = false := by simpa using hbefore c hc
    have hcregular := hregular c (List.mem_append_left _ hc)
    have hcerror : c.token.error = false := by
      rw [← Bool.not_eq_true]
      intro herror
      rw [hcregular.error herror] at hcnamed
      cases hcnamed
    refine lowerPart_of_not_isSignificant src hcregular hcerror ?_
    rw [Token.isSignificant, hcnamed, Bool.false_and]
  rw [lowerChildren_eq_flatMap, List.flatMap_append, List.flatMap_eq_nil_iff.mpr hnone,
    List.nil_append, List.flatMap_cons, hname.lowerPart]
  rfl

/-- A declaration is lowered to one of the same name. -/
theorem declares_of_declaresName {d : ParseTree} {list : Node} (h : DeclaresName src d name)
    (hregular : ∀ p u, d.get? p = some u → u.token.Regular)
    (hlist : list.children = lowerChildren src d.children) : Reassignment.Declares list name := by
  obtain ⟨-, v, hv, hkind, id, hfind, hid, htext⟩ := h
  obtain ⟨i, hi⟩ := List.mem_iff_getElem?.mp hv
  have hvregular : ∀ p u, v.get? p = some u → u.token.Regular :=
    fun p u hu => hregular (i :: p) u (get?_cons_eq_some.mpr ⟨v, hi, hu⟩)
  have hparts : ∀ c ∈ v.children, c.token.Regular := by
    intro c hc
    obtain ⟨j, hj⟩ := List.mem_iff_getElem?.mp hc
    exact hvregular [j] c (get?_cons_eq_some.mpr ⟨c, hj, rfl⟩)
  have hsignificant : v.token.isSignificant = true := by
    obtain ⟨hnamed, hextra⟩ :=
      (hvregular [] v rfl).named (by rw [show v.token.kind = _ from hkind]; decide)
    rw [Token.isSignificant, hnamed, hextra]
    rfl
  have hlower : lowerPart src v =
      [nodeOf src Kind.declaration v.token (lowerChildren src v.children)] := by
    have hmem : (v.kind, Shape.branch Kind.declaration) ∈ fixedShapes := by rw [hkind]; decide
    obtain ⟨hfate, hs, hpart⟩ := kept_of_mem src hsignificant hmem
    rw [hpart, lowerInto_branch src hfate hs]
  refine ⟨nodeOf src Kind.declaration v.token (lowerChildren src v.children), ?_, rfl, _,
    head?_lowerChildren hparts hfind hid htext, rfl, rfl⟩
  rw [hlist, lowerChildren_eq_flatMap]
  exact List.mem_flatMap.mpr ⟨v, hv, by rw [hlower]; exact List.mem_singleton_self _⟩

/-! ### The search in the generic tree -/

/-- **An assigned name is not made constant.**  In the tree of a file, let a node that assigns to a
name be at the end of a path that lowering keeps, and let a declaration of that name that is lowered
not contain it.  Then the rule on reassignment has no new text for the list of the declaration. -/
theorem replacement_eq_none_of_assigned {t a d : ParseTree} {p p' q : Position}
    (ht : Grammatical t) (ha : t.get? p = some a) (hassigns : AssignsName src a name)
    (hpath : KeepsPath t p) (hd : t.get? p' = some d) (hdeclares : DeclaresName src d name)
    (hplace : place src .parts t p' = some q) (hout : ¬ p' <+: p) :
    ∃ list, (lowerProgram src t).get? q =
        some (variableStatementNode src d.token (lowerChildren src d.children)) ∧
      (lowerProgram src t).get? (q ++ [0]) = some list ∧ list.kind = Kind.declarationList ∧
      list.children = lowerChildren src d.children ∧
      Reassignment.replacement (lowerProgram src t) (q ++ [0]) list = none := by
  have hkind : a.kind ∈ ["assignment_expression", "augmented_assignment_expression",
      "update_expression"] := by
    rcases hassigns with ⟨hkind | ⟨hkind, -⟩, -⟩ | ⟨hkind, -⟩ <;> simp [hkind]
  have hkinds : ∀ k ∈ ["assignment_expression", "augmented_assignment_expression",
      "update_expression"], k ∉ leafRules ∧ k ∉ splicedRules ∧ k ≠ "program" ∧ k ≠ "ERROR" := by
    decide
  obtain ⟨hleaf, hspliced, hprogram, herror⟩ := hkinds a.kind hkind
  have hproper : p ≠ [] := by
    rintro rfl
    obtain rfl := Option.some.inj ha
    exact ht.root.elim hprogram herror
  -- the assignment stands in the generic tree, and not inside the list
  obtain ⟨k, r, -, hq', -⟩ : ∃ k r n, place src .parts t p = some (k :: r) ∧
      (leaves src .parts t)[k]? = some n ∧ n.kind ≠ Kind.identifier :=
    exists_place src ha hleaf hspliced ht.regular hpath nofun fun _ => hproper
  obtain ⟨n, hn, hfate, hlower⟩ := nodeIn_place ha hq'
  have haregular : ∀ r u, a.get? r = some u → u.token.Regular := fun r u hu =>
    ht.regular (p ++ r) u (by rw [get?_append, ha]; exact hu)
  have hassignsTo := assignsTo_of_assignsName hassigns haregular hfate hlower
  have houtside : ¬ (q ++ [0]) <+: k :: r := by
    intro hbelow
    have hq : q <+: k :: r := (List.prefix_append q [0]).trans hbelow
    apply hout
    exact prefix_of_place_prefix hd ha hplace hq' hq
  -- the declaration stands in the generic tree, with its list below it
  obtain ⟨s, hs, hdfate, hdlower⟩ := nodeIn_place hd hplace
  have hdshape : shapeOf src d = .variableStatement :=
    shapeOf_of_mem src (by rw [hdeclares.1]; decide)
  rw [lowerInto_variableStatement src hdfate hdshape] at hdlower
  obtain rfl := List.singleton_inj.mp hdlower
  have hstatement := get?_lowerProgram hs
  have hdregular : ∀ r u, d.get? r = some u → u.token.Regular := fun r u hu =>
    ht.regular (p' ++ r) u (by rw [get?_append, hd]; exact hu)
  obtain ⟨list, hget, hlistkind, hchildren⟩ : ∃ list,
      (lowerProgram src t).get? (q ++ [0]) = some list ∧ list.kind = Kind.declarationList ∧
        list.children = lowerChildren src d.children := by
    rw [Node.get?_append, hstatement]
    exact ⟨_, rfl, rfl, rfl⟩
  refine ⟨list, hstatement, hget, hlistkind, hchildren, ?_⟩
  rw [Option.eq_none_iff_forall_ne_some]
  intro text htext
  obtain ⟨-, -, names, hnames, -, hnever⟩ := Reassignment.replacement_eq_some_iff.mp htext
  have hdeclared := declares_of_declaresName hdeclares hdregular hchildren
  exact Reassignment.isNeverReassigned_eq_true_iff.mp hnever (k :: r) n (get?_lowerProgram hn)
    houtside name (Reassignment.mem_of_boundNames? hnames hdeclared) hassignsTo

/-- A source with an increment in a constructor. -/
def countingSource : String := "let n = 1; class C \x7b constructor() \x7b n++; \x7d \x7d"

/-- The parse tree of `countingSource`. -/
def countingTree : ParseTree :=
  ⟨⟨"program", true, false, false, false, 0, 45, none⟩, [
    ⟨⟨"lexical_declaration", true, false, false, false, 0, 10, none⟩, [
      ⟨⟨"let", false, false, false, false, 0, 3, some "kind"⟩, []⟩,
      ⟨⟨"variable_declarator", true, false, false, false, 4, 9, none⟩, [
        ⟨⟨"identifier", true, false, false, false, 4, 5, some "name"⟩, []⟩,
        ⟨⟨"=", false, false, false, false, 6, 7, none⟩, []⟩,
        ⟨⟨"number", true, false, false, false, 8, 9, some "value"⟩, []⟩]⟩,
      ⟨⟨";", false, false, false, false, 9, 10, none⟩, []⟩]⟩,
    ⟨⟨"class_declaration", true, false, false, false, 11, 45, none⟩, [
      ⟨⟨"class", false, false, false, false, 11, 16, none⟩, []⟩,
      ⟨⟨"type_identifier", true, false, false, false, 17, 18, some "name"⟩, []⟩,
      ⟨⟨"class_body", true, false, false, false, 19, 45, some "body"⟩, [
        ⟨⟨"\x7b", false, false, false, false, 19, 20, none⟩, []⟩,
        ⟨⟨"method_definition", true, false, false, false, 21, 43, none⟩, [
          ⟨⟨"property_identifier", true, false, false, false, 21, 32, some "name"⟩, []⟩,
          ⟨⟨"formal_parameters", true, false, false, false, 32, 34, some "parameters"⟩, []⟩,
          ⟨⟨"statement_block", true, false, false, false, 35, 43, some "body"⟩, [
            ⟨⟨"\x7b", false, false, false, false, 35, 36, none⟩, []⟩,
            ⟨⟨"expression_statement", true, false, false, false, 37, 41, none⟩, [
              ⟨⟨"update_expression", true, false, false, false, 37, 40, none⟩, [
                ⟨⟨"identifier", true, false, false, false, 37, 38, some "argument"⟩, []⟩,
                ⟨⟨"++", false, false, false, false, 38, 40, some "operator"⟩, []⟩]⟩,
              ⟨⟨";", false, false, false, false, 40, 41, none⟩, []⟩]⟩,
            ⟨⟨"\x7d", false, false, false, false, 42, 43, none⟩, []⟩]⟩]⟩,
        ⟨⟨"\x7d", false, false, false, false, 44, 45, none⟩, []⟩]⟩]⟩]⟩

theorem replacement_countingTree : Grammatical countingTree ∧
    KeepsPath countingTree [1, 2, 1, 2, 1, 0] ∧
    place countingSource .parts countingTree [0] = some [0] ∧
    ∃ list, (lowerProgram countingSource countingTree).get? [0, 0] = some list ∧
      list.text = "let n = 1" ∧
      Reassignment.replacement (lowerProgram countingSource countingTree) [0, 0] list = none := by
  have hgrammatical : Grammatical countingTree := .of_listing (Or.inl rfl) (by decide +kernel)
  have hpath : KeepsPath countingTree [1, 2, 1, 2, 1, 0] := by
    refine ⟨_, rfl, ⟨by decide, by decide, by decide⟩, Or.inr ⟨rfl, rfl, by decide⟩, ?_⟩
    refine ⟨_, rfl, ⟨by decide, by decide, by decide⟩, Or.inr ⟨rfl, rfl, by decide⟩, ?_⟩
    refine ⟨_, rfl, ⟨by decide, by decide, by decide⟩, Or.inr ⟨rfl, rfl, by decide⟩, ?_⟩
    refine ⟨_, rfl, ⟨by decide, by decide, by decide⟩, Or.inr ⟨rfl, rfl, by decide⟩, ?_⟩
    refine ⟨_, rfl, ⟨by decide, by decide, by decide⟩, Or.inr ⟨rfl, rfl, by decide⟩, ?_⟩
    exact ⟨_, rfl, ⟨by decide, by decide, by decide⟩, Or.inr ⟨rfl, rfl, by decide⟩, trivial⟩
  have hplace : place countingSource .parts countingTree [0] = some [0] := by decide +kernel
  obtain ⟨a, ha⟩ : ∃ a, countingTree.get? [1, 2, 1, 2, 1, 0] = some a := ⟨_, rfl⟩
  obtain ⟨d, hd⟩ : ∃ d, countingTree.get? [0] = some d := ⟨_, rfl⟩
  have hassigns : AssignsName countingSource a "n" := by
    obtain rfl := Option.some.inj ha
    refine Or.inr ⟨rfl, by decide, ⟨_, rfl, ⟨rfl, rfl, rfl, by decide +kernel⟩⟩,
      ['+', '+'], by decide, ?_⟩
    decide +kernel
  have hdeclares : DeclaresName countingSource d "n" := by
    obtain rfl := Option.some.inj hd
    exact ⟨rfl, _, List.mem_cons_of_mem _ List.mem_cons_self, rfl, _, rfl, rfl, by decide +kernel⟩
  have hout : ¬ [0] <+: [1, 2, 1, 2, 1, 0] := by decide
  obtain ⟨list, -, hlist, -, -, hnone⟩ := replacement_eq_none_of_assigned hgrammatical ha hassigns
    hpath hd hdeclares hplace hout
  have htext : ((lowerProgram countingSource countingTree).get? [0, 0]).map (·.text) =
      some "let n = 1" := by decide +kernel
  rw [show (lowerProgram countingSource countingTree).get? [0, 0] = some list from hlist] at htext
  exact ⟨hgrammatical, hpath, hplace, list, hlist, Option.some.inj htext, hnone⟩

end ParseTree

end TreeMend
