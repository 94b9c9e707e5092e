import TreeMend.Proofs.Literal.Reading
import TreeMend.Proofs.Program.Building
import TreeMend.Proofs.Supported.Language

/-!
# Expressions of the supported language

A parse tree of the supported language goes through lowering and through reading the generic tree,
and comes out as what it stands for: lowering puts at each place what the reader looks for there,
wherever comments and punctuation stand.

## Main definitions

* `ParseTree.Clean` — the assumptions on all nodes of a tree.
* `ParseTree.Simulates` — a parse node is lowered to a node that is read as a given construct.

## Main results

* `ParseTree.simulates_assignment` and its companions — one lemma for each construct.
* `ParseTree.exists_simulates_expression` — an expression is lowered to what it stands for.
-/

namespace TreeMend

namespace ParseTree

/-- All nodes of a tree are as the grammar promises, none is an error, and the offsets are as
assumed. -/
def Clean (src : String) (t : ParseTree) : Prop :=
  ∀ p u, t.get? p = some u → u.token.Regular ∧ u.token.error = false ∧ Located src u

/-- A parse node is lowered to one node, over the same range, that is read as `c`. -/
def Simulates (src : String) (t : ParseTree) (c : Construct) : Prop :=
  ∃ n, lowerInto src t = [n] ∧ lowerPart src t = [n] ∧ n.span = t.token.span ∧
    ∀ depth, (n.build depth).outcome = .ok (some c)

variable {src : String} {t c : ParseTree}

namespace Clean

theorem child (h : Clean src t) (hc : c ∈ t.children) : Clean src c := by
  obtain ⟨i, hi⟩ := List.mem_iff_getElem?.mp hc
  exact fun p u hu => h (i :: p) u (get?_cons_eq_some.mpr ⟨c, hi, hu⟩)

theorem part (h : Clean src t) (hc : c ∈ t.significant) : Clean src c :=
  h.child (List.mem_filter.mp hc).1

theorem error (h : Clean src t) : t.token.error = false := (h [] t rfl).2.1

theorem located (h : Clean src t) : Located src t := (h [] t rfl).2.2

/-- Only the parts of a node leave anything. -/
theorem lowerChildren_eq (h : Clean src t) :
    lowerChildren src t.children = t.significant.flatMap (lowerPart src) := by
  refine lowerChildren_eq_filter (fun c hc => ?_) fun c hc => (h.child hc).error
  exact (h.child hc [] c rfl).1

end Clean

/-! ### Kept and spliced parts -/

/-- A node that is kept is lowered to one node. -/
theorem simulates_of_lowerInto {n : Node} {k : Construct}
    (hpart : lowerPart src t = lowerInto src t) (hlower : lowerInto src t = [n])
    (hspan : n.span = t.token.span)
    (hbuild : ∀ depth, (n.build depth).outcome = .ok (some k)) : Simulates src t k :=
  ⟨n, hlower, hpart.trans hlower, hspan, hbuild⟩

/-- A wrapper leaves what its parts leave. -/
theorem lowerPart_of_spliced (h : Clean src t) (hsignificant : t.token.isSignificant = true)
    (hkind : t.kind ∈ splicedRules) :
    lowerPart src t = t.significant.flatMap (lowerPart src) := by
  rw [lowerPart_of_mem_splicedRules src h.error hsignificant hkind, h.lowerChildren_eq]

/-! ### Expressions -/

/-- A part that is read as an expression. -/
theorem outcome_buildExpression_of_getElem? {n : Node} {e : Expression}
    (hbuild : ∀ depth, (n.build depth).outcome = .ok (some (.expression e))) {i : Nat}
    {parts : List Node} (hn : parts[i]? = some n) (depth : Nat) (parent : Kind) (role : Role) :
    (Node.buildExpression depth parent role i parts).outcome = .ok e := by
  rw [Node.outcome_buildExpression, hn]
  simp only [hbuild, Except.bind]
  rfl

theorem simulates_identifier (src : String) (hkind : t.kind = "identifier")
    (hsignificant : t.token.isSignificant = true) :
    Simulates src t (.expression (.name (textOf src t.token))) := by
  have hmem : (t.kind, Shape.leaf Kind.identifier) ∈ fixedShapes := by rw [hkind]; decide
  obtain ⟨hfate, hs, hpart⟩ := kept_of_mem src hsignificant hmem
  refine simulates_of_lowerInto hpart (lowerInto_leaf src hfate hs) rfl fun depth => ?_
  rw [Node.outcome_build_identifier depth (by rfl)]
  rfl

/-- A string in the source can be read. -/
theorem exists_ofSource? (h : Located src t) (hkind : t.kind = "string")
    (hsignificant : t.token.isSignificant = true) :
    ∃ l, Literal.ofSource? (textOf src t.token) = some l := by
  have hnamed : t.token.named = true := by
    rw [Token.isSignificant, Bool.and_eq_true] at hsignificant
    exact hsignificant.1
  obtain ⟨q, body, htext⟩ := h.quoted hkind hnamed
  exact ⟨_, by rw [htext]; exact Literal.ofSource?_quoted q body⟩

theorem literal_nodeOf {l : Literal} (h : Literal.ofSource? (textOf src t.token) = some l) :
    (nodeOf src Kind.stringLiteral t.token []).literal = .ok l := by
  rw [Node.literal, if_pos (by rfl), show (nodeOf src Kind.stringLiteral t.token []).text =
    textOf src t.token from rfl, h]

theorem simulates_string {l : Literal} (hkind : t.kind = "string")
    (hl : Literal.ofSource? (textOf src t.token) = some l)
    (hsignificant : t.token.isSignificant = true) :
    Simulates src t (.expression (.literal l)) := by
  have hmem : (t.kind, Shape.leaf Kind.stringLiteral) ∈ fixedShapes := by rw [hkind]; decide
  obtain ⟨hfate, hs, hpart⟩ := kept_of_mem src hsignificant hmem
  refine simulates_of_lowerInto hpart (lowerInto_leaf src hfate hs) rfl fun depth => ?_
  rw [Node.outcome_build_stringLiteral depth (by rfl), literal_nodeOf hl]
  rfl

theorem simulates_assignment {u v : ParseTree} {target value : Expression}
    (hkind : t.kind = "assignment_expression") (hsignificant : t.token.isSignificant = true)
    (hleft : t.field? "left" = some u) (hright : t.field? "right" = some v)
    (hu : Simulates src u (.expression target)) (hv : Simulates src v (.expression value)) :
    Simulates src t (.expression (.assign target value)) := by
  have hmem : (t.kind, Shape.operands Kind.equalsToken) ∈ fixedShapes := by rw [hkind]; decide
  obtain ⟨hfate, hs, hpart⟩ := kept_of_mem src hsignificant hmem
  obtain ⟨m, hm, -, -, htarget⟩ := hu
  obtain ⟨n, hn, -, -, hvalue⟩ := hv
  have hlower := lowerInto_operands src hfate hs
  rw [lowerField_of_field? src hleft, lowerField_of_field? src hright, hm, hn] at hlower
  refine simulates_of_lowerInto hpart hlower rfl fun depth => ?_
  set parts := [m] ++ operatorNode src Kind.equalsToken t.children :: [n] with hparts
  -- the operator between the operands is the one that the rule stands for
  have hoperator : (Node.checkOperator Kind.binaryExpression parts).outcome = .ok () := by
    rw [hparts, List.singleton_append, Node.checkOperator, kind_operatorNode]
    rfl
  have hfirst := outcome_buildExpression_of_getElem? htarget (show parts[0]? = some m from rfl)
  have hlast := outcome_buildExpression_of_getElem? hvalue (show parts[2]? = some n from rfl)
  rw [Node.outcome_build_binaryExpression depth (by rfl)]
  simp only [nodeOf, hoperator, hfirst, hlast, Except.bind]

/-- The parts of a call are the callee and what the arguments leave. -/
theorem lowerChildren_call {u v : ParseTree} (h : Clean src t) (hparts : t.significant = [u, v])
    (hrule : v.kind = "arguments") {m : Node} (hm : lowerPart src u = [m]) :
    lowerChildren src t.children = m :: v.significant.flatMap (lowerPart src) := by
  have hv : v ∈ t.significant := by rw [hparts]; simp
  have harguments := lowerPart_of_spliced (h.part hv) (isSignificant_of_mem hv)
    (by rw [hrule]; decide)
  rw [h.lowerChildren_eq, hparts, List.flatMap_cons, List.flatMap_singleton, hm, harguments,
    List.singleton_append]

theorem simulates_call {u v : ParseTree} {callee : Expression} (h : Clean src t)
    (hkind : t.kind = "call_expression") (hsignificant : t.token.isSignificant = true)
    (hparts : t.significant = [u, v]) (hrule : v.kind = "arguments")
    (hu : Simulates src u (.expression callee)) (hv : v.significant = []) :
    Simulates src t (.expression (.call callee)) := by
  have hmem : (t.kind, Shape.branch Kind.callExpression) ∈ fixedShapes := by rw [hkind]; decide
  obtain ⟨hfate, hs, hpart⟩ := kept_of_mem src hsignificant hmem
  obtain ⟨m, -, hm, -, hcallee⟩ := hu
  have hlower := lowerInto_branch src hfate hs
  rw [lowerChildren_call h hparts hrule hm, hv, List.flatMap_nil] at hlower
  refine simulates_of_lowerInto hpart hlower rfl fun depth => ?_
  have hfirst := outcome_buildExpression_of_getElem? hcallee (show [m][0]? = some m from rfl)
  rw [Node.outcome_build_callExpression depth (by rfl)]
  simp [nodeOf, hfirst, Except.bind]

theorem simulates_callWith {u v a : ParseTree} {callee argument : Expression} (h : Clean src t)
    (hkind : t.kind = "call_expression") (hsignificant : t.token.isSignificant = true)
    (hparts : t.significant = [u, v]) (hrule : v.kind = "arguments")
    (hu : Simulates src u (.expression callee)) (hv : v.significant = [a])
    (ha : Simulates src a (.expression argument)) :
    Simulates src t (.expression (.callWith callee argument)) := by
  have hmem : (t.kind, Shape.branch Kind.callExpression) ∈ fixedShapes := by rw [hkind]; decide
  obtain ⟨hfate, hs, hpart⟩ := kept_of_mem src hsignificant hmem
  obtain ⟨m, -, hm, -, hcallee⟩ := hu
  obtain ⟨n, -, hn, -, hargument⟩ := ha
  have hlower := lowerInto_branch src hfate hs
  rw [lowerChildren_call h hparts hrule hm, hv, List.flatMap_singleton, hn] at hlower
  refine simulates_of_lowerInto hpart hlower rfl fun depth => ?_
  have hfirst := outcome_buildExpression_of_getElem? hcallee (show [m, n][0]? = some m from rfl)
  have hsecond := outcome_buildExpression_of_getElem? hargument
    (show [m, n][1]? = some n from rfl)
  rw [Node.outcome_build_callExpression depth (by rfl)]
  simp [nodeOf, hfirst, hsecond, Except.bind]

theorem simulates_member {u v : ParseTree} {object : Expression} (h : Clean src t)
    (hkind : t.kind = "member_expression") (hsignificant : t.token.isSignificant = true)
    (hparts : t.significant = [u, v]) (hrule : v.kind = "property_identifier")
    (hu : Simulates src u (.expression object)) :
    Simulates src t (.expression (.member object (textOf src v.token))) := by
  have hmem : (t.kind, Shape.branch Kind.propertyAccess) ∈ fixedShapes := by rw [hkind]; decide
  obtain ⟨hfate, hs, hpart⟩ := kept_of_mem src hsignificant hmem
  obtain ⟨m, -, hm, -, hobject⟩ := hu
  have hv : v.token.isSignificant = true := isSignificant_of_mem (t := t) (by rw [hparts]; simp)
  set n := nodeOf src Kind.identifier v.token [] with hn
  have hproperty : lowerPart src v = [n] := lowerPart_leaf src hv (by rw [hrule]; decide)
  have hmember : ∀ depth, (n.build depth).outcome =
      .ok (some (.expression (.name (textOf src v.token)))) := by
    intro depth
    rw [Node.outcome_build_identifier depth (by rfl)]
    rfl
  have hlower := lowerInto_branch src hfate hs
  rw [h.lowerChildren_eq, hparts, List.flatMap_cons, List.flatMap_singleton, hm, hproperty,
    List.singleton_append] at hlower
  refine simulates_of_lowerInto hpart hlower rfl fun depth => ?_
  have hfirst := outcome_buildExpression_of_getElem? hobject (show [m, n][0]? = some m from rfl)
  have hsecond := outcome_buildExpression_of_getElem? hmember (show [m, n][1]? = some n from rfl)
  rw [Node.outcome_build_propertyAccess depth (by rfl)]
  simp [nodeOf, hfirst, hsecond, Except.bind, Node.asMemberName]

/-- An expression of the supported language is lowered to what it stands for. -/
theorem exists_simulates_expression (h : IsExpression t) (hclean : Clean src t)
    (hsignificant : t.token.isSignificant = true) :
    ∃ e, readExpression? src t = some e ∧ Simulates src t (.expression e) := by
  induction h with
  | identifier hkind =>
    exact ⟨_, readExpression?_identifier hkind, simulates_identifier src hkind hsignificant⟩
  | string hkind =>
    obtain ⟨l, hl⟩ := exists_ofSource? hclean.located hkind hsignificant
    refine ⟨.literal l, ?_, simulates_string hkind hl hsignificant⟩
    rw [readExpression?_string hkind, readString?, hl]
    rfl
  | @assignment t u v hkind hparts hleft hright _ _ iht ihv =>
    have hu : u ∈ t.significant := by rw [hparts]; simp
    have hv : v ∈ t.significant := by rw [hparts]; simp
    obtain ⟨target, htarget, hsimt⟩ := iht (hclean.part hu) (isSignificant_of_mem hu)
    obtain ⟨value, hvalue, hsimv⟩ := ihv (hclean.part hv) (isSignificant_of_mem hv)
    exact ⟨_, readExpression?_assignment hkind hleft hright htarget hvalue,
      simulates_assignment hkind hsignificant hleft hright hsimt hsimv⟩
  | @call t u v hkind hparts hfunction harguments hrule hcount _ _ ihc iha =>
    have hu : u ∈ t.significant := by rw [hparts]; simp
    have hv : v ∈ t.significant := by rw [hparts]; simp
    obtain ⟨callee, hcallee, hsimc⟩ := ihc (hclean.part hu) (isSignificant_of_mem hu)
    obtain ⟨hnone, hone⟩ := readExpression?_call hkind hfunction harguments hcallee
    -- the arguments hold at most one part
    match hsig : v.significant with
    | [] =>
      exact ⟨_, hnone hsig,
        simulates_call hclean hkind hsignificant hparts hrule hsimc hsig⟩
    | [a] =>
      have ha : a ∈ v.significant := by rw [hsig]; simp
      obtain ⟨argument, hargument, hsima⟩ :=
        iha a ha ((hclean.part hv).part ha) (isSignificant_of_mem ha)
      exact ⟨_, hone a argument hsig hargument,
        simulates_callWith hclean hkind hsignificant hparts hrule hsimc hsig hsima⟩
    | _ :: _ :: _ =>
      rw [hsig] at hcount
      simp at hcount
  | @member t u v hkind hparts hobject hproperty hrule _ iho =>
    have hu : u ∈ t.significant := by rw [hparts]; simp
    obtain ⟨object, hread, hsimo⟩ := iho (hclean.part hu) (isSignificant_of_mem hu)
    exact ⟨_, readExpression?_member hkind hobject hproperty hread,
      simulates_member hclean hkind hsignificant hparts hrule hsimo⟩

end ParseTree

end TreeMend
