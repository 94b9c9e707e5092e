import TreeMend.Proofs.Program.Keywords

/-!
# The operands of an expression that was read

A tree is read as an expression from the children at fixed places, and nothing says that there are
no further ones: the arguments of a call after the first are passed over without an error.  Nothing
else is lost.  The names and strings of an expression stand in its tree in the same order, and they
are all that stand there exactly when the children that were passed over hold none.

## Main definitions

* `Node.ReadAs` — the trees of expressions, as a grammar.
* `Expression.operands`, `Node.operands` — names and strings from left to right.
* `Node.surplus` — the children that are passed over.

## Main results

* `Node.readAs_iff` — a tree is read as an expression exactly by the grammar.
* `Node.operands_of_build` — **no operand is lost but those in surplus children**.
* `Node.operands_twoArguments` — a second argument is lost.
-/

namespace TreeMend

/-- A name or a string; a string has no value if it cannot be read. -/
inductive Operand where
  /-- A name. -/
  | name (id : String)
  /-- A string. -/
  | string (value : Option String)
  deriving DecidableEq, Repr

/-- The names and strings of an expression from left to right. -/
def Expression.operands : Expression → List Operand
  | .name id => [.name id]
  | .literal l => [.string (some l.value)]
  | .assign target value => target.operands ++ value.operands
  | .call callee => callee.operands
  | .callWith callee argument => callee.operands ++ argument.operands
  | .member object id => object.operands ++ [.name id]

namespace Node

variable {n : Node} {depth : Nat}

/-! ### The grammar of expressions -/

/-- The tree of an expression, whatever children come after those that it needs. -/
inductive ReadAs : Node → Expression → Prop
  /-- A name. -/
  | name {n : Node} (hkind : n.kind = Kind.identifier) : ReadAs n (.name n.text)
  /-- A string literal that can be read. -/
  | literal {n : Node} {l : Literal} (hkind : n.kind = Kind.stringLiteral)
      (hl : Literal.ofSource? n.text = some l) : ReadAs n (.literal l)
  /-- An assignment. -/
  | assign {n target operator value : Node} {rest : List Node} {a b : Expression}
      (hkind : n.kind = Kind.binaryExpression)
      (hchildren : n.children = target :: operator :: value :: rest)
      (hoperator : operator.kind.canonical = Kind.equalsToken)
      (htarget : ReadAs target a) (hvalue : ReadAs value b) : ReadAs n (.assign a b)
  /-- A call without arguments. -/
  | call {n callee : Node} {a : Expression} (hkind : n.kind = Kind.callExpression)
      (hchildren : n.children = [callee]) (hcallee : ReadAs callee a) : ReadAs n (.call a)
  /-- A call with an argument at least. -/
  | callWith {n callee argument : Node} {rest : List Node} {a b : Expression}
      (hkind : n.kind = Kind.callExpression) (hchildren : n.children = callee :: argument :: rest)
      (hcallee : ReadAs callee a) (hargument : ReadAs argument b) : ReadAs n (.callWith a b)
  /-- Access to a member. -/
  | member {n object name : Node} {rest : List Node} {a : Expression} {id : String}
      (hkind : n.kind = Kind.propertyAccess) (hchildren : n.children = object :: name :: rest)
      (hobject : ReadAs object a) (hname : ReadAs name (.name id)) : ReadAs n (.member a id)

theorem asExpression_eq_ok_iff {parent : Kind} {role : Role} {c : Node} {b : Option Construct}
    {e : Expression} :
    (asExpression parent role c b).outcome = .ok e ↔ b = some (.expression e) := by
  constructor
  · intro h
    unfold asExpression at h
    split at h
    · rw [Except.ok.inj h]
    · cases h
    · cases h
  · rintro rfl
    rfl

/-- A part is an expression if it is there and is read as one. -/
theorem buildExpression_eq_ok_iff {parent : Kind} {role : Role} {i : Nat} {cs : List Node}
    {e : Expression} :
    (buildExpression depth parent role i cs).outcome = .ok e ↔
      ∃ c, cs[i]? = some c ∧ (c.build (depth + 1)).outcome = .ok (some (.expression e)) := by
  rw [outcome_buildExpression]
  cases cs[i]? with
  | none => simp
  | some c => simp [Except.bind_eq_ok_iff, asExpression_eq_ok_iff]

theorem checkOperator_eq_ok_iff {parent : Kind} {cs : List Node} :
    (checkOperator parent cs).outcome = .ok () ↔
      ∀ operator, cs[1]? = some operator → operator.kind.canonical = Kind.equalsToken := by
  match cs with
  | [] | [_] => simp [checkOperator]
  | _ :: operator :: rest =>
    rw [checkOperator]
    split
    · next h => simpa using h
    · next h => simpa using h

theorem asMemberName_eq_ok_iff {parent : Kind} {cs : List Node} {e : Expression} {id : String} :
    (asMemberName parent cs e).outcome = .ok id ↔ e = .name id := by
  constructor
  · intro h
    unfold asMemberName at h
    split at h
    · rw [Except.ok.inj h]
    · cases h
    · cases h
  · rintro rfl
    rfl

theorem literal_eq_ok_iff (hkind : n.kind = Kind.stringLiteral) {l : Literal} :
    n.literal = .ok l ↔ Literal.ofSource? n.text = some l := by
  rw [literal, hkind, if_pos (by decide)]
  cases Literal.ofSource? n.text <;> simp

theorem build_binaryExpression_eq_ok {e : Expression}
    (hkind : n.kind.canonical = Kind.binaryExpression)
    (h : (n.build depth).outcome = .ok (some (.expression e))) :
    ∃ target operator value rest a b, n.children = target :: operator :: value :: rest ∧
      operator.kind.canonical = Kind.equalsToken ∧
      (target.build (depth + 1)).outcome = .ok (some (.expression a)) ∧
      (value.build (depth + 1)).outcome = .ok (some (.expression b)) ∧ e = .assign a b := by
  rw [outcome_build_binaryExpression depth hkind] at h
  obtain ⟨⟨⟩, hoperator, h⟩ := Except.bind_eq_ok_iff.mp h
  obtain ⟨a, ha, h⟩ := Except.bind_eq_ok_iff.mp h
  obtain ⟨b, hb, h⟩ := Except.bind_eq_ok_iff.mp h
  cases h
  rw [checkOperator_eq_ok_iff] at hoperator
  obtain ⟨target, htarget, ha⟩ := buildExpression_eq_ok_iff.mp ha
  obtain ⟨value, hvalue, hb⟩ := buildExpression_eq_ok_iff.mp hb
  match hchildren : n.children, htarget, hvalue with
  | _ :: operator :: _ :: rest, rfl, rfl =>
    have hequals := hoperator operator (by rw [hchildren]; rfl)
    exact ⟨target, operator, value, rest, a, b, rfl, hequals, ha, hb, rfl⟩

theorem build_callExpression_eq_ok {e : Expression}
    (hkind : n.kind.canonical = Kind.callExpression)
    (h : (n.build depth).outcome = .ok (some (.expression e))) :
    ∃ callee rest a, n.children = callee :: rest ∧
      (callee.build (depth + 1)).outcome = .ok (some (.expression a)) ∧
      ((rest = [] ∧ e = .call a) ∨
        ∃ argument rest' b, rest = argument :: rest' ∧
          (argument.build (depth + 1)).outcome = .ok (some (.expression b)) ∧
          e = .callWith a b) := by
  rw [outcome_build_callExpression depth hkind] at h
  obtain ⟨a, ha, h⟩ := Except.bind_eq_ok_iff.mp h
  obtain ⟨callee, hcallee, ha⟩ := buildExpression_eq_ok_iff.mp ha
  match hchildren : n.children, hcallee with
  | [_], rfl =>
    rw [hchildren, if_neg (by simp)] at h
    cases h
    exact ⟨callee, [], a, rfl, ha, Or.inl ⟨rfl, rfl⟩⟩
  | _ :: argument :: rest, rfl =>
    rw [hchildren, if_pos (by simp)] at h
    obtain ⟨b, hb, h⟩ := Except.bind_eq_ok_iff.mp h
    cases h
    obtain ⟨_, ⟨⟩, hb⟩ := buildExpression_eq_ok_iff.mp hb
    exact ⟨callee, argument :: rest, a, rfl, ha, Or.inr ⟨argument, rest, b, rfl, hb, rfl⟩⟩

theorem build_propertyAccess_eq_ok {e : Expression}
    (hkind : n.kind.canonical = Kind.propertyAccess)
    (h : (n.build depth).outcome = .ok (some (.expression e))) :
    ∃ object name rest a id, n.children = object :: name :: rest ∧
      (object.build (depth + 1)).outcome = .ok (some (.expression a)) ∧
      (name.build (depth + 1)).outcome = .ok (some (.expression (.name id))) ∧
      e = .member a id := by
  rw [outcome_build_propertyAccess depth hkind] at h
  obtain ⟨a, ha, h⟩ := Except.bind_eq_ok_iff.mp h
  obtain ⟨b, hb, h⟩ := Except.bind_eq_ok_iff.mp h
  obtain ⟨id, hid, h⟩ := Except.bind_eq_ok_iff.mp h
  cases h
  obtain rfl := asMemberName_eq_ok_iff.mp hid
  obtain ⟨object, hobject, ha⟩ := buildExpression_eq_ok_iff.mp ha
  obtain ⟨name, hname, hb⟩ := buildExpression_eq_ok_iff.mp hb
  match hchildren : n.children, hobject, hname with
  | _ :: _ :: rest, rfl, rfl => exact ⟨object, name, rest, a, id, rfl, ha, hb, rfl⟩

/-- What is read as an expression is the tree of one. -/
theorem readAs_of_build {e : Expression}
    (h : (n.build depth).outcome = .ok (some (.expression e))) : n.ReadAs e := by
  induction n using inductionOn generalizing depth e with
  | step n ih =>
    have hkinds : n.kind.canonical ∈ expressionKinds := mem_sortKinds_of_build h
    simp only [expressionKinds, List.mem_cons, List.not_mem_nil, or_false] at hkinds
    rcases hkinds with hkind | hkind | hkind | hkind | hkind
    · rw [outcome_build_identifier depth hkind] at h
      cases h
      exact .name (Kind.eq_of_canonical (by decide) hkind)
    · rw [outcome_build_stringLiteral depth hkind] at h
      obtain ⟨l, hl, h⟩ := Except.bind_eq_ok_iff.mp h
      cases h
      have hkind := Kind.eq_of_canonical (by decide) hkind
      exact .literal hkind ((literal_eq_ok_iff hkind).mp hl)
    · obtain ⟨target, operator, value, rest, a, b, hchildren, hoperator, ha, hb, rfl⟩ :=
        build_binaryExpression_eq_ok hkind h
      exact .assign (Kind.eq_of_canonical (by decide) hkind) hchildren hoperator
        (ih target (by simp [hchildren]) ha) (ih value (by simp [hchildren]) hb)
    · obtain ⟨callee, rest, a, hchildren, ha, h⟩ := build_callExpression_eq_ok hkind h
      have hkind := Kind.eq_of_canonical (by decide) hkind
      have hcallee := ih callee (by simp [hchildren]) ha
      rcases h with ⟨rfl, rfl⟩ | ⟨argument, rest', b, rfl, hb, rfl⟩
      · exact .call hkind hchildren hcallee
      · exact .callWith hkind hchildren hcallee (ih argument (by simp [hchildren]) hb)
    · obtain ⟨object, name, rest, a, id, hchildren, ha, hb, rfl⟩ :=
        build_propertyAccess_eq_ok hkind h
      exact .member (Kind.eq_of_canonical (by decide) hkind) hchildren
        (ih object (by simp [hchildren]) ha) (ih name (by simp [hchildren]) hb)

/-- The tree of an expression is read as that, at any depth. -/
theorem ReadAs.build {e : Expression} (h : n.ReadAs e) (depth : Nat) :
    (n.build depth).outcome = .ok (some (.expression e)) := by
  have hpart : ∀ {depth i c a cs} (parent role), (∀ depth, (Node.build depth c).outcome =
      .ok (some (.expression a))) → cs[i]? = some c →
      (buildExpression depth parent role i cs).outcome = .ok a := by
    intro depth i c a cs parent role hbuild hc
    exact buildExpression_eq_ok_iff.mpr ⟨c, hc, hbuild (depth + 1)⟩
  induction h generalizing depth with
  | name hkind => exact outcome_build_identifier depth (by rw [hkind]; decide)
  | literal hkind hl =>
    rw [outcome_build_stringLiteral depth (by rw [hkind]; decide), (literal_eq_ok_iff hkind).mpr hl]
    rfl
  | @assign n target operator value rest a b hkind hchildren hoperator _ _ iha ihb =>
    have hcheck : (checkOperator n.kind n.children).outcome = .ok () := by
      rw [checkOperator_eq_ok_iff, hchildren]
      rintro _ ⟨⟩
      exact hoperator
    rw [outcome_build_binaryExpression depth (by rw [hkind]; decide), hcheck,
      hpart _ _ iha (by rw [hchildren]; rfl), hpart _ _ ihb (by rw [hchildren]; rfl)]
    rfl
  | @call n callee a hkind hchildren _ iha =>
    rw [outcome_build_callExpression depth (by rw [hkind]; decide),
      hpart _ _ iha (by rw [hchildren]; rfl), hchildren]
    rfl
  | @callWith n callee argument rest a b hkind hchildren _ _ iha ihb =>
    rw [outcome_build_callExpression depth (by rw [hkind]; decide),
      hpart _ _ iha (by rw [hchildren]; rfl), hpart _ _ ihb (by rw [hchildren]; rfl), hchildren]
    rfl
  | @member n object name rest a id hkind hchildren _ _ iha ihb =>
    rw [outcome_build_propertyAccess depth (by rw [hkind]; decide),
      hpart _ _ iha (by rw [hchildren]; rfl), hpart _ _ ihb (by rw [hchildren]; rfl)]
    rfl

/-- A tree is read as an expression exactly if it is the tree of it. -/
theorem readAs_iff {e : Expression} :
    n.ReadAs e ↔ (n.build depth).outcome = .ok (some (.expression e)) :=
  ⟨fun h => h.build depth, readAs_of_build⟩

/-! ### The operands of trees -/

/-- The operand that a node is on its own. -/
def ownOperands (n : Node) : List Operand :=
  match n.kind with
  | .identifier => [.name n.text]
  | .stringLiteral => [.string ((Literal.ofSource? n.text).map (·.value))]
  | _ => []

/-- The names and strings among the nodes of trees, in source order. -/
def operandsOf (ns : List Node) : List Operand := (preorderList ns).flatMap ownOperands

/-- The names and strings among the nodes of a tree, in source order. -/
def operands (n : Node) : List Operand := n.preorder.flatMap ownOperands

/-- The children after those that an expression is read from. -/
def surplus (n : Node) : List Node :=
  match n.kind with
  | .binaryExpression => n.children.drop 3
  | .callExpression => n.children.drop 2
  | .propertyAccess => n.children.drop 2
  | _ => []

/-- Names, strings and the operator of assignments have no children. -/
def TokensAreLeaves (n : Node) : Prop :=
  ∀ m ∈ n.preorder,
    m.kind.canonical ∈ [Kind.identifier, Kind.stringLiteral, Kind.equalsToken] → m.children = []

instance (n : Node) : Decidable n.TokensAreLeaves :=
  inferInstanceAs (Decidable (∀ m ∈ n.preorder,
    m.kind.canonical ∈ [Kind.identifier, Kind.stringLiteral, Kind.equalsToken] → m.children = []))

/-- No surplus child in the tree holds an operand. -/
def NoSurplusOperand (n : Node) : Prop := ∀ m ∈ n.preorder, ∀ c ∈ m.surplus, c.operands = []

@[simp] theorem operandsOf_nil : operandsOf [] = [] := rfl

theorem operandsOf_cons (n : Node) (ns : List Node) :
    operandsOf (n :: ns) = n.operands ++ operandsOf ns := List.flatMap_append

theorem operandsOf_append (ns ms : List Node) :
    operandsOf (ns ++ ms) = operandsOf ns ++ operandsOf ms := by
  induction ns with
  | nil => rfl
  | cons n ns ih => rw [List.cons_append, operandsOf_cons, operandsOf_cons, ih, List.append_assoc]

theorem operands_eq (n : Node) : n.operands = n.ownOperands ++ operandsOf n.children := by
  rw [operands, preorder_eq]
  rfl

theorem ownOperands_eq_nil {k : Kind} (hkind : n.kind.canonical = k)
    (hk : k ≠ Kind.identifier ∧ k ≠ Kind.stringLiteral) : n.ownOperands = [] := by
  unfold ownOperands
  split
  · next h => exact absurd (by rw [← hkind, h]; decide) hk.1
  · next h => exact absurd (by rw [← hkind, h]; decide) hk.2
  · rfl

theorem operandsOf_eq_nil_iff {ns : List Node} :
    operandsOf ns = [] ↔ ∀ c ∈ ns, c.operands = [] := by
  induction ns with
  | nil => simp
  | cons n ns ih => simp [operandsOf_cons, ih]

theorem mem_children_of_mem_surplus {c : Node} (h : c ∈ n.surplus) : c ∈ n.children := by
  unfold surplus at h
  split at h
  · exact List.mem_of_mem_drop h
  · exact List.mem_of_mem_drop h
  · exact List.mem_of_mem_drop h
  · cases h

theorem noSurplusOperand_iff : n.NoSurplusOperand ↔
    operandsOf n.surplus = [] ∧ ∀ c ∈ n.children, c.NoSurplusOperand := by
  rw [NoSurplusOperand, preorder_eq, List.forall_mem_cons, operandsOf_eq_nil_iff]
  refine and_congr_right fun _ => ?_
  constructor
  · intro h c hc m hm
    exact h m (mem_preorderList_iff.mpr ⟨c, hc, hm⟩)
  · intro h m hm
    obtain ⟨c, hc, hm⟩ := mem_preorderList_iff.mp hm
    exact h c hc m hm

/-- Without operands there are none in surplus children. -/
theorem noSurplusOperand_of_operands_eq_nil (h : n.operands = []) : n.NoSurplusOperand := by
  induction n using inductionOn with
  | step n ih =>
    rw [operands_eq, List.append_eq_nil_iff, operandsOf_eq_nil_iff] at h
    obtain ⟨-, hchildren⟩ := h
    refine noSurplusOperand_iff.mpr ⟨?_, fun c hc => ih c hc (hchildren c hc)⟩
    exact operandsOf_eq_nil_iff.mpr fun c hc => hchildren c (mem_children_of_mem_surplus hc)

/-! ### Keeping account -/

/-- Where nothing is added, two parts are all of a list exactly if each is all of its own. -/
theorem append_eq_append_iff_of_sublist {α : Type} {l l' m m' : List α} (h : l.Sublist m)
    (h' : l'.Sublist m') : l ++ l' = m ++ m' ↔ l = m ∧ l' = m' := by
  constructor
  · intro heq
    have hlength := congrArg List.length heq
    have hle := h.length_le
    have hle' := h'.length_le
    rw [List.length_append, List.length_append] at hlength
    exact ⟨h.eq_of_length (by omega), h'.eq_of_length (by omega)⟩
  · rintro ⟨rfl, rfl⟩
    rfl

/-- The operands `os` are those of the trees, in order, less what surplus children hold. -/
structure Accounted (os : List Operand) (ns : List Node) : Prop where
  /-- No operand is made up or moved. -/
  sublist : os.Sublist (operandsOf ns)
  /-- All operands are there if surplus children hold none, and only then. -/
  eq_iff : os = operandsOf ns ↔ ∀ n ∈ ns, n.NoSurplusOperand

namespace Accounted

theorem append {os os' : List Operand} {ns ns' : List Node} (h : Accounted os ns)
    (h' : Accounted os' ns') : Accounted (os ++ os') (ns ++ ns') := by
  refine ⟨?_, ?_⟩
  · rw [operandsOf_append]
    exact h.sublist.append h'.sublist
  · rw [operandsOf_append, append_eq_append_iff_of_sublist h.sublist h'.sublist, h.eq_iff,
      h'.eq_iff, List.forall_mem_append]

/-- A node without children is its own operand, if any. -/
theorem leaf (hchildren : n.children = []) : Accounted n.ownOperands [n] := by
  have hoperands : operandsOf [n] = n.ownOperands := by
    rw [operandsOf_cons, operands_eq, hchildren, operandsOf_nil, List.append_nil, List.append_nil]
  have hsurplus : n.surplus = [] :=
    List.eq_nil_iff_forall_not_mem.mpr fun c hc => by
      simpa [hchildren] using mem_children_of_mem_surplus hc
  refine ⟨by rw [hoperands], iff_of_true hoperands.symm ?_⟩
  rw [List.forall_mem_singleton, noSurplusOperand_iff, hsurplus, hchildren]
  exact ⟨rfl, by simp⟩

/-- A node of which some children count and the others are surplus. -/
theorem node {os : List Operand} {parts : List Node} (hown : n.ownOperands = [])
    (hchildren : n.children = parts ++ n.surplus) (h : Accounted os parts) : Accounted os [n] := by
  have hoperands : operandsOf [n] = operandsOf parts ++ operandsOf n.surplus := by
    rw [operandsOf_cons, operands_eq, hown, hchildren, operandsOf_append, operandsOf_nil,
      List.nil_append, List.append_nil]
  have hiff : n.NoSurplusOperand ↔
      (∀ c ∈ parts, c.NoSurplusOperand) ∧ operandsOf n.surplus = [] := by
    rw [noSurplusOperand_iff, hchildren, List.forall_mem_append]
    constructor
    · rintro ⟨hsurplus, hparts, -⟩
      exact ⟨hparts, hsurplus⟩
    · rintro ⟨hparts, hsurplus⟩
      refine ⟨hsurplus, hparts, fun c hc => ?_⟩
      -- what is passed over as a whole needs no account of its own surplus
      exact noSurplusOperand_of_operands_eq_nil (operandsOf_eq_nil_iff.mp hsurplus c hc)
  have heq := append_eq_append_iff_of_sublist h.sublist (List.nil_sublist (operandsOf n.surplus))
  rw [List.append_nil] at heq
  refine ⟨?_, ?_⟩
  · rw [hoperands]
    exact h.sublist.trans (List.sublist_append_left _ _)
  · rw [hoperands, heq, h.eq_iff, List.forall_mem_singleton, hiff, eq_comm]

end Accounted

theorem TokensAreLeaves.child {c : Node} (h : n.TokensAreLeaves) (hc : c ∈ n.children) :
    c.TokensAreLeaves := by
  intro m hm
  refine h m ?_
  rw [preorder_eq]
  exact List.mem_cons_of_mem n (mem_preorderList_iff.mpr ⟨c, hc, hm⟩)

theorem TokensAreLeaves.children_eq_nil (h : n.TokensAreLeaves)
    (hkind : n.kind.canonical ∈ [Kind.identifier, Kind.stringLiteral, Kind.equalsToken]) :
    n.children = [] := by
  refine h n ?_ hkind
  rw [preorder_eq]
  exact List.mem_cons_self

/-- The operands of the expression that a tree stands for. -/
theorem ReadAs.accounted {e : Expression} (h : n.ReadAs e) (hleaves : n.TokensAreLeaves) :
    Accounted e.operands [n] := by
  induction h with
  | @name n hkind =>
    have hleaf := Accounted.leaf (hleaves.children_eq_nil (by rw [hkind]; decide))
    rw [ownOperands, hkind] at hleaf
    exact hleaf
  | @literal n l hkind hl =>
    have hleaf := Accounted.leaf (hleaves.children_eq_nil (by rw [hkind]; decide))
    rw [ownOperands, hkind, hl] at hleaf
    exact hleaf
  | @assign n target operator value rest a b hkind hchildren hoperator _ _ iha ihb =>
    have hnone : operator.children = [] :=
      (hleaves.child (by simp [hchildren])).children_eq_nil (by simp [hoperator])
    have hleaf := Accounted.leaf hnone
    rw [ownOperands_eq_nil hoperator (by decide)] at hleaf
    have hparts := ((iha (hleaves.child (by simp [hchildren]))).append hleaf).append
      (ihb (hleaves.child (by simp [hchildren])))
    rw [List.append_nil] at hparts
    refine hparts.node (ownOperands_eq_nil (congrArg Kind.canonical hkind) (by decide)) ?_
    rw [surplus, hkind, hchildren]
    rfl
  | @call n callee a hkind hchildren _ iha =>
    have hparts := iha (hleaves.child (by simp [hchildren]))
    refine hparts.node (ownOperands_eq_nil (congrArg Kind.canonical hkind) (by decide)) ?_
    rw [surplus, hkind, hchildren]
    rfl
  | @callWith n callee argument rest a b hkind hchildren _ _ iha ihb =>
    have hparts := (iha (hleaves.child (by simp [hchildren]))).append
      (ihb (hleaves.child (by simp [hchildren])))
    refine hparts.node (ownOperands_eq_nil (congrArg Kind.canonical hkind) (by decide)) ?_
    rw [surplus, hkind, hchildren]
    rfl
  | @member n object name rest a id hkind hchildren _ _ iha ihb =>
    have hparts := (iha (hleaves.child (by simp [hchildren]))).append
      (ihb (hleaves.child (by simp [hchildren])))
    refine hparts.node (ownOperands_eq_nil (congrArg Kind.canonical hkind) (by decide)) ?_
    rw [surplus, hkind, hchildren]
    rfl

/-- The operands of an expression that was read stand in its tree in that order; they are all that
stand there exactly when no surplus child holds one. -/
theorem operands_of_build {e : Expression}
    (h : (n.build depth).outcome = .ok (some (.expression e))) (hleaves : n.TokensAreLeaves) :
    e.operands.Sublist n.operands ∧
      (e.operands = n.operands ↔ ∀ m ∈ n.preorder, ∀ c ∈ m.surplus, c.operands = []) := by
  obtain ⟨hsublist, heq⟩ := (readAs_of_build h).accounted hleaves
  rw [operandsOf_cons, operandsOf_nil, List.append_nil] at hsublist heq
  rw [List.forall_mem_singleton] at heq
  exact ⟨hsublist, heq⟩

/-- The tree of `x = f('a')`. -/
def assignedCall : Node :=
  { kind := Kind.binaryExpression, text := "x = f('a')", children := [
    { kind := Kind.identifier, text := "x" },
    { kind := Kind.equalsToken, text := "=" },
    { kind := Kind.callExpression, text := "f('a')", children := [
      { kind := Kind.identifier, text := "f" },
      { kind := Kind.stringLiteral, text := "'a'" }] }] }

/-- The tree of `f(a, b)`. -/
def twoArguments : Node :=
  { kind := Kind.callExpression, text := "f(a, b)", children := [
    { kind := Kind.identifier, text := "f" },
    { kind := Kind.identifier, text := "a" },
    { kind := Kind.identifier, text := "b" }] }

theorem operands_assignedCall :
    assignedCall.TokensAreLeaves ∧
      (Expression.assign (.name "x") (.callWith (.name "f") (.literal ⟨"a", .single⟩))).operands =
        assignedCall.operands := by
  have hleaves : assignedCall.TokensAreLeaves := by decide
  have hbuild : (assignedCall.build 0).outcome = .ok (some (.expression
      (.assign (.name "x") (.callWith (.name "f") (.literal ⟨"a", .single⟩))))) := by decide +kernel
  exact ⟨hleaves, (operands_of_build hbuild hleaves).2.mpr (by decide +kernel)⟩

/-- A second argument is lost without an error. -/
theorem operands_twoArguments :
    ¬ ∀ (n : Node) (depth : Nat) (e : Expression),
      (n.build depth).outcome = .ok (some (.expression e)) → n.TokensAreLeaves →
        e.operands = n.operands := by
  intro hkept
  have h := hkept twoArguments 0 (.callWith (.name "f") (.name "a")) (by decide) (by decide)
  exact absurd h (by decide)

end Node

end TreeMend
