import TreeMend.Program.Reading

/-!
# What a node of each kind is read as

One equation for each kind that has a place in a program.  They speak of the outcome of reading
only; the log of visited nodes and the depth do not matter for it.

## Main definitions

* `Node.programKinds` — the kinds that have a place in a program.

## Main results

* `Node.outcome_build`, with `Node.outcome_build_sourceFile` and its companions for each kind — the
  outcome of reading a node.
* `Node.outcome_build_other` — a node of any other kind is read as nothing, or is a literal that
  cannot be read.
-/

namespace TreeMend

/-- What follows a computation has a value exactly when that has one and passes it on to one that
has. -/
theorem Except.bind_eq_ok_iff {ε α β : Type} {x : Except ε α} {f : α → Except ε β} {b : β} :
    x.bind f = .ok b ↔ ∃ a, x = .ok a ∧ f a = .ok b := by
  cases x with
  | error e => simp [Except.bind]
  | ok a => simp [Except.bind]

/-- A label without an alias is the label of its own kind only. -/
theorem Kind.eq_of_canonical {k l : Kind}
    (hl : l ∉ [Kind.variableStatement, Kind.equalsToken, Kind.numericLiteral, Kind.plainTemplate])
    (h : k.canonical = l) : k = l := by
  unfold Kind.canonical at h
  split at h
  · subst h; simp at hl
  · subst h; simp at hl
  · subst h; simp at hl
  · subst h; simp at hl
  · exact h

namespace Node

/-- The kinds that have a place in a program. -/
def programKinds : List Kind :=
  [Kind.sourceFile, Kind.variableStatement, Kind.declarationList, Kind.declaration,
    Kind.identifier, Kind.stringKeyword, Kind.stringLiteral, Kind.expressionStatement,
    Kind.binaryExpression, Kind.callExpression, Kind.propertyAccess]

variable {n : Node} (depth : Nat)

@[simp] theorem outcome_visit (n : Node) : (visit depth n).outcome = .ok () := rfl

/-- The outcome of reading a node, by its kind. -/
theorem outcome_build (n : Node) :
    (n.build depth).outcome =
      match n.kind.canonical with
      | .sourceFile => (buildTopLevel depth n.children).outcome.bind fun built =>
        .ok (some (.program ⟨statementsOf built⟩))
      | .variableStatement => (buildFirstList (depth + 1) n.children).outcome
      | .declarationList => (buildAll (depth + 1) n.children).outcome.bind fun built =>
        .ok (some (.statement (.declare (bindingKeyword n.text) (declarationsOf built))))
      | .declaration => (readDeclaration depth n.kind n.children).outcome.bind fun d =>
        .ok (some (.declaration d))
      | .identifier => .ok (some (.expression (.name n.text)))
      | .stringKeyword => .ok (some (.type .string))
      | .stringLiteral => n.literal.bind fun l => .ok (some (.expression (.literal l)))
      | .expressionStatement => (buildStatement depth n.kind n.children).outcome
      | .binaryExpression => (checkOperator n.kind n.children).outcome.bind fun _ =>
        (buildExpression depth n.kind .leftOperand 0 n.children).outcome.bind fun target =>
          (buildExpression depth n.kind .rightOperand 2 n.children).outcome.bind fun value =>
            .ok (some (.expression (.assign target value)))
      | .callExpression =>
        (buildExpression depth n.kind .callee 0 n.children).outcome.bind fun callee =>
          if 1 < n.children.length then
            (buildExpression depth n.kind .argument 1 n.children).outcome.bind fun argument =>
              .ok (some (.expression (.callWith callee argument)))
          else .ok (some (.expression (.call callee)))
      | .propertyAccess =>
        (buildExpression depth n.kind .object 0 n.children).outcome.bind fun object =>
          (buildExpression depth n.kind .propertyName 1 n.children).outcome.bind fun name =>
            (asMemberName n.kind n.children name).outcome.bind fun id =>
              .ok (some (.expression (.member object id)))
      | other =>
        if other.isLiteral then n.literal.bind fun l => .ok (some (.expression (.literal l)))
        else .ok none := by
  obtain ⟨kind, text, span, children⟩ := n
  rw [build, Read.outcome_bind, outcome_visit, Except.bind]
  generalize kind.canonical = k
  split <;> try simp only [Read.outcome_bind, Read.outcome_pure, Read.outcome_ofExcept]
  · -- a call may have no argument
    by_cases hlength : 1 < children.length <;>
      simp only [hlength, if_true, if_false, Read.outcome_bind, Read.outcome_pure]
  · -- of the other kinds only those of literals are looked at
    by_cases hliteral : k.isLiteral = true <;> simp [hliteral]

theorem outcome_build_sourceFile (h : n.kind.canonical = Kind.sourceFile) :
    (n.build depth).outcome = (buildTopLevel depth n.children).outcome.bind fun built =>
      .ok (some (.program ⟨statementsOf built⟩)) := by
  rw [outcome_build, h]
  rfl

theorem outcome_build_variableStatement (h : n.kind.canonical = Kind.variableStatement) :
    (n.build depth).outcome = (buildFirstList (depth + 1) n.children).outcome := by
  rw [outcome_build, h]
  rfl

theorem outcome_build_declarationList (h : n.kind.canonical = Kind.declarationList) :
    (n.build depth).outcome = (buildAll (depth + 1) n.children).outcome.bind fun built =>
      .ok (some (.statement (.declare (bindingKeyword n.text) (declarationsOf built)))) := by
  rw [outcome_build, h]
  rfl

theorem outcome_build_declaration (h : n.kind.canonical = Kind.declaration) :
    (n.build depth).outcome = (readDeclaration depth n.kind n.children).outcome.bind fun d =>
      .ok (some (.declaration d)) := by
  rw [outcome_build, h]
  rfl

theorem outcome_build_identifier (h : n.kind.canonical = Kind.identifier) :
    (n.build depth).outcome = .ok (some (.expression (.name n.text))) := by
  rw [outcome_build, h]
  rfl

theorem outcome_build_stringKeyword (h : n.kind.canonical = Kind.stringKeyword) :
    (n.build depth).outcome = .ok (some (.type .string)) := by
  rw [outcome_build, h]
  rfl

theorem outcome_build_stringLiteral (h : n.kind.canonical = Kind.stringLiteral) :
    (n.build depth).outcome = n.literal.bind fun l =>
      .ok (some (.expression (.literal l))) := by
  rw [outcome_build, h]
  rfl

theorem outcome_build_expressionStatement (h : n.kind.canonical = Kind.expressionStatement) :
    (n.build depth).outcome = (buildStatement depth n.kind n.children).outcome := by
  rw [outcome_build, h]
  rfl

theorem outcome_build_binaryExpression (h : n.kind.canonical = Kind.binaryExpression) :
    (n.build depth).outcome = (checkOperator n.kind n.children).outcome.bind fun _ =>
      (buildExpression depth n.kind .leftOperand 0 n.children).outcome.bind fun target =>
        (buildExpression depth n.kind .rightOperand 2 n.children).outcome.bind fun value =>
          .ok (some (.expression (.assign target value))) := by
  rw [outcome_build, h]
  rfl

theorem outcome_build_callExpression (h : n.kind.canonical = Kind.callExpression) :
    (n.build depth).outcome =
      (buildExpression depth n.kind .callee 0 n.children).outcome.bind fun callee =>
        if 1 < n.children.length then
          (buildExpression depth n.kind .argument 1 n.children).outcome.bind fun argument =>
            .ok (some (.expression (.callWith callee argument)))
        else .ok (some (.expression (.call callee))) := by
  rw [outcome_build, h]
  rfl

theorem outcome_build_propertyAccess (h : n.kind.canonical = Kind.propertyAccess) :
    (n.build depth).outcome =
      (buildExpression depth n.kind .object 0 n.children).outcome.bind fun object =>
        (buildExpression depth n.kind .propertyName 1 n.children).outcome.bind fun name =>
          (asMemberName n.kind n.children name).outcome.bind fun id =>
            .ok (some (.expression (.member object id))) := by
  rw [outcome_build, h]
  rfl

/-- A node of any other kind is read as nothing, unless its kind is that of a literal. -/
theorem outcome_build_other (h : n.kind.canonical ∉ programKinds) :
    (n.build depth).outcome =
      if n.kind.canonical.isLiteral then .error (.unsupportedLiteral n.kind) else .ok none := by
  simp only [programKinds, List.mem_cons, List.not_mem_nil, or_false, not_or] at h
  obtain ⟨h1, h2, h3, h4, h5, h6, h7, h8, h9, h10, h11⟩ := h
  rw [outcome_build]
  split <;> first | contradiction | skip
  have hliteral : literal n = .error (.unsupportedLiteral n.kind) := by
    rw [literal, if_neg h7]
  by_cases hl : n.kind.canonical.isLiteral = true <;> simp [hl, hliteral, Except.bind]

/-! ### Parts -/

@[simp] theorem outcome_mapM_none {α : Type} (f : Node → Read α) :
    (Option.mapM f none).outcome = .ok none := rfl

theorem outcome_mapM_some {α : Type} (f : Node → Read α) (c : Node) :
    (Option.mapM f (some c)).outcome = (f c).outcome.bind fun a => .ok (some a) :=
  Read.outcome_bind (f c) fun a => pure (some a)

theorem outcome_readType (c : Node) : (readType depth c).outcome = c.typeAnnotation := by
  rw [readType, Read.outcome_bind]
  rfl

theorem outcome_readInitializer (c : Node) :
    (readInitializer depth c).outcome = c.literal.bind fun l => .ok (.literal l) := by
  rw [readInitializer, Read.outcome_bind]
  exact Read.outcome_bind _ _

/-- A binding is its name, its type and its initializer. -/
theorem outcome_readDeclaration_cons {name : Node} (h : name.kind.canonical = Kind.identifier)
    (parent : Kind) (rest : List Node) :
    (readDeclaration depth parent (name :: rest)).outcome =
      ((declarationParts rest).1.mapM (readType (depth + 1))).outcome.bind fun type =>
        ((declarationParts rest).2.mapM (readInitializer (depth + 1))).outcome.bind
          fun initializer => .ok { name := name.text, type, initializer } := by
  rw [readDeclaration, if_neg (not_not_intro h), Read.outcome_bind]
  change Except.bind (.ok ()) _ = _
  simp only [Except.bind, Read.outcome_bind, Read.outcome_pure]

@[simp] theorem outcome_buildAll_nil : (buildAll depth []).outcome = .ok [] := rfl

theorem outcome_buildAll_cons (c : Node) (cs : List Node) :
    (buildAll depth (c :: cs)).outcome = (c.build depth).outcome.bind fun b =>
      (buildAll depth cs).outcome.bind fun bs => .ok (b :: bs) := by
  change (build depth c >>= fun b => buildAll depth cs >>= fun bs => pure (b :: bs)).outcome = _
  simp only [Read.outcome_bind, Read.outcome_pure]

@[simp] theorem outcome_buildTopLevel_nil : (buildTopLevel depth []).outcome = .ok [] := rfl

/-- The constructs that a node at the top of a file counts for. -/
theorem outcome_buildTopLevel_cons (c : Node) (cs : List Node) :
    (buildTopLevel depth (c :: cs)).outcome =
      (if c.kind.canonical = Kind.variableStatement then
          (buildAll (depth + 2) c.children).outcome
        else (c.build (depth + 1)).outcome.bind fun b => .ok [b]).bind fun bs =>
        (buildTopLevel depth cs).outcome.bind fun rest => .ok (bs ++ rest) := by
  obtain ⟨kind, text, span, children⟩ := c
  rw [buildTopLevel]
  by_cases h : kind.canonical = Kind.variableStatement
  · simp [h]
  · simp only [h, if_false, Read.outcome_bind, Read.outcome_pure]
    cases (build (depth + 1) ⟨kind, text, span, children⟩).outcome <;> rfl

/-- The first declaration list counts. -/
theorem outcome_buildFirstList (cs : List Node) :
    (buildFirstList depth cs).outcome =
      match cs.find? (·.kind == Kind.declarationList) with
      | some c => (c.build depth).outcome
      | none => .ok none := by
  induction cs with
  | nil => rfl
  | cons c cs ih =>
    change (if c.kind = Kind.declarationList then build depth c
      else buildFirstList depth cs).outcome = _
    by_cases h : c.kind = Kind.declarationList
    · simp [h]
    · simp [h, ih]

/-- A part is looked up by its place. -/
theorem outcome_buildExpression (parent : Kind) (role : Role) (i : Nat) (cs : List Node) :
    (buildExpression depth parent role i cs).outcome =
      match cs[i]? with
      | some c => (c.build (depth + 1)).outcome.bind fun b => (asExpression parent role c b).outcome
      | none => .error (.missingChild parent role) := by
  induction cs generalizing i with
  | nil => rfl
  | cons c cs ih =>
    cases i with
    | zero => exact Read.outcome_bind (build (depth + 1) c) (asExpression parent role c)
    | succ i => exact ih i

theorem outcome_buildStatement (parent : Kind) (cs : List Node) :
    (buildStatement depth parent cs).outcome =
      match cs.head? with
      | some c => (c.build (depth + 1)).outcome.bind fun b => (asStatement parent c b).outcome
      | none => .ok none := by
  cases cs with
  | nil => rfl
  | cons c cs => exact Read.outcome_bind (build (depth + 1) c) (asStatement parent c)

end Node

end TreeMend
