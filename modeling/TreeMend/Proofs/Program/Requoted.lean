import TreeMend.Proofs.Fix.Harmless
import TreeMend.Proofs.Program.Keywords

/-!
# Reading a tree with changed texts

A tree in which declaration lists and string literals got new texts is read as what it was read as
before, up to binding keywords and literals, as long as each literal can be read if and only if it
could be read before.  In particular it cannot be read if and only if it could not, for the same
reason.

## Main definitions

* `Alike` — two computations that fail alike or have related values.
* `Construct.Matches` — two constructs that differ in keywords, and in literals by a function.
* `Node.Requoted` — a tree with new texts for lists, and for literals by a function.

## Main results

* `Node.Requoted.build` — trees that differ in lists and literals are read as constructs that differ
  in keywords and literals.
-/

namespace TreeMend

/-! ### Computations that end alike -/

/-- Two computations that fail for the same reason or have related values. -/
inductive Alike {ε α β : Type} (R : α → β → Prop) : Except ε α → Except ε β → Prop
  /-- Both fail. -/
  | error (e : ε) : Alike R (.error e) (.error e)
  /-- Both have a value. -/
  | ok {a : α} {b : β} (h : R a b) : Alike R (.ok a) (.ok b)

namespace Alike

variable {ε α β γ δ : Type} {R : α → β → Prop} {S : γ → δ → Prop}

/-- Computations that end alike, continued alike, end alike. -/
theorem bind {x : Except ε α} {y : Except ε β} {f : α → Except ε γ} {g : β → Except ε δ}
    (h : Alike R x y) (hfg : ∀ a b, R a b → Alike S (f a) (g b)) :
    Alike S (x.bind f) (y.bind g) := by
  cases h with
  | error e => exact .error e
  | ok h => exact hfg _ _ h

theorem of_eq {R : α → α → Prop} (hR : ∀ a, R a a) {x y : Except ε α} (h : x = y) :
    Alike R x y := by
  subst h
  cases x with
  | error e => exact .error e
  | ok a => exact .ok (hR a)

end Alike

/-! ### Constructs that match -/

namespace Construct

/-- The first construct is the second with other keywords, and with `q` applied to its literals. -/
inductive Matches (q : Literal → Literal) : Construct → Construct → Prop
  /-- Two files with matching statements. -/
  | program {p p' : Program} (h : p'.statements.map Statement.withoutKeyword =
      p.statements.map fun s => (s.mapLiterals q).withoutKeyword) :
      Matches q (.program p') (.program p)
  /-- Two matching statements. -/
  | statement {s s' : Statement} (h : s'.withoutKeyword = (s.mapLiterals q).withoutKeyword) :
      Matches q (.statement s') (.statement s)
  /-- Two bindings. -/
  | declaration (d : Declaration) : Matches q (.declaration (d.mapLiterals q)) (.declaration d)
  /-- Two types. -/
  | type (t : TypeAnnotation) : Matches q (.type t) (.type t)
  /-- Two expressions. -/
  | expression (e : Expression) : Matches q (.expression (e.mapLiterals q)) (.expression e)

variable {q : Literal → Literal}

theorem Matches.withoutKeywords {c c' : Construct} (h : Matches q c' c) :
    c'.withoutKeywords = (c.mapLiterals q).withoutKeywords := by
  cases h with
  | program h => simp [Construct.withoutKeywords, mapLiterals, h]
  | statement h => simp [Construct.withoutKeywords, mapLiterals, h]
  | declaration d => rfl
  | type t => rfl
  | expression e => rfl

end Construct

namespace Node

open Construct (Matches)

variable {q : Literal → Literal}

theorem statementsOf_matches {built built' : List (Option Construct)}
    (h : List.Forall₂ (Option.Rel (Matches q)) built' built) :
    (statementsOf built').map Statement.withoutKeyword =
      (statementsOf built).map fun s => (s.mapLiterals q).withoutKeyword := by
  induction h with
  | nil => rfl
  | @cons b' b bs' bs hb hbs ih =>
    cases hb with
    | none => exact ih
    | some hb =>
      cases hb with
      | statement hs =>
        change _ :: _ = _ :: _
        rw [hs]
        exact congrArg _ ih
      | program h => exact ih
      | declaration d => exact ih
      | type t => exact ih
      | expression e => exact ih

theorem declarationsOf_matches {built built' : List (Option Construct)}
    (h : List.Forall₂ (Option.Rel (Matches q)) built' built) :
    declarationsOf built' = (declarationsOf built).map (Declaration.mapLiterals q) := by
  induction h with
  | nil => rfl
  | @cons b' b bs' bs hb hbs ih =>
    cases hb with
    | none => exact ih
    | some hb =>
      cases hb with
      | declaration d => exact congrArg (d.mapLiterals q :: ·) ih
      | program h => exact ih
      | statement hs => exact ih
      | type t => exact ih
      | expression e => exact ih

/-- A part of the wrong sort is reported by its kind, which the trees share. -/
theorem unexpectedNode_alike {α β : Type} {R : α → β → Prop} (parent : Kind) (e : Expected)
    {c c' : Node} (hkind : c'.kind = c.kind) :
    Alike R (.error (RenderError.unexpectedNode parent e c'.kind))
      (.error (RenderError.unexpectedNode parent e c.kind)) := by
  rw [hkind]
  exact .error _

theorem asExpression_matches (parent : Kind) (role : Role) {c c' : Node} (hkind : c'.kind = c.kind)
    {b b' : Option Construct} (h : Option.Rel (Matches q) b' b) :
    Alike (fun e' e => e' = Expression.mapLiterals q e) (asExpression parent role c' b').outcome
      (asExpression parent role c b).outcome := by
  cases h with
  | none => exact .error _
  | some h =>
    cases h with
    | expression e => exact .ok rfl
    | program h => exact unexpectedNode_alike parent .expression hkind
    | statement h => exact unexpectedNode_alike parent .expression hkind
    | declaration d => exact unexpectedNode_alike parent .expression hkind
    | type t => exact unexpectedNode_alike parent .expression hkind

theorem asStatement_matches (parent : Kind) {c c' : Node} (hkind : c'.kind = c.kind)
    {b b' : Option Construct} (h : Option.Rel (Matches q) b' b) :
    Alike (Option.Rel (Matches q)) (asStatement parent c' b').outcome
      (asStatement parent c b).outcome := by
  cases h with
  | none => exact .ok .none
  | some h =>
    cases h with
    | expression e => exact .ok (.some (.statement rfl))
    | program h => exact unexpectedNode_alike parent .expression hkind
    | statement h => exact unexpectedNode_alike parent .expression hkind
    | declaration d => exact unexpectedNode_alike parent .expression hkind
    | type t => exact unexpectedNode_alike parent .expression hkind

/-! ### Trees with other lists and literals -/

/-- An edit of a tree that gives new texts to lists and literals only, where each literal becomes
what `q` makes of it. -/
structure Requotes (q : Literal → Literal) (f : Position → Node → Option String) (n : Node) :
    Prop where
  /-- Only lists and literals get new texts. -/
  harmless : Harmless f
  /-- A literal is read as `q` of what it was read as. -/
  literal : ∀ p m, n.get? p = some m → m.kind = Kind.stringLiteral →
    Literal.ofSource? ((f p m).getD m.text) = (Literal.ofSource? m.text).map q

/-- The first tree is the second with new texts for lists and literals, where each literal becomes
what `q` makes of it. -/
def Requoted (q : Literal → Literal) (n' n : Node) : Prop :=
  ∃ f, Requotes q f n ∧ n' = n.edit f

namespace Requoted

variable {n n' : Node}

theorem kind (h : Requoted q n' n) : n'.kind = n.kind := by
  obtain ⟨f, -, rfl⟩ := h
  exact kind_edit f n

/-- Below such a tree are such trees. -/
theorem children (h : Requoted q n' n) :
    List.Forall₂ (Requoted q) n'.children n.children := by
  obtain ⟨f, hf, rfl⟩ := h
  have key : ∀ (cs : List Node) (i : Nat),
      (∀ j c, cs[j]? = some c → Requotes q (fun p => f ((i + j) :: p)) c) →
      List.Forall₂ (Requoted q) (editFrom f i cs) cs := by
    intro cs
    induction cs with
    | nil => exact fun _ _ => .nil
    | cons c cs ih =>
      intro i hcs
      refine .cons ⟨_, hcs 0 c rfl, rfl⟩ (ih (i + 1) fun j d hd => ?_)
      rw [Nat.add_right_comm, Nat.add_assoc]
      exact hcs (j + 1) d hd
  rw [children_edit]
  refine key n.children 0 fun j c hc => ⟨hf.harmless.child (0 + j), fun p m hm hkind => ?_⟩
  rw [Nat.zero_add]
  exact hf.literal (j :: p) m (get?_cons_eq_some.mpr ⟨c, hc, hm⟩) hkind

/-- Names stay. -/
theorem text (h : Requoted q n' n) (hkind : n.kind = Kind.identifier) : n'.text = n.text := by
  obtain ⟨f, hf, rfl⟩ := h
  exact hf.harmless.text_edit_identifier hkind

/-- Literals become what `q` makes of them. -/
theorem literal (h : Requoted q n' n) : Alike (fun l' l => l' = q l) n'.literal n.literal := by
  have hk := h.kind
  obtain ⟨f, hf, rfl⟩ := h
  rw [Node.literal, Node.literal, hk]
  by_cases hcanonical : n.kind.canonical = Kind.stringLiteral
  · have hkind : n.kind = Kind.stringLiteral := Kind.eq_of_canonical (by decide) hcanonical
    rw [if_pos hcanonical, if_pos hcanonical, text_edit, hf.literal [] n (get?_nil n) hkind]
    cases Literal.ofSource? n.text with
    | none => exact .error _
    | some l => exact .ok rfl
  · rw [if_neg hcanonical, if_neg hcanonical]
    exact .error _

end Requoted

/-! ### Parts of such trees -/

/-- Which of the parts of a declaration are given, and which of them is which, goes by kinds. -/
theorem declarationParts_requoted {cs cs' : List Node} (h : List.Forall₂ (Requoted q) cs' cs) :
    Option.Rel (Requoted q) (declarationParts cs').1 (declarationParts cs).1 ∧
      Option.Rel (Requoted q) (declarationParts cs').2 (declarationParts cs).2 := by
  match h with
  | .nil => exact ⟨.none, .none⟩
  | @List.Forall₂.cons _ _ _ c' c _ _ hc .nil =>
    rw [declarationParts, declarationParts, hc.kind]
    by_cases htype : c.kind.isType = true
    · rw [if_pos htype, if_pos htype]
      exact ⟨.some hc, .none⟩
    · rw [if_neg htype, if_neg htype]
      exact ⟨.none, .some hc⟩
  | .cons htype (.cons hinitializer _) => exact ⟨.some htype, .some hinitializer⟩

theorem readType_requoted (depth : Nat) {type? type?' : Option Node}
    (h : Option.Rel (Requoted q) type?' type?) :
    (type?'.mapM (readType depth)).outcome = (type?.mapM (readType depth)).outcome := by
  cases h with
  | none => rfl
  | @some c' c h =>
    have htype : typeAnnotation c' = typeAnnotation c := by
      unfold typeAnnotation
      rw [h.kind]
    rw [outcome_mapM_some, outcome_mapM_some, outcome_readType, outcome_readType, htype]

theorem readInitializer_requoted (depth : Nat) {initializer? initializer?' : Option Node}
    (h : Option.Rel (Requoted q) initializer?' initializer?) :
    Alike (fun e' e => e' = Option.map (Expression.mapLiterals q) e)
      (initializer?'.mapM (readInitializer depth)).outcome
      (initializer?.mapM (readInitializer depth)).outcome := by
  cases h with
  | none => exact .ok rfl
  | @some c' c h =>
    have hread : Alike (fun e' e => e' = Expression.mapLiterals q e)
        (readInitializer depth c').outcome (readInitializer depth c).outcome := by
      rw [outcome_readInitializer, outcome_readInitializer]
      exact h.literal.bind fun l' l hl => .ok (congrArg Expression.literal hl)
    rw [outcome_mapM_some, outcome_mapM_some]
    exact hread.bind fun e' e he => .ok (congrArg some he)

/-- A binding is read alike. -/
theorem readDeclaration_requoted (depth : Nat) (parent : Kind) {cs cs' : List Node}
    (h : List.Forall₂ (Requoted q) cs' cs) :
    Alike (fun d' d => d' = Declaration.mapLiterals q d) (readDeclaration depth parent cs').outcome
      (readDeclaration depth parent cs).outcome := by
  cases h with
  | nil => exact .error _
  | @cons name' name _ _ hname hrest =>
    by_cases hkind : name.kind.canonical = Kind.identifier
    · have htext := hname.text (Kind.eq_of_canonical (by decide) hkind)
      have hkind' : name'.kind.canonical = Kind.identifier := by rw [hname.kind, hkind]
      obtain ⟨htype, hinitializer⟩ := declarationParts_requoted hrest
      rw [outcome_readDeclaration_cons depth hkind', outcome_readDeclaration_cons depth hkind,
        readType_requoted (depth + 1) htype, htext]
      refine Alike.bind (.of_eq (fun _ => rfl) rfl) ?_
      rintro _ type rfl
      refine (readInitializer_requoted (depth + 1) hinitializer).bind ?_
      rintro _ initializer rfl
      exact .ok rfl
    · rw [readDeclaration, readDeclaration, hname.kind, if_pos hkind, if_pos hkind]
      exact .error _

/-- Trees that differ from `n` in lists and literals are read alike. -/
def BuildsAlike (q : Literal → Literal) (n : Node) : Prop :=
  ∀ (n' : Node) (depth : Nat), Requoted q n' n →
    Alike (Option.Rel (Matches q)) (n'.build depth).outcome (n.build depth).outcome

theorem buildAll_requoted {cs cs' : List Node} (h : List.Forall₂ (Requoted q) cs' cs)
    (ih : ∀ c ∈ cs, BuildsAlike q c) (depth : Nat) :
    Alike (List.Forall₂ (Option.Rel (Matches q))) (buildAll depth cs').outcome
      (buildAll depth cs).outcome := by
  induction h with
  | nil =>
    rw [outcome_buildAll_nil]
    exact .ok .nil
  | @cons c' c cs' cs hc hcs ihcs =>
    rw [outcome_buildAll_cons, outcome_buildAll_cons]
    refine (ih c List.mem_cons_self c' depth hc).bind fun b' b hb => ?_
    refine (ihcs fun d hd => ih d (List.mem_cons_of_mem c hd)).bind fun bs' bs hbs => ?_
    exact .ok (.cons hb hbs)

theorem buildTopLevel_requoted {cs cs' : List Node} (h : List.Forall₂ (Requoted q) cs' cs)
    (ih : ∀ c ∈ cs, BuildsAlike q c ∧ ∀ d ∈ c.children, BuildsAlike q d) (depth : Nat) :
    Alike (List.Forall₂ (Option.Rel (Matches q))) (buildTopLevel depth cs').outcome
      (buildTopLevel depth cs).outcome := by
  induction h with
  | nil =>
    rw [outcome_buildTopLevel_nil]
    exact .ok .nil
  | @cons c' c cs' cs hc hcs ihcs =>
    obtain ⟨hself, hbelow⟩ := ih c List.mem_cons_self
    rw [outcome_buildTopLevel_cons, outcome_buildTopLevel_cons, hc.kind]
    refine @Alike.bind _ _ _ _ _ (List.Forall₂ (Option.Rel (Matches q))) _ _ _ _ _ ?_
      fun bs' bs hbs => ?_
    · -- the children of a variable statement stand in its place
      by_cases hwrapper : c.kind.canonical = Kind.variableStatement
      · rw [if_pos hwrapper, if_pos hwrapper]
        exact buildAll_requoted hc.children hbelow (depth + 2)
      · rw [if_neg hwrapper, if_neg hwrapper]
        exact (hself c' (depth + 1) hc).bind fun b' b hb => .ok (.cons hb .nil)
    · refine (ihcs fun d hd => ih d (List.mem_cons_of_mem c hd)).bind fun rest' rest hrest => ?_
      exact .ok (List.rel_append hbs hrest)

theorem buildFirstList_requoted {cs cs' : List Node} (h : List.Forall₂ (Requoted q) cs' cs)
    (ih : ∀ c ∈ cs, BuildsAlike q c) (depth : Nat) :
    Alike (Option.Rel (Matches q)) (buildFirstList depth cs').outcome
      (buildFirstList depth cs).outcome := by
  induction h with
  | nil =>
    rw [buildFirstList]
    exact .ok .none
  | @cons c' c cs' cs hc hcs ihcs =>
    rw [buildFirstList, buildFirstList, hc.kind]
    by_cases hlist : c.kind = Kind.declarationList
    · rw [if_pos hlist, if_pos hlist]
      exact ih c List.mem_cons_self c' depth hc
    · rw [if_neg hlist, if_neg hlist]
      exact ihcs fun d hd => ih d (List.mem_cons_of_mem c hd)

theorem buildStatement_requoted {cs cs' : List Node} (h : List.Forall₂ (Requoted q) cs' cs)
    (ih : ∀ c ∈ cs, BuildsAlike q c) (depth : Nat) (parent : Kind) :
    Alike (Option.Rel (Matches q)) (buildStatement depth parent cs').outcome
      (buildStatement depth parent cs).outcome := by
  rw [outcome_buildStatement, outcome_buildStatement]
  cases h with
  | nil => exact .ok .none
  | @cons c' c _ _ hc hcs =>
    refine (ih c List.mem_cons_self c' (depth + 1) hc).bind fun b' b hb => ?_
    exact asStatement_matches parent hc.kind hb

theorem buildExpression_requoted {cs cs' : List Node} (h : List.Forall₂ (Requoted q) cs' cs)
    (ih : ∀ c ∈ cs, BuildsAlike q c) (depth : Nat) (parent : Kind) (role : Role) (i : Nat) :
    Alike (fun e' e => e' = Expression.mapLiterals q e)
      (buildExpression depth parent role i cs').outcome
      (buildExpression depth parent role i cs).outcome := by
  induction h generalizing i with
  | nil =>
    rw [buildExpression]
    exact .error _
  | @cons c' c cs' cs hc hcs ihcs =>
    cases i with
    | zero =>
      rw [buildExpression, buildExpression, Read.outcome_bind, Read.outcome_bind]
      refine (ih c List.mem_cons_self c' (depth + 1) hc).bind fun b' b hb => ?_
      exact asExpression_matches parent role hc.kind hb
    | succ i =>
      rw [buildExpression, buildExpression]
      exact ihcs (fun d hd => ih d (List.mem_cons_of_mem c hd)) i

theorem checkOperator_requoted {cs cs' : List Node} (h : List.Forall₂ (Requoted q) cs' cs)
    (parent : Kind) : (checkOperator parent cs').outcome = (checkOperator parent cs).outcome := by
  match h with
  | .nil => rfl
  | .cons _ .nil => rfl
  | .cons _ (.cons hoperator _) =>
    unfold checkOperator
    simp only [hoperator.kind]

theorem asMemberName_requoted {cs cs' : List Node} (h : List.Forall₂ (Requoted q) cs' cs)
    (parent : Kind) (e : Expression) :
    (asMemberName parent cs' (e.mapLiterals q)).outcome = (asMemberName parent cs e).outcome := by
  match h with
  | .nil => cases e <;> rfl
  | .cons _ .nil => cases e <;> rfl
  | .cons _ (.cons hname _) => cases e <;> simp [asMemberName, Expression.mapLiterals, hname.kind]

/-! ### The whole tree -/

/-- One node: what it is read as is made of what its parts are read as. -/
theorem buildsAlike_of_children {n : Node}
    (ih : ∀ c ∈ n.children, BuildsAlike q c ∧ ∀ d ∈ c.children, BuildsAlike q d) :
    BuildsAlike q n := by
  intro n' depth h
  have hcs := h.children
  have ihcs : ∀ c ∈ n.children, BuildsAlike q c := fun c hc => (ih c hc).1
  have hlength := hcs.length_eq
  by_cases hfile : n.kind.canonical = Kind.sourceFile
  · rw [outcome_build_sourceFile depth hfile, outcome_build_sourceFile depth (by rwa [h.kind])]
    refine (buildTopLevel_requoted hcs ih depth).bind fun built' built hbuilt => ?_
    exact .ok (.some (.program (statementsOf_matches hbuilt)))
  by_cases hstatement : n.kind.canonical = Kind.variableStatement
  · rw [outcome_build_variableStatement depth hstatement,
      outcome_build_variableStatement depth (by rwa [h.kind])]
    exact buildFirstList_requoted hcs ihcs (depth + 1)
  by_cases hlist : n.kind.canonical = Kind.declarationList
  · rw [outcome_build_declarationList depth hlist,
      outcome_build_declarationList depth (by rwa [h.kind])]
    refine (buildAll_requoted hcs ihcs (depth + 1)).bind fun built' built hbuilt => ?_
    refine .ok (.some (.statement ?_))
    rw [declarationsOf_matches hbuilt]
    rfl
  by_cases hdeclaration : n.kind.canonical = Kind.declaration
  · rw [outcome_build_declaration depth hdeclaration,
      outcome_build_declaration depth (by rwa [h.kind]), h.kind]
    refine (readDeclaration_requoted depth n.kind hcs).bind ?_
    rintro _ d rfl
    exact .ok (.some (.declaration d))
  by_cases hidentifier : n.kind.canonical = Kind.identifier
  · rw [outcome_build_identifier depth hidentifier,
      outcome_build_identifier depth (by rwa [h.kind]),
      h.text (Kind.eq_of_canonical (by decide) hidentifier)]
    exact .ok (.some (.expression (.name n.text)))
  by_cases hkeyword : n.kind.canonical = Kind.stringKeyword
  · rw [outcome_build_stringKeyword depth hkeyword,
      outcome_build_stringKeyword depth (by rwa [h.kind])]
    exact .ok (.some (.type .string))
  by_cases hliteral : n.kind.canonical = Kind.stringLiteral
  · rw [outcome_build_stringLiteral depth hliteral,
      outcome_build_stringLiteral depth (by rwa [h.kind])]
    refine h.literal.bind ?_
    rintro _ l rfl
    exact .ok (.some (.expression (.literal l)))
  by_cases hexpression : n.kind.canonical = Kind.expressionStatement
  · rw [outcome_build_expressionStatement depth hexpression,
      outcome_build_expressionStatement depth (by rwa [h.kind]), h.kind]
    exact buildStatement_requoted hcs ihcs depth n.kind
  by_cases hbinary : n.kind.canonical = Kind.binaryExpression
  · rw [outcome_build_binaryExpression depth hbinary,
      outcome_build_binaryExpression depth (by rwa [h.kind]), h.kind,
      checkOperator_requoted hcs n.kind]
    refine Alike.bind (.of_eq (fun _ => rfl) rfl) fun _ _ _ => ?_
    refine (buildExpression_requoted hcs ihcs depth n.kind .leftOperand 0).bind ?_
    rintro _ target rfl
    refine (buildExpression_requoted hcs ihcs depth n.kind .rightOperand 2).bind ?_
    rintro _ value rfl
    exact .ok (.some (.expression (.assign target value)))
  by_cases hcall : n.kind.canonical = Kind.callExpression
  · rw [outcome_build_callExpression depth hcall,
      outcome_build_callExpression depth (by rwa [h.kind]), h.kind, hlength]
    refine (buildExpression_requoted hcs ihcs depth n.kind .callee 0).bind ?_
    rintro _ callee rfl
    by_cases hargument : 1 < n.children.length
    · rw [if_pos hargument, if_pos hargument]
      refine (buildExpression_requoted hcs ihcs depth n.kind .argument 1).bind ?_
      rintro _ argument rfl
      exact .ok (.some (.expression (.callWith callee argument)))
    · rw [if_neg hargument, if_neg hargument]
      exact .ok (.some (.expression (.call callee)))
  by_cases haccess : n.kind.canonical = Kind.propertyAccess
  · rw [outcome_build_propertyAccess depth haccess,
      outcome_build_propertyAccess depth (by rwa [h.kind]), h.kind]
    refine (buildExpression_requoted hcs ihcs depth n.kind .object 0).bind ?_
    rintro _ object rfl
    refine (buildExpression_requoted hcs ihcs depth n.kind .propertyName 1).bind ?_
    rintro _ name rfl
    rw [asMemberName_requoted hcs]
    refine Alike.bind (.of_eq (fun _ => rfl) rfl) fun id' id hid => ?_
    rw [hid]
    exact .ok (.some (.expression (.member object id)))
  -- nodes of all other kinds are read as nothing, or fail for their kind
  have hother : n.kind.canonical ∉ programKinds := by simp [programKinds, *]
  rw [outcome_build_other depth hother, outcome_build_other depth (by rwa [h.kind]), h.kind]
  split
  · exact .error _
  · exact .ok .none

theorem buildsAlike (q : Literal → Literal) (n : Node) :
    BuildsAlike q n ∧ ∀ c ∈ n.children, BuildsAlike q c := by
  induction n using inductionOn with
  | step n ih => exact ⟨buildsAlike_of_children ih, fun c hc => (ih c hc).1⟩

/-- Trees that differ in lists and literals are read as constructs that differ in keywords and
literals. -/
theorem Requoted.build {n n' : Node} (h : Requoted q n' n) (depth : Nat) :
    Alike (Option.Rel (Matches q)) (n'.build depth).outcome (n.build depth).outcome :=
  (buildsAlike q n).1 n' depth h

end Node

end TreeMend
