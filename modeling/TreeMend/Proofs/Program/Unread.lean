import TreeMend.Proofs.Program.Building
import TreeMend.Proofs.Tree.Positions

/-!
# What reading a tree does not look at

Reading a tree carries along the depth of each node and asks for the verbosity at each, for the
log.  What the tree is read as, or why it cannot be read, is the same at every depth and every
verbosity, and it does not depend on the byte ranges of the nodes either: kinds and texts are all
that counts.

## Main definitions

* `Node.mapSpans` — the tree with a function applied to its byte ranges.
* `Node.Read.Steady` — a reading that comes to the same at every verbosity.

## Main results

* `Node.outcome_build_mapSpans` — the outcome of reading a tree depends neither on its byte ranges
  nor on its depth.
* `Node.outcome_build_depth`, `Node.outcome_render_mapSpans` — what follows for the depth alone, and
  for rendering.
* `Node.steady_build`, `Node.steady_render` — a tree is read as the same, and has the same text, at
  every verbosity.
-/

namespace TreeMend.Node

variable (f : Span → Span)

/-! ### Trees with other ranges -/

mutual

/-- The tree with a function applied to its byte ranges. -/
def mapSpans (f : Span → Span) : Node → Node
  | ⟨kind, text, span, children⟩ => ⟨kind, text, f span, mapSpansList f children⟩

/-- The trees with a function applied to their byte ranges. -/
def mapSpansList (f : Span → Span) : List Node → List Node
  | [] => []
  | n :: ns => mapSpans f n :: mapSpansList f ns

end

theorem mapSpansList_eq_map (cs : List Node) : mapSpansList f cs = cs.map (mapSpans f) := by
  induction cs with
  | nil => rfl
  | cons c cs ih => rw [mapSpansList, ih, List.map_cons]

@[simp] theorem kind_mapSpans (n : Node) : (n.mapSpans f).kind = n.kind := by
  cases n; rfl

@[simp] theorem text_mapSpans (n : Node) : (n.mapSpans f).text = n.text := by
  cases n; rfl

@[simp] theorem children_mapSpans (n : Node) :
    (n.mapSpans f).children = n.children.map (mapSpans f) := by
  cases n
  exact mapSpansList_eq_map f _

@[simp] theorem literal_mapSpans (n : Node) : (n.mapSpans f).literal = n.literal := by
  simp [literal]

theorem typeAnnotation_mapSpans (n : Node) :
    typeAnnotation (n.mapSpans f) = typeAnnotation n := by
  unfold typeAnnotation
  rw [kind_mapSpans]

/-! ### Parts -/

/-- The tree is read as the same with other byte ranges and at another depth. -/
def ReadAlike (n : Node) : Prop :=
  ∀ d d', ((n.mapSpans f).build d).outcome = (n.build d').outcome

variable {f} {cs : List Node} (d d' : Nat)

theorem outcome_buildAll_mapSpans (h : ∀ c ∈ cs, ReadAlike f c) :
    (buildAll d (cs.map (mapSpans f))).outcome = (buildAll d' cs).outcome := by
  induction cs with
  | nil => rfl
  | cons c cs ih =>
    obtain ⟨hc, hcs⟩ := List.forall_mem_cons.mp h
    rw [List.map_cons, outcome_buildAll_cons, outcome_buildAll_cons, hc d d', ih hcs]

theorem outcome_buildTopLevel_mapSpans
    (h : ∀ c ∈ cs, ReadAlike f c ∧ ∀ e ∈ c.children, ReadAlike f e) :
    (buildTopLevel d (cs.map (mapSpans f))).outcome = (buildTopLevel d' cs).outcome := by
  induction cs with
  | nil => rfl
  | cons c cs ih =>
    obtain ⟨⟨hc, hbelow⟩, hcs⟩ := List.forall_mem_cons.mp h
    rw [List.map_cons, outcome_buildTopLevel_cons, outcome_buildTopLevel_cons,
      hc (d + 1) (d' + 1), ih hcs, children_mapSpans,
      outcome_buildAll_mapSpans (d + 2) (d' + 2) hbelow, kind_mapSpans]

theorem outcome_buildFirstList_mapSpans (h : ∀ c ∈ cs, ReadAlike f c) :
    (buildFirstList d (cs.map (mapSpans f))).outcome = (buildFirstList d' cs).outcome := by
  rw [outcome_buildFirstList, outcome_buildFirstList, List.find?_map]
  have hkind : (·.kind == Kind.declarationList) ∘ mapSpans f =
      (·.kind == Kind.declarationList) := by
    funext c
    simp
  rw [hkind]
  cases hfind : cs.find? (·.kind == Kind.declarationList) with
  | none => rfl
  | some c => exact h c (List.mem_of_find?_eq_some hfind) d d'

theorem outcome_asStatement_mapSpans (parent : Kind) (c : Node) (b : Option Construct) :
    (asStatement parent (c.mapSpans f) b).outcome = (asStatement parent c b).outcome := by
  simp [asStatement]

theorem outcome_asExpression_mapSpans (parent : Kind) (role : Role) (c : Node)
    (b : Option Construct) :
    (asExpression parent role (c.mapSpans f) b).outcome =
      (asExpression parent role c b).outcome := by
  simp [asExpression]

theorem outcome_buildStatement_mapSpans (h : ∀ c ∈ cs, ReadAlike f c) (parent : Kind) :
    (buildStatement d parent (cs.map (mapSpans f))).outcome =
      (buildStatement d' parent cs).outcome := by
  rw [outcome_buildStatement, outcome_buildStatement]
  cases cs with
  | nil => rfl
  | cons c cs =>
    have hc := h c List.mem_cons_self (d + 1) (d' + 1)
    simp only [List.map_cons, List.head?_cons, hc, outcome_asStatement_mapSpans]

theorem outcome_buildExpression_mapSpans (h : ∀ c ∈ cs, ReadAlike f c) (parent : Kind)
    (role : Role) (i : Nat) :
    (buildExpression d parent role i (cs.map (mapSpans f))).outcome =
      (buildExpression d' parent role i cs).outcome := by
  rw [outcome_buildExpression, outcome_buildExpression, List.getElem?_map]
  cases hi : cs[i]? with
  | none => rfl
  | some c =>
    have hc := h c (List.mem_of_getElem? hi) (d + 1) (d' + 1)
    simp only [Option.map_some, hc, outcome_asExpression_mapSpans]

theorem declarationParts_map (cs : List Node) :
    declarationParts (cs.map (mapSpans f)) =
      ((declarationParts cs).1.map (mapSpans f), (declarationParts cs).2.map (mapSpans f)) := by
  match cs with
  | [] => rfl
  | [c] =>
    simp only [List.map_cons, List.map_nil, declarationParts, kind_mapSpans]
    split <;> rfl
  | _ :: _ :: _ => rfl

theorem outcome_readDeclaration_mapSpans (parent : Kind) (cs : List Node) :
    (readDeclaration d parent (cs.map (mapSpans f))).outcome =
      (readDeclaration d' parent cs).outcome := by
  have htype : ∀ t : Option Node, ((t.map (mapSpans f)).mapM (readType (d + 1))).outcome =
      (t.mapM (readType (d' + 1))).outcome := by
    intro t
    cases t with
    | none => rfl
    | some c =>
      rw [Option.map_some, outcome_mapM_some, outcome_mapM_some, outcome_readType,
        outcome_readType, typeAnnotation_mapSpans]
  have hinitializer : ∀ t : Option Node,
      ((t.map (mapSpans f)).mapM (readInitializer (d + 1))).outcome =
        (t.mapM (readInitializer (d' + 1))).outcome := by
    intro t
    cases t with
    | none => rfl
    | some c =>
      rw [Option.map_some, outcome_mapM_some, outcome_mapM_some, outcome_readInitializer,
        outcome_readInitializer, literal_mapSpans]
  cases cs with
  | nil => rfl
  | cons name rest =>
    by_cases hname : name.kind.canonical = Kind.identifier
    · rw [List.map_cons, outcome_readDeclaration_cons d (by rwa [kind_mapSpans]),
        outcome_readDeclaration_cons d' hname, declarationParts_map, htype, hinitializer,
        text_mapSpans]
    · rw [List.map_cons, readDeclaration, readDeclaration, kind_mapSpans, if_pos hname,
        if_pos hname]

theorem checkOperator_mapSpans (parent : Kind) (cs : List Node) :
    checkOperator parent (cs.map (mapSpans f)) = checkOperator parent cs := by
  match cs with
  | [] => rfl
  | [_] => rfl
  | _ :: operator :: _ => simp [checkOperator]

theorem asMemberName_mapSpans (parent : Kind) (cs : List Node) (e : Expression) :
    asMemberName parent (cs.map (mapSpans f)) e = asMemberName parent cs e := by
  match cs with
  | [] => cases e <;> rfl
  | [_] => cases e <;> rfl
  | _ :: name :: _ => cases e <;> simp [asMemberName]

/-! ### Trees -/

/-- One node: its parts are read alike. -/
theorem readAlike_of_children {n : Node}
    (h : ∀ c ∈ n.children, ReadAlike f c ∧ ∀ e ∈ c.children, ReadAlike f e) : ReadAlike f n := by
  intro d d'
  have hcs : ∀ c ∈ n.children, ReadAlike f c := fun c hc => (h c hc).1
  rw [outcome_build d, outcome_build d', kind_mapSpans, text_mapSpans, children_mapSpans,
    literal_mapSpans, outcome_buildTopLevel_mapSpans d d' h,
    outcome_buildFirstList_mapSpans (d + 1) (d' + 1) hcs,
    outcome_buildAll_mapSpans (d + 1) (d' + 1) hcs, outcome_readDeclaration_mapSpans d d',
    outcome_buildStatement_mapSpans d d' hcs, checkOperator_mapSpans, List.length_map]
  simp only [outcome_buildExpression_mapSpans d d' hcs, asMemberName_mapSpans]

/-- The outcome of reading a tree does not depend on its byte ranges nor on its depth. -/
theorem outcome_build_mapSpans (f : Span → Span) (n : Node) (d d' : Nat) :
    ((n.mapSpans f).build d).outcome = (n.build d').outcome := by
  have halike : ReadAlike f n ∧ ∀ c ∈ n.children, ReadAlike f c := by
    induction n using inductionOn with
    | step n ih => exact ⟨readAlike_of_children ih, fun c hc => (ih c hc).1⟩
  exact halike.1 d d'

theorem mapSpans_id (n : Node) : n.mapSpans id = n := by
  induction n using inductionOn with
  | step n ih =>
    obtain ⟨kind, text, span, children⟩ := n
    rw [mapSpans, mapSpansList_eq_map, List.map_congr_left ih, List.map_id']
    rfl

/-- The outcome of reading a tree does not depend on its depth. -/
theorem outcome_build_depth (n : Node) (d d' : Nat) :
    (n.build d).outcome = (n.build d').outcome := by
  rw [← outcome_build_mapSpans id n d d', mapSpans_id]

/-- The text of a tree does not depend on its byte ranges. -/
theorem outcome_render_mapSpans (f : Span → Span) (nl : NewLine) (n : Node) :
    ((n.mapSpans f).render nl).outcome = (n.render nl).outcome := by
  rw [render, render, Read.outcome_bind, Read.outcome_bind, outcome_build_mapSpans f n 0 0]

/-! ### Verbosity -/

namespace Read

variable {α β : Type}

/-- The reading comes to the same at every verbosity. -/
def Steady (x : Read α) : Prop := ∀ verbosity, (x.run verbosity).outcome = x.outcome

theorem steady_pure (a : α) : (pure a : Read α).Steady := fun _ => rfl

theorem steady_fail (e : RenderError) : (fail e : Read α).Steady := fun _ => rfl

theorem steady_ofExcept (x : Except RenderError α) : (ofExcept x).Steady := fun _ => rfl

theorem Steady.bind {x : Read α} {f : α → Read β} (hx : x.Steady) (hf : ∀ a, (f a).Steady) :
    (x >>= f).Steady := by
  intro verbosity
  have hnext : (fun a => ((f a).run verbosity).outcome) = fun a => (f a).outcome :=
    funext fun a => hf a verbosity
  rw [run_bind, Traced.outcome_bind, outcome_bind, hx verbosity, hnext]

/-- A line in the log is all that depends on the verbosity. -/
theorem steady_visit (depth : Nat) (n : Node) : (visit depth n).Steady := by
  intro verbosity
  cases verbosity <;> rfl

theorem steady_mapM {f : Node → Read α} (hf : ∀ c, (f c).Steady) (c : Option Node) :
    (c.mapM f).Steady := by
  cases c with
  | none => exact steady_pure none
  | some c => exact (hf c).bind fun a => steady_pure (some a)

end Read

open Read

theorem steady_readType (c : Node) : (readType d c).Steady :=
  (steady_visit d c).bind fun _ => steady_ofExcept _

theorem steady_readInitializer (c : Node) : (readInitializer d c).Steady :=
  (steady_visit d c).bind fun _ => (steady_ofExcept _).bind fun _ => steady_pure _

theorem steady_readDeclaration (parent : Kind) (cs : List Node) :
    (readDeclaration d parent cs).Steady := by
  cases cs with
  | nil => exact steady_fail _
  | cons name rest =>
    rw [readDeclaration]
    split
    · exact steady_fail _
    · refine (steady_visit _ name).bind fun _ => ?_
      refine (steady_mapM (steady_readType _) _).bind fun type => ?_
      exact (steady_mapM (steady_readInitializer _) _).bind fun initializer => steady_pure _

theorem steady_asExpression (parent : Kind) (role : Role) (c : Node) (b : Option Construct) :
    (asExpression parent role c b).Steady := by
  unfold asExpression
  split <;> first | exact steady_pure _ | exact steady_fail _

theorem steady_asStatement (parent : Kind) (c : Node) (b : Option Construct) :
    (asStatement parent c b).Steady := by
  unfold asStatement
  split <;> first | exact steady_pure _ | exact steady_fail _

theorem steady_checkOperator (parent : Kind) (cs : List Node) :
    (checkOperator parent cs).Steady := by
  unfold checkOperator
  split
  · split
    · exact steady_pure ()
    · exact steady_fail _
  · exact steady_pure ()

theorem steady_asMemberName (parent : Kind) (cs : List Node) (e : Expression) :
    (asMemberName parent cs e).Steady := by
  unfold asMemberName
  split <;> first | exact steady_pure _ | exact steady_fail _

/-- At every depth, a tree is read as the same at every verbosity. -/
def BuildsSteadily (n : Node) : Prop := ∀ depth, (n.build depth).Steady

theorem steady_buildAll (h : ∀ c ∈ cs, BuildsSteadily c) : (buildAll d cs).Steady := by
  induction cs with
  | nil => exact steady_pure []
  | cons c cs ih =>
    obtain ⟨hc, hcs⟩ := List.forall_mem_cons.mp h
    exact (hc d).bind fun b => (ih hcs).bind fun bs => steady_pure (b :: bs)

theorem steady_buildTopLevel
    (h : ∀ c ∈ cs, BuildsSteadily c ∧ ∀ e ∈ c.children, BuildsSteadily e) :
    (buildTopLevel d cs).Steady := by
  induction cs with
  | nil => exact steady_pure []
  | cons c cs ih =>
    obtain ⟨⟨hc, hbelow⟩, hcs⟩ := List.forall_mem_cons.mp h
    obtain ⟨kind, text, span, children⟩ := c
    have hrest : ∀ bs, (buildTopLevel d cs >>= fun rest => pure (bs ++ rest)).Steady :=
      fun bs => (ih hcs).bind fun rest => steady_pure (bs ++ rest)
    rw [buildTopLevel]
    split
    · exact (steady_buildAll (d + 2) hbelow).bind hrest
    · exact (hc (d + 1)).bind fun b => (steady_pure [b]).bind hrest

theorem steady_buildFirstList (h : ∀ c ∈ cs, BuildsSteadily c) : (buildFirstList d cs).Steady := by
  induction cs with
  | nil => exact steady_pure none
  | cons c cs ih =>
    obtain ⟨hc, hcs⟩ := List.forall_mem_cons.mp h
    rw [buildFirstList]
    split
    · exact hc d
    · exact ih hcs

theorem steady_buildStatement (h : ∀ c ∈ cs, BuildsSteadily c) (parent : Kind) :
    (buildStatement d parent cs).Steady := by
  cases cs with
  | nil => exact steady_pure none
  | cons c cs =>
    exact (h c List.mem_cons_self (d + 1)).bind fun b => steady_asStatement parent c b

theorem steady_buildExpression (h : ∀ c ∈ cs, BuildsSteadily c) (parent : Kind) (role : Role)
    (i : Nat) : (buildExpression d parent role i cs).Steady := by
  induction cs generalizing i with
  | nil => exact steady_fail _
  | cons c cs ih =>
    obtain ⟨hc, hcs⟩ := List.forall_mem_cons.mp h
    cases i with
    | zero => exact (hc (d + 1)).bind fun b => steady_asExpression parent role c b
    | succ i => exact ih hcs i

/-- One node, whatever its kind: its parts are read steadily. -/
theorem buildsSteadily_of_children {n : Node}
    (h : ∀ c ∈ n.children, BuildsSteadily c ∧ ∀ e ∈ c.children, BuildsSteadily e) :
    BuildsSteadily n := by
  intro d
  obtain ⟨kind, text, span, children⟩ := n
  have hcs : ∀ c ∈ children, BuildsSteadily c := fun c hc => (h c hc).1
  rw [build]
  refine (steady_visit d _).bind fun _ => ?_
  split
  · exact (steady_buildTopLevel d h).bind fun built => steady_pure _
  · exact steady_buildFirstList (d + 1) hcs
  · exact (steady_buildAll (d + 1) hcs).bind fun built => steady_pure _
  · exact (steady_readDeclaration d kind children).bind fun declaration => steady_pure _
  · exact steady_pure _
  · exact steady_pure _
  · exact (steady_ofExcept _).bind fun l => steady_pure _
  · exact steady_buildStatement d hcs kind
  · refine (steady_checkOperator kind children).bind fun _ => ?_
    refine (steady_buildExpression d hcs kind .leftOperand 0).bind fun target => ?_
    exact (steady_buildExpression d hcs kind .rightOperand 2).bind fun value => steady_pure _
  · refine (steady_buildExpression d hcs kind .callee 0).bind fun callee => ?_
    split
    · exact (steady_buildExpression d hcs kind .argument 1).bind fun argument => steady_pure _
    · exact steady_pure _
  · refine (steady_buildExpression d hcs kind .object 0).bind fun object => ?_
    refine (steady_buildExpression d hcs kind .propertyName 1).bind fun name => ?_
    exact (steady_asMemberName kind children name).bind fun id => steady_pure _
  · split
    · exact (steady_ofExcept _).bind fun l => steady_pure _
    · exact steady_pure none

/-- What a tree is read as does not depend on the verbosity. -/
theorem steady_build (n : Node) (d : Nat) : (n.build d).Steady := by
  have hsteady : BuildsSteadily n ∧ ∀ c ∈ n.children, BuildsSteadily c := by
    induction n using inductionOn with
    | step n ih => exact ⟨buildsSteadily_of_children ih, fun c hc => (ih c hc).1⟩
  exact hsteady.1 d

/-- The text of a tree does not depend on the verbosity. -/
theorem steady_render (nl : NewLine) (n : Node) : (n.render nl).Steady :=
  (steady_build n 0).bind fun _ => steady_pure _

end TreeMend.Node
