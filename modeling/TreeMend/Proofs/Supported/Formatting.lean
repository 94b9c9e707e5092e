import TreeMend.Format
import TreeMend.Proofs.Fix.Simultaneous
import TreeMend.Proofs.Program.Unread
import TreeMend.Proofs.Supported.Declarations

/-!
# Formatting the supported language

The statements of a file are read one by one, and a run without fixes prints what they stand for.

## Main definitions

* `ParseTree.SimulatesStatement` — a parse node is lowered to a node that counts as one statement
  at the top of a file.

## Main results

* `ParseTree.exists_simulates_statement` — a statement is lowered to what it stands for.
* `ParseTree.exists_build_lowerProgram` — a file is lowered to what it stands for.
* `Fix.pass_tree_of_disabled` — a pass without rules leaves the tree as it is.
* `Format.run_supported` — **formatting a file of the supported language** prints the program that
  its parse tree stands for.
-/

namespace TreeMend

theorem Node.statementsOf_append_none (ss : List Statement) :
    statementsOf (ss.map (fun s => some (.statement s)) ++ [none]) = ss := by
  unfold statementsOf
  rw [List.filterMap_append, List.filterMap_map]
  change List.filterMap some ss ++ [] = ss
  rw [List.filterMap_some, List.append_nil]

/-! ### Statements -/

namespace ParseTree

/-- A parse node is lowered to one node, which counts as the statement `s` at the top of a file. -/
def SimulatesStatement (src : String) (t : ParseTree) (s : Statement) : Prop :=
  ∃ n, lowerPart src t = [n] ∧ ∀ depth rest,
    (Node.buildTopLevel depth (n :: rest)).outcome =
      (Node.buildTopLevel depth rest).outcome.bind fun built => .ok (some (.statement s) :: built)

variable {src : String} {t : ParseTree}

theorem exists_simulates_expressionStatement {u : ParseTree} (h : Clean src t)
    (hsignificant : t.token.isSignificant = true) (hkind : t.kind = "expression_statement")
    (hparts : t.significant = [u]) (hu : IsExpression u) :
    ∃ s, readStatement? src t = some s ∧ SimulatesStatement src t s := by
  have hmem : (t.kind, Shape.branch Kind.expressionStatement) ∈ fixedShapes := by
    rw [hkind]; decide
  obtain ⟨hfate, hs, hkept⟩ := kept_of_mem src hsignificant hmem
  have hpart : u ∈ t.significant := by rw [hparts]; simp
  obtain ⟨e, he, n, -, hn, -, hbuild⟩ :=
    exists_simulates_expression hu (h.part hpart) (isSignificant_of_mem hpart)
  have hlower := lowerInto_branch src hfate hs
  rw [h.lowerChildren_eq, hparts, List.flatMap_singleton, hn] at hlower
  refine ⟨.expression e, ?_, _, hkept.trans hlower, ?_⟩
  · have hrule : t.kind ∉ declarationRules := by rw [hkind]; decide
    rw [readStatement?, if_neg hrule, hparts]
    simp [he]
  · intro depth rest
    set m := nodeOf src Kind.expressionStatement t.token [n] with hm
    have hstatement : (m.build (depth + 1)).outcome =
        .ok (some (.statement (.expression e))) := by
      rw [Node.outcome_build_expressionStatement (depth + 1) (by rfl), Node.outcome_buildStatement]
      simp only [hm, nodeOf, List.head?_cons, hbuild, Except.bind]
      rfl
    have hcanonical : m.kind.canonical ≠ Kind.variableStatement := by
      rw [show m.kind = Kind.expressionStatement from rfl]
      decide
    rw [Node.outcome_buildTopLevel_cons, if_neg hcanonical, hstatement]
    rfl

/-- A statement of the supported language is lowered to what it stands for. -/
theorem exists_simulates_statement (h : IsStatement src t) (hclean : Clean src t)
    (hsignificant : t.token.isSignificant = true) :
    ∃ s, readStatement? src t = some s ∧ SimulatesStatement src t s := by
  cases h with
  | declaration hkind hhead hword hparts =>
    obtain ⟨s, list, hread, hlower, hbuild⟩ :=
      exists_simulates_declaration hclean hsignificant hkind hhead hword hparts
    refine ⟨s, hread, _, hlower, fun depth rest => ?_⟩
    -- the statement around the list counts by its children
    rw [Node.outcome_buildTopLevel_cons, if_pos (by rfl)]
    simp only [nodeOf, Node.outcome_buildAll_cons, hbuild, Node.outcome_buildAll_nil, Except.bind]
    rfl
  | expression hkind hparts hu =>
    exact exists_simulates_expressionStatement hclean hsignificant hkind hparts hu

/-- Statements one after another are lowered to what they stand for. -/
theorem exists_simulates_statements {ts : List ParseTree}
    (h : ∀ t ∈ ts, ∃ s, readStatement? src t = some s ∧ SimulatesStatement src t s) :
    ∃ ss, ts.mapM (readStatement? src) = some ss ∧ ∀ depth rest,
      (Node.buildTopLevel depth (ts.flatMap (lowerPart src) ++ rest)).outcome =
        (Node.buildTopLevel depth rest).outcome.bind fun built =>
          .ok (ss.map (fun s => some (.statement s)) ++ built) := by
  induction ts with
  | nil =>
    refine ⟨[], rfl, fun depth rest => ?_⟩
    rw [List.flatMap_nil, List.nil_append]
    cases (Node.buildTopLevel depth rest).outcome <;> rfl
  | cons t ts ih =>
    obtain ⟨s, hs, n, hn, hbuild⟩ := h t List.mem_cons_self
    obtain ⟨ss, hss, hbuilds⟩ := ih fun u hu => h u (List.mem_cons_of_mem t hu)
    refine ⟨s :: ss, ?_, fun depth rest => ?_⟩
    · rw [List.mapM_cons, hs, hss]
      rfl
    · rw [List.flatMap_cons, hn, List.singleton_append, List.cons_append, hbuild, hbuilds]
      cases (Node.buildTopLevel depth rest).outcome <;> rfl

/-! ### Files -/

theorem outcome_buildTopLevel_endOfFile (depth stop : Nat) :
    (Node.buildTopLevel depth [⟨Kind.endOfFile, "", ⟨stop, stop⟩, []⟩]).outcome = .ok [none] := by
  have hother : Kind.endOfFile.canonical ∉ Node.programKinds := by decide
  have hstatement : Kind.endOfFile.canonical ≠ Kind.variableStatement := by decide
  rw [Node.outcome_buildTopLevel_cons, if_neg hstatement, Node.outcome_build_other _ hother]
  simp only [Node.outcome_buildTopLevel_nil]
  rfl

/-- A file of the supported language is lowered to what it stands for. -/
theorem exists_build_lowerProgram (h : IsFile src t) (hclean : Clean src t) :
    ∃ program, readProgram? src t = some program ∧ ∀ depth,
      ((lowerProgram src t).build depth).outcome = .ok (some (.program program)) := by
  obtain ⟨ss, hss, hbuild⟩ := exists_simulates_statements fun s hs =>
    exists_simulates_statement (h s hs) (hclean.part hs) (isSignificant_of_mem hs)
  refine ⟨⟨ss⟩, ?_, fun depth => ?_⟩
  · rw [readProgram?, hss]
    rfl
  · rw [Node.outcome_build_sourceFile depth (by rfl), lowerProgram, hclean.lowerChildren_eq]
    simp only [hbuild, outcome_buildTopLevel_endOfFile, Except.bind,
      Node.statementsOf_append_none]

/-- What is assumed of the parse tree of a file makes all its nodes clean. -/
theorem Clean.of_grammatical (hgrammar : Grammatical t) (herror : t.hasError = false)
    (hlocated : ∀ u ∈ t.subtrees, Located src u) : Clean src t := by
  intro p u hu
  exact ⟨hgrammar.regular p u hu, error_of_get? herror hu, hlocated u (mem_subtrees hu)⟩

end ParseTree

/-! ### Runs -/

/-- A pass without rules leaves the tree as it is. -/
theorem Fix.pass_tree_of_disabled {config : Config} {rules : List FixRule}
    (h : ∀ r ∈ rules, config.isEnabled r.name = false) (root : Node) (position : Position)
    (depth : Nat) : (pass config rules root position depth).tree = root := by
  have hnone : enabled config rules = [] := by
    rw [enabled, List.filter_eq_nil_iff]
    intro r hr
    rw [h r hr]
    exact Bool.false_ne_true
  unfold pass passFrom
  -- no step of the pass touches the tree
  have hstep : ∀ (todo : List Position) (p : Progress),
      (todo.foldl (fun p q => visit config rules (depth + q.length) p (position ++ q)) p).tree =
        p.tree := by
    intro todo
    induction todo with
    | nil => exact fun p => rfl
    | cons q todo ih =>
      intro p
      rw [List.foldl_cons, ih, visit, hnone, List.foldl_nil, trace_tree]
  exact hstep _ _

namespace Format

/-- Without fixes, the formatted text is the text of the lowered tree. -/
theorem outcome_run_of_disabled (w : World) {config : Config}
    (h : ∀ r ∈ Catalog.fixes, config.isEnabled r.name = false) (p : Path) (content : String) :
    (run w config p content).outcome =
      (((ParseTree.lowerProgram content (w.parser (Dialect.ofPath p) p content)).render
        .lineFeed).outcome.mapError (.notFormatted p)) := by
  set tree := ParseTree.lowerProgram content (w.parser (Dialect.ofPath p) p content) with htree
  have hparse : (w.parseFile p content).outcome = .ok tree := by
    rw [World.parseFile, Traced.outcome_bind]
    rfl
  have hfixed : (fixed config p tree).outcome = (tree.render .lineFeed).outcome := by
    rw [fixed, Fix.pass_tree_of_disabled h, Traced.outcome_bind]
    change Except.bind (.ok ()) _ = _
    simp only [Except.bind, Traced.outcome_bind, Traced.outcome_record]
    exact tree.steady_render .lineFeed config.verbosity
  rw [run, Traced.outcome_bind, hparse, ← hfixed]
  rfl

open ParseTree

/-- **Formatting a file of the supported language.**  With every fix off, the run succeeds and its
text is the text of the program that the parse tree stands for. -/
theorem run_supported (w : World) (config : Config) (p : Path) (content : String)
    {t : ParseTree} (hparser : w.parser (Dialect.ofPath p) p content = t)
    (hgrammar : Grammatical t) (herror : t.hasError = false)
    (hlocated : ∀ u ∈ t.subtrees, Located content u) (hfile : IsFile content t)
    (hoff : ∀ r ∈ Catalog.fixes, config.isEnabled r.name = false) :
    ∃ program, readProgram? content t = some program ∧
      (run w config p content).outcome = .ok (program.render .lineFeed) := by
  obtain ⟨program, hread, hbuild⟩ :=
    exists_build_lowerProgram hfile (.of_grammatical hgrammar herror hlocated)
  refine ⟨program, hread, ?_⟩
  rw [outcome_run_of_disabled w hoff, hparser, Node.render, Node.Read.outcome_bind, hbuild]
  rfl

/-- A source with a declaration, comments and a call. -/
def greetingSource : String := "let a: string = \"x\"; // greet\nlog(a.b = 'y' /* c */);\n"

/-- The parse tree of `greetingSource`. -/
def greetingTree : ParseTree :=
  ⟨⟨"program", true, false, false, false, 0, 54, none⟩, [
    ⟨⟨"lexical_declaration", true, false, false, false, 0, 20, none⟩, [
      ⟨⟨"let", false, false, false, false, 0, 3, some "kind"⟩, []⟩,
      ⟨⟨"variable_declarator", true, false, false, false, 4, 19, none⟩, [
        ⟨⟨"identifier", true, false, false, false, 4, 5, some "name"⟩, []⟩,
        ⟨⟨"type_annotation", true, false, false, false, 5, 13, some "type"⟩, [
          ⟨⟨":", false, false, false, false, 5, 6, none⟩, []⟩,
          ⟨⟨"predefined_type", true, false, false, false, 7, 13, none⟩, [
            ⟨⟨"string", false, false, false, false, 7, 13, none⟩, []⟩]⟩]⟩,
        ⟨⟨"=", false, false, false, false, 14, 15, none⟩, []⟩,
        ⟨⟨"string", true, false, false, false, 16, 19, some "value"⟩, [
          ⟨⟨"\"", false, false, false, false, 16, 17, none⟩, []⟩,
          ⟨⟨"string_fragment", true, false, false, false, 17, 18, none⟩, []⟩,
          ⟨⟨"\"", false, false, false, false, 18, 19, none⟩, []⟩]⟩]⟩,
      ⟨⟨";", false, false, false, false, 19, 20, none⟩, []⟩]⟩,
    ⟨⟨"comment", true, true, false, false, 21, 29, none⟩, []⟩,
    ⟨⟨"expression_statement", true, false, false, false, 30, 53, none⟩, [
      ⟨⟨"call_expression", true, false, false, false, 30, 52, none⟩, [
        ⟨⟨"identifier", true, false, false, false, 30, 33, some "function"⟩, []⟩,
        ⟨⟨"arguments", true, false, false, false, 33, 52, some "arguments"⟩, [
          ⟨⟨"(", false, false, false, false, 33, 34, none⟩, []⟩,
          ⟨⟨"assignment_expression", true, false, false, false, 34, 43, none⟩, [
            ⟨⟨"member_expression", true, false, false, false, 34, 37, some "left"⟩, [
              ⟨⟨"identifier", true, false, false, false, 34, 35, some "object"⟩, []⟩,
              ⟨⟨".", false, false, false, false, 35, 36, none⟩, []⟩,
              ⟨⟨"property_identifier", true, false, false, false, 36, 37, some "property"⟩, []⟩]⟩,
            ⟨⟨"=", false, false, false, false, 38, 39, none⟩, []⟩,
            ⟨⟨"string", true, false, false, false, 40, 43, some "right"⟩, [
              ⟨⟨"'", false, false, false, false, 40, 41, none⟩, []⟩,
              ⟨⟨"string_fragment", true, false, false, false, 41, 42, none⟩, []⟩,
              ⟨⟨"'", false, false, false, false, 42, 43, none⟩, []⟩]⟩]⟩,
          ⟨⟨"comment", true, true, false, false, 44, 51, none⟩, []⟩,
          ⟨⟨")", false, false, false, false, 51, 52, none⟩, []⟩]⟩]⟩,
      ⟨⟨";", false, false, false, false, 52, 53, none⟩, []⟩]⟩]⟩

/-- Surroundings whose parser knows this source only. -/
def greetingWorld : World := { files := default, parser := fun _ _ _ => greetingTree }

theorem run_greeting :
    (∀ r ∈ Catalog.fixes, (default : Config).isEnabled r.name = false) ∧
      (run greetingWorld default "a.ts" greetingSource).outcome =
        .ok "let a: string = \"x\";\nlog(a.b = 'y');\n" := by
  have hoff : ∀ r ∈ Catalog.fixes, (default : Config).isEnabled r.name = false := by decide +kernel
  have hgrammar : Grammatical greetingTree := .of_listing (Or.inl rfl) (by decide +kernel)
  have hlocated : ∀ u ∈ greetingTree.subtrees, Located greetingSource u := by decide +kernel
  have hfile : IsFile greetingSource greetingTree := by
    intro s hs
    rcases List.mem_cons.mp hs with rfl | hs
    · refine .declaration (by decide) rfl (by decide) fun v hv => ?_
      obtain rfl := List.mem_singleton.mp hv
      refine ⟨rfl, _, some _, some _, rfl, rfl, rfl, rfl, rfl, ?_, ?_⟩
      · intro a ha
        obtain rfl := Option.some.inj ha
        exact ⟨rfl, _, rfl, rfl, by decide +kernel⟩
      · intro s hs
        obtain rfl := Option.some.inj hs
        rfl
    · obtain rfl := List.mem_singleton.mp hs
      refine .expression rfl rfl (.call rfl rfl rfl rfl rfl (by decide) (.identifier rfl) ?_)
      intro a ha
      obtain rfl := List.mem_singleton.mp ha
      exact .assignment rfl rfl rfl rfl (.member rfl rfl rfl rfl rfl (.identifier rfl))
        (.string rfl)
  have hparser : greetingWorld.parser (Dialect.ofPath "a.ts") "a.ts" greetingSource =
      greetingTree := rfl
  obtain ⟨program, hread, hrun⟩ := run_supported greetingWorld default "a.ts" greetingSource
    hparser hgrammar (by decide +kernel) hlocated hfile hoff
  have htext : (readProgram? greetingSource greetingTree).map (·.render .lineFeed) =
      some "let a: string = \"x\";\nlog(a.b = 'y');\n" := by decide +kernel
  rw [hread] at htext
  rw [hrun, ← Option.some.inj htext]
  exact ⟨hoff, rfl⟩

end Format

end TreeMend
