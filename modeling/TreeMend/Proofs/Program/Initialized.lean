import TreeMend.Proofs.Program.Fixed

/-!
# Constants have initializers

A list is made constant only if each of its declarations has an initializer, and the rule and the
reader do not look for it in the same way.  The rule asks whether some child behind the name is no
type.  The reader takes the children behind the name by their places, and looks at a kind only if
there is a single one.  What the rule takes for an initializer may be read as something else, but a
declaration that the rule takes for initialized is never read without an initializer.

## Main results

* `Node.isSome_initializer_of_build` — a declaration that could be constant is read with an
  initializer.
* `Fix.lists_build_pass` — **the lists that a pass makes constant are read with initializers**.
-/

namespace TreeMend

open Reassignment (boundName? boundNames?)

namespace Node

variable {depth : Nat}

/-- If not all children behind the name are types, one of them is taken for the initializer. -/
theorem isSome_declarationParts {rest : List Node} (h : rest.any (!·.kind.isType) = true) :
    (declarationParts rest).2.isSome = true := by
  match rest with
  | [] => cases h
  | [only] =>
    have honly : only.kind.isType = false := by simpa using h
    rw [declarationParts, honly]
    rfl
  | type :: initializer :: _ => rfl

/-- A declaration that could be constant is read with an initializer. -/
theorem isSome_initializer_of_build {n : Node} (hname : (boundName? n).isSome = true)
    {d : Declaration} (h : (n.build depth).outcome = .ok (some (.declaration d))) :
    d.initializer.isSome = true := by
  have hkind : n.kind.canonical = Kind.declaration :=
    List.mem_singleton.mp (mem_sortKinds_of_build h)
  rw [outcome_build_declaration depth hkind] at h
  obtain ⟨d', hread, h⟩ := Except.bind_eq_ok_iff.mp h
  obtain rfl : d' = d := Construct.declaration.inj (Option.some.inj (Except.ok.inj h))
  unfold boundName? at hname
  split at hname
  · cases hname
  · next name rest hchildren =>
    split at hname
    · next hcond =>
      obtain ⟨hplain, hany⟩ := Bool.and_eq_true_iff.mp hcond
      have hidentifier : name.kind.canonical = Kind.identifier := by
        rw [beq_iff_eq.mp hplain]
        decide
      obtain ⟨c, hc⟩ := Option.isSome_iff_exists.mp (isSome_declarationParts hany)
      rw [hchildren, outcome_readDeclaration_cons depth hidentifier, hc, outcome_mapM_some] at hread
      obtain ⟨type, -, hread⟩ := Except.bind_eq_ok_iff.mp hread
      obtain ⟨initializer, hinitializer, hread⟩ := Except.bind_eq_ok_iff.mp hread
      obtain ⟨e, -, hinitializer⟩ := Except.bind_eq_ok_iff.mp hinitializer
      obtain rfl := Except.ok.inj hinitializer
      obtain rfl := Except.ok.inj hread
      rfl
    · cases hname

theorem exists_build_of_mem_buildAll {cs : List Node} {built : List (Option Construct)}
    (h : (buildAll depth cs).outcome = .ok built) {b : Option Construct} (hb : b ∈ built) :
    ∃ c ∈ cs, (c.build depth).outcome = .ok b := by
  induction cs generalizing built with
  | nil =>
    obtain rfl := Except.ok.inj h
    cases hb
  | cons c cs ih =>
    rw [outcome_buildAll_cons] at h
    obtain ⟨first, hfirst, h⟩ := Except.bind_eq_ok_iff.mp h
    obtain ⟨bs, hbs, h⟩ := Except.bind_eq_ok_iff.mp h
    obtain rfl := Except.ok.inj h
    rcases List.mem_cons.mp hb with rfl | hb
    · exact ⟨c, List.mem_cons_self, hfirst⟩
    · obtain ⟨d, hd, hbuild⟩ := ih hbs hb
      exact ⟨d, List.mem_cons_of_mem c hd, hbuild⟩

theorem mem_declarationsOf_iff {built : List (Option Construct)} {d : Declaration} :
    d ∈ declarationsOf built ↔ some (.declaration d) ∈ built := by
  rw [declarationsOf, List.mem_filterMap]
  constructor
  · rintro ⟨b, hb, hd⟩
    split at hd
    · obtain rfl := Option.some.inj hd
      exact hb
    · cases hd
  · intro hd
    exact ⟨_, hd, rfl⟩

/-- Each declaration of a list that could be constant is read with an initializer. -/
theorem isSome_initializer_of_mem {list : Node} (hkind : list.kind = Kind.declarationList)
    (hnames : (boundNames? list).isSome = true) {keyword : BindingKeyword} {ds : List Declaration}
    (h : (list.build depth).outcome = .ok (some (.statement (.declare keyword ds))))
    {d : Declaration} (hd : d ∈ ds) : d.initializer.isSome = true := by
  rw [outcome_build_declarationList depth (by rw [hkind]; decide)] at h
  obtain ⟨built, hbuilt, h⟩ := Except.bind_eq_ok_iff.mp h
  obtain ⟨-, rfl⟩ := Statement.declare.inj
    (Construct.statement.inj (Option.some.inj (Except.ok.inj h)))
  obtain ⟨c, hc, hbuild⟩ := exists_build_of_mem_buildAll hbuilt (mem_declarationsOf_iff.mp hd)
  -- only a declaration is read as one, so the rule has looked at it
  have hdeclaration : c.kind = Kind.declaration :=
    Kind.eq_of_canonical (by decide) (List.mem_singleton.mp (mem_sortKinds_of_build hbuild))
  exact isSome_initializer_of_build
    (Reassignment.isSome_boundNames?_iff.mp hnames c hc hdeclaration) hbuild

end Node

namespace Fix

/-- A list that a pass makes constant could be constant after the pass as well. -/
theorem isSome_boundNames?_of_converts {config : Config} {root m : Node} {depth : Nat}
    {p : Position} (h : converts config root depth p = true)
    (hm : (root.edit (passEdit config root)).get? p = some m) :
    (boundNames? m).isSome = true := by
  rw [converts_eq, Bool.and_eq_true, Option.isSome_iff_exists] at h
  obtain ⟨-, t, ht⟩ := h
  obtain ⟨list, hlist, hnew⟩ := Option.bind_eq_some_iff.mp ht
  obtain ⟨-, -, names, hnames, -⟩ := Reassignment.replacement_eq_some_iff.mp hnew
  rw [Node.get?_edit, hlist, Option.map_some, Option.some.injEq] at hm
  rw [← hm, Reassignment.boundNames?_edit ((harmless_passEdit config root).below p), hnames]
  rfl

/-- **The lists that a pass makes constant are read with initializers.**  If a tree can be read
after a pass, the declaration lists of the program are read from those of the tree, in the same
order: a list that the pass makes constant had the keyword `let`, and is read with the keyword
`const` and with declarations that all have an initializer; any other keeps its keyword.  So a
constant without an initializer was a constant before. -/
theorem lists_build_pass {config : Config} {root : Node} {depth readDepth : Nat} {c : Construct}
    (h : ((pass config Catalog.fixes root [] depth).tree.build readDepth).outcome =
      .ok (some c)) :
    List.Forall₂ (fun p list =>
        (pass config Catalog.fixes root [] depth).tree.ReadsList p list ∧
          (converts config root depth p = true → root.keywordAt p = .letWord ∧
            list.1 = .constWord ∧ ∀ d ∈ list.2, d.initializer.isSome = true) ∧
          (converts config root depth p = false → list.1 = root.keywordAt p))
        root.listPositions c.lists ∧
      ∀ list ∈ c.lists, list.1 = .constWord → (∃ d ∈ list.2, d.initializer = none) →
        ∃ p ∈ root.listPositions, root.keywordAt p = .constWord ∧
          (pass config Catalog.fixes root [] depth).tree.ReadsList p list := by
  have hlists := Node.lists_of_build h
  rw [pass_tree_eq_edit] at hlists ⊢
  rw [Node.listPositions_edit] at hlists
  have hboth : List.Forall₂ (fun p list =>
      (root.edit (passEdit config root)).ReadsList p list ∧
        (converts config root depth p = true → root.keywordAt p = .letWord ∧
          list.1 = .constWord ∧ ∀ d ∈ list.2, d.initializer.isSome = true) ∧
        (converts config root depth p = false → list.1 = root.keywordAt p))
      root.listPositions c.lists := by
    have hplaced := (List.forall₂_and_left _ _).mpr
      ⟨fun p hp => Node.exists_list_of_mem_listPositions hp, hlists⟩
    refine hplaced.imp fun p list ⟨⟨m₀, hm₀, hkind₀⟩, hread⟩ => ?_
    have hkeyword := hread.keyword
    rw [keywordAt_edit_passEdit config depth hm₀ hkind₀] at hkeyword
    refine ⟨hread, fun hconverts => ?_, fun hkept => ?_⟩
    · rw [hconverts, if_pos rfl] at hkeyword
      refine ⟨keywordAt_of_converts hconverts, hkeyword, fun d hd => ?_⟩
      obtain ⟨m, depth', hm, hkind, hbuild⟩ := hread
      exact Node.isSome_initializer_of_mem hkind
        (isSome_boundNames?_of_converts hconverts hm) hbuild hd
    · rw [hkept, if_neg Bool.false_ne_true] at hkeyword
      exact hkeyword
  refine ⟨hboth, fun list hlist hconst ⟨d, hd, hnone⟩ => ?_⟩
  obtain ⟨⟨i, hi⟩, rfl⟩ := List.mem_iff_get.mp hlist
  have hi' : i < root.listPositions.length := by rwa [hboth.length_eq]
  obtain ⟨hread, hconverted, hkept⟩ := hboth.get hi' hi
  refine ⟨_, List.get_mem _ ⟨i, hi'⟩, ?_, hread⟩
  cases hconverts : converts config root depth (root.listPositions.get ⟨i, hi'⟩) with
  | false => rw [← hkept hconverts, hconst]
  | true =>
    have hsome := (hconverted hconverts).2.2 d hd
    rw [hnone] at hsome
    cases hsome

/-- The tree of `let a: string = "x", b = 'y'; let c;`, where one list is initialized. -/
def partlyInitialized : Node :=
  ⟨Kind.sourceFile, "let a: string = \"x\", b = 'y'; let c;", ⟨0, 36⟩,
    [⟨Kind.variableStatement, "let a: string = \"x\", b = 'y';", ⟨0, 29⟩,
      [⟨Kind.declarationList, "let a: string = \"x\", b = 'y'", ⟨0, 28⟩,
        [⟨Kind.declaration, "a: string = \"x\"", ⟨4, 19⟩,
          [⟨Kind.identifier, "a", ⟨4, 5⟩, []⟩, ⟨Kind.stringKeyword, "string", ⟨7, 13⟩, []⟩,
            ⟨Kind.stringLiteral, "\"x\"", ⟨16, 19⟩, []⟩]⟩,
          ⟨Kind.declaration, "b = 'y'", ⟨21, 28⟩,
            [⟨Kind.identifier, "b", ⟨21, 22⟩, []⟩,
              ⟨Kind.stringLiteral, "'y'", ⟨25, 28⟩, []⟩]⟩]⟩]⟩,
      ⟨Kind.variableStatement, "let c;", ⟨30, 36⟩,
        [⟨Kind.declarationList, "let c", ⟨30, 35⟩,
          [⟨Kind.declaration, "c", ⟨34, 35⟩, [⟨Kind.identifier, "c", ⟨34, 35⟩, []⟩]⟩]⟩]⟩]⟩

theorem lists_build_pass_partlyInitialized :
    ∃ c, ((pass bothFixes Catalog.fixes partlyInitialized [] 0).tree.build 0).outcome =
        .ok (some c) ∧
      c.keywords = [.constWord, .letWord] ∧
      partlyInitialized.listPositions.map (converts bothFixes partlyInitialized 0) =
        [true, false] ∧
      ∀ list ∈ c.lists, list.1 = .constWord → ∀ d ∈ list.2, d.initializer.isSome = true := by
  have hbuild : ((pass bothFixes Catalog.fixes partlyInitialized [] 0).tree.build 0).outcome =
      .ok (some (.program ⟨[
        .declare .constWord
          [{ name := "a", type := some .string,
             initializer := some (.literal ⟨"x", .single⟩) },
            { name := "b", initializer := some (.literal ⟨"y", .single⟩) }],
        .declare .letWord [{ name := "c" }]]⟩)) := by decide +kernel
  refine ⟨_, hbuild, rfl, by decide +kernel, fun list hlist hconst d hd => ?_⟩
  rw [← Option.ne_none_iff_isSome]
  intro hnone
  obtain ⟨p, hp, hbefore, -⟩ := (lists_build_pass hbuild).2 list hlist hconst ⟨d, hd, hnone⟩
  have hlet : ∀ p ∈ partlyInitialized.listPositions,
      partlyInitialized.keywordAt p = .letWord := by decide +kernel
  rw [hlet p hp] at hbefore
  cases hbefore

end Fix

end TreeMend
