import TreeMend.Proofs.Fix.Simultaneous
import TreeMend.Proofs.Literal.Requote
import TreeMend.Proofs.Program.Requoted
import TreeMend.Proofs.Text.Words

/-!
# What fixes do to a program

A pass of the built-in fixes changes the program that a tree is read as in two ways only: string
literals get single quotes, and declaration lists for which the rule on reassignment has a new text
become constant.  A tree that is no program stays none, for the same reason.

## Main definitions

* `Fix.requoted` — a literal as the rule on quotes leaves it.
* `Fix.converts` — whether a pass makes the declaration list at a position constant.

## Main results

* `Reassignment.bindingKeyword_of_constantText?` — the rule on reassignment and the reader agree on
  keywords.
* `Fix.build_pass` — **what a fixed tree is read as**.
-/

namespace TreeMend

/-! ### Keywords -/

namespace Reassignment

open Node (bindingKeyword)

theorem eq_append_of_afterWord? {word cs rest : List Char} (h : afterWord? word cs = some rest) :
    cs = word ++ rest ∧ rest.head?.any Text.isWordChar = false := by
  unfold afterWord? at h
  split at h
  · next hword =>
    obtain ⟨tail, rfl⟩ := List.isPrefixOf_iff_prefix.mp hword
    rw [List.drop_left] at h
    simp only at h
    split at h
    · cases h
    · next hend =>
      obtain rfl := Option.some.inj h
      exact ⟨rfl, by simpa using hend⟩
  · cases h

/-- A list that gets the keyword `const` had the keyword `let`. -/
theorem bindingKeyword_of_constantText? {text t : String} (h : constantText? text = some t) :
    bindingKeyword text = .letWord ∧ bindingKeyword t = .constWord := by
  obtain ⟨rest, hafter, rfl⟩ := Option.map_eq_some_iff.mp h
  obtain ⟨htrim, hend⟩ := eq_append_of_afterWord? hafter
  constructor
  · rw [bindingKeyword, htrim, Text.takeWhile_isWordChar_append (by decide) hend]
    decide
  · have hblanks : ∀ b ∈ text.toList.takeWhile Text.isBlank, Text.isBlank b = true :=
      fun b hb => List.all_eq_true.mp List.all_takeWhile b hb
    have htrim' : Text.trimStart (text.toList.takeWhile Text.isBlank ++ "const".toList ++ rest) =
        "const".toList ++ rest := by
      rw [List.append_assoc]
      exact Text.trimStart_append hblanks (by decide)
    rw [bindingKeyword, String.toList_ofList, htrim',
      Text.takeWhile_isWordChar_append (by decide) hend]
    decide

end Reassignment

/-! ### The built-in fixes -/

namespace Fix

open Node (Requotes Requoted)

/-- A literal as a pass leaves it: in single quotes if the rule on quotes runs. -/
def requoted (config : Config) (l : Literal) : Literal :=
  if config.isEnabled Quotes.rule.name then { l with quote := .single } else l

/-- Whether the rule on reassignment runs and has a new text for the node at a position when a pass
comes to it. -/
def converts (config : Config) (root : Node) (depth : Nat) (p : Position) : Bool :=
  config.isEnabled Reassignment.rule.name &&
    (((treeAt config Catalog.fixes root depth p).get? p).bind
      (Reassignment.rule.replacement (treeAt config Catalog.fixes root depth p) p)).isSome

/-- Which lists are made constant can be seen in the first tree. -/
theorem converts_eq (config : Config) (root : Node) (depth : Nat) (p : Position) :
    converts config root depth p = (config.isEnabled Reassignment.rule.name &&
      ((root.get? p).bind (Reassignment.rule.replacement root p)).isSome) := by
  rw [converts, replacement_treeAt settledRules_fixes List.mem_cons_self]

/-- The rule on reassignment comes first, then the rule on quotes. -/
theorem newText_fixes (config : Config) (root : Node) (p : Position) (n : Node) :
    newText (enabled config Catalog.fixes) root p n =
      ((if config.isEnabled Reassignment.rule.name then Reassignment.rule.replacement root p n
        else none) <|>
      (if config.isEnabled Quotes.rule.name then Quotes.replacement n else none)) := by
  unfold newText firing enabled Catalog.fixes
  by_cases hr : config.isEnabled Reassignment.rule.name = true <;>
    by_cases hq : config.isEnabled Quotes.rule.name = true <;>
    cases hn : Reassignment.rule.replacement root p n <;>
    cases hm : Quotes.rule.replacement root p n <;>
    simp_all [Quotes.rule]

theorem newText_declarationList {n : Node} (hkind : n.kind = Kind.declarationList)
    (config : Config) (root : Node) (p : Position) :
    newText (enabled config Catalog.fixes) root p n =
      if config.isEnabled Reassignment.rule.name then Reassignment.rule.replacement root p n
      else none := by
  have hquotes : Quotes.replacement n = none := by
    rw [Quotes.replacement, hkind]
    rfl
  rw [newText_fixes, hquotes, ite_self]
  simp

theorem newText_stringLiteral {n : Node} (hkind : n.kind = Kind.stringLiteral)
    (config : Config) (root : Node) (p : Position) :
    newText (enabled config Catalog.fixes) root p n =
      if config.isEnabled Quotes.rule.name then Quotes.replacement n else none := by
  have hreassignment : Reassignment.rule.replacement root p n = none := by
    change Reassignment.replacement root p n = none
    rw [Reassignment.replacement, hkind]
    rfl
  rw [newText_fixes, hreassignment, ite_self]
  rfl

/-- The edit that a pass over the whole tree comes to. -/
def passEdit (config : Config) (root : Node) (p : Position) (m : Node) : Option String :=
  newText (enabled config Catalog.fixes) root p m

theorem pass_tree_eq_edit (config : Config) (root : Node) (depth : Nat) :
    (pass config Catalog.fixes root [] depth).tree = root.edit (passEdit config root) := by
  rw [pass_tree settledRules_fixes]
  simp only [List.nil_prefix, if_true]
  rfl

/-- A pass gives new texts to lists and to literals only. -/
theorem harmless_passEdit (config : Config) (root : Node) :
    Node.Harmless (passEdit config root) := by
  intro p m t ht
  obtain ⟨⟨r, t'⟩, hfiring, rfl⟩ := Option.map_eq_some_iff.mp ht
  obtain ⟨hr, hreplaced⟩ := exists_rule_of_firing hfiring
  exact ((settledRules_fixes.enabled config).settled r hr).fixable hreplaced

/-- A pass gives new texts to lists and to literals, and a literal that it changes is the literal
that it was, in single quotes. -/
theorem requotes_passEdit (config : Config) {root : Node}
    (h : ∀ m ∈ root.preorder, m.kind = Kind.stringLiteral →
      ∀ body, Quotes.doubleQuoted? m.text = some body → Literal.WellEscaped body) :
    Requotes (requoted config) (passEdit config root) root where
  harmless := harmless_passEdit config root
  literal := by
    intro p m hm hkind
    rw [passEdit, newText_stringLiteral hkind]
    by_cases hrule : config.isEnabled Quotes.rule.name = true
    · have hrequoted : requoted config = fun l => { l with quote := .single } := by
        funext l
        rw [requoted, if_pos hrule]
      rw [if_pos hrule, hrequoted]
      cases hnew : Quotes.replacement m with
      | some t =>
        obtain ⟨l, hold, hl⟩ :=
          Quotes.ofSource?_replacement hnew (h m (Node.mem_preorder_iff.mpr ⟨p, hm⟩) hkind)
        rw [hold, Option.getD_some, hl]
        rfl
      | none =>
        -- what is left as it is was in single quotes already
        rw [Option.getD_none]
        cases hold : Literal.ofSource? m.text with
        | none => rfl
        | some l => simp [← Quotes.quote_of_replacement_eq_none hkind hnew hold]
    · have hrequoted : requoted config = id := by
        funext l
        rw [requoted, if_neg hrule]
        rfl
      rw [if_neg hrule, hrequoted, Option.map_id]
      rfl

/-- The keyword that a declaration list has after a pass. -/
theorem keywordAt_edit_passEdit (config : Config) {root m : Node} (depth : Nat) {p : Position}
    (hm : root.get? p = some m) (hkind : m.kind = Kind.declarationList) :
    (root.edit (passEdit config root)).keywordAt p =
      if converts config root depth p then .constWord else root.keywordAt p := by
  have hafter : (root.edit (passEdit config root)).keywordAt p =
      Node.bindingKeyword ((passEdit config root p m).getD m.text) := by
    rw [Node.keywordAt, Node.get?_edit, hm]
    simp [Node.text_edit]
  have hbefore : root.keywordAt p = Node.bindingKeyword m.text := by
    rw [Node.keywordAt, hm]
    rfl
  rw [hafter, hbefore, converts_eq, hm, Option.bind_some, passEdit, newText_declarationList hkind]
  by_cases hrule : config.isEnabled Reassignment.rule.name = true
  · rw [if_pos hrule, hrule, Bool.true_and]
    cases hnew : Reassignment.rule.replacement root p m with
    | none => rfl
    | some t =>
      obtain ⟨-, htext, -⟩ := Reassignment.replacement_eq_some_iff.mp hnew
      exact (Reassignment.bindingKeyword_of_constantText? htext).2
  · rw [if_neg hrule, Bool.eq_false_iff.mpr hrule, Bool.false_and]
    rfl

/-- A list that a pass makes constant had the keyword `let`. -/
theorem keywordAt_of_converts {config : Config} {root : Node} {depth : Nat} {p : Position}
    (h : converts config root depth p = true) : root.keywordAt p = .letWord := by
  rw [converts_eq, Bool.and_eq_true, Option.isSome_iff_exists] at h
  obtain ⟨-, t, ht⟩ := h
  obtain ⟨m, hm, hnew⟩ := Option.bind_eq_some_iff.mp ht
  obtain ⟨-, htext, -⟩ := Reassignment.replacement_eq_some_iff.mp hnew
  rw [Node.keywordAt, hm]
  exact (Reassignment.bindingKeyword_of_constantText? htext).1

/-- The keywords of a tree after a pass are those before, but for the lists made constant. -/
theorem map_keywordAt_passEdit (config : Config) (root : Node) (depth : Nat) :
    root.listPositions.map (root.edit (passEdit config root)).keywordAt =
      List.zipWith (fun mark k => if mark then .constWord else k)
        (root.listPositions.map (converts config root depth))
        (root.listPositions.map root.keywordAt) := by
  rw [List.zipWith_map, List.zipWith_self]
  refine List.map_congr_left fun p hp => ?_
  obtain ⟨m, hm, hkind⟩ := Node.exists_list_of_mem_listPositions hp
  exact keywordAt_edit_passEdit config depth hm hkind

/-- **What a fixed tree is read as.**  A tree whose double-quoted literals have complete numeric
escapes is read after a pass as it was before, or fails as it did before, but for the quotes of
literals and the keywords of the lists that the pass makes constant, all of which were `let`.  The
keywords stand in the order of the declaration lists that the tree is read from. -/
theorem build_pass (config : Config) (root : Node) (depth readDepth : Nat)
    (h : ∀ m ∈ root.preorder, m.kind = Kind.stringLiteral →
      ∀ body, Quotes.doubleQuoted? m.text = some body → Literal.WellEscaped body) :
    ((pass config Catalog.fixes root [] depth).tree.build readDepth).outcome =
        (root.build readDepth).outcome.map (Option.map fun c =>
          (c.mapLiterals (requoted config)).converted
            (root.listPositions.map (converts config root depth))) ∧
      (∀ c, (root.build readDepth).outcome = .ok (some c) →
        c.keywords = root.listPositions.map root.keywordAt) ∧
      ∀ p, converts config root depth p = true → root.keywordAt p = .letWord := by
  refine ⟨?_, fun c hc => Node.keywords_of_build hc, fun p => keywordAt_of_converts⟩
  rw [pass_tree_eq_edit]
  have hrequoted : Requoted (requoted config) (root.edit (passEdit config root)) root :=
    ⟨_, requotes_passEdit config h, rfl⟩
  have halike := hrequoted.build readDepth
  generalize hbefore : (root.build readDepth).outcome = before at halike ⊢
  generalize hafter : ((root.edit (passEdit config root)).build readDepth).outcome = after
    at halike ⊢
  cases halike with
  | error e => rfl
  | ok hmatch =>
    cases hmatch with
    | none => rfl
    | @some c' c hmatch =>
      have hkeywords := Node.keywords_of_build hbefore
      have hkeywords' := Node.keywords_of_build hafter
      rw [Node.listPositions_edit, map_keywordAt_passEdit config root depth] at hkeywords'
      -- the two constructs agree without keywords, and they agree in keywords
      refine congrArg (Except.ok ∘ some) (Construct.eq_of_keywords ?_ ?_)
      · rw [hkeywords', Construct.keywords_converted, Construct.keywords_mapLiterals, hkeywords]
        rw [Construct.keywords_mapLiterals, hkeywords, List.length_map, List.length_map]
      · rw [hmatch.withoutKeywords, Construct.withoutKeywords_converted]

/-- The tree of `let a = "it's \x41"; let b = 'c'; b = a;`, where one of two lists is assigned. -/
def twoLists : Node :=
  ⟨Kind.sourceFile, "let a = \"it's \\x41\"; let b = 'c'; b = a;", ⟨0, 40⟩,
    [⟨Kind.variableStatement, "let a = \"it's \\x41\";", ⟨0, 20⟩,
      [⟨Kind.declarationList, "let a = \"it's \\x41\"", ⟨0, 19⟩,
        [⟨Kind.declaration, "a = \"it's \\x41\"", ⟨4, 19⟩,
          [⟨Kind.identifier, "a", ⟨4, 5⟩, []⟩,
            ⟨Kind.stringLiteral, "\"it's \\x41\"", ⟨8, 19⟩, []⟩]⟩]⟩]⟩,
      ⟨Kind.variableStatement, "let b = 'c';", ⟨21, 33⟩,
        [⟨Kind.declarationList, "let b = 'c'", ⟨21, 32⟩,
          [⟨Kind.declaration, "b = 'c'", ⟨25, 32⟩,
            [⟨Kind.identifier, "b", ⟨25, 26⟩, []⟩,
              ⟨Kind.stringLiteral, "'c'", ⟨29, 32⟩, []⟩]⟩]⟩]⟩,
      ⟨Kind.expressionStatement, "b = a;", ⟨34, 40⟩,
        [⟨Kind.binaryExpression, "b = a", ⟨34, 39⟩,
          [⟨Kind.identifier, "b", ⟨34, 35⟩, []⟩, ⟨Kind.equalsToken, "=", ⟨36, 37⟩, []⟩,
            ⟨Kind.identifier, "a", ⟨38, 39⟩, []⟩]⟩]⟩]⟩

/-- The configuration in which both fixes run. -/
def bothFixes : Config :=
  { rules := .ofList [(Reassignment.rule.name, .warn), (Quotes.rule.name, .error)] }

theorem build_pass_twoLists :
    (∀ m ∈ twoLists.preorder, m.kind = Kind.stringLiteral →
      ∀ body, Quotes.doubleQuoted? m.text = some body → Literal.WellEscaped body) ∧
    ((pass bothFixes Catalog.fixes twoLists [] 0).tree.build 0).outcome =
      .ok (some (.program ⟨[
        .declare .constWord
          [{ name := "a", initializer := some (.literal ⟨"it's A", .single⟩) }],
        .declare .letWord
          [{ name := "b", initializer := some (.literal ⟨"c", .single⟩) }],
        .expression (.assign (.name "b") (.name "a"))]⟩)) := by
  have h : ∀ m ∈ twoLists.preorder, m.kind = Kind.stringLiteral →
      ∀ body, Quotes.doubleQuoted? m.text = some body → Literal.WellEscaped body := by
    have hbodies : ∀ m ∈ twoLists.preorder, m.kind = Kind.stringLiteral →
        Quotes.doubleQuoted? m.text = some ['i', 't', '\'', 's', ' ', '\\', 'x', '4', '1'] ∨
          Quotes.doubleQuoted? m.text = none := by decide +kernel
    intro m hm hkind body hbody
    rcases hbodies m hm hkind with hsome | hnone
    · obtain rfl := Option.some.inj (hsome.symm.trans hbody)
      exact .plain (by decide) (.plain (by decide) (.plain (by decide) (.plain (by decide)
        (.plain (by decide) (.hex2 (by decide) (by decide) .nil)))))
    · cases hnone.symm.trans hbody
  exact ⟨h, (build_pass bothFixes twoLists 0 0 h).1.trans (by decide +kernel)⟩

end Fix

end TreeMend
