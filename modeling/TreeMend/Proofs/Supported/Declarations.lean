import TreeMend.Proofs.Supported.Expressions
import TreeMend.Proofs.Text.Boundaries
import TreeMend.Proofs.Text.Words

/-!
# Declarations of the supported language

A binding is read by the number and the kinds of the parts that lowering leaves, and the keyword of
a declaration is not lowered at all: it is read again from the text of the declaration list, which
ends with the last binding.

## Main results

* `ParseTree.exists_simulates_declarator` — a binding is lowered to what it stands for.
* `ParseTree.keywordOf?_eq_bindingKeyword` — the text of a declaration list starts with the keyword
  that the first token of the declaration is.
* `ParseTree.exists_simulates_declaration` — a declaration is lowered to what it stands for.
-/

namespace TreeMend

namespace Node

/-- The type and the initializer are told apart by their kinds. -/
theorem declarationParts_eq {type? value? : Option Node}
    (htype : ∀ n, type? = some n → n.kind.isType = true)
    (hvalue : ∀ n, value? = some n → n.kind.isType = false) :
    declarationParts (type?.toList ++ value?.toList) = (type?, value?) := by
  cases type? with
  | none =>
    cases value? with
    | none => rfl
    | some n => simp [declarationParts, hvalue n rfl]
  | some m =>
    cases value? with
    | none => simp [declarationParts, htype m rfl]
    | some n => rfl

theorem declarationsOf_map (ds : List Declaration) :
    declarationsOf (ds.map fun d => some (.declaration d)) = ds := by
  unfold declarationsOf
  rw [List.filterMap_map]
  exact List.filterMap_some

end Node

namespace ParseTree

variable {src : String} {t v : ParseTree}

/-! ### Bindings -/

/-- An annotation leaves the keyword that it holds. -/
theorem exists_lowerPart_annotation (h : IsAnnotation src t) (hclean : Clean src t)
    (hsignificant : t.token.isSignificant = true) :
    ∃ s : ParseTree, lowerPart src t = [nodeOf src Kind.stringKeyword s.token []] := by
  obtain ⟨s, hparts, hrule, htext⟩ := h.parts
  have hs : s ∈ t.significant := by rw [hparts]; simp
  have hfate : s.token.fate = .kept :=
    fate_of_isSignificant (isSignificant_of_mem hs) (by rw [hrule]; decide)
  have hshape : shapeOf src s = .leaf Kind.stringKeyword := by
    rw [shapeOf_predefinedType src hrule, htext]
    rfl
  refine ⟨s, ?_⟩
  rw [lowerPart_of_spliced hclean hsignificant (by rw [h.kind]; decide), hparts,
    List.flatMap_singleton, lowerPart_eq_lowerInto src (by rw [hrule]; decide),
    lowerInto_leaf src hfate hshape]

theorem exists_lowered_type {type? : Option ParseTree}
    (h : ∀ a, type? = some a → IsAnnotation src a ∧ Clean src a ∧ a.token.isSignificant = true) :
    ∃ n? : Option Node, type?.toList.flatMap (lowerPart src) = n?.toList ∧
      (∀ n, n? = some n → n.kind.isType = true) ∧
      ∀ depth, (n?.mapM (Node.readType depth)).outcome = .ok (type?.map fun _ => .string) := by
  cases type? with
  | none =>
    refine ⟨none, rfl, fun n hn => ?_, fun depth => rfl⟩
    cases hn
  | some a =>
    obtain ⟨htyped, hclean, hsignificant⟩ := h a rfl
    obtain ⟨s, hs⟩ := exists_lowerPart_annotation htyped hclean hsignificant
    refine ⟨some (nodeOf src Kind.stringKeyword s.token []), ?_, ?_, fun depth => ?_⟩
    · rw [Option.toList_some, List.flatMap_singleton, hs]
      rfl
    · intro n hn
      obtain rfl := Option.some.inj hn
      rfl
    · rw [Node.outcome_mapM_some, Node.outcome_readType]
      rfl

theorem exists_lowered_value {value? : Option ParseTree}
    (h : ∀ s, value? = some s → s.kind = "string" ∧ Clean src s ∧ s.token.isSignificant = true) :
    ∃ (n? : Option Node) (initializer : Option Expression),
      value?.toList.flatMap (lowerPart src) = n?.toList ∧
      (∀ n, n? = some n → n.kind.isType = false) ∧
      readValue? src value? = some initializer ∧
      ∀ depth, (n?.mapM (Node.readInitializer depth)).outcome = .ok initializer := by
  cases value? with
  | none =>
    refine ⟨none, none, rfl, fun n hn => ?_, rfl, fun depth => rfl⟩
    cases hn
  | some s =>
    obtain ⟨hkind, hclean, hsignificant⟩ := h s rfl
    obtain ⟨l, hl⟩ := exists_ofSource? hclean.located hkind hsignificant
    have hlower : lowerPart src s = [nodeOf src Kind.stringLiteral s.token []] :=
      lowerPart_leaf src hsignificant (by rw [hkind]; decide)
    refine ⟨some (nodeOf src Kind.stringLiteral s.token []), some (.literal l), ?_, ?_, ?_,
      fun depth => ?_⟩
    · rw [Option.toList_some, List.flatMap_singleton, hlower]
      rfl
    · intro n hn
      obtain rfl := Option.some.inj hn
      rfl
    · rw [readValue?, readString?, hl]
      rfl
    · rw [Node.outcome_mapM_some, Node.outcome_readInitializer, literal_nodeOf hl]
      rfl

/-- A binding of the supported language is lowered to what it stands for. -/
theorem exists_simulates_declarator (h : IsDeclarator src v) (hclean : Clean src v)
    (hsignificant : v.token.isSignificant = true) :
    ∃ d, readDeclarator? src v = some d ∧ Simulates src v (.declaration d) := by
  obtain ⟨name, type?, value?, hparts, hname, htype, hvalue, hrule, htyped, hstring⟩ := h.parts
  have hmem : (v.kind, Shape.branch Kind.declaration) ∈ fixedShapes := by rw [h.kind]; decide
  obtain ⟨hfate, hs, hkept⟩ := kept_of_mem src hsignificant hmem
  have hpart : ∀ c ∈ v.significant, Clean src c ∧ c.token.isSignificant = true := fun c hc =>
    ⟨hclean.part hc, isSignificant_of_mem hc⟩
  obtain ⟨m?, hm, hmtype, hreadType⟩ := exists_lowered_type fun a ha =>
    ⟨htyped a ha, hpart a (by rw [hparts, ha]; simp)⟩
  obtain ⟨n?, initializer, hn, hntype, hinitializer, hreadValue⟩ :=
    exists_lowered_value fun s hs => ⟨hstring s hs, hpart s (by rw [hparts, hs]; simp)⟩
  have hidentifier : lowerPart src name = [nodeOf src Kind.identifier name.token []] :=
    lowerPart_leaf src (hpart name (by rw [hparts]; simp)).2 (by rw [hrule]; decide)
  have hlower := lowerInto_branch src hfate hs
  rw [hclean.lowerChildren_eq, hparts, List.flatMap_cons, List.flatMap_append, hidentifier, hm, hn,
    List.singleton_append] at hlower
  refine ⟨⟨textOf src name.token, type?.map fun _ => .string, initializer⟩, ?_,
    simulates_of_lowerInto hkept hlower rfl fun depth => ?_⟩
  · rw [readDeclarator?, hname, htype, hvalue, hinitializer]
    rfl
  · rw [Node.outcome_build_declaration depth (by rfl)]
    simp only [nodeOf]
    rw [Node.outcome_readDeclaration_cons depth (by rfl), Node.declarationParts_eq hmtype hntype,
      hreadType, hreadValue]
    rfl

/-- Bindings one after another are lowered to what they stand for. -/
theorem exists_simulates_declarators {vs : List ParseTree}
    (h : ∀ v ∈ vs, ∃ d, readDeclarator? src v = some d ∧ Simulates src v (.declaration d)) :
    ∃ (ds : List Declaration) (ns : List Node), vs.mapM (readDeclarator? src) = some ds ∧
      vs.flatMap (lowerPart src) = ns ∧ ns.map (·.span) = vs.map (·.token.span) ∧
      ∀ depth, (Node.buildAll depth ns).outcome = .ok (ds.map fun d => some (.declaration d)) := by
  induction vs with
  | nil => exact ⟨[], [], rfl, rfl, rfl, fun depth => Node.outcome_buildAll_nil depth⟩
  | cons v vs ih =>
    obtain ⟨d, hd, n, -, hn, hspan, hbuild⟩ := h v List.mem_cons_self
    obtain ⟨ds, ns, hds, hns, hspans, hbuilds⟩ := ih fun w hw => h w (List.mem_cons_of_mem v hw)
    refine ⟨d :: ds, n :: ns, ?_, ?_, ?_, fun depth => ?_⟩
    · rw [List.mapM_cons, hd, hds]
      rfl
    · rw [List.flatMap_cons, hn, hns, List.singleton_append]
    · rw [List.map_cons, List.map_cons, hspan, hspans]
    · rw [Node.outcome_buildAll_cons, hbuild, hbuilds]
      rfl

/-! ### The keyword -/

/-- The keyword in front of a text counts if the word ends with it. -/
theorem keywordOf?_eq_bindingKeyword {word : String} (hword : word ∈ ["let", "const", "var"])
    {rest : List Char} (hrest : rest.head?.any Text.isWordChar = false) :
    keywordOf? word = some (Node.bindingKeyword (String.ofList (word.toList ++ rest))) := by
  have hwords : ∀ w ∈ ["let", "const", "var"], w.toList.all Text.isWordChar = true ∧
      w.toList.head?.any Text.isBlank = false ∧ w.toList ≠ [] := by decide +kernel
  obtain ⟨hchars, hblank, hne⟩ := hwords word hword
  have htrim : Text.trimStart (word.toList ++ rest) = word.toList ++ rest := by
    cases hcs : word.toList with
    | nil => exact absurd hcs hne
    | cons c cs =>
      have hc : Text.isBlank c = false := by simpa [hcs] using hblank
      simp [Text.trimStart, hc]
  unfold Node.bindingKeyword
  rw [String.toList_ofList, htrim, Text.takeWhile_isWordChar_append hchars hrest,
    String.ofList_toList]
  simp only [List.mem_cons, List.not_mem_nil, or_false] at hword
  rcases hword with rfl | rfl | rfl <;> rfl

/-- The text from the start of a declaration up to a boundary behind its keyword. -/
theorem exists_textBetween_keyword {k : ParseTree} (h : Located src t) (hk : Located src k)
    (hkind : t.kind ∈ declarationRules) (hhead : t.children.head? = some k) {stop : Nat}
    (hstop : k.token.stop ≤ stop) {start : Nat} {part : String}
    (hpart : Text.slice? src start stop = some part) :
    ∃ rest, textBetween src t.token.start stop = String.ofList (k.kind.toList ++ rest) ∧
      rest.head?.any Text.isWordChar = false := by
  obtain ⟨hstart, htext, hboundary⟩ := h.keyword hkind k hhead
  obtain ⟨word, hword⟩ := hk.range
  obtain rfl : word = k.kind := by
    rw [← htext, textOf, textBetween, hword]
    rfl
  obtain ⟨before, after, hsplit, hbefore, hlength⟩ := Text.slice?_eq_some_iff.mp hword
  obtain ⟨front, back, hsplit', -, hlength'⟩ := Text.slice?_eq_some_iff.mp hpart
  -- the text up to the boundary goes on behind the keyword
  have hprefix : before ++ k.kind.toList <+: front ++ part.toList := by
    have hkeyword : before ++ k.kind.toList <+: src.toList := by
      rw [hsplit, ← List.append_assoc]
      exact List.prefix_append _ _
    have hup : front ++ part.toList <+: src.toList := by
      rw [hsplit', ← List.append_assoc]
      exact List.prefix_append _ _
    exact Text.prefix_of_byteLength_le hkeyword hup (by rw [hlength, hlength']; exact hstop)
  obtain ⟨rest, hrest⟩ := hprefix
  have hafter : after = rest ++ back := by
    have hall : before ++ (k.kind.toList ++ after) =
        before ++ (k.kind.toList ++ (rest ++ back)) := by
      rw [← hsplit, hsplit', ← List.append_assoc front, ← hrest]
      simp only [List.append_assoc]
    exact List.append_cancel_left (List.append_cancel_left hall)
  refine ⟨rest, ?_, ?_⟩
  · rw [textBetween, Text.slice?_eq_some_iff.mpr ⟨before, back, ?_, ?_, ?_⟩, Option.getD_some]
    · rw [String.toList_ofList, hsplit, hafter, List.append_assoc]
    · rw [hbefore, hstart]
    · rw [String.toList_ofList, ← List.append_assoc, hrest, hlength']
  · have hnext := hboundary after (Text.dropBytes_eq_some_iff.mpr
      ⟨before ++ k.kind.toList, by rw [hsplit, List.append_assoc], hlength⟩)
    cases rest with
    | nil => rfl
    | cons c rest => simpa [hafter] using hnext

/-! ### Declarations -/

theorem start_le_stop_of_slice? {start stop : Nat} {part : String}
    (h : Text.slice? src start stop = some part) : start ≤ stop := by
  obtain ⟨before, after, -, hstart, hstop⟩ := Text.slice?_eq_some_iff.mp h
  rw [Text.byteLength_append] at hstop
  omega

/-- The bindings of a declaration stand behind its keyword. -/
theorem stop_le_start {k : ParseTree} (h : Located src t) (hhead : t.children.head? = some k)
    (hv : v ∈ t.children) (hne : v ≠ k) : k.token.stop ≤ v.token.start := by
  obtain ⟨rest, hrest⟩ : ∃ rest, t.children = k :: rest := by
    cases hchildren : t.children with
    | nil => rw [hchildren] at hhead; cases hhead
    | cons c rest =>
      rw [hchildren] at hhead
      exact ⟨rest, by rw [Option.some.inj hhead]⟩
  have hordered := h.ordered
  rw [hrest] at hordered hv
  rcases List.mem_cons.mp hv with hvk | hvr
  · exact absurd hvk hne
  · exact List.rel_of_pairwise_cons hordered hvr

/-- Where the declaration list of a declaration ends: with the last binding, or with the declaration
if there is none. -/
def listStop (t : ParseTree) : Nat :=
  (t.significant.getLast?.map (·.token.stop)).getD t.token.stop

/-- The declaration list ends behind the keyword, at a boundary. -/
theorem exists_slice?_stop {k : ParseTree} (h : Clean src t)
    (hhead : t.children.head? = some k) (hword : k.kind ∈ ["let", "const", "var"])
    (hparts : ∀ v ∈ t.significant, IsDeclarator src v) :
    k.token.stop ≤ t.listStop ∧ ∃ start part, Text.slice? src start t.listStop = some part := by
  unfold listStop
  cases hlast : t.significant.getLast? with
  | none =>
    -- without bindings the list ends with the declaration
    obtain ⟨part, hpart⟩ := h.located.range
    exact ⟨(h.located.inside k (List.mem_of_head? hhead)).2, _, part, hpart⟩
  | some v =>
    have hv : v ∈ t.significant := List.mem_of_getLast? hlast
    have hne : v ≠ k := by
      rintro rfl
      rw [(hparts v hv).kind] at hword
      exact absurd hword (by decide)
    obtain ⟨part, hpart⟩ := (h.part hv).located.range
    have hbehind := stop_le_start h.located hhead (List.mem_filter.mp hv).1 hne
    exact ⟨Nat.le_trans hbehind (start_le_stop_of_slice? hpart), _, part, hpart⟩

/-- A declaration of the supported language is lowered to a statement around a declaration list,
which is read as what the declaration stands for. -/
theorem exists_simulates_declaration {k : ParseTree} (h : Clean src t)
    (hsignificant : t.token.isSignificant = true) (hkind : t.kind ∈ declarationRules)
    (hhead : t.children.head? = some k) (hword : k.kind ∈ ["let", "const", "var"])
    (hparts : ∀ v ∈ t.significant, IsDeclarator src v) :
    ∃ (s : Statement) (list : Node), readStatement? src t = some s ∧
      lowerPart src t = [nodeOf src Kind.variableStatement t.token [list]] ∧
      ∀ depth, (list.build depth).outcome = .ok (some (.statement s)) := by
  have hmem : (t.kind, Shape.variableStatement) ∈ fixedShapes := by
    simp only [declarationRules, List.mem_cons, List.not_mem_nil, or_false] at hkind
    rcases hkind with hkind | hkind <;> (rw [hkind]; decide)
  obtain ⟨hfate, hs, hkept⟩ := kept_of_mem src hsignificant hmem
  obtain ⟨ds, ns, hds, hns, hspans, hbuild⟩ := exists_simulates_declarators fun v hv =>
    exists_simulates_declarator (hparts v hv) (h.part hv) (isSignificant_of_mem hv)
  have hstop : (ns.getLast?.map (·.span.stop)).getD t.token.stop = t.listStop := by
    have hlast := congrArg (fun spans => spans.getLast?.map Span.stop) hspans
    simp only [List.getLast?_map, Option.map_map] at hlast
    exact congrArg (·.getD t.token.stop) hlast
  have hlower := lowerInto_variableStatement src hfate hs
  rw [h.lowerChildren_eq, hns] at hlower
  unfold variableStatementNode at hlower
  rw [hstop] at hlower
  obtain ⟨hle, start, part, hpart⟩ := exists_slice?_stop h hhead hword hparts
  obtain ⟨rest, htext, hrest⟩ := exists_textBetween_keyword h.located
    (h.child (List.mem_of_head? hhead)).located hkind hhead hle hpart
  have hkeyword := keywordOf?_eq_bindingKeyword hword hrest
  rw [← htext] at hkeyword
  refine ⟨.declare (Node.bindingKeyword (textBetween src t.token.start t.listStop)) ds, _, ?_,
    hkept.trans hlower, fun depth => ?_⟩
  · rw [readStatement?, if_pos hkind, hhead, hds]
    simp [hkeyword]
  · rw [Node.outcome_build_declarationList depth (by rfl), hbuild]
    simp only [Except.bind, Node.declarationsOf_map]

end ParseTree

end TreeMend
