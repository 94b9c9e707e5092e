import TreeMend.Proofs.Lists
import TreeMend.Proofs.Lowering.Place

/-!
# Paths that lowering keeps

A path in a parse tree is kept when no node on it is passed over and none is lowered to a leaf, and
when it goes through operations by their operands and through templates by their substitutions.
What stands at the end of such a path has a place in the generic tree: wrappers are dissolved,
operands of heritage clauses are wrapped, constructors lose their name, and still no node on the
path gets lost.

What is assumed of the parser is in `ParseTree.Grammatical`.

## Main definitions

* `ParseTree.KeepsPath` — lowering keeps every node on a path.
* `ParseTree.Grammatical` — what the grammar promises of parse trees.
* `ParseTree.Token.isSignificant` — a node that is neither punctuation nor a comment.

## Main results

* `ParseTree.shapeOf_cases` — what becomes of a node that is not lowered to a leaf.
* `ParseTree.lowerChildren_eq_filter` — only significant parts leave anything.
* `ParseTree.exists_place` — what is at the end of a kept path has a place.
-/

namespace TreeMend.ParseTree

/-! ### Paths that lowering keeps -/

/-- The rules that are lowered without their parts. -/
def leafRules : List String :=
  leafKinds.map (·.1) ++
    ["predefined_type", "accessibility_modifier", "type_identifier", "nested_type_identifier"]

/-- The rules of which only the two operands are kept. -/
def operandRules : List String :=
  ["assignment_expression", "augmented_assignment_expression", "binary_expression"]

/-- A node that is not passed over: an error, or a named node other than a comment and the
interpreter line. -/
def Token.Reached (tok : Token) : Prop :=
  tok.error = true ∨ (tok.named = true ∧ tok.extra = false ∧ tok.kind ≠ "hash_bang_line")

/-- Lowering keeps the step from a node to its child number `i`, which is `c`. -/
structure KeepsStep (t : ParseTree) (i : Nat) (c : ParseTree) : Prop where
  /-- The node is not lowered to a leaf. -/
  not_leaf : t.kind ∉ leafRules
  /-- From an operation the step goes to the first left or the first right operand. -/
  operand : t.kind ∈ operandRules →
    t.children.findIdx? (·.token.field == some "left") = some i ∨
      t.children.findIdx? (·.token.field == some "right") = some i
  /-- From a template the step goes to a substitution. -/
  substitution : t.kind = "template_string" → c.kind = "template_substitution"

/-- Lowering keeps every step of a path and every node that it leads to. -/
def KeepsPath : ParseTree → Position → Prop
  | _, [] => True
  | t, i :: p => ∃ c, t.children[i]? = some c ∧ KeepsStep t i c ∧ c.token.Reached ∧ KeepsPath c p

/-- What the grammar promises of a single node. -/
structure Token.Regular (tok : Token) : Prop where
  /-- Names and declarations are rules of the grammar, and may not stand just anywhere. -/
  named : tok.kind ∈ ["identifier", "type_identifier", "variable_declarator"] →
    tok.named = true ∧ tok.extra = false
  /-- Errors count as named. -/
  error : tok.error = true → tok.named = true
  /-- Only one rule is spelled as the kind of names is. -/
  spelling : joinCapitalized tok.kind = Kind.identifier → tok.kind = "identifier"

instance (tok : Token) : Decidable tok.Regular :=
  decidable_of_iff
    ((tok.kind ∈ ["identifier", "type_identifier", "variable_declarator"] →
        tok.named = true ∧ tok.extra = false) ∧
      (tok.error = true → tok.named = true) ∧
      (joinCapitalized tok.kind = Kind.identifier → tok.kind = "identifier"))
    ⟨fun h => ⟨h.1, h.2.1, h.2.2⟩, fun h => ⟨h.named, h.error, h.spelling⟩⟩

/-- What the grammar promises of the parse tree of a file. -/
structure Grammatical (t : ParseTree) : Prop where
  /-- The root is a whole file, or an error if nothing could be made of it. -/
  root : t.kind = "program" ∨ t.kind = "ERROR"
  /-- The nodes are what they may be. -/
  regular : ∀ p u, t.get? p = some u → u.token.Regular

theorem Grammatical.of_listing {t : ParseTree} (hroot : t.kind = "program" ∨ t.kind = "ERROR")
    (h : ∀ e ∈ t.listing 0, e.2.Regular) : Grammatical t where
  root := hroot
  regular := by
    intro p u hu
    obtain ⟨d, hd⟩ := exists_mem_listing hu 0
    exact h _ hd

/-- A tree without errors has none anywhere. -/
theorem error_of_get? {t u : ParseTree} (herror : t.hasError = false) {p : Position}
    (hu : t.get? p = some u) : u.token.error = false := by
  obtain ⟨d, hd⟩ := exists_mem_listing hu 0
  have hnone := List.any_eq_false.mp herror (d, u.token) hd
  rw [Bool.not_eq_true, Bool.or_eq_false_iff] at hnone
  exact hnone.1

/-! ### Shapes -/

section Shapes

variable {src : String} {t : ParseTree}

theorem fate_of_reached (h : t.token.Reached) (hkind : t.kind ∉ splicedRules) :
    t.token.fate = .kept := by
  have hspliced : splicedRules.contains t.token.kind = false := by
    rw [← Bool.not_eq_true, List.contains_iff_mem]
    exact hkind
  rw [Token.fate, hspliced]
  rcases h with herror | ⟨hnamed, hextra, hline⟩
  · rw [herror]
    rfl
  · simp [hnamed, hextra, hline]

theorem fate_ne_dropped (h : t.token.Reached) : t.token.fate ≠ .dropped := by
  by_cases hkind : t.kind ∈ splicedRules
  · have hspliced : splicedRules.contains t.token.kind = true := List.contains_iff_mem.mpr hkind
    rw [Token.fate, hspliced]
    rcases h with herror | ⟨hnamed, hextra, hline⟩
    · simp [herror]
    · cases herror : t.token.error <;> simp [hnamed, hextra, hline]
  · rw [fate_of_reached h hkind]
    nofun

theorem mem_splicedRules_of_fate (h : t.token.fate = .spliced) : t.kind ∈ splicedRules := by
  unfold Token.fate at h
  split at h
  · cases h
  split at h
  · cases h
  split at h
  · next hrule => exact List.contains_iff_mem.mp hrule
  · cases h

/-- A rule becomes the kind of names only if it is spelled like it. -/
theorem joinCapitalized_of_ruleKind {rule : String} (h : ruleKind rule = Kind.identifier) :
    joinCapitalized rule = Kind.identifier := by
  have hentries : ∀ e ∈ branchKinds, e.2 ≠ Kind.identifier := by decide
  unfold ruleKind at h
  cases hlookup : branchKinds.lookup rule with
  | none => rwa [hlookup] at h
  | some kind =>
    rw [hlookup, Option.getD_some] at h
    exact absurd h (hentries _ (List.mem_of_lookup hlookup))

/-- What becomes of a node that is not lowered to a leaf. -/
theorem shapeOf_cases (src : String) (h : t.kind ∉ leafRules) :
    (∃ k, shapeOf src t = .branch k ∧
        (k = Kind.identifier → joinCapitalized t.kind = Kind.identifier)) ∨
      shapeOf src t = .variableStatement ∨ shapeOf src t = .heritage ∨
      shapeOf src t = .constructorMember ∨
      ((∃ k, shapeOf src t = .operands k) ∧ t.kind ∈ operandRules) ∨
      (shapeOf src t = .template ∧ t.kind = "template_string") := by
  unfold shapeOf
  split
  · exact Or.inr (Or.inl rfl)
  · exact Or.inr (Or.inl rfl)
  · next hk => exact absurd (by rw [hk]; decide) h
  · next hk => exact absurd (by rw [hk]; decide) h
  · next hk => exact absurd (by rw [hk]; decide) h
  · next hk => exact absurd (by rw [hk]; decide) h
  · next hk => exact Or.inr (Or.inr (Or.inr (Or.inr (Or.inr ⟨rfl, hk⟩))))
  · next hk =>
    exact Or.inr (Or.inr (Or.inr (Or.inr (Or.inl ⟨⟨_, rfl⟩, by rw [hk]; decide⟩))))
  · next hk =>
    exact Or.inr (Or.inr (Or.inr (Or.inr (Or.inl ⟨⟨_, rfl⟩, by rw [hk]; decide⟩))))
  · next hk =>
    exact Or.inr (Or.inr (Or.inr (Or.inr (Or.inl ⟨⟨_, rfl⟩, by rw [hk]; decide⟩))))
  · split
    · exact Or.inl ⟨_, rfl, fun hk => absurd hk (by decide)⟩
    · exact Or.inl ⟨_, rfl, fun hk => absurd hk (by decide)⟩
  · refine Or.inl ⟨_, rfl, fun hk => ?_⟩
    unfold unaryKind at hk
    split at hk <;> exact absurd hk (by decide)
  · exact Or.inr (Or.inr (Or.inl rfl))
  · exact Or.inr (Or.inr (Or.inl rfl))
  · exact Or.inr (Or.inr (Or.inl rfl))
  · split
    · exact Or.inr (Or.inr (Or.inr (Or.inl rfl)))
    · exact Or.inl ⟨_, rfl, fun hk => absurd hk (by decide)⟩
  · split
    · exact Or.inl ⟨_, rfl, fun hk => absurd hk (by decide)⟩
    · exact Or.inl ⟨_, rfl, fun hk => absurd hk (by decide)⟩
  · split
    · next kind hlookup =>
      -- an entry in the table of leaves
      have hmem : t.kind ∈ leafKinds.map (·.1) :=
        List.mem_map.mpr ⟨(t.kind, kind), List.mem_of_lookup hlookup, rfl⟩
      exact absurd (List.mem_append_left _ hmem) h
    · exact Or.inl ⟨_, rfl, joinCapitalized_of_ruleKind⟩

/-- The parts of a node that is not lowered to a leaf have a layout. -/
theorem exists_layout (src : String) (h : t.kind ∉ leafRules) :
    ∃ l, (shapeOf src t).layout = some l := by
  rcases shapeOf_cases src h with ⟨k, hs, -⟩ | hs | hs | hs | ⟨⟨k, hs⟩, -⟩ | ⟨hs, -⟩ <;>
    exact ⟨_, by rw [hs]; rfl⟩

/-- The rules that are lowered without their parts. -/
theorem layout_of_mem_leafRules (src : String) (h : t.kind ∈ leafRules) :
    (shapeOf src t).layout = none := by
  simp only [leafRules, leafKinds, List.map_cons, List.map_nil, List.cons_append,
    List.nil_append, List.mem_cons, List.not_mem_nil, or_false] at h
  rcases h with hk | hk | hk | hk | hk | hk | hk | hk | hk | hk | hk | hk | hk | hk | hk | hk | hk |
    hk | hk <;> (rw [shapeOf, hk]; rfl)

/-- Only operations keep two operands around an operator. -/
theorem kind_of_shapeOf_operands {k : Kind} (h : shapeOf src t = .operands k) :
    t.kind ∈ operandRules := by
  have hleaf : t.kind ∉ leafRules := by
    intro hmem
    have hnone := layout_of_mem_leafRules src hmem
    rw [h] at hnone
    cases hnone
  rcases shapeOf_cases src hleaf with ⟨k, hs, -⟩ | hs | hs | hs | ⟨-, hkind⟩ | ⟨hs, -⟩
  · cases hs.symm.trans h
  · cases hs.symm.trans h
  · cases hs.symm.trans h
  · cases hs.symm.trans h
  · exact hkind
  · cases hs.symm.trans h

theorem kind_of_layout_operands (h : t.kind ∉ leafRules) {k : Kind}
    (hl : (shapeOf src t).layout = some (.operands k)) : t.kind ∈ operandRules := by
  rcases shapeOf_cases src h with ⟨k, hs, -⟩ | hs | hs | hs | ⟨-, hkind⟩ | ⟨hs, -⟩
  · rw [hs] at hl; cases hl
  · rw [hs] at hl; cases hl
  · rw [hs] at hl; cases hl
  · rw [hs] at hl; cases hl
  · exact hkind
  · rw [hs] at hl; cases hl

theorem kind_of_layout_substitutions (h : t.kind ∉ leafRules)
    (hl : (shapeOf src t).layout = some .substitutions) : t.kind = "template_string" := by
  rcases shapeOf_cases src h with ⟨k, hs, -⟩ | hs | hs | hs | ⟨⟨k, hs⟩, -⟩ | ⟨-, hkind⟩
  · rw [hs] at hl; cases hl
  · rw [hs] at hl; cases hl
  · rw [hs] at hl; cases hl
  · rw [hs] at hl; cases hl
  · rw [hs] at hl; cases hl
  · exact hkind

/-- A node that is not lowered to a leaf does not become a name. -/
theorem kind_ne_identifier (hfate : t.token.fate = .kept) (h : t.kind ∉ leafRules)
    (hspelling : joinCapitalized t.kind = Kind.identifier → t.kind = "identifier") {n : Node}
    (hn : lowerInto src t = [n]) : n.kind ≠ Kind.identifier := by
  rcases shapeOf_cases src h with ⟨k, hs, hk⟩ | hs | hs | hs | ⟨⟨k, hs⟩, -⟩ | ⟨hs, -⟩
  · rw [lowerInto_branch src hfate hs] at hn
    obtain rfl := List.singleton_inj.mp hn
    intro hname
    refine h ?_
    rw [hspelling (hk hname)]
    decide
  · rw [lowerInto_variableStatement src hfate hs] at hn
    obtain rfl := List.singleton_inj.mp hn
    change Kind.variableStatement ≠ Kind.identifier
    decide
  · rw [lowerInto_heritage src hfate hs] at hn
    obtain rfl := List.singleton_inj.mp hn
    change Kind.heritageClause ≠ Kind.identifier
    decide
  · rw [lowerInto_constructorMember src hfate hs] at hn
    obtain rfl := List.singleton_inj.mp hn
    change Kind.constructorMember ≠ Kind.identifier
    decide
  · rw [lowerInto_operands src hfate hs] at hn
    obtain rfl := List.singleton_inj.mp hn
    change Kind.binaryExpression ≠ Kind.identifier
    decide
  · rw [lowerInto_template src hfate hs] at hn
    obtain rfl := List.singleton_inj.mp hn
    cases lowerSubstitutions src t.children with
    | nil =>
      change Kind.plainTemplate ≠ Kind.identifier
      decide
    | cons m ms =>
      change Kind.templateExpression ≠ Kind.identifier
      decide

end Shapes

/-! ### Significant parts -/

/-- The node stands for a rule of the grammar and is no comment. -/
def Token.isSignificant (tok : Token) : Bool := tok.named && !tok.extra

section Significant

variable {src : String} {u : ParseTree}

/-- Nothing is left of a node that is not significant, unless it is an error. -/
theorem lowerPart_of_not_isSignificant (src : String) (hregular : u.token.Regular)
    (herror : u.token.error = false) (h : u.token.isSignificant = false) :
    lowerPart src u = [] := by
  have hname : u.kind ≠ "type_identifier" := by
    intro hkind
    obtain ⟨hnamed, hextra⟩ := hregular.named (by rw [show u.token.kind = _ from hkind]; decide)
    rw [Token.isSignificant, hnamed, hextra] at h
    cases h
  have hfate : u.token.fate = .dropped := by
    rw [Token.isSignificant, Bool.and_eq_false_iff, Bool.not_eq_false'] at h
    rw [Token.fate, herror]
    rcases h with hnamed | hextra
    · simp [hnamed]
    · simp [hextra]
  rw [lowerPart_eq_lowerInto src hname, lowerInto_dropped src hfate]

/-- Only the significant parts of a construct without errors leave anything. -/
theorem lowerChildren_eq_filter {ts : List ParseTree} (hregular : ∀ c ∈ ts, c.token.Regular)
    (herror : ∀ c ∈ ts, c.token.error = false) :
    lowerChildren src ts = (ts.filter (·.token.isSignificant)).flatMap (lowerPart src) := by
  rw [lowerChildren_eq_flatMap]
  induction ts with
  | nil => rfl
  | cons c ts ih =>
    have ih := ih (fun d hd => hregular d (List.mem_cons_of_mem c hd))
      fun d hd => herror d (List.mem_cons_of_mem c hd)
    rw [List.flatMap_cons, ih]
    cases hc : c.token.isSignificant with
    | true => simp [hc]
    | false =>
      have hnone := lowerPart_of_not_isSignificant src (hregular c List.mem_cons_self)
        (herror c List.mem_cons_self) hc
      simp [hc, hnone]

/-- A significant node is kept unless its rule is a wrapper. -/
theorem fate_of_isSignificant (h : u.token.isSignificant = true)
    (hkind : u.kind ∉ "hash_bang_line" :: splicedRules) : u.token.fate = .kept := by
  rw [Token.isSignificant, Bool.and_eq_true, Bool.not_eq_true'] at h
  rw [List.mem_cons, not_or] at hkind
  exact fate_of_reached (Or.inr ⟨h.1, h.2, hkind.1⟩) hkind.2

/-- A wrapper leaves what its parts leave. -/
theorem lowerPart_of_mem_splicedRules (src : String) (herror : u.token.error = false)
    (h : u.token.isSignificant = true) (hkind : u.kind ∈ splicedRules) :
    lowerPart src u = lowerChildren src u.children := by
  have hnames : ∀ k ∈ splicedRules, k ≠ "type_identifier" ∧ k ≠ "hash_bang_line" := by decide
  obtain ⟨hname, hline⟩ := hnames u.kind hkind
  have hfate : u.token.fate = .spliced := by
    rw [Token.isSignificant, Bool.and_eq_true, Bool.not_eq_true'] at h
    rw [Token.fate, herror, h.1, h.2,
      beq_eq_false_iff_ne.mpr (show u.token.kind ≠ "hash_bang_line" from hline),
      List.contains_iff_mem.mpr (show u.token.kind ∈ splicedRules from hkind)]
    rfl
  rw [lowerPart_eq_lowerInto src hname, lowerInto_spliced src hfate]

theorem kept_of_mem (src : String) (h : u.token.isSignificant = true) {s : Shape}
    (hmem : (u.kind, s) ∈ fixedShapes) :
    u.token.fate = .kept ∧ shapeOf src u = s ∧ lowerPart src u = lowerInto src u := by
  have hrules : ∀ r ∈ fixedShapes, r.1 ∉ "hash_bang_line" :: splicedRules ∧
      r.1 ≠ "type_identifier" := by decide
  obtain ⟨hkind, hname⟩ := hrules _ hmem
  exact ⟨fate_of_isSignificant h hkind, shapeOf_of_mem src hmem, lowerPart_eq_lowerInto src hname⟩

/-- A node of a rule without parts is lowered to a leaf. -/
theorem lowerPart_leaf (src : String) (h : u.token.isSignificant = true) {k : Kind}
    (hmem : (u.kind, Shape.leaf k) ∈ fixedShapes) :
    lowerPart src u = [nodeOf src k u.token []] := by
  obtain ⟨hfate, hs, hpart⟩ := kept_of_mem src h hmem
  rw [hpart, lowerInto_leaf src hfate hs]

end Significant

/-! ### Places at the ends of kept paths -/

section Places

variable {src : String} {t c a : ParseTree} {l : Layout} {portion : Portion}

/-- A node on a kept path to one that is not lowered to a leaf is not lowered to a leaf. -/
theorem KeepsPath.not_leaf {p : Position} (h : KeepsPath t p) (ha : t.get? p = some a)
    (hleaf : a.kind ∉ leafRules) : t.kind ∉ leafRules := by
  cases p with
  | nil => rwa [Option.some.inj ha]
  | cons i p =>
    obtain ⟨c, -, hstep, -⟩ := h
    exact hstep.not_leaf

/-- The parts of a node that is reached have a layout, and a step that is kept leads to a stretch
of it. -/
theorem exists_offset (src : String) {i : Nat} (hportion : portion = .whole → t.token.Reached)
    (hstep : KeepsStep t i c) (hname : c.kind ≠ "type_identifier")
    (hnamed : c.kind = "template_substitution" → c.token.named = true) :
    ∃ l o portion', layout src portion t = some l ∧
      l.offset src t.children i c = some (o, portion') ∧
      (portion' = .parts → c.kind = "template_substitution") := by
  -- parts in the children of a construct have their stretch there
  have hchildren : (if c.token.isDeclaredName then none
      else some ((lowerChildren src (t.children.take i)).length, Portion.whole)) =
      some ((lowerChildren src (t.children.take i)).length, .whole) := by
    rw [isDeclaredName_of_ne hname]
    rfl
  cases portion with
  | parts => exact ⟨.spread, _, .whole, rfl, hchildren, nofun⟩
  | whole =>
    cases hfate : t.token.fate with
    | dropped => exact absurd hfate (fate_ne_dropped (hportion rfl))
    | spliced => exact ⟨.spread, _, .whole, by rw [layout, hfate], hchildren, nofun⟩
    | kept =>
      obtain ⟨l, hshape⟩ := exists_layout src hstep.not_leaf
      have hl : layout src .whole t = some l := by rw [layout, hfate]; exact hshape
      cases l with
      | operands operator =>
        rcases hstep.operand (kind_of_layout_operands hstep.not_leaf hshape) with hleft | hright
        · exact ⟨_, _, .whole, hl, by rw [Layout.offset, if_pos hleft], nofun⟩
        · by_cases hleft : t.children.findIdx? (·.token.field == some "left") = some i
          · exact ⟨_, _, .whole, hl, by rw [Layout.offset, if_pos hleft], nofun⟩
          · exact ⟨_, _, .whole, hl, by rw [Layout.offset, if_neg hleft, if_pos hright], nofun⟩
      | substitutions =>
        have hkind := hstep.substitution (kind_of_layout_substitutions hstep.not_leaf hshape)
        have hcond : (c.token.named && c.token.kind == "template_substitution") = true := by
          rw [hnamed hkind]
          exact beq_iff_eq.mpr hkind
        exact ⟨_, _, .parts, hl, by rw [Layout.offset, if_pos hcond], fun _ => hkind⟩
      | spread => exact ⟨_, _, .whole, hl, hchildren, nofun⟩
      | children => exact ⟨_, _, .whole, hl, hchildren, nofun⟩
      | declarations => exact ⟨_, _, .whole, hl, hchildren, nofun⟩
      | heritage => exact ⟨_, _, .whole, hl, hchildren, nofun⟩
      | members => exact ⟨_, _, .whole, hl, hchildren, nofun⟩

/-- An element that is no name has a position: only the name of a constructor has none. -/
theorem exists_wrap {ts : List ParseTree} {k : Nat} {n : Node} (hn : (l.inner src ts)[k]? = some n)
    (hkind : n.kind ≠ Kind.identifier) : ∃ w, l.wrap src ts k = some w := by
  cases l with
  | members =>
    rw [Layout.wrap]
    split
    · next hname =>
      split
      · next hk =>
        -- the first element would be the name
        subst hk
        rw [namesConstructor, List.head?_eq_getElem?,
          show (lowerChildren src ts)[0]? = some n from hn, Option.any_some, Bool.and_eq_true,
          beq_iff_eq] at hname
        exact absurd hname.1 hkind
      · exact ⟨_, rfl⟩
    · exact ⟨_, rfl⟩
  | _ => exact ⟨_, rfl⟩

/-- What is at the end of a kept path has a place, and no node on the way is a name. -/
theorem exists_place (src : String) {p : Position} (ha : t.get? p = some a)
    (hleaf : a.kind ∉ leafRules) (hspliced : a.kind ∉ splicedRules)
    (hregular : ∀ p u, t.get? p = some u → u.token.Regular) (hpath : KeepsPath t p)
    (hportion : portion = .whole → t.token.Reached) (hparts : portion = .parts → p ≠ []) :
    ∃ k r n, place src portion t p = some (k :: r) ∧ (leaves src portion t)[k]? = some n ∧
      n.kind ≠ Kind.identifier := by
  induction p generalizing t portion with
  | nil =>
    obtain rfl : portion = .whole := by
      cases portion with
      | whole => rfl
      | parts => exact absurd rfl (hparts rfl)
    obtain rfl := Option.some.inj ha
    have hfate := fate_of_reached (hportion rfl) hspliced
    obtain ⟨n, hn⟩ := exists_lowerInto_kept src hfate
    refine ⟨0, [], n, place_nil_eq_some.mpr ⟨rfl, hfate, rfl⟩, by rw [leaves, hn]; rfl, ?_⟩
    exact kind_ne_identifier hfate hleaf (hregular [] t rfl).spelling hn
  | cons i p ih =>
    obtain ⟨c, hc, hstep, hreached, hrest⟩ := hpath
    obtain ⟨c', hc', ha⟩ := get?_cons_eq_some.mp ha
    obtain rfl : c = c' := Option.some.inj (hc.symm.trans hc')
    have hbelow : ∀ p u, c.get? p = some u → u.token.Regular :=
      fun p u hu => hregular (i :: p) u (get?_cons_eq_some.mpr ⟨c, hc, hu⟩)
    have hname : c.kind ≠ "type_identifier" := by
      intro hkind
      refine hrest.not_leaf ha hleaf ?_
      rw [hkind]
      decide
    have hnamed : c.token.named = true := by
      rcases hreached with herror | ⟨hnamed, -⟩
      · exact (hbelow [] c rfl).error herror
      · exact hnamed
    obtain ⟨l, o, portion', hl, ho, hsubstitution⟩ :=
      exists_offset src hportion hstep hname fun _ => hnamed
    -- a substitution is no assignment, so the path goes on below it
    have hgoes : portion' = .parts → p ≠ [] := by
      rintro hportion' rfl
      obtain rfl := Option.some.inj ha
      refine hspliced ?_
      rw [hsubstitution hportion']
      decide
    obtain ⟨k, r, n, hplace, hn, hkind⟩ := ih ha hbelow hrest (fun _ => hreached) hgoes
    have hinner := Layout.getElem?_inner hc ho hn
    obtain ⟨w, hw⟩ := exists_wrap hinner hkind
    have hplaced : place src portion t (i :: p) = some (w ++ r) :=
      place_cons_eq_some.mpr ⟨l, c, o, portion', k, r, w, hl, hc, ho, hplace, hw, rfl⟩
    by_cases hspread : l = .spread
    · subst hspread
      obtain rfl := Option.some.inj hw
      have hleaves : nodeIn (leaves src portion t) [o + k] = some n := nodeIn_wrap hl hw hinner
      obtain ⟨m, hm, hmn⟩ := nodeIn_cons_eq_some.mp hleaves
      obtain rfl := Option.some.inj hmn
      exact ⟨o + k, r, _, hplaced, hm, hkind⟩
    · -- below a node that is kept, which is the only one that is left
      cases portion with
      | parts => exact absurd (Option.some.inj hl).symm hspread
      | whole =>
        rcases layout_whole_eq_some hl with ⟨-, hl'⟩ | ⟨hfate, -⟩
        · exact absurd hl' hspread
        obtain ⟨m, hm⟩ := exists_lowerInto_kept src hfate
        have hleaves := nodeIn_wrap hl hw hinner
        rw [leaves, hm] at hleaves
        obtain ⟨w', rfl⟩ : ∃ w', w = 0 :: w' := by
          cases w with
          | nil => cases hleaves
          | cons j w' =>
            obtain ⟨y, hy, -⟩ := nodeIn_cons_eq_some.mp hleaves
            obtain ⟨hj, -⟩ := List.getElem?_eq_some_iff.mp hy
            rw [List.length_singleton, Nat.lt_one_iff] at hj
            exact ⟨w', by rw [hj]⟩
        refine ⟨0, w' ++ r, m, hplaced, by rw [leaves, hm]; rfl, ?_⟩
        exact kind_ne_identifier hfate hstep.not_leaf (hregular [] t rfl).spelling hm

end Places

end TreeMend.ParseTree
