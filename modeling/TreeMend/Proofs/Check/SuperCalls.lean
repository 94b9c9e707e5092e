import TreeMend.Proofs.Lowering.Nesting
import TreeMend.Proofs.Lowering.Origins
import TreeMend.Proofs.Lowering.Slices
import TreeMend.Rule.SuperCall

/-!
# What counts as a call of `super`

The check on derived constructors does not look at the callee of the first call.  It looks for the
word in the text of the call, which is all the source between its two ends: a constructor passes if
`super` is written anywhere in there, in a string, in a longer name or in a comment just as well as
in the callee.  A constructor that does call `super` passes, since the callee is a part of the call.

## Main definitions

* `SuperCall.LacksSuper` — the first statement of the constructor has no call with the word.
* `SuperCall.CallsSuper` — a statement calls `super`.
* `SuperCall.WritesSuper` — the source reads `super` somewhere in the first call of a statement.
* `ParseTree.Faithful` — what is assumed of the parse tree of a source.

## Main results

* `SuperCall.verdict_eq_violated_iff` — what the check reports.
* `SuperCall.verdict_lowered_iff` — **a constructor passes where the source reads `super`**.
* `SuperCall.verdict_misled` — so it may pass without a call of `super`.
-/

namespace TreeMend

/-! ### Inside a parse tree -/

namespace ParseTree

variable {t u : ParseTree} {p : Position}

theorem subtrees_subset_of_get? (h : t.get? p = some u) : u.subtrees ⊆ t.subtrees := by
  induction p generalizing t with
  | nil =>
    obtain rfl := Option.some.inj h
    exact List.Subset.refl _
  | cons i p ih =>
    obtain ⟨c, hc, hu⟩ := get?_cons_eq_some.mp h
    exact List.Subset.trans (ih hu) (subtrees_subset_of_mem (List.mem_of_getElem? hc))

/-- Everything in a well nested tree stands inside its range. -/
theorem WellNested.inside (hnested : t.WellNested) (h : t.get? p = some u) :
    t.token.start ≤ u.token.start ∧ u.token.stop ≤ t.token.stop := by
  induction p generalizing t with
  | nil =>
    obtain rfl := Option.some.inj h
    exact ⟨Nat.le_refl _, Nat.le_refl _⟩
  | cons i p ih =>
    obtain ⟨c, hc, hu⟩ := get?_cons_eq_some.mp h
    have hmem := List.mem_of_getElem? hc
    obtain ⟨hstart, hstop⟩ := hnested.holds.inside c.token.span (List.mem_map_of_mem hmem)
    obtain ⟨hstart', hstop'⟩ := ih (hnested.child hmem) hu
    exact ⟨Nat.le_trans hstart hstart', Nat.le_trans hstop' hstop⟩

/-- What is assumed of the parse tree of a source. -/
structure Faithful (src : String) (t : ParseTree) : Prop where
  /-- The ranges nest. -/
  nested : t.WellNested
  /-- The ranges can be cut out of the source. -/
  cut : ∀ u ∈ t.subtrees, (Text.slice? src u.token.start u.token.stop).isSome = true
  /-- No rule but those of the grammar spells a kind that constructs are known by. -/
  spelled : ∀ u ∈ t.subtrees, u.token.Spelled
  /-- The keyword is written out. -/
  superWord : ∀ u ∈ t.subtrees, u.kind = "super" → textOf src u.token = "super"

end ParseTree

namespace SuperCall

open ParseTree (lowerProgram)

/-! ### The verdict -/

theorem containsWord_eq_true_iff {word cs : List Char} :
    containsWord word cs = true ↔ word <:+: cs := by
  induction cs with
  | nil => simp [containsWord]
  | cons c cs ih =>
    rw [containsWord, Bool.or_eq_true, List.isPrefixOf_iff_prefix, ih, List.infix_cons_iff]

/-- There is a first statement in the constructor of the class, and its first call, if it has one,
does not hold the word. -/
def LacksSuper (n : Node) : Prop :=
  ∃ statement, firstStatement? n = some statement ∧
    ∀ call, statement.child? Kind.callExpression = some call →
      ¬ "super".toList <:+: call.text.toList

/-- The check reports a class with a heritage clause whose constructor lacks the word. -/
theorem verdict_eq_violated_iff {n : Node} {text : String} :
    verdict n = .violated text ↔
      n.kind = Kind.classDeclaration ∧ n.hasChild Kind.heritageClause = true ∧ LacksSuper n ∧
        text = message := by
  unfold verdict LacksSuper
  by_cases hclass : (n.kind == Kind.classDeclaration && n.hasChild Kind.heritageClause) = true
  · obtain ⟨hkind, hheritage⟩ := Bool.and_eq_true_iff.mp hclass
    rw [if_pos hclass, and_iff_right (beq_iff_eq.mp hkind), and_iff_right hheritage]
    cases firstStatement? n with
    | none => simp
    | some statement =>
      cases hcall : statement.child? Kind.callExpression with
      | none => simp [hcall, eq_comm]
      | some call =>
        simp only [Option.some.injEq, exists_eq_left', hcall, forall_eq',
          ← containsWord_eq_true_iff]
        cases containsWord "super".toList call.text.toList <;> simp [eq_comm]
  · rw [if_neg hclass]
    simp only [reduceCtorEq, false_iff]
    rintro ⟨hkind, hheritage, -⟩
    exact hclass (Bool.and_eq_true_iff.mpr ⟨beq_iff_eq.mpr hkind, hheritage⟩)

/-- A class with a heritage clause and a statement to look at is reported or passes. -/
theorem verdict_eq_clean_iff {n s : Node} (hkind : n.kind = Kind.classDeclaration)
    (hheritage : n.hasChild Kind.heritageClause = true) (hs : firstStatement? n = some s) :
    verdict n = .clean ↔ verdict n ≠ .violated message := by
  unfold verdict
  rw [if_pos (Bool.and_eq_true_iff.mpr ⟨beq_iff_eq.mpr hkind, hheritage⟩), hs]
  simp only
  split
  · split <;> simp
  · simp

/-! ### Calls of `super` -/

/-- The node is a call whose callee is `super`. -/
def IsSuperCall (call : Node) : Prop :=
  call.kind = Kind.callExpression ∧
    ∃ callee, call.children.head? = some callee ∧ callee.kind = Kind.superKeyword

/-- One of the parts of the statement is a call of `super`. -/
def CallsSuper (statement : Node) : Prop := ∃ call ∈ statement.children, IsSuperCall call

/-- The source reads `super` somewhere between the two ends of the first call of the statement. -/
def WritesSuper (src : String) (statement : Node) : Prop :=
  ∃ call, statement.child? Kind.callExpression = some call ∧
    ∃ start stop, call.span.start ≤ start ∧ stop ≤ call.span.stop ∧
      Text.IsSlice src start stop "super"

section Lowered

variable {src : String} {t : ParseTree} {q : Position} {n s call : Node}

theorem exists_get?_firstStatement {root : Node} (hn : root.get? q = some n)
    (h : firstStatement? n = some s) : ∃ r, root.get? r = some s := by
  obtain ⟨member, hmember, h⟩ := Option.bind_eq_some_iff.mp h
  obtain ⟨body, hbody, h⟩ := Option.bind_eq_some_iff.mp h
  obtain ⟨i, hi⟩ := Node.exists_get?_of_child? hn hmember
  obtain ⟨j, hj⟩ := Node.exists_get?_of_child? hi hbody
  obtain ⟨k, hk⟩ := Node.exists_get?_of_child? hj h
  exact ⟨_, hk⟩

/-- The text of a call can be cut out of the source. -/
theorem isSlice_call (ht : t.Faithful src) (hcall : (lowerProgram src t).get? q = some call)
    (hkind : call.kind = Kind.callExpression) :
    Text.IsSlice src call.span.start call.span.stop call.text := by
  obtain ⟨p, u, hu, -, hfate, hlower⟩ :=
    ParseTree.exists_origin hcall (by rw [hkind]; decide)
  have hspan := ParseTree.span_of_lowerInto hfate hlower
  obtain ⟨part, hpart⟩ := Option.isSome_iff_exists.mp
    (ht.cut u (ParseTree.mem_subtrees hu))
  have hsliced := ParseTree.sliced_lowerProgram src t call (Node.mem_preorder_iff.mpr ⟨q, hcall⟩)
  rw [hspan, ← Text.slice?_eq_some_iff_isSlice, hsliced, hspan]
  change Text.slice? src u.token.start u.token.stop =
    some ((Text.slice? src u.token.start u.token.stop).getD "")
  rw [hpart]
  rfl

/-- In a call of `super` the source reads `super`. -/
theorem exists_slice_of_isSuperCall (ht : t.Faithful src)
    (hcall : (lowerProgram src t).get? q = some call) (h : IsSuperCall call) :
    ∃ start stop, call.span.start ≤ start ∧ stop ≤ call.span.stop ∧
      Text.IsSlice src start stop "super" := by
  obtain ⟨hkind, callee, hcallee, hsuper⟩ := h
  have hbelow : (lowerProgram src t).get? (q ++ [0]) = some callee := by
    rw [Node.get?_append, hcall]
    exact Node.get?_cons_eq_some.mpr ⟨callee, by rw [← List.head?_eq_getElem?, hcallee], rfl⟩
  obtain ⟨p, u, hu, hplace, hfate, hlower⟩ :=
    ParseTree.exists_origin hcall (by rw [hkind]; decide)
  obtain ⟨p', u', hu', hplace', hfate', hlower'⟩ :=
    ParseTree.exists_origin hbelow (by rw [hsuper]; decide)
  -- the keyword stands below the call in the parse tree as well
  obtain ⟨r, rfl⟩ :=
    ParseTree.prefix_of_place_prefix hu hu' hplace hplace' (List.prefix_append q [0])
  rw [ParseTree.get?_append, hu, Option.bind_some] at hu'
  have hmem : u'.subtrees ⊆ t.subtrees := List.Subset.trans
    (ParseTree.subtrees_subset_of_get? hu') (ParseTree.subtrees_subset_of_get? hu)
  have hnested : u.WellNested := fun v hv =>
    ht.nested v (ParseTree.subtrees_subset_of_get? hu hv)
  obtain ⟨hstart, hstop⟩ := hnested.inside hu'
  have hrule : u'.kind = "super" := by
    have htelling := ParseTree.mem_tellingRules (ht.spelled u' (hmem u'.mem_subtrees_self))
      (by rw [hsuper]; decide) (ParseTree.kind_mem_kinds hfate' hlower')
    have hall : ∀ e ∈ ParseTree.tellingRules, e.2 = Kind.superKeyword → e.1 = "super" := by
      decide +kernel
    exact hall _ htelling hsuper
  have htext := ht.superWord u' (hmem u'.mem_subtrees_self) hrule
  refine ⟨u'.token.start, u'.token.stop, ?_, ?_, ?_⟩
  · rw [ParseTree.span_of_lowerInto hfate hlower]
    exact hstart
  · rw [ParseTree.span_of_lowerInto hfate hlower]
    exact hstop
  · rw [← Text.slice?_eq_some_iff_isSlice]
    obtain ⟨part, hpart⟩ := Option.isSome_iff_exists.mp (ht.cut u' (hmem u'.mem_subtrees_self))
    rw [ParseTree.textOf, ParseTree.textBetween, hpart, Option.getD_some] at htext
    rw [hpart, htext]

/-- **A constructor passes where the source reads `super`.**  In the tree of a file, take a class
with a heritage clause whose constructor has an expression statement.  It passes exactly if the
source reads `super` somewhere between the two ends of the first call of that statement, and is
reported otherwise.  If that call is a call of `super`, it passes.  So passing means that `super` is
called exactly if the statement does not read `super` without a call of it. -/
theorem verdict_lowered_iff (ht : t.Faithful src) (hn : (lowerProgram src t).get? q = some n)
    (hkind : n.kind = Kind.classDeclaration)
    (hheritage : n.hasChild Kind.heritageClause = true) (hs : firstStatement? n = some s) :
    (verdict n = .clean ↔ WritesSuper src s) ∧
      (verdict n = .violated message ↔ ¬ WritesSuper src s) ∧
      (∀ call, s.child? Kind.callExpression = some call → IsSuperCall call →
        verdict n = .clean) ∧
      (((verdict n = .clean → CallsSuper s) ∧
          (¬ CallsSuper s → verdict n = .violated message)) ↔
        (WritesSuper src s → CallsSuper s)) := by
  obtain ⟨r, hr⟩ := exists_get?_firstStatement hn hs
  have hcall : ∀ {call : Node}, s.child? Kind.callExpression = some call →
      ∃ i, (lowerProgram src t).get? (r ++ [i]) = some call ∧
        call.kind = Kind.callExpression := by
    intro call hcall
    obtain ⟨i, hi⟩ := Node.exists_get?_of_child? hr hcall
    exact ⟨i, hi, Node.kind_of_child? hcall⟩
  -- the text of the first call holds the word where the source does
  have hlacks : LacksSuper n ↔ ¬ WritesSuper src s := by
    constructor
    · rintro ⟨s', hs', hnone⟩ ⟨call, hfirst, hslice⟩
      obtain rfl : s' = s := Option.some.inj (hs'.symm.trans hs)
      obtain ⟨i, hi, hkind⟩ := hcall hfirst
      exact hnone call hfirst
        ((Text.infix_iff_exists_isSlice (isSlice_call ht hi hkind)).mpr hslice)
    · intro hnone
      refine ⟨s, hs, fun call hfirst hword => hnone ⟨call, hfirst, ?_⟩⟩
      obtain ⟨i, hi, hkind⟩ := hcall hfirst
      exact (Text.infix_iff_exists_isSlice (isSlice_call ht hi hkind)).mp hword
  have hviolated : verdict n = .violated message ↔ ¬ WritesSuper src s := by
    rw [verdict_eq_violated_iff, hlacks]
    simp [hkind, hheritage]
  have hclean : verdict n = .clean ↔ WritesSuper src s := by
    rw [verdict_eq_clean_iff hkind hheritage hs, ne_eq, hviolated, not_not]
  refine ⟨hclean, hviolated, fun call hfirst hsuper => hclean.mpr ⟨call, hfirst, ?_⟩, ?_⟩
  · obtain ⟨i, hi, -⟩ := hcall hfirst
    exact exists_slice_of_isSuperCall ht hi hsuper
  · rw [hclean, hviolated]
    constructor
    · exact fun h => h.1
    · exact fun h => ⟨h, mt h⟩

end Lowered

/-- A source whose first call has the word in a string. -/
def misledSource : String :=
  "class B extends A \x7b constructor() \x7b init(\"super\"); super(); \x7d \x7d"

/-- The parse tree of `misledSource`. -/
def misledTree : ParseTree :=
  ⟨⟨"program", true, false, false, false, 0, 63, none⟩, [
    ⟨⟨"class_declaration", true, false, false, false, 0, 63, none⟩, [
      ⟨⟨"class", false, false, false, false, 0, 5, none⟩, []⟩,
      ⟨⟨"type_identifier", true, false, false, false, 6, 7, some "name"⟩, []⟩,
      ⟨⟨"class_heritage", true, false, false, false, 8, 17, none⟩, [
        ⟨⟨"extends_clause", true, false, false, false, 8, 17, none⟩, [
          ⟨⟨"extends", false, false, false, false, 8, 15, none⟩, []⟩,
          ⟨⟨"identifier", true, false, false, false, 16, 17, some "value"⟩, []⟩]⟩]⟩,
      ⟨⟨"class_body", true, false, false, false, 18, 63, some "body"⟩, [
        ⟨⟨"\x7b", false, false, false, false, 18, 19, none⟩, []⟩,
        ⟨⟨"method_definition", true, false, false, false, 20, 61, none⟩, [
          ⟨⟨"property_identifier", true, false, false, false, 20, 31, some "name"⟩, []⟩,
          ⟨⟨"formal_parameters", true, false, false, false, 31, 33, some "parameters"⟩, [
            ⟨⟨"(", false, false, false, false, 31, 32, none⟩, []⟩,
            ⟨⟨")", false, false, false, false, 32, 33, none⟩, []⟩]⟩,
          ⟨⟨"statement_block", true, false, false, false, 34, 61, some "body"⟩, [
            ⟨⟨"\x7b", false, false, false, false, 34, 35, none⟩, []⟩,
            ⟨⟨"expression_statement", true, false, false, false, 36, 50, none⟩, [
              ⟨⟨"call_expression", true, false, false, false, 36, 49, none⟩, [
                ⟨⟨"identifier", true, false, false, false, 36, 40, some "function"⟩, []⟩,
                ⟨⟨"arguments", true, false, false, false, 40, 49, some "arguments"⟩, [
                  ⟨⟨"(", false, false, false, false, 40, 41, none⟩, []⟩,
                  ⟨⟨"string", true, false, false, false, 41, 48, none⟩, [
                    ⟨⟨"\"", false, false, false, false, 41, 42, none⟩, []⟩,
                    ⟨⟨"string_fragment", true, false, false, false, 42, 47, none⟩, []⟩,
                    ⟨⟨"\"", false, false, false, false, 47, 48, none⟩, []⟩]⟩,
                  ⟨⟨")", false, false, false, false, 48, 49, none⟩, []⟩]⟩]⟩,
              ⟨⟨";", false, false, false, false, 49, 50, none⟩, []⟩]⟩,
            ⟨⟨"expression_statement", true, false, false, false, 51, 59, none⟩, [
              ⟨⟨"call_expression", true, false, false, false, 51, 58, none⟩, [
                ⟨⟨"super", true, false, false, false, 51, 56, some "function"⟩, []⟩,
                ⟨⟨"arguments", true, false, false, false, 56, 58, some "arguments"⟩, [
                  ⟨⟨"(", false, false, false, false, 56, 57, none⟩, []⟩,
                  ⟨⟨")", false, false, false, false, 57, 58, none⟩, []⟩]⟩]⟩,
              ⟨⟨";", false, false, false, false, 58, 59, none⟩, []⟩]⟩,
            ⟨⟨"\x7d", false, false, false, false, 60, 61, none⟩, []⟩]⟩]⟩,
        ⟨⟨"\x7d", false, false, false, false, 62, 63, none⟩, []⟩]⟩]⟩]⟩

theorem faithful_misledTree : misledTree.Faithful misledSource where
  nested := by
    unfold ParseTree.WellNested
    decide +kernel
  cut := by decide +kernel
  spelled := by decide +kernel
  superWord := by decide +kernel

/-- The class of `misledSource` passes, and the only callee in its first statement is a name. -/
theorem exists_misledStatement : ∃ n s,
    (lowerProgram misledSource misledTree).get? [0] = some n ∧ n.kind = Kind.classDeclaration ∧
      n.hasChild Kind.heritageClause = true ∧ verdict n = .clean ∧
      firstStatement? n = some s ∧ ¬ CallsSuper s := by
  have hclass : ((lowerProgram misledSource misledTree).get? [0]).any (fun n =>
      n.kind == Kind.classDeclaration && n.hasChild Kind.heritageClause && verdict n == .clean &&
        (firstStatement? n).any fun s => s.children.all fun call =>
          call.children.head?.all (·.kind == Kind.identifier)) = true := by decide +kernel
  obtain ⟨n, hn, hfacts⟩ := (Option.any_eq_true _ _).mp hclass
  simp only [Bool.and_eq_true, beq_iff_eq] at hfacts
  obtain ⟨⟨⟨hkind, hheritage⟩, hverdict⟩, hstatement⟩ := hfacts
  obtain ⟨s, hs, hcallees⟩ := (Option.any_eq_true _ _).mp hstatement
  refine ⟨n, s, hn, hkind, hheritage, hverdict, hs, ?_⟩
  rintro ⟨call, hmem, -, callee, hcallee, hsuper⟩
  have hname := List.all_eq_true.mp hcallees call hmem
  rw [hcallee, Option.all_some, hsuper] at hname
  exact absurd hname (by decide)

theorem verdict_lowered_misledTree :
    misledTree.Faithful misledSource ∧ ∃ n s,
      (lowerProgram misledSource misledTree).get? [0] = some n ∧ firstStatement? n = some s ∧
        ¬ CallsSuper s ∧ WritesSuper misledSource s := by
  obtain ⟨n, s, hn, hkind, hheritage, hverdict, hs, hcalls⟩ := exists_misledStatement
  have hwrites := (verdict_lowered_iff faithful_misledTree hn hkind hheritage hs).1.mp hverdict
  exact ⟨faithful_misledTree, n, s, hn, hs, hcalls, hwrites⟩

/-- A constructor may pass without a call of `super` in its first statement. -/
theorem verdict_misled :
    ¬ ∀ (src : String) (t : ParseTree) (q : Position) (n s : Node), t.Faithful src →
      (lowerProgram src t).get? q = some n → n.kind = Kind.classDeclaration →
        n.hasChild Kind.heritageClause = true → firstStatement? n = some s →
          (verdict n = .clean → CallsSuper s) ∧
            (¬ CallsSuper s → verdict n = .violated message) := by
  intro h
  obtain ⟨n, s, hn, hkind, hheritage, hverdict, hs, hcalls⟩ := exists_misledStatement
  have hclaim := h misledSource misledTree [0] n s faithful_misledTree hn hkind hheritage hs
  exact hcalls (hclaim.1 hverdict)

end SuperCall

end TreeMend
