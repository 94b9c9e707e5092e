import TreeMend.Proofs.Lowering.Place
import TreeMend.Proofs.Text.Boundaries

/-!
# Texts and ranges keep step

Every node of a lowered tree has the text that stands in the source over its range, or no text if
nothing can be cut out there.  Most nodes are made over the range of a parse node; the others take
text and range together from an operand, have a range that ends with a declaration, or have
neither text nor range.

Nothing is assumed of the parse tree: its offsets may run backwards, lie beyond the end of the
source or inside a character.

## Main definitions

* `Text.IsSlice` — what stands between two offsets of a text.
* `Node.Sliced` — a node whose text and range are in step.

## Main results

* `ParseTree.exists_of_mem_lowerChildren`, `ParseTree.exists_of_mem_lowerField`,
  `ParseTree.exists_of_mem_lowerSubstitutions` — where the nodes in a construct come from.
* `ParseTree.sliced_leaves` — what a parse node leaves.
* `ParseTree.text_lowerProgram` — **every node has the text of its range**.
-/

namespace TreeMend

namespace Text

/-- `part` stands in `s` from byte `start` to byte `stop`. -/
def IsSlice (s : String) (start stop : Nat) (part : String) : Prop :=
  ∃ before after : String, s = before ++ part ++ after ∧ before.utf8ByteSize = start ∧
    (before ++ part).utf8ByteSize = stop

/-- Cutting out finds what stands between two offsets. -/
theorem slice?_eq_some_iff_isSlice {s part : String} {start stop : Nat} :
    slice? s start stop = some part ↔ IsSlice s start stop part := by
  rw [slice?_eq_some_iff]
  constructor
  · rintro ⟨before, after, hsplit, hstart, hstop⟩
    refine ⟨String.ofList before, String.ofList after, ?_, ?_, ?_⟩
    · rw [← String.toList_inj, hsplit]
      simp
    · rw [← byteLength_eq, hstart]
    · rw [String.utf8ByteSize_append, ← byteLength_eq, ← byteLength_toList part,
        ← byteLength_append, hstop]
  · rintro ⟨before, after, hsplit, hstart, hstop⟩
    refine ⟨before.toList, after.toList, ?_, ?_, ?_⟩
    · rw [hsplit, String.toList_append, String.toList_append, List.append_assoc]
    · rw [byteLength_toList, hstart]
    · rw [← String.toList_append, byteLength_toList, hstop]

/-- What stands in a part of a text stands in the text, inside the range of the part. -/
theorem infix_iff_exists_isSlice {s part word : String} {start stop : Nat}
    (h : IsSlice s start stop part) :
    word.toList <:+: part.toList ↔
      ∃ a b, start ≤ a ∧ b ≤ stop ∧ IsSlice s a b word := by
  simp only [← slice?_eq_some_iff_isSlice] at h ⊢
  obtain ⟨before, after, hsplit, rfl, rfl⟩ := slice?_eq_some_iff.mp h
  constructor
  · rintro ⟨left, right, hpart⟩
    refine ⟨byteLength (before ++ left), byteLength (before ++ left ++ word.toList), ?_, ?_,
      slice?_eq_some_iff.mpr ⟨before ++ left, right ++ after, ?_, rfl, rfl⟩⟩
    · rw [byteLength_append]
      omega
    · rw [← hpart, List.append_assoc before left]
      simp only [byteLength_append]
      omega
    · rw [hsplit, ← hpart]
      simp only [List.append_assoc]
  · rintro ⟨a, b, hstart, hstop, hword⟩
    obtain ⟨before', after', hsplit', rfl, rfl⟩ := slice?_eq_some_iff.mp hword
    have hprefix : before ++ part.toList <+: s.toList := ⟨after, by rw [hsplit, List.append_assoc]⟩
    have hprefix' : before' ++ word.toList <+: s.toList :=
      ⟨after', by rw [hsplit', List.append_assoc]⟩
    -- the word starts where the part does or later
    obtain ⟨left, rfl⟩ := prefix_of_byteLength_le ((List.prefix_append _ _).trans hprefix)
      ((List.prefix_append _ _).trans hprefix') hstart
    obtain ⟨right, hright⟩ := prefix_of_byteLength_le hprefix' hprefix hstop
    rw [List.append_assoc, List.append_assoc, List.append_cancel_left_eq] at hright
    exact ⟨left, right, by rw [← hright, List.append_assoc]⟩

end Text

/-- The text of the node is cut out of the source over its range. -/
def Node.Sliced (src : String) (n : Node) : Prop :=
  n.text = ParseTree.textBetween src n.span.start n.span.stop

namespace ParseTree

variable {src : String} {ts : List ParseTree} {n : Node}

/-! ### Where nodes come from -/

theorem exists_of_mem_lowerChildren (h : n ∈ lowerChildren src ts) :
    ∃ c ∈ ts, n = nodeOf src Kind.identifier c.token [] ∨ n ∈ lowerInto src c := by
  rw [lowerChildren_eq_flatMap] at h
  obtain ⟨c, hc, hn⟩ := List.mem_flatMap.mp h
  rw [lowerPart] at hn
  split at hn
  · exact ⟨c, hc, Or.inl (List.mem_singleton.mp hn)⟩
  · exact ⟨c, hc, Or.inr hn⟩

theorem exists_of_mem_lowerField {name : String} (h : n ∈ lowerField src name ts) :
    ∃ c ∈ ts, n ∈ lowerInto src c := by
  rw [lowerField_eq] at h
  split at h
  · next c hc => exact ⟨c, List.mem_of_find?_eq_some hc, h⟩
  · cases h

theorem exists_of_mem_lowerSubstitutions (h : n ∈ lowerSubstitutions src ts) :
    ∃ c ∈ ts, n ∈ lowerChildren src c.children := by
  rw [lowerSubstitutions_eq_flatMap] at h
  obtain ⟨c, hc, hn⟩ := List.mem_flatMap.mp h
  rw [lowerSubstitution] at hn
  split at hn
  · exact ⟨c, hc, hn⟩
  · cases hn

/-! ### One node -/

theorem sliced_nodeOf (src : String) (kind : Kind) (tok : Token) (children : List Node) :
    (nodeOf src kind tok children).Sliced src := rfl

/-- A node over the range of a parse node is in step if its children are. -/
theorem everywhere_nodeOf {kind : Kind} {tok : Token} {children : List Node}
    (h : ∀ c ∈ children, c.Everywhere (Node.Sliced src)) :
    (nodeOf src kind tok children).Everywhere (Node.Sliced src) :=
  Node.everywhere_iff.mpr ⟨sliced_nodeOf src kind tok children, h⟩

theorem everywhere_leaf (kind : Kind) (tok : Token) :
    (nodeOf src kind tok []).Everywhere (Node.Sliced src) :=
  everywhere_nodeOf fun _ hc => by cases hc

theorem everywhere_operatorNode (src : String) (kind : Kind) (ts : List ParseTree) :
    (operatorNode src kind ts).Everywhere (Node.Sliced src) := by
  unfold operatorNode
  split
  · exact everywhere_leaf kind _
  · split
    · exact everywhere_leaf kind _
    · -- without an operator there is no text, and none between offset zero and itself
      refine Node.everywhere_iff.mpr ⟨?_, fun _ hc => by cases hc⟩
      rw [Node.Sliced, textBetween, Text.slice?]
      simp

theorem everywhere_variableStatementNode {tok : Token} {declarations : List Node}
    (h : ∀ d ∈ declarations, d.Everywhere (Node.Sliced src)) :
    (variableStatementNode src tok declarations).Everywhere (Node.Sliced src) := by
  refine everywhere_nodeOf fun list hlist => ?_
  obtain rfl := List.mem_singleton.mp hlist
  exact Node.everywhere_iff.mpr ⟨rfl, h⟩

/-- A wrapper has text and range of what it wraps. -/
theorem everywhere_heritageOperandNode (h : n.Everywhere (Node.Sliced src)) :
    (heritageOperandNode n).Everywhere (Node.Sliced src) := by
  have hn : n.Sliced src := (Node.everywhere_iff.mp h).1
  refine Node.everywhere_iff.mpr ⟨hn, fun c hc => ?_⟩
  obtain rfl := List.mem_singleton.mp hc
  exact h

theorem everywhere_templateNode {tok : Token} {ns : List Node}
    (h : ∀ m ∈ ns, m.Everywhere (Node.Sliced src)) :
    (templateNode src tok ns).Everywhere (Node.Sliced src) := by
  cases ns with
  | nil => exact everywhere_leaf _ tok
  | cons m ms => exact everywhere_nodeOf h

theorem mem_of_mem_constructorParts {ns : List Node} (h : n ∈ constructorParts ns) : n ∈ ns := by
  rw [constructorParts_eq] at h
  split at h
  · exact List.mem_of_mem_tail h
  · exact h

/-! ### Whole trees -/

/-- The nodes that a parse node leaves are in step if those of its parts are. -/
theorem sliced_of_parts {t : ParseTree}
    (ih : ∀ c ∈ t.children, ∀ portion, ∀ n ∈ leaves src portion c,
      n.Everywhere (Node.Sliced src))
    (portion : Portion) : ∀ n ∈ leaves src portion t, n.Everywhere (Node.Sliced src) := by
  have hchildren : ∀ n ∈ lowerChildren src t.children, n.Everywhere (Node.Sliced src) := by
    intro n hn
    obtain ⟨c, hc, rfl | hn⟩ := exists_of_mem_lowerChildren hn
    · exact everywhere_leaf _ c.token
    · exact ih c hc .whole n hn
  have hfield : ∀ name, ∀ n ∈ lowerField src name t.children,
      n.Everywhere (Node.Sliced src) := by
    intro name n hn
    obtain ⟨c, hc, hn⟩ := exists_of_mem_lowerField hn
    exact ih c hc .whole n hn
  have hsubstitutions : ∀ n ∈ lowerSubstitutions src t.children,
      n.Everywhere (Node.Sliced src) := by
    intro n hn
    obtain ⟨c, hc, hn⟩ := exists_of_mem_lowerSubstitutions hn
    exact ih c hc .parts n hn
  cases portion with
  | parts => exact hchildren
  | whole =>
    rw [leaves, lowerInto_eq]
    cases t.token.fate with
    | dropped => intro n hn; cases hn
    | spliced => exact hchildren
    | kept =>
      cases shapeOf src t with
      | leaf kind => exact List.forall_mem_singleton.mpr (everywhere_leaf kind _)
      | branch kind => exact List.forall_mem_singleton.mpr (everywhere_nodeOf hchildren)
      | typeName =>
        refine List.forall_mem_singleton.mpr (everywhere_nodeOf ?_)
        exact List.forall_mem_singleton.mpr (everywhere_leaf _ _)
      | variableStatement =>
        exact List.forall_mem_singleton.mpr (everywhere_variableStatementNode hchildren)
      | operands operator =>
        refine List.forall_mem_singleton.mpr (everywhere_nodeOf ?_)
        intro n hn
        rcases List.mem_append.mp hn with hn | hn
        · exact hfield "left" n hn
        rcases List.mem_cons.mp hn with rfl | hn
        · exact everywhere_operatorNode src operator t.children
        · exact hfield "right" n hn
      | template =>
        exact List.forall_mem_singleton.mpr (everywhere_templateNode hsubstitutions)
      | heritage =>
        refine List.forall_mem_singleton.mpr (everywhere_nodeOf ?_)
        intro n hn
        obtain ⟨operand, hoperand, rfl⟩ := List.mem_map.mp hn
        exact everywhere_heritageOperandNode (hchildren operand hoperand)
      | constructorMember =>
        refine List.forall_mem_singleton.mpr (everywhere_nodeOf ?_)
        exact fun n hn => hchildren n (mem_of_mem_constructorParts hn)

/-- Every node that a parse node leaves is in step. -/
theorem sliced_leaves (src : String) (portion : Portion) (t : ParseTree) :
    ∀ n ∈ leaves src portion t, n.Everywhere (Node.Sliced src) := by
  induction t using ParseTree.inductionOn generalizing portion with
  | step t ih => exact sliced_of_parts (fun c hc portion => ih c hc portion) portion

theorem sliced_lowerProgram (src : String) (t : ParseTree) :
    (lowerProgram src t).Everywhere (Node.Sliced src) := by
  have hwhole : Text.slice? src 0 (Text.byteLength src.toList) = some src :=
    Text.slice?_eq_some_iff.mpr ⟨[], [], by simp, rfl, rfl⟩
  have hend : Text.slice? src (Text.byteLength src.toList) (Text.byteLength src.toList) =
      some "" :=
    Text.slice?_eq_some_iff.mpr ⟨src.toList, [], by simp, rfl, by simp⟩
  refine Node.everywhere_iff.mpr ⟨?_, ?_⟩
  · change src = (Text.slice? src 0 (Text.byteLength src.toList)).getD ""
    rw [hwhole, Option.getD_some]
  · intro n hn
    rcases List.mem_append.mp hn with hn | hn
    · exact sliced_leaves src .parts t n hn
    · obtain rfl := List.mem_singleton.mp hn
      refine Node.everywhere_iff.mpr ⟨?_, fun _ hc => by cases hc⟩
      change "" = (Text.slice? src _ _).getD ""
      rw [hend, Option.getD_some]

/-- **Every node has the text of its range.**  Whatever the parse tree is and wherever its offsets
lie, the text of a node of the lowered tree is what stands in the source between the two ends of
its range, and is empty if nothing can be cut out there. -/
theorem text_lowerProgram (src : String) (t : ParseTree) {p : Position} {m : Node}
    (hm : (lowerProgram src t).get? p = some m) :
    (∀ part, Text.IsSlice src m.span.start m.span.stop part → m.text = part) ∧
      ((∀ part, ¬ Text.IsSlice src m.span.start m.span.stop part) → m.text = "") := by
  have hsliced : m.text = (Text.slice? src m.span.start m.span.stop).getD "" :=
    sliced_lowerProgram src t m (Node.mem_preorder_iff.mpr ⟨p, hm⟩)
  constructor
  · intro part hpart
    rw [hsliced, Text.slice?_eq_some_iff_isSlice.mpr hpart, Option.getD_some]
  · intro hnone
    cases hslice : Text.slice? src m.span.start m.span.stop with
    | none => rw [hsliced, hslice, Option.getD_none]
    | some part => exact absurd (Text.slice?_eq_some_iff_isSlice.mp hslice) (hnone part)

/-- A parse tree over `aé`, which has three bytes, with offsets of all kinds. -/
def skewedTree : ParseTree :=
  ⟨{ kind := "program", start := 0, stop := 3 },
    [⟨{ kind := "identifier", start := 1, stop := 3 }, []⟩,
      ⟨{ kind := "identifier", start := 0, stop := 2 }, []⟩,
      ⟨{ kind := "parenthesized_expression", start := 3, stop := 1 },
        [⟨{ kind := "string", start := 0, stop := 9 }, []⟩]⟩]⟩

theorem text_lowerProgram_skewedTree :
    let tree := lowerProgram "aé" skewedTree
    tree.get? [0] = some ⟨Kind.identifier, "é", ⟨1, 3⟩, []⟩ ∧
      Text.IsSlice "aé" 1 3 "é" ∧
      (∀ part, ¬ Text.IsSlice "aé" 0 2 part) ∧
      (tree.get? [1]).map (fun m => (m.span, m.text)) = some (⟨0, 2⟩, "") ∧
      (∀ part, ¬ Text.IsSlice "aé" 3 1 part) ∧
      (tree.get? [2]).map (fun m => (m.span, m.text)) = some (⟨3, 1⟩, "") ∧
      (∀ part, ¬ Text.IsSlice "aé" 0 9 part) ∧
      (tree.get? [2, 0]).map (fun m => (m.span, m.text)) = some (⟨0, 9⟩, "") := by
  have hsome : Text.IsSlice "aé" 1 3 "é" :=
    Text.slice?_eq_some_iff_isSlice.mp (by decide +kernel)
  have hnone : ∀ start stop : Nat, Text.slice? "aé" start stop = none →
      ∀ part, ¬ Text.IsSlice "aé" start stop part := by
    intro start stop h part hpart
    rw [Text.slice?_eq_some_iff_isSlice.mpr hpart] at h
    cases h
  have hinside := hnone 0 2 (by decide +kernel)
  have hbackwards := hnone 3 1 (by decide +kernel)
  have hbeyond := hnone 0 9 (by decide +kernel)
  refine ⟨?_, hsome, hinside, ?_, hbackwards, ?_, hbeyond, ?_⟩
  · have htext := (text_lowerProgram "aé" skewedTree (p := [0]) rfl).1 "é" hsome
    exact congrArg (fun text => some (⟨Kind.identifier, text, ⟨1, 3⟩, []⟩ : Node)) htext
  · have htext := (text_lowerProgram "aé" skewedTree (p := [1]) rfl).2 hinside
    exact congrArg (fun text => some ((⟨0, 2⟩ : Span), text)) htext
  · have htext := (text_lowerProgram "aé" skewedTree (p := [2]) rfl).2 hbackwards
    exact congrArg (fun text => some ((⟨3, 1⟩ : Span), text)) htext
  · have htext := (text_lowerProgram "aé" skewedTree (p := [2, 0]) rfl).2 hbeyond
    exact congrArg (fun text => some ((⟨0, 9⟩ : Span), text)) htext

end ParseTree

end TreeMend
