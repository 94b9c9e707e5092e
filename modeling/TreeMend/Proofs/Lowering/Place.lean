import Mathlib.Data.List.Basic
import TreeMend.Proofs.Lowering.Equations
import TreeMend.Proofs.Tree.Positions

/-!
# Where the parts of a parse tree end up

A node of a parse tree that is kept leaves one node in the generic tree.  This module says at which
position that node stands, given the path to the parse node, and shows that the positions nest as
the paths do: what stands below a lowered node was below the parse node that it comes from.

A parse node counts in the construct around it as a whole or by its parts alone, and what its own
parts leave is laid out in one of a few ways.  A path is followed one step at a time: the parts of
each construct leave one list of nodes, in which every part has its stretch, and the layout of the
construct says where the elements of that list stand.

## Main definitions

* `ParseTree.Portion`, `ParseTree.leaves` — how a parse node counts, and the nodes that it leaves.
* `ParseTree.Layout` — how a construct lays out what its parts leave: `Layout.inner` is the list of
  all of it, `Layout.offset` the stretch of one part, `Layout.wrap` the position of an element.
* `ParseTree.place` — the position of the node that the parse node at the end of a path leaves.

## Main results

* `ParseTree.nodeIn_place` — the node at that position is what the parse node leaves.
* `ParseTree.prefix_of_place_prefix` — positions nest only where paths do.
* `ParseTree.place_injective` — a position is the place of one path at most.
-/

namespace TreeMend.ParseTree

/-- How a parse node counts in the construct around it. -/
inductive Portion where
  /-- It leaves what it becomes. -/
  | whole
  /-- It leaves what its parts leave, whatever it is. -/
  | parts
  deriving DecidableEq, Repr, Inhabited

/-- How a construct lays out what its parts leave. -/
inductive Layout where
  /-- In place of the construct. -/
  | spread
  /-- As its children. -/
  | children
  /-- As the children of its only child. -/
  | declarations
  /-- As its children, with an operator between the two operands. -/
  | operands (operator : Kind)
  /-- As its children, of parts that are substitutions only. -/
  | substitutions
  /-- As the only children of its children. -/
  | heritage
  /-- As its children, without the name of the constructor. -/
  | members
  deriving DecidableEq, Repr, Inhabited

/-- The layout of a construct that is kept; `none` if nothing of its parts is kept. -/
def Shape.layout : Shape → Option Layout
  | .leaf _ => none
  | .branch _ => some .children
  | .typeName => none
  | .variableStatement => some .declarations
  | .operands operator => some (.operands operator)
  | .template => some .substitutions
  | .heritage => some .heritage
  | .constructorMember => some .members

/-- Whether the nodes start with the name of a constructor. -/
def namesConstructor (ns : List Node) : Bool :=
  ns.head?.any fun n => n.kind == Kind.identifier && n.text == "constructor"

variable (src : String)

/-- The nodes that a parse node leaves in the construct around it. -/
def leaves : Portion → ParseTree → List Node
  | .whole, t => lowerInto src t
  | .parts, t => lowerChildren src t.children

/-- The layout of what the parts of a node leave. -/
def layout : Portion → ParseTree → Option Layout
  | .parts, _ => some .spread
  | .whole, t =>
    match t.token.fate with
    | .dropped => none
    | .spliced => some .spread
    | .kept => (shapeOf src t).layout

namespace Layout

/-- All nodes that the parts of a construct leave, in order. -/
def inner : Layout → List ParseTree → List Node
  | .operands operator, ts =>
    lowerField src "left" ts ++ operatorNode src operator ts :: lowerField src "right" ts
  | .substitutions, ts => lowerSubstitutions src ts
  | _, ts => lowerChildren src ts

/-- The number of nodes before those of part number `i`, which is `c`, and how that part counts;
`none` if it leaves nothing or a plain name. -/
def offset : Layout → List ParseTree → Nat → ParseTree → Option (Nat × Portion)
  | .operands _, ts, i, _ =>
    if ts.findIdx? (·.token.field == some "left") = some i then some (0, .whole)
    else if ts.findIdx? (·.token.field == some "right") = some i then
      some ((lowerField src "left" ts).length + 1, .whole)
    else none
  | .substitutions, ts, i, c =>
    if c.token.named && c.token.kind == "template_substitution" then
      some ((lowerSubstitutions src (ts.take i)).length, .parts)
    else none
  | _, ts, i, c =>
    if c.token.isDeclaredName then none
    else some ((lowerChildren src (ts.take i)).length, .whole)

/-- The position of element number `k` of what the parts of a construct leave, among the nodes that
the construct leaves. -/
def wrap : Layout → List ParseTree → Nat → Option Position
  | .spread, _, k => some [k]
  | .declarations, _, k => some [0, 0, k]
  | .heritage, _, k => some [0, k, 0]
  | .members, ts, k =>
    if namesConstructor (lowerChildren src ts) then
      if k = 0 then none else some [0, k - 1]
    else some [0, k]
  | .children, _, k | .operands _, _, k | .substitutions, _, k => some [0, k]

end Layout

/-- The position, among the nodes that a parse node leaves, of the node that the parse node at the
end of a path in it leaves. -/
def place : Portion → ParseTree → Position → Option Position
  | portion, t, [] => if portion = .whole ∧ t.token.fate = .kept then some [0] else none
  | portion, t, i :: p => do
    let l ← layout src portion t
    let c ← t.children[i]?
    let (offset, portion') ← l.offset src t.children i c
    match place portion' c p with
    | some (k :: r) => (l.wrap src t.children (offset + k)).map (· ++ r)
    | _ => none

/-- The node at a position among trees. -/
def nodeIn (ns : List Node) : Position → Option Node
  | [] => none
  | k :: r => ns[k]?.bind fun n => n.get? r

variable {src}

theorem nodeIn_cons_eq_some {ns : List Node} {k : Nat} {r : Position} {m : Node} :
    nodeIn ns (k :: r) = some m ↔ ∃ n, ns[k]? = some n ∧ n.get? r = some m := by
  rw [nodeIn, Option.bind_eq_some_iff]

theorem nodeIn_append {ns : List Node} {w r : Position} {m n : Node} (hw : nodeIn ns w = some n)
    (hr : n.get? r = some m) : nodeIn ns (w ++ r) = some m := by
  cases w with
  | nil => cases hw
  | cons k w =>
    obtain ⟨a, ha, hn⟩ := nodeIn_cons_eq_some.mp hw
    have happend : a.get? (w ++ r) = some m := by
      rw [Node.get?_append, hn]
      exact hr
    exact nodeIn_cons_eq_some.mpr ⟨a, ha, happend⟩

/-! ### Stretches -/

section Stretches

variable {α β : Type} {f : α → List β} {xs : List α} {i j : Nat} {a b : α}

/-- A list is what comes before an element, the element, and what comes after. -/
theorem flatMap_eq_append (ha : xs[i]? = some a) :
    xs.flatMap f = (xs.take i).flatMap f ++ (f a ++ (xs.drop (i + 1)).flatMap f) := by
  obtain ⟨hi, rfl⟩ := List.getElem?_eq_some_iff.mp ha
  rw [← List.flatMap_cons, ← List.flatMap_append, ← List.drop_eq_getElem_cons hi,
    List.take_append_drop]

/-- The stretch of an element starts after those of all before it. -/
theorem getElem?_flatMap_take (ha : xs[i]? = some a) {k : Nat} {y : β} (hk : (f a)[k]? = some y) :
    (xs.flatMap f)[((xs.take i).flatMap f).length + k]? = some y := by
  obtain ⟨hlt, -⟩ := List.getElem?_eq_some_iff.mp hk
  rw [flatMap_eq_append ha, List.getElem?_append_right (by omega), Nat.add_sub_cancel_left,
    List.getElem?_append_left hlt, hk]

/-- An index falls in the stretch of some element. -/
theorem exists_stretch {m : Nat} {y : β} (h : (xs.flatMap f)[m]? = some y) :
    ∃ i a k, xs[i]? = some a ∧ (f a)[k]? = some y ∧ ((xs.take i).flatMap f).length + k = m := by
  induction xs generalizing m with
  | nil => simp at h
  | cons x xs ih =>
    rw [List.flatMap_cons] at h
    -- the index falls in the first stretch or in the others
    rcases Nat.lt_or_ge m (f x).length with hm | hm
    · rw [List.getElem?_append_left hm] at h
      exact ⟨0, x, m, rfl, h, by simp⟩
    · rw [List.getElem?_append_right hm] at h
      obtain ⟨i, a, k, ha, hk, hindex⟩ := ih h
      refine ⟨i + 1, a, k, ha, hk, ?_⟩
      rw [List.take_succ_cons, List.flatMap_cons, List.length_append]
      omega

/-- The stretch of an earlier element ends before that of a later one starts. -/
theorem length_flatMap_take_lt (ha : xs[i]? = some a) (hij : i < j) {k : Nat}
    (hk : k < (f a).length) :
    ((xs.take i).flatMap f).length + k < ((xs.take j).flatMap f).length := by
  have hai : (xs.take j)[i]? = some a := by
    rw [List.getElem?_take_of_lt hij, ha]
  have htake : (xs.take j).take i = xs.take i := by
    rw [List.take_take, Nat.min_eq_left (Nat.le_of_lt hij)]
  rw [flatMap_eq_append hai, htake, List.length_append, List.length_append]
  omega

/-- Two lists made of stretches of the same lengths agree at an index if the stretches do that it
falls in. -/
theorem getElem?_flatMap_eq_iff {g : α → List β} {m : Nat}
    (hlength : ∀ a ∈ xs, (g a).length = (f a).length) :
    (xs.flatMap g)[m]? = (xs.flatMap f)[m]? ↔
      ∀ i a k, xs[i]? = some a → ((xs.take i).flatMap f).length + k = m →
        (g a)[k]? = (f a)[k]? := by
  induction xs generalizing m with
  | nil => simp
  | cons x xs ih =>
    have hx : (g x).length = (f x).length := hlength x List.mem_cons_self
    have ih := @ih (m - (f x).length) fun a ha => hlength a (List.mem_cons_of_mem x ha)
    rw [List.flatMap_cons, List.flatMap_cons]
    -- the index falls in the first stretch or in the others
    rcases Nat.lt_or_ge m (f x).length with hm | hm
    · rw [List.getElem?_append_left (by omega), List.getElem?_append_left hm]
      constructor
      · intro h i a k ha hk
        cases i with
        | zero =>
          obtain rfl := Option.some.inj ha
          obtain rfl : k = m := by simpa using hk
          exact h
        | succ i =>
          rw [List.take_succ_cons, List.flatMap_cons, List.length_append] at hk
          omega
      · intro h
        exact h 0 x m rfl (by simp)
    · rw [List.getElem?_append_right (by omega), List.getElem?_append_right hm, hx, ih]
      constructor
      · intro h i a k ha hk
        cases i with
        | zero =>
          obtain rfl := Option.some.inj ha
          obtain rfl : k = m := by simpa using hk
          rw [List.getElem?_eq_none (by omega), List.getElem?_eq_none hm]
        | succ i =>
          rw [List.take_succ_cons, List.flatMap_cons, List.length_append] at hk
          exact h i a k ha (by omega)
      · intro h i a k ha hk
        refine h (i + 1) a k ha ?_
        rw [List.take_succ_cons, List.flatMap_cons, List.length_append]
        omega

/-- The same for two stretches with an element between them. -/
theorem getElem?_append_cons_eq_iff {xs xs' ys ys' : List α} {a a' : α} {m : Nat}
    (hlength : xs'.length = xs.length) :
    (xs' ++ a' :: ys')[m]? = (xs ++ a :: ys)[m]? ↔
      xs'[m]? = xs[m]? ∧ (m = xs.length → a' = a) ∧
        ∀ k, xs.length + 1 + k = m → ys'[k]? = ys[k]? := by
  rcases Nat.lt_trichotomy m xs.length with hm | rfl | hm
  · rw [List.getElem?_append_left (by omega), List.getElem?_append_left hm]
    have hne : m ≠ xs.length := by omega
    have hk : ∀ k, xs.length + 1 + k ≠ m := by omega
    simp [hne, hk]
  · rw [List.getElem?_append_right (by omega), List.getElem?_append_right (Nat.le_refl _), hlength,
      Nat.sub_self, List.getElem?_cons_zero, List.getElem?_cons_zero, Option.some.injEq,
      List.getElem?_eq_none (by omega), List.getElem?_eq_none (Nat.le_refl _)]
    have hk : ∀ k, xs.length + 1 + k ≠ xs.length := by omega
    simp [hk]
  · have hnone : xs'[m]? = xs[m]? := by
      rw [List.getElem?_eq_none (by omega), List.getElem?_eq_none (by omega)]
    obtain ⟨k, rfl⟩ := Nat.exists_eq_add_of_le hm
    have hindex : xs.length + 1 + k - xs.length = k + 1 := by omega
    rw [List.getElem?_append_right (by omega), List.getElem?_append_right (by omega), hlength,
      Nat.succ_eq_add_one, hindex, List.getElem?_cons_succ, List.getElem?_cons_succ]
    constructor
    · intro h
      refine ⟨hnone, by omega, fun j hj => ?_⟩
      obtain rfl : j = k := by omega
      exact h
    · rintro ⟨-, -, h⟩
      exact h k rfl

end Stretches

namespace Layout

variable {l : Layout} {ts : List ParseTree} {i j : Nat} {c d : ParseTree} {o o' : Nat}
  {portion portion' : Portion}

theorem lowerField_of_findIdx? {name : String} (hc : ts[i]? = some c)
    (hi : ts.findIdx? (·.token.field == some name) = some i) :
    lowerField src name ts = lowerInto src c := by
  obtain ⟨hlt, hfield, hbefore⟩ := List.findIdx?_eq_some_iff_getElem.mp hi
  obtain rfl : ts[i] = c := by rwa [List.getElem?_eq_getElem hlt, Option.some.injEq] at hc
  have hfind : ts.find? (·.token.field == some name) = some ts[i] :=
    List.find?_eq_some_iff_getElem.mpr ⟨hfield, i, hlt, rfl, fun j hj => by
      simpa using hbefore j hj⟩
  rw [lowerField_eq, hfind]

/-- What a part leaves as its stretch in a list of children. -/
theorem lowerPart_of_not_isDeclaredName (h : c.token.isDeclaredName = false) :
    lowerPart src c = leaves src .whole c := by
  rw [lowerPart, h]
  rfl

theorem lowerSubstitution_of_named
    (h : (c.token.named && c.token.kind == "template_substitution") = true) :
    lowerSubstitution src c = leaves src .parts c := by
  rw [lowerSubstitution, if_pos h]
  rfl

/-- A part in the children of a construct has the stretch after all parts before it. -/
theorem offset_children_eq_some
    (h : (if c.token.isDeclaredName then none
      else some ((lowerChildren src (ts.take i)).length, Portion.whole)) = some (o, portion)) :
    o = ((ts.take i).flatMap (lowerPart src)).length ∧
      lowerPart src c = leaves src portion c := by
  split at h
  · cases h
  · next hname =>
    rw [lowerChildren_eq_flatMap] at h
    obtain ⟨rfl, rfl⟩ := Prod.mk.inj (Option.some.inj h)
    exact ⟨rfl, lowerPart_of_not_isDeclaredName (by simpa using hname)⟩

/-- A substitution has the stretch after all substitutions before it. -/
theorem offset_substitutions_eq_some
    (h : substitutions.offset src ts i c = some (o, portion)) :
    o = ((ts.take i).flatMap (lowerSubstitution src)).length ∧
      lowerSubstitution src c = leaves src portion c := by
  rw [offset] at h
  split at h
  · next hnamed =>
    rw [lowerSubstitutions_eq_flatMap] at h
    obtain ⟨rfl, rfl⟩ := Prod.mk.inj (Option.some.inj h)
    exact ⟨rfl, lowerSubstitution_of_named hnamed⟩
  · cases h

/-- The left operand comes first, and the right one after the operator. -/
theorem offset_operands_eq_some {operator : Kind} (hc : ts[i]? = some c)
    (h : (operands operator).offset src ts i c = some (o, portion)) :
    (ts.findIdx? (·.token.field == some "left") = some i ∧ o = 0 ∧
        lowerField src "left" ts = leaves src portion c) ∨
      (ts.findIdx? (·.token.field == some "right") = some i ∧
        o = (lowerField src "left" ts).length + 1 ∧
        lowerField src "right" ts = leaves src portion c) := by
  rw [offset] at h
  split at h
  · next hleft =>
    obtain ⟨rfl, rfl⟩ := Prod.mk.inj (Option.some.inj h)
    exact Or.inl ⟨hleft, rfl, lowerField_of_findIdx? hc hleft⟩
  · split at h
    · next hright =>
      obtain ⟨rfl, rfl⟩ := Prod.mk.inj (Option.some.inj h)
      exact Or.inr ⟨hright, rfl, lowerField_of_findIdx? hc hright⟩
    · cases h

/-- The two operands of an operation are different parts, and count as a whole. -/
theorem offset_operands_iff {operator : Kind} {o : Nat} {portion : Portion} :
    (operands operator).offset src ts i c = some (o, portion) ↔ portion = .whole ∧
      ((ts.findIdx? (·.token.field == some "left") = some i ∧ o = 0) ∨
        (ts.findIdx? (·.token.field == some "right") = some i ∧
          o = (lowerField src "left" ts).length + 1)) := by
  have hplaces : ts.findIdx? (·.token.field == some "left") = some i →
      ts.findIdx? (·.token.field == some "right") ≠ some i := by
    intro hleft hright
    obtain ⟨_, hl, -⟩ := List.findIdx?_eq_some_iff_getElem.mp hleft
    obtain ⟨_, hr, -⟩ := List.findIdx?_eq_some_iff_getElem.mp hright
    have hsame := (beq_iff_eq.mp hl).symm.trans (beq_iff_eq.mp hr)
    revert hsame
    decide
  rw [offset]
  split
  · next hleft => simp [hleft, hplaces hleft, eq_comm, and_comm]
  · next hleft =>
    split
    · next hright => simp [hleft, hright, eq_comm, and_comm]
    · next hright => simp [hleft, hright]

/-- The nodes of a part stand in its stretch. -/
theorem getElem?_inner (hc : ts[i]? = some c) (ho : l.offset src ts i c = some (o, portion))
    {k : Nat} {n : Node} (hk : (leaves src portion c)[k]? = some n) :
    (l.inner src ts)[o + k]? = some n := by
  have hchildren : (if c.token.isDeclaredName then none
      else some ((lowerChildren src (ts.take i)).length, Portion.whole)) = some (o, portion) →
      (lowerChildren src ts)[o + k]? = some n := by
    intro h
    obtain ⟨rfl, hpart⟩ := offset_children_eq_some h
    rw [lowerChildren_eq_flatMap]
    exact getElem?_flatMap_take hc (by rw [hpart, hk])
  cases l with
  | operands operator =>
    rw [inner]
    rcases offset_operands_eq_some hc ho with ⟨-, rfl, hleft⟩ | ⟨-, rfl, hright⟩
    · obtain ⟨hlt, -⟩ := List.getElem?_eq_some_iff.mp hk
      rw [hleft, Nat.zero_add, List.getElem?_append_left hlt, hk]
    · have hindex : (lowerField src "left" ts).length + 1 + k -
          (lowerField src "left" ts).length = k + 1 := by omega
      rw [List.getElem?_append_right (by omega), hindex, List.getElem?_cons_succ, hright, hk]
  | substitutions =>
    obtain ⟨rfl, hpart⟩ := offset_substitutions_eq_some ho
    rw [inner, lowerSubstitutions_eq_flatMap]
    exact getElem?_flatMap_take hc (by rw [hpart, hk])
  | spread => exact hchildren ho
  | children => exact hchildren ho
  | declarations => exact hchildren ho
  | heritage => exact hchildren ho
  | members => exact hchildren ho

/-- The stretches of two parts do not overlap. -/
theorem offset_ne (hc : ts[i]? = some c) (hd : ts[j]? = some d) (hij : i ≠ j)
    (ho : l.offset src ts i c = some (o, portion))
    (ho' : l.offset src ts j d = some (o', portion')) {k k' : Nat}
    (hk : k < (leaves src portion c).length) (hk' : k' < (leaves src portion' d).length) :
    o + k ≠ o' + k' := by
  -- of two parts in one list, the stretch of the earlier ends before that of the later
  have hstretch : ∀ {f : ParseTree → List Node}, f c = leaves src portion c →
      f d = leaves src portion' d → ((ts.take i).flatMap f).length + k ≠
        ((ts.take j).flatMap f).length + k' := by
    intro f hfc hfd
    rw [← hfc] at hk
    rw [← hfd] at hk'
    rcases Nat.lt_or_gt_of_ne hij with hlt | hgt
    · have := length_flatMap_take_lt hc hlt hk
      omega
    · have := length_flatMap_take_lt hd hgt hk'
      omega
  have hchildren : (if c.token.isDeclaredName then none
      else some ((lowerChildren src (ts.take i)).length, Portion.whole)) = some (o, portion) →
      (if d.token.isDeclaredName then none
      else some ((lowerChildren src (ts.take j)).length, Portion.whole)) = some (o', portion') →
      o + k ≠ o' + k' := by
    intro h h'
    obtain ⟨rfl, hpart⟩ := offset_children_eq_some h
    obtain ⟨rfl, hpart'⟩ := offset_children_eq_some h'
    exact hstretch hpart hpart'
  cases l with
  | operands operator =>
    rcases offset_operands_eq_some hc ho with ⟨hi, rfl, hleft⟩ | ⟨hi, rfl, hright⟩
    · rcases offset_operands_eq_some hd ho' with ⟨hj, -, -⟩ | ⟨-, rfl, -⟩
      · exact absurd (Option.some.inj (hi.symm.trans hj)) hij
      · rw [← hleft] at hk
        omega
    · rcases offset_operands_eq_some hd ho' with ⟨-, rfl, hleft⟩ | ⟨hj, -, -⟩
      · rw [← hleft] at hk'
        omega
      · exact absurd (Option.some.inj (hi.symm.trans hj)) hij
  | substitutions =>
    obtain ⟨rfl, hpart⟩ := offset_substitutions_eq_some ho
    obtain ⟨rfl, hpart'⟩ := offset_substitutions_eq_some ho'
    exact hstretch hpart hpart'
  | spread => exact hchildren ho ho'
  | children => exact hchildren ho ho'
  | declarations => exact hchildren ho ho'
  | heritage => exact hchildren ho ho'
  | members => exact hchildren ho ho'

/-! ### Positions of elements -/

/-- Different elements stand at positions of which none is below another. -/
theorem prefix_of_wrap {k k' : Nat} {w w' r r' : Position} (hw : l.wrap src ts k = some w)
    (hw' : l.wrap src ts k' = some w') (h : w ++ r <+: w' ++ r') : k = k' ∧ r <+: r' := by
  cases l with
  | members =>
    rw [wrap] at hw hw'
    split at hw
    · next hname =>
      rw [if_pos hname] at hw'
      by_cases hk : k = 0
      · rw [if_pos hk] at hw
        cases hw
      by_cases hk' : k' = 0
      · rw [if_pos hk'] at hw'
        cases hw'
      rw [if_neg hk, Option.some.injEq] at hw
      rw [if_neg hk', Option.some.injEq] at hw'
      subst hw hw'
      have hboth : k - 1 = k' - 1 ∧ r <+: r' := by simpa using h
      exact ⟨by omega, hboth.2⟩
    · next hname =>
      rw [if_neg hname, Option.some.injEq] at hw'
      rw [Option.some.injEq] at hw
      subst hw hw'
      simpa using h
  | _ =>
    rw [wrap, Option.some.injEq] at hw hw'
    subst hw hw'
    simpa using h

/-- Only what is spread stands beside the construct; all else stands below it. -/
theorem length_wrap {k : Nat} {w : Position} (hl : l ≠ .spread) (hw : l.wrap src ts k = some w) :
    2 ≤ w.length := by
  cases l with
  | spread => exact absurd rfl hl
  | members =>
    rw [wrap] at hw
    split at hw
    · split at hw
      · cases hw
      · obtain rfl := Option.some.inj hw
        simp
    · obtain rfl := Option.some.inj hw
      simp
  | _ =>
    obtain rfl := Option.some.inj hw
    simp

end Layout

theorem constructorParts_eq (ns : List Node) :
    constructorParts ns = if namesConstructor ns then ns.tail else ns := by
  cases ns with
  | nil => rfl
  | cons n ns => rfl

theorem children_templateNode (tok : Token) (ns : List Node) :
    (templateNode src tok ns).children = ns := by
  cases ns <;> rfl

theorem nodeIn_singleton {n : Node} {k : Nat} (m : Node) (h : n.children[k]? = some m) :
    nodeIn [n] [0, k] = some m :=
  nodeIn_cons_eq_some.mpr ⟨n, rfl, Node.get?_cons_eq_some.mpr ⟨m, h, Node.get?_nil m⟩⟩

section Positions

variable {t : ParseTree} {l : Layout} {portion : Portion}

/-- A node that counts as a whole and has parts that are kept is spliced or kept itself. -/
theorem layout_whole_eq_some (h : layout src .whole t = some l) :
    (t.token.fate = .spliced ∧ l = .spread) ∨
      (t.token.fate = .kept ∧ (shapeOf src t).layout = some l) := by
  rw [layout] at h
  split at h
  · cases h
  · next hfate => exact Or.inl ⟨hfate, (Option.some.inj h).symm⟩
  · next hfate => exact Or.inr ⟨hfate, h⟩

/-- The elements of what the parts of a construct leave stand where the layout says. -/
theorem nodeIn_wrap (hl : layout src portion t = some l) {k : Nat} {w : Position} {n : Node}
    (hw : l.wrap src t.children k = some w) (hn : (l.inner src t.children)[k]? = some n) :
    nodeIn (leaves src portion t) w = some n := by
  have hspread : ∀ {ns : List Node}, ns[k]? = some n → nodeIn ns [k] = some n := fun h =>
    nodeIn_cons_eq_some.mpr ⟨n, h, Node.get?_nil n⟩
  cases portion with
  | parts =>
    obtain rfl := Option.some.inj hl
    obtain rfl := Option.some.inj hw
    exact hspread hn
  | whole =>
    rw [leaves]
    rcases layout_whole_eq_some hl with ⟨hfate, rfl⟩ | ⟨hfate, hshape⟩
    · obtain rfl := Option.some.inj hw
      rw [lowerInto_spliced src hfate]
      exact hspread hn
    cases hs : shapeOf src t with
    | leaf kind => rw [hs] at hshape; cases hshape
    | typeName => rw [hs] at hshape; cases hshape
    | branch kind =>
      rw [hs] at hshape
      obtain rfl := Option.some.inj hshape
      obtain rfl := Option.some.inj hw
      rw [lowerInto_branch src hfate hs]
      exact nodeIn_singleton n hn
    | variableStatement =>
      rw [hs] at hshape
      obtain rfl := Option.some.inj hshape
      obtain rfl := Option.some.inj hw
      rw [lowerInto_variableStatement src hfate hs]
      refine nodeIn_append (nodeIn_singleton _ rfl) (r := [k]) ?_
      exact Node.get?_cons_eq_some.mpr ⟨n, hn, Node.get?_nil n⟩
    | operands operator =>
      rw [hs] at hshape
      obtain rfl := Option.some.inj hshape
      obtain rfl := Option.some.inj hw
      rw [lowerInto_operands src hfate hs]
      exact nodeIn_singleton n hn
    | template =>
      rw [hs] at hshape
      obtain rfl := Option.some.inj hshape
      obtain rfl := Option.some.inj hw
      rw [lowerInto_template src hfate hs]
      exact nodeIn_singleton n (by rw [children_templateNode]; exact hn)
    | heritage =>
      rw [hs] at hshape
      obtain rfl := Option.some.inj hshape
      obtain rfl := Option.some.inj hw
      rw [lowerInto_heritage src hfate hs]
      have hoperand : ((lowerChildren src t.children).map heritageOperandNode)[k]? =
          some (heritageOperandNode n) := by
        rw [List.getElem?_map, show (lowerChildren src t.children)[k]? = some n from hn]
        rfl
      refine nodeIn_append (nodeIn_singleton _ hoperand) (r := [0]) ?_
      exact Node.get?_cons_eq_some.mpr ⟨n, rfl, Node.get?_nil n⟩
    | constructorMember =>
      rw [hs] at hshape
      obtain rfl := Option.some.inj hshape
      rw [lowerInto_constructorMember src hfate hs, constructorParts_eq]
      rw [Layout.wrap] at hw
      split at hw
      · next hname =>
        split at hw
        · cases hw
        · next hk =>
          obtain rfl := Option.some.inj hw
          obtain ⟨j, rfl⟩ := Nat.exists_eq_succ_of_ne_zero hk
          refine nodeIn_singleton n ?_
          rw [if_pos hname]
          change (lowerChildren src t.children).tail[j]? = some n
          rw [List.getElem?_tail]
          exact hn
      · next hname =>
        obtain rfl := Option.some.inj hw
        rw [if_neg hname]
        exact nodeIn_singleton n hn

/-! ### Places -/

theorem place_nil_eq_some {q : Position} :
    place src portion t [] = some q ↔ portion = .whole ∧ t.token.fate = .kept ∧ q = [0] := by
  rw [place]
  split
  · next h => simp [h, eq_comm]
  · next h =>
    simp only [reduceCtorEq, false_iff]
    rintro ⟨hportion, hfate, -⟩
    exact h ⟨hportion, hfate⟩

/-- A path is followed by one step, and then in the part that the step leads to. -/
theorem place_cons_eq_some {i : Nat} {p q : Position} :
    place src portion t (i :: p) = some q ↔
      ∃ l c o portion' k r w, layout src portion t = some l ∧ t.children[i]? = some c ∧
        l.offset src t.children i c = some (o, portion') ∧
        place src portion' c p = some (k :: r) ∧
        l.wrap src t.children (o + k) = some w ∧ q = w ++ r := by
  rw [place]
  simp only [Option.bind_eq_bind, Option.bind_eq_some_iff, Prod.exists]
  constructor
  · rintro ⟨l, hl, c, hc, o, portion', ho, h⟩
    split at h
    · next k r hplace =>
      obtain ⟨w, hw, rfl⟩ := Option.map_eq_some_iff.mp h
      exact ⟨l, c, o, portion', k, r, w, hl, hc, ho, hplace, hw, rfl⟩
    · cases h
  · rintro ⟨l, c, o, portion', k, r, w, hl, hc, ho, hplace, hw, rfl⟩
    refine ⟨l, hl, c, hc, o, portion', ho, ?_⟩
    rw [hplace]
    simp only [hw, Option.map_some]

/-- At the place of a path stands what the parse node at its end leaves, which is one node. -/
theorem nodeIn_place {p q : Position} {u : ParseTree} (hu : t.get? p = some u)
    (hq : place src portion t p = some q) :
    ∃ n, nodeIn (leaves src portion t) q = some n ∧ u.token.fate = .kept ∧
      lowerInto src u = [n] := by
  induction p generalizing t portion q with
  | nil =>
    obtain rfl := Option.some.inj hu
    obtain ⟨rfl, hfate, rfl⟩ := place_nil_eq_some.mp hq
    obtain ⟨n, hn⟩ := exists_lowerInto_kept src hfate
    refine ⟨n, ?_, hfate, hn⟩
    rw [leaves, hn]
    exact nodeIn_cons_eq_some.mpr ⟨n, rfl, Node.get?_nil n⟩
  | cons i p ih =>
    obtain ⟨l, c, o, portion', k, r, w, hl, hc, ho, hplace, hw, rfl⟩ := place_cons_eq_some.mp hq
    obtain ⟨c', hc', hu⟩ := get?_cons_eq_some.mp hu
    obtain rfl : c = c' := Option.some.inj (hc.symm.trans hc')
    obtain ⟨n, hn, hfate, hlower⟩ := ih hu hplace
    obtain ⟨m, hm, hr⟩ := nodeIn_cons_eq_some.mp hn
    have hinner := Layout.getElem?_inner hc ho hm
    exact ⟨n, nodeIn_append (nodeIn_wrap hl hw hinner) hr, hfate, hlower⟩

/-- A place among the parts of a file is a position in the source file node. -/
theorem get?_lowerProgram {q : Position} {n : Node}
    (h : nodeIn (leaves src .parts t) q = some n) : (lowerProgram src t).get? q = some n := by
  cases q with
  | nil => cases h
  | cons k r =>
    obtain ⟨m, hm, hr⟩ := nodeIn_cons_eq_some.mp h
    refine Node.get?_cons_eq_some.mpr ⟨m, ?_, hr⟩
    obtain ⟨hlt, -⟩ := List.getElem?_eq_some_iff.mp hm
    exact (List.getElem?_append_left hlt).trans hm

/-- The position of an element of a kept node leads below that node. -/
theorem length_wrap_of_kept (hfate : t.token.fate = .kept) (hl : layout src .whole t = some l)
    {k : Nat} {w : Position} (hw : l.wrap src t.children k = some w) : 2 ≤ w.length := by
  rcases layout_whole_eq_some hl with ⟨hspliced, -⟩ | ⟨-, hshape⟩
  · rw [hfate] at hspliced
    cases hspliced
  · refine Layout.length_wrap ?_ hw
    rintro rfl
    cases hs : shapeOf src t <;> rw [hs] at hshape <;> cases hshape

/-- What stands at or below the place of a path comes from a path that continues it. -/
theorem prefix_of_place_prefix {p p' q q' : Position} {u u' : ParseTree} (hu : t.get? p = some u)
    (hu' : t.get? p' = some u') (hq : place src portion t p = some q)
    (hq' : place src portion t p' = some q') (h : q <+: q') : p <+: p' := by
  induction p generalizing t portion p' q q' with
  | nil => exact List.nil_prefix
  | cons i p ih =>
    obtain ⟨l, c, o, portion', k, r, w, hl, hc, ho, hplace, hw, rfl⟩ := place_cons_eq_some.mp hq
    cases p' with
    | nil =>
      -- the place of the whole node is not below that of a part
      obtain ⟨rfl, hfate, rfl⟩ := place_nil_eq_some.mp hq'
      have hlength := h.length_le
      have := length_wrap_of_kept hfate hl hw
      rw [List.length_append, List.length_singleton] at hlength
      omega
    | cons j p' =>
      obtain ⟨l', c', o', portion'', k', r', w', hl', hc', ho', hplace', hw', rfl⟩ :=
        place_cons_eq_some.mp hq'
      obtain rfl : l = l' := Option.some.inj (hl.symm.trans hl')
      obtain ⟨hk, hr⟩ := Layout.prefix_of_wrap hw hw' h
      obtain ⟨d, hd, hu⟩ := get?_cons_eq_some.mp hu
      obtain ⟨d', hd', hu'⟩ := get?_cons_eq_some.mp hu'
      obtain rfl : c = d := Option.some.inj (hc.symm.trans hd)
      obtain rfl : c' = d' := Option.some.inj (hc'.symm.trans hd')
      by_cases hij : i = j
      · subst hij
        obtain rfl : c = c' := Option.some.inj (hc.symm.trans hc')
        obtain ⟨rfl, rfl⟩ := Prod.mk.inj (Option.some.inj (ho.symm.trans ho'))
        have hprefix : k :: r <+: k' :: r' := by
          rw [List.cons_prefix_cons]
          exact ⟨by omega, hr⟩
        exact List.cons_prefix_cons.mpr ⟨rfl, ih hu hu' hplace hplace' hprefix⟩
      · -- nodes of different parts stand in different stretches
        obtain ⟨n, hn, -⟩ := nodeIn_place hu hplace
        obtain ⟨n', hn', -⟩ := nodeIn_place hu' hplace'
        obtain ⟨m, hm, -⟩ := nodeIn_cons_eq_some.mp hn
        obtain ⟨m', hm', -⟩ := nodeIn_cons_eq_some.mp hn'
        obtain ⟨hlt, -⟩ := List.getElem?_eq_some_iff.mp hm
        obtain ⟨hlt', -⟩ := List.getElem?_eq_some_iff.mp hm'
        exact absurd hk (Layout.offset_ne hc hc' hij ho ho' hlt hlt')

/-- Only one path has a given place. -/
theorem place_injective {p p' q : Position} {u u' : ParseTree} (hu : t.get? p = some u)
    (hu' : t.get? p' = some u') (hq : place src portion t p = some q)
    (hq' : place src portion t p' = some q) : p = p' := by
  have h := prefix_of_place_prefix hu hu' hq hq' (List.prefix_refl q)
  have h' := prefix_of_place_prefix hu' hu hq' hq (List.prefix_refl q)
  exact h.eq_of_length_le h'.length_le

end Positions

end TreeMend.ParseTree
