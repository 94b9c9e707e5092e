import TreeMend.Proofs.Tree.Positions

/-!
# Changing many texts at once

An edit gives some nodes of a tree a new text, all at the same time: what it gives a node depends
on the node as it was and on its position, never on what other nodes are given.  Kinds, ranges and
the nesting of nodes stay.

## Main definitions

* `Node.edit` — the tree with the texts that an edit gives.

## Main results

* `Node.get?_edit` — looking up in an edited tree.
* `Node.setTextAt_edit` — one more text changed is one more node in the edit.
* `Node.edit_congr` — an edit counts only by the texts that it leaves.
-/

namespace TreeMend.Node

mutual

/-- The tree with the texts that `f` gives to its nodes; `f` sees each node as it was, with its
position. -/
def edit (f : Position → Node → Option String) : Node → Node
  | ⟨kind, text, span, children⟩ =>
    ⟨kind, (f [] ⟨kind, text, span, children⟩).getD text, span, editFrom f 0 children⟩

/-- The trees with the texts that `f` gives to their nodes; the first is child number `i`. -/
def editFrom (f : Position → Node → Option String) (i : Nat) : List Node → List Node
  | [] => []
  | c :: cs => edit (fun p => f (i :: p)) c :: editFrom f (i + 1) cs

end

variable (f g : Position → Node → Option String)

@[simp] theorem kind_edit (n : Node) : (n.edit f).kind = n.kind := by
  cases n; rfl

@[simp] theorem span_edit (n : Node) : (n.edit f).span = n.span := by
  cases n; rfl

theorem text_edit (n : Node) : (n.edit f).text = (f [] n).getD n.text := by
  cases n; rfl

theorem children_edit (n : Node) : (n.edit f).children = editFrom f 0 n.children := by
  cases n; rfl

@[simp] theorem editFrom_nil (i : Nat) : editFrom f i [] = [] := rfl

@[simp] theorem editFrom_cons (i : Nat) (c : Node) (cs : List Node) :
    editFrom f i (c :: cs) = c.edit (fun p => f (i :: p)) :: editFrom f (i + 1) cs := rfl

@[simp] theorem length_editFrom (i : Nat) (cs : List Node) :
    (editFrom f i cs).length = cs.length := by
  induction cs generalizing i with
  | nil => rfl
  | cons c cs ih => simp [ih]

theorem getElem?_editFrom (i j : Nat) (cs : List Node) :
    (editFrom f i cs)[j]? = cs[j]?.map fun c => c.edit fun p => f ((i + j) :: p) := by
  induction cs generalizing i j with
  | nil => simp
  | cons c cs ih =>
    cases j with
    | zero => rfl
    | succ j =>
      rw [editFrom_cons, List.getElem?_cons_succ, List.getElem?_cons_succ, ih]
      simp only [Nat.add_assoc, Nat.add_comm 1 j]

/-- Child number `i` of an edited node is the edited child number `i`. -/
theorem getElem?_children_edit (n : Node) (i : Nat) :
    (n.edit f).children[i]? = n.children[i]?.map fun c => c.edit fun p => f (i :: p) := by
  rw [children_edit, getElem?_editFrom]
  simp only [Nat.zero_add]

/-- An edit reaches the node at a position and those below it, which it names from there on. -/
theorem get?_edit (n : Node) (p : Position) :
    (n.edit f).get? p = (n.get? p).map fun m => m.edit fun q => f (p ++ q) := by
  induction p generalizing n f with
  | nil => simp
  | cons i p ih =>
    rw [get?_cons, get?_cons, getElem?_children_edit]
    cases n.children[i]? with
    | none => rfl
    | some c => exact ih (fun q => f (i :: q)) c

/-! ### Equal edits -/

/-- An edit counts only by the texts that it leaves at the positions of the tree. -/
theorem edit_congr {n : Node}
    (h : ∀ p m, n.get? p = some m → (f p m).getD m.text = (g p m).getD m.text) :
    n.edit f = n.edit g := by
  induction n using inductionOn generalizing f g with
  | step n ih =>
    have htext : (n.edit f).text = (n.edit g).text := by
      rw [text_edit, text_edit]
      exact h [] n (get?_nil n)
    have hchildren : (n.edit f).children = (n.edit g).children := by
      refine List.ext_getElem? fun i => ?_
      rw [getElem?_children_edit, getElem?_children_edit]
      cases hc : n.children[i]? with
      | none => rfl
      | some c =>
        refine congrArg some (ih c (List.mem_of_getElem? hc) _ _ fun p m hm => ?_)
        exact h (i :: p) m (get?_cons_eq_some.mpr ⟨c, hc, hm⟩)
    cases n
    simp only [edit, Node.mk.injEq] at htext hchildren ⊢
    exact ⟨trivial, htext, trivial, hchildren⟩

/-- An edit that gives no text leaves the tree as it is. -/
theorem edit_none (n : Node) : n.edit (fun _ _ => none) = n := by
  induction n using inductionOn with
  | step n ih =>
    have hchildren : (n.edit fun _ _ => none).children = n.children := by
      refine List.ext_getElem? fun i => ?_
      rw [getElem?_children_edit]
      cases hc : n.children[i]? with
      | none => rfl
      | some c => exact congrArg some (ih c (List.mem_of_getElem? hc))
    cases n
    simp only [edit, Node.mk.injEq] at hchildren ⊢
    exact ⟨trivial, rfl, trivial, hchildren⟩

/-! ### One more text -/

theorem setTextAt_nil (n : Node) (t : String) : n.setTextAt [] t = { n with text := t } := by
  cases n; rfl

theorem setTextAt_cons (n : Node) (i : Nat) (p : Position) (t : String) :
    n.setTextAt (i :: p) t =
      { n with children := n.children.modify i fun c => c.setTextAt p t } := rfl

/-- Changing one more text in an edited tree is an edit that gives that text as well. -/
theorem setTextAt_edit (n : Node) (q : Position) (t : String) :
    (n.edit f).setTextAt q t = n.edit fun p m => if p = q then some t else f p m := by
  induction q generalizing n f with
  | nil =>
    rw [setTextAt_nil]
    cases n with
    | mk kind text span children =>
      simp only [edit, if_true, Option.getD_some, Node.mk.injEq, true_and]
      refine List.ext_getElem? fun i => ?_
      rw [getElem?_editFrom, getElem?_editFrom]
      simp only [reduceCtorEq, if_false]
  | cons i q ih =>
    rw [setTextAt_cons]
    cases n with
    | mk kind text span children =>
      simp only [edit, Node.mk.injEq, true_and, reduceCtorEq, if_false, List.nil_eq]
      refine List.ext_getElem? fun j => ?_
      rw [List.getElem?_modify, getElem?_editFrom, getElem?_editFrom]
      cases children[j]? with
      | none => rfl
      | some c =>
        simp only [Nat.zero_add, Option.map_some, List.cons.injEq]
        by_cases hij : i = j
        · subst hij
          simpa using ih (fun p => f (i :: p)) c
        · simp [hij, Ne.symm hij]

end TreeMend.Node
