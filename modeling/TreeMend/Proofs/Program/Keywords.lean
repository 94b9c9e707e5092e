import TreeMend.Proofs.Program.Building
import TreeMend.Proofs.Program.Parts
import TreeMend.Proofs.Tree.Edit

/-!
# Where the declaration lists of a program come from

The declaration lists of the construct that a tree is read as, and their keywords, are those of
certain declaration lists of the tree, in source order.  Which lists these are depends on the kinds
of nodes only.

## Main definitions

* `Node.keywordAt` — the binding keyword that the node at a position starts with.
* `Node.listPositions` — the positions of the declaration lists that a tree is read from.
* `Node.ReadsList` — what the declaration list at a position is read as.

## Main results

* `Node.mem_sortKinds_of_build` — what a node is read as tells its kind.
* `Node.lists_of_build` — the declaration lists of a construct are those of the tree.
* `Node.keywords_of_build` — the keywords of a construct are those of the declaration lists.
* `Node.exists_list_of_mem_listPositions` — there are declaration lists at these positions.
* `Node.listPositions_edit` — changing texts does not change which lists count.
-/

namespace TreeMend.Node

/-- The binding keyword that the text at a position starts with. -/
def keywordAt (n : Node) (p : Position) : BindingKeyword :=
  bindingKeyword (((n.get? p).map (·.text)).getD "")

/-- The position of the declaration list that a node is read from, if it is read as one. -/
def ownList (n : Node) : List Position :=
  if n.kind.canonical = Kind.declarationList then [[]]
  else if n.kind.canonical = Kind.variableStatement then
    ((n.childIndex? Kind.declarationList).map fun i => [i]).toList
  else []

/-- The positions that `f` gives in each of the trees, of which the first is child number `i`. -/
def listsFrom (f : Node → List Position) (i : Nat) : List Node → List Position
  | [] => []
  | c :: cs => (f c).map (i :: ·) ++ listsFrom f (i + 1) cs

/-- The positions of the declaration lists that a node at the top of a file counts for. -/
def topLevelLists (n : Node) : List Position :=
  if n.kind.canonical = Kind.variableStatement then listsFrom ownList 0 n.children else n.ownList

/-- The positions of the declaration lists that a tree is read from, in source order. -/
def listPositions (n : Node) : List Position :=
  if n.kind.canonical = Kind.sourceFile then listsFrom topLevelLists 0 n.children else n.ownList

theorem mem_listsFrom_iff {f : Node → List Position} {i : Nat} {cs : List Node} {p : Position} :
    p ∈ listsFrom f i cs ↔ ∃ j c q, cs[j]? = some c ∧ q ∈ f c ∧ p = (i + j) :: q := by
  induction cs generalizing i with
  | nil => simp [listsFrom]
  | cons c cs ih =>
    rw [listsFrom, List.mem_append, List.mem_map, ih]
    constructor
    · rintro (⟨q, hq, rfl⟩ | ⟨j, d, q, hd, hq, rfl⟩)
      · exact ⟨0, c, q, rfl, hq, rfl⟩
      · exact ⟨j + 1, d, q, hd, hq, by rw [Nat.add_right_comm, Nat.add_assoc]⟩
    · rintro ⟨j, d, q, hd, hq, rfl⟩
      cases j with
      | zero =>
        obtain rfl : c = d := Option.some.inj hd
        exact Or.inl ⟨q, hq, rfl⟩
      | succ j => exact Or.inr ⟨j, d, q, hd, hq, by rw [Nat.add_right_comm, Nat.add_assoc]⟩

/-- There is a declaration list at the position that a node is read from. -/
theorem exists_list_of_mem_ownList {n : Node} {p : Position} (h : p ∈ n.ownList) :
    ∃ m, n.get? p = some m ∧ m.kind = Kind.declarationList := by
  unfold ownList at h
  split at h
  · next hlist =>
    rw [List.mem_singleton.mp h]
    exact ⟨n, get?_nil n, Kind.eq_of_canonical (by decide) hlist⟩
  · split at h
    · rw [Option.mem_toList, Option.map_eq_some_iff] at h
      obtain ⟨i, hi, rfl⟩ := h
      obtain ⟨hlt, hkind, -⟩ := List.findIdx?_eq_some_iff_getElem.mp hi
      refine ⟨n.children[i], ?_, beq_iff_eq.mp hkind⟩
      exact get?_cons_eq_some.mpr ⟨_, List.getElem?_eq_getElem hlt, get?_nil _⟩
    · cases h

theorem exists_list_of_mem_listsFrom {f : Node → List Position}
    (hf : ∀ {c : Node} {q : Position}, q ∈ f c →
      ∃ m, c.get? q = some m ∧ m.kind = Kind.declarationList)
    {n : Node} {p : Position} (h : p ∈ listsFrom f 0 n.children) :
    ∃ m, n.get? p = some m ∧ m.kind = Kind.declarationList := by
  obtain ⟨j, c, q, hc, hq, rfl⟩ := mem_listsFrom_iff.mp h
  obtain ⟨m, hm, hkind⟩ := hf hq
  rw [Nat.zero_add]
  exact ⟨m, get?_cons_eq_some.mpr ⟨c, hc, hm⟩, hkind⟩

/-- There are declaration lists at the positions that a tree is read from. -/
theorem exists_list_of_mem_listPositions {n : Node} {p : Position} (h : p ∈ n.listPositions) :
    ∃ m, n.get? p = some m ∧ m.kind = Kind.declarationList := by
  have htop : ∀ {c : Node} {q : Position}, q ∈ c.topLevelLists →
      ∃ m, c.get? q = some m ∧ m.kind = Kind.declarationList := by
    intro c q hq
    unfold topLevelLists at hq
    split at hq
    · exact exists_list_of_mem_listsFrom exists_list_of_mem_ownList hq
    · exact exists_list_of_mem_ownList hq
  unfold listPositions at h
  split at h
  · exact exists_list_of_mem_listsFrom htop h
  · exact exists_list_of_mem_ownList h

/-! ### The lists of one node -/

/-- An expression statement is read as a statement without a keyword, or as nothing. -/
theorem asStatement_eq_ok {parent : Kind} {c : Node} {b r : Option Construct}
    (h : (asStatement parent c b).outcome = .ok r) :
    r = none ∨ ∃ e, r = some (.statement (.expression e)) := by
  unfold asStatement at h
  split at h
  · obtain rfl := Except.ok.inj h
    exact Or.inr ⟨_, rfl⟩
  · cases h
  · obtain rfl := Except.ok.inj h
    exact Or.inl rfl

/-- A declaration list is read as a statement with its keyword. -/
theorem build_list_eq_ok {n : Node} (hkind : n.kind.canonical = Kind.declarationList) {depth : Nat}
    {b : Option Construct} (h : (n.build depth).outcome = .ok b) :
    ∃ ds, b = some (.statement (.declare (bindingKeyword n.text) ds)) := by
  rw [outcome_build_declarationList depth hkind] at h
  obtain ⟨built, -, h⟩ := Except.bind_eq_ok_iff.mp h
  obtain rfl := Except.ok.inj h
  exact ⟨_, rfl⟩

/-- A variable statement is read as its first declaration list, or as nothing. -/
theorem build_variableStatement_eq_ok {n : Node}
    (hkind : n.kind.canonical = Kind.variableStatement) {depth : Nat} {b : Option Construct}
    (h : (n.build depth).outcome = .ok b) :
    (b = none ∧ n.childIndex? Kind.declarationList = none) ∨
      ∃ i c, n.childIndex? Kind.declarationList = some i ∧ n.children[i]? = some c ∧
        c.kind = Kind.declarationList ∧ (c.build (depth + 1)).outcome = .ok b := by
  rw [outcome_build_variableStatement depth hkind, outcome_buildFirstList] at h
  cases hfind : n.children.find? (·.kind == Kind.declarationList) with
  | none =>
    rw [hfind] at h
    refine Or.inl ⟨(Except.ok.inj h).symm, ?_⟩
    exact List.findIdx?_eq_none_iff.mpr fun c hc => by
      simpa using List.find?_eq_none.mp hfind c hc
  | some c =>
    rw [hfind] at h
    obtain ⟨hlist, i, hi, hget, hbefore⟩ := List.find?_eq_some_iff_getElem.mp hfind
    have hindex : n.childIndex? Kind.declarationList = some i := by
      rw [childIndex?, List.findIdx?_eq_some_iff_getElem]
      exact ⟨hi, by rwa [hget], fun j hj => by simpa using hbefore j hj⟩
    exact Or.inr ⟨i, c, hindex, by rw [List.getElem?_eq_getElem hi, hget], beq_iff_eq.mp hlist, h⟩

theorem build_expressionStatement_eq_ok {n : Node}
    (hkind : n.kind.canonical = Kind.expressionStatement) {depth : Nat} {b : Option Construct}
    (h : (n.build depth).outcome = .ok b) :
    b = none ∨ ∃ e, b = some (.statement (.expression e)) := by
  rw [outcome_build_expressionStatement depth hkind, outcome_buildStatement] at h
  cases hhead : n.children.head? with
  | none =>
    rw [hhead] at h
    exact Or.inl (Except.ok.inj h).symm
  | some c =>
    rw [hhead] at h
    obtain ⟨r, -, h⟩ := Except.bind_eq_ok_iff.mp h
    exact asStatement_eq_ok h

/-- The kinds that are read as expressions. -/
def expressionKinds : List Kind :=
  [Kind.identifier, Kind.stringLiteral, Kind.binaryExpression, Kind.callExpression,
    Kind.propertyAccess]

/-- The kinds that are read as constructs of the sort of the given one. -/
def sortKinds : Construct → List Kind
  | .program _ => [Kind.sourceFile]
  | .statement _ => [Kind.declarationList, Kind.variableStatement, Kind.expressionStatement]
  | .declaration _ => [Kind.declaration]
  | .type _ => [Kind.stringKeyword]
  | .expression _ => expressionKinds

/-- The sort of the construct that a node is read as tells its kind. -/
theorem mem_sortKinds_of_build {n : Node} {depth : Nat} {c : Construct}
    (h : (n.build depth).outcome = .ok (some c)) : n.kind.canonical ∈ sortKinds c := by
  by_cases hlist : n.kind.canonical = Kind.declarationList
  · obtain ⟨ds, hds⟩ := build_list_eq_ok hlist h
    obtain rfl := Option.some.inj hds
    simp [sortKinds, hlist]
  by_cases hstatement : n.kind.canonical = Kind.variableStatement
  · rcases build_variableStatement_eq_ok hstatement h with ⟨hnone, -⟩ | ⟨i, l, -, -, hkind, h⟩
    · cases hnone
    · obtain ⟨ds, hds⟩ := build_list_eq_ok (by rw [hkind]; decide) h
      obtain rfl := Option.some.inj hds
      simp [sortKinds, hstatement]
  by_cases hexpression : n.kind.canonical = Kind.expressionStatement
  · rcases build_expressionStatement_eq_ok hexpression h with hnone | ⟨e, he⟩
    · cases hnone
    · obtain rfl := Option.some.inj he
      simp [sortKinds, hexpression]
  by_cases hfile : n.kind.canonical = Kind.sourceFile
  · rw [outcome_build_sourceFile depth hfile] at h
    obtain ⟨built, -, h⟩ := Except.bind_eq_ok_iff.mp h
    obtain rfl := Option.some.inj (Except.ok.inj h)
    simp [sortKinds, hfile]
  by_cases hdeclaration : n.kind.canonical = Kind.declaration
  · rw [outcome_build_declaration depth hdeclaration] at h
    obtain ⟨d, -, h⟩ := Except.bind_eq_ok_iff.mp h
    obtain rfl := Option.some.inj (Except.ok.inj h)
    simp [sortKinds, hdeclaration]
  by_cases hkeyword : n.kind.canonical = Kind.stringKeyword
  · rw [outcome_build_stringKeyword depth hkeyword] at h
    obtain rfl := Option.some.inj (Except.ok.inj h)
    simp [sortKinds, hkeyword]
  -- what is left with a place in a program is read as an expression
  by_cases hidentifier : n.kind.canonical = Kind.identifier
  · rw [outcome_build_identifier depth hidentifier] at h
    obtain rfl := Option.some.inj (Except.ok.inj h)
    simp [sortKinds, expressionKinds, hidentifier]
  by_cases hliteral : n.kind.canonical = Kind.stringLiteral
  · rw [outcome_build_stringLiteral depth hliteral] at h
    obtain ⟨l, -, h⟩ := Except.bind_eq_ok_iff.mp h
    obtain rfl := Option.some.inj (Except.ok.inj h)
    simp [sortKinds, expressionKinds, hliteral]
  by_cases hbinary : n.kind.canonical = Kind.binaryExpression
  · rw [outcome_build_binaryExpression depth hbinary] at h
    obtain ⟨-, -, h⟩ := Except.bind_eq_ok_iff.mp h
    obtain ⟨target, -, h⟩ := Except.bind_eq_ok_iff.mp h
    obtain ⟨value, -, h⟩ := Except.bind_eq_ok_iff.mp h
    obtain rfl := Option.some.inj (Except.ok.inj h)
    simp [sortKinds, expressionKinds, hbinary]
  by_cases hcall : n.kind.canonical = Kind.callExpression
  · rw [outcome_build_callExpression depth hcall] at h
    obtain ⟨callee, -, h⟩ := Except.bind_eq_ok_iff.mp h
    split at h
    · obtain ⟨argument, -, h⟩ := Except.bind_eq_ok_iff.mp h
      obtain rfl := Option.some.inj (Except.ok.inj h)
      simp [sortKinds, expressionKinds, hcall]
    · obtain rfl := Option.some.inj (Except.ok.inj h)
      simp [sortKinds, expressionKinds, hcall]
  by_cases haccess : n.kind.canonical = Kind.propertyAccess
  · rw [outcome_build_propertyAccess depth haccess] at h
    obtain ⟨object, -, h⟩ := Except.bind_eq_ok_iff.mp h
    obtain ⟨name, -, h⟩ := Except.bind_eq_ok_iff.mp h
    obtain ⟨id, -, h⟩ := Except.bind_eq_ok_iff.mp h
    obtain rfl := Option.some.inj (Except.ok.inj h)
    simp [sortKinds, expressionKinds, haccess]
  · rw [outcome_build_other depth (by simp [programKinds, *])] at h
    split at h <;> cases h

/-! ### The lists of a tree -/

/-- There is a declaration list at the position, and it is read as `list`. -/
def ReadsList (n : Node) (p : Position) (list : BindingKeyword × List Declaration) : Prop :=
  ∃ m depth, n.get? p = some m ∧ m.kind = Kind.declarationList ∧
    (m.build depth).outcome = .ok (some (.statement (.declare list.1 list.2)))

theorem ReadsList.cons {n c : Node} {i : Nat} (hc : n.children[i]? = some c) {p : Position}
    {list : BindingKeyword × List Declaration} (h : c.ReadsList p list) :
    n.ReadsList (i :: p) list := by
  obtain ⟨m, depth, hm, hkind, hbuild⟩ := h
  exact ⟨m, depth, get?_cons_eq_some.mpr ⟨c, hc, hm⟩, hkind, hbuild⟩

/-- A list is read with the keyword that its text starts with. -/
theorem ReadsList.keyword {n : Node} {p : Position} {list : BindingKeyword × List Declaration}
    (h : n.ReadsList p list) : list.1 = n.keywordAt p := by
  obtain ⟨m, depth, hm, hkind, hbuild⟩ := h
  obtain ⟨ds, hds⟩ := build_list_eq_ok (by rw [hkind]; decide) hbuild
  rw [keywordAt, hm]
  exact (Statement.declare.inj (Construct.statement.inj (Option.some.inj hds))).1

/-- The declaration lists among constructs. -/
def builtLists : Option Construct → List (BindingKeyword × List Declaration)
  | some (.statement s) => s.lists
  | _ => []

theorem flatMap_lists_statementsOf (built : List (Option Construct)) :
    (statementsOf built).flatMap Statement.lists = built.flatMap builtLists := by
  induction built with
  | nil => rfl
  | cons b built ih =>
    rw [List.flatMap_cons, ← ih]
    match b with
    | none => rfl
    | some (.statement s) => rfl
    | some (.program p) => rfl
    | some (.declaration d) => rfl
    | some (.type t) => rfl
    | some (.expression e) => rfl

/-- What a declaration list is read as, in the form of the lists of a tree. -/
theorem forall₂_builtLists_list {n m : Node} {p : Position} {depth : Nat} {b : Option Construct}
    (hm : n.get? p = some m) (hkind : m.kind = Kind.declarationList)
    (h : (m.build depth).outcome = .ok b) : List.Forall₂ n.ReadsList [p] (builtLists b) := by
  obtain ⟨ds, rfl⟩ := build_list_eq_ok (by rw [hkind]; decide) h
  exact .cons ⟨m, depth, hm, hkind, h⟩ .nil

/-- The list that a node is read as, if it is read as one, is its own. -/
theorem forall₂_builtLists_build {n : Node} {depth : Nat} {b : Option Construct}
    (h : (n.build depth).outcome = .ok b) : List.Forall₂ n.ReadsList n.ownList (builtLists b) := by
  by_cases hlist : n.kind.canonical = Kind.declarationList
  · rw [ownList, if_pos hlist]
    exact forall₂_builtLists_list (get?_nil n) (Kind.eq_of_canonical (by decide) hlist) h
  by_cases hstatement : n.kind.canonical = Kind.variableStatement
  · rw [ownList, if_neg hlist, if_pos hstatement]
    rcases build_variableStatement_eq_ok hstatement h with
      ⟨rfl, hindex⟩ | ⟨i, c, hindex, hchild, hkind, hbuild⟩
    · rw [hindex]
      exact .nil
    · rw [hindex]
      exact forall₂_builtLists_list (get?_cons_eq_some.mpr ⟨c, hchild, get?_nil c⟩) hkind hbuild
  rw [ownList, if_neg hlist, if_neg hstatement]
  -- a node that is read as a statement still is an expression statement
  by_cases hexpression : n.kind.canonical = Kind.expressionStatement
  · rcases build_expressionStatement_eq_ok hexpression h with rfl | ⟨e, rfl⟩ <;> exact .nil
  · match b with
    | some (.statement s) =>
      have hkind := mem_sortKinds_of_build h
      simp [sortKinds, hlist, hstatement, hexpression] at hkind
    | none => exact .nil
    | some (.program p) => exact .nil
    | some (.declaration d) => exact .nil
    | some (.type t) => exact .nil
    | some (.expression e) => exact .nil

/-- The lists of the nodes of a list, read one by one.  The nodes are children from number `i` on
of a node of which `R` is said. -/
theorem forall₂_builtLists_buildAll {cs : List Node} {i depth : Nat}
    {R : Position → BindingKeyword × List Declaration → Prop}
    (hR : ∀ j c, cs[j]? = some c → ∀ p x, c.ReadsList p x → R ((i + j) :: p) x)
    {built : List (Option Construct)} (h : (buildAll depth cs).outcome = .ok built) :
    List.Forall₂ R (listsFrom ownList i cs) (built.flatMap builtLists) := by
  induction cs generalizing i built with
  | nil =>
    rw [outcome_buildAll_nil] at h
    obtain rfl := Except.ok.inj h
    exact .nil
  | cons c cs ih =>
    rw [outcome_buildAll_cons] at h
    obtain ⟨b, hb, h⟩ := Except.bind_eq_ok_iff.mp h
    obtain ⟨bs, hbs, h⟩ := Except.bind_eq_ok_iff.mp h
    obtain rfl := Except.ok.inj h
    have hrest : ∀ j d, cs[j]? = some d → ∀ p x, d.ReadsList p x → R ((i + 1 + j) :: p) x := by
      intro j d hd p x
      rw [Nat.add_right_comm, Nat.add_assoc]
      exact hR (j + 1) d hd p x
    rw [List.flatMap_cons, listsFrom]
    refine List.rel_append ?_ (ih hrest hbs)
    rw [List.forall₂_map_left_iff]
    exact (forall₂_builtLists_build hb).imp (hR 0 c rfl)

/-- The lists at the top of a file. -/
theorem forall₂_builtLists_buildTopLevel {cs : List Node} {i depth : Nat}
    {R : Position → BindingKeyword × List Declaration → Prop}
    (hR : ∀ j c, cs[j]? = some c → ∀ p x, c.ReadsList p x → R ((i + j) :: p) x)
    {built : List (Option Construct)} (h : (buildTopLevel depth cs).outcome = .ok built) :
    List.Forall₂ R (listsFrom topLevelLists i cs) (built.flatMap builtLists) := by
  induction cs generalizing i built with
  | nil =>
    rw [outcome_buildTopLevel_nil] at h
    obtain rfl := Except.ok.inj h
    exact .nil
  | cons c cs ih =>
    rw [outcome_buildTopLevel_cons] at h
    obtain ⟨bs, hbs, h⟩ := Except.bind_eq_ok_iff.mp h
    obtain ⟨rest, hrest, h⟩ := Except.bind_eq_ok_iff.mp h
    obtain rfl := Except.ok.inj h
    have hfirst : List.Forall₂ c.ReadsList c.topLevelLists (bs.flatMap builtLists) := by
      rw [topLevelLists]
      split at hbs
      · next hwrapper =>
        rw [if_pos hwrapper]
        refine forall₂_builtLists_buildAll (fun j d hd p x hx => ?_) hbs
        rw [Nat.zero_add]
        exact hx.cons hd
      · next hwrapper =>
        obtain ⟨b, hb, hbs⟩ := Except.bind_eq_ok_iff.mp hbs
        obtain rfl := Except.ok.inj hbs
        rw [if_neg hwrapper, List.flatMap_singleton]
        exact forall₂_builtLists_build hb
    have hR' : ∀ j d, cs[j]? = some d → ∀ p x, d.ReadsList p x → R ((i + 1 + j) :: p) x := by
      intro j d hd p x
      rw [Nat.add_right_comm, Nat.add_assoc]
      exact hR (j + 1) d hd p x
    rw [List.flatMap_append, listsFrom]
    refine List.rel_append ?_ (ih hR' hrest)
    rw [List.forall₂_map_left_iff]
    exact hfirst.imp (hR 0 c rfl)

/-- The declaration lists of the construct that a tree is read as are read, one by one and in
source order, from the declaration lists of the tree. -/
theorem lists_of_build {n : Node} {depth : Nat} {c : Construct}
    (h : (n.build depth).outcome = .ok (some c)) :
    List.Forall₂ n.ReadsList n.listPositions c.lists := by
  by_cases hfile : n.kind.canonical = Kind.sourceFile
  · rw [listPositions, if_pos hfile]
    rw [outcome_build_sourceFile depth hfile] at h
    obtain ⟨built, hbuilt, h⟩ := Except.bind_eq_ok_iff.mp h
    obtain rfl := Option.some.inj (Except.ok.inj h)
    change List.Forall₂ _ _ ((statementsOf built).flatMap Statement.lists)
    rw [flatMap_lists_statementsOf]
    refine forall₂_builtLists_buildTopLevel (fun j d hd p x hx => ?_) hbuilt
    rw [Nat.zero_add]
    exact hx.cons hd
  · rw [listPositions, if_neg hfile]
    have hlists : builtLists (some c) = c.lists := by
      -- only a source file is read as a program
      cases c with
      | program p => exact absurd (List.mem_singleton.mp (mem_sortKinds_of_build h)) hfile
      | statement s => rfl
      | declaration d => rfl
      | type t => rfl
      | expression e => rfl
    rw [← hlists]
    exact forall₂_builtLists_build h

/-- The keywords of the construct that a tree is read as are those of its declaration lists, in
source order. -/
theorem keywords_of_build {n : Node} {depth : Nat} {c : Construct}
    (h : (n.build depth).outcome = .ok (some c)) :
    c.keywords = n.listPositions.map n.keywordAt := by
  have hkeywords : List.Forall₂ (fun p x => n.keywordAt p = x.1) n.listPositions c.lists :=
    (lists_of_build h).imp fun p x hx => hx.keyword.symm
  rw [← c.map_fst_lists, eq_comm, ← List.forall₂_eq_eq_eq]
  exact List.forall₂_map_left_iff.mpr (List.forall₂_map_right_iff.mpr hkeywords)

/-! ### Changed texts -/

theorem childIndex?_edit (f : Position → Node → Option String) (n : Node) (k : Kind) :
    (n.edit f).childIndex? k = n.childIndex? k := by
  have key : ∀ (cs : List Node) (i : Nat),
      (editFrom f i cs).findIdx? (·.kind == k) = cs.findIdx? (·.kind == k) := by
    intro cs
    induction cs with
    | nil => intro i; rfl
    | cons c cs ih =>
      intro i
      rw [editFrom_cons, List.findIdx?_cons, List.findIdx?_cons, kind_edit, ih]
  rw [childIndex?, children_edit, key]
  rfl

theorem ownList_edit (f : Position → Node → Option String) (n : Node) :
    (n.edit f).ownList = n.ownList := by
  rw [ownList, ownList, kind_edit, childIndex?_edit]

theorem listsFrom_edit {g : Node → List Position}
    (hg : ∀ (f : Position → Node → Option String) (c : Node), g (c.edit f) = g c)
    (f : Position → Node → Option String) (i j : Nat) (cs : List Node) :
    listsFrom g j (editFrom f i cs) = listsFrom g j cs := by
  induction cs generalizing i j with
  | nil => rfl
  | cons c cs ih => rw [editFrom_cons, listsFrom, listsFrom, hg, ih]

theorem topLevelLists_edit (f : Position → Node → Option String) (n : Node) :
    (n.edit f).topLevelLists = n.topLevelLists := by
  rw [topLevelLists, topLevelLists, kind_edit, children_edit, listsFrom_edit ownList_edit,
    ownList_edit]

/-- Which declaration lists count does not depend on texts. -/
theorem listPositions_edit (f : Position → Node → Option String) (n : Node) :
    (n.edit f).listPositions = n.listPositions := by
  rw [listPositions, listPositions, kind_edit, children_edit, listsFrom_edit topLevelLists_edit,
    ownList_edit]

end TreeMend.Node
