import TreeMend.Proofs.Lists
import TreeMend.Proofs.Tree.Positions
import TreeMend.Rule.Reassignment

/-!
# What the search for assignments finds

The rule on constant bindings asks one question about the whole tree: does a node outside the
declaration list assign to one of its names?  The search answers it exactly, so a list that gets
`const` is one whose names are assigned nowhere outside of it.  Inside the list the search does not
look: an initializer that assigns to the name it initializes goes unnoticed.

## Main definitions

* `AssignsTo` — a node assigns to a name.
* `Declares` — a declaration list binds a plain name.

## Main results

* `assigns_eq_true_iff` — the search finds exactly the assignments outside of what it leaves out.
* `replacement_eq_some_iff`, `replacement_eq_none_iff` — when a list gets a new text, and when it
  keeps its own.
* `not_assignsTo_of_replacement` — a list that gets a new text has no name that is assigned outside
  of it.
* `replacement_selfAssigning` — it may have a name that is assigned inside of it.
-/

namespace TreeMend.Reassignment

/-! ### Assignments -/

/-- The node `n` assigns to `name`: the name is its first part, and it is either an assignment or
an increment or decrement by its text. -/
def AssignsTo (n : Node) (name : String) : Prop :=
  ∃ target, n.children.head? = some target ∧ target.kind = Kind.identifier ∧ target.text = name ∧
    ((n.kind = Kind.binaryExpression ∧
        ∃ operator, n.children[1]? = some operator ∧ operator.kind.isAssignmentOperator = true) ∨
      ((n.kind = Kind.prefixUnary ∨ n.kind = Kind.postfixUnary) ∧
        ∃ sign ∈ [['+', '+'], ['-', '-']],
          sign <+: Text.trim n.text.toList ∨ sign <:+ Text.trim n.text.toList))

theorem isUpdateText_eq_true_iff {cs : List Char} :
    isUpdateText cs = true ↔ ∃ sign ∈ [['+', '+'], ['-', '-']], sign <+: cs ∨ sign <:+ cs := by
  simp [isUpdateText]

/-- A node has a target exactly when it assigns to what is its first part. -/
theorem target?_eq_some_iff {n t : Node} :
    target? n = some t ↔ n.children.head? = some t ∧
      ((n.kind = Kind.binaryExpression ∧
          ∃ operator, n.children[1]? = some operator ∧ operator.kind.isAssignmentOperator = true) ∨
        ((n.kind = Kind.prefixUnary ∨ n.kind = Kind.postfixUnary) ∧
          isUpdateText (Text.trim n.text.toList) = true)) := by
  unfold target?
  simp only [Kind.binaryExpression, Kind.prefixUnary, Kind.postfixUnary]
  split
  · next hk =>
    rw [hk]
    match n.children with
    | [] => simp
    | [left] => simp
    | left :: operator :: rest =>
      by_cases hop : operator.kind.isAssignmentOperator = true <;> simp [hop]
  · next hk => simp [hk, and_comm]
  · next hk => simp [hk, and_comm]
  · next hbinary hprefix hpostfix =>
    simp only [reduceCtorEq, false_iff]
    rintro ⟨-, ⟨h, -⟩ | ⟨h | h, -⟩⟩
    · exact hbinary h
    · exact hprefix h
    · exact hpostfix h

/-- The question that is asked of a single node. -/
theorem assignsHere_eq_true_iff {names : List String} {n : Node} :
    assignsHere names n = true ↔ ∃ name ∈ names, AssignsTo n name := by
  unfold assignsHere AssignsTo
  simp only [Option.any_eq_true, target?_eq_some_iff, isUpdateText_eq_true_iff, Bool.and_eq_true,
    beq_iff_eq, List.contains_iff_mem]
  constructor
  · rintro ⟨t, ⟨hhead, hform⟩, hkind, hmem⟩
    exact ⟨t.text, hmem, t, hhead, hkind, rfl, hform⟩
  · rintro ⟨name, hmem, t, hhead, hkind, rfl, hform⟩
    exact ⟨t, ⟨hhead, hform⟩, hkind, hmem⟩

/-! ### The search -/

/-- What is left out below child number `i`, when `excluded` is left out below its parent. -/
def excludedBelow (excluded : Option Position) (i : Nat) : Option Position :=
  match excluded with
  | some (j :: p) => if i = j then some p else none
  | _ => none

theorem assigns_eq (names : List String) (excluded : Option Position) (n : Node) :
    assigns names excluded n =
      if excluded = some [] then false
      else assignsHere names n || assignsBelow names excluded 0 n.children := by
  cases n; rfl

theorem assignsBelow_cons (names : List String) (excluded : Option Position) (i : Nat) (c : Node)
    (cs : List Node) :
    assignsBelow names excluded i (c :: cs) =
      (assigns names (excludedBelow excluded i) c || assignsBelow names excluded (i + 1) cs) := by
  match excluded with
  | none => rfl
  | some [] => rfl
  | some (j :: p) => rfl

theorem assignsBelow_eq_true_iff {names : List String} {excluded : Option Position} {i : Nat}
    {cs : List Node} :
    assignsBelow names excluded i cs = true ↔
      ∃ j c, cs[j]? = some c ∧ assigns names (excludedBelow excluded (i + j)) c = true := by
  induction cs generalizing i with
  | nil => simp [assignsBelow]
  | cons c cs ih =>
    rw [assignsBelow_cons, Bool.or_eq_true, ih]
    constructor
    · rintro (h | ⟨j, d, hd, h⟩)
      · exact ⟨0, c, rfl, h⟩
      · exact ⟨j + 1, d, hd, by rwa [Nat.add_right_comm, Nat.add_assoc] at h⟩
    · rintro ⟨j, d, hd, h⟩
      cases j with
      | zero =>
        obtain rfl : c = d := by simpa using hd
        exact Or.inl h
      | succ j => exact Or.inr ⟨j, d, hd, by rwa [Nat.add_right_comm, Nat.add_assoc]⟩

/-- The search goes on below child number `i` for exactly the positions that are not left out. -/
theorem excludedBelow_outside_iff {excluded : Option Position} (h : excluded ≠ some []) {i : Nat}
    {p : Position} :
    (∀ e, excludedBelow excluded i = some e → ¬ e <+: p) ↔
      ∀ e, excluded = some e → ¬ e <+: i :: p := by
  match excluded with
  | none => simp [excludedBelow]
  | some [] => exact absurd rfl h
  | some (j :: q) =>
    by_cases hij : i = j
    · subst hij
      simp [excludedBelow, List.cons_prefix_cons]
    · simp [excludedBelow, hij, List.cons_prefix_cons, Ne.symm hij]

/-- The search finds exactly the nodes that assign to one of the names, in the subtrees that are
not left out. -/
theorem assigns_eq_true_iff {names : List String} {excluded : Option Position} {n : Node} :
    assigns names excluded n = true ↔
      ∃ p m, n.get? p = some m ∧ (∀ e, excluded = some e → ¬ e <+: p) ∧
        assignsHere names m = true := by
  induction n using Node.inductionOn generalizing excluded with
  | step n ih =>
    rw [assigns_eq]
    by_cases hroot : excluded = some []
    · -- the root itself is left out, and so is everything below it
      simp only [hroot, if_true, Bool.false_eq_true, false_iff]
      rintro ⟨p, m, -, hout, -⟩
      exact hout [] rfl List.nil_prefix
    · rw [if_neg hroot, Bool.or_eq_true, assignsBelow_eq_true_iff]
      simp only [Nat.zero_add]
      constructor
      · rintro (h | ⟨i, c, hc, h⟩)
        · refine ⟨[], n, Node.get?_nil n, fun e he hpre => hroot ?_, h⟩
          rw [he, List.prefix_nil.mp hpre]
        · obtain ⟨p, m, hm, hout, h⟩ := (ih c (List.mem_of_getElem? hc)).mp h
          exact ⟨i :: p, m, Node.get?_cons_eq_some.mpr ⟨c, hc, hm⟩,
            (excludedBelow_outside_iff hroot).mp hout, h⟩
      · rintro ⟨p, m, hm, hout, h⟩
        cases p with
        | nil =>
          obtain rfl : n = m := by simpa using hm
          exact Or.inl h
        | cons i p =>
          obtain ⟨c, hc, hm⟩ := Node.get?_cons_eq_some.mp hm
          refine Or.inr ⟨i, c, hc, (ih c (List.mem_of_getElem? hc)).mpr ?_⟩
          exact ⟨p, m, hm, (excludedBelow_outside_iff hroot).mpr hout, h⟩

/-- Nothing is found exactly when no node outside of `position` assigns to one of the names. -/
theorem isNeverReassigned_eq_true_iff {root : Node} {position : Position} {names : List String} :
    isNeverReassigned root position names = true ↔
      ∀ q m, root.get? q = some m → ¬ position <+: q → ∀ name ∈ names, ¬ AssignsTo m name := by
  rw [isNeverReassigned, Bool.not_eq_true', ← Bool.not_eq_true, assigns_eq_true_iff]
  simp only [assignsHere_eq_true_iff, Option.some.injEq, forall_eq']
  constructor
  · intro h q m hm hout name hname hassigns
    exact h ⟨q, m, hm, hout, name, hname, hassigns⟩
  · rintro h ⟨q, m, hm, hout, name, hname, hassigns⟩
    exact h q m hm hout name hname hassigns

/-! ### When a list gets a new text -/

/-- The list binds the plain name `name`. -/
def Declares (list : Node) (name : String) : Prop :=
  ∃ d ∈ list.children, d.kind = Kind.declaration ∧
    ∃ id, d.children.head? = some id ∧ id.kind = Kind.identifier ∧ id.text = name

/-- The rule needs a list that starts with `let`, all of whose names are plain and initialized,
and a search that finds nothing. -/
theorem replacement_eq_some_iff {root list : Node} {position : Position} {text : String} :
    replacement root position list = some text ↔
      list.kind = Kind.declarationList ∧ constantText? list.text = some text ∧
        ∃ names, boundNames? list = some names ∧ names ≠ [] ∧
          isNeverReassigned root position names = true := by
  unfold replacement
  by_cases hkind : list.kind = Kind.declarationList
  · simp only [hkind, beq_self_eq_true, if_true, true_and]
    cases constantText? list.text with
    | none => simp
    | some t =>
      cases boundNames? list with
      | none => simp
      | some names =>
        cases hnames : names.isEmpty <;> cases hnever : isNeverReassigned root position names <;>
          simp_all
  · simp [hkind]

theorem boundName?_eq_some {d : Node} {name : String} (h : boundName? d = some name) :
    ∃ id, d.children.head? = some id ∧ id.kind = Kind.identifier ∧ id.text = name := by
  unfold boundName? at h
  split at h
  · cases h
  · next id rest hchildren =>
    split at h
    · next hcond =>
      rw [Bool.and_eq_true, beq_iff_eq] at hcond
      exact ⟨id, by rw [hchildren]; rfl, hcond.1, Option.some.inj h⟩
    · cases h

/-- A declaration could be constant if it starts with a name and goes on with something that is no
type. -/
theorem isSome_boundName?_iff {d name : Node} {rest : List Node} (h : d.children = name :: rest) :
    (boundName? d).isSome = true ↔
      name.kind = Kind.identifier ∧ rest.any (!·.kind.isType) = true := by
  unfold boundName?
  rw [h]
  simp only
  split
  · next hcond => simpa using hcond
  · next hcond => simpa using hcond

/-- The names of a list are those of its declarations one by one. -/
theorem boundNames?_eq_some_iff {list : Node} {names : List String} :
    boundNames? list = some names ↔
      (list.children.filter (·.kind == Kind.declaration)).map boundName? = names.map some :=
  List.mapM_eq_some_iff

/-- The names of a list that could be constant are the names that it declares. -/
theorem mem_of_boundNames? {list : Node} {names : List String} (h : boundNames? list = some names)
    {name : String} (hname : Declares list name) : name ∈ names := by
  obtain ⟨d, hd, hkind, id, hid, -, rfl⟩ := hname
  have hbound : boundName? d ∈ names.map some := by
    rw [← boundNames?_eq_some_iff.mp h]
    exact List.mem_map_of_mem (List.mem_filter.mpr ⟨hd, beq_iff_eq.mpr hkind⟩)
  obtain ⟨first, hfirst, hsome⟩ := List.mem_map.mp hbound
  obtain ⟨id', hid', -, rfl⟩ := boundName?_eq_some hsome.symm
  rwa [Option.some.inj (hid.symm.trans hid')]

theorem declares_of_mem_boundNames? {list : Node} {names : List String}
    (h : boundNames? list = some names) {name : String} (hname : name ∈ names) :
    Declares list name := by
  have hbound : some name ∈ (list.children.filter (·.kind == Kind.declaration)).map boundName? := by
    rw [boundNames?_eq_some_iff.mp h]
    exact List.mem_map_of_mem hname
  obtain ⟨d, hd, hsome⟩ := List.mem_map.mp hbound
  obtain ⟨hd, hkind⟩ := List.mem_filter.mp hd
  exact ⟨d, hd, beq_iff_eq.mp hkind, boundName?_eq_some hsome⟩

/-- A list could be constant if each of its declarations could. -/
theorem isSome_boundNames?_iff {list : Node} :
    (boundNames? list).isSome = true ↔
      ∀ d ∈ list.children, d.kind = Kind.declaration → (boundName? d).isSome = true := by
  have hiff : (∀ d ∈ list.children, d.kind = Kind.declaration → (boundName? d).isSome = true) ↔
      ∀ d ∈ list.children.filter (·.kind == Kind.declaration), (boundName? d).isSome = true := by
    simp [List.mem_filter]
  rw [hiff, Option.isSome_iff_exists]
  simp only [boundNames?_eq_some_iff]
  constructor
  · rintro ⟨names, hnames⟩ d hd
    have hbound : boundName? d ∈ names.map some := hnames ▸ List.mem_map_of_mem hd
    obtain ⟨name, -, hname⟩ := List.mem_map.mp hbound
    rw [← hname]
    rfl
  · intro h
    refine ⟨(list.children.filter (·.kind == Kind.declaration)).map fun d =>
      (boundName? d).getD "", ?_⟩
    rw [List.map_map]
    refine List.map_congr_left fun d hd => ?_
    obtain ⟨name, hname⟩ := Option.isSome_iff_exists.mp (h d hd)
    simp [hname]

/-- A list with declarations keeps its text if it does not start with `let`, if one of the
declarations could not be constant, or if one of the names is assigned outside of it. -/
theorem replacement_eq_none_iff (root : Node) (position : Position) {list : Node}
    (hkind : list.kind = Kind.declarationList)
    (hdeclaration : ∃ d ∈ list.children, d.kind = Kind.declaration) :
    replacement root position list = none ↔
      constantText? list.text = none ∨
        (∃ d ∈ list.children, d.kind = Kind.declaration ∧ boundName? d = none) ∨
          ∃ q m name, root.get? q = some m ∧ ¬ position <+: q ∧ Declares list name ∧
            AssignsTo m name := by
  constructor
  · intro hnone
    by_contra hkept
    push Not at hkept
    obtain ⟨htext, hbound, hassigned⟩ := hkept
    obtain ⟨text, htext⟩ := Option.ne_none_iff_exists'.mp htext
    obtain ⟨names, hnames⟩ := Option.isSome_iff_exists.mp (isSome_boundNames?_iff.mpr
      fun d hd hdkind => Option.isSome_iff_ne_none.mpr (hbound d hd hdkind))
    have hne : names ≠ [] := by
      obtain ⟨d, hd, hdkind⟩ := hdeclaration
      obtain ⟨name, hname⟩ := Option.ne_none_iff_exists'.mp (hbound d hd hdkind)
      exact List.ne_nil_of_mem
        (mem_of_boundNames? hnames ⟨d, hd, hdkind, boundName?_eq_some hname⟩)
    have hsome : replacement root position list = some text :=
      replacement_eq_some_iff.mpr ⟨hkind, htext, names, hnames, hne,
        isNeverReassigned_eq_true_iff.mpr fun q m hm hout name hname =>
          hassigned q m name hm hout (declares_of_mem_boundNames? hnames hname)⟩
    rw [hsome] at hnone
    cases hnone
  · intro h
    rw [Option.eq_none_iff_forall_ne_some]
    intro text htext
    obtain ⟨-, hconstant, names, hnames, -, hnever⟩ := replacement_eq_some_iff.mp htext
    rcases h with hno | ⟨d, hd, hdkind, hnone⟩ | ⟨q, m, name, hm, hout, hdeclares, hassigns⟩
    · rw [hno] at hconstant
      cases hconstant
    · have hall := isSome_boundNames?_iff.mp (Option.isSome_of_eq_some hnames) d hd hdkind
      rw [hnone] at hall
      cases hall
    · exact isNeverReassigned_eq_true_iff.mp hnever q m hm hout name
        (mem_of_boundNames? hnames hdeclares) hassigns

/-- A list that gets a new text has no name that is assigned outside of it. -/
theorem not_assignsTo_of_replacement {root list : Node} {position : Position} {text : String}
    (h : replacement root position list = some text) {q : Position} {m : Node}
    (hm : root.get? q = some m) (hout : ¬ position <+: q) {name : String}
    (hname : Declares list name) : ¬ AssignsTo m name := by
  obtain ⟨-, -, names, hnames, -, hnever⟩ := replacement_eq_some_iff.mp h
  exact isNeverReassigned_eq_true_iff.mp hnever q m hm hout name (mem_of_boundNames? hnames hname)

/-- The tree of `let a = 'b'; c = a;`, where the constant name is read and never assigned. -/
def onceAssigned : Node :=
  ⟨Kind.sourceFile, "let a = 'b'; c = a;", ⟨0, 19⟩,
    [⟨Kind.variableStatement, "let a = 'b';", ⟨0, 12⟩,
      [⟨Kind.declarationList, "let a = 'b'", ⟨0, 11⟩,
        [⟨Kind.declaration, "a = 'b'", ⟨4, 11⟩,
          [⟨Kind.identifier, "a", ⟨4, 5⟩, []⟩, ⟨Kind.stringLiteral, "'b'", ⟨8, 11⟩, []⟩]⟩]⟩]⟩,
      ⟨Kind.expressionStatement, "c = a;", ⟨13, 19⟩,
        [⟨Kind.binaryExpression, "c = a", ⟨13, 18⟩,
          [⟨Kind.identifier, "c", ⟨13, 14⟩, []⟩, ⟨Kind.equalsToken, "=", ⟨15, 16⟩, []⟩,
            ⟨Kind.identifier, "a", ⟨17, 18⟩, []⟩]⟩]⟩]⟩

theorem not_assignsTo_onceAssigned : ∃ list m,
    onceAssigned.get? [0, 0] = some list ∧ Declares list "a" ∧
      replacement onceAssigned [0, 0] list = some "const a = 'b'" ∧
      onceAssigned.get? [1, 0] = some m ∧ AssignsTo m "c" ∧ ¬ AssignsTo m "a" := by
  obtain ⟨list, hlist⟩ : ∃ list, onceAssigned.get? [0, 0] = some list := ⟨_, rfl⟩
  obtain ⟨m, hm⟩ : ∃ m, onceAssigned.get? [1, 0] = some m := ⟨_, rfl⟩
  have hname : Declares list "a" := by
    obtain rfl := Option.some.inj hlist
    exact ⟨_, List.mem_cons_self, rfl, _, rfl, rfl, rfl⟩
  have hassigns : AssignsTo m "c" := by
    obtain rfl := Option.some.inj hm
    exact ⟨_, rfl, rfl, rfl, Or.inl ⟨rfl, _, rfl, by decide⟩⟩
  have hreplaced : replacement onceAssigned [0, 0] list = some "const a = 'b'" := by
    obtain rfl := Option.some.inj hlist
    decide +kernel
  have hout : ¬ [0, 0] <+: [1, 0] := by decide
  exact ⟨list, m, hlist, hname, hreplaced, hm, hassigns,
    not_assignsTo_of_replacement hreplaced hm hout hname⟩

/-- The tree of `let f = () => { f = g; };`, whose only assignment to `f` is inside the list. -/
def selfAssigning : Node :=
  ⟨Kind.sourceFile, "let f = () => \x7b f = g; \x7d;", ⟨0, 25⟩,
    [⟨Kind.variableStatement, "let f = () => \x7b f = g; \x7d;", ⟨0, 25⟩,
      [⟨Kind.declarationList, "let f = () => \x7b f = g; \x7d", ⟨0, 24⟩,
        [⟨Kind.declaration, "f = () => \x7b f = g; \x7d", ⟨4, 24⟩,
          [⟨Kind.identifier, "f", ⟨4, 5⟩, []⟩,
            ⟨"ArrowFunction", "() => \x7b f = g; \x7d", ⟨8, 24⟩,
              [⟨Kind.block, "\x7b f = g; \x7d", ⟨14, 24⟩,
                [⟨Kind.expressionStatement, "f = g;", ⟨16, 22⟩,
                  [⟨Kind.binaryExpression, "f = g", ⟨16, 21⟩,
                    [⟨Kind.identifier, "f", ⟨16, 17⟩, []⟩,
                      ⟨Kind.equalsToken, "=", ⟨18, 19⟩, []⟩,
                      ⟨Kind.identifier, "g", ⟨20, 21⟩, []⟩]⟩]⟩]⟩]⟩]⟩]⟩]⟩,
      ⟨Kind.endOfFile, "", ⟨25, 25⟩, []⟩]⟩

/-- Inside the list the search does not look, so a list with a name that is assigned somewhere in
the tree may get a new text. -/
theorem replacement_selfAssigning :
    ¬ ∀ (root list : Node) (position : Position) (text : String),
      root.get? position = some list → replacement root position list = some text →
        ∀ (q : Position) (m : Node) (name : String), root.get? q = some m →
          Declares list name → ¬ AssignsTo m name := by
  intro h
  refine h selfAssigning _ [0, 0] "const f = () => \x7b f = g; \x7d" rfl (by decide +kernel)
    [0, 0, 0, 1, 0, 0, 0] _ "f" rfl ?_ ?_
  · exact ⟨_, List.mem_cons_self, rfl, _, rfl, rfl, rfl⟩
  · exact ⟨_, rfl, rfl, rfl, Or.inl ⟨rfl, _, rfl, by decide⟩⟩

end TreeMend.Reassignment
