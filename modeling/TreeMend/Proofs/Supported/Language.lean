import TreeMend.Program.Basic
import TreeMend.Proofs.Lowering.Paths
import TreeMend.Text.Alphanumeric

/-!
# The supported language in parse trees

Which parse trees stand for programs that can be regenerated, and which program such a tree stands
for.  Both are said of the parse tree itself: the parts of a construct are those that are neither
punctuation nor comments, and they are found by the places that they fill.

## Main definitions

* `ParseTree.significant` — the parts of a construct.
* `ParseTree.IsExpression`, `ParseTree.IsDeclarator`, `ParseTree.IsStatement`, `ParseTree.IsFile` —
  the supported language.
* `ParseTree.readExpression?`, `ParseTree.readStatement?`, `ParseTree.readProgram?` — the program
  that a parse tree stands for.
* `ParseTree.Located` — what is assumed of the offsets of a node.
-/

namespace TreeMend.ParseTree

/-- The parts of a node: neither punctuation nor comments. -/
def significant (t : ParseTree) : List ParseTree := t.children.filter (·.token.isSignificant)

theorem isSignificant_of_mem {t c : ParseTree} (h : c ∈ t.significant) :
    c.token.isSignificant = true :=
  (List.mem_filter.mp h).2

/-- The rules of declarations. -/
def declarationRules : List String := ["lexical_declaration", "variable_declaration"]

/-! ### The language -/

/-- An expression of the supported language. -/
inductive IsExpression : ParseTree → Prop
  /-- A name. -/
  | identifier {t : ParseTree} (hkind : t.kind = "identifier") : IsExpression t
  /-- A string. -/
  | string {t : ParseTree} (hkind : t.kind = "string") : IsExpression t
  /-- An assignment. -/
  | assignment {t target value : ParseTree} (hkind : t.kind = "assignment_expression")
      (hparts : t.significant = [target, value]) (htarget : t.field? "left" = some target)
      (hvalue : t.field? "right" = some value) (ht : IsExpression target)
      (hv : IsExpression value) : IsExpression t
  /-- A call with at most one argument. -/
  | call {t callee arguments : ParseTree} (hkind : t.kind = "call_expression")
      (hparts : t.significant = [callee, arguments]) (hcallee : t.field? "function" = some callee)
      (harguments : t.field? "arguments" = some arguments)
      (hrule : arguments.kind = "arguments") (hcount : arguments.significant.length ≤ 1)
      (hc : IsExpression callee) (ha : ∀ a ∈ arguments.significant, IsExpression a) :
      IsExpression t
  /-- Access to a member by name. -/
  | member {t object property : ParseTree} (hkind : t.kind = "member_expression")
      (hparts : t.significant = [object, property]) (hobject : t.field? "object" = some object)
      (hproperty : t.field? "property" = some property)
      (hrule : property.kind = "property_identifier") (ho : IsExpression object) : IsExpression t

variable (src : String)

/-- An annotation with the type `string`. -/
structure IsAnnotation (a : ParseTree) : Prop where
  /-- It is an annotation. -/
  kind : a.kind = "type_annotation"
  /-- It holds the type `string`. -/
  parts : ∃ s, a.significant = [s] ∧ s.kind = "predefined_type" ∧ textOf src s.token = "string"

/-- A binding: a name, perhaps the type `string`, perhaps a string. -/
structure IsDeclarator (v : ParseTree) : Prop where
  /-- It is a binding. -/
  kind : v.kind = "variable_declarator"
  /-- Its parts are in this order. -/
  parts : ∃ name type? value?, v.significant = name :: (type?.toList ++ value?.toList) ∧
    v.field? "name" = some name ∧ v.field? "type" = type? ∧ v.field? "value" = value? ∧
    name.kind = "identifier" ∧ (∀ a, type? = some a → IsAnnotation src a) ∧
    ∀ s, value? = some s → s.kind = "string"

/-- A statement of the supported language. -/
inductive IsStatement : ParseTree → Prop
  /-- A declaration, which starts with its keyword. -/
  | declaration {t k : ParseTree} (hkind : t.kind ∈ declarationRules)
      (hkeyword : t.children.head? = some k) (hword : k.kind ∈ ["let", "const", "var"])
      (hparts : ∀ v ∈ t.significant, IsDeclarator src v) : IsStatement t
  /-- An expression. -/
  | expression {t e : ParseTree} (hkind : t.kind = "expression_statement")
      (hparts : t.significant = [e]) (he : IsExpression e) : IsStatement t

/-- A file of the supported language. -/
def IsFile (t : ParseTree) : Prop := ∀ s ∈ t.significant, IsStatement src s

/-! ### The program that a tree stands for -/

mutual

/-- The expression that a node stands for. -/
def readExpression? : ParseTree → Option Expression
  | ⟨tok, ts⟩ =>
    match tok.kind with
    | "identifier" => some (.name (textOf src tok))
    | "string" => (Literal.ofSource? (textOf src tok)).map .literal
    | "assignment_expression" => do
      let target ← readField? "left" ts
      let value ← readField? "right" ts
      pure (.assign target value)
    | "call_expression" => do
      let callee ← readField? "function" ts
      match ← readArguments? ts with
      | [] => pure (.call callee)
      | [argument] => pure (.callWith callee argument)
      | _ => none
    | "member_expression" => do
      let object ← readField? "object" ts
      let property ← ts.find? (·.token.field == some "property")
      pure (.member object (textOf src property.token))
    | _ => none

/-- The expression that fills a place. -/
def readField? (name : String) : List ParseTree → Option Expression
  | [] => none
  | ⟨tok, us⟩ :: ts =>
    if tok.field == some name then readExpression? ⟨tok, us⟩ else readField? name ts

/-- The expressions in the arguments of a call. -/
def readArguments? : List ParseTree → Option (List Expression)
  | [] => none
  | ⟨tok, us⟩ :: ts =>
    if tok.field == some "arguments" then readParts? us else readArguments? ts

/-- The expressions that the parts of a node stand for. -/
def readParts? : List ParseTree → Option (List Expression)
  | [] => some []
  | ⟨tok, us⟩ :: ts =>
    if tok.isSignificant then do
      let e ← readExpression? ⟨tok, us⟩
      let es ← readParts? ts
      pure (e :: es)
    else readParts? ts

end

/-- The keyword that a token is. -/
def keywordOf? : String → Option BindingKeyword
  | "let" => some .letWord
  | "const" => some .constWord
  | "var" => some .varWord
  | _ => none

/-- The string that a node stands for. -/
def readString? (t : ParseTree) : Option Expression :=
  (Literal.ofSource? (textOf src t.token)).map .literal

/-- What the value of a binding stands for, if there is one. -/
def readValue? : Option ParseTree → Option (Option Expression)
  | none => some none
  | some value => (readString? src value).map some

/-- The binding that a node stands for; the only type is `string`. -/
def readDeclarator? (v : ParseTree) : Option Declaration := do
  let name ← v.field? "name"
  let initializer ← readValue? src (v.field? "value")
  let type := (v.field? "type").map fun _ => .string
  pure { name := textOf src name.token, type, initializer }

/-- The statement that a node stands for: the keyword of a declaration is its first token. -/
def readStatement? (t : ParseTree) : Option Statement :=
  if t.kind ∈ declarationRules then do
    let first ← t.children.head?
    let keyword ← keywordOf? first.kind
    let declarations ← t.significant.mapM (readDeclarator? src)
    pure (.declare keyword declarations)
  else do
    let e ← t.significant.head?
    (readExpression? src e).map .expression

/-- The program that a parse tree stands for: one statement for each part, in source order. -/
def readProgram? (t : ParseTree) : Option Program := do
  let statements ← t.significant.mapM (readStatement? src)
  pure ⟨statements⟩

/-! ### Offsets -/

/-- What is assumed of the offsets of a node. -/
structure Located (u : ParseTree) : Prop where
  /-- The node covers a piece of the source. -/
  range : ∃ s, Text.slice? src u.token.start u.token.stop = some s
  /-- Its parts are inside of it. -/
  inside : ∀ c ∈ u.children, u.token.start ≤ c.token.start ∧ c.token.stop ≤ u.token.stop
  /-- Its parts stand one after another. -/
  ordered : u.children.Pairwise fun a b => a.token.stop ≤ b.token.start
  /-- A declaration starts with its keyword, which is spelled like the token and is a whole word. -/
  keyword : u.kind ∈ declarationRules → ∀ k ∈ u.children.head?,
    k.token.start = u.token.start ∧ textOf src k.token = k.kind ∧
      ∀ rest ∈ Text.dropBytes k.token.stop src.toList, rest.head?.any Text.isWordChar = false
  /-- A string stands between two equal quotes; the word `string` does not. -/
  quoted : u.kind = "string" → u.token.named = true → ∃ (q : Quote) (body : List Char),
    textOf src u.token = String.ofList (q.char :: body ++ [q.char])

/-- A text stands between two equal quotes if its ends are, and are two. -/
theorem exists_quoted_iff {s : String} :
    (∃ (q : Quote) (body : List Char), s = String.ofList (q.char :: body ++ [q.char])) ↔
      ∃ q ∈ [Quote.single, Quote.double],
        s.toList.head? = some q.char ∧ s.toList.tail.getLast? = some q.char := by
  constructor
  · rintro ⟨q, body, rfl⟩
    refine ⟨q, by cases q <;> decide, ?_, ?_⟩
    · rw [String.toList_ofList]
      rfl
    · rw [String.toList_ofList, List.cons_append, List.tail_cons, List.getLast?_concat]
  · rintro ⟨q, -, hfirst, hlast⟩
    obtain ⟨body, hbody⟩ := List.getLast?_eq_some_iff.mp hlast
    refine ⟨q, body, ?_⟩
    rw [← String.ofList_toList (s := s), ← List.cons_head?_tail hfirst, hbody]
    rfl

instance (u : ParseTree) : Decidable (Located src u) :=
  decidable_of_iff
    ((Text.slice? src u.token.start u.token.stop).isSome = true ∧
      (∀ c ∈ u.children, u.token.start ≤ c.token.start ∧ c.token.stop ≤ u.token.stop) ∧
      (u.children.Pairwise fun a b => a.token.stop ≤ b.token.start) ∧
      (u.kind ∈ declarationRules → ∀ k ∈ u.children.head?,
        k.token.start = u.token.start ∧ textOf src k.token = k.kind ∧
          ∀ rest ∈ Text.dropBytes k.token.stop src.toList,
            rest.head?.any Text.isWordChar = false) ∧
      (u.kind = "string" → u.token.named = true → ∃ q ∈ [Quote.single, Quote.double],
        (textOf src u.token).toList.head? = some q.char ∧
          (textOf src u.token).toList.tail.getLast? = some q.char))
    ⟨fun h => ⟨Option.isSome_iff_exists.mp h.1, h.2.1, h.2.2.1, h.2.2.2.1, fun hk hn =>
        exists_quoted_iff.mpr (h.2.2.2.2 hk hn)⟩,
      fun h => ⟨Option.isSome_iff_exists.mpr h.range, h.inside, h.ordered, h.keyword, fun hk hn =>
        exists_quoted_iff.mp (h.quoted hk hn)⟩⟩

/-! ### Reading in terms of parts -/

variable {src} {t : ParseTree}

theorem readField?_eq (name : String) (ts : List ParseTree) :
    readField? src name ts =
      (ts.find? (·.token.field == some name)).bind (readExpression? src) := by
  induction ts with
  | nil => rfl
  | cons t ts ih =>
    obtain ⟨tok, us⟩ := t
    rw [readField?, List.find?_cons]
    cases tok.field == some name with
    | true => rfl
    | false => exact ih

theorem readParts?_eq (ts : List ParseTree) :
    readParts? src ts = (ts.filter (·.token.isSignificant)).mapM (readExpression? src) := by
  induction ts with
  | nil => rfl
  | cons t ts ih =>
    obtain ⟨tok, us⟩ := t
    rw [readParts?]
    cases hsignificant : tok.isSignificant with
    | true => simp [hsignificant, ih]
    | false => simp [hsignificant, ih]

theorem readArguments?_eq (ts : List ParseTree) :
    readArguments? src ts =
      (ts.find? (·.token.field == some "arguments")).bind fun a =>
        a.significant.mapM (readExpression? src) := by
  induction ts with
  | nil => rfl
  | cons t ts ih =>
    obtain ⟨tok, us⟩ := t
    rw [readArguments?, List.find?_cons]
    cases tok.field == some "arguments" with
    | true => exact readParts?_eq us
    | false => exact ih

theorem readExpression?_identifier (h : t.kind = "identifier") :
    readExpression? src t = some (.name (textOf src t.token)) := by
  obtain ⟨tok, ts⟩ := t
  rw [readExpression?, show tok.kind = "identifier" from h]
  rfl

theorem readExpression?_string (h : t.kind = "string") :
    readExpression? src t = readString? src t := by
  obtain ⟨tok, ts⟩ := t
  rw [readExpression?, show tok.kind = "string" from h]
  rfl

theorem readExpression?_assignment (h : t.kind = "assignment_expression") {u v : ParseTree}
    {target value : Expression} (hu : t.field? "left" = some u) (hv : t.field? "right" = some v)
    (htarget : readExpression? src u = some target) (hvalue : readExpression? src v = some value) :
    readExpression? src t = some (.assign target value) := by
  obtain ⟨tok, ts⟩ := t
  have hleft : readField? src "left" ts = some target := by
    rw [readField?_eq, show ts.find? (·.token.field == some "left") = some u from hu]
    exact htarget
  have hright : readField? src "right" ts = some value := by
    rw [readField?_eq, show ts.find? (·.token.field == some "right") = some v from hv]
    exact hvalue
  rw [readExpression?, show tok.kind = "assignment_expression" from h]
  simp [hleft, hright]

/-- A call stands for the call of its callee with what its arguments stand for. -/
theorem readExpression?_call (h : t.kind = "call_expression") {u v : ParseTree}
    {callee : Expression} (hu : t.field? "function" = some u)
    (hv : t.field? "arguments" = some v) (hcallee : readExpression? src u = some callee) :
    (v.significant = [] → readExpression? src t = some (.call callee)) ∧
      ∀ a argument, v.significant = [a] → readExpression? src a = some argument →
        readExpression? src t = some (.callWith callee argument) := by
  obtain ⟨tok, ts⟩ := t
  have hfunction : readField? src "function" ts = some callee := by
    rw [readField?_eq, show ts.find? (·.token.field == some "function") = some u from hu]
    exact hcallee
  have harguments : readArguments? src ts = v.significant.mapM (readExpression? src) := by
    rw [readArguments?_eq, show ts.find? (·.token.field == some "arguments") = some v from hv]
    rfl
  constructor
  · intro hnone
    rw [readExpression?, show tok.kind = "call_expression" from h]
    simp [hfunction, harguments, hnone]
  · intro a argument hone ha
    rw [readExpression?, show tok.kind = "call_expression" from h]
    simp [hfunction, harguments, hone, ha]

theorem readExpression?_member (h : t.kind = "member_expression") {u v : ParseTree}
    {object : Expression} (hu : t.field? "object" = some u) (hv : t.field? "property" = some v)
    (hobject : readExpression? src u = some object) :
    readExpression? src t = some (.member object (textOf src v.token)) := by
  obtain ⟨tok, ts⟩ := t
  have hread : readField? src "object" ts = some object := by
    rw [readField?_eq, show ts.find? (·.token.field == some "object") = some u from hu]
    exact hobject
  have hfind : ts.find? (·.token.field == some "property") = some v := hv
  rw [readExpression?, show tok.kind = "member_expression" from h]
  simp [hread, hfind]

end TreeMend.ParseTree
