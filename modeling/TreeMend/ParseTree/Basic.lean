/-!
# Parse trees

What an error-tolerant TypeScript parser makes of a source text: a tree with every token in it,
punctuation, keywords and comments included.  A node is *named* when it stands for a rule of the
grammar and not for a piece of punctuation, *extra* when it may stand anywhere (a comment), an
*error* when the parser could not make sense of a stretch of source, and *missing* when the parser
put it in to recover.

Such a tree is exchanged as a listing: its nodes in source order, each with its depth.

## Main definitions

* `ParseTree.Token` — a node without its children.
* `ParseTree` — a parse tree.
* `ParseTree.field?` — the child that fills a named place of the parent's rule.
* `ParseTree.ofListing?`, `ParseTree.listing` — the tree of a listing and the listing of a tree.
* `ParseTree.hasError` — whether the source was not fully understood.
-/

namespace TreeMend

/-- A node of a parse tree, apart from its children. -/
structure ParseTree.Token where
  /-- The grammar rule, or the punctuation itself. -/
  kind : String
  /-- Whether the node stands for a rule of the grammar. -/
  named : Bool := true
  /-- Whether the node may stand anywhere, as a comment does. -/
  extra : Bool := false
  /-- Whether the node covers source that could not be parsed. -/
  error : Bool := false
  /-- Whether the node was put in to recover from an error. -/
  missing : Bool := false
  /-- The offset of the first byte. -/
  start : Nat
  /-- The offset after the last byte. -/
  stop : Nat
  /-- The place that the node fills in its parent's rule, if that has a name. -/
  field : Option String := none
  deriving DecidableEq, Repr, Inhabited

/-- A parse tree. -/
structure ParseTree where
  /-- The root. -/
  token : ParseTree.Token
  /-- The subtrees in source order. -/
  children : List ParseTree := []
  deriving Inhabited, Repr

namespace ParseTree

/-- The kind of the root. -/
def kind (t : ParseTree) : String := t.token.kind

/-- The first child that fills the place `name`. -/
def field? (t : ParseTree) (name : String) : Option ParseTree :=
  t.children.find? (·.token.field == some name)

/-- The first child that fills the place `name` and the children after it. -/
def fromField (name : String) (ts : List ParseTree) : List ParseTree :=
  ts.dropWhile (·.token.field != some name)

mutual

/-- The nodes of a tree in source order, each with its depth; the root is at depth `d`. -/
def listing (d : Nat) : ParseTree → List (Nat × Token)
  | ⟨tok, ts⟩ => (d, tok) :: listingOfList (d + 1) ts

/-- The nodes of a list of trees with their depths; the roots are at depth `d`. -/
def listingOfList (d : Nat) : List ParseTree → List (Nat × Token)
  | [] => []
  | t :: ts => listing d t ++ listingOfList d ts

end

/-- Put a node in front of the trees that a listing continues with: those that are deeper become
its children. -/
def adopt (row : Nat × Token) (trees : List (Nat × ParseTree)) : List (Nat × ParseTree) :=
  let (d, tok) := row
  let (inner, outer) := trees.span fun t => d < t.1
  (d, ⟨tok, inner.map (·.2)⟩) :: outer

/-- The tree that a listing describes, if it describes exactly one. -/
def ofListing? (rows : List (Nat × Token)) : Option ParseTree :=
  match rows.foldr adopt [] with
  | [(_, t)] => some t
  | _ => none

/-- Whether some node is an error or was put in to recover from one. -/
def hasError (t : ParseTree) : Bool :=
  (t.listing 0).any fun (_, tok) => tok.error || tok.missing

end ParseTree

end TreeMend
