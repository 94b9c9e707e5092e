/-!
# Paths

A path is a text; what it names is given by its components.  Repeated separators and a dot between
two of them do not count, while a leading separator and a leading dot do.  Paths are ordered and
compared by their components, but a part of a path keeps the spelling it has.

## Main definitions

* `Path.Component`, `Path.components` — the components of a path.
* `Path.compare` — the order of paths.
* `Path.below?` — what is left of a path below another.
* `Path.fileName?`, `Path.extension?`, `Path.parent?`, `Path.join` — the usual parts of paths.
-/

namespace TreeMend

/-- The text of a path. -/
abbrev Path := String

namespace Path

/-- A component of a path. -/
inductive Component where
  /-- The separator that an absolute path starts with. -/
  | root
  /-- The dot that a path starts with. -/
  | current
  /-- The step to the directory above. -/
  | parent
  /-- The step to an entry of a directory. -/
  | entry (name : String)
  deriving DecidableEq, Repr, Inhabited

/-- The place of a sort of component in the order. -/
def Component.rank : Component → Nat
  | .root => 0
  | .current => 1
  | .parent => 2
  | .entry _ => 3

/-- The name in a component; empty if it holds none. -/
def Component.name : Component → String
  | .entry name => name
  | _ => ""

/-- Components in order: by sort, and entries by name. -/
def Component.compare : Component → Component → Ordering :=
  compareLex (compareOn Component.rank) (compareOn Component.name)

/-- The pieces between the separators of a text, empty ones included. -/
def segments : List Char → List (List Char)
  | [] => [[]]
  | c :: cs =>
    if c = '/' then [] :: segments cs
    else match segments cs with
      | s :: ss => (c :: s) :: ss
      | [] => [[c]]

/-- Whether a segment names nothing. -/
def isVoid (segment : List Char) : Bool := segment == [] || segment == ['.']

/-- The component that stands at the start of a path, if it is a separator or a dot, and the
segments of the rest. -/
def anchored (p : Path) : Option Component × List (List Char) :=
  match p.toList with
  | '/' :: cs => (some .root, segments cs)
  | ['.'] => (some .current, [[]])
  | '.' :: '/' :: cs => (some .current, segments ('/' :: cs))
  | cs => (none, segments cs)

/-- The component of a segment that names something. -/
def segmentComponent (segment : List Char) : Component :=
  if segment == ['.', '.'] then .parent else .entry (String.ofList segment)

/-- The components of a path. -/
def components (p : Path) : List Component :=
  let (anchor, ss) := anchored p
  anchor.toList ++ (ss.filter (!isVoid ·)).map segmentComponent

/-- Paths in order, component by component. -/
def compare (p q : Path) : Ordering :=
  List.compareLex Component.compare (components p) (components q)

/-! ### Parts of a path -/

/-- Segments joined by separators. -/
def joinSegments : List (List Char) → List Char
  | [] => []
  | [s] => s
  | s :: ss => s ++ '/' :: joinSegments ss

/-- The segments without the void ones at the end. -/
def trimTail (ss : List (List Char)) : List (List Char) :=
  (ss.reverse.dropWhile isVoid).reverse

/-- The segments after the first `n` that name something. -/
def dropNamed : Nat → List (List Char) → List (List Char)
  | 0, ss => ss
  | _ + 1, [] => []
  | n + 1, s :: ss => if isVoid s then dropNamed (n + 1) ss else dropNamed n ss

/-- The text of the component at the start of a path. -/
def anchorText : Option Component → List Char
  | some .root => ['/']
  | some .current => ['.']
  | _ => []

/-- The path after its first `n` components, as it is spelled, without void segments at its
ends. -/
def dropComponents (n : Nat) (p : Path) : Path :=
  let (anchor, ss) := anchored p
  match n with
  | 0 => String.ofList (anchorText anchor ++ joinSegments (trimTail ss))
  | n + 1 =>
    let named := if anchor.isSome then n else n + 1
    String.ofList (joinSegments (trimTail ((dropNamed named ss).dropWhile isVoid)))

/-- What is left of `p` below `base`; `none` if `p` is not below it. -/
def below? (p base : Path) : Option Path :=
  if (components base).isPrefixOf (components p) then
    some (dropComponents (components base).length p)
  else none

/-- The name of the entry that a path ends with. -/
def fileName? (p : Path) : Option String :=
  match (components p).getLast? with
  | some (.entry name) => some name
  | _ => none

/-- The part of a file name after its last dot; a dot in front of the whole name does not
count. -/
def extension? (p : Path) : Option String :=
  (fileName? p).bind fun name =>
    let (after, before) := name.toList.reverse.span (· != '.')
    match before with
    | [] | ['.'] => none
    | _ => some (String.ofList after.reverse)

/-- The path without its last component; `none` if there is nothing to take away. -/
def parent? (p : Path) : Option Path :=
  let (anchor, ss) := anchored p
  match anchor, trimTail ss with
  -- nothing is above the root, and nothing is in front of an empty path
  | some .root, [] => none
  | none, [] => none
  | some _, [] => some ""
  | anchor, ss =>
    some (String.ofList (anchorText anchor ++ joinSegments (trimTail ss.dropLast)))

/-- Whether a path starts at the root. -/
def isAbsolute (p : Path) : Bool := p.toList.head? == some '/'

/-- The text `p` without `front` in front of it, if it starts so. -/
def dropFront (front : String) (p : Path) : Path :=
  if front.toList.isPrefixOf p.toList then String.ofList (p.toList.drop front.length) else p

/-- The path of the entry `name` in directory `p`; an absolute `name` stands for itself. -/
def join (p name : Path) : Path :=
  if isAbsolute name || p == "" then name
  else if p.toList.getLast? == some '/' then p ++ name
  else p ++ "/" ++ name

end Path

end TreeMend
