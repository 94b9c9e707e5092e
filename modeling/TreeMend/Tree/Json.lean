import TreeMend.Json.Reader
import TreeMend.Tree.Node

/-!
# Trees as JSON

A node is an object with the members `kind`, `text`, `span` and `children`, or an array of these
four in this order.  Kind and text are required; a missing span is the empty one, and a node
without children may leave them out.  Members with other keys are passed over, whatever they hold;
a repeated member is an error.

## Main definitions

* `Node.toJson` — the object of a node, without an empty span.
* `Node.ofJson?` — the node of a value.
* `Node.parseJson?` — the node that a text holds.
-/

namespace TreeMend

/-- The object of a byte range. -/
def Span.toJson (s : Span) : Json :=
  .obj [("start", .nat s.start), ("end", .nat s.stop)]

namespace Node

mutual

/-- The object of a node; the span is left out if it is empty. -/
def toJson : Node → Json
  | ⟨kind, text, span, children⟩ =>
    .obj ([("kind", .str kind), ("text", .str text)] ++
      (if span.isEmpty then [] else [("span", span.toJson)]) ++
      [("children", .array (toJsonList children))])

/-- The objects of a list of nodes. -/
def toJsonList : List Node → List Json
  | [] => []
  | n :: ns => toJson n :: toJsonList ns

end

end Node

/-! ### Reading -/

namespace Json

/-- The one value that the members give to a key, if exactly one does. -/
def single? (members : List (Option String × Json)) (key : String) : Option Json :=
  match members.filter (·.1 == some key) with
  | [(_, v)] => some v
  | _ => none

end Json

/-- The byte range of a value: an object with both ends, or an array of the two. -/
def Span.ofJson? : Json → Option Span
  | .object members => do
    if members.any (·.1.isNone) then none
    let start ← (Json.single? members "start").bind Json.nat?
    let stop ← (Json.single? members "end").bind Json.nat?
    pure ⟨start, stop⟩
  | .array [start, stop] => do pure ⟨← start.nat?, ← stop.nat?⟩
  | _ => none

namespace Node

/-- The members of a node read so far. -/
structure Draft where
  /-- The kind, once read. -/
  kind : Option Kind := none
  /-- The text, once read. -/
  text : Option String := none
  /-- The span, once read. -/
  span : Option Span := none
  /-- The children, once read. -/
  children : Option (List Node) := none

namespace Draft

/-- Give a member its value, if it has none yet and there is one to give. -/
def fill {α : Type} (slot value : Option α) : Option (Option α) :=
  match slot, value with
  | none, some v => some (some v)
  | _, _ => none

/-- The node of a draft, if kind and text have been read. -/
def finish? (d : Draft) : Option Node := do
  pure ⟨← d.kind, ← d.text, d.span.getD {}, d.children.getD []⟩

end Draft

mutual

/-- The node of a value that may nest at most `room` arrays and objects. -/
def ofJson? (room : Nat) : Json → Option Node
  | .object members =>
    if room = 0 then none else (ofMembers? (room - 1) members).bind Draft.finish?
  | .array items =>
    if room = 0 then none else (ofItems? (room - 1) items).bind Draft.finish?
  | _ => none

/-- The draft of an object's members. -/
def ofMembers? (room : Nat) : List (Option String × Json) → Option Draft
  | [] => some {}
  | (key, v) :: rest => do
    let d ← ofMembers? room rest
    match key with
    | none => none
    | some "kind" => pure { d with kind := ← Draft.fill d.kind v.text? }
    | some "text" => pure { d with text := ← Draft.fill d.text v.text? }
    | some "span" =>
      if room = 0 then none else pure { d with span := ← Draft.fill d.span (Span.ofJson? v) }
    | some "children" => pure { d with children := ← Draft.fill d.children (listOfJson? room v) }
    | some _ => pure d

/-- The draft of an array of kind, text, span and children, of which the last two may lack. -/
def ofItems? (room : Nat) : List Json → Option Draft
  | [kind, text] => some { kind := kind.text?, text := text.text? }
  | [kind, text, span] => do
    if room = 0 then none
    pure { kind := kind.text?, text := text.text?, span := ← Span.ofJson? span }
  | [kind, text, span, children] => do
    if room = 0 then none
    pure { kind := kind.text?, text := text.text?, span := ← Span.ofJson? span,
           children := ← listOfJson? room children }
  | _ => none

/-- The nodes of an array value. -/
def listOfJson? (room : Nat) : Json → Option (List Node)
  | .array items => if room = 0 then none else listOfItems? (room - 1) items
  | _ => none

/-- The nodes of the items, all or none. -/
def listOfItems? (room : Nat) : List Json → Option (List Node)
  | [] => some []
  | v :: vs => do
    let n ← ofJson? room v
    let ns ← listOfItems? room vs
    pure (n :: ns)

end

/-- The node that a text holds. -/
def parseJson? (s : String) : Option Node :=
  (Json.parse? s).bind (ofJson? Json.depthLimit)

end Node

end TreeMend
