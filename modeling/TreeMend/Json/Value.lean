import TreeMend.Json.Number

/-!
# JSON values

A value as its text spells it: members of an object keep their order and their repetitions, and a
number keeps the parts it was written with, because readers differ in what they make of both.  A
string literal can escape half of a surrogate pair; such a literal denotes no text at all.

## Main definitions

* `Json` — a value.
* `Json.depth`, `Json.isSound` — how deeply a value nests, and whether all of it denotes something.
* `Json.entries` — the members of an object, where the last of equal keys counts.
* `Json.normalize` — a value in which no object repeats a key.
-/

namespace TreeMend

/-- A JSON value.  A text is `none` when its literal escapes a lone surrogate. -/
inductive Json where
  /-- The value `null`. -/
  | null
  /-- A truth value. -/
  | bool (b : Bool)
  /-- A number. -/
  | number (n : Json.Number)
  /-- A string. -/
  | string (text : Option String)
  /-- An array. -/
  | array (items : List Json)
  /-- An object, with its members as written. -/
  | object (members : List (Option String × Json))
  deriving Inhabited, Repr

namespace Json

/-! ### Shapes of values -/

/-- The string value of a text. -/
def str (s : String) : Json := .string (some s)

/-- The number value of a natural number. -/
def nat (k : Nat) : Json := .number (Number.ofNat k)

/-- The object with the given members. -/
def obj (members : List (String × Json)) : Json :=
  .object (members.map fun (k, v) => (some k, v))

mutual

/-- How many arrays and objects stand around the innermost value. -/
def depth : Json → Nat
  | .array items => depthItems items + 1
  | .object members => depthMembers members + 1
  | _ => 0

/-- The greatest depth of the items. -/
def depthItems : List Json → Nat
  | [] => 0
  | v :: vs => max (depth v) (depthItems vs)

/-- The greatest depth of the members. -/
def depthMembers : List (Option String × Json) → Nat
  | [] => 0
  | (_, v) :: ms => max (depth v) (depthMembers ms)

end

mutual

/-- Whether every string denotes a text and every number is in the range of doubles. -/
def isSound : Json → Bool
  | .number n => n.isInRange
  | .string text => text.isSome
  | .array items => isSoundItems items
  | .object members => isSoundMembers members
  | _ => true

/-- Whether all the items are sound. -/
def isSoundItems : List Json → Bool
  | [] => true
  | v :: vs => isSound v && isSoundItems vs

/-- Whether all the members are sound, their keys included. -/
def isSoundMembers : List (Option String × Json) → Bool
  | [] => true
  | (k, v) :: ms => k.isSome && isSound v && isSoundMembers ms

end

/-- The greatest depth that a reader accepts. -/
def depthLimit : Nat := 127

/-! ### Members -/

/-- The members in order of their first occurrence, each key with the value it is given last. -/
def entries (members : List (Option String × Json)) : List (String × Json) :=
  members.foldl (fun acc (k?, v) =>
    match k? with
    | none => acc
    | some k =>
      if acc.any (·.1 == k) then acc.map fun e => if e.1 == k then (k, v) else e
      else acc ++ [(k, v)]) []

mutual

/-- The value with repeated members of its objects resolved: the last of equal keys counts. -/
def normalize : Json → Json
  | .array items => .array (normalizeItems items)
  | .object members => .obj (entries (normalizeMembers members))
  | v => v

/-- The items with repeated members resolved. -/
def normalizeItems : List Json → List Json
  | [] => []
  | v :: vs => normalize v :: normalizeItems vs

/-- The members with repeated members inside them resolved. -/
def normalizeMembers : List (Option String × Json) → List (Option String × Json)
  | [] => []
  | (k, v) :: ms => (k, normalize v) :: normalizeMembers ms

end

/-- The text of a string value. -/
def text? : Json → Option String
  | .string text => text
  | _ => none

/-- The natural number of a number value. -/
def nat? : Json → Option Nat
  | .number n => n.nat?
  | _ => none

/-- The value that an object gives to a key. -/
def get? (v : Json) (key : String) : Option Json :=
  match v with
  | .object members => (entries members).lookup key
  | _ => none

end Json

end TreeMend
