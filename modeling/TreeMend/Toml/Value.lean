/-!
# TOML documents

A document is a table of keys and values, put together from lines in any order.  A table remembers
how it came about, because that decides what later lines may add to it: a table written out in
braces is complete, a table with a header of its own takes no second header, and a table that
dotted keys have made takes only dotted keys.

## Main definitions

* `Toml` — a value.
* `Toml.Origin` — how a table came about.
* `Toml.insert?` — giving a value to a dotted key.
* `Toml.openTable?`, `Toml.openArray?` — the effect of a header.
* `Toml.within?` — a change inside the table that a header has opened.
-/

namespace TreeMend

/-- How a table came about. -/
inductive Toml.Origin where
  /-- It has a header, or is an element of an array of tables. -/
  | header
  /-- It stands on the way to a table with a header. -/
  | implied
  /-- It was made by dotted keys. -/
  | dotted
  /-- It is written out in braces. -/
  | inline
  deriving DecidableEq, Repr, Inhabited

/-- A TOML value. -/
inductive Toml where
  /-- A string. -/
  | string (s : String)
  /-- A truth value. -/
  | boolean (b : Bool)
  /-- A whole number. -/
  | integer (n : Int)
  /-- A number with a fraction or an exponent, as it is written. -/
  | float (text : String)
  /-- A date, a time or both, as it is written. -/
  | dateTime (text : String)
  /-- An array written out in brackets. -/
  | array (items : List Toml)
  /-- A table. -/
  | table (origin : Toml.Origin) (entries : List (String × Toml))
  /-- An array of tables with headers; each is given by its entries. -/
  | tables (elements : List (List (String × Toml)))
  deriving Inhabited, Repr

namespace Toml

/-- The entries of a table. -/
abbrev Entries := List (String × Toml)

/-- The entries with the value of a key replaced, or added at the end. -/
def assign (key : String) (v : Toml) : Entries → Entries
  | [] => [(key, v)]
  | e :: es => if e.1 = key then (key, v) :: es else e :: assign key v es

/-- A change to the last element of an array of tables. -/
def modifyLast? (f : Entries → Option Entries) : List Entries → Option (List Entries)
  | [] => none
  | [es] => (f es).map ([·])
  | es :: rest => (modifyLast? f rest).map (es :: ·)

/-- Give a value to a dotted key, whose parts before the last are `path`.  Tables on the way are
made where they lack; the last one has to be of dotted keys alone. -/
def insertBelow? (key : String) (v : Toml) (dotted : Bool) : List String → Entries → Option Entries
  | [], es =>
    if dotted && (es.lookup key).isNone then some (assign key v es) else none
  | part :: path, es =>
    match es.lookup part with
    | none => (insertBelow? key v true path []).map fun sub => assign part (.table .dotted sub) es
    | some (.table .dotted sub) =>
      (insertBelow? key v true path sub).map fun sub => assign part (.table .dotted sub) es
    | some (.table .implied sub) =>
      (insertBelow? key v false path sub).map fun sub => assign part (.table .implied sub) es
    | some (.tables elements) =>
      (modifyLast? (insertBelow? key v false path) elements).map fun elements =>
        assign part (.tables elements) es
    | some _ => none

/-- Give a value to a key of a table; the key may be dotted. -/
def insert? (path : List String) (key : String) (v : Toml) (es : Entries) : Option Entries :=
  insertBelow? key v true path es

/-- A change to the table that a path of keys leads to.  Tables on the way are made where they
lack; of an array of tables the last element is meant. -/
def within? (f : Entries → Option Entries) : List String → Entries → Option Entries
  | [], es => f es
  | part :: path, es =>
    match es.lookup part with
    | none => (within? f path []).map fun sub => assign part (.table .implied sub) es
    | some (.table .inline _) => none
    | some (.table origin sub) =>
      (within? f path sub).map fun sub => assign part (.table origin sub) es
    | some (.tables elements) =>
      (modifyLast? (within? f path) elements).map fun elements => assign part (.tables elements) es
    | some _ => none

/-- Open the table with the given key by a header. -/
def openTable? (key : String) (es : Entries) : Option Entries :=
  match es.lookup key with
  | none => some (assign key (.table .header []) es)
  | some (.table .implied sub) => some (assign key (.table .header sub) es)
  | some _ => none

/-- Open a further element of the array of tables with the given key by a header. -/
def openArray? (key : String) (es : Entries) : Option Entries :=
  match es.lookup key with
  | none => some (assign key (.tables [[]]) es)
  | some (.tables elements) => some (assign key (.tables (elements ++ [[]])) es)
  | some _ => none

end Toml

end TreeMend
