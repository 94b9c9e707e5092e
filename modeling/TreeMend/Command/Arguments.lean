/-!
# Arguments

A program is called with words.  A word that starts with two hyphens names an option, one that
starts with a single hyphen holds the letters of several; the value of an option follows it in the
same word, perhaps after an equals sign, or is the next word, which then must not look like an
option.  Two hyphens alone end the options.  All other words are taken as they are.

## Main definitions

* `Arguments.Opt` — what is known about an option.
* `Arguments.Item`, `Arguments.scan` — the items that the words of a call are made of.
* `Arguments.Lead`, `Arguments.scanToWord` — a call up to its first word.
* `Arguments.Gathered`, `Arguments.gather` — the options and words of a call, checked.
-/

namespace TreeMend.Arguments

/-! ### Options -/

/-- What comes with an option. -/
inductive Takes where
  /-- Nothing: it is there or not. -/
  | nothing
  /-- A value that `accepts` lets through. -/
  | value (accepts : String → Bool)
  /-- A value, any number of times. -/
  | values
  /-- Nothing, and the call ends with the version. -/
  | version
  /-- Nothing, and the call ends with a help text. -/
  | help

/-- What is known about an option. -/
structure Opt where
  /-- The name after two hyphens. -/
  name : String
  /-- The letter after a single hyphen. -/
  letter : Option Char := none
  /-- What comes with it. -/
  takes : Takes := .nothing

/-- Whether a value belongs to the option. -/
def Opt.takesValue (o : Opt) : Bool :=
  match o.takes with
  | .value _ | .values => true
  | _ => false

/-! ### Scanning -/

/-- An item of a call. -/
inductive Item where
  /-- An option without a value. -/
  | flag (o : Opt)
  /-- An option with a value. -/
  | value (o : Opt) (text : String)
  /-- A word. -/
  | word (text : String)
  /-- Something that cannot be understood. -/
  | malformed

/-- The items of a word, and the option that still waits for a value in the next word. -/
structure Piece where
  /-- The items. -/
  items : List Item
  /-- The option that waits. -/
  waiting : Option Opt := none

/-- The items of the letters after a single hyphen. -/
def letters (opts : List Opt) : List Char → Piece
  | [] => ⟨[], none⟩
  | c :: cs =>
    match opts.find? (·.letter == some c) with
    | none => ⟨[.malformed], none⟩
    | some o =>
      if o.takesValue then
        match cs with
        | [] => ⟨[], some o⟩
        | '=' :: value => ⟨[.value o (String.ofList value)], none⟩
        | value => ⟨[.value o (String.ofList value)], none⟩
      else
        let rest := letters opts cs
        ⟨.flag o :: rest.items, rest.waiting⟩

/-- The item of the name after two hyphens, and the value after an equals sign. -/
def named (opts : List Opt) (cs : List Char) : Piece :=
  let (name, rest) := cs.span (· != '=')
  match opts.find? (·.name == String.ofList name), rest with
  | none, _ => ⟨[.malformed], none⟩
  | some o, [] => if o.takesValue then ⟨[], some o⟩ else ⟨[.flag o], none⟩
  | some o, _ :: value =>
    if o.takesValue then ⟨[.value o (String.ofList value)], none⟩ else ⟨[.malformed], none⟩

/-- The items of a word that is not two hyphens alone. -/
def piece (opts : List Opt) (word : String) : Piece :=
  match word.toList with
  | '-' :: '-' :: cs => named opts cs
  | '-' :: c :: cs => letters opts (c :: cs)
  | _ => ⟨[.word word], none⟩

/-- Whether a word looks like an option; a single hyphen does not. -/
def looksLikeOption (word : String) : Bool :=
  match word.toList with
  | '-' :: _ :: _ => true
  | _ => false

/-- The items of a call. -/
def scan (opts : List Opt) : List String → List Item
  | [] => []
  | word :: rest =>
    if word = "--" then rest.map .word
    else
      let p := piece opts word
      match p.waiting, rest with
      | none, rest => p.items ++ scan opts rest
      | some o, value :: rest =>
        -- the next word is the value, unless it is an option itself
        if looksLikeOption value then p.items ++ [.malformed]
        else p.items ++ .value o value :: scan opts rest
      | some _, [] => p.items ++ [.malformed]

/-- A call up to its first word. -/
structure Lead where
  /-- The items before the word. -/
  items : List Item := []
  /-- The value right before the word, if it is in a place of its own.  It is looked at only when
  the words after it do not decide. -/
  pending : Option Item := none
  /-- The word, and the words after it. -/
  tail : Option (String × List String) := none

/-- A call that starts with more items. -/
def Lead.prepend (items : List Item) (l : Lead) : Lead := { l with items := items ++ l.items }

/-- A call that starts with a value in a place of its own. -/
def Lead.prependValue (i : Item) (l : Lead) : Lead :=
  if l.items.isEmpty && l.pending.isNone then { l with pending := some i } else l.prepend [i]

/-- A call up to its first word.  Two hyphens alone are out of place here. -/
def scanToWord (opts : List Opt) : List String → Lead
  | [] => {}
  | word :: rest =>
    if word = "--" then { items := [.malformed] }
    else if looksLikeOption word then
      let p := piece opts word
      match p.waiting, rest with
      | none, rest => (scanToWord opts rest).prepend p.items
      | some o, value :: rest =>
        if looksLikeOption value then { items := p.items ++ [.malformed] }
        else ((scanToWord opts rest).prependValue (.value o value)).prepend p.items
      | some _, [] => { items := p.items ++ [.malformed] }
    else { tail := some (word, rest) }

/-! ### Gathering -/

/-- Why a call is not carried out. -/
inductive Stop where
  /-- It cannot be understood. -/
  | usage
  /-- It asks for the version. -/
  | version
  /-- It asks for help. -/
  | help
  deriving DecidableEq, Repr, Inhabited

/-- The options and words of a call. -/
structure Gathered where
  /-- The names of the options that stand without a value. -/
  flags : List String := []
  /-- The options that stand with a value, in order. -/
  values : List (String × String) := []
  /-- The words, in order. -/
  words : List String := []
  deriving DecidableEq, Repr, Inhabited

namespace Gathered

/-- Whether an option is there. -/
def has (g : Gathered) (name : String) : Bool := g.flags.contains name

/-- The value of an option. -/
def value? (g : Gathered) (name : String) : Option String := g.values.lookup name

/-- All the values of an option, in order. -/
def valuesOf (g : Gathered) (name : String) : List String :=
  g.values.filterMap fun (n, v) => if n == name then some v else none

end Gathered

/-- A call with one more item, of which at most `room` are words.  Only an option with any number
of values may stand twice, and no word is empty. -/
def addItem (room : Nat) (g : Gathered) : Item → Except Stop Gathered
  | .malformed => .error .usage
  | .word text =>
    if g.words.length < room && text != "" then .ok { g with words := g.words ++ [text] }
    else .error .usage
  | .flag o =>
    match o.takes with
    | .version => .error .version
    | .help => .error .help
    | _ => if g.has o.name then .error .usage else .ok { g with flags := g.flags ++ [o.name] }
  | .value o text =>
    match o.takes with
    | .value accepts =>
      if accepts text && (g.value? o.name).isNone then
        .ok { g with values := g.values ++ [(o.name, text)] }
      else .error .usage
    | _ => .ok { g with values := g.values ++ [(o.name, text)] }

/-- The options and words of a call with at most `room` words; the first item that is out of place
or asks for something else decides. -/
def gather (room : Nat) (items : List Item) : Except Stop Gathered :=
  items.foldlM (addItem room) {}

end TreeMend.Arguments
