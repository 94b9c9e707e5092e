import TreeMend.Command.Arguments
import TreeMend.Path
import TreeMend.Report.Display

/-!
# Commands

What the program can be told to do.  A call is the name of a command with its own options and
words; two options are shared by all commands and may stand before or after the name, where the
later one counts.  A call for help is answered as soon as it is met, also where the value right
before the name of a command is no good.

## Main definitions

* `Command` — the commands.
* `Settings` — what all commands share.
* `Command.parse` — the command that the words of a call spell.
-/

namespace TreeMend

open Arguments

/-- What the program can be told to do. -/
inductive Command where
  /-- Check the source files at a path. -/
  | lint (path : Path) (layout : Layout) (exclude : List String)
  /-- Fix a source file and print or write it. -/
  | format (file : Path) (out : Option Path)
  /-- Print or write the text of a stored tree. -/
  | generate (tree : Path) (out : Option Path)
  /-- Show the tree of a source file. -/
  | outline (file : Path) (json : Bool)
  /-- List the rules. -/
  | listRules
  /-- Write a first configuration file. -/
  | init (force : Bool)
  deriving DecidableEq, Repr, Inhabited

/-- What all commands share. -/
structure Settings where
  /-- Whether each node gets a line in the log. -/
  debug : Bool := false
  /-- The configuration file to use. -/
  config : Option Path := none
  deriving DecidableEq, Repr, Inhabited

namespace Command

/-- Whether a text can be a path. -/
def isPath (text : String) : Bool := text != ""

/-- The option for a help text. -/
def helpOption : Opt := ⟨"help", some 'h', .help⟩

/-- The options that may stand before and after the name of a command. -/
def sharedOptions : List Opt :=
  [⟨"debug", some 'd', .nothing⟩, ⟨"config", some 'c', .value isPath⟩, helpOption]

/-- The options that may stand before the name of a command. -/
def rootOptions : List Opt := sharedOptions ++ [⟨"version", some 'V', .version⟩]

/-- The option for the file that a result is written to. -/
def outOption : Opt := ⟨"out", some 'o', .value isPath⟩

/-- How a command is called. -/
structure Form where
  /-- The name. -/
  name : String
  /-- What the command does. -/
  about : String
  /-- The words that may follow. -/
  words : List String := []
  /-- The options that it does not share. -/
  options : List Opt := []
  /-- The command, if all the words that it needs are there. -/
  build : Gathered → Option Command

/-- The ways to call the program. -/
def forms : List Form :=
  [{ name := "lint", about := "Run check rules over a file or directory", words := ["[PATH]"],
     options := [⟨"format", some 'f', .value fun t => (Layout.ofLabel? t).isSome⟩,
       ⟨"exclude", some 'e', .values⟩],
     build := fun g =>
       let layout := ((g.value? "format").bind Layout.ofLabel?).getD .text
       some (.lint (g.words.head?.getD ".") layout (g.valuesOf "exclude")) },
   { name := "format", about := "Apply fix rules to a file and print the regenerated source",
     words := ["<FILE>"], options := [outOption],
     build := fun g => g.words.head?.map (.format · (g.value? "out")) },
   { name := "generate", about := "Regenerate source from a JSON-serialized tree",
     words := ["<AST>"], options := [outOption],
     build := fun g => g.words.head?.map (.generate · (g.value? "out")) },
   { name := "ast", about := "Print the generic tree of a file", words := ["<FILE>"],
     options := [⟨"json", none, .nothing⟩],
     build := fun g => g.words.head?.map (.outline · (g.has "json")) },
   { name := "list-rules", about := "List available rules", build := fun _ => some .listRules },
   { name := "init", about := "Initialize configuration file",
     options := [⟨"force", none, .nothing⟩], build := fun g => some (.init (g.has "force")) }]

/-- The form with a name. -/
def form? (name : String) : Option Form := forms.find? (·.name == name)

/-! ### Reading a call -/

/-- What a call asks for. -/
inductive Request where
  /-- Carry out a command. -/
  | run (settings : Settings) (command : Command)
  /-- Tell the version. -/
  | version
  /-- Tell how the program, or one of its commands, is called. -/
  | help (form : Option Form)
  /-- Nothing that can be understood. -/
  | refused

/-- The request of a call that was not read to its end. -/
def Request.ofStop (form : Option Form) : Stop → Request
  | .usage => .refused
  | .version => .version
  | .help => .help form

/-- The request of the words after `help`. -/
def helpRequest : List String → Request
  | [] => .help none
  | [name] =>
    match form? name with
    | some f => .help (some f)
    | none => if name = "help" then .help none else .refused
  | _ => .refused

/-- The configuration file given among the options before or after the name of a command, where
`fallback` stands in on either side that has none. -/
def configOf (fallback : Option Path) (before after : Gathered) : Except Stop (Option Path) :=
  let sides := [before.value? "config", after.value? "config"]
  -- an empty name in the environment is refused wherever it would stand in
  if sides.any Option.isNone && fallback == some "" then .error .usage
  else .ok (((after.value? "config").or (before.value? "config")).or fallback)

/-- The request of a command with the options `before` its name, of which the `pending` one is not
looked at yet, and the words after it. -/
def Form.read (f : Form) (fallback : Option Path) (before : Gathered) (pending : Option Item)
    (rest : List String) : Request :=
  match gather f.words.length (scan (f.options ++ sharedOptions) rest) with
  | .error stop => .ofStop (some f) stop
  | .ok after =>
    match pending.toList.foldlM (addItem 0) before with
    | .error _ => .refused
    | .ok before =>
      match f.build after, configOf fallback before after with
      | some command, .ok config =>
        .run ⟨before.has "debug" || after.has "debug", config⟩ command
      | _, _ => .refused

/-- The request that the words of a call spell, where `fallback` is the configuration file that
the environment names. -/
def parse (fallback : Option Path) (words : List String) : Request :=
  let lead := scanToWord rootOptions words
  match gather 0 lead.items with
  | .error stop => .ofStop none stop
  | .ok before =>
    match lead.tail with
    | none => .refused
    | some ("help", rest) => helpRequest rest
    | some (name, rest) =>
      match form? name with
      | some f => f.read fallback before lead.pending rest
      | none => .refused

end Command

end TreeMend
