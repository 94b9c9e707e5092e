import TreeMend.Command.Action
import TreeMend.Command.Configuration
import TreeMend.Command.Help
import TreeMend.Format
import TreeMend.Lint
import TreeMend.Tree.Outline

/-!
# Carrying out commands

A command looks at the world step by step, may write one file, and prints.  A run carries out the
command that a call spells; its outcome tells what is left, also if the command was interrupted.

## Main definitions

* `Action.perform` — carrying out a command.
* `Outcome`, `World.run` — a whole run of the program.
-/

namespace TreeMend

/-- The configuration file that is written to start with. -/
def defaultConfig : String := unlines
  ["# astfix configuration",
    "#",
    "# Each rule takes a level: \"error\", \"warn\" or \"off\".",
    "# Rules that are not listed are off.",
    "",
    "# \"normal\" or \"debug\" (debug logs every visited node)",
    "verbosity = \"normal\"",
    "",
    "[rules]",
    "# Derived-class constructors must call super() (checked by `astfix lint`)",
    "call-super-in-constructor = \"error\"",
    "",
    "# let that is never reassigned becomes const (applied by `astfix format`)",
    "use-let-never-reassigned = \"warn\"",
    "",
    "# \"...\" string literals become '...' (applied by `astfix format`)",
    "double-quotes = \"warn\""]

/-- A text filled up with blanks to a width. -/
def padRight (width : Nat) (s : String) : String :=
  s ++ String.ofList (List.replicate (width - s.length) ' ')

/-- The lines of the list of rules. -/
def ruleLines : List String :=
  ["Available rules:\n",
    padRight 8 "Code" ++ " " ++ padRight 28 "Name" ++ " " ++ padRight 7 "Stage" ++ " Description",
    String.ofList (List.replicate 80 '-')] ++
    Catalog.all.map (fun e => padRight 8 e.code ++ " " ++ padRight 28 e.name ++ " " ++
      e.stage.label ++ " " ++ e.description) ++
    ["\nLevels: error, warn, off (rules not listed in the config are off)",
      "Check rules run with `astfix lint`, fix rules with `astfix format`."]

/-- The source files at a path: the file itself, or those found below a directory. -/
def World.sources (w : World) (p : Path) (exclude : List String) : Task (List Path) :=
  if w.files.isFile w.directory p then pure [p]
  else Task.orFail (w.discover p exclude) .notListed

/-- The failure for a stored tree in the file with a path. -/
def generateFailure (p : Path) : Generate.Error → Failure
  | .malformed => .treeMalformed p
  | .notRendered reason => .notGenerated p reason

namespace Action

/-! ### The commands -/

/-- Write a text to a file, or print it under a heading. -/
def emit (heading text : String) : Option Path → Action Unit
  | none => do
    printLines [heading]
    print text
  | some p => do
    write p text (.unwritable p)
    printLines ["Wrote " ++ p]

/-- Check the source files at a path, and tell whether there are errors. -/
def lint (settings : Settings) (p : Path) (layout : Layout) (exclude : List String) :
    Action Bool := do
  let config ← look fun w => w.loadConfig settings (w.projectDirectory p)
  let paths ← look fun w => w.sources p exclude
  look fun _ =>
    Traced.record (Log.line .info ("Analyzing " ++ toString paths.length ++ " files"))
  let (summary, files) ← look fun w => Lint.run w (w.projectDirectory p) config paths
  printLines (summary.lines files layout)
  pure summary.hasErrors

/-- Fix a source file and print or write it. -/
def format (settings : Settings) (file : Path) (out : Option Path) : Action Unit := do
  let config ← look fun w => w.loadConfig settings (w.projectDirectory file)
  let content ← look fun w => w.read file
  let text ← look fun w => Format.run w config file content
  emit "Formatted source:" text out

/-- Print or write the text of a stored tree. -/
def generate (settings : Settings) (tree : Path) (out : Option Path) : Action Unit := do
  let stored ← look fun w => w.read tree
  let text ← look fun _ =>
    (Generate.run (settings.verbosity .normal) stored).mapError (generateFailure tree)
  emit "Generated source:" text out

/-- Show the tree of a source file. -/
def outline (file : Path) (json : Bool) : Action Unit := do
  let content ← look fun w => w.read file
  let tree ← look fun w => w.parseFile file content
  printLines (if json then [tree.toJson.pretty] else tree.outline)

/-- Write a first configuration file. -/
def init (force : Bool) : Action Unit := do
  let p : Path := "astfix.toml"
  look fun w => if w.hasPath p && !force then Traced.fail (.configExists p) else pure ()
  write p defaultConfig .configUnwritable
  printLines
    ["Created astfix.toml", "\nNext steps:", "  1. Edit astfix.toml to configure rules",
      "  2. Run: astfix lint", "  3. Run: astfix format <file>"]

/-- Carry out a command, and tell whether it found errors. -/
def perform (settings : Settings) : Command → Action Bool
  | .lint p layout exclude => lint settings p layout exclude
  | .format file out => do
    format settings file out
    pure false
  | .generate tree out => do
    generate settings tree out
    pure false
  | .outline file json => do
    outline file json
    pure false
  | .listRules => do
    printLines ruleLines
    pure false
  | .init force => do
    init force
    pure false

end Action

/-! ### Whole runs -/

/-- What a run of the program leaves. -/
structure Outcome where
  /-- The exit code. -/
  exit : Nat
  /-- What is printed. -/
  output : String := ""
  /-- What is logged. -/
  log : Log := []
  /-- Why it failed, the outermost reason first. -/
  chain : List String := []
  /-- The files afterwards. -/
  files : FileStore

namespace Outcome

/-- The exit code of a run that breaks off. -/
def brokenOff : Nat := 101

/-- The lines of a log that are shown: those about single nodes only if they are asked for. -/
def shown (settings : Settings) (log : Log) : Log :=
  if settings.debug then log else log.filter (·.level != .debug)

/-- The outcome of a command that was carried out. -/
def ofResult (settings : Settings) : EStateM.Result Interruption Situation Bool → Outcome
  | .ok foundErrors s =>
    { exit := if foundErrors then 1 else 0, output := s.output, log := shown settings s.log,
      files := s.world.files }
  | .error (.failed failure) s =>
    { exit := 1, output := s.output, log := shown settings s.log, chain := failure.chain,
      files := s.world.files }
  | .error .unprinted s =>
    { exit := brokenOff, output := s.output, log := shown settings s.log,
      files := s.world.files }

end Outcome

namespace World

/-- The outcome of a call that only asks for a text.  Nothing comes of it if standard output does
not take the text. -/
def tell (w : World) (text : String) : Outcome :=
  { exit := 0, output := if w.takes text then text else "", files := w.files }

/-- A run of the program with the words of a call. -/
def run (w : World) (words : List String) : Outcome :=
  match Command.parse w.configFile words with
  | .run settings command =>
    .ofResult settings ((Action.perform settings command).run { world := w })
  | .version => w.tell (unlines ["astfix 0.1.0"])
  | .help form => w.tell (unlines (Command.helpLines form))
  | .refused => { exit := 2, files := w.files }

end World

end TreeMend
