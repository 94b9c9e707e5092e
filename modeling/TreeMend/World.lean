import TreeMend.Config.Basic
import TreeMend.Files.Discover
import TreeMend.Log
import TreeMend.ParseTree.Dialect
import TreeMend.ParseTree.Lowering
import TreeMend.Program.Reading
import TreeMend.Traced

/-!
# The surroundings of a run

What a command can see besides its arguments: the files, the working directory, the places where
a configuration may be named, and a parser; and how far standard output takes what is printed.  A
task looks at it, logs what it does, and ends with a value or with a failure.

## Main definitions

* `World` — the surroundings.
* `Failure`, `Failure.chain` — why a task ended early, and the reasons in words.
* `Task` — a task.
* `World.read`, `World.parseFile` — the text of a file, and the tree of a file.
-/

namespace TreeMend

/-- What a run can see besides its arguments. -/
structure World where
  /-- The files. -/
  files : FileStore
  /-- The working directory. -/
  directory : Spot := []
  /-- The home directory. -/
  home : Option Path := none
  /-- The directory for the settings of all programs named by the environment. -/
  settingsDirectory : Option Path := none
  /-- The configuration file named by the environment. -/
  configFile : Option Path := none
  /-- The directory for the global configuration named by the environment. -/
  configDirectory : Option Path := none
  /-- The parser of source texts. -/
  parser : Parser
  /-- Whether standard output takes a text as all that is printed so far. -/
  takes : String → Bool := fun _ => true

/-- Why a task ended early. -/
inductive Failure where
  /-- There is no configuration. -/
  | noConfig
  /-- The configuration file cannot be read. -/
  | configUnreadable (path : Path) (reason : FileError)
  /-- The configuration file holds no configuration. -/
  | configMalformed (path : Path)
  /-- The configuration file gives a level to a rule that is not known. -/
  | configInvalid (path : Path) (rule : String)
  /-- The source files cannot be listed. -/
  | notListed (reason : Discover.Error)
  /-- A file cannot be read. -/
  | unreadable (path : Path) (reason : FileError)
  /-- The fixed tree of a source file is no program. -/
  | notFormatted (path : Path) (reason : RenderError)
  /-- A file holds no tree. -/
  | treeMalformed (path : Path)
  /-- The tree in a file is no program. -/
  | notGenerated (path : Path) (reason : RenderError)
  /-- A result cannot be written. -/
  | unwritable (path : Path) (reason : FileError)
  /-- There is already a configuration file. -/
  | configExists (path : Path)
  /-- The configuration file cannot be written. -/
  | configUnwritable (reason : FileError)
  deriving DecidableEq, Repr

/-- The reasons of a failure in words, the outermost first. -/
def Failure.chain : Failure → List String
  | .noConfig => ["No configuration found. Run `astfix init` to create astfix.toml."]
  | .configUnreadable path reason =>
    ["Failed to load " ++ path,
      "Failed to read config file " ++ path ++ ": " ++ reason.message, reason.message]
  | .configMalformed path => ["Failed to load " ++ path, ConfigError.parse.message]
  | .configInvalid path rule =>
    ["Invalid configuration in " ++ path, (ConfigError.unknownRule rule).message]
  | .notListed reason => [reason.message]
  | .unreadable path reason => ["Failed to read " ++ path, reason.message]
  | .notFormatted path reason => ["Failed to regenerate " ++ path, reason.message]
  | .treeMalformed path => ["Failed to generate code from " ++ path, "Invalid tree JSON"]
  | .notGenerated path reason => ["Failed to generate code from " ++ path, reason.message]
  | .unwritable path reason => ["Failed to write " ++ path, reason.message]
  | .configExists path =>
    ["Configuration file already exists at " ++ path ++ ". Use --force to overwrite."]
  | .configUnwritable reason => [reason.message]

/-- A task: it logs what it does and may fail. -/
abbrev Task := Traced Log.Line Failure

/-- The outcome of a step whose error becomes a failure. -/
def Task.orFail {ε α : Type} (x : Except ε α) (failure : ε → Failure) : Task α :=
  Traced.ofExcept (x.mapError failure)

namespace World

/-- The text of the file with a path. -/
def read (w : World) (p : Path) : Task String :=
  Task.orFail (w.files.readText w.directory p) (.unreadable p)

/-- The source files below a directory. -/
def discover (w : World) (root : Path) (exclude : List String) :
    Except Discover.Error (List Path) :=
  let userRules := Repository.userRules w.files w.directory w.home w.settingsDirectory
  w.files.discover w.directory userRules root exclude

/-- The warning about a source file that was not fully understood. -/
def syntaxWarnings (p : Path) (t : ParseTree) : Log :=
  if t.hasError then
    [{ level := .warn, message := "source contains syntax errors", file := some p }]
  else []

/-- The tree of a source text that is in the file with a path. -/
def parseFile (w : World) (p : Path) (content : String) : Task Node := do
  let t := w.parser (Dialect.ofPath p) p content
  Traced.recordAll (syntaxWarnings p t)
  pure (ParseTree.lowerProgram content t)

end World

end TreeMend
