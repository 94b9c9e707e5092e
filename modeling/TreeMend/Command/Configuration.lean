import TreeMend.Command.Basic
import TreeMend.Config.Json
import TreeMend.Config.Toml
import TreeMend.Rule.Catalog
import TreeMend.World

/-!
# Finding the configuration

A configuration file named by the call is used as it is.  Otherwise the directory of the sources
is searched for one of three names, and after that the directory of the global configuration.

## Main definitions

* `World.findConfig` — where the configuration is.
* `World.loadConfig` — the configuration.
* `World.projectDirectory` — the directory that a path is in.
-/

namespace TreeMend

/-- The names of a configuration file in the directory of the sources, in the order in which they
are looked for. -/
def projectConfigNames : List Path := ["astfix.toml", ".astfix.toml", "config.json"]

/-- The verbosity that the settings ask for, or else the given one. -/
def Settings.verbosity (s : Settings) (v : Verbosity) : Verbosity := if s.debug then .debug else v

namespace World

/-- Whether a path names anything. -/
def hasPath (w : World) (p : Path) : Bool := (w.files.lookup? w.directory p).isSome

/-- The directory that a path is in; a directory is in itself. -/
def projectDirectory (w : World) (p : Path) : Path :=
  if w.files.isDirectory w.directory p then p
  else match Path.parent? p with
    | some parent => if parent == "" then "." else parent
    | none => "."

/-- The path of the global configuration file. -/
def globalConfig? (w : World) : Option Path :=
  (w.configDirectory.or (w.home.map (Path.join · ".astfix"))).map (Path.join · "config.toml")

/-- The path of the configuration file for sources in a directory. -/
def findConfig (w : World) (settings : Settings) (project : Path) : Task Path :=
  match settings.config with
  | some p => pure p
  | none =>
    match (projectConfigNames.map (Path.join project)).find? w.hasPath with
    | some p => do
      Traced.record (Log.line .debug ("Found project config: " ++ p))
      pure p
    | none =>
      match w.globalConfig?.filter w.hasPath with
      | some p => do
        Traced.record (Log.line .debug ("Found global config: " ++ p))
        Traced.record (Log.line .info ("Using global config: " ++ p))
        pure p
      | none => Traced.fail .noConfig

/-- The failure for a configuration in the file with a path that is refused. -/
def configFailure (p : Path) : ConfigError → Failure
  | .parse => .configMalformed p
  | .unknownRule name => .configInvalid p name

/-- The configuration that is stored in the file with a path: the extension tells the format. -/
def readConfig (w : World) (p : Path) : Task Config := do
  let content ← Task.orFail (w.files.readText w.directory p) (.configUnreadable p)
  let parse := if Path.extension? p == some "json" then Config.parseJson else Config.parseToml
  let config ← Task.orFail (parse content) (configFailure p)
  Task.orFail (config.validate Catalog.names) (configFailure p)
  pure config

/-- The configuration for sources in a directory. -/
def loadConfig (w : World) (settings : Settings) (project : Path) : Task Config := do
  let p ← w.findConfig settings project
  let config ← w.readConfig p
  pure { config with verbosity := settings.verbosity config.verbosity }

end World

end TreeMend
