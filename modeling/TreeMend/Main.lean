import TreeMend.Command.Run
import TreeMend.ParseTree.Json

/-!
# The program

Loads the files that a call may be about, carries the call out, and puts the outcome into effect.
The parse tree of a source file is expected next to it, as a JSON listing in the file with
`.tree.json` after its name; a source file without one counts as not understood.

## Main definitions

* `Main.parserOf` — the parser that looks listings up.
* `Main.loadWorld` — the surroundings of the process.
* `main` — the program.
-/

namespace TreeMend.Main

/-- The names on the way down to an absolute path. -/
def spotOf (path : String) : Spot :=
  (path.splitOn "/").foldl (fun spot name =>
    if name == "" || name == "." then spot
    else if name == ".." then spot.dropLast
    else spot ++ [name]) []

/-- The tree of a source text that was not understood at all. -/
def unparsed (source : String) : ParseTree :=
  ⟨{ kind := "ERROR", error := true, start := 0, stop := source.utf8ByteSize }, []⟩

/-- The parser that looks for the listing next to a source file. -/
def parserOf (files : FileStore) (directory : Spot) : Parser := fun _ p source =>
  match files.readText directory (p ++ ".tree.json") with
  | .ok listing => ((Json.parse? listing).bind ParseTree.ofJson?).getD (unparsed source)
  | .error _ => unparsed source

/-- The store with the file at an absolute path, if it can be read. -/
def addFile (path : String) (s : FileStore) : IO FileStore := do
  try
    let bytes ← IO.FS.readBinFile path
    pure (s.add (spotOf path) (.file bytes))
  catch _ => pure s

/-- The store with an entry of a directory and all that is below it. -/
partial def addEntry (entry : IO.FS.DirEntry) (s : FileStore) : IO FileStore := do
  let path := entry.path
  if ← path.isDir then
    let inner ← path.readDir
    inner.foldlM (fun s e => addEntry e s) (s.add (spotOf path.toString) .directory)
  else addFile path.toString s

/-- The store with what the words of a call name, seen from the working directory. -/
def addNamed (words : List String) (s : FileStore) : IO FileStore := do
  let here ← IO.currentDir
  words.foldlM (fun s word => addEntry ⟨here, word⟩ s) s

/-- The store with what is at an absolute path, without what is below it. -/
def addPlace (path : String) (s : FileStore) : IO FileStore := do
  if ← (⟨"", path⟩ : IO.FS.DirEntry).path.isDir then pure (s.add (spotOf path) .directory)
  else addFile path s

/-- The places that tell which rules count below the directories above a location. -/
def placesAbove (spot : Spot) : List String :=
  (List.range spot.length).flatMap fun n =>
    [".ignore", ".gitignore", ".git", ".git/info/exclude", ".jj"].map fun name =>
      Path.join (Discover.absolute (spot.take n)) name

/-- The store with the rules of the user for all repositories and the settings that name them. -/
def addUserRules (directory : Spot) (home settings : Option Path) (s : FileStore) :
    IO FileStore := do
  let config := settings.or (home.map (Path.join · ".config"))
  let named := (home.map (Path.join · ".gitconfig")).toList ++
    (config.map (Path.join · "git/config")).toList
  let s ← named.foldlM (fun s p => addFile p s) s
  match Repository.userFile? s directory home settings with
  | some p => addFile (Path.join (Discover.absolute directory) p) s
  | none => pure s

/-- The surroundings of the process. -/
def loadWorld (words : List String) : IO World := do
  let directory := spotOf (← IO.currentDir).toString
  let home ← IO.getEnv "HOME"
  let settingsDirectory := (← IO.getEnv "XDG_CONFIG_HOME").filter (· != "")
  let configFile ← IO.getEnv "ASTFIX_CONFIG"
  let configDirectory ← IO.getEnv "ASTFIX_CONFIG_DIR"
  let above ← (placesAbove directory).foldlM (fun s p => addPlace p s)
    (({} : FileStore).add directory .directory)
  let above ← addUserRules directory home settingsDirectory above
  let globals := configFile.toList ++ configDirectory.toList ++
    (home.map (Path.join · ".astfix")).toList
  let files ← addNamed ("." :: globals ++ words) above
  pure { files, directory, home, settingsDirectory, configFile, configDirectory,
         parser := parserOf files directory }

/-- Write the files that a run has changed. -/
def store (before after : FileStore) : IO Unit :=
  after.entries.forM fun (spot, e) =>
    match e with
    | .file bytes =>
      if before.get? spot = some e then pure ()
      else IO.FS.writeBinFile (Discover.absolute spot) bytes
    | .directory => pure ()

/-- Print a text, and tell whether standard output has taken it. -/
def printed (text : String) : IO Bool := do
  try
    IO.print text
    (← IO.getStdout).flush
    pure true
  catch _ => pure false

/-- The lines that tell why a run failed. -/
def failureLines : List String → List String
  | [] => []
  | outer :: inner =>
    ["Error: " ++ outer] ++
      (if inner.isEmpty then [] else ["", "Caused by:"] ++ inner.map ("    " ++ ·))

end TreeMend.Main

open TreeMend in
/-- The program. -/
def main (words : List String) : IO UInt32 := do
  let w ← Main.loadWorld words
  let o := w.run words
  Main.store w.files o.files
  -- a run whose output is not taken has the same files, but may end otherwise
  let o := if ← Main.printed o.output then o else { w with takes := fun _ => false }.run words
  o.log.forM fun line => IO.eprintln (line.level.label ++ " " ++ line.shown)
  (Main.failureLines o.chain).forM fun line => IO.eprintln line
  pure o.exit.toUInt32
