import TreeMend.Files.Glob
import TreeMend.Files.Repository
import TreeMend.SourceFile

/-!
# Finding source files

A directory is searched for files with the right extensions, hidden ones included.  Ignore files
are honoured, those of the directories above as well: `.ignore` everywhere, `.gitignore`, the
exclude file of a repository and the rules of its user only inside one, and only up to its root.
Then the exclude patterns are applied, both to the path below the searched directory and to the
path as it was found.

The rules of a file are about the path below its directory.  That path is cut off as text: one
dot in front counts for nothing, and then the path of the directory is taken away where the path
starts with it.

## Main definitions

* `Discover.Layer` — the rules that a directory adds.
* `Discover.relativeTo` — the path that the rules of a directory are about.
* `Discover.Search.isIgnored` — whether the layers pass an entry over.
* `FileStore.discover` — the source files below a directory, in order.
-/

namespace TreeMend

namespace Discover

/-- The rules that a directory adds. -/
structure Layer where
  /-- The path of the directory. -/
  path : Path
  /-- The rules of its `.ignore` file. -/
  ignore : Ignore.Listing
  /-- The rules of its `.gitignore` file. -/
  gitIgnore : Ignore.Listing
  /-- The rules of the exclude file of the repository that it is the root of. -/
  gitExclude : Ignore.Listing
  /-- Whether it is the root of a repository. -/
  hasGit : Bool
  /-- What is wrong with these files, in words. -/
  complaints : List String

/-- The rules that the directory with a path adds, seen from a working directory. -/
def layer (s : FileStore) (directory : Spot) (path : Path) : Layer :=
  let file (name : Path) : Ignore.Listing × List String :=
    let l := Repository.listing s directory name
    (l, l.complaints.map (name ++ ": " ++ ·))
  let (ignore, first) := file (Path.join path ".ignore")
  let (gitIgnore, second) := file (Path.join path ".gitignore")
  let (gitExclude, third) := match Repository.excludeFile s directory path with
    | .ok (some p) => file p
    | .ok none => ({}, [])
    | .error (p, e) => ({}, [p ++ ": " ++ e.message])
  { path, ignore, gitIgnore, gitExclude, hasGit := Repository.isRoot s directory path,
    complaints := first ++ second ++ third }

/-- A path without the dot in front. -/
def withoutDot (p : Path) : Path := Path.dropFront "./" p

/-- Whether a path is another spelling of the working directory. -/
def isHere (p : Path) : Bool := Path.components p == [.current]

/-- The path that the rules of the directory `root` are about. -/
def relativeTo (root p : Path) : Path :=
  let root := withoutDot root
  let p := withoutDot p
  if isHere root || !p.toList.contains '/' || !root.toList.isPrefixOf p.toList then p
  else Path.dropFront "/" (Path.dropFront root p)

/-- What a search is made with. -/
structure Search where
  /-- The files. -/
  files : FileStore
  /-- The working directory. -/
  directory : Spot
  /-- The path of the directory that is searched. -/
  root : Path
  /-- The location of the directory that is searched. -/
  spot : Spot
  /-- The rules of the user for all repositories. -/
  userRules : Ignore.Listing

/-- The absolute path of a location. -/
def absolute (spot : Spot) : Path := "/" ++ "/".intercalate spot

namespace Search

/-- The layers of the directories above the one that is searched, the innermost first. -/
def outer (search : Search) : List Layer :=
  (List.range search.spot.length).reverse.map fun n =>
    layer search.files search.directory (absolute (search.spot.take n))

/-- The absolute path of an entry that was found. -/
def absolutePath (search : Search) (found : Path) : Path :=
  let p := withoutDot found
  Path.join (absolute search.spot)
    (if isHere search.root then p
      else Path.dropFront "/" (Path.dropFront (withoutDot search.root) p))

end Search

/-- The views up to the root of the innermost repository, the innermost first. -/
def withinRepository : List (Layer × Path) → List (Layer × Path)
  | [] => []
  | v :: vs => if v.1.hasGit then [v] else v :: withinRepository vs

/-- What the first of the layers says that says anything, each about its own view of a path. -/
def firstVerdict? (rules : Layer → Ignore.Listing) (views : List (Layer × Path))
    (isDirectory : Bool) : Option Bool :=
  views.findSome? fun (l, p) => (rules l).verdict? (relativeTo l.path p) isDirectory

/-- Whether the layers pass an entry over: `inner` are those of the directories that have been
searched, the innermost first, and `outer` those above them. -/
def Search.isIgnored (search : Search) (inner outer : List Layer) (found : Path)
    (isDirectory : Bool) : Bool :=
  let p := withoutDot found
  let views := inner.map (·, p) ++ outer.map (·, search.absolutePath found)
  -- outside a repository its rules do not count, inside only those up to its root do
  let inside := views.any (·.1.hasGit)
  let inGit := if inside then withinRepository views else []
  let user := if inside then
      search.userRules.verdict? (relativeTo (absolute search.directory) p) isDirectory
    else none
  ((firstVerdict? Layer.ignore views isDirectory).or
    ((firstVerdict? Layer.gitIgnore inGit isDirectory).or
      ((firstVerdict? Layer.gitExclude inGit isDirectory).or user))).getD false

/-- The files below a directory that the layers do not pass over, at most `fuel` levels deep: each
with the path `path` of the directory in front. -/
def Search.below (search : Search) (outer : List Layer) :
    Nat → List Layer → Path → Spot → List Path
  | 0, _, _, _ => []
  | fuel + 1, inner, path, spot =>
    let inner := layer search.files search.directory path :: inner
    (search.files.names spot).flatMap fun name =>
      let found := Path.join path name
      let below := spot ++ [name]
      match search.files.get? below with
      | some (.file _) => if search.isIgnored inner outer found false then [] else [found]
      | some .directory =>
        if search.isIgnored inner outer found true then []
        else search.below outer fuel inner found below
      | none => []

/-- Patterns that are always excluded. -/
def defaultExcludes : List String := ["**/node_modules/**", "**/*.d.ts"]

/-- Whether a path has the extension of a source file. -/
def isSource (p : Path) : Bool := (Path.extension? p).any sourceExtensions.contains

/-- Whether a pattern excludes a file found under a path below `root`. -/
def isExcluded (patterns : List Glob) (root p : Path) : Bool :=
  patterns.any fun g => g.fits ((Path.below? p root).getD p) || g.fits p

/-- Why no search was made. -/
inductive Error where
  /-- An exclude pattern is malformed. -/
  | badPattern (pattern : String)
  /-- The directory cannot be searched. -/
  | unreadable (path : Path) (reason : FileError)
  /-- Ignore files of directories above are malformed. -/
  | badIgnoreFiles (complaints : List String)
  deriving DecidableEq, Repr, Inhabited

/-- The error in words. -/
def Error.message : Error → String
  | .badPattern pattern => "Invalid exclude pattern `" ++ pattern ++ "`"
  | .unreadable path reason =>
    path ++ ": IO error for operation on " ++ path ++ ": " ++ reason.message
  | .badIgnoreFiles complaints => "\n".intercalate complaints

/-- The pattern that a text spells. -/
def pattern (text : String) : Except Error Glob :=
  match Glob.parse? text with
  | some g => .ok g
  | none => .error (.badPattern text)

end Discover

open Discover in
/-- The source files below a directory, in the order of their paths. -/
def FileStore.discover (s : FileStore) (directory : Spot) (userRules : Ignore.Listing)
    (root : Path) (exclude : List String) : Except Discover.Error (List Path) := do
  let patterns ← (defaultExcludes ++ exclude).mapM Discover.pattern
  match s.resolve directory root with
  | .error e => .error (.unreadable root e)
  | .ok spot =>
    let search : Search := { files := s, directory, root, spot, userRules }
    let outer := search.outer
    -- the outermost directory is complained about first
    match outer.reverse.flatMap (·.complaints) with
    | [] =>
      let found := search.below outer (s.entries.length + 1) [] root spot
      let kept := found.filter fun p => isSource p && !isExcluded patterns root p
      pure (kept.mergeSort fun p q => (Path.compare p q).isLE)
    | complaints => .error (.badIgnoreFiles complaints)

end TreeMend
