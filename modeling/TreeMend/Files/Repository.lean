import TreeMend.Files.Ignore
import TreeMend.Files.Store

/-!
# Repositories

A directory is the root of a repository if it holds the data of one, or a file that tells where
they are.  A repository brings rules of its own about what is passed over, and its user may have
further ones for all repositories, in a file that the settings name or in the usual place.

## Main definitions

* `Repository.isRoot` — whether a directory is the root of a repository.
* `Repository.excludeFile` — where the rules of a repository are.
* `Repository.excludesSetting?` — the file that a text of settings names.
* `Repository.userRules` — the rules of a user for all repositories.
-/

namespace TreeMend.Repository

/-- The rules in the file with a path, seen from a working directory; none if there is no such
file. -/
def listing (s : FileStore) (directory : Spot) (p : Path) : Ignore.Listing :=
  match s.readBytes directory p with
  | .ok content => Ignore.parse content
  | .error _ => {}

/-- Whether the directory with a path is the root of a repository. -/
def isRoot (s : FileStore) (directory : Spot) (path : Path) : Bool :=
  [".git", ".jj"].any fun name => (s.lookup? directory (Path.join path name)).isSome

/-! ### The rules of a repository -/

/-- The first line of a file; `none` if the file is empty. -/
def firstLine? (content : ByteArray) : Except FileError (Option String) :=
  match Text.lines content.data.toList with
  | [] => .ok none
  | line :: _ =>
    match Text.ofBytes? line with
    | some text => .ok (some text)
    | none => .error .invalidText

/-- The directory with the data that is named in the file `commondir` of a directory: a path that
starts with a dot is seen from there, others from the working directory. -/
def commonDirectory (s : FileStore) (directory : Spot) (data : Path) :
    Except (Path × FileError) (Option Path) :=
  let file := Path.join data "commondir"
  match s.readBytes directory file with
  | .error .isDirectory => .error (file, .isDirectory)
  | .error _ => .ok none
  | .ok content =>
    match firstLine? content with
    | .error e => .error (file, e)
    | .ok none => .ok none
    | .ok (some line) =>
      .ok (some (if line.toList.head? == some '.' then Path.join data line else line))

/-- The text behind `label` in a line that starts with it. -/
def behind? (label line : String) : Option String :=
  if label.toList.isPrefixOf line.toList then
    some (String.ofList (line.toList.drop label.length))
  else none

/-- The file with the rules of the repository whose root has a path; `none` if it cannot be
found. -/
def excludeFile (s : FileStore) (directory : Spot) (root : Path) :
    Except (Path × FileError) (Option Path) :=
  let git := Path.join root ".git"
  let inside := (·.map (Path.join · "info/exclude"))
  match s.lookup? directory git with
  | some (.file content) =>
    match firstLine? content with
    | .error e => .error (git, e)
    | .ok line =>
      match line.bind (behind? "gitdir: ") with
      | none => .ok none
      | some data => (commonDirectory s directory data).map inside
  | _ => .ok (inside (some git))

/-! ### The rules of a user -/

/-- Whether a byte is a blank. -/
def isSpace (b : UInt8) : Bool := b == 0x20 || (0x09 ≤ b && b ≤ 0x0D)

/-- The byte of a double quote. -/
def quote : UInt8 := 0x22

/-- Whether only blanks come before the end of the line. -/
def lineIsOver : List UInt8 → Bool
  | [] => true
  | b :: bs => b == 0x0A || (isSpace b && lineIsOver bs)

/-- The word at the start of a text, behind blanks, if the line ends behind it; a quote behind it
does not belong to it. -/
def word? (bs : List UInt8) : Option (List UInt8) :=
  match (bs.dropWhile isSpace).span (!isSpace ·) with
  | ([], _) => none
  | (word, rest) =>
    if lineIsOver rest then
      if 1 < word.length && word.getLast? == some quote then some word.dropLast else some word
    else match rest.dropWhile isSpace with
      | b :: more => if b == quote && lineIsOver more then some word else none
      | [] => none

/-- The name of the setting, in lower case. -/
def settingName : List UInt8 := Ignore.bytes "excludesfile".toList

/-- A byte with capital letters in lower case. -/
def lower (b : UInt8) : UInt8 := if 0x41 ≤ b && b ≤ 0x5A then b + 0x20 else b

/-- The value of the setting at the start of a text.  A quote in front of the value does not
belong to it, unless there is no value without it. -/
def settingAt? (bs : List UInt8) : Option (List UInt8) :=
  let bs := bs.dropWhile isSpace
  if (bs.take settingName.length).map lower == settingName then
    match (bs.drop settingName.length).dropWhile isSpace with
    | 0x3D :: rest =>
      let rest := rest.dropWhile isSpace
      if rest.head? == some quote then (word? rest.tail).or (word? rest) else word? rest
    | _ => none
  else none

/-- The rests of a text behind its line feeds. -/
def laterLines : List UInt8 → List (List UInt8)
  | [] => []
  | b :: bs => if b == 0x0A then bs :: laterLines bs else laterLines bs

/-- The file that a text of settings names: the value of the setting on the first line that has
one. -/
def excludesSetting? (content : ByteArray) : Option String :=
  let bs := content.data.toList
  ((bs :: laterLines bs).findSome? settingAt?).bind Text.ofBytes?

/-- A path in which tildes stand for the home directory. -/
def expandTilde (home : Option Path) (p : Path) : Path :=
  match home with
  | none => p
  | some home => String.ofList (p.toList.flatMap fun c => if c = '~' then home.toList else [c])

/-- The file with the rules of a user for all repositories: the one that the settings in the home
directory name, or else those in the directory for settings, or else the usual one. -/
def userFile? (s : FileStore) (directory : Spot) (home settings : Option Path) : Option Path :=
  let settings := settings.or (home.map (Path.join · ".config"))
  let setting (file : Option Path) :=
    (file.bind fun p => (s.readBytes directory p).toOption).bind excludesSetting?
  let named := (setting (home.map (Path.join · ".gitconfig"))).or
    (setting (settings.map (Path.join · "git/config")))
  (named.map (expandTilde home)).or (settings.map (Path.join · "git/ignore"))

/-- The rules of a user for all repositories. -/
def userRules (s : FileStore) (directory : Spot) (home settings : Option Path) : Ignore.Listing :=
  match userFile? s directory home settings with
  | some p => listing s directory p
  | none => {}

end TreeMend.Repository
