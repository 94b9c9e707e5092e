import TreeMend.Path

/-!
# Stored files

A file system as far as a run can see it: directories, and files with their bytes, at locations
counted from the root.  A path is resolved from the working directory one component at a time, as
long as each step starts in a directory.

Links, permissions and special files such as devices are left out: a path leads nowhere but to its
own location, whatever is there may be read and written, and a file holds what was written to it.

## Main definitions

* `FileStore` — the directories and files.
* `FileStore.resolve` — the location that a path names.
* `FileStore.readText`, `FileStore.write` — the contents of a file.

## Main results

* `FileStore.get?_set` — setting an entry changes what is at its location and nothing else.
-/

namespace TreeMend

/-- Where an entry is: the names on the way down from the root. -/
abbrev Spot := List String

/-- Why a path could not be used. -/
inductive FileError where
  /-- Nothing is there. -/
  | notFound
  /-- Something on the way is no directory. -/
  | notDirectory
  /-- A directory is there in place of a file. -/
  | isDirectory
  /-- A name in the path, or the whole path, has too many bytes. -/
  | nameTooLong
  /-- The bytes are no text. -/
  | invalidText
  deriving DecidableEq, Repr, Inhabited

/-- The error in words. -/
def FileError.message : FileError → String
  | .notFound => "No such file or directory (os error 2)"
  | .notDirectory => "Not a directory (os error 20)"
  | .isDirectory => "Is a directory (os error 21)"
  | .nameTooLong => "File name too long (os error 36)"
  | .invalidText => "stream did not contain valid UTF-8"

/-- What is at a location. -/
inductive FileStore.Entry where
  /-- A directory. -/
  | directory
  /-- A file with its bytes. -/
  | file (bytes : ByteArray)
  deriving Inhabited

namespace FileStore.Entry

/-- Equality of entries is decidable, byte by byte. -/
def decEq : (a b : Entry) → Decidable (a = b)
  | .directory, .directory => .isTrue rfl
  | .directory, .file _ => .isFalse nofun
  | .file _, .directory => .isFalse nofun
  | .file ⟨x⟩, .file ⟨y⟩ =>
    if h : x = y then .isTrue (by rw [h]) else .isFalse (by intro e; cases e; exact h rfl)

instance : DecidableEq Entry := decEq

end FileStore.Entry

/-- The directories and files that there are, each with its location; the root is always there.
There are no links and no special files, and no file is protected. -/
structure FileStore where
  /-- The entries. -/
  entries : List (Spot × FileStore.Entry) := []
  deriving Inhabited

namespace FileStore

/-- What is at a location. -/
def get? (s : FileStore) (spot : Spot) : Option Entry :=
  if spot.isEmpty then some .directory else s.entries.lookup spot

/-- The entries with the one at a location replaced, or added at the end. -/
def assign (spot : Spot) (e : Entry) : List (Spot × Entry) → List (Spot × Entry)
  | [] => [(spot, e)]
  | f :: fs => if f.1 = spot then (spot, e) :: fs else f :: assign spot e fs

/-- The store with an entry at a location, in place of one that was there. -/
def set (s : FileStore) (spot : Spot) (e : Entry) : FileStore := ⟨assign spot e s.entries⟩

theorem lookup_cons_eq (other spot : Spot) (e : Entry) (fs : List (Spot × Entry)) :
    ((spot, e) :: fs).lookup other = if other = spot then some e else fs.lookup other := by
  by_cases h : other = spot
  · simp [h]
  · simp [List.lookup_cons, beq_eq_false_iff_ne.2 h, h]

theorem lookup_assign (spot other : Spot) (e : Entry) (fs : List (Spot × Entry)) :
    (assign spot e fs).lookup other = if other = spot then some e else fs.lookup other := by
  induction fs with
  | nil => simp [assign, lookup_cons_eq]
  | cons f fs ih =>
    obtain ⟨here, f⟩ := f
    by_cases hf : here = spot
    · by_cases h : other = spot <;> simp [assign, lookup_cons_eq, h, hf]
    · -- the entry in front stays, and its location is not the one that is set
      by_cases h : other = here
      · simp [assign, h, hf]
      · simp [assign, lookup_cons_eq, h, hf, ih]

/-- Setting an entry changes what is at its location and nothing else. -/
theorem get?_set (s : FileStore) {spot : Spot} (h : spot ≠ []) (other : Spot) (e : Entry) :
    (s.set spot e).get? other = if other = spot then some e else s.get? other := by
  cases other with
  | nil => simp [get?, h.symm]
  | cons n ns => simp [get?, set, lookup_assign]

/-- The store with directories on the way from `done` along `names`, where there is nothing. -/
def makeDirectories (s : FileStore) (done : Spot) : List String → FileStore
  | [] => s
  | n :: ns =>
    let spot := done ++ [n]
    let s := if (s.get? spot).isNone then s.set spot .directory else s
    s.makeDirectories spot ns

/-- The store with an entry and the directories on the way to it. -/
def add (s : FileStore) (spot : Spot) (e : Entry) : FileStore :=
  (s.makeDirectories [] spot.dropLast).set spot e

/-- The names of the entries of a directory. -/
def names (s : FileStore) (spot : Spot) : List String :=
  s.entries.filterMap fun e => if e.1.dropLast == spot then e.1.getLast? else none

/-! ### Paths -/

/-- The greatest number of bytes of a name. -/
def nameLimit : Nat := 255

/-- The greatest number of bytes of a path. -/
def pathLimit : Nat := 4095

/-- The location that one component leads to. -/
def step (s : FileStore) (spot : Spot) : Path.Component → Except FileError Spot
  | .root => .ok []
  | .current => .ok spot
  | c =>
    match s.get? spot with
    | some .directory =>
      match c with
      | .entry name =>
        if nameLimit < name.utf8ByteSize then .error .nameTooLong
        else if (s.get? (spot ++ [name])).isSome then .ok (spot ++ [name])
        else .error .notFound
      | _ => .ok spot.dropLast
    | some (.file _) => .error .notDirectory
    | none => .error .notFound

/-- The location that components lead to. -/
def follow (s : FileStore) (spot : Spot) (cs : List Path.Component) : Except FileError Spot :=
  cs.foldlM s.step spot

/-- Whether the spelling of a path asks for a directory. -/
def asksForDirectory (p : Path) : Bool :=
  match p.toList.reverse with
  | '/' :: _ => true
  | '.' :: '/' :: _ => true
  | _ => false

/-- The location that a path names, seen from a working directory. -/
def resolve (s : FileStore) (directory : Spot) (p : Path) : Except FileError Spot := do
  if pathLimit < p.utf8ByteSize then .error .nameTooLong
  else
    let spot ← s.follow directory (Path.components p)
    match s.get? spot with
    | some (.file _) => if asksForDirectory p then .error .notDirectory else pure spot
    | _ => pure spot

/-- What a path names. -/
def lookup? (s : FileStore) (directory : Spot) (p : Path) : Option Entry :=
  match s.resolve directory p with
  | .ok spot => s.get? spot
  | .error _ => none

/-- Whether a path names a directory. -/
def isDirectory (s : FileStore) (directory : Spot) (p : Path) : Bool :=
  match s.lookup? directory p with
  | some .directory => true
  | _ => false

/-- Whether a path names a file. -/
def isFile (s : FileStore) (directory : Spot) (p : Path) : Bool :=
  match s.lookup? directory p with
  | some (.file _) => true
  | _ => false

/-! ### Contents -/

/-- The bytes of the file that a path names. -/
def readBytes (s : FileStore) (directory : Spot) (p : Path) : Except FileError ByteArray := do
  let spot ← s.resolve directory p
  match s.get? spot with
  | some (.file bytes) => pure bytes
  | some .directory => .error .isDirectory
  | none => .error .notFound

/-- The text of the file that a path names. -/
def readText (s : FileStore) (directory : Spot) (p : Path) : Except FileError String := do
  let bytes ← s.readBytes directory p
  match String.fromUTF8? bytes with
  | some text => pure text
  | none => .error .invalidText

/-- Whether a path ends with a name and a separator after it. -/
def endsWithSeparator (p : Path) : Bool :=
  match p.toList.reverse with
  | '/' :: cs =>
    match cs.dropWhile (· == '/') with
    | ['.'] => false
    | '.' :: '/' :: _ => false
    | _ => true
  | _ => false

/-- The location of the name `name` in the directory that components lead to. -/
def childSpot (s : FileStore) (directory : Spot) (parents : List Path.Component) (name : String) :
    Except FileError Spot := do
  let parent ← s.follow directory parents
  match s.get? parent with
  | some .directory => pure (parent ++ [name])
  | some (.file _) => .error .notDirectory
  | none => .error .notFound

/-- The location that a file gets when it is written under a path: its directory has to be there,
no directory may be in its place, and the path must not end with a separator. -/
def writeSpot (s : FileStore) (directory : Spot) (p : Path) : Except FileError Spot := do
  let cs := Path.components p
  match cs.getLast?, s.resolve directory p with
  | some (.entry name), found =>
    if pathLimit < p.utf8ByteSize then .error .nameTooLong
    let spot ← s.childSpot directory cs.dropLast name
    if endsWithSeparator p then .error .isDirectory
    else match found with
      | .error .notFound => if asksForDirectory p then .error .notFound else pure spot
      | .error e => .error e
      | .ok spot =>
        match s.get? spot with
        | some (.file _) => pure spot
        | _ => .error .isDirectory
  | _, .error e => .error e
  | _, .ok _ => .error .isDirectory

/-- The store after a text is written under a path. -/
def write (s : FileStore) (directory : Spot) (p : Path) (text : String) :
    Except FileError FileStore := do
  let spot ← s.writeSpot directory p
  pure (s.set spot (.file text.toUTF8))

end FileStore

end TreeMend
