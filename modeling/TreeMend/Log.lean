/-!
# Log lines

A run of a stage tells what it did as a list of lines, oldest first, each with a level.  A line is
shown on a terminal, so characters of its message that would steer the terminal are spelled out.

## Main definitions

* `Log.Level`, `Log.Line`, `Log` — levels, lines and logs.
* `Log.messages`, `Log.count` — the messages of one level and their number.
* `Log.Line.shown` — a line as it is shown.
-/

namespace TreeMend

/-- How much a log line matters, the least first. -/
inductive Log.Level where
  /-- Traces of a traversal. -/
  | debug
  /-- What was done. -/
  | info
  /-- What might be wrong. -/
  | warn
  /-- What is wrong. -/
  | error
  deriving DecidableEq, Repr, Inhabited

/-- The name of a level. -/
def Log.Level.label : Log.Level → String
  | .debug => "DEBUG"
  | .info => "INFO"
  | .warn => "WARN"
  | .error => "ERROR"

/-- The level of a name. -/
def Log.Level.ofLabel? : String → Option Log.Level
  | "DEBUG" => some .debug
  | "INFO" => some .info
  | "WARN" => some .warn
  | "ERROR" => some .error
  | _ => none

/-- A line of a log. -/
structure Log.Line where
  /-- How much the line matters. -/
  level : Log.Level
  /-- What the line says. -/
  message : String
  /-- The file that the line is about, if the message does not name it. -/
  file : Option String := none
  deriving DecidableEq, Repr, Inhabited

/-- The lines of a log, oldest first. -/
abbrev Log := List Log.Line

namespace Log

/-- The messages of one level, oldest first. -/
def messages (log : Log) (level : Level) : List String :=
  (log.filter (·.level == level)).map (·.message)

/-- The number of lines of one level. -/
def count (log : Log) (level : Level) : Nat :=
  (log.filter (·.level == level)).length

/-- The line of a level that says `message`. -/
def line (level : Level) (message : String) : Line := { level, message }

/-! ### Lines as they are shown -/

/-- Whether a character is one of those of the first 128 that steer a terminal. -/
def steers (c : Char) : Bool := [0x07, 0x08, 0x0C, 0x1B, 0x7F].contains c.toNat

/-- A character of a message as it is shown. -/
def shownChar (c : Char) : List Char :=
  let digits := Nat.toDigits 16 c.toNat
  if steers c then ['\\', 'x'] ++ List.replicate (2 - digits.length) '0' ++ digits
  else if 0x80 ≤ c.toNat && c.toNat < 0xA0 then ['\\', 'u', '\x7b'] ++ digits ++ ['\x7d']
  else [c]

/-- A line as it is shown; the name of a file stands behind the message, as it is. -/
def Line.shown (l : Line) : String :=
  String.ofList (l.message.toList.flatMap shownChar) ++
    match l.file with
    | some p => " file=" ++ p
    | none => ""

end Log

end TreeMend
