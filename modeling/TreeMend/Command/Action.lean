import TreeMend.World

/-!
# Steps of a command

A command goes step by step: it looks at the world, writes files, and prints.  What a step has done
stays done if a later one does not succeed: a file that was written is written, and what was
printed is printed.

Standard output may take no more, because a device is full or because nobody reads it any longer;
then the program breaks off.  Lines of the log go elsewhere and are always taken.

## Main definitions

* `Situation` — the world and what is printed and logged, in the middle of a command.
* `Interruption` — why a command does not get to its end.
* `Action`, with `Action.look`, `Action.write` and `Action.print` — a part of a command.
-/

namespace TreeMend

/-- How things stand in the middle of a command. -/
structure Situation where
  /-- The world as it is now. -/
  world : World
  /-- What is printed. -/
  output : String := ""
  /-- What is logged. -/
  log : Log := []

/-- Why a command does not get to its end. -/
inductive Interruption where
  /-- It fails and tells why. -/
  | failed (failure : Failure)
  /-- It breaks off, since standard output does not take what it prints. -/
  | unprinted
  deriving DecidableEq, Repr

/-- A part of a command.  The situation that it leaves is there also if it is interrupted. -/
abbrev Action := EStateM Interruption Situation

namespace Action

variable {α : Type}

/-- Carry out a task in the world as it is now. -/
def look (task : World → Task α) : Action α := fun s =>
  let found := task s.world
  let s := { s with log := s.log ++ found.trace }
  match found.outcome with
  | .ok a => .ok a s
  | .error failure => .error (.failed failure) s

/-- Write a text to the file with a path. -/
def write (p : Path) (text : String) (failure : FileError → Failure) : Action Unit := fun s =>
  match s.world.files.write s.world.directory p text with
  | .ok files => .ok () { s with world := { s.world with files } }
  | .error reason => .error (.failed (failure reason)) s

/-- Print a text.  One that is not taken does not count as printed, although a part of it may have
gone out. -/
def print (text : String) : Action Unit := fun s =>
  let output := s.output ++ text
  if s.world.takes output then .ok () { s with output } else .error .unprinted s

/-- Print lines one after the other. -/
def printLines : List String → Action Unit
  | [] => pure ()
  | line :: lines => do
    print (line ++ "\n")
    printLines lines

end Action

end TreeMend
