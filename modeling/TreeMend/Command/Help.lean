import TreeMend.Command.Basic

/-!
# Help texts

How the program and its commands are called, put together from the forms of the commands.

## Main definitions

* `Command.helpLines` — the lines of a help text.
-/

namespace TreeMend.Command

/-- The line of an option. -/
def optionLine (o : Arguments.Opt) : String :=
  let letter := match o.letter with
    | some c => "-" ++ String.singleton c ++ ", "
    | none => "    "
  "  " ++ letter ++ "--" ++ o.name ++ (if o.takesValue then " <" ++ o.name.toUpper ++ ">" else "")

/-- The line of a command. -/
def formLine (f : Form) : String :=
  "  " ++ f.name ++ String.ofList (List.replicate (12 - f.name.length) ' ') ++ f.about

/-- How the program, or one of its commands, is called. -/
def helpLines : Option Form → List String
  | none =>
    ["Usage: astfix [OPTIONS] <COMMAND>", "", "Commands:"] ++ forms.map formLine ++
      ["", "Options:"] ++ rootOptions.map optionLine
  | some f =>
    [f.about, "", " ".intercalate (["Usage: astfix", f.name, "[OPTIONS]"] ++ f.words), "",
      "Options:"] ++ (f.options ++ sharedOptions).map optionLine

end TreeMend.Command
