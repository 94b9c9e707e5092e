import TreeMend.Rule.Basic
import TreeMend.Text.Blank

/-!
# Strings stand in single quotes

A string literal in double quotes gets single ones; apostrophes inside it are escaped, and escape
sequences stay as they are.

## Main definitions

* `Quotes.escapeApostrophes` — the text between the new quotes.
* `Quotes.rule` — the rule.
-/

namespace TreeMend.Quotes

/-- The text with each apostrophe escaped that is not part of an escape sequence. -/
def escapeApostrophes : List Char → List Char
  | [] => []
  | ['\\'] => ['\\']
  | '\\' :: c :: cs => '\\' :: c :: escapeApostrophes cs
  | c :: cs => if c = '\'' then '\\' :: '\'' :: escapeApostrophes cs else c :: escapeApostrophes cs

/-- The text between two double quotes; blanks around them do not count. -/
def doubleQuoted? (text : String) : Option (List Char) :=
  match Text.trim text.toList with
  | '"' :: rest => if rest.getLast? = some '"' then some rest.dropLast else none
  | _ => none

/-- The new text of a node. -/
def replacement (n : Node) : Option String :=
  if n.kind == Kind.stringLiteral then
    (doubleQuoted? n.text).map fun body =>
      String.ofList ('\'' :: escapeApostrophes body ++ ['\''])
  else none

/-- Strings stand in single quotes. -/
def rule : FixRule where
  name := "double-quotes"
  code := "TS102"
  description := "Rewrites double-quoted string literals to single quotes"
  message := "Converted double quotes to single quotes"
  replacement := fun _ _ n => replacement n

end TreeMend.Quotes
