import TreeMend.Fix
import TreeMend.Rule.Catalog
import TreeMend.Tree.Json
import TreeMend.World

/-!
# Writing source texts

A source text is parsed, fixed and rendered again; a tree that was stored is rendered as it is.
Nothing is rendered in part: where some construct has no text there is no result.

## Main definitions

* `Format.renderTree` — the text of a tree, with a line in the log for each node if asked for.
* `Format.fixed` — the text of a tree after a pass of the fixes.
* `Format.run` — the formatted text of a source file.
* `Generate.run` — the text of a stored tree.
-/

namespace TreeMend

namespace Format

/-- The text of a tree, read at a verbosity. -/
def renderTree (verbosity : Verbosity) (n : Node) (nl : NewLine := .lineFeed) :
    Traced Log.Line RenderError String :=
  (n.render nl).run verbosity

/-- The text of a tree after a pass of the fixes. -/
def fixed (config : Config) (p : Path) (n : Node) : Traced Log.Line RenderError String := do
  let pass := Fix.pass config Catalog.fixes n [] 0
  Traced.recordAll pass.log
  Traced.record (Log.line .debug ("Applied " ++ toString pass.applied ++ " fixes to " ++ p))
  renderTree config.verbosity pass.tree

/-- The formatted text of a source text that is in the file with a path. -/
def run (w : World) (config : Config) (p : Path) (content : String) : Task String := do
  let tree ← w.parseFile p content
  (fixed config p tree).mapError (.notFormatted p)

end Format

namespace Generate

/-- Why a stored tree has no text. -/
inductive Error where
  /-- There is no tree. -/
  | malformed
  /-- The tree is no program. -/
  | notRendered (reason : RenderError)
  deriving DecidableEq, Repr

/-- The text of the tree that is stored as JSON. -/
def run (verbosity : Verbosity) (stored : String) : Traced Log.Line Error String :=
  match Node.parseJson? stored with
  | none => Traced.fail .malformed
  | some n => (Format.renderTree verbosity n).mapError .notRendered

end Generate

end TreeMend
