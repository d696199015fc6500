import Braceless.Parser
import Braceless.Rendering
import Braceless.Token.Lexer

/-!
# Workspaces

A program under construction, with the tokens that its comments come from and the layout of its output.

## Main definitions

* `Workspace`: the three parts.
* `Workspace.readText`, `Workspace.reparse`, `Workspace.append`: ways to change it.
* `Workspace.text`: its output.
-/

namespace Braceless

/-- A program under construction. -/
structure Workspace where
  program : Program
  tokens : List Token
  layout : Layout
deriving Repr

namespace Workspace

/-- The empty program without tokens, in the usual layout. -/
def empty : Workspace :=
  ⟨default, [], default⟩

/-- Takes the tokens of a text. -/
def readText (w : Workspace) (source : String) : Workspace :=
  { w with tokens := (lex source).tokens }

/-- Takes the program of the tokens, in place of the one under construction. -/
def reparse (w : Workspace) : Workspace :=
  { w with program := (parse w.tokens).program }

/-- Appends a statement to the program. -/
def append (w : Workspace) (s : Stmt) : Workspace :=
  { w with program := w.program.append s }

/-- The output. -/
def text (w : Workspace) : String :=
  w.program.render w.tokens w.layout

end Workspace

end Braceless
