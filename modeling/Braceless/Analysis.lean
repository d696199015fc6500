import Braceless.Parser
import Braceless.Rendering
import Braceless.Token.Lexer

/-!
# The analysis of a text

All that is known about a text at once: its tokens, its program, its output, and what is wrong with it.

## Main definitions

* `analyze`: the analysis of a text.
* `Diagnostic`, `Analysis.diagnostics`: everything that is wrong, in the order of the text.
-/

namespace Braceless

/-- All that is known about a text. -/
structure Analysis where
  /-- Whether nothing is wrong. -/
  success : Bool
  tokens : List Token
  lexicalErrors : List LexicalError
  syntaxErrors : List SyntaxError
  declarations : Declarations
  program : Program
  /-- The output, which is there even if something is wrong. -/
  python : String
deriving Repr

/-- The analysis of a text, with its output in the given layout. -/
def analyze (source : String) (layout : Layout) : Analysis :=
  let lexed := lex source
  let parsed := parse lexed.tokens
  { success := lexed.errors.isEmpty && parsed.errors.isEmpty
    tokens := lexed.tokens
    lexicalErrors := lexed.errors
    syntaxErrors := parsed.errors
    declarations := parsed.declarations
    program := parsed.program
    python := parsed.program.render lexed.tokens layout }

/-- Something that is wrong with a text. -/
inductive Diagnostic where
  | lexical (e : LexicalError)
  | syntactic (e : SyntaxError)
deriving DecidableEq, Repr

namespace Diagnostic

/-- Where it was found. -/
def pos : Diagnostic → Position
  | lexical e => e.pos
  | syntactic e => e.pos

/-- A diagnostic in prose. -/
def message : Diagnostic → String
  | lexical e => "lexical error: " ++ e.message
  | syntactic e => "syntax error: " ++ e.message

end Diagnostic

/-- Everything that is wrong, in the order of the text; at one place, lexical errors come first. -/
def Analysis.diagnostics (a : Analysis) : List Diagnostic :=
  (a.lexicalErrors.map Diagnostic.lexical ++ a.syntaxErrors.map Diagnostic.syntactic).mergeSort
    fun x y => decide (x.pos ≤ y.pos)

end Braceless
