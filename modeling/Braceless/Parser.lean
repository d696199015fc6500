import Braceless.Parser.Statement

/-!
# Parsing programs

A program is a class around an entry procedure, or a bare run of statements.  Parsing never fails: it gives a
tree, the errors in the order in which they were found, and the table of declared variables.

## Main definitions

* `parse`: the program of a token list.
-/

namespace Braceless

/-- What comes out of a token list. -/
structure Parsed where
  program : Program
  errors : List SyntaxError
  declarations : Declarations
deriving Repr

namespace Parser

/-- The entry procedure: the name of its parameter and its body. -/
def entryProcedure (room : Nat) : Parse (String × List Stmt) := do
  expectWord "public" "'public' before main method"
  expectWord "static" "'static' in main method"
  expectWord "void" "'void' in main method"
  expectWord "main" "'main' as method name"
  discard (expect .lParen "'(' after 'main'")
  expectWord "String" "'String' in main parameters"
  discard (expect .lBracket "'[' after 'String'")
  discard (expect .rBracket "']' after '['")
  let param ← expect .identifier "parameter name"
  discard (expect .rParen "')' after main parameters")
  let body ← block room "'\x7b' to open main body" "'\x7d' to close main body"
  return ((param.map (·.text)).getD "args", body)

/-- Reports a token that stands where the input should end. -/
def checkEnd : Parse Unit := do
  unless ← isAt .eof do
    report .trailingInput

/-- A class around its entry procedure, and nothing after it. -/
def classForm (room : Nat) : Parse Program := do
  expectWord "public" "'public' at start of class"
  expectWord "class" "'class' after 'public'"
  let name ← expect .identifier "class name"
  discard (expect .lBrace "'\x7b' after class name")
  let entry ← entryProcedure room
  discard (expect .rBrace "'\x7d' at end of class")
  checkEnd
  return ⟨(name.map (·.text)).getD "Main", entry.1, entry.2⟩

/-- A statement of a bare run.  A closing brace has nothing to close there: it is reported and dropped. -/
def scriptItem (room : Nat) : Parse (Option Stmt) := do
  if ← isAt .rBrace then
    report .unrecognizedStatement
    advance
    return none
  else
    orDrop (statement room)

/-- A bare run of statements up to the end. -/
def scriptForm (room : Nat) : Parse Program := do
  let s ← get
  let body ← repeatUntil (·.kind == .eof) (scriptItem room) s.rest.length
  return { (default : Program) with body := body }

/-- A program in either form; without tokens, the empty one. -/
def program (room : Nat) : Parse Program := do
  let t ← current
  if t.kind = .eof then
    return default
  else if t.isWord "public" || t.isWord "class" then
    classForm room
  else
    scriptForm room

end Parser

/-- The program of a token list, what is wrong with it, and the variables it declares. -/
def parse (tokens : List Token) : Parsed :=
  let (program, s) := (Parser.program maxNesting).run (.initial tokens)
  ⟨program, s.errors.toList, s.declared⟩

end Braceless
