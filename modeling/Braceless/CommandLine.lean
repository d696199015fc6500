import Braceless.CommandLine.Arguments
import Braceless.CommandLine.Directory
import Braceless.Report

/-!
# The command line

What each command writes about each file.  A file that cannot be read is named with the reason, and the files
after it are still worked on; the exit code says whether all went well.

## Main definitions

* `Command.run`: the outcome of a command on files that have been read.
* `run`: the outcome of an argument list in a directory.
-/

namespace Braceless

namespace CommandLine

/-- What is written about a file, and whether all went well. -/
structure FileOutcome where
  ok : Bool
  stdout : String
  stderr : String
deriving DecidableEq, Repr

/-- What a whole run writes, and its exit code. -/
structure Outcome where
  exitCode : Nat
  stdout : String
  stderr : String
deriving DecidableEq, Repr

/-- A text with spaces up to a width. -/
def padTo (width : Nat) (s : String) : String :=
  s ++ String.ofList (List.replicate (width - s.length) ' ')

/-- The line of a token in a listing. -/
def tokenLine (t : Token) : String :=
  "  " ++ padTo 8 t.pos.text ++ " " ++ padTo 14 t.kind.label ++ " " ++ t.text ++ "\n"

/-- Messages about a file, each on a line of its own. -/
def messageLines (name : String) (messages : List String) : String :=
  String.join (messages.map fun m => name ++ ": " ++ m ++ "\n")

/-- The diagnostics of a file. -/
def diagnosticLines (name : String) (a : Analysis) : String :=
  messageLines name (a.diagnostics.map Diagnostic.message)

/-- The counts of a file in which nothing is wrong. -/
def okMessage (a : Analysis) : String :=
  "ok (" ++ toString a.program.body.length ++ " statement(s), " ++
    toString a.declarations.entries.length ++ " declaration(s))"

/-- What a command does with the text of a file. -/
def Command.onText (name source : String) : Command → FileOutcome
  | list =>
    let a := analyze source default
    ⟨a.lexicalErrors.isEmpty,
      name ++ ":\n" ++ String.join (a.tokens.map tokenLine),
      messageLines name (a.lexicalErrors.map LexicalError.message)⟩
  | check =>
    let a := analyze source default
    ⟨a.success, "",
      if a.success then messageLines name [okMessage a] else diagnosticLines name a⟩
  | emit layout =>
    let a := analyze source layout
    ⟨a.success, a.python ++ "\n", diagnosticLines name a⟩
  | report =>
    let a := analyze source default
    ⟨a.success, a.report.pretty ++ "\n", ""⟩

/-- What a command does with a file that may have been read. -/
def Command.onFile (command : Command) (name : String) : Except ReadError String → FileOutcome
  | .ok source => command.onText name source
  | .error e => ⟨false, "", messageLines name [e.message]⟩

/-- The outcome of a command on files that have been read. -/
def Command.run (command : Command) (files : List (String × Except ReadError String)) : Outcome :=
  let results := files.map fun (name, contents) => command.onFile name contents
  ⟨if results.all (·.ok) then 0 else 1,
    String.join (results.map (·.stdout)), String.join (results.map (·.stderr))⟩

/-- The name and version of the program. -/
def versionLine : String :=
  "javabridge 0.1.0\n"

/-- The outcome of an argument list in a directory, if the arguments fit. -/
def run (d : Directory) (args : List String) : Option Outcome :=
  (Request.ofArguments? args).map fun
    | .version => ⟨0, versionLine, ""⟩
    | .run command files => command.run (files.map fun name => (name, d.read name))

end CommandLine

end Braceless
