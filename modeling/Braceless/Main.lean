import Braceless.CommandLine

/-!
# The program

Reads the files, runs the command on them and prints what it writes.
-/

namespace Braceless

open CommandLine

/-- The number of a system error about a file.  Some calls give it with a minus sign. -/
def systemCode : IO.Error → Nat
  | .noFileOrDirectory _ code _ => code.toInt32.toInt.natAbs
  | .inappropriateType _ code _ => code.toInt32.toInt.natAbs
  | .invalidArgument _ code _ => code.toInt32.toInt.natAbs
  | _ => 0

/-- The contents of a file of the system. -/
def readFile (name : String) : IO (Except ReadError String) := do
  try
    return decode (← IO.FS.readBinFile name)
  catch e =>
    return .error ((ReadError.ofCode? (systemCode e)).getD (.other (toString e)))

end Braceless

open Braceless CommandLine in
/-- The command line. -/
def main (args : List String) : IO UInt32 := do
  match Request.ofArguments? args with
  | none =>
    IO.eprintln "usage: javabridge tokens|check|translate|analyze [--indent N] [--header] FILE..."
    return 2
  | some .version =>
    IO.print versionLine
    return 0
  | some (.run command files) =>
    let contents ← files.mapM fun name => return (name, ← readFile name)
    let outcome := command.run contents
    IO.print outcome.stdout
    IO.eprint outcome.stderr
    return outcome.exitCode.toUInt32
