import Braceless.Rendering

/-!
# Arguments of the command line

The first argument names a command; files follow, and for the command that writes output also settings, in any
order.  After `--` everything is a file.  Arguments that do not fit are refused as a whole.

## Main definitions

* `Command`, `Request`: what can be asked for.
* `Request.ofArguments?`: the request of an argument list, if it fits.
-/

namespace Braceless

namespace CommandLine

/-- What to do with each file. -/
inductive Command where
  /-- List the tokens. -/
  | list
  /-- Say whether anything is wrong. -/
  | check
  /-- Write the output in a layout. -/
  | emit (layout : Layout)
  /-- Write the report. -/
  | report
deriving DecidableEq, Repr

/-- What is asked for. -/
inductive Request where
  | version
  | run (command : Command) (files : List String)
deriving DecidableEq, Repr

/-- One part of the arguments after the command. -/
inductive Argument where
  | indent (width : Nat)
  | header
  | file (name : String)
deriving DecidableEq, Repr

namespace Argument

/-- The width that an argument sets. -/
def width? : Argument → Option Nat
  | indent width => some width
  | _ => none

/-- The file that an argument names. -/
def name? : Argument → Option String
  | file name => some name
  | _ => none

end Argument

/-- The number of decimal digits. -/
def ofDigits (digits : List Char) : Nat :=
  digits.foldl (fun n c => 10 * n + (c.toNat - '0'.toNat)) 0

/-- The largest number that a setting can have. -/
def maxSetting : Nat := 18446744073709551615

/-- A setting: decimal digits, perhaps behind a plus sign. -/
def number? (s : String) : Option Nat :=
  let digits := match s.toList with
    | '+' :: cs => cs
    | cs => cs
  if !digits.isEmpty && digits.all Char.isDigit && decide (ofDigits digits ≤ maxSetting) then
    some (ofDigits digits)
  else none

/-- Whether an argument is a setting and not a file.  A single hyphen is a file. -/
def isSetting (arg : String) : Bool :=
  arg.toList.head? == some '-' && arg != "-"

/-- A file argument, which has a name. -/
def fileArgument? (name : String) : Option Argument :=
  if name.isEmpty then none else some (.file name)

/-- What stands behind the equals sign of `--indent=`. -/
def indentValue? (arg : String) : Option String :=
  let mark := "--indent=".toList
  if mark.isPrefixOf arg.toList then some (String.ofList (arg.toList.drop mark.length)) else none

/-- The arguments after a command, where `settings` says whether it takes settings. -/
def readArguments? (settings : Bool) : List String → Option (List Argument)
  | [] => some []
  | "--" :: names => names.mapM fileArgument?
  | "--indent" :: value :: rest =>
    match settings, number? value, readArguments? settings rest with
    | true, some width, some args => some (.indent width :: args)
    | _, _, _ => none
  | arg :: rest => do
    let first ←
      if !isSetting arg then fileArgument? arg
      else if !settings then none
      else if arg == "--header" then some .header
      else ((indentValue? arg).bind number?).map .indent
    let args ← readArguments? settings rest
    return first :: args

/-- The layout that arguments set; no setting may be given twice. -/
def layout? (args : List Argument) : Option Layout :=
  let widths := args.filterMap Argument.width?
  if widths.length ≤ 1 ∧ args.count .header ≤ 1 then
    some ⟨widths.headD (default : Layout).indent, args.contains .header⟩
  else none

/-- The files that arguments name, of which there is at least one. -/
def files? (args : List Argument) : Option (List String) :=
  match args.filterMap Argument.name? with
  | [] => none
  | files => some files

/-- A command that takes files only. -/
def plainRequest? (command : Command) (rest : List String) : Option Request := do
  let args ← readArguments? false rest
  return .run command (← files? args)

/-- The request of an argument list, if it fits. -/
def Request.ofArguments? : List String → Option Request
  | "tokens" :: rest => plainRequest? .list rest
  | "check" :: rest => plainRequest? .check rest
  | "analyze" :: rest => plainRequest? .report rest
  | "translate" :: rest => do
    let args ← readArguments? true rest
    return .run (.emit (← layout? args)) (← files? args)
  | "--version" :: _ => some .version
  | arg :: _ => if "-V".toList.isPrefixOf arg.toList then some .version else none
  | [] => none

end CommandLine

end Braceless
