/-!
# JSON values and their text

The values of reports.  The fields of an object keep their order, and numbers are natural numbers.

## Main definitions

* `Json`: the values.
* `Json.pretty`: the text of a value over several lines.
-/

namespace Braceless

/-- A report value.  The fields of an object stand in the order in which they are written. -/
inductive Json where
  | null
  | bool (value : Bool)
  | num (value : Nat)
  | str (value : String)
  | arr (items : List Json)
  | obj (fields : List (String × Json))
deriving Repr

namespace Json

/-! ## Strings -/

/-- The two hexadecimal digits of a number below 256. -/
def hexPair (n : Nat) : String :=
  String.ofList [Nat.digitChar (n / 16), Nat.digitChar (n % 16)]

/-- A character as it is written in a string. -/
def escape (c : Char) : String :=
  if c = '"' then "\\\""
  else if c = '\\' then "\\\\"
  else if c = '\n' then "\\n"
  else if c = '\r' then "\\r"
  else if c = '\t' then "\\t"
  else if c = '\x08' then "\\b"
  else if c = '\x0c' then "\\f"
  else if c.toNat < 32 then "\\u00" ++ hexPair c.toNat
  else c.toString

/-- A string in quotes. -/
def quote (s : String) : String :=
  "\"" ++ String.join (s.toList.map escape) ++ "\""

/-! ## Values -/

/-- A new line at a level, two spaces for each. -/
def newLine (level : Nat) : String :=
  "\n" ++ String.ofList (List.replicate (2 * level) ' ')

mutual

/-- The text of a value that starts on a line of the given level. -/
def prettyAt (level : Nat) : Json → String
  | null => "null"
  | bool value => if value then "true" else "false"
  | num value => toString value
  | str value => quote value
  | arr [] => "[]"
  | arr (item :: items) =>
    "[" ++ newLine (level + 1) ++ prettyAt (level + 1) item ++ prettyItems (level + 1) items ++
      newLine level ++ "]"
  | obj [] => "\x7b\x7d"
  | obj ((key, value) :: fields) =>
    "\x7b" ++ newLine (level + 1) ++ quote key ++ ": " ++ prettyAt (level + 1) value ++
      prettyFields (level + 1) fields ++ newLine level ++ "\x7d"

/-- The text of the items after the first, each on a line of its own. -/
def prettyItems (level : Nat) : List Json → String
  | [] => ""
  | item :: items => "," ++ newLine level ++ prettyAt level item ++ prettyItems level items

/-- The text of the fields after the first, each on a line of its own. -/
def prettyFields (level : Nat) : List (String × Json) → String
  | [] => ""
  | (key, value) :: fields =>
    "," ++ newLine level ++ quote key ++ ": " ++ prettyAt level value ++ prettyFields level fields

end

/-- The text of a value. -/
def pretty (j : Json) : String :=
  j.prettyAt 0

end Json

end Braceless
