/-!
# Comments of the indentation language

A line comment keeps its text behind another mark.  A closed block comment becomes a triple-quoted text, unless
it holds three quotes in a row; any other comment becomes a line comment for each of its lines.

## Main definitions

* `Target.textLines`: the lines of a text.
* `Target.comment`: the form of a comment in the target.
-/

namespace Braceless

namespace Target

/-- Puts a character in front of the first line. -/
def consFirst (c : Char) : List (List Char) → List (List Char)
  | [] => [[c]]
  | line :: lines => (c :: line) :: lines

/-- The lines of a text.  A line feed ends a line, together with a carriage return right before it; what
follows the last line feed is a line if it is not empty. -/
def textLines : List Char → List (List Char)
  | [] => []
  | '\n' :: cs => [] :: textLines cs
  | '\r' :: '\n' :: cs => [] :: textLines cs
  | c :: cs => consFirst c (textLines cs)

/-- Whether three single quotes stand in a row. -/
def hasTripleQuote : List Char → Bool
  | [] => false
  | '\'' :: '\'' :: '\'' :: _ => true
  | _ :: cs => hasTripleQuote cs

/-- What stands between the marks of a closed block comment. -/
def blockBody? : List Char → Option (List Char)
  | '/' :: '*' :: cs =>
    match cs.reverse with
    | '/' :: '*' :: body => some body.reverse
    | _ => none
  | _ => none

/-- A line comment for each line of a text. -/
def commentLines (cs : List Char) : String :=
  "\n".intercalate ((textLines cs).map fun line => "# " ++ String.ofList line)

/-- The form of a comment in the target. -/
def comment (text : String) : String :=
  match text.toList with
  | '/' :: '/' :: cs => "#" ++ String.ofList cs
  | cs =>
    match blockBody? cs with
    | some body =>
      if hasTripleQuote body then commentLines cs
      else "'''" ++ String.ofList body ++ "'''"
    | none => commentLines cs

end Target

end Braceless
