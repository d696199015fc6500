import Braceless.Expr

/-!
# Programs

The statement trees of the brace language, a small part of Java, and the program around them: one entry
procedure, with the name of its class and of its parameter.

## Main definitions

* `Declaration`, `Assignment`: the simple statements that loops use too.
* `Stmt`, `IfStatement`, `Else`: statements, which nest through lists of statements.
* `Program`: a named list of statements.
-/

namespace Braceless

/-- The types a variable can have. -/
inductive DataType where
  | int
  | double
  | char
  | string
  | boolean
deriving DecidableEq, Repr

namespace DataType

/-- Every type. -/
def all : List DataType :=
  [int, double, char, string, boolean]

theorem mem_all (t : DataType) : t ∈ all := by
  cases t <;> decide

/-- The keyword of a type. -/
def keyword : DataType → String
  | int => "int"
  | double => "double"
  | char => "char"
  | string => "String"
  | boolean => "boolean"

/-- The type with a given keyword. -/
def ofKeyword? (word : String) : Option DataType :=
  all.find? (·.keyword == word)

end DataType

/-- A variable declaration, with or without a first value.  Its position is that of the name. -/
structure Declaration where
  dataType : DataType
  name : String
  value : Option Expr
  pos : Position
deriving DecidableEq, Repr

/-- An assignment.  The forms that update a variable are assignments of an operation on it.  Its position
is that of the name. -/
structure Assignment where
  name : String
  value : Expr
  pos : Position
deriving DecidableEq, Repr

/-- How a counting loop sets its variable up. -/
inductive ForInit where
  | declaration (d : Declaration)
  | assignment (a : Assignment)
deriving DecidableEq, Repr

namespace ForInit

/-- The loop variable. -/
def name : ForInit → String
  | declaration d => d.name
  | assignment a => a.name

/-- The first value of the loop variable, if one is given. -/
def value : ForInit → Option Expr
  | declaration d => d.value
  | assignment a => some a.value

end ForInit

mutual

/-- The statements. -/
inductive Stmt where
  | declaration (d : Declaration)
  | assignment (a : Assignment)
  | ifElse (i : IfStatement)
  | forLoop (init : ForInit) (condition : Expr) (update : Option Assignment) (body : List Stmt)
      (pos : Position)
  | whileLoop (condition : Expr) (body : List Stmt) (pos : Position)
  /-- Output of a value or of nothing, with or without a line end. -/
  | print (argument : Option Expr) (newline : Bool) (pos : Position)
  /-- A token that starts no statement. -/
  | invalid (placeholder : Placeholder)
deriving Repr

/-- A conditional statement. -/
structure IfStatement where
  condition : Expr
  thenBody : List Stmt
  orElse : Else
  pos : Position
deriving Repr

/-- What follows the first branch of a conditional. -/
inductive Else where
  | none
  | elseIf (i : IfStatement)
  | block (body : List Stmt)
deriving Repr

end

/-- A program: the body of the entry procedure of a class. -/
structure Program where
  className : String
  argsName : String
  body : List Stmt
deriving Repr

namespace Program

/-- The program of a class that does nothing. -/
def empty (className : String) : Program :=
  ⟨className, "args", []⟩

instance : Inhabited Program := ⟨empty "Main"⟩

/-- A program with one more statement at its end. -/
def append (p : Program) (s : Stmt) : Program :=
  { p with body := p.body ++ [s] }

end Program

end Braceless
