import Braceless.Program

/-!
# The meaning of programs over integers and truth values

What a program of the brace language does, as far as it computes with integers and truth
values only.  Integers are unbounded.  Both operands of an operation are of the type that it
asks for, or there is no result; the second operand of `&&` and `||` is looked at only if the
first one leaves the result open.  A variable may be given a value of either type, and a
declaration without a value gives it the default of its type.

A run of statements is a derivation, so only runs that come to an end are there at all.
Division is left out, as it rounds.

## Main definitions

* `Value`, `Env`, `Output`: values, the values of variables, and what is printed.
* `Expr.eval`: the value of an expression.
* `Runs`: the runs of statements.
* `run?`: statements run for a bounded number of steps.

## Main results

* `runs_of_run?`: what comes out of a bounded run is a run.
-/

namespace Braceless

/-! ## Values -/

/-- The values of the two types. -/
inductive Value where
  | int (n : Int)
  | bool (b : Bool)
deriving DecidableEq, Repr

/-- The values of the variables that have one. -/
def Env : Type := String → Option Value

namespace Env

/-- No variable has a value. -/
def empty : Env := fun _ => none

/-- A variable gets a value. -/
def set (env : Env) (name : String) (v : Value) : Env :=
  fun x => if x = name then some v else env x

theorem set_self (env : Env) (name : String) (v : Value) : env.set name v name = some v :=
  if_pos rfl

theorem set_of_ne (env : Env) {name x : String} (v : Value) (h : x ≠ name) :
    env.set name v x = env x :=
  if_neg h

end Env

/-- One thing that is printed: a value or nothing, with or without a line end. -/
structure Output where
  value : Option Value
  newline : Bool
deriving DecidableEq, Repr

/-! ## Expressions -/

/-- The number that digits stand for. -/
def decimalValue (cs : List Char) : Nat :=
  cs.foldl (fun n c => 10 * n + (c.toNat - '0'.toNat)) 0

/-- The value of a literal. -/
def Literal.eval (l : Literal) : Option Value :=
  match l.kind with
  | .int => some (.int (decimalValue l.value.toList))
  | .boolean => some (.bool (l.value == "true"))
  | .double | .char | .str => none

/-- The result of an operation that looks at both operands. -/
def BinaryOp.eval (op : BinaryOp) (v w : Value) : Option Value :=
  match op, v, w with
  | .add, .int m, .int n => some (.int (m + n))
  | .sub, .int m, .int n => some (.int (m - n))
  | .mul, .int m, .int n => some (.int (m * n))
  | .eq, .int m, .int n => some (.bool (m = n))
  | .eq, .bool a, .bool b => some (.bool (a = b))
  | .notEq, .int m, .int n => some (.bool (m ≠ n))
  | .notEq, .bool a, .bool b => some (.bool (a ≠ b))
  | .gt, .int m, .int n => some (.bool (n < m))
  | .lt, .int m, .int n => some (.bool (m < n))
  | .gtEq, .int m, .int n => some (.bool (n ≤ m))
  | .ltEq, .int m, .int n => some (.bool (m ≤ n))
  | _, _, _ => none

/-- The result of a unary operation. -/
def UnaryOp.eval (op : UnaryOp) (v : Value) : Option Value :=
  match op, v with
  | .not, .bool b => some (.bool !b)
  | .neg, .int n => some (.int (-n))
  | _, _ => none

/-- A truth value. -/
def Value.truth? : Value → Option Bool
  | bool b => some b
  | int _ => none

/-- The value of an expression. -/
def Expr.eval (env : Env) : Expr → Option Value
  | binary .and left right =>
    (left.eval env).bind Value.truth? |>.bind fun a =>
      if a then ((right.eval env).bind Value.truth?).map Value.bool else some (.bool false)
  | binary .or left right =>
    (left.eval env).bind Value.truth? |>.bind fun a =>
      if a then some (.bool true) else ((right.eval env).bind Value.truth?).map Value.bool
  | binary op left right => (left.eval env).bind fun v => (right.eval env).bind (op.eval v)
  | unary op operand => (operand.eval env).bind op.eval
  | group inner => inner.eval env
  | literal l => l.eval
  | identifier name _ => env name
  | invalid _ => none

/-! ## Statements -/

/-- The value of a variable that is declared without one. -/
def DataType.default? : DataType → Option Value
  | int => some (.int 0)
  | boolean => some (.bool false)
  | double | char | string => none

/-- The first value of a declared variable. -/
def Declaration.eval (env : Env) (d : Declaration) : Option Value :=
  match d.value with
  | some e => e.eval env
  | none => d.dataType.default?

/-- What is run where the condition of a conditional does not hold. -/
def Else.statements : Else → List Stmt
  | .none => []
  | .elseIf i => [.ifElse i]
  | .block body => body

/-- `Runs ss env out env'`: the statements `ss`, run where the variables are `env`, print
`out` and end with the variables `env'`. -/
inductive Runs : List Stmt → Env → List Output → Env → Prop where
  | nil {env : Env} : Runs [] env [] env
  | declaration {d : Declaration} {ss : List Stmt} {env env' : Env} {v : Value}
      {out : List Output} (value : d.eval env = some v)
      (rest : Runs ss (env.set d.name v) out env') : Runs (.declaration d :: ss) env out env'
  | assignment {a : Assignment} {ss : List Stmt} {env env' : Env} {v : Value}
      {out : List Output} (value : a.value.eval env = some v)
      (rest : Runs ss (env.set a.name v) out env') : Runs (.assignment a :: ss) env out env'
  | print {e : Expr} {newline : Bool} {pos : Position} {ss : List Stmt} {env env' : Env}
      {v : Value} {out : List Output} (value : e.eval env = some v)
      (rest : Runs ss env out env') :
      Runs (.print (some e) newline pos :: ss) env (⟨some v, newline⟩ :: out) env'
  | printNothing {newline : Bool} {pos : Position} {ss : List Stmt} {env env' : Env}
      {out : List Output} (rest : Runs ss env out env') :
      Runs (.print none newline pos :: ss) env (⟨none, newline⟩ :: out) env'
  | ifElse {condition : Expr} {thenBody : List Stmt} {orElse : Else} {pos : Position}
      {ss : List Stmt} {env env' env'' : Env} {b : Bool} {out out' : List Output}
      (test : condition.eval env = some (.bool b))
      (branch : Runs (if b then thenBody else orElse.statements) env out env')
      (rest : Runs ss env' out' env'') :
      Runs (.ifElse ⟨condition, thenBody, orElse, pos⟩ :: ss) env (out ++ out') env''
  | whileDone {condition : Expr} {body : List Stmt} {pos : Position} {ss : List Stmt}
      {env env' : Env} {out : List Output} (test : condition.eval env = some (.bool false))
      (rest : Runs ss env out env') : Runs (.whileLoop condition body pos :: ss) env out env'
  | whileAgain {condition : Expr} {body : List Stmt} {pos : Position} {ss : List Stmt}
      {env env' env'' : Env} {out out' : List Output}
      (test : condition.eval env = some (.bool true)) (once : Runs body env out env')
      (again : Runs (.whileLoop condition body pos :: ss) env' out' env'') :
      Runs (.whileLoop condition body pos :: ss) env (out ++ out') env''

/-! ## Bounded runs -/

/-- Statements run for at most `fuel` steps: what they print and the variables at the end. -/
def run? : Nat → List Stmt → Env → Option (List Output × Env)
  | _, [], env => some ([], env)
  | 0, _ :: _, _ => none
  | fuel + 1, s :: ss, env =>
    match s with
    | .declaration d => (d.eval env).bind fun v => run? fuel ss (env.set d.name v)
    | .assignment a => (a.value.eval env).bind fun v => run? fuel ss (env.set a.name v)
    | .print (some e) newline _ =>
      (e.eval env).bind fun v =>
        (run? fuel ss env).map fun r => (⟨some v, newline⟩ :: r.1, r.2)
    | .print none newline _ => (run? fuel ss env).map fun r => (⟨none, newline⟩ :: r.1, r.2)
    | .ifElse ⟨condition, thenBody, orElse, _⟩ =>
      ((condition.eval env).bind Value.truth?).bind fun b =>
        (run? fuel (if b then thenBody else orElse.statements) env).bind fun r =>
          (run? fuel ss r.2).map fun r' => (r.1 ++ r'.1, r'.2)
    | .whileLoop condition body pos =>
      ((condition.eval env).bind Value.truth?).bind fun b =>
        if b then
          (run? fuel body env).bind fun r =>
            (run? fuel (.whileLoop condition body pos :: ss) r.2).map fun r' =>
              (r.1 ++ r'.1, r'.2)
        else run? fuel ss env
    | .forLoop .. | .invalid _ => none

/-- A truth value that was asked for. -/
theorem eq_bool_of_truth? {v : Option Value} {b : Bool} (h : v.bind Value.truth? = some b) :
    v = some (.bool b) := by
  obtain ⟨w, rfl, hw⟩ := Option.bind_eq_some_iff.mp h
  cases w with
  | int n => exact nomatch hw
  | bool a =>
      obtain rfl := Option.some.inj hw
      rfl

/-- What comes out of a bounded run is a run. -/
theorem runs_of_run? {fuel : Nat} {ss : List Stmt} {env : Env} {r : List Output × Env}
    (h : run? fuel ss env = some r) : Runs ss env r.1 r.2 := by
  induction fuel generalizing ss env r with
  | zero =>
      cases ss with
      | nil =>
          obtain rfl := Option.some.inj h
          exact .nil
      | cons s ss => exact nomatch h
  | succ fuel ih =>
      cases ss with
      | nil =>
          obtain rfl := Option.some.inj h
          exact .nil
      | cons s ss =>
          cases s with
          | declaration d =>
              obtain ⟨v, hValue, hRest⟩ := Option.bind_eq_some_iff.mp h
              exact .declaration hValue (ih hRest)
          | assignment a =>
              obtain ⟨v, hValue, hRest⟩ := Option.bind_eq_some_iff.mp h
              exact .assignment hValue (ih hRest)
          | print argument newline pos =>
              cases argument with
              | none =>
                  obtain ⟨r', hRest, rfl⟩ := Option.map_eq_some_iff.mp h
                  exact .printNothing (ih hRest)
              | some e =>
                  obtain ⟨v, hValue, hMore⟩ := Option.bind_eq_some_iff.mp h
                  obtain ⟨r', hRest, rfl⟩ := Option.map_eq_some_iff.mp hMore
                  exact .print hValue (ih hRest)
          | ifElse i =>
              obtain ⟨condition, thenBody, orElse, pos⟩ := i
              obtain ⟨b, hTest, hMore⟩ := Option.bind_eq_some_iff.mp h
              obtain ⟨r₁, hBranch, hMore⟩ := Option.bind_eq_some_iff.mp hMore
              obtain ⟨r₂, hRest, rfl⟩ := Option.map_eq_some_iff.mp hMore
              exact .ifElse (eq_bool_of_truth? hTest) (ih hBranch) (ih hRest)
          | whileLoop condition body pos =>
              obtain ⟨b, hTest, hMore⟩ := Option.bind_eq_some_iff.mp h
              cases b with
              | false => exact .whileDone (eq_bool_of_truth? hTest) (ih hMore)
              | true =>
                  obtain ⟨r₁, hOnce, hMore⟩ := Option.bind_eq_some_iff.mp hMore
                  obtain ⟨r₂, hAgain, rfl⟩ := Option.map_eq_some_iff.mp hMore
                  exact .whileAgain (eq_bool_of_truth? hTest) (ih hOnce) (ih hAgain)
          | forLoop init condition update body pos => exact nomatch h
          | invalid p => exact nomatch h

end Braceless
