import Braceless.Proofs.Semantics
import Braceless.Proofs.Target.Reading

/-!
# Execution in the indentation language

What the target does with its statements, as far as they compute with integers and truth
values.  Its rules are looser than those of the brace language: truth values count as the
numbers 0 and 1, every value can be tested, and `and` and `or` give one of their operands.
Where the rules need other values (quotients, texts, chained tests), there is no result here,
and execution is stuck.

## Main definitions

* `Command`: statements as the target understands them; an `elif` is a conditional in the
  other branch.
* `Tree.eval`: the value of an expression.
* `Executes`: runs of commands.

## Main results

* `Executes.unique`: execution is deterministic.
-/

namespace Braceless

namespace Target

/-! ## Expressions -/

/-- Whether a value counts as true. -/
def truthy : Value → Bool
  | .int n => n != 0
  | .bool b => b

/-- A value as a number. -/
def number : Value → Int
  | .int n => n
  | .bool b => if b then 1 else 0

/-- The value of a whole number, which has no zeros in front. -/
def numeral? (cs : List Char) : Option Value :=
  if cs ≠ [] ∧ cs.all Char.isDigit ∧ (cs.head? ≠ some '0' ∨ cs.all (· == '0')) then
    some (.int (decimalValue cs))
  else none

/-- The result of an operation that looks at both operands. -/
def operate (op : BinaryOp) (v w : Value) : Option Value :=
  match op with
  | .add => some (.int (number v + number w))
  | .sub => some (.int (number v - number w))
  | .mul => some (.int (number v * number w))
  | .eq => some (.bool (number v = number w))
  | .notEq => some (.bool (number v ≠ number w))
  | .gt => some (.bool (number w < number v))
  | .lt => some (.bool (number v < number w))
  | .gtEq => some (.bool (number w ≤ number v))
  | .ltEq => some (.bool (number v ≤ number w))
  | .div | .rem | .and | .or => none

/-- The value of an expression. -/
def Tree.eval (env : Env) : Tree → Option Value
  | name text => env text
  | number text => numeral? text.toList
  | truth value => some (.bool value)
  | not operand => (operand.eval env).map fun v => .bool !truthy v
  | neg operand => (operand.eval env).map fun v => .int (-Target.number v)
  | binary .and left right =>
    (left.eval env).bind fun v => if truthy v then right.eval env else some v
  | binary .or left right =>
    (left.eval env).bind fun v => if truthy v then some v else right.eval env
  | binary op left right => (left.eval env).bind fun v => (right.eval env).bind (operate op v)
  | quoted .. | nothing | chained .. => none

/-! ## Commands -/

/-- The statements of the target, as far as they are executed here. -/
inductive Command where
  | assign (name : String) (value : Tree)
  | print (argument : Option Tree) (newline : Bool)
  | ifElse (condition : Tree) (body orElse : List Command)
  | whileLoop (condition : Tree) (body : List Command)

/-- `Executes cs env out env'`: the commands `cs`, run where the variables are `env`, print
`out` and end with the variables `env'`. -/
inductive Executes : List Command → Env → List Output → Env → Prop where
  | nil {env : Env} : Executes [] env [] env
  | assign {name : String} {value : Tree} {cs : List Command} {env env' : Env} {v : Value}
      {out : List Output} (result : value.eval env = some v)
      (rest : Executes cs (env.set name v) out env') :
      Executes (.assign name value :: cs) env out env'
  | print {e : Tree} {newline : Bool} {cs : List Command} {env env' : Env} {v : Value}
      {out : List Output} (result : e.eval env = some v) (rest : Executes cs env out env') :
      Executes (.print (some e) newline :: cs) env (⟨some v, newline⟩ :: out) env'
  | printNothing {newline : Bool} {cs : List Command} {env env' : Env} {out : List Output}
      (rest : Executes cs env out env') :
      Executes (.print none newline :: cs) env (⟨none, newline⟩ :: out) env'
  | ifElse {condition : Tree} {body orElse cs : List Command} {env env' env'' : Env}
      {v : Value} {out out' : List Output} (test : condition.eval env = some v)
      (branch : Executes (if truthy v then body else orElse) env out env')
      (rest : Executes cs env' out' env'') :
      Executes (.ifElse condition body orElse :: cs) env (out ++ out') env''
  | whileDone {condition : Tree} {body cs : List Command} {env env' : Env} {v : Value}
      {out : List Output} (test : condition.eval env = some v) (hFalse : truthy v = false)
      (rest : Executes cs env out env') :
      Executes (.whileLoop condition body :: cs) env out env'
  | whileAgain {condition : Tree} {body cs : List Command} {env env' env'' : Env} {v : Value}
      {out out' : List Output} (test : condition.eval env = some v) (hTrue : truthy v = true)
      (once : Executes body env out env')
      (again : Executes (.whileLoop condition body :: cs) env' out' env'') :
      Executes (.whileLoop condition body :: cs) env (out ++ out') env''

/-- Execution is deterministic: it prints and ends in one way only. -/
theorem Executes.unique {cs : List Command} {env env₁ env₂ : Env} {out₁ out₂ : List Output}
    (h₁ : Executes cs env out₁ env₁) (h₂ : Executes cs env out₂ env₂) :
    out₁ = out₂ ∧ env₁ = env₂ := by
  induction h₁ generalizing out₂ env₂ with
  | nil =>
      cases h₂
      exact ⟨rfl, rfl⟩
  | assign result _ ih =>
      cases h₂ with
      | assign result' rest' =>
          obtain rfl := Option.some.inj (result.symm.trans result')
          exact ih rest'
  | print result _ ih =>
      cases h₂ with
      | print result' rest' =>
          obtain rfl := Option.some.inj (result.symm.trans result')
          obtain ⟨rfl, rfl⟩ := ih rest'
          exact ⟨rfl, rfl⟩
  | printNothing _ ih =>
      cases h₂ with
      | printNothing rest' =>
          obtain ⟨rfl, rfl⟩ := ih rest'
          exact ⟨rfl, rfl⟩
  | ifElse test _ _ ihBranch ihRest =>
      cases h₂ with
      | ifElse test' branch' rest' =>
          obtain rfl := Option.some.inj (test.symm.trans test')
          obtain ⟨rfl, rfl⟩ := ihBranch branch'
          obtain ⟨rfl, rfl⟩ := ihRest rest'
          exact ⟨rfl, rfl⟩
  | whileDone test hFalse _ ih =>
      cases h₂ with
      | whileDone _ _ rest' => exact ih rest'
      | whileAgain test' hTrue' _ _ =>
          obtain rfl := Option.some.inj (test.symm.trans test')
          exact absurd hTrue' (Bool.eq_false_iff.mp hFalse)
  | whileAgain test hTrue _ _ ihOnce ihAgain =>
      cases h₂ with
      | whileDone test' hFalse' _ =>
          obtain rfl := Option.some.inj (test.symm.trans test')
          exact absurd hTrue (Bool.eq_false_iff.mp hFalse')
      | whileAgain _ _ once' again' =>
          obtain ⟨rfl, rfl⟩ := ihOnce once'
          obtain ⟨rfl, rfl⟩ := ihAgain again'
          exact ⟨rfl, rfl⟩

end Target

end Braceless
