import Braceless.Proofs.Target.Tokens

/-!
# Reading expressions of the indentation language

How the target reads an expression, as far as expressions are written here.

```
Disjunction → Conjunction ( "or" Conjunction )*
Conjunction → Negation ( "and" Negation )*
Negation    → "not" Negation  |  Comparison
Comparison  → Sum ( ( "==" | "!=" | "<" | "<=" | ">" | ">=" ) Sum )*
Sum         → Product ( ( "+" | "-" ) Product )*
Product     → Factor ( ( "*" | "/" | "%" ) Factor )*
Factor      → "-" Factor  |  Atom
Atom        → NAME | NUMBER | QUOTED | "True" | "False" | "None" | "(" Disjunction ")"
```

The rules are the levels 0 to 6, in this order.  All operators group to the left, but a
second comparison in a run is not an operation on the first: the target tests both, so
the tree has a node of its own for it.  Brackets leave no trace in the tree.

## Main definitions

* `Target.Tree`: what an expression means to the target.
* `Target.read`: the tree of a text.
* `Target.Expr.Fits`: expressions with all the brackets that they need.

## Main results

* `read_text`: an expression with the brackets that it needs is read as its tree.
-/

namespace Braceless

namespace Target

/-! ## Trees -/

/-- Expressions as the target understands them. -/
inductive Tree where
  | name (text : String)
  | number (text : String)
  | quoted (quote : Char) (body : String)
  | truth (value : Bool)
  | nothing
  | not (operand : Tree)
  | neg (operand : Tree)
  | binary (op : BinaryOp) (left right : Tree)
  /-- A further comparison in a run of which `left` is the part before. -/
  | chained (left : Tree) (op : BinaryOp) (right : Tree)
deriving DecidableEq, Repr

/-- The words that are never names. -/
def keywords : List String :=
  ["False", "None", "True", "and", "as", "assert", "async", "await", "break", "class",
   "continue", "def", "del", "elif", "else", "except", "finally", "for", "from", "global",
   "if", "import", "in", "is", "lambda", "nonlocal", "not", "or", "pass", "raise", "return",
   "try", "while", "with", "yield"]

/-- The words with a fixed meaning: the keywords, and the functions that a page calls. -/
def fixedWords : List String :=
  keywords ++ ["print", "range"]

/-- The tree of a token that stands alone. -/
def atom : Token → Option Tree
  | .word "True" => some (.truth true)
  | .word "False" => some (.truth false)
  | .word "None" => some .nothing
  | .word text => if text ∈ keywords then none else some (.name text)
  | .number text => some (.number text)
  | .quoted quote body => some (.quoted quote body)
  | .symbol _ => none

/-- The binary operator of a token. -/
def operator : Token → Option BinaryOp
  | .word "or" => some .or
  | .word "and" => some .and
  | .symbol "==" => some .eq
  | .symbol "!=" => some .notEq
  | .symbol "<" => some .lt
  | .symbol "<=" => some .ltEq
  | .symbol ">" => some .gt
  | .symbol ">=" => some .gtEq
  | .symbol "+" => some .add
  | .symbol "-" => some .sub
  | .symbol "*" => some .mul
  | .symbol "/" => some .div
  | .symbol "%" => some .rem
  | _ => none

/-- The level of the rule that a binary operator belongs to. -/
def level : BinaryOp → Nat
  | .or => 0
  | .and => 1
  | .eq | .notEq | .lt | .ltEq | .gt | .gtEq => 3
  | .add | .sub => 4
  | .mul | .div | .rem => 5

/-- The operation of a binary operator, which may be the first in its run. -/
def join (first : Bool) (op : BinaryOp) (left right : Tree) : Tree :=
  if level op = 3 ∧ first = false then .chained left op right else .binary op left right

/-! ## The rules -/

theorem length_tail_lt {t : Token} {ts : List Token} (h : ts.head? = some t) :
    ts.tail.length < ts.length := by
  cases ts with
  | nil => cases h
  | cons u us => exact Nat.lt_succ_self _

mutual

/-- Reads an expression by the rule of a level. -/
def readFrom (k : Nat) (ts : List Token) : Option (Tree × List Token) :=
  if 6 ≤ k then factor ts
  else if h : k = 2 ∧ ts.head? = some (.word "not") then
    have := length_tail_lt h.2
    (readFrom 2 ts.tail).map fun r => (.not r.1, r.2)
  else
    match readFrom (k + 1) ts with
    | none => none
    | some (left, rest) => if rest.length < ts.length then more k true left rest else none
termination_by ts.length * 16 + (7 - k) + 1

/-- Goes on after `left` with the operators of a level. -/
def more (k : Nat) (first : Bool) (left : Tree) (ts : List Token) : Option (Tree × List Token) :=
  match ts with
  | [] => some (left, [])
  | t :: rest =>
    match operator t with
    | none => some (left, t :: rest)
    | some op =>
      if level op = k then
        match readFrom (k + 1) rest with
        | none => none
        | some (right, after) =>
          if after.length < rest.length then more k false (join first op left right) after
          else none
      else some (left, t :: rest)
termination_by ts.length * 16 + 9

/-- Reads a factor. -/
def factor (ts : List Token) : Option (Tree × List Token) :=
  match ts with
  | [] => none
  | t :: rest =>
    if t = .symbol "-" then (factor rest).map fun r => (.neg r.1, r.2)
    else if t = .symbol "(" then
      match readFrom 0 rest with
      | some (inner, .symbol ")" :: after) => some (inner, after)
      | _ => none
    else (atom t).map fun a => (a, rest)
termination_by ts.length * 16

end

/-- The tree of a text that is one expression. -/
def read (text : String) : Option Tree :=
  match (tokenize text.toList).bind (readFrom 0) with
  | some (t, []) => some t
  | _ => none

/-! ## Expressions and their brackets -/

namespace Expr

/-- The tree of an expression. -/
def tree : Expr → Tree
  | name text => .name text
  | number text => .number text
  | quoted quote body => .quoted quote body
  | truth value => .truth value
  | nothing => .nothing
  | not operand => .not operand.tree
  | neg operand => .neg operand.tree
  | brackets inner => inner.tree
  | binary op left right => .binary op left.tree right.tree

/-- The level of the rule that an expression is written by. -/
def outerLevel : Expr → Nat
  | binary op _ _ => level op
  | not _ => 2
  | _ => 6

/-- Expressions in which every operand is written by a rule that its place allows, and
whose names are no keywords. -/
def Fits : Expr → Prop
  | name text => text ∉ keywords
  | number _ | quoted _ _ | truth _ | nothing => True
  | not operand => 2 ≤ operand.outerLevel ∧ operand.Fits
  | neg operand => 6 ≤ operand.outerLevel ∧ operand.Fits
  | brackets inner => inner.Fits
  | binary op left right =>
    level op ≤ left.outerLevel ∧ (level op = 3 → 3 < left.outerLevel) ∧
      level op < right.outerLevel ∧ left.Fits ∧ right.Fits

end Expr

/-! ## Where a run of operators ends -/

/-- No operator comes first that is tighter than the level. -/
def NoTighter (k : Nat) (ts : List Token) : Prop :=
  ∀ t ∈ ts.head?, ∀ op, operator t = some op → level op ≤ k

theorem NoTighter.mono {k l : Nat} {ts : List Token} (h : NoTighter k ts) (hkl : k ≤ l) :
    NoTighter l ts :=
  fun t ht op hOp => Nat.le_trans (h t ht op hOp) hkl

theorem noTighter_cons {k : Nat} {t : Token} {op : BinaryOp} (ts : List Token)
    (hOp : operator t = some op) (hk : level op ≤ k) : NoTighter k (t :: ts) := by
  intro u hu op' hOp'
  obtain rfl := Option.some.inj hu
  obtain rfl := Option.some.inj (hOp.symm.trans hOp')
  exact hk

theorem operator_operatorToken (op : BinaryOp) : operator (operatorToken op) = some op := by
  cases op <;> rfl

theorem level_le_five (op : BinaryOp) : level op ≤ 5 ∧ level op ≠ 2 := by
  cases op <;> decide

/-- A run ends where no operator of its level comes first. -/
theorem more_eq_some {k : Nat} (first : Bool) (left : Tree) {ts : List Token}
    (h : ∀ t ∈ ts.head?, ∀ op, operator t = some op → level op ≠ k) :
    more k first left ts = some (left, ts) := by
  cases ts with
  | nil => rw [more]
  | cons t ts =>
      rw [more]
      cases hOp : operator t with
      | none => rfl
      | some op => simp only [if_neg (h t rfl op hOp)]

theorem more_of_noTighter {k l : Nat} (first : Bool) (left : Tree) {ts : List Token}
    (h : NoTighter k ts) (hkl : k < l) : more l first left ts = some (left, ts) :=
  more_eq_some first left fun t ht op hOp => Nat.ne_of_lt (Nat.lt_of_le_of_lt (h t ht op hOp) hkl)

/-! ## Reading an expression -/

theorem length_tokens_pos (e : Expr) : 0 < e.tokens.length := by
  cases e with
  | binary op left right =>
      simp only [Expr.tokens, List.length_append, List.length_cons]
      omega
  | _ => simp [Expr.tokens]

theorem outerLevel_le_six (e : Expr) : e.outerLevel ≤ 6 := by
  cases e with
  | binary op _ _ => exact Nat.le_succ_of_le (level_le_five op).1
  | not _ => exact Nat.le_add_right 2 4
  | _ => exact Nat.le_refl 6

/-- Only a negation starts with its word. -/
theorem head_tokens_ne_not {e : Expr} (hFits : e.Fits) (hLevel : 3 ≤ e.outerLevel)
    (rest : List Token) : (e.tokens ++ rest).head? ≠ some (.word "not") := by
  induction e generalizing rest with
  | name text =>
      intro hHead
      have hText : text = "not" := by simpa [Expr.tokens] using hHead
      exact hFits (by rw [hText]; decide)
  | truth value => cases value <;> simp [Expr.tokens]
  | not _ _ => exact absurd hLevel (Nat.not_succ_le_self 2)
  | binary op left right ihLeft _ =>
      obtain ⟨hLeft, _, _, hFitsLeft, _⟩ := hFits
      have hLevelLeft : 3 ≤ left.outerLevel := Nat.le_trans hLevel hLeft
      rw [Expr.tokens, List.append_assoc]
      exact ihLeft hFitsLeft hLevelLeft _
  | number _ | quoted _ _ | nothing | neg _ _ | brackets _ _ => simp [Expr.tokens]

theorem readFrom_six (ts : List Token) : readFrom 6 ts = factor ts := by
  rw [readFrom, if_pos (Nat.le_refl 6)]

/-- A rule goes on after what the next tighter rule has read. -/
theorem readFrom_of_readFrom_succ {k : Nat} {ts rest : List Token} {t : Tree} (hk : k < 6)
    (hNot : k = 2 → ts.head? ≠ some (.word "not"))
    (hNext : readFrom (k + 1) ts = some (t, rest)) (hLess : rest.length < ts.length) :
    readFrom k ts = more k true t rest := by
  have hOther : ¬ (k = 2 ∧ ts.head? = some (.word "not")) := fun h => hNot h.1 h.2
  rw [readFrom, if_neg (Nat.not_le.mpr hk), dif_neg hOther, hNext]
  simp only [if_pos hLess]

/-- The rule of a level reads an expression as its tree and goes on behind it.  If the
expression is an operation of that level, then its run has begun. -/
def ReadsFrom (e : Expr) (k : Nat) : Prop :=
  ∀ rest, NoTighter k rest →
    readFrom k (e.tokens ++ rest) = more k (decide (k < e.outerLevel)) e.tree rest

/-- What its own rule reads, every looser rule reads too. -/
theorem ReadsFrom.of_le {e : Expr} (hFits : e.Fits) (hOwn : ReadsFrom e e.outerLevel)
    {k : Nat} (hk : k ≤ e.outerLevel) : ReadsFrom e k := by
  obtain ⟨d, hd⟩ := Nat.exists_eq_add_of_le hk
  induction d generalizing k with
  | zero =>
      obtain rfl : e.outerLevel = k := hd
      exact hOwn
  | succ d ih =>
      have hNext := ih (show k + 1 ≤ e.outerLevel by omega) (by omega)
      have hSix := outerLevel_le_six e
      have hPos := length_tokens_pos e
      intro rest hRest
      have hRead := hNext rest (hRest.mono (Nat.le_succ k))
      rw [more_of_noTighter _ _ hRest (Nat.lt_succ_self k)] at hRead
      rw [decide_eq_true (show k < e.outerLevel by omega)]
      refine readFrom_of_readFrom_succ (by omega) ?_ hRead ?_
      · rintro rfl
        exact head_tokens_ne_not hFits (by omega) rest
      · rw [List.length_append]
        omega

/-- Where the run of the level ends, what was read is the expression. -/
theorem ReadsFrom.eq_some {e : Expr} {k : Nat} (h : ReadsFrom e k) {rest : List Token}
    (hRest : ∀ t ∈ rest.head?, ∀ op, operator t = some op → level op < k) :
    readFrom k (e.tokens ++ rest) = some (e.tree, rest) := by
  have hLoose : NoTighter k rest := fun t ht op hOp => Nat.le_of_lt (hRest t ht op hOp)
  rw [h rest hLoose]
  exact more_eq_some _ _ fun t ht op hOp => Nat.ne_of_lt (hRest t ht op hOp)

/-- Where an expression of the tightest level is read as a factor. -/
theorem readsFrom_of_factor {e : Expr} (hLevel : e.outerLevel = 6)
    (h : ∀ rest, factor (e.tokens ++ rest) = some (e.tree, rest)) :
    ReadsFrom e e.outerLevel := by
  intro rest _
  have hSix : ∀ op, level op ≠ 6 := fun op hOp => by
    have hFive := (level_le_five op).1
    omega
  rw [hLevel, readFrom_six, h rest, more_eq_some _ _ fun _ _ op _ => hSix op]

theorem ReadsFrom.factor_eq {e : Expr} (h : ReadsFrom e 6) (rest : List Token) :
    factor (e.tokens ++ rest) = some (e.tree, rest) := by
  rw [← readFrom_six]
  exact h.eq_some fun _ _ op _ => Nat.lt_succ_of_le (level_le_five op).1

/-- A token that stands alone is a factor. -/
theorem factor_atom {t : Token} {a : Tree} (hAtom : atom t = some a) (rest : List Token) :
    factor (t :: rest) = some (a, rest) := by
  have hSymbol : ∀ text, t ≠ .symbol text := by
    rintro text rfl
    cases hAtom
  rw [factor]
  simp only [if_neg (hSymbol _), hAtom, Option.map_some]

theorem atom_name {text : String} (h : text ∉ keywords) :
    atom (.word text) = some (.name text) := by
  have hOther : text ≠ "True" ∧ text ≠ "False" ∧ text ≠ "None" := by
    refine ⟨?_, ?_, ?_⟩ <;> rintro rfl <;> exact h (by decide)
  unfold atom
  split <;> simp_all

theorem factor_neg {ts rest : List Token} {t : Tree} (h : factor ts = some (t, rest)) :
    factor (.symbol "-" :: ts) = some (.neg t, rest) := by
  rw [factor, if_pos rfl, h]
  rfl

theorem factor_brackets {ts rest : List Token} {t : Tree}
    (h : readFrom 0 ts = some (t, .symbol ")" :: rest)) :
    factor (.symbol "(" :: ts) = some (t, rest) := by
  rw [factor, if_neg (by decide), if_pos rfl, h]
  rfl

/-- The rule of negations reads a negation. -/
theorem readsFrom_not {operand : Expr} (h : ReadsFrom operand 2) :
    ReadsFrom (.not operand) 2 := by
  intro rest hRest
  have hTwo : ∀ op, level op ≠ 2 := fun op => (level_le_five op).2
  have hOperand := h rest hRest
  rw [more_eq_some _ _ fun _ _ op _ => hTwo op] at hOperand ⊢
  show readFrom 2 (.word "not" :: (operand.tokens ++ rest)) = _
  rw [readFrom, if_neg (by decide), dif_pos ⟨rfl, rfl⟩]
  simp only [List.tail_cons, hOperand, Option.map_some]
  rfl

/-- An operand, an operator of the level and an operand of a tighter one. -/
theorem readsFrom_binary {op : BinaryOp} {left right : Expr}
    (hFirst : level op = 3 → 3 < left.outerLevel) (hLeft : ReadsFrom left (level op))
    (hRight : ReadsFrom right (level op + 1)) :
    ReadsFrom (.binary op left right) (level op) := by
  intro rest hRest
  have hOperator := operator_operatorToken op
  have hPos := length_tokens_pos right
  have hReadRight := hRight rest (hRest.mono (Nat.le_succ _))
  rw [more_of_noTighter _ _ hRest (Nat.lt_succ_self _)] at hReadRight
  have hReadLeft := hLeft (operatorToken op :: (right.tokens ++ rest))
    (noTighter_cons _ hOperator (Nat.le_refl _))
  -- A comparison is the first of its run, because its left operand is none.
  have hJoin : join (decide (level op < left.outerLevel)) op left.tree right.tree =
      .binary op left.tree right.tree := by
    refine if_neg fun h => ?_
    have hLess := hFirst h.1
    have hNone := of_decide_eq_false h.2
    omega
  rw [Expr.tokens, List.append_assoc, List.cons_append, hReadLeft, more, hOperator]
  simp only [if_true, hReadRight, List.length_append, hJoin]
  rw [if_pos (by omega)]
  have hOwn : decide (level op < (Expr.binary op left right).outerLevel) = false :=
    decide_eq_false (Nat.lt_irrefl _)
  rw [hOwn]
  rfl

/-- Every rule that an expression may stand in reads it as its tree. -/
theorem readsFrom_tokens {e : Expr} (hFits : e.Fits) :
    ∀ k ≤ e.outerLevel, ReadsFrom e k := by
  suffices hOwn : ReadsFrom e e.outerLevel from fun k hk => hOwn.of_le hFits hk
  induction e with
  | name text => exact readsFrom_of_factor rfl (factor_atom (atom_name hFits))
  | number text => exact readsFrom_of_factor rfl (factor_atom rfl)
  | quoted quote body => exact readsFrom_of_factor rfl (factor_atom rfl)
  | truth value => cases value <;> exact readsFrom_of_factor rfl (factor_atom rfl)
  | nothing => exact readsFrom_of_factor rfl (factor_atom rfl)
  | not operand ih => exact readsFrom_not ((ih hFits.2).of_le hFits.2 hFits.1)
  | neg operand ih =>
      have hOperand := (ih hFits.2).of_le hFits.2 hFits.1
      exact readsFrom_of_factor rfl fun rest => factor_neg (hOperand.factor_eq rest)
  | brackets inner ih =>
      have hFitsInner : inner.Fits := hFits
      have hInner := (ih hFitsInner).of_le hFitsInner (Nat.zero_le _)
      refine readsFrom_of_factor rfl fun rest => ?_
      rw [Expr.tokens, List.cons_append, List.append_assoc]
      refine factor_brackets (hInner.eq_some fun t ht op hOp => ?_)
      obtain rfl := Option.some.inj ht
      cases hOp
  | binary op left right ihLeft ihRight =>
      obtain ⟨hLevel, hFirst, hRightLevel, hFitsLeft, hFitsRight⟩ := hFits
      exact readsFrom_binary hFirst ((ihLeft hFitsLeft).of_le hFitsLeft hLevel)
        ((ihRight hFitsRight).of_le hFitsRight hRightLevel)

/-- The text of an expression with the brackets that it needs is read as its tree. -/
theorem read_text {e : Expr} (hSpelled : e.Spelled) (hFits : e.Fits) :
    read e.text = some e.tree := by
  have hRead : readFrom 0 e.tokens = some (e.tree, []) := by
    have hTree := readsFrom_tokens hFits 0 (Nat.zero_le _) [] (fun _ h => by cases h)
    rw [List.append_nil, more] at hTree
    exact hTree
  rw [read, tokenize_text_nil hSpelled, Option.bind_some, hRead]

-- Without its brackets a comparison of a comparison is a chained test.
example : read "(a < b) == c" =
    some (.binary .eq (.binary .lt (.name "a") (.name "b")) (.name "c")) := by
  decide +kernel

example : read "a < b == c" =
    some (.chained (.binary .lt (.name "a") (.name "b")) .eq (.name "c")) := by
  decide +kernel

end Target

end Braceless
