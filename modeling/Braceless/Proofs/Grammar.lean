import Braceless.Program
import Braceless.Proofs.Spelling
import Mathlib.Data.List.Forall2

/-!
# The grammar of the brace language

The rules relate a token list to the tree it is written for and to the number of
levels that its deepest part nests.  They say nothing about errors or limits: a
list is derived whole or not at all.

```
Program     → "public" "class" NAME "{" Main "}"  |  Statement*
Main        → "public" "static" "void" "main" "(" "String" "[" "]" NAME ")" Block
Statement   → Declaration | Update ";" | If | For | While | Print
Declaration → Type NAME ( "=" Logical )? ";"
Update      → NAME ( "++" | "--" | ( "=" | "+=" | "-=" ) Logical )
If          → "if" "(" Logical ")" Block ( "else" ( If | Block ) )?
For         → "for" "(" ( Declaration | Update ";" ) Logical ";" Update ")" Block
While       → "while" "(" Logical ")" Block
Print       → "System" "." "out" "." ( "println" | "print" ) "(" Logical? ")" ";"
Block       → "{" Statement* "}"
```

`Logical` and the levels of operators below it are the ranks of `Operand`.  A level
of nesting is opened by a block, by an `else if`, by a `Logical`, by a unary operator
and by every operator of a chain for all that follows it in the chain.

## Main definitions

* `BinaryOp.rank`, `BinaryOp.kind`: the binary operators and their tokens.
* `Grammar.Operand`, `Grammar.Chain`: expressions.
* `Grammar.IsStatement`: statements, with blocks and conditionals.
* `Grammar.IsProgram`: programs.
-/

namespace Braceless

/-! ## Operators -/

/-- How tightly an operator binds, loosest first. -/
def BinaryOp.rank : BinaryOp → Nat
  | or => 0
  | and => 1
  | eq | notEq => 2
  | gt | lt | gtEq | ltEq => 3
  | add | sub => 4
  | mul | div | rem => 5

/-- The token of a binary operator. -/
def BinaryOp.kind : BinaryOp → Token.Kind
  | or => .or
  | and => .and
  | eq => .equal
  | notEq => .notEqual
  | gt => .greater
  | lt => .less
  | gtEq => .greaterEqual
  | ltEq => .lessEqual
  | add => .plus
  | sub => .minus
  | mul => .star
  | div => .slash
  | rem => .percent

/-- The token of a unary operator. -/
def UnaryOp.kind : UnaryOp → Token.Kind
  | not => .not
  | neg => .minus

/-- The operators of a level are those of a rank, each behind its token. -/
def Parser.IsLevel (r : Nat) (ops : Parser.OperatorLevel) : Prop :=
  ∀ k op, ops.lookup k = some op ↔ op.rank = r ∧ k = op.kind

/-- The levels are the ranks, in order. -/
theorem Parser.exists_isLevel {r : Nat} (hr : r < 6) :
    ∃ ops, IsLevel r ops ∧
      operatorLevels.drop r = ops :: operatorLevels.drop (r + 1) := by
  have hTable : ∀ r < 6, ∀ k ∈ Token.Kind.all, ∀ op ∈ BinaryOp.all,
      ((operatorLevels.drop r).headD []).lookup k = some op ↔
        op.rank = r ∧ k = op.kind := by
    decide +kernel
  refine ⟨(operatorLevels.drop r).headD [], fun k op =>
    hTable r hr k (Token.Kind.mem_all k) op (BinaryOp.mem_all op), ?_⟩
  match r, hr with
  | 0, _ | 1, _ | 2, _ | 3, _ | 4, _ | 5, _ => rfl

/-- A token is a unary operator exactly if it is the token of one. -/
theorem Parser.unaryOp?_eq_some_iff {k : Token.Kind} {op : UnaryOp} :
    unaryOp? k = some op ↔ k = op.kind := by
  cases k <;> cases op <;> decide

namespace Grammar

/-! ## Expressions -/

/-- A token that is a literal. -/
inductive IsLiteral (t : Token) : Literal → Prop where
  | integer (hKind : t.kind = .integer) : IsLiteral t ⟨.int, t.text⟩
  | decimal (hKind : t.kind = .decimal) : IsLiteral t ⟨.double, t.text⟩
  | char {body : List Char} (hKind : t.kind = .char)
      (hText : QuotedText '\'' body t.text.toList) :
      IsLiteral t ⟨.char, String.ofList body⟩
  | string {body : List Char} (hKind : t.kind = .string)
      (hText : QuotedText '"' body t.text.toList) :
      IsLiteral t ⟨.str, String.ofList body⟩
  | truth (hWord : t.Spells "true" ∨ t.Spells "false") :
      IsLiteral t ⟨.boolean, t.text⟩

mutual

/-- What stands beside an operator that is looser than the rank.  The ranks 0 to 5
are those of the binary operators, and at 6 there are unary operators and factors.
All operators of one rank group to the left. -/
inductive Operand : Nat → List Token → Expr → Nat → Prop where
  | chain {r n m : Nat} {ts us : List Token} {first e : Expr} (hRank : r < 6)
      (hFirst : Operand (r + 1) ts first n) (hMore : Chain r first us e m) :
      Operand r (ts ++ us) e (max n m)
  | unary {op : UnaryOp} {t : Token} {ts : List Token} {e : Expr} {n : Nat}
      (hOp : t.kind = op.kind) (hOperand : Operand 6 ts e n) :
      Operand 6 (t :: ts) (.unary op e) (n + 1)
  | literal {t : Token} {l : Literal} (hLiteral : IsLiteral t l) :
      Operand 6 [t] (.literal l) 0
  | name {t : Token} (hName : t.IsName) : Operand 6 [t] (.identifier t.text t.pos) 0
  | group {opening closing : Token} {ts : List Token} {e : Expr} {n : Nat}
      (hOpen : opening.kind = .lParen) (hInner : Operand 0 ts e n)
      (hClose : closing.kind = .rParen) :
      Operand 6 (opening :: (ts ++ [closing])) (.group e) (n + 1)

/-- How a chain of operators of one rank goes on after `left`. -/
inductive Chain : Nat → Expr → List Token → Expr → Nat → Prop where
  | done {r : Nat} {left : Expr} : Chain r left [] left 0
  | more {op : BinaryOp} {t : Token} {ts us : List Token} {left right e : Expr}
      {n m : Nat} (hOp : t.kind = op.kind) (hRight : Operand (op.rank + 1) ts right n)
      (hMore : Chain op.rank (.binary op left right) us e m) :
      Chain op.rank left (t :: (ts ++ us)) e (max n m + 1)

end

/-- What stands beside a tighter operator stands beside a looser one. -/
theorem Operand.of_le {r k : Nat} {ts : List Token} {e : Expr} {n : Nat}
    (h : Operand k ts e n) (hr : r ≤ k) (hk : k ≤ 6) : Operand r ts e n := by
  induction hr with
  | refl => exact h
  | step hle ih =>
      have hChain := Operand.chain (by omega) h .done
      rw [List.append_nil, Nat.max_zero] at hChain
      exact ih hChain (by omega)

/-! ## Simple statements -/

/-- A declaration with its semicolon. -/
inductive IsDeclaration : List Token → Declaration → Nat → Prop where
  | plain {dataType : DataType} {type name semicolon : Token}
      (hType : type.Spells dataType.keyword) (hName : name.IsName)
      (hEnd : semicolon.kind = .semicolon) :
      IsDeclaration [type, name, semicolon] ⟨dataType, name.text, none, name.pos⟩ 0
  | valued {dataType : DataType} {type name equals semicolon : Token}
      {ts : List Token} {e : Expr} {n : Nat}
      (hType : type.Spells dataType.keyword) (hName : name.IsName)
      (hEquals : equals.kind = .assign) (hValue : Operand 0 ts e n)
      (hEnd : semicolon.kind = .semicolon) :
      IsDeclaration (type :: name :: equals :: (ts ++ [semicolon]))
        ⟨dataType, name.text, some e, name.pos⟩ (n + 1)

/-- The value that a variable gets from the operator after its name. -/
inductive IsNewValue (name : Token) : List Token → Expr → Nat → Prop where
  | set {t : Token} {ts : List Token} {e : Expr} {n : Nat} (hOp : t.kind = .assign)
      (hValue : Operand 0 ts e n) : IsNewValue name (t :: ts) e (n + 1)
  | increment {t : Token} (hOp : t.kind = .increment) :
      IsNewValue name [t]
        (.binary .add (.identifier name.text name.pos) (.literal ⟨.int, "1"⟩)) 0
  | decrement {t : Token} (hOp : t.kind = .decrement) :
      IsNewValue name [t]
        (.binary .sub (.identifier name.text name.pos) (.literal ⟨.int, "1"⟩)) 0
  | add {t : Token} {ts : List Token} {e : Expr} {n : Nat}
      (hOp : t.kind = .plusAssign) (hAmount : Operand 0 ts e n) :
      IsNewValue name (t :: ts)
        (.binary .add (.identifier name.text name.pos) e) (n + 1)
  | subtract {t : Token} {ts : List Token} {e : Expr} {n : Nat}
      (hOp : t.kind = .minusAssign) (hAmount : Operand 0 ts e n) :
      IsNewValue name (t :: ts)
        (.binary .sub (.identifier name.text name.pos) e) (n + 1)

/-- An assignment without its semicolon. -/
inductive IsUpdate : List Token → Assignment → Nat → Prop where
  | mk {name : Token} {ts : List Token} {e : Expr} {n : Nat} (hName : name.IsName)
      (hValue : IsNewValue name ts e n) :
      IsUpdate (name :: ts) ⟨name.text, e, name.pos⟩ n

/-- An assignment with its semicolon. -/
inductive IsAssignment : List Token → Assignment → Nat → Prop where
  | mk {ts : List Token} {semicolon : Token} {a : Assignment} {n : Nat}
      (hUpdate : IsUpdate ts a n) (hEnd : semicolon.kind = .semicolon) :
      IsAssignment (ts ++ [semicolon]) a n

/-- The first part of the header of a counting loop. -/
inductive IsForInit : List Token → ForInit → Nat → Prop where
  | declaration {ts : List Token} {d : Declaration} {n : Nat}
      (h : IsDeclaration ts d n) : IsForInit ts (.declaration d) n
  | assignment {ts : List Token} {a : Assignment} {n : Nat}
      (h : IsAssignment ts a n) : IsForInit ts (.assignment a) n

/-- The word for output, which says whether the line ends. -/
inductive IsPrintMethod (t : Token) : Bool → Prop where
  | line (h : t.Spells "println") : IsPrintMethod t true
  | part (h : t.Spells "print") : IsPrintMethod t false

/-- What stands between the brackets of an output statement. -/
inductive IsPrintArgument : List Token → Option Expr → Nat → Prop where
  | none : IsPrintArgument [] none 0
  | some {ts : List Token} {e : Expr} {n : Nat} (h : Operand 0 ts e n) :
      IsPrintArgument ts (some e) (n + 1)

/-- Tokens that satisfy the given conditions one by one. -/
abbrev Sequence (conditions : List (Token → Prop)) (ts : List Token) : Prop :=
  List.Forall₂ (fun condition t => condition t) conditions ts

/-- What stands between the first word of an output statement and the method. -/
def printPath : List (Token → Prop) :=
  [(·.kind = .dot), (·.Spells "out"), (·.kind = .dot)]

/-! ## Compound statements -/

mutual

/-- A statement. -/
inductive IsStatement : List Token → Stmt → Nat → Prop where
  | declaration {ts : List Token} {d : Declaration} {n : Nat}
      (h : IsDeclaration ts d n) : IsStatement ts (.declaration d) n
  | assignment {ts : List Token} {a : Assignment} {n : Nat}
      (h : IsAssignment ts a n) : IsStatement ts (.assignment a) n
  | ifElse {ts : List Token} {i : IfStatement} {n : Nat} (h : IsConditional ts i n) :
      IsStatement ts (.ifElse i) n
  | forLoop {word opening semicolon closing : Token} {is cs us bs : List Token}
      {init : ForInit} {condition : Expr} {update : Assignment} {body : List Stmt}
      {k n m l : Nat} (hWord : word.Spells "for") (hOpen : opening.kind = .lParen)
      (hInit : IsForInit is init k) (hCondition : Operand 0 cs condition n)
      (hSemicolon : semicolon.kind = .semicolon) (hUpdate : IsUpdate us update m)
      (hClose : closing.kind = .rParen) (hBody : IsBlock bs body l) :
      IsStatement (word :: opening :: (is ++ (cs ++ semicolon :: (us ++ closing :: bs))))
        (.forLoop init condition (some update) body word.pos)
        (max k (max (n + 1) (max m l)))
  | whileLoop {word opening closing : Token} {cs bs : List Token} {condition : Expr}
      {body : List Stmt} {n m : Nat} (hWord : word.Spells "while")
      (hOpen : opening.kind = .lParen) (hCondition : Operand 0 cs condition n)
      (hClose : closing.kind = .rParen) (hBody : IsBlock bs body m) :
      IsStatement (word :: opening :: (cs ++ closing :: bs))
        (.whileLoop condition body word.pos) (max (n + 1) m)
  | print {word method opening closing semicolon : Token} {path as : List Token}
      {newline : Bool} {argument : Option Expr} {n : Nat}
      (hWord : word.Spells "System") (hPath : Sequence printPath path)
      (hMethod : IsPrintMethod method newline) (hOpen : opening.kind = .lParen)
      (hArgument : IsPrintArgument as argument n) (hClose : closing.kind = .rParen)
      (hEnd : semicolon.kind = .semicolon) :
      IsStatement (word :: (path ++ method :: opening :: (as ++ [closing, semicolon])))
        (.print argument newline word.pos) n

/-- A run of statements. -/
inductive IsStatements : List Token → List Stmt → Nat → Prop where
  | nil : IsStatements [] [] 0
  | cons {ts us : List Token} {s : Stmt} {ss : List Stmt} {n m : Nat}
      (hHead : IsStatement ts s n) (hTail : IsStatements us ss m) :
      IsStatements (ts ++ us) (s :: ss) (max n m)

/-- A braced run of statements. -/
inductive IsBlock : List Token → List Stmt → Nat → Prop where
  | mk {opening closing : Token} {ts : List Token} {body : List Stmt} {n : Nat}
      (hOpen : opening.kind = .lBrace) (hBody : IsStatements ts body n)
      (hClose : closing.kind = .rBrace) :
      IsBlock (opening :: (ts ++ [closing])) body (n + 1)

/-- A conditional with all its branches. -/
inductive IsConditional : List Token → IfStatement → Nat → Prop where
  | mk {word opening closing : Token} {cs bs es : List Token} {condition : Expr}
      {body : List Stmt} {orElse : Else} {n m l : Nat} (hWord : word.Spells "if")
      (hOpen : opening.kind = .lParen) (hCondition : Operand 0 cs condition n)
      (hClose : closing.kind = .rParen) (hBody : IsBlock bs body m)
      (hElse : IsElse es orElse l) :
      IsConditional (word :: opening :: (cs ++ closing :: (bs ++ es)))
        ⟨condition, body, orElse, word.pos⟩ (max (n + 1) (max m l))

/-- What follows the first branch of a conditional. -/
inductive IsElse : List Token → Else → Nat → Prop where
  | none : IsElse [] .none 0
  | elseIf {word : Token} {ts : List Token} {i : IfStatement} {n : Nat}
      (hWord : word.Spells "else") (h : IsConditional ts i n) :
      IsElse (word :: ts) (.elseIf i) (n + 1)
  | block {word : Token} {ts : List Token} {body : List Stmt} {n : Nat}
      (hWord : word.Spells "else") (h : IsBlock ts body n) :
      IsElse (word :: ts) (.block body) n

end

/-- A token that can start a statement. -/
inductive StartsStatement (t : Token) : Prop where
  | type (dataType : DataType) (h : t.Spells dataType.keyword)
  | name (h : t.IsName)
  | word (w : String) (hw : w ∈ ["if", "for", "while", "System"]) (h : t.Spells w)

theorem IsUpdate.exists_cons {ts : List Token} {a : Assignment} {n : Nat}
    (h : IsUpdate ts a n) : ∃ t us, ts = t :: us ∧ t.IsName := by
  cases h with
  | mk hName _ => exact ⟨_, _, rfl, hName⟩

/-- An assignment starts with a name. -/
theorem IsAssignment.exists_cons {ts : List Token} {a : Assignment} {n : Nat}
    (h : IsAssignment ts a n) : ∃ t us, ts = t :: us ∧ t.IsName := by
  cases h with
  | mk hUpdate _ =>
      obtain ⟨t, us, rfl, hName⟩ := hUpdate.exists_cons
      exact ⟨t, _, rfl, hName⟩

/-- A statement is not empty, and its first token says what it is. -/
theorem IsStatement.exists_cons {ts : List Token} {s : Stmt} {n : Nat}
    (h : IsStatement ts s n) : ∃ t us, ts = t :: us ∧ StartsStatement t := by
  cases h with
  | declaration h =>
      cases h with
      | plain hType _ _ => exact ⟨_, _, rfl, .type _ hType⟩
      | valued hType _ _ _ _ => exact ⟨_, _, rfl, .type _ hType⟩
  | assignment h =>
      obtain ⟨t, us, rfl, hName⟩ := h.exists_cons
      exact ⟨t, us, rfl, .name hName⟩
  | ifElse h =>
      cases h with
      | mk hWord _ _ _ _ _ => exact ⟨_, _, rfl, .word _ (by simp) hWord⟩
  | forLoop hWord _ _ _ _ _ _ _ => exact ⟨_, _, rfl, .word _ (by simp) hWord⟩
  | whileLoop hWord _ _ _ _ => exact ⟨_, _, rfl, .word _ (by simp) hWord⟩
  | print hWord _ _ _ _ _ _ => exact ⟨_, _, rfl, .word _ (by simp) hWord⟩

theorem StartsStatement.kind_ne {t : Token} (h : StartsStatement t) :
    t.kind ≠ .rBrace ∧ t.kind ≠ .eof := by
  cases h with
  | type dataType h =>
      rw [h.1]
      split <;> decide
  | name h =>
      rw [h.1]
      decide
  | word w _ h =>
      rw [h.1]
      split <;> decide

/-- The words that start no statement. -/
theorem StartsStatement.isWord_eq_false {t : Token} (h : StartsStatement t) {word : String}
    (hWord : word ∈ ["else", "public", "class"]) : t.isWord word = false := by
  cases h with
  | type dataType h =>
      rw [Token.isWord_eq_of_spells h]
      revert word
      cases dataType <;> decide
  | name h =>
      refine h.isWord_eq_false ?_
      revert word
      decide
  | word w hw h =>
      rw [Token.isWord_eq_of_spells h]
      clear h
      revert word w
      decide

/-! ## Programs -/

/-- The words before the name of a class. -/
def classHead : List (Token → Prop) :=
  [(·.Spells "public"), (·.Spells "class")]

/-- What stands between the name of a class and the parameter of its entry
procedure. -/
def entryHead : List (Token → Prop) :=
  [(·.kind = .lBrace), (·.Spells "public"), (·.Spells "static"), (·.Spells "void"),
   (·.Spells "main"), (·.kind = .lParen), (·.Spells "String"), (·.kind = .lBracket),
   (·.kind = .rBracket)]

/-- A program in either form. -/
inductive IsProgram : List Token → Program → Nat → Prop where
  | script {ts : List Token} {body : List Stmt} {n : Nat} (h : IsStatements ts body n) :
      IsProgram ts ⟨"Main", "args", body⟩ n
  | wrapped {hs es bs : List Token} {name param closing last : Token}
      {body : List Stmt} {n : Nat} (hHead : Sequence classHead hs)
      (hName : name.IsName) (hEntry : Sequence entryHead es) (hParam : param.IsName)
      (hClose : closing.kind = .rParen) (hBody : IsBlock bs body n)
      (hLast : last.kind = .rBrace) :
      IsProgram (hs ++ name :: (es ++ param :: closing :: (bs ++ [last])))
        ⟨name.text, param.text, body⟩ n

end Grammar

end Braceless
