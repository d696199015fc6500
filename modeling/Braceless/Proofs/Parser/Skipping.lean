import Braceless.Proofs.Grammar

/-!
# Skipping a derived phrase stops behind it

A phrase that is nested too deeply is skipped by counting brackets.  The tokens that
the grammar derives are bracketed properly, so the count comes out even, and what
is left is exactly what follows the phrase.

## Main definitions

* `Bracketed`: token lists in which the brackets of one pair match.

## Main results

* `afterExpression_append`: tokens of an expression do not end its skipping.
* `significant_program`: a parse sees all tokens of a program.
* `afterBalanced_block`: a block is skipped to its closing brace.
* `afterElseChain_conditional`: a conditional is skipped with all its branches.
-/

namespace Braceless

namespace Parser

open Grammar

/-! ## Bracketed token lists -/

/-- Token lists in which the brackets of one pair match and all other tokens are of
the given kinds. -/
inductive Bracketed (plain : Token.Kind → Prop) (opening closing : Token.Kind) :
    List Token → Prop where
  | nil : Bracketed plain opening closing []
  | plain {t : Token} (h : plain t.kind) : Bracketed plain opening closing [t]
  | append {ts us : List Token} (hLeft : Bracketed plain opening closing ts)
      (hRight : Bracketed plain opening closing us) :
      Bracketed plain opening closing (ts ++ us)
  | group {first last : Token} {ts : List Token} (hFirst : first.kind = opening)
      (h : Bracketed plain opening closing ts) (hLast : last.kind = closing) :
      Bracketed plain opening closing (first :: (ts ++ [last]))

namespace Bracketed

variable {plain : Token.Kind → Prop} {opening closing : Token.Kind} {ts us : List Token}

theorem cons {t : Token} (h : plain t.kind) (hts : Bracketed plain opening closing ts) :
    Bracketed plain opening closing (t :: ts) :=
  .append (.plain h) hts

theorem of_forall (h : ∀ t ∈ ts, plain t.kind) : Bracketed plain opening closing ts := by
  induction ts with
  | nil => exact .nil
  | cons t ts ih => exact .cons (h t (by simp)) (ih fun u hu => h u (by simp [hu]))

theorem mem (h : Bracketed plain opening closing ts) :
    ∀ t ∈ ts, plain t.kind ∨ t.kind = opening ∨ t.kind = closing := by
  induction h with
  | nil => simp
  | plain h => simpa using .inl h
  | append _ _ ihLeft ihRight =>
      intro t ht
      rcases List.mem_append.mp ht with ht | ht
      · exact ihLeft t ht
      · exact ihRight t ht
  | group hFirst _ hLast ih =>
      intro t ht
      simp only [List.mem_cons, List.mem_append, List.not_mem_nil, or_false] at ht
      rcases ht with rfl | ht | rfl
      · exact .inr (.inl hFirst)
      · exact ih t ht
      · exact .inr (.inr hLast)

/-- A walk that counts brackets, and that an opening and a closing bracket send back
to the count it had, is not changed by a bracketed list in front. -/
theorem walk_append (walk : Nat → List Token → List Token) (up : Nat → Nat)
    (hPlain : ∀ k t us, plain t.kind → walk k (t :: us) = walk k us)
    (hFirst : ∀ k t us, t.kind = opening → walk k (t :: us) = walk (up k) us)
    (hLast : ∀ k t us, t.kind = closing → walk (up k) (t :: us) = walk k us)
    (h : Bracketed plain opening closing ts) :
    ∀ k rest, walk k (ts ++ rest) = walk k rest := by
  induction h with
  | nil => exact fun _ _ => rfl
  | plain h => exact fun k rest => hPlain k _ rest h
  | append _ _ ihLeft ihRight =>
      intro k rest
      rw [List.append_assoc, ihLeft, ihRight]
  | group hOpen _ hClose ih =>
      intro k rest
      rw [List.cons_append, List.append_assoc, hFirst k _ _ hOpen, ih]
      exact hLast k _ rest hClose

end Bracketed

/-- The kinds that a parse sees and that are no braces. -/
def IsUnbraced (k : Token.Kind) : Prop :=
  k ≠ .lBrace ∧ k ≠ .rBrace ∧ k ≠ .eof ∧ k.isTrivia = false

/-- The kinds that stand in an expression beside its brackets. -/
def IsInline (k : Token.Kind) : Prop :=
  k ≠ .semicolon ∧ k ≠ .lParen ∧ k ≠ .rParen ∧ IsUnbraced k

instance (k : Token.Kind) : Decidable (IsUnbraced k) :=
  inferInstanceAs (Decidable (_ ∧ _))

instance (k : Token.Kind) : Decidable (IsInline k) :=
  inferInstanceAs (Decidable (_ ∧ _))

theorem isInline_of_spells {t : Token} {word : String} (h : t.Spells word) :
    IsInline t.kind := by
  rw [h.1]
  split <;> decide

theorem isUnbraced_of_spells {t : Token} {word : String} (h : t.Spells word) :
    IsUnbraced t.kind := by
  rw [h.1]
  split <;> decide

theorem isInline_of_isLiteral {t : Token} {l : Literal} (h : IsLiteral t l) :
    IsInline t.kind := by
  cases h with
  | integer hKind => rw [hKind]; decide
  | decimal hKind => rw [hKind]; decide
  | char hKind _ => rw [hKind]; decide
  | string hKind _ => rw [hKind]; decide
  | truth hWord => exact hWord.elim isInline_of_spells isInline_of_spells

theorem isInline_unary {t : Token} {op : UnaryOp} (h : t.kind = op.kind) :
    IsInline t.kind := by
  rw [h]
  cases op <;> decide

theorem isInline_binary {t : Token} {op : BinaryOp} (h : t.kind = op.kind) :
    IsInline t.kind := by
  rw [h]
  cases op <;> decide

/-! ## Expressions -/

mutual

theorem bracketed_operand {r : Nat} {ts : List Token} {e : Expr} {n : Nat} :
    Operand r ts e n → Bracketed IsInline .lParen .rParen ts
  | .chain _ hFirst hMore => .append (bracketed_operand hFirst) (bracketed_chain hMore)
  | .unary hOp hOperand => .cons (isInline_unary hOp) (bracketed_operand hOperand)
  | .literal hLiteral => .plain (isInline_of_isLiteral hLiteral)
  | .name hName => .plain (by rw [hName.1]; decide)
  | .group hOpen hInner hClose => .group hOpen (bracketed_operand hInner) hClose

theorem bracketed_chain {r : Nat} {left : Expr} {ts : List Token} {e : Expr} {n : Nat} :
    Chain r left ts e n → Bracketed IsInline .lParen .rParen ts
  | .done => .nil
  | .more hOp hRight hMore =>
      .cons (isInline_binary hOp) (.append (bracketed_operand hRight) (bracketed_chain hMore))

end

/-- An expression is not empty and does not start with a closing bracket. -/
theorem exists_cons_of_operand {r : Nat} {ts : List Token} {e : Expr} {n : Nat} :
    Operand r ts e n → ∃ t us, ts = t :: us ∧ t.kind ≠ .rParen
  | .chain _ hFirst _ => by
      obtain ⟨t, us, rfl, hKind⟩ := exists_cons_of_operand hFirst
      exact ⟨t, _, rfl, hKind⟩
  | .unary hOp _ => ⟨_, _, rfl, (isInline_unary hOp).2.2.1⟩
  | .literal hLiteral => ⟨_, _, rfl, (isInline_of_isLiteral hLiteral).2.2.1⟩
  | .name hName => ⟨_, _, rfl, by rw [hName.1]; decide⟩
  | .group hOpen _ _ => ⟨_, _, rfl, by rw [hOpen]; decide⟩

/-- Tokens of an expression do not end the skipping of the expression around them. -/
theorem afterExpression_append {ts : List Token}
    (h : Bracketed IsInline .lParen .rParen ts) (opened : Nat) (rest : List Token) :
    afterExpression opened (ts ++ rest) = afterExpression opened rest := by
  refine h.walk_append afterExpression (· + 1) ?_ ?_ ?_ opened rest
  · rintro k t us ⟨hSemicolon, hL, hR, hLB, hRB, _⟩
    rw [afterExpression]
    split <;> simp_all
  · intro k t us hKind
    rw [afterExpression, hKind]
  · intro k t us hKind
    rw [afterExpression, hKind]
    simp

theorem afterExpression_of_stop {t : Token} (ts : List Token)
    (h : t.kind = .semicolon ∨ t.kind = .rParen) : afterExpression 0 (t :: ts) = t :: ts := by
  rcases h with h | h <;> simp [afterExpression, h]

/-- Brackets of one pair are skipped through the bracket that closes the first. -/
theorem afterBalanced_group {plain : Token.Kind → Prop} {opening closing : Token.Kind}
    {first last : Token} {ts : List Token} (hPlain : ∀ k, plain k → k ≠ opening ∧ k ≠ closing)
    (hNe : opening ≠ closing) (hFirst : first.kind = opening)
    (h : Bracketed plain opening closing ts) (hLast : last.kind = closing)
    (rest : List Token) :
    afterBalanced opening closing (first :: (ts ++ last :: rest)) = rest := by
  have hWalk := h.walk_append (fun k => afterClosing opening closing (k + 1)) (· + 1)
    ?_ ?_ ?_ 0 (last :: rest)
  · rw [afterBalanced, if_pos hFirst, hWalk, afterClosing, if_neg (hLast ▸ hNe.symm),
      if_pos hLast]
    rfl
  · intro k t us hKind
    have hOther := hPlain t.kind hKind
    rw [afterClosing, if_neg hOther.1, if_neg hOther.2]
  · intro k t us hKind
    rw [afterClosing, if_pos hKind]
  · intro k t us hKind
    rw [afterClosing, if_neg (hKind ▸ hNe.symm), if_pos hKind, if_neg (by omega)]
    rfl

/-! ## Statements -/

theorem braced_operand {r : Nat} {ts : List Token} {e : Expr} {n : Nat}
    (h : Operand r ts e n) : Bracketed IsUnbraced .lBrace .rBrace ts := by
  refine .of_forall fun t ht => ?_
  rcases (bracketed_operand h).mem t ht with hInline | hKind | hKind
  · exact hInline.2.2.2
  · rw [hKind]; decide
  · rw [hKind]; decide

theorem braced_declaration {ts : List Token} {d : Declaration} {n : Nat}
    (h : IsDeclaration ts d n) : Bracketed IsUnbraced .lBrace .rBrace ts := by
  cases h with
  | plain hType hName hEnd =>
      refine .cons (isUnbraced_of_spells hType) (.cons ?_ (.plain ?_))
      · rw [hName.1]; decide
      · rw [hEnd]; decide
  | valued hType hName hEquals hValue hEnd =>
      refine .cons (isUnbraced_of_spells hType) (.cons ?_ (.cons ?_
        (.append (braced_operand hValue) (.plain ?_))))
      · rw [hName.1]; decide
      · rw [hEquals]; decide
      · rw [hEnd]; decide

theorem braced_newValue {name : Token} {ts : List Token} {e : Expr} {n : Nat}
    (h : IsNewValue name ts e n) : Bracketed IsUnbraced .lBrace .rBrace ts := by
  cases h with
  | set hOp hValue => exact .cons (by rw [hOp]; decide) (braced_operand hValue)
  | increment hOp => exact .plain (by rw [hOp]; decide)
  | decrement hOp => exact .plain (by rw [hOp]; decide)
  | add hOp hAmount => exact .cons (by rw [hOp]; decide) (braced_operand hAmount)
  | subtract hOp hAmount => exact .cons (by rw [hOp]; decide) (braced_operand hAmount)

theorem braced_update {ts : List Token} {a : Assignment} {n : Nat}
    (h : IsUpdate ts a n) : Bracketed IsUnbraced .lBrace .rBrace ts := by
  cases h with
  | mk hName hValue => exact .cons (by rw [hName.1]; decide) (braced_newValue hValue)

theorem braced_assignment {ts : List Token} {a : Assignment} {n : Nat}
    (h : IsAssignment ts a n) : Bracketed IsUnbraced .lBrace .rBrace ts := by
  cases h with
  | mk hUpdate hEnd => exact .append (braced_update hUpdate) (.plain (by rw [hEnd]; decide))

theorem braced_forInit {ts : List Token} {init : ForInit} {n : Nat}
    (h : IsForInit ts init n) : Bracketed IsUnbraced .lBrace .rBrace ts := by
  cases h with
  | declaration h => exact braced_declaration h
  | assignment h => exact braced_assignment h

theorem braced_printArgument {ts : List Token} {argument : Option Expr} {n : Nat}
    (h : IsPrintArgument ts argument n) : Bracketed IsUnbraced .lBrace .rBrace ts := by
  cases h with
  | none => exact .nil
  | some h => exact braced_operand h

theorem isUnbraced_printMethod {t : Token} {newline : Bool}
    (h : IsPrintMethod t newline) : IsUnbraced t.kind := by
  cases h with
  | line h => exact isUnbraced_of_spells h
  | part h => exact isUnbraced_of_spells h

/-- Tokens in a row under conditions that no brace meets. -/
theorem braced_sequence {conditions : List (Token → Prop)} {ts : List Token}
    (h : Sequence conditions ts)
    (hPlain : ∀ condition ∈ conditions, ∀ t, condition t → IsUnbraced t.kind) :
    Bracketed IsUnbraced .lBrace .rBrace ts := by
  induction h with
  | nil => exact .nil
  | cons hHead _ ih =>
      have hTail := ih fun condition hMem => hPlain condition (List.mem_cons_of_mem _ hMem)
      exact .cons (hPlain _ List.mem_cons_self _ hHead) hTail

theorem braced_printPath {ts : List Token} (h : Sequence printPath ts) :
    Bracketed IsUnbraced .lBrace .rBrace ts := by
  apply braced_sequence h
  intro condition hMem t ht
  simp only [printPath, List.mem_cons, List.not_mem_nil, or_false] at hMem
  rcases hMem with rfl | rfl | rfl
  · rw [ht]; decide
  · exact isUnbraced_of_spells ht
  · rw [ht]; decide

mutual

theorem braced_statement {ts : List Token} {s : Stmt} {n : Nat} :
    IsStatement ts s n → Bracketed IsUnbraced .lBrace .rBrace ts
  | .declaration h => braced_declaration h
  | .assignment h => braced_assignment h
  | .ifElse h => braced_conditional h
  | .forLoop hWord hOpen hInit hCondition hSemicolon hUpdate hClose hBody => by
      apply Bracketed.cons (isUnbraced_of_spells hWord)
      apply Bracketed.cons (by rw [hOpen]; decide)
      apply Bracketed.append (braced_forInit hInit)
      apply Bracketed.append (braced_operand hCondition)
      apply Bracketed.cons (by rw [hSemicolon]; decide)
      apply Bracketed.append (braced_update hUpdate)
      apply Bracketed.cons (by rw [hClose]; decide)
      exact braced_block hBody
  | .whileLoop hWord hOpen hCondition hClose hBody => by
      apply Bracketed.cons (isUnbraced_of_spells hWord)
      apply Bracketed.cons (by rw [hOpen]; decide)
      apply Bracketed.append (braced_operand hCondition)
      apply Bracketed.cons (by rw [hClose]; decide)
      exact braced_block hBody
  | .print hWord hPath hMethod hOpen hArgument hClose hEnd => by
      apply Bracketed.cons (isUnbraced_of_spells hWord)
      apply Bracketed.append (braced_printPath hPath)
      apply Bracketed.cons (isUnbraced_printMethod hMethod)
      apply Bracketed.cons (by rw [hOpen]; decide)
      apply Bracketed.append (braced_printArgument hArgument)
      apply Bracketed.cons (by rw [hClose]; decide)
      exact .plain (by rw [hEnd]; decide)

theorem braced_statements {ts : List Token} {ss : List Stmt} {n : Nat} :
    IsStatements ts ss n → Bracketed IsUnbraced .lBrace .rBrace ts
  | .nil => .nil
  | .cons hHead hTail => .append (braced_statement hHead) (braced_statements hTail)

theorem braced_block {ts : List Token} {body : List Stmt} {n : Nat} :
    IsBlock ts body n → Bracketed IsUnbraced .lBrace .rBrace ts
  | .mk hOpen hBody hClose => .group hOpen (braced_statements hBody) hClose

theorem braced_conditional {ts : List Token} {i : IfStatement} {n : Nat} :
    IsConditional ts i n → Bracketed IsUnbraced .lBrace .rBrace ts
  | .mk hWord hOpen hCondition hClose hBody hElse => by
      apply Bracketed.cons (isUnbraced_of_spells hWord)
      apply Bracketed.cons (by rw [hOpen]; decide)
      apply Bracketed.append (braced_operand hCondition)
      apply Bracketed.cons (by rw [hClose]; decide)
      exact .append (braced_block hBody) (braced_else hElse)

theorem braced_else {ts : List Token} {orElse : Else} {n : Nat} :
    IsElse ts orElse n → Bracketed IsUnbraced .lBrace .rBrace ts
  | .none => .nil
  | .elseIf hWord h => .cons (isUnbraced_of_spells hWord) (braced_conditional h)
  | .block hWord h => .cons (isUnbraced_of_spells hWord) (braced_block h)

end

theorem braced_classHead {ts : List Token} (h : Sequence classHead ts) :
    Bracketed IsUnbraced .lBrace .rBrace ts := by
  apply braced_sequence h
  intro condition hMem t ht
  simp only [classHead, List.mem_cons, List.not_mem_nil, or_false] at hMem
  rcases hMem with rfl | rfl
  · exact isUnbraced_of_spells ht
  · exact isUnbraced_of_spells ht

/-- Between its first brace and its parameter the head of a program holds no braces. -/
theorem braced_entryHead {ts : List Token} (h : Sequence entryHead.tail ts) :
    Bracketed IsUnbraced .lBrace .rBrace ts := by
  apply braced_sequence h
  intro condition hMem t ht
  simp only [entryHead, List.tail_cons, List.mem_cons, List.not_mem_nil, or_false] at hMem
  rcases hMem with rfl | rfl | rfl | rfl | rfl | rfl | rfl | rfl
  · exact isUnbraced_of_spells ht
  · exact isUnbraced_of_spells ht
  · exact isUnbraced_of_spells ht
  · exact isUnbraced_of_spells ht
  · rw [ht]; decide
  · exact isUnbraced_of_spells ht
  · rw [ht]; decide
  · rw [ht]; decide

/-- A program is bracketed, and a parse sees all of its tokens. -/
theorem braced_program {ts : List Token} {p : Program} {n : Nat} (h : IsProgram ts p n) :
    Bracketed IsUnbraced .lBrace .rBrace ts := by
  cases h with
  | script h => exact braced_statements h
  | wrapped hHead hName hEntry hParam hClose hBody hLast =>
      cases hEntry with
      | cons hOpen hWords =>
          have hBlock := braced_block hBody
          have hInside := (braced_entryHead hWords).append
            (.cons (by rw [hParam.1]; decide) (.cons (by rw [hClose]; decide) hBlock))
          have hGroup := Bracketed.group hOpen hInside hLast
          rw [List.append_assoc] at hGroup
          apply (braced_classHead hHead).append
          exact .cons (by rw [hName.1]; decide) hGroup

/-- A parse sees a program and an end marker as they are. -/
theorem significant_program {ts : List Token} {p : Program} {n : Nat} {stop : Token}
    (h : IsProgram ts p n) (hStop : stop.kind = .eof) : significant (ts ++ [stop]) = ts := by
  have hSeen : ∀ t ∈ ts, t.kind ≠ .eof ∧ t.isTrivia = false := by
    intro t ht
    rcases (braced_program h).mem t ht with hKind | hKind | hKind
    · exact hKind.2.2
    · rw [Token.isTrivia, hKind]; decide
    · rw [Token.isTrivia, hKind]; decide
  rw [significant_append_eof (fun t ht => (hSeen t ht).1) hStop]
  exact List.filter_eq_self.mpr fun t ht => by simp [(hSeen t ht).2]

/-- A block is skipped through its closing brace. -/
theorem afterBalanced_block {ts : List Token} {body : List Stmt} {n : Nat}
    (h : IsBlock ts body n) (rest : List Token) :
    afterBalanced .lBrace .rBrace (ts ++ rest) = rest := by
  cases h with
  | mk hOpen hBody hClose =>
      rw [List.cons_append, List.append_assoc]
      exact afterBalanced_group (fun _ h => ⟨h.1, h.2.1⟩) (by decide) hOpen (braced_statements hBody)
        hClose rest

/-- The condition of a conditional is skipped through its closing bracket. -/
theorem afterBalanced_condition {first last : Token} {ts : List Token} {e : Expr} {n : Nat}
    (hFirst : first.kind = .lParen) (h : Operand 0 ts e n) (hLast : last.kind = .rParen)
    (rest : List Token) :
    afterBalanced .lParen .rParen (first :: (ts ++ last :: rest)) = rest :=
  afterBalanced_group (fun _ h => ⟨h.2.1, h.2.2.1⟩) (by decide) hFirst (bracketed_operand h)
    hLast rest

/-! ## Conditionals -/

/-- The given word does not come first. -/
def NotAhead (word : String) (ts : List Token) : Prop :=
  ∀ t ∈ ts.head?, t.isWord word = false

theorem isWord_eq_false_of_kind {t : Token} {word : String} (hKeyword : t.kind ≠ .keyword)
    (hName : t.kind ≠ .identifier) : t.isWord word = false := by
  simp [Token.isWord, hKeyword, hName]

/-- One conditional is skipped without its other branches. -/
theorem afterConditional_if {word opening closing : Token} {cs bs : List Token}
    {condition : Expr} {body : List Stmt} {n m : Nat} (hWord : word.Spells "if")
    (hOpen : opening.kind = .lParen) (hCondition : Operand 0 cs condition n)
    (hClose : closing.kind = .rParen) (hBody : IsBlock bs body m) (rest : List Token) :
    afterConditional (word :: opening :: (cs ++ closing :: (bs ++ rest))) = rest := by
  rw [afterConditional, afterWord, if_pos (Token.isWord_of_spells hWord),
    afterBalanced_condition hOpen hCondition hClose, afterBalanced_block hBody]

/-- A last branch is skipped like a conditional that lacks its condition. -/
theorem afterConditional_block {ts : List Token} {body : List Stmt} {n : Nat}
    (h : IsBlock ts body n) (rest : List Token) : afterConditional (ts ++ rest) = rest := by
  have hSkip := afterBalanced_block h rest
  cases h with
  | @mk first last us _ _ hOpen _ _ =>
      have hIf : first.isWord "if" = false :=
        isWord_eq_false_of_kind (by simp [hOpen]) (by simp [hOpen])
      rw [List.cons_append] at hSkip ⊢
      rw [afterConditional, afterWord, hIf, if_neg (by decide), afterBalanced, hOpen,
        if_neg (by decide), hSkip]

/-- The skipping of a conditional ends where no further branch follows. -/
theorem afterElseChain_of_notAhead {ts rest : List Token} (h : afterConditional ts = rest)
    (hElse : NotAhead "else" rest) : afterElseChain ts = rest := by
  rw [afterElseChain]
  split
  · next hNil => exact hNil.symm.trans h
  · next t us hCons =>
      obtain rfl := hCons.symm.trans h
      rw [hElse t rfl, if_neg (by decide)]

/-- The skipping of a conditional goes on with the branch that follows. -/
theorem afterElseChain_of_cons {ts us : List Token} {word : Token}
    (h : afterConditional ts = word :: us) (hWord : word.Spells "else") :
    afterElseChain ts = afterElseChain us := by
  rw [afterElseChain]
  split
  · next hNil => rw [h] at hNil; cases hNil
  · next t vs hCons =>
      obtain ⟨rfl, rfl⟩ := List.cons.inj (hCons.symm.trans h)
      rw [if_pos (Token.isWord_of_spells hWord)]

mutual

/-- A conditional is skipped with all its branches. -/
theorem afterElseChain_conditional {ts : List Token} {i : IfStatement} {n : Nat} :
    IsConditional ts i n → ∀ rest, NotAhead "else" rest → afterElseChain (ts ++ rest) = rest
  | @IsConditional.mk _ _ _ _ _ es _ _ _ _ _ _ hWord hOpen hCondition hClose hBody hElse,
      rest, hRest => by
      have hFirst := afterConditional_if hWord hOpen hCondition hClose hBody (es ++ rest)
      simp only [List.cons_append, List.append_assoc]
      exact afterElseChain_else hElse rest hRest _ hFirst

theorem afterElseChain_else {es : List Token} {orElse : Else} {n : Nat} :
    IsElse es orElse n → ∀ rest, NotAhead "else" rest → ∀ ts,
      afterConditional ts = es ++ rest → afterElseChain ts = rest
  | .none, rest, hRest, ts, hFirst => afterElseChain_of_notAhead hFirst hRest
  | .elseIf hWord h, rest, hRest, ts, hFirst => by
      rw [afterElseChain_of_cons hFirst hWord]
      exact afterElseChain_conditional h rest hRest
  | .block hWord h, rest, hRest, ts, hFirst => by
      rw [afterElseChain_of_cons hFirst hWord]
      exact afterElseChain_of_notAhead (afterConditional_block h rest) hRest

end

end Parser

end Braceless
