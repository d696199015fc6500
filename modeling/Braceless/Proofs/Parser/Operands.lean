import Braceless.Proofs.Parser.Reads

/-!
# Reading expressions

An expression keeps the contract `Reads` on the tokens that the grammar derives for it,
whatever its depth.  An operator of a chain, a unary operator and a bracket each take a
level.  If one of them does not fit, then the rest of the expression around it is
skipped, and the chains that are still open find no operator where the skipping ends.

## Main definitions

* `NoOperator`: tokens that do not go on with an operator of a rank.
* `Reaches`: where an expression ends, or what is left after skipping.

## Main results

* `reads_binary`, `reads_chain`: operands and chains of every rank.
* `reads_expression`: expressions, up to the token that ends them.
-/

namespace Braceless

namespace Parser

open Grammar

/-! ## Where chains end -/

/-- No operator of the given rank or a tighter one comes first. -/
def NoOperator (r : Nat) (ts : List Token) : Prop :=
  ∀ t ∈ ts.head?, ∀ op : BinaryOp, t.kind = op.kind → op.rank < r

theorem NoOperator.mono {r k : Nat} {ts : List Token} (h : NoOperator r ts) (hr : r ≤ k) :
    NoOperator k ts :=
  fun t ht op hOp => Nat.lt_of_lt_of_le (h t ht op hOp) hr

theorem noOperator_six (ts : List Token) : NoOperator 6 ts := by
  intro t _ op _
  cases op <;> decide

theorem noOperator_cons {t : Token} {ts : List Token} {r : Nat}
    (h : ∀ op : BinaryOp, t.kind ≠ op.kind) : NoOperator r (t :: ts) := by
  intro u hu op hOp
  obtain rfl := Option.some.inj hu
  exact absurd hOp (h op)

theorem BinaryOp.kind_injective {op op' : BinaryOp} (h : op.kind = op'.kind) : op = op' := by
  cases op <;> cases op' <;> first | rfl | cases h

/-- Skipping ends where no chain goes on. -/
theorem noOperator_afterExpression (opened : Nat) (ts : List Token) :
    NoOperator 0 (afterExpression opened ts) := by
  induction ts generalizing opened with
  | nil => nofun
  | cons t ts ih =>
      have hStop : t.kind ∈ [.semicolon, .rParen, .rBrace] → NoOperator 0 (t :: ts) := by
        intro hKind
        refine noOperator_cons fun op hOp => ?_
        rw [hOp] at hKind
        revert hKind
        cases op <;> decide
      unfold afterExpression
      split
      · split
        · exact hStop (by simp [*])
        · exact ih _
      · exact ih _
      · exact ih _
      · split
        · exact hStop (by simp [*])
        · exact ih _
      · split
        · exact hStop (by simp [*])
        · exact ih _
      · exact ih _

theorem noOperator_of_stop {t : Token} (ts : List Token)
    (h : t.kind = .semicolon ∨ t.kind = .rParen) : NoOperator 0 (t :: ts) := by
  rw [← afterExpression_of_stop ts h]
  exact noOperator_afterExpression 0 _

/-- A chain goes on with an operator of its own rank. -/
theorem noOperator_chain {r : Nat} {left e : Expr} {us rest : List Token} {n : Nat}
    (h : Chain r left us e n) (hRest : NoOperator r rest) : NoOperator (r + 1) (us ++ rest) := by
  cases h with
  | done => exact hRest.mono (Nat.le_succ r)
  | @more op _ _ _ _ _ _ _ _ hOp _ _ =>
      intro u hu op' hOp'
      obtain rfl := Option.some.inj hu
      obtain rfl := BinaryOp.kind_injective (hOp.symm.trans hOp')
      exact Nat.lt_succ_self _

/-- Where an expression ends: all of its tokens are read, and `G` holds of it if its
levels fit; or they do not fit, and the expression around it is skipped. -/
def Reaches (room n : Nat) (rest : List Token) (G : Expr → Prop) (after : List Token)
    (e : Expr) : Prop :=
  (after = rest ∧ (n ≤ room → G e)) ∨ (room < n ∧ after = afterExpression 0 rest)

theorem Reaches.imp {room n : Nat} {rest after : List Token} {F G : Expr → Prop} {e e' : Expr}
    (h : Reaches room n rest F after e) (hG : F e → G e') : Reaches room n rest G after e' :=
  Or.imp_left (fun h => ⟨h.1, hG ∘ h.2⟩) h

/-- One more level within one more level of room. -/
theorem Reaches.succ {room n : Nat} {rest after : List Token} {G : Expr → Prop} {e : Expr}
    (h : Reaches room n rest G after e) : Reaches (room + 1) (n + 1) rest G after e := by
  unfold Reaches at h ⊢
  rwa [Nat.add_le_add_iff_right, Nat.add_lt_add_iff_right]

/-! ## Operands -/

theorem binary_nil (room : Nat) : binary room [] = unary room := by
  rw [binary]
  rfl

theorem binary_cons (room : Nat) (ops : OperatorLevel) (tighter : List OperatorLevel) :
    binary room (ops :: tighter) = binary room tighter >>= chain room ops tighter := by
  rw [binary, binary]
  rfl

/-- A chain ends where none of its operators comes first. -/
theorem reads_chain_done {room r : Nat} {ops : OperatorLevel} {tighter : List OperatorLevel}
    {left : Expr} {rest : List Token} (hLevel : IsLevel r ops) (hRest : NoOperator r rest) :
    Reads room 0 rest (chain room ops tighter left) (Yields room 0 rest left) := by
  have hNone : ∀ t : Token, (∀ op : BinaryOp, t.kind = op.kind → op.rank < r) →
      ops.lookup t.kind = none := by
    intro t ht
    rw [Option.eq_none_iff_forall_ne_some]
    intro op hOp
    obtain ⟨hRank, hKind⟩ := (hLevel t.kind op).mp hOp
    exact absurd (ht op hKind) (by omega)
  have hEnd : ∀ t : Token, t.kind = .eof → ops.lookup t.kind = none := by
    intro t ht
    refine hNone t fun op hOp => ?_
    rw [ht] at hOp
    cases op <;> cases hOp
  have hHere : Reads room 0 rest (operatorHere ops) (Yields room 0 rest none) :=
    (reads_current_of (fun t ht => hNone t (hRest t ht)) hEnd).map
      fun _ _ h => ⟨h.1, fun _ => h.2⟩
  rw [chain]
  exact hHere.andThen (.looks fun _ _ _ => rfl)

theorem reads_operatorHere {room r : Nat} {ops : OperatorLevel} {op : BinaryOp} {t : Token}
    {rest : List Token} (hLevel : IsLevel r ops) (hRank : op.rank = r)
    (hOp : t.kind = op.kind) :
    Reads room 0 (t :: rest) (operatorHere ops) (Yields room 0 (t :: rest) (some op)) := by
  have hRead : Reads room 0 (t :: rest) (operatorHere ops) (Yields room 0 (t :: rest) _) :=
    reads_current.map_yields
  rwa [(hLevel t.kind op).mpr ⟨hRank, hOp⟩] at hRead

/-- An operand and what its chain goes on with.  If the operand does not fit, then the
chain ends where the skipping does. -/
theorem reads_operand_chain {room r n m : Nat} {ops : OperatorLevel}
    {tighter : List OperatorLevel} {before us rest : List Token} {f : Expr → Expr}
    {F G : Expr → Prop} (hLevel : IsLevel r ops)
    (hus : Bracketed IsInline .lParen .rParen us)
    (hFirst : Reads room n before (binary room tighter) (Reaches room n (us ++ rest) F))
    (hChain : ∀ a, Reads room m (us ++ rest) (chain room ops tighter (f a))
      (Reaches room m rest fun e => F a → G e)) :
    Reads room (max n m) before
      (binary room tighter >>= fun a => chain room ops tighter (f a))
      (Reaches room (max n m) rest G) := by
  refine hFirst.bind_or_skip ?_
  rintro between a (⟨rfl, hGood⟩ | ⟨hDeep, rfl⟩)
  · refine .inl ((hChain a).mono ?_)
    rintro after e (⟨rfl, hNext⟩ | ⟨hDeep, rfl⟩)
    · exact .inl ⟨rfl, fun hFits => hNext (by omega) (hGood (by omega))⟩
    · exact .inr ⟨by omega, rfl⟩
  · have hEnd := (noOperator_afterExpression 0 (us ++ rest)).mono (Nat.zero_le r)
    refine .inr ⟨hDeep, (reads_chain_done hLevel hEnd).mono ?_⟩
    rintro _ e ⟨rfl, _⟩
    exact .inr ⟨by omega, afterExpression_append hus 0 rest⟩

/-- A literal is a factor. -/
theorem reads_factor_literal {room : Nat} {t : Token} {l : Literal} (rest : List Token)
    (h : IsLiteral t l) :
    Reads room 0 (t :: rest) (factor room) (Yields room 0 rest (.literal l)) := by
  have hHere : ∀ kind value, Reads room 0 (t :: rest) (literalHere kind value)
      (Yields room 0 rest (.literal ⟨kind, value⟩)) := fun _ _ => reads_advance.map_yields
  rw [factor]
  refine reads_current.andThen ?_
  cases h with
  | integer hKind =>
      rw [hKind]
      exact hHere _ _
  | decimal hKind =>
      rw [hKind]
      exact hHere _ _
  | char hKind hText =>
      rw [hKind, ← literalBody_of_quotedText (by decide) hText]
      exact hHere _ _
  | string hKind hText =>
      rw [hKind, ← literalBody_of_quotedText (by decide) hText]
      exact hHere _ _
  | truth hWord =>
      have hKind : t.kind = .keyword := hWord.elim (·.1) (·.1)
      have hText : t.text = "true" ∨ t.text = "false" := hWord.imp (·.2) (·.2)
      simp only [hKind, if_pos hText]
      exact hHere _ _

theorem reads_factor_name {room : Nat} {t : Token} (rest : List Token) (h : t.IsName) :
    Reads room 0 (t :: rest) (factor room)
      (Yields room 0 rest (.identifier t.text t.pos)) := by
  rw [factor]
  refine reads_current.andThen ?_
  rw [h.1]
  exact (reads_checkDeclared t).andThen reads_advance.map_yields

theorem reads_factor_group {room n : Nat} {opening closing : Token} {ts rest : List Token}
    {e : Expr} (hOpen : opening.kind = .lParen) (hClose : closing.kind = .rParen)
    (h : Reads room n (ts ++ closing :: rest) (expression room)
      (Yields room n (closing :: rest) e)) :
    Reads room n (opening :: (ts ++ closing :: rest)) (factor room)
      (Yields room n rest (.group e)) := by
  rw [factor]
  refine reads_current.andThen ?_
  rw [hOpen]
  refine reads_advance.andThen ((h.bind ?_).levels (Nat.max_zero n))
  rintro _ e' ⟨rfl, hValue⟩
  refine (reads_discard_expect _ hClose).andThen (.pure ⟨rfl, fun hFits => ?_⟩)
  rw [hValue hFits]

/-- A token that is no unary operator starts a factor. -/
theorem reads_unary_of_factor {room n : Nat} {t : Token} {rest : List Token}
    {Q : List Token → Expr → Prop} (ht : ∀ op : UnaryOp, t.kind ≠ op.kind)
    (h : Reads room n (t :: rest) (factor room) Q) :
    Reads room n (t :: rest) (unary room) Q := by
  have hNone : unaryOp? t.kind = none := by
    rw [Option.eq_none_iff_forall_ne_some]
    exact fun op hOp => ht op (unaryOp?_eq_some_iff.mp hOp)
  rw [unary]
  refine reads_current.andThen ?_
  rw [hNone]
  exact h

theorem reads_unary_operator {room n : Nat} {op : UnaryOp} {t : Token}
    {ts rest : List Token} {e : Expr} (hOp : t.kind = op.kind)
    (hts : Bracketed IsInline .lParen .rParen ts)
    (h : ∀ inner, Reads inner n (ts ++ rest) (unary inner) (Reaches inner n rest (· = e))) :
    Reads room (n + 1) (t :: (ts ++ rest)) (unary room)
      (Reaches room (n + 1) rest (· = .unary op e)) := by
  rw [unary]
  refine reads_current.andThen ?_
  rw [unaryOp?_eq_some_iff.mpr hOp]
  refine .nested ?_ ?_
  · rintro inner _ rfl
    refine reads_advance.andThen ((h inner).map fun _ e' hReach => ?_)
    exact hReach.succ.imp (congrArg (Expr.unary op))
  · rintro rfl
    refine reads_skipExpression.mono ?_
    rintro _ _ rfl
    refine .inr ⟨Nat.zero_lt_succ n, ?_⟩
    exact afterExpression_append (.cons (isInline_unary hOp) hts) 0 rest

/-- An expression ends at the semicolon or the bracket behind it, whether or not it
fits. -/
theorem reads_expression_of {room n : Nat} {ts : List Token} {e : Expr} {t : Token}
    {rest : List Token} (hts : Bracketed IsInline .lParen .rParen ts)
    (hStop : t.kind = .semicolon ∨ t.kind = .rParen)
    (h : ∀ inner, Reads inner n (ts ++ t :: rest) (binary inner operatorLevels)
      (Reaches inner n (t :: rest) (· = e))) :
    Reads room (n + 1) (ts ++ t :: rest) (expression room)
      (Yields room (n + 1) (t :: rest) e) := by
  have hEnd := afterExpression_of_stop rest hStop
  rw [expression]
  refine .nested ?_ ?_
  · rintro inner _ rfl
    refine (h inner).mono ?_
    rintro after e' (⟨rfl, hGood⟩ | ⟨hDeep, rfl⟩)
    · exact ⟨rfl, fun hFits => hGood (by omega)⟩
    · exact ⟨hEnd, fun hFits => by omega⟩
  · rintro rfl
    refine reads_skipExpression.mono ?_
    rintro _ _ rfl
    exact ⟨(afterExpression_append hts 0 _).trans hEnd, nofun⟩

/-- A literal starts with no unary operator. -/
theorem isLiteral_kind_ne {t : Token} {l : Literal} (h : IsLiteral t l) (op : UnaryOp) :
    t.kind ≠ op.kind := by
  cases h with
  | integer hKind => rw [hKind]; cases op <;> decide
  | decimal hKind => rw [hKind]; cases op <;> decide
  | char hKind _ => rw [hKind]; cases op <;> decide
  | string hKind _ => rw [hKind]; cases op <;> decide
  | truth hWord =>
      have hKind : t.kind = .keyword := hWord.elim (·.1) (·.1)
      rw [hKind]; cases op <;> decide

/-- A factor is an operand of the tightest rank. -/
theorem reads_binary_factor {room n : Nat} {t : Token} {ts rest : List Token} {e : Expr}
    (ht : ∀ op : UnaryOp, t.kind ≠ op.kind)
    (h : Reads room n (t :: ts) (factor room) (Yields room n rest e)) :
    Reads room n (t :: ts) (binary room (operatorLevels.drop 6))
      (Reaches room n rest (· = e)) := by
  show Reads _ _ _ (binary room []) _
  rw [binary_nil]
  exact (reads_unary_of_factor ht h).mono fun _ _ h => .inl h

mutual

/-- An operand of any rank. -/
theorem reads_binary {r : Nat} {ts : List Token} {e : Expr} {n : Nat} :
    Operand r ts e n → ∀ room rest, NoOperator r rest →
      Reads room n (ts ++ rest) (binary room (operatorLevels.drop r))
        (Reaches room n rest (· = e))
  | .chain hRank hFirst hMore, room, rest, hRest => by
      obtain ⟨ops, hLevel, hDrop⟩ := exists_isLevel hRank
      rw [hDrop, binary_cons, List.append_assoc]
      exact reads_operand_chain hLevel (bracketed_chain hMore)
        (reads_binary hFirst room _ (noOperator_chain hMore hRest))
        (fun left => reads_chain hMore room rest ops left hLevel hRest)
  | .unary hOp hOperand, room, rest, _ => by
      show Reads _ _ _ (binary room []) _
      rw [binary_nil]
      refine reads_unary_operator hOp (bracketed_operand hOperand) fun inner => ?_
      rw [← binary_nil]
      exact reads_binary hOperand inner rest (noOperator_six rest)
  | .literal hLiteral, room, rest, _ =>
      reads_binary_factor (isLiteral_kind_ne hLiteral) (reads_factor_literal rest hLiteral)
  | .name hName, room, rest, _ =>
      reads_binary_factor (fun op => by rw [hName.1]; cases op <;> decide)
        (reads_factor_name rest hName)
  | .group hOpen hInner hClose, room, rest, _ => by
      rw [List.cons_append, List.append_assoc]
      refine reads_binary_factor (fun op => by rw [hOpen]; cases op <;> decide)
        (reads_factor_group hOpen hClose ?_)
      refine reads_expression_of (bracketed_operand hInner) (.inr hClose) fun inner => ?_
      exact reads_binary hInner inner (_ :: rest) (noOperator_of_stop rest (.inr hClose))

/-- The rest of a chain, after any left operand. -/
theorem reads_chain {r : Nat} {left : Expr} {us : List Token} {e : Expr} {n : Nat} :
    Chain r left us e n → ∀ room rest ops left', IsLevel r ops → NoOperator r rest →
      Reads room n (us ++ rest) (chain room ops (operatorLevels.drop (r + 1)) left')
        (Reaches room n rest fun e' => left' = left → e' = e)
  | .done, room, rest, ops, left', hLevel, hRest =>
      (reads_chain_done hLevel hRest).mono fun _ _ h =>
        .inl ⟨h.1, fun _ hLeft => (h.2 (Nat.zero_le room)).trans hLeft⟩
  | @Chain.more op t ts us _ right _ n m hOp hRight hMore, room, rest, ops, left', hLevel,
      hRest => by
      rw [chain, List.cons_append, List.append_assoc]
      refine (reads_operatorHere hLevel rfl hOp).andThen (.nested ?_ ?_)
      · rintro inner _ rfl
        have hFirst := reads_binary hRight inner _ (noOperator_chain hMore hRest)
        have hNext : ∀ right', Reads inner m (us ++ rest)
            (chain inner ops (operatorLevels.drop (op.rank + 1)) (.binary op left' right'))
            (Reaches inner m rest fun e' => right' = right → left' = left → e' = e) := by
          intro right'
          refine (reads_chain hMore inner rest ops _ hLevel hRest).mono fun _ _ h => ?_
          refine h.imp fun hGood hRight hLeft => hGood ?_
          rw [hRight, hLeft]
        refine reads_advance.andThen ?_
        exact (reads_operand_chain hLevel (bracketed_chain hMore) hFirst hNext).mono
          fun _ _ h => h.succ
      · rintro rfl
        have hTokens : Bracketed IsInline .lParen .rParen (t :: (ts ++ us)) :=
          .cons (isInline_binary hOp) (.append (bracketed_operand hRight) (bracketed_chain hMore))
        have hSkip := afterExpression_append hTokens 0 rest
        rw [List.cons_append, List.append_assoc] at hSkip
        have hRead : Reads 0 0 (t :: (ts ++ (us ++ rest))) (discard skipExpression)
            (Yields 0 0 (afterExpression 0 rest) ()) :=
          reads_skipExpression.map fun _ _ h => ⟨h.trans hSkip, fun _ => rfl⟩
        exact hRead.andThen (.pure (.inr ⟨Nat.zero_lt_succ _, rfl⟩))

end

/-- An expression, whether or not it fits, up to the token that ends it. -/
theorem reads_expression {room n : Nat} {ts : List Token} {e : Expr} {t : Token}
    {rest : List Token} (h : Operand 0 ts e n)
    (hStop : t.kind = .semicolon ∨ t.kind = .rParen) :
    Reads room (n + 1) (ts ++ t :: rest) (expression room)
      (Yields room (n + 1) (t :: rest) e) := by
  refine reads_expression_of (bracketed_operand h) hStop fun inner => ?_
  exact reads_binary h inner (t :: rest) (noOperator_of_stop rest hStop)

end Parser

end Braceless
