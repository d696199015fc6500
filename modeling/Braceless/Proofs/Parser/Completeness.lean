import Braceless.Proofs.Parser.Operands

/-!
# A parse reads every program that the grammar derives

Every production keeps the contract `Reads` on the tokens of its rule.  So a derived
program is read to its last token whatever its depth: nothing is reported but variables
and the nesting limit, the limit is reported exactly where it is passed, and where it is
not the tree is the one that was derived.

## Main results

* `reads_statement`: statements.
* `reads_program`: programs.
* `nestingTooDeep_parse_iff`, `lawful_parse`: what a parse of a program reports.
-/

namespace Braceless

namespace Parser

open Grammar

/-! ## Simple statements -/

section Simple

variable {room n : Nat} {ts rest : List Token}

theorem reads_firstValue_none {t : Token} (h : t.kind = .semicolon) :
    Reads room 0 (t :: rest) (firstValue room) (Yields room 0 (t :: rest) none) := by
  unfold firstValue
  exact (reads_eat_other (by rw [h]; decide)).andThen (.looks fun _ _ _ => rfl)

theorem reads_firstValue_some {equals t : Token} {e : Expr} (hEquals : equals.kind = .assign)
    (hValue : Operand 0 ts e n) (hStop : t.kind = .semicolon) :
    Reads room (n + 1) (equals :: (ts ++ t :: rest)) (firstValue room)
      (Yields room (n + 1) (t :: rest) (some e)) := by
  unfold firstValue
  exact (reads_eat hEquals).andThen (reads_expression hValue (.inl hStop)).map_yields

theorem reads_declaration {d : Declaration} (h : IsDeclaration ts d n) :
    Reads room n (ts ++ rest) (declaration room d.dataType)
      (Found (Yields room n rest d)) := by
  unfold declaration
  cases h with
  | plain hType hName hEnd =>
      refine reads_advance.andThen ((reads_expect _ hName.1).andThen
        ((reads_declare _ _).andThen ((reads_firstValue_none hEnd).andThen ?_)))
      exact (reads_discard_expect _ hEnd).andThen (.pure ⟨rfl, fun _ => rfl⟩)
  | @valued _ _ _ _ _ _ _ k hType hName hEquals hValue hEnd =>
      simp only [List.cons_append, List.append_assoc]
      refine reads_advance.andThen ((reads_expect _ hName.1).andThen
        ((reads_declare _ _).andThen ?_))
      refine ((reads_firstValue_some hEquals hValue hEnd).bind ?_).levels (Nat.max_zero (k + 1))
      rintro _ value ⟨rfl, hExact⟩
      refine (reads_discard_expect _ hEnd).andThen (.pure ⟨rfl, fun hFits => ?_⟩)
      rw [hExact hFits]

theorem reads_updateValue {name : Token} {e : Expr} {t : Token} (what : String)
    (h : IsNewValue name ts e n) (hStop : t.kind = .semicolon ∨ t.kind = .rParen) :
    Reads room n (ts ++ t :: rest) (updateValue room name what)
      (Found (Yields room n (t :: rest) e)) := by
  have hStep : ∀ {op : Token} {us : List Token} (v : Expr),
      Reads room 0 (op :: us) (advance >>= fun _ => pure (some v))
        (Found (Yields room 0 us v)) := fun v =>
    reads_advance.andThen (.pure ⟨rfl, fun _ => rfl⟩)
  unfold updateValue
  cases h with
  | set hOp hValue =>
      refine reads_current.andThen ?_
      rw [hOp]
      exact reads_advance.andThen (reads_expression hValue hStop).found
  | increment hOp =>
      refine reads_current.andThen ?_
      rw [hOp]
      exact hStep _
  | decrement hOp =>
      refine reads_current.andThen ?_
      rw [hOp]
      exact hStep _
  | add hOp hAmount =>
      refine reads_current.andThen ?_
      rw [hOp]
      exact reads_advance.andThen (reads_expression hAmount hStop).found
  | subtract hOp hAmount =>
      refine reads_current.andThen ?_
      rw [hOp]
      exact reads_advance.andThen (reads_expression hAmount hStop).found

theorem reads_assignedValue {name : Token} {e : Expr} {t : Token}
    (h : IsNewValue name ts e n) (hStop : t.kind = .semicolon ∨ t.kind = .rParen) :
    Reads room n (ts ++ t :: rest) (assignedValue room name)
      (Yields room n (t :: rest) e) := by
  unfold assignedValue
  refine ((reads_updateValue _ h hStop).bind ?_).levels (Nat.max_zero n)
  intro _ o hFound
  cases o with
  | none => exact hFound.elim
  | some value => exact .pure hFound

theorem reads_assignment {a : Assignment} (h : IsAssignment ts a n) :
    Reads room n (ts ++ rest) (assignment room) (Yields room n rest a) := by
  cases h with
  | mk hUpdate hEnd =>
      cases hUpdate with
      | mk hName hValue =>
          unfold assignment
          rw [List.append_assoc]
          refine reads_current.andThen ((reads_checkDeclared _).andThen
            (reads_advance.andThen ?_))
          refine ((reads_assignedValue hValue (.inl hEnd)).bind ?_).levels (Nat.max_zero n)
          rintro _ value ⟨rfl, hExact⟩
          refine (reads_discard_expect _ hEnd).andThen (.pure ⟨rfl, fun hFits => ?_⟩)
          rw [hExact hFits]

theorem reads_printMethod {t : Token} {newline : Bool} (h : IsPrintMethod t newline) :
    Reads room 0 (t :: rest) printMethod (Yields room 0 rest newline) := by
  unfold printMethod
  cases h with
  | line h => exact (reads_eatWord h).andThen (.looks fun _ _ _ => rfl)
  | part h =>
      have hOther : NotAhead "println" (t :: rest) := by
        intro u hu
        obtain rfl := Option.some.inj hu
        rw [Token.isWord_eq_of_spells h]
        decide
      refine (reads_eatWord_notAhead hOther).andThen ?_
      exact (reads_eatWord h).andThen (.looks fun _ _ _ => rfl)

theorem reads_printArgument {argument : Option Expr} {t : Token}
    (h : IsPrintArgument ts argument n) (hStop : t.kind = .rParen) :
    Reads room n (ts ++ t :: rest) (printArgument room)
      (Yields room n (t :: rest) argument) := by
  unfold printArgument
  cases h with
  | none =>
      refine (reads_isAt _).andThen ?_
      rw [if_pos (beq_iff_eq.mpr hStop)]
      exact .looks fun _ _ _ => rfl
  | some h =>
      obtain ⟨u, us, rfl, hFirst⟩ := exists_cons_of_operand h
      refine (reads_isAt _).andThen ?_
      rw [if_neg (by simpa using hFirst)]
      exact (reads_expression h (.inr hStop)).map_yields

/-- An output statement, from its first word on. -/
theorem reads_printStatement {word method opening closing semicolon : Token}
    {path as : List Token} {newline : Bool} {argument : Option Expr}
    (hPath : Sequence printPath path) (hMethod : IsPrintMethod method newline)
    (hOpen : opening.kind = .lParen) (hArgument : IsPrintArgument as argument n)
    (hClose : closing.kind = .rParen) (hEnd : semicolon.kind = .semicolon) :
    Reads room n (word :: (path ++ method :: opening :: (as ++ closing :: semicolon :: rest)))
      (printStatement room) (Yields room n rest (.print argument newline word.pos)) := by
  simp only [printPath, Sequence, List.forall₂_cons_left_iff, List.forall₂_nil_left_iff]
    at hPath
  obtain ⟨first, _, hFirst, ⟨out, _, hOut, ⟨dot, _, hDot, rfl, rfl⟩, rfl⟩, rfl⟩ := hPath
  unfold printStatement
  refine reads_current.andThen (reads_advance.andThen
    ((reads_discard_expect _ hFirst).andThen ((reads_expectWord _ hOut).andThen
      ((reads_discard_expect _ hDot).andThen ((reads_printMethod hMethod).andThen
        ((reads_discard_expect _ hOpen).andThen ?_))))))
  refine ((reads_printArgument hArgument hClose).bind ?_).levels (Nat.max_zero n)
  rintro _ argument' ⟨rfl, hExact⟩
  refine (reads_discard_expect _ hClose).andThen
    ((reads_discard_expect _ hEnd).andThen (.pure ⟨rfl, fun hFits => ?_⟩))
  rw [hExact hFits]

/-! ## The header of a counting loop -/

/-- A token that starts no declaration. -/
theorem reads_typeHere_none {t : Token}
    (h : t.kind = .keyword → DataType.ofKeyword? t.text = none) :
    Reads room 0 (t :: rest) typeHere (Yields room 0 (t :: rest) none) := by
  have hType : (if t.kind = .keyword then DataType.ofKeyword? t.text else none) = none := by
    split
    · next hKind => exact h hKind
    · rfl
  have hRead : Reads room 0 (t :: rest) typeHere (Yields room 0 (t :: rest) _) :=
    reads_current.map_yields
  rwa [hType] at hRead

theorem reads_typeHere_name {t : Token} (h : t.IsName) :
    Reads room 0 (t :: rest) typeHere (Yields room 0 (t :: rest) none) :=
  reads_typeHere_none fun hKind => by rw [h.1] at hKind; cases hKind

theorem reads_typeHere_declaration {d : Declaration} (h : IsDeclaration ts d n) :
    Reads room 0 (ts ++ rest) typeHere (Yields room 0 (ts ++ rest) (some d.dataType)) := by
  cases h with
  | plain hType _ _ => exact reads_typeHere hType
  | valued hType _ _ _ _ => exact reads_typeHere hType

theorem Found.map {α β : Type} {a : α} {g : α → β} {after : List Token} {o : Option α}
    (h : Found (Yields room n rest a) after o) :
    Found (Yields room n rest (g a)) after (o.map g) := by
  cases o with
  | none => exact h.elim
  | some b => exact ⟨h.1, fun hFits => congrArg g (h.2 hFits)⟩

theorem reads_forInit {init : ForInit} (h : IsForInit ts init n) :
    Reads room n (ts ++ rest) (forInit room) (Found (Yields room n rest init)) := by
  unfold forInit
  cases h with
  | declaration h =>
      refine (reads_typeHere_declaration h).andThen ?_
      exact (reads_declaration h).map fun _ _ hFound => hFound.map
  | assignment h =>
      have hAssignment : Reads room n (ts ++ rest) _ _ := reads_assignment h
      obtain ⟨t, us, rfl, hName⟩ := h.exists_cons
      refine (reads_typeHere_name hName).andThen ((reads_isAt _).andThen ?_)
      rw [if_pos (beq_iff_eq.mpr hName.1)]
      exact hAssignment.map fun _ _ h => ⟨h.1, fun hFits => congrArg _ (h.2 hFits)⟩

theorem reads_forUpdate {a : Assignment} {t : Token} (h : IsUpdate ts a n)
    (hStop : t.kind = .rParen) :
    Reads room n (ts ++ t :: rest) (forUpdate room)
      (Yields room n (t :: rest) (some a)) := by
  unfold forUpdate
  cases h with
  | mk hName hValue =>
      refine (reads_expect _ hName.1).andThen ((reads_checkDeclared _).andThen ?_)
      refine (reads_updateValue _ hValue (.inr hStop)).map ?_
      intro after o hFound
      cases o with
      | none => exact hFound.elim
      | some value => exact ⟨hFound.1, fun hFits => by rw [hFound.2 hFits]; rfl⟩

end Simple

/-! ## Runs of statements -/

/-- The contract of the statements within a room. -/
def ReadsStatements (room : Nat) (step : Parse (Option Stmt)) : Prop :=
  ∀ ts s n rest, IsStatement ts s n → NotAhead "else" rest →
    Reads room n (ts ++ rest) step (Found (Yields room n rest s))

/-- The contract of the conditionals within a room. -/
def ReadsConditionals (room : Nat) : Prop :=
  ∀ ts i n rest, IsConditional ts i n → NotAhead "else" rest →
    Reads room n (ts ++ rest) (ifStatement room) (Yields room n rest i)

/-- The contract of the blocks within a room. -/
def ReadsBlocks (room : Nat) : Prop :=
  ∀ ts body n rest opening closing, IsBlock ts body n →
    Reads room n (ts ++ rest) (block room opening closing) (Yields room n rest body)

theorem reads_orDrop {room : Nat} {step : Parse (Option Stmt)}
    (h : ReadsStatements room step) : ReadsStatements room (orDrop step) := by
  intro ts s n rest hStatement hRest
  refine ((h ts s n rest hStatement hRest).bind ?_).levels (Nat.max_zero n)
  intro after o hFound
  cases o with
  | none => exact hFound.elim
  | some s' => exact .pure hFound

/-- No statement starts with a further branch. -/
theorem notAhead_statements {ts rest : List Token} {ss : List Stmt} {n : Nat}
    (h : IsStatements ts ss n) (hRest : NotAhead "else" rest) :
    NotAhead "else" (ts ++ rest) := by
  cases h with
  | nil => exact hRest
  | cons hHead _ =>
      obtain ⟨t, us, rfl, hStart⟩ := hHead.exists_cons
      intro u hu
      obtain rfl := Option.some.inj hu
      exact hStart.isWord_eq_false (by simp)

/-- A run of statements, up to a token that stops it.  Every turn reads a token, so a
bound of as many turns as there are tokens is no bound. -/
theorem reads_repeatUntil {room : Nat} {stop : Token → Bool} {step : Parse (Option Stmt)}
    {rest : List Token} (hStep : ReadsStatements room step)
    (hStart : ∀ t, StartsStatement t → stop t = false)
    (hStop : Reads room 0 rest current fun after t => after = rest ∧ stop t = true)
    (hRest : NotAhead "else" rest) {ts : List Token} {ss : List Stmt} {n : Nat} :
    IsStatements ts ss n → ∀ bound, ts.length ≤ bound →
      Reads room n (ts ++ rest) (repeatUntil stop step bound) (Yields room n rest ss)
  | .nil, 0, _ => .pure ⟨rfl, fun _ => rfl⟩
  | .nil, bound + 1, _ => by
      rw [repeatUntil]
      refine hStop.bind_flat ?_
      rintro _ t ⟨rfl, ht⟩
      rw [if_pos ht]
      exact .pure ⟨rfl, fun _ => rfl⟩
  | .cons hHead hTail, 0, hBound => by
      obtain ⟨t, us, rfl, _⟩ := hHead.exists_cons
      simp at hBound
  | @IsStatements.cons _ vs _ _ _ _ hHead hTail, bound + 1, hBound => by
      have hFirst := hStep _ _ _ _ hHead (notAhead_statements hTail hRest)
      obtain ⟨t, us, rfl, ht⟩ := hHead.exists_cons
      have hLength : vs.length ≤ bound := by
        simp only [List.cons_append, List.length_cons, List.length_append] at hBound
        omega
      have hMore := reads_repeatUntil hStep hStart hStop hRest hTail bound hLength
      rw [repeatUntil, List.append_assoc]
      refine reads_current.andThen ?_
      rw [if_neg (by simp [hStart t ht])]
      refine hFirst.bind fun _ o hFound => ?_
      cases o with
      | none => exact hFound.elim
      | some s' =>
          obtain ⟨rfl, hExact⟩ := hFound
          refine hMore.map ?_
          rintro _ ss' ⟨rfl, hExact'⟩
          refine ⟨rfl, fun hFits => ?_⟩
          rw [hExact (by omega), hExact' (by omega)]
          rfl

/-! ## Compound statements -/

/-- A block, given the statements with less room. -/
theorem reads_block {room : Nat}
    (hInner : ∀ inner, room = inner + 1 → ReadsStatements inner (statement inner)) :
    ReadsBlocks room := by
  intro ts body n rest _ _ h
  have hSkip := afterBalanced_block h rest
  cases h with
  | @mk first last us _ _ hOpen hBody hClose =>
      rw [List.cons_append, List.append_assoc] at hSkip ⊢
      rw [block]
      refine .nested ?_ ?_
      · rintro inner _ rfl
        have hStop : Reads inner 0 (last :: rest) current fun after t =>
            after = last :: rest ∧ endsBlock t = true :=
          reads_current.mono fun _ _ h =>
            ⟨h.1, by rw [h.2 (Nat.zero_le _)]; simp [endsBlock, hClose]⟩
        have hRest : NotAhead "else" (last :: rest) := by
          intro u hu
          obtain rfl := Option.some.inj hu
          exact isWord_eq_false_of_kind (by simp [hClose]) (by simp [hClose])
        have hStart : ∀ t, StartsStatement t → endsBlock t = false := by
          intro t ht
          simp [endsBlock, ht.kind_ne]
        refine (reads_discard_expect _ hOpen).andThen (.get fun s hs => ?_)
        have hBound : us.length ≤ s.rest.length := by
          rw [hs, List.length_append]
          exact Nat.le_add_right _ _
        have hRun := reads_repeatUntil (reads_orDrop (hInner inner rfl)) hStart hStop hRest
          hBody s.rest.length hBound
        refine (hRun.bind ?_).levels (Nat.max_zero _)
        rintro _ body' ⟨rfl, hExact⟩
        refine (reads_discard_expect _ hClose).andThen (.pure ⟨rfl, fun hFits => ?_⟩)
        exact hExact (Nat.le_of_succ_le_succ hFits)
      · rintro rfl
        refine (reads_skipTo _ (afterBalanced_suffix _ _ _)).andThen (.pure ⟨hSkip, nofun⟩)

/-- The branches after the first one, given the blocks within the same room and the
conditionals with less. -/
theorem reads_elseBranch {room n : Nat} {es rest : List Token} {orElse : Else}
    (hBlock : ReadsBlocks room) (hInner : ∀ inner, room = inner + 1 → ReadsConditionals inner)
    (h : IsElse es orElse n) (hRest : NotAhead "else" rest) :
    Reads room n (es ++ rest) (elseBranch room) (Yields room n rest orElse) := by
  rw [elseBranch]
  cases h with
  | none => exact (reads_eatWord_notAhead hRest).andThen (.pure ⟨rfl, fun _ => rfl⟩)
  | @elseIf _ ts i k hWord h =>
      refine (reads_eatWord hWord).andThen ?_
      have hAt : Reads room 0 (ts ++ rest) (isAtWord "if") (Yields room 0 (ts ++ rest) true) := by
        cases h with
        | mk hIf _ _ _ _ _ =>
            rw [← Token.isWord_of_spells hIf]
            exact reads_isAtWord "if"
      refine hAt.andThen ?_
      rw [if_pos rfl]
      refine .nested ?_ ?_
      · rintro inner _ rfl
        refine (hInner inner rfl ts i k rest h hRest).map ?_
        rintro _ i' ⟨rfl, hExact⟩
        exact ⟨rfl, fun hFits => by rw [hExact (Nat.le_of_succ_le_succ hFits)]⟩
      · rintro rfl
        refine (reads_skipTo _ (afterElseChain_suffix _)).andThen (.pure ⟨?_, nofun⟩)
        exact afterElseChain_conditional h rest hRest
  | block hWord h =>
      have hBody := hBlock _ _ _ rest "'\x7b' after 'else'" "'\x7d' to close else block" h
      refine (reads_eatWord hWord).andThen ?_
      cases h with
      | mk hOpen _ _ =>
          refine (reads_isAtWord _).andThen ?_
          rw [isWord_eq_false_of_kind (by simp [hOpen]) (by simp [hOpen]), if_neg (by decide)]
          exact hBody.map_yields

/-- A conditional, given the blocks and the further branches within the same room. -/
theorem reads_ifStatement {room : Nat} (hBlock : ReadsBlocks room)
    (hInner : ∀ inner, room = inner + 1 → ReadsConditionals inner) :
    ReadsConditionals room := by
  intro ts i n rest h hRest
  cases h with
  | mk hWord hOpen hCondition hClose hBody hElse =>
      simp only [List.cons_append, List.append_assoc]
      rw [ifStatement]
      refine reads_current.andThen (reads_advance.andThen
        ((reads_discard_expect _ hOpen).andThen ?_))
      refine (reads_expression hCondition (.inr hClose)).bind ?_
      rintro _ condition ⟨rfl, hExact⟩
      refine (reads_discard_expect _ hClose).andThen
        ((hBlock _ _ _ _ _ _ hBody).bind ?_)
      rintro _ body ⟨rfl, hExact'⟩
      refine (reads_elseBranch hBlock hInner hElse hRest).map ?_
      rintro _ orElse ⟨rfl, hExact''⟩
      refine ⟨rfl, fun hFits => ?_⟩
      rw [hExact (by omega), hExact' (by omega), hExact'' (by omega)]

theorem reads_forStatement {room k n m l : Nat} {word opening semicolon closing : Token}
    {is cs us bs rest : List Token} {init : ForInit} {condition : Expr}
    {update : Assignment} {body : List Stmt} (hBlock : ReadsBlocks room)
    (hOpen : opening.kind = .lParen) (hInit : IsForInit is init k)
    (hCondition : Operand 0 cs condition n) (hSemicolon : semicolon.kind = .semicolon)
    (hUpdate : IsUpdate us update m) (hClose : closing.kind = .rParen)
    (hBody : IsBlock bs body l) :
    Reads room (max k (max (n + 1) (max m l)))
      (word :: opening :: (is ++ (cs ++ semicolon :: (us ++ closing :: (bs ++ rest)))))
      (forStatement room) (Found (Yields room (max k (max (n + 1) (max m l))) rest
        (.forLoop init condition (some update) body word.pos))) := by
  rw [forStatement]
  refine reads_current.andThen (reads_advance.andThen
    ((reads_discard_expect _ hOpen).andThen ?_))
  refine (reads_forInit hInit).bind fun _ o hFound => ?_
  cases o with
  | none => exact hFound.elim
  | some init' =>
      obtain ⟨rfl, hExactInit⟩ := hFound
      refine (reads_expression hCondition (.inl hSemicolon)).bind ?_
      rintro _ condition' ⟨rfl, hExactCondition⟩
      refine (reads_discard_expect _ hSemicolon).andThen
        ((reads_forUpdate hUpdate hClose).bind ?_)
      rintro _ update' ⟨rfl, hExactUpdate⟩
      refine (reads_discard_expect _ hClose).andThen ((hBlock _ _ _ _ _ _ hBody).map ?_)
      rintro _ body' ⟨rfl, hExactBody⟩
      refine ⟨rfl, fun hFits => ?_⟩
      rw [hExactInit (by omega), hExactCondition (by omega), hExactUpdate (by omega),
        hExactBody (by omega)]

theorem reads_whileStatement {room n m : Nat} {word opening closing : Token}
    {cs bs rest : List Token} {condition : Expr} {body : List Stmt}
    (hBlock : ReadsBlocks room) (hOpen : opening.kind = .lParen)
    (hCondition : Operand 0 cs condition n) (hClose : closing.kind = .rParen)
    (hBody : IsBlock bs body m) :
    Reads room (max (n + 1) m) (word :: opening :: (cs ++ closing :: (bs ++ rest)))
      (whileStatement room)
      (Yields room (max (n + 1) m) rest (.whileLoop condition body word.pos)) := by
  rw [whileStatement]
  refine reads_current.andThen (reads_advance.andThen
    ((reads_discard_expect _ hOpen).andThen ?_))
  refine (reads_expression hCondition (.inr hClose)).bind ?_
  rintro _ condition' ⟨rfl, hExactCondition⟩
  refine (reads_discard_expect _ hClose).andThen ((hBlock _ _ _ _ _ _ hBody).map ?_)
  rintro _ body' ⟨rfl, hExactBody⟩
  refine ⟨rfl, fun hFits => ?_⟩
  rw [hExactCondition (by omega), hExactBody (by omega)]

/-! ## The choice of a statement -/

section Choice

variable {α : Type} {room n : Nat} {t : Token} {rest : List Token} {word other : String}
variable {p q : Parse α} {Q : List Token → α → Prop}

theorem Reads.chosen (h : t.Spells word) (hp : Reads room n (t :: rest) p Q) :
    Reads room n (t :: rest) (isAtWord word >>= fun b => if b = true then p else q) Q := by
  refine (reads_isAtWord word).andThen ?_
  rw [if_pos (Token.isWord_of_spells h)]
  exact hp

theorem Reads.passed (h : t.Spells other) (hOther : other ≠ word)
    (hq : Reads room n (t :: rest) q Q) :
    Reads room n (t :: rest) (isAtWord word >>= fun b => if b = true then p else q) Q := by
  refine (reads_isAtWord word).andThen ?_
  rw [Token.isWord_eq_of_spells h, if_neg (by simpa using hOther)]
  exact hq

/-- A keyword that is no type starts neither a declaration nor an assignment. -/
theorem Reads.worded {f : DataType → Parse α} (h : t.Spells word)
    (hWord : isKeyword word = true) (hType : DataType.ofKeyword? word = none)
    (hp : Reads room n (t :: rest) p Q) :
    Reads room n (t :: rest) (typeHere >>= fun o => match o with
      | some dataType => f dataType
      | none => isAt .identifier >>= fun b => if b = true then q else p) Q := by
  refine (reads_typeHere_none fun _ => by rw [h.2, hType]).andThen ?_
  refine (reads_isAt _).andThen ?_
  rw [h.1, if_pos hWord, if_neg (by decide)]
  exact hp

end Choice

/-- A statement, given the blocks and conditionals within the same room. -/
theorem reads_statement_of {room : Nat} (hBlock : ReadsBlocks room)
    (hIf : ReadsConditionals room) : ReadsStatements room (statement room) := by
  intro ts s n rest h hRest
  rw [statement]
  cases h with
  | declaration h =>
      refine (reads_typeHere_declaration h).andThen ?_
      exact (reads_declaration h).map fun _ _ hFound => hFound.map
  | assignment h =>
      have hAssignment : Reads room n (ts ++ rest) _ _ := reads_assignment h
      obtain ⟨t, us, rfl, hName⟩ := h.exists_cons
      refine (reads_typeHere_name hName).andThen ((reads_isAt _).andThen ?_)
      rw [if_pos (beq_iff_eq.mpr hName.1)]
      exact hAssignment.found
  | ifElse h =>
      have hConditional := hIf _ _ _ _ h hRest
      cases h with
      | mk hWord _ _ _ _ _ =>
          apply Reads.worded hWord rfl rfl
          exact .chosen hWord hConditional.found
  | forLoop hWord hOpen hInit hCondition hSemicolon hUpdate hClose hBody =>
      simp only [List.cons_append, List.append_assoc]
      apply Reads.worded hWord rfl rfl
      apply Reads.passed hWord (by decide)
      apply Reads.chosen hWord
      exact reads_forStatement hBlock hOpen hInit hCondition hSemicolon hUpdate hClose hBody
  | whileLoop hWord hOpen hCondition hClose hBody =>
      simp only [List.cons_append, List.append_assoc]
      apply Reads.worded hWord rfl rfl
      apply Reads.passed hWord (by decide)
      apply Reads.passed hWord (by decide)
      apply Reads.chosen hWord
      exact (reads_whileStatement hBlock hOpen hCondition hClose hBody).found
  | print hWord hPath hMethod hOpen hArgument hClose hEnd =>
      simp only [List.cons_append, List.append_assoc, List.nil_append]
      apply Reads.worded hWord rfl rfl
      apply Reads.passed hWord (by decide)
      apply Reads.passed hWord (by decide)
      apply Reads.passed hWord (by decide)
      apply Reads.chosen hWord
      exact (reads_printStatement hPath hMethod hOpen hArgument hClose hEnd).found

/-- Statements and conditionals, by the room that is left. -/
theorem reads_statements (room : Nat) :
    ReadsStatements room (statement room) ∧ ReadsConditionals room := by
  induction room with
  | zero =>
      have hBlock : ReadsBlocks 0 := reads_block nofun
      have hIf := reads_ifStatement hBlock nofun
      exact ⟨reads_statement_of hBlock hIf, hIf⟩
  | succ room ih =>
      have hBlock : ReadsBlocks (room + 1) := reads_block fun inner h => by
        obtain rfl := Nat.succ.inj h
        exact ih.1
      have hIf := reads_ifStatement hBlock fun inner h => by
        obtain rfl := Nat.succ.inj h
        exact ih.2
      exact ⟨reads_statement_of hBlock hIf, hIf⟩

theorem reads_statement (room : Nat) : ReadsStatements room (statement room) :=
  (reads_statements room).1

/-! ## Programs -/

theorem reads_checkEnd {room : Nat} : Reads room 0 [] checkEnd (Yields room 0 [] ()) := by
  have hAt : Reads room 0 [] (isAt .eof) (Yields room 0 [] true) :=
    reads_current_nil.map fun _ _ h => ⟨h.1, fun _ => by rw [h.2]; rfl⟩
  unfold checkEnd
  exact hAt.andThen (.looks fun _ _ _ => rfl)

theorem reads_entryProcedure {room n : Nat} {es bs rest : List Token}
    {param closing : Token} {body : List Stmt} (hEntry : Sequence entryHead.tail es)
    (hParam : param.IsName) (hClose : closing.kind = .rParen) (hBody : IsBlock bs body n) :
    Reads room n (es ++ param :: closing :: (bs ++ rest)) (entryProcedure room)
      (Yields room n rest (param.text, body)) := by
  have hBlock : ReadsBlocks room := reads_block fun inner _ => reads_statement inner
  simp only [entryHead, List.tail_cons, Sequence, List.forall₂_cons_left_iff,
    List.forall₂_nil_left_iff] at hEntry
  obtain ⟨_, _, h1, ⟨_, _, h2, ⟨_, _, h3, ⟨_, _, h4, ⟨_, _, h5, ⟨_, _, h6, ⟨_, _, h7,
    ⟨_, _, h8, rfl, rfl⟩, rfl⟩, rfl⟩, rfl⟩, rfl⟩, rfl⟩, rfl⟩, rfl⟩ := hEntry
  unfold entryProcedure
  refine (reads_expectWord _ h1).andThen ((reads_expectWord _ h2).andThen
    ((reads_expectWord _ h3).andThen ((reads_expectWord _ h4).andThen
      ((reads_discard_expect _ h5).andThen ((reads_expectWord _ h6).andThen
        ((reads_discard_expect _ h7).andThen ((reads_discard_expect _ h8).andThen
          ((reads_expect _ hParam.1).andThen
            ((reads_discard_expect _ hClose).andThen ?_)))))))))
  exact (hBlock _ _ _ _ _ _ hBody).map_yields

/-- A class around its entry procedure, and nothing after it. -/
theorem reads_classForm {room n : Nat} {hs es bs : List Token}
    {name param closing last : Token} {body : List Stmt} (hHead : Sequence classHead hs)
    (hName : name.IsName) (hEntry : Sequence entryHead es) (hParam : param.IsName)
    (hClose : closing.kind = .rParen) (hBody : IsBlock bs body n)
    (hLast : last.kind = .rBrace) :
    Reads room n (hs ++ name :: (es ++ param :: closing :: (bs ++ [last]))) (classForm room)
      (Yields room n [] ⟨name.text, param.text, body⟩) := by
  simp only [classHead, Sequence, List.forall₂_cons_left_iff, List.forall₂_nil_left_iff]
    at hHead
  obtain ⟨_, _, h1, ⟨_, _, h2, rfl, rfl⟩, rfl⟩ := hHead
  cases hEntry with
  | cons hOpen hTail =>
      unfold classForm
      refine (reads_expectWord _ h1).andThen ((reads_expectWord _ h2).andThen
        ((reads_expect _ hName.1).andThen ((reads_discard_expect _ hOpen).andThen ?_)))
      refine ((reads_entryProcedure hTail hParam hClose hBody).bind ?_).levels (Nat.max_zero n)
      rintro _ entry ⟨rfl, hExact⟩
      refine (reads_discard_expect _ hLast).andThen (reads_checkEnd.andThen
        (.pure ⟨rfl, fun hFits => ?_⟩))
      rw [hExact hFits]
      rfl

theorem reads_scriptItem (room : Nat) : ReadsStatements room (scriptItem room) := by
  intro ts s n rest h hRest
  have hStatement := reads_orDrop (reads_statement room) ts s n rest h hRest
  obtain ⟨t, us, rfl, hStart⟩ := h.exists_cons
  unfold scriptItem
  refine (reads_isAt _).andThen ?_
  rw [if_neg (by simpa using hStart.kind_ne.1)]
  exact hStatement

/-- A bare run of statements. -/
theorem reads_scriptForm {room n : Nat} {ts : List Token} {body : List Stmt}
    (h : IsStatements ts body n) :
    Reads room n ts (scriptForm room) (Yields room n [] ⟨"Main", "args", body⟩) := by
  have hStop : Reads room 0 [] current fun after t => after = [] ∧ (t.kind == .eof) = true :=
    reads_current_nil.mono fun _ _ h => ⟨h.1, by rw [h.2]; rfl⟩
  have hStart : ∀ t, StartsStatement t → (t.kind == .eof) = false := fun t ht => by
    simpa using ht.kind_ne.2
  refine .get fun s hs => ?_
  have hRun := reads_repeatUntil (reads_scriptItem room) hStart hStop nofun h s.rest.length
    (Nat.le_of_eq (by rw [hs]))
  rw [List.append_nil] at hRun
  exact hRun.map_yields

/-- A program within any room. -/
theorem reads_program {room n : Nat} {ts : List Token} {p : Program}
    (h : IsProgram ts p n) : Reads room n ts (program room) (Yields room n [] p) := by
  unfold program
  cases h with
  | script h =>
      have hScript : Reads room n ts _ _ := reads_scriptForm h
      cases h with
      | nil =>
          refine reads_current_nil.bind_flat ?_
          rintro _ t ⟨rfl, hEnd⟩
          rw [if_pos hEnd]
          exact .pure ⟨rfl, fun _ => rfl⟩
      | cons hHead _ =>
          obtain ⟨t, us, rfl, hStart⟩ := hHead.exists_cons
          have hPublic := hStart.isWord_eq_false (show "public" ∈ _ by simp)
          have hClass := hStart.isWord_eq_false (show "class" ∈ _ by simp)
          refine reads_current.andThen ?_
          rw [if_neg hStart.kind_ne.2, hPublic, hClass, if_neg (by decide)]
          exact hScript
  | wrapped hHead hName hEntry hParam hClose hBody hLast =>
      have hWrapped : Reads room n _ _ _ :=
        reads_classForm hHead hName hEntry hParam hClose hBody hLast
      cases hHead with
      | cons hFirst _ =>
          have hPublic := Token.isWord_of_spells hFirst
          refine reads_current.andThen ?_
          rw [if_neg (by rw [hFirst.1]; decide), hPublic, Bool.true_or, if_pos rfl]
          exact hWrapped

/-! ## Parses of programs -/

section Parse

variable {tokens : List Token} {p : Program} {n : Nat}

/-- What a parse of a derived program comes to. -/
theorem outcome_parse (h : IsProgram (significant tokens) p n) :
    Outcome maxNesting n (Yields maxNesting n [] p) (.initial tokens)
      ((program maxNesting).run (.initial tokens)) :=
  reads_program h _ rfl (kind_endMarker tokens) nofun

theorem nestingTooDeep_parse_iff (h : IsProgram (significant tokens) p n) :
    (∃ e ∈ (parse tokens).errors, e.fault = .nestingTooDeep) ↔ maxNesting < n := by
  have hOver := (outcome_parse h).overrun
  have hInitial : ¬ (State.initial tokens).Overrun := by
    rintro ⟨e, he, _⟩
    exact absurd he (Array.not_mem_empty e)
  rw [or_iff_right hInitial, State.Overrun] at hOver
  simp only [← Array.mem_toList_iff] at hOver
  exact hOver

theorem lawful_parse (h : IsProgram (significant tokens) p n) :
    ∀ e ∈ (parse tokens).errors, e.fault = .nestingTooDeep ∨ e.fault.IsNaming := by
  have hInitial : (State.initial tokens).Lawful := fun e he =>
    absurd he (Array.not_mem_empty e)
  intro e he
  exact (outcome_parse h).lawful hInitial e (Array.mem_toList_iff.mp he)

/-- A parse sees a program as it is. -/
theorem isProgram_significant {ts : List Token} {stop : Token} (h : IsProgram ts p n)
    (hStop : stop.kind = .eof) : IsProgram (significant (ts ++ [stop])) p n := by
  rw [significant_program h hStop]
  exact h

end Parse

end Parser

namespace Grammar

/-- The number one behind `k` signs. -/
def signed (k : Nat) : Expr :=
  Nat.repeat (.unary .neg) k (.literal ⟨.int, "1"⟩)

/-- The tokens of the number one behind `k` signs. -/
def signedTokens (k : Nat) : List Token :=
  List.replicate k ⟨.minus, "-", .start⟩ ++ [⟨.integer, "1", .start⟩]

/-- The tokens of an output statement for the number one behind `k` signs. -/
def signedPrint (k : Nat) : List Token :=
  ⟨.keyword, "System", .start⟩ ::
    ([⟨.dot, ".", .start⟩, ⟨.keyword, "out", .start⟩, ⟨.dot, ".", .start⟩] ++
      ⟨.identifier, "print", .start⟩ :: ⟨.lParen, "(", .start⟩ ::
        (signedTokens k ++ [⟨.rParen, ")", .start⟩, ⟨.semicolon, ";", .start⟩]))

theorem operand_signed (k : Nat) : Operand 6 (signedTokens k) (signed k) k := by
  induction k with
  | zero => exact .literal (.integer rfl)
  | succ k ih => exact @Operand.unary .neg _ _ _ _ rfl ih

theorem isProgram_signedPrint (k : Nat) :
    IsProgram (signedPrint k) ⟨"Main", "args", [.print (some (signed k)) false .start]⟩
      (k + 1) := by
  have hOperand := (operand_signed k).of_le (Nat.zero_le 6) (Nat.le_refl 6)
  have hPrint : IsStatement (signedPrint k) (.print (some (signed k)) false .start) (k + 1) :=
    .print ⟨rfl, rfl⟩ (.cons rfl (.cons ⟨rfl, rfl⟩ (.cons rfl .nil))) (.part ⟨rfl, rfl⟩) rfl
      (.some hOperand) rfl rfl
  have hBody := IsStatements.cons hPrint .nil
  rw [List.append_nil, Nat.max_zero] at hBody
  exact .script hBody

end Grammar

open Grammar

/-- **Completeness**: a parse of the tokens of a program reports the nesting limit
exactly if the program nests more levels than the limit, and otherwise gives the tree
of the program and reports only variables. -/
theorem parse_eq_of_isProgram {ts : List Token} {p : Program} {n : Nat} {stop : Token}
    (h : IsProgram ts p n) (hStop : stop.kind = .eof) :
    ((∃ e ∈ (parse (ts ++ [stop])).errors, e.fault = .nestingTooDeep) ↔ maxNesting < n) ∧
      (n ≤ maxNesting → (parse (ts ++ [stop])).program = p ∧
        ∀ e ∈ (parse (ts ++ [stop])).errors, e.fault.IsNaming) := by
  have hSeen := Parser.isProgram_significant h hStop
  have hDeep := Parser.nestingTooDeep_parse_iff hSeen
  refine ⟨hDeep, fun hFits => ⟨(Parser.outcome_parse hSeen).post.2 hFits, ?_⟩⟩
  intro e he
  have hShallow : e.fault ≠ .nestingTooDeep := fun hFault =>
    absurd (hDeep.mp ⟨e, he, hFault⟩) (Nat.not_lt.mpr hFits)
  exact (Parser.lawful_parse hSeen e he).resolve_left hShallow

/-- At the limit, the tree is the one that was written. -/
theorem parse_eq_of_isProgram_signedPrint :
    IsProgram (signedPrint 255) ⟨"Main", "args", [.print (some (signed 255)) false .start]⟩ 256 ∧
      ((∃ e ∈ (parse (signedPrint 255 ++ [⟨.eof, "", .start⟩])).errors,
        e.fault = .nestingTooDeep) ↔ maxNesting < 256) ∧
      (256 ≤ maxNesting → (parse (signedPrint 255 ++ [⟨.eof, "", .start⟩])).program =
          ⟨"Main", "args", [.print (some (signed 255)) false .start]⟩ ∧
        ∀ e ∈ (parse (signedPrint 255 ++ [⟨.eof, "", .start⟩])).errors, e.fault.IsNaming) :=
  ⟨isProgram_signedPrint 255, parse_eq_of_isProgram (isProgram_signedPrint 255) rfl⟩

end Braceless
