import Braceless.Proofs.Parser.Sound

/-!
# A parse without errors reads the program that was written

Every production either reports an error or reads exactly the tokens of the tree
that it returns.  The errors of a whole parse are those of its parts, so a parse that
reports nothing has derived its token list, to the last token.

## Main results

* `sound_expression`, `sound_statement`: the productions read what they return.
* `exists_isProgram_of_errors_eq_nil`: a parse without errors has derived its tokens.
-/

namespace Braceless

namespace Parser

open Grammar

/-! ## Expressions -/

theorem sound_operatorHere {r : Nat} {ops : OperatorLevel} (hLevel : IsLevel r ops) :
    Sound (operatorHere ops) fun before after o => before = after ∧
      ∀ op, o = some op → op.rank = r ∧ ∃ t ts, before = t :: ts ∧ t.kind = op.kind := by
  unfold operatorHere
  refine sound_current.bind fun t => .pure ?_
  rintro _ before ⟨rfl, hHead⟩
  refine ⟨rfl, fun op hOp => ?_⟩
  obtain ⟨hRank, hKind⟩ := (hLevel t.kind op).mp hOp
  have hNotEnd : t.kind ≠ .eof := by
    rw [hKind]
    cases op <;> decide
  obtain ⟨ts, hBefore, _⟩ := hHead.eq_cons hNotEnd
  exact ⟨hRank, t, ts, hBefore, hKind⟩

theorem frame_skipExpression (s : State) : Frame s (skipExpression.run s).2 :=
  Frame.skip (afterExpression_suffix 0 s.rest)

/-- A literal, where the current token is one. -/
theorem sound_literalHere {t : Token} {l : Literal} (hKind : t.kind ≠ .eof)
    (hLiteral : t.WellSpelled → IsLiteral t l) :
    Sound (literalHere l.kind l.value) fun between after e =>
      ∀ before, before = between ∧ IsHead before t →
        Spans (Operand 6) before after e := by
  unfold literalHere
  refine sound_advance.bind fun _ => .pure ?_
  rintro _ between rfl before ⟨rfl, hHead⟩
  obtain ⟨ts, rfl, hSpelled⟩ := hHead.eq_cons hKind
  exact ⟨[t], 0, rfl, .literal (hLiteral hSpelled)⟩

theorem sound_noExpression {Q : List Token → List Token → Expr → Prop} :
    Sound noExpression Q :=
  sound_report_bind _ Frame.refl

/-- An operand of a rank, given the chains of all ranks and the tightest operand. -/
theorem sound_joined {operand : Parse Expr}
    {go : OperatorLevel → List OperatorLevel → Expr → Parse Expr}
    (hOperand : Sound operand (Spans (Operand 6)))
    (hGo : ∀ r < 6, ∀ ops left, IsLevel r ops →
      Sound (go ops (operatorLevels.drop (r + 1)) left) (Spans (Chain r left))) :
    ∀ k r, r + k = 6 →
      Sound (joined operand go (operatorLevels.drop r)) (Spans (Operand r)) := by
  intro k
  induction k with
  | zero =>
      rintro r rfl
      exact hOperand
  | succ k ih =>
      intro r hr
      have hLt : r < 6 := by omega
      obtain ⟨ops, hLevel, hDrop⟩ := exists_isLevel hLt
      rw [hDrop, joined]
      refine (ih (r + 1) (by omega)).bind fun left => (hGo r hLt ops left hLevel).mono ?_
      rintro _ after e ⟨us, m, rfl, hMore⟩ _ ⟨ts, n, rfl, hFirst⟩
      exact ⟨ts ++ us, max n m, by simp, .chain hLt hFirst hMore⟩

/-- A factor, given the expressions within the same room. -/
theorem sound_factor {room : Nat}
    (hExpression : Sound (expression room) (Spans (Operand 0))) :
    Sound (factor room) (Spans (Operand 6)) := by
  rw [factor]
  refine sound_current.bind fun t => ?_
  split
  · next hKind => exact sound_literalHere (by simp [hKind]) fun _ => .integer hKind
  · next hKind => exact sound_literalHere (by simp [hKind]) fun _ => .decimal hKind
  · next hKind =>
      refine sound_literalHere (l := ⟨.char, literalBody t.text⟩) (by simp [hKind])
        fun hSpelled => ?_
      obtain ⟨body, hText⟩ := hSpelled.char hKind
      rw [literalBody_of_quotedText (by decide) hText]
      exact .char hKind hText
  · next hKind =>
      refine sound_literalHere (l := ⟨.str, literalBody t.text⟩) (by simp [hKind])
        fun hSpelled => ?_
      obtain ⟨body, hText⟩ := hSpelled.string hKind
      rw [literalBody_of_quotedText (by decide) hText]
      exact .string hKind hText
  · next hKind =>
      split
      · next hTruth =>
          refine sound_literalHere (l := ⟨.boolean, _⟩) (by simp [hKind]) fun _ => .truth ?_
          exact hTruth.imp (fun h => ⟨hKind, h⟩) (fun h => ⟨hKind, h⟩)
      · exact sound_noExpression
  · next hKind =>
      refine (sound_checkDeclared t).bind fun _ => sound_advance.bind fun _ => .pure ?_
      rintro _ between rfl _ rfl before ⟨rfl, hHead⟩
      obtain ⟨ts, rfl, hSpelled⟩ := hHead.eq_cons (by simp [hKind])
      exact ⟨[t], 0, rfl, .name (hSpelled.isName hKind)⟩
  · next hKind =>
      refine sound_advance.bind fun _ => hExpression.bind fun inner =>
        (sound_discard_expect _ (by decide)).bind fun _ => .pure ?_
      rintro after _ ⟨close, rfl, hClose⟩ _ ⟨ts, n, hInner, hOperand⟩ before rfl _ ⟨rfl, hHead⟩
      obtain ⟨us, rfl, _⟩ := hHead.eq_cons (by simp [hKind])
      refine ⟨t :: (ts ++ [close]), n + 1, ?_, .group hKind hOperand hClose⟩
      simpa using hInner
  · exact sound_noExpression

/-- A unary operand, given those with less room. -/
theorem sound_unary {room : Nat}
    (hExpression : Sound (expression room) (Spans (Operand 0)))
    (hInner : ∀ inner < room, Sound (unary inner) (Spans (Operand 6))) :
    Sound (unary room) (Spans (Operand 6)) := by
  rw [unary]
  refine sound_current.bind fun t => ?_
  split
  · exact (sound_factor hExpression).unmoved
  · next op hOp =>
      refine .nested (fun inner h => ?_) frame_skipExpression
      refine sound_advance.bind fun _ => (hInner inner h).bind fun e => .pure ?_
      rintro after _ ⟨ts, n, rfl, hOperand⟩ between hTail before ⟨rfl, hHead⟩
      have hKind : t.kind = op.kind := unaryOp?_eq_some_iff.mp hOp
      obtain ⟨us, rfl, _⟩ := hHead.eq_cons (by rw [hKind]; cases op <;> decide)
      exact ⟨t :: ts, n + 1, congrArg (t :: ·) hTail.symm, .unary hKind hOperand⟩

/-- The rest of a chain, given the operands and the chains with less room. -/
theorem sound_chain {room r : Nat} {ops : OperatorLevel} {left : Expr}
    (hLevel : IsLevel r ops)
    (hOperand : ∀ inner < room,
      Sound (binary inner (operatorLevels.drop (r + 1))) (Spans (Operand (r + 1))))
    (hMore : ∀ inner < room, ∀ left,
      Sound (chain inner ops (operatorLevels.drop (r + 1)) left) (Spans (Chain r left))) :
    Sound (chain room ops (operatorLevels.drop (r + 1)) left) (Spans (Chain r left)) := by
  rw [chain]
  refine (sound_operatorHere hLevel).bind fun o => ?_
  cases o with
  | none =>
      refine .pure ?_
      rintro after _ ⟨rfl, _⟩
      exact ⟨[], 0, rfl, .done⟩
  | some op =>
      refine .nested (fun inner h => ?_) frame_skipExpression
      refine sound_advance.bind fun _ => (hOperand inner h).bind fun right =>
        (hMore inner h (.binary op left right)).mono ?_
      rintro _ after e ⟨us, m, rfl, hChain⟩ _ ⟨ts, n, rfl, hRight⟩ between hTail
        before ⟨rfl, hHead⟩
      obtain ⟨hRank, t, ws, rfl, hKind⟩ := hHead op rfl
      subst hRank
      refine ⟨t :: (ts ++ us), max n m + 1, ?_, .more hKind hRight hChain⟩
      simpa using congrArg (t :: ·) hTail.symm

/-- Operands of every rank, chains and unary operands, by the room that is left. -/
theorem sound_operands (room : Nat) :
    (∀ r ≤ 6, Sound (binary room (operatorLevels.drop r)) (Spans (Operand r))) ∧
    (∀ r < 6, ∀ ops left, IsLevel r ops →
      Sound (chain room ops (operatorLevels.drop (r + 1)) left) (Spans (Chain r left))) ∧
    Sound (unary room) (Spans (Operand 6)) := by
  induction room using Nat.strongRecOn with
  | ind room ih =>
      have hExpression : Sound (expression room) (Spans (Operand 0)) := by
        rw [expression]
        exact .nested (fun inner h => (ih inner h).1 0 (by omega)) frame_skipExpression
      have hUnary := sound_unary hExpression fun inner h => (ih inner h).2.2
      have hChain : ∀ r < 6, ∀ ops left, IsLevel r ops →
          Sound (chain room ops (operatorLevels.drop (r + 1)) left)
            (Spans (Chain r left)) := fun r hr ops left hLevel =>
        sound_chain hLevel (fun inner h => (ih inner h).1 (r + 1) hr)
          fun inner h left => (ih inner h).2.1 r hr ops left hLevel
      refine ⟨fun r hr => ?_, hChain, hUnary⟩
      rw [binary]
      exact sound_joined hUnary hChain (6 - r) r (by omega)

theorem sound_expression (room : Nat) :
    Sound (expression room) (Spans (Operand 0)) := by
  rw [expression]
  exact .nested (fun inner _ => (sound_operands inner).1 0 (by omega)) frame_skipExpression

/-! ## Simple statements -/

theorem sound_firstValue (room : Nat) :
    Sound (firstValue room) fun before after v =>
      (v = none ∧ before = after) ∨ ∃ t between e, before = t :: between ∧
        t.kind = .assign ∧ v = some e ∧ Spans (Operand 0) between after e := by
  unfold firstValue
  refine (sound_eat (by decide)).bind fun b => ?_
  cases b with
  | false => exact .pure fun _ _ h => .inl ⟨rfl, h.2 rfl⟩
  | true =>
      refine (sound_expression room).bind fun e => .pure ?_
      intro after between hSpans before hEat
      obtain ⟨t, hBefore, hKind⟩ := hEat.1 rfl
      exact .inr ⟨t, between, e, hBefore, hKind, rfl, hSpans⟩

theorem sound_declaration (room : Nat) (dataType : DataType) :
    Sound (declaration room dataType)
      (Begins dataType.keyword (Gives (Spans IsDeclaration))) := by
  unfold declaration
  refine sound_advance.bind fun _ => (sound_expect _ (by decide)).bind fun o => ?_
  cases o with
  | none => exact .pure fun _ _ h => h.elim
  | some name =>
      refine (sound_declare name dataType).bind fun _ =>
        (sound_firstValue room).bind fun value =>
          (sound_discard_expect _ (by decide)).bind fun _ => .pure ?_
      rintro after _ ⟨semicolon, rfl, hEnd⟩ _ hValue _ rfl _ ⟨rfl, hKind, hSpelled⟩ _ hTail
        type ts rfl hType
      cases hTail
      have hName := hSpelled.isName hKind
      rcases hValue with ⟨rfl, rfl⟩ | ⟨equals, _, e, rfl, hEquals, rfl, us, n, rfl, hOperand⟩
      · exact ⟨[type, name, semicolon], 0, rfl, .plain hType hName hEnd⟩
      · refine ⟨type :: name :: equals :: (us ++ [semicolon]), n + 1, by simp, ?_⟩
        exact .valued hType hName hEquals hOperand hEnd

/-- An operator that needs no value. -/
theorem sound_step {target t : Token} {e : Expr} (hKind : t.kind ≠ .eof)
    (hNew : IsNewValue target [t] e 0) :
    Sound (advance >>= fun _ => pure (some e)) fun between after o =>
      ∀ before, before = between ∧ IsHead before t →
        Gives (Spans (IsNewValue target)) before after o := by
  refine sound_advance.bind fun _ => .pure ?_
  rintro _ between rfl before ⟨rfl, hHead⟩
  obtain ⟨ts, rfl, _⟩ := hHead.eq_cons hKind
  exact ⟨[t], 0, rfl, hNew⟩

/-- An operator with a value behind it. -/
theorem sound_amount (room : Nat) {target t : Token} {f : Expr → Expr} (hKind : t.kind ≠ .eof)
    (hNew : ∀ ts e n, Operand 0 ts e n → IsNewValue target (t :: ts) (f e) (n + 1)) :
    Sound (advance >>= fun _ => expression room >>= fun e => pure (some (f e)))
      fun between after o => ∀ before, before = between ∧ IsHead before t →
        Gives (Spans (IsNewValue target)) before after o := by
  refine sound_advance.bind fun _ => (sound_expression room).bind fun e => .pure ?_
  rintro after _ ⟨ts, n, rfl, hOperand⟩ between hTail before ⟨rfl, hHead⟩
  obtain ⟨us, rfl, _⟩ := hHead.eq_cons hKind
  exact ⟨t :: ts, n + 1, congrArg (t :: ·) hTail.symm, hNew ts e n hOperand⟩

theorem sound_updateValue (room : Nat) (target : Token) (what : String) :
    Sound (updateValue room target what) (Gives (Spans (IsNewValue target))) := by
  unfold updateValue
  refine sound_current.bind fun t => ?_
  split
  · next hKind => exact sound_amount room (f := id) (by simp [hKind]) fun _ _ _ h => .set hKind h
  · next hKind => exact sound_step (by simp [hKind]) (.increment hKind)
  · next hKind => exact sound_step (by simp [hKind]) (.decrement hKind)
  · next hKind => exact sound_amount room (by simp [hKind]) fun _ _ _ h => .add hKind h
  · next hKind => exact sound_amount room (by simp [hKind]) fun _ _ _ h => .subtract hKind h
  · exact sound_report_bind _ Frame.refl

theorem sound_valueWithoutOperator (room : Nat) :
    Sound (valueWithoutOperator room) fun _ _ _ => True := by
  unfold valueWithoutOperator
  refine sound_current.bind fun t => ?_
  split
  · exact sound_placeholder.bind fun _ => .pure fun _ _ _ _ _ => trivial
  · exact (sound_expression room).mono fun _ _ _ _ _ _ => trivial

theorem sound_assignedValue (room : Nat) (target : Token) :
    Sound (assignedValue room target) (Spans (IsNewValue target)) := by
  unfold assignedValue
  refine (sound_updateValue room target _).bind fun o => ?_
  cases o with
  | none => exact (sound_valueWithoutOperator room).mono fun _ _ _ _ _ h => h.elim
  | some value => exact .pure fun _ _ h => h

/-- An assignment, where a name comes first. -/
theorem sound_assignment (room : Nat) :
    Sound (assignment room) fun before after a =>
      ∀ t ts, before = t :: ts → t.kind = .identifier →
        Spans IsAssignment before after a := by
  unfold assignment
  refine sound_current.bind fun target => (sound_checkDeclared target).bind fun _ =>
    sound_advance.bind fun _ => (sound_assignedValue room target).bind fun value =>
      (sound_discard_expect _ (by decide)).bind fun _ => .pure ?_
  rintro after _ ⟨semicolon, rfl, hEnd⟩ _ ⟨us, n, rfl, hValue⟩ _ hTail _ rfl _ ⟨rfl, hHead⟩
    t ts hBefore hKind
  rcases hHead with ⟨hNil, _⟩ | ⟨vs, hCons, hSpelled⟩
  · simp [hBefore] at hNil
  · obtain ⟨rfl, rfl⟩ := List.cons.inj (hBefore.symm.trans hCons)
    subst hBefore
    refine ⟨t :: us ++ [semicolon], n, ?_, .mk (.mk (hSpelled.isName hKind) hValue) hEnd⟩
    simpa using hTail.symm

/-- A declaration as part of something else, where a type has been seen. -/
theorem sound_declarationHere {β : Type} (room : Nat) {dataType : DataType}
    {g : Declaration → β} {rule : List Token → β → Nat → Prop}
    (hg : ∀ ts d n, IsDeclaration ts d n → rule ts (g d) n) :
    Sound (declaration room dataType >>= fun d => pure (d.map g)) fun between after o =>
      ∀ before, (before = between ∧ ∀ known, some dataType = some known →
        ∃ t ts, before = t :: ts ∧ t.Spells known.keyword) →
          Gives (Spans rule) before after o := by
  refine (sound_declaration room dataType).bind fun d => .pure ?_
  rintro after _ hBegins before ⟨rfl, hType⟩
  obtain ⟨t, ts, hBefore, hWord⟩ := hType dataType rfl
  have hGives := hBegins t ts hBefore hWord
  cases d with
  | none => exact hGives
  | some d =>
      obtain ⟨us, n, hRest, hDeclaration⟩ := hGives
      exact ⟨us, n, hRest, hg us d n hDeclaration⟩

/-- An assignment as part of something else, where a name has been seen. -/
theorem sound_assignmentHere {β : Type} (room : Nat) {g : Assignment → β}
    {rule : List Token → β → Nat → Prop}
    (hg : ∀ ts a n, IsAssignment ts a n → rule ts (g a) n) :
    Sound (assignment room >>= fun a => pure (some (g a))) fun between after o =>
      ∀ before, (before = between ∧ (true = true →
        ∃ t ts, before = t :: ts ∧ t.kind = .identifier ∧ t.WellSpelled)) →
          Gives (Spans rule) before after o := by
  refine (sound_assignment room).bind fun a => .pure ?_
  rintro after _ hAssign before ⟨rfl, hAt⟩
  obtain ⟨t, ts, hBefore, hKind, _⟩ := hAt rfl
  obtain ⟨us, n, hRest, hAssignment⟩ := hAssign t ts hBefore hKind
  exact ⟨us, n, hRest, hg us a n hAssignment⟩

theorem sound_printMethod :
    Sound printMethod fun before after newline =>
      ∃ t, before = t :: after ∧ IsPrintMethod t newline := by
  unfold printMethod
  refine (sound_eatWord "println").bind fun line => ?_
  cases line with
  | true =>
      refine .pure fun after before hLine => ?_
      obtain ⟨t, hBefore, hWord⟩ := hLine.1 rfl
      exact ⟨t, hBefore, .line hWord⟩
  | false =>
      refine (sound_eatWord "print").bind fun part => ?_
      cases part with
      | true =>
          refine .pure fun after between hPart before hLine => ?_
          obtain ⟨t, hBetween, hWord⟩ := hPart.1 rfl
          exact ⟨t, (hLine.2 rfl).trans hBetween, .part hWord⟩
      | false => exact sound_report_bind _ Frame.refl

theorem sound_printArgument (room : Nat) :
    Sound (printArgument room) (Spans IsPrintArgument) := by
  unfold printArgument
  refine (sound_isAt (by decide)).bind fun empty => ?_
  cases empty with
  | true =>
      refine .pure fun after before hAt => ?_
      exact ⟨[], 0, hAt.1, .none⟩
  | false =>
      refine (sound_expression room).bind fun e => .pure ?_
      rintro after _ ⟨ts, n, rfl, hOperand⟩ before ⟨rfl, _⟩
      exact ⟨ts, n + 1, rfl, .some hOperand⟩

theorem sound_printStatement (room : Nat) :
    Sound (printStatement room) (Begins "System" (Spans IsStatement)) := by
  unfold printStatement
  refine sound_current.bind fun word => sound_advance.bind fun _ =>
    (sound_discard_expect _ (by decide)).bind fun _ =>
      (sound_expectWord _ _).bind fun _ =>
        (sound_discard_expect _ (by decide)).bind fun _ =>
          sound_printMethod.bind fun newline =>
            (sound_discard_expect _ (by decide)).bind fun _ =>
              (sound_printArgument room).bind fun argument =>
                (sound_discard_expect _ (by decide)).bind fun _ =>
                  (sound_discard_expect _ (by decide)).bind fun _ => .pure ?_
  rintro after _ ⟨semicolon, rfl, hEnd⟩ _ ⟨close, rfl, hClose⟩ _ ⟨as, n, rfl, hArgument⟩
    _ ⟨opening, rfl, hOpen⟩ _ ⟨method, rfl, hMethod⟩ _ ⟨dot, rfl, hDot⟩ _ ⟨out, rfl, hOut⟩
    _ ⟨first, rfl, hFirst⟩ _ hTail _ ⟨rfl, hHead⟩ t ts hBefore hWord
  obtain rfl := hHead.eq_of_cons hBefore
  subst hBefore
  refine ⟨t :: ([first, out, dot] ++ method :: opening :: (as ++ [close, semicolon])), n,
    ?_, .print hWord ?_ hMethod hOpen hArgument hClose hEnd⟩
  · simpa using hTail.symm
  · exact .cons hFirst (.cons hOut (.cons hDot .nil))

/-! ## The header of a counting loop -/

theorem sound_forInit (room : Nat) : Sound (forInit room) (Gives (Spans IsForInit)) := by
  unfold forInit
  refine sound_typeHere.bind fun o => ?_
  cases o with
  | some dataType => exact sound_declarationHere room fun _ _ _ => .declaration
  | none =>
      refine Sound.unmoved ((sound_isAt (by decide)).bind fun b => ?_)
      cases b with
      | true => exact sound_assignmentHere room fun _ _ _ => .assignment
      | false => exact sound_report_bind _ Frame.refl

theorem sound_forUpdate (room : Nat) :
    Sound (forUpdate room) (Gives (Spans IsUpdate)) := by
  unfold forUpdate
  refine (sound_expect _ (by decide)).bind fun o => ?_
  cases o with
  | none => exact .pure fun _ _ h => h.elim
  | some target =>
      refine (sound_checkDeclared target).bind fun _ =>
        (sound_updateValue room target _).bind fun value => .pure ?_
      rintro after _ hValue _ rfl before ⟨rfl, hKind, hSpelled⟩
      cases value with
      | none => exact hValue
      | some value =>
          obtain ⟨us, n, rfl, hNew⟩ := hValue
          exact ⟨target :: us, n, rfl, .mk (hSpelled.isName hKind) hNew⟩

/-! ## Compound statements -/

theorem sound_noStatement {Q : List Token → List Token → Stmt → Prop} :
    Sound noStatement Q := by
  unfold noStatement
  exact sound_placeholder.bind fun p => sound_report_bind _ Frame.advance

theorem sound_orDrop {α : Type} {p : Parse (Option α)}
    {Q : List Token → List Token → α → Prop} (hp : Sound p (Gives Q)) :
    Sound (orDrop p) (Gives Q) := by
  unfold orDrop
  refine hp.bind fun o => ?_
  cases o with
  | none => exact sound_advance.bind fun _ => .pure fun _ _ _ _ h => h.elim
  | some a => exact .pure fun _ _ h => h

theorem sound_repeatUntil (stop : Token → Bool) {step : Parse (Option Stmt)}
    (hStep : Sound step (Gives (Spans IsStatement))) (bound : Nat) :
    Sound (repeatUntil stop step bound) (Spans IsStatements) := by
  induction bound with
  | zero => exact .pure fun ts => ⟨[], 0, rfl, .nil⟩
  | succ bound ih =>
      rw [repeatUntil]
      refine sound_current.bind fun t => ?_
      split
      · exact .pure fun ts before h => ⟨[], 0, h.1, .nil⟩
      · refine hStep.bind fun o => ih.bind fun ss => .pure ?_
        rintro after _ ⟨us, m, rfl, hTail⟩ between hHead before ⟨rfl, _⟩
        cases o with
        | none => exact hHead.elim
        | some s =>
            obtain ⟨ts, n, rfl, hStatement⟩ := hHead
            exact ⟨ts ++ us, max n m, by simp, .cons hStatement hTail⟩

/-- A block, given the statements with less room. -/
theorem sound_block {room : Nat} {opening closing : String}
    (hInner : ∀ inner < room, Sound (statement inner) (Gives (Spans IsStatement))) :
    Sound (block room opening closing) (Spans IsBlock) := by
  rw [block]
  refine .nested (fun inner h => ?_) fun s => Frame.skip (afterBalanced_suffix _ _ _)
  refine (sound_discard_expect _ (by decide)).bind fun _ => .get fun s =>
    (sound_repeatUntil _ (sound_orDrop (hInner inner h)) _).bind fun body =>
      (sound_discard_expect _ (by decide)).bind fun _ => .pure ?_
  rintro after _ ⟨close, rfl, hClose⟩ _ ⟨ts, n, rfl, hBody⟩ before ⟨open', rfl, hOpen⟩
  exact ⟨open' :: (ts ++ [close]), n + 1, by simp, .mk hOpen hBody hClose⟩

/-- The branches after the first one, given the blocks within the same room and the
conditionals with less. -/
theorem sound_elseBranch {room : Nat}
    (hBlock : ∀ opening closing, Sound (block room opening closing) (Spans IsBlock))
    (hInner : ∀ inner < room,
      Sound (ifStatement inner) (Begins "if" (Spans IsConditional))) :
    Sound (elseBranch room) (Spans IsElse) := by
  rw [elseBranch]
  refine (sound_eatWord "else").bind fun more => ?_
  cases more with
  | false => exact .pure fun after before hElse => ⟨[], 0, hElse.2 rfl, .none⟩
  | true =>
      refine (sound_isAtWord "if").bind fun again => ?_
      cases again with
      | true =>
          refine .nested (fun inner h => ?_) fun s => Frame.skip (afterElseChain_suffix _)
          refine (hInner inner h).bind fun i => .pure ?_
          rintro after _ hIf between ⟨rfl, hAt⟩ before hElse
          obtain ⟨word, rfl, hWord⟩ := hElse.1 rfl
          obtain ⟨t, us, hCons, hSpells⟩ := hAt rfl
          obtain ⟨ts, n, rfl, hConditional⟩ := hIf t us hCons hSpells
          exact ⟨word :: ts, n + 1, rfl, .elseIf hWord hConditional⟩
      | false =>
          refine (hBlock _ _).bind fun body => .pure ?_
          rintro after _ ⟨ts, n, rfl, hBody⟩ between ⟨rfl, _⟩ before hElse
          obtain ⟨word, rfl, hWord⟩ := hElse.1 rfl
          exact ⟨word :: ts, n, rfl, .block hWord hBody⟩

theorem sound_ifStatement {room : Nat}
    (hBlock : ∀ opening closing, Sound (block room opening closing) (Spans IsBlock))
    (hElse : Sound (elseBranch room) (Spans IsElse)) :
    Sound (ifStatement room) (Begins "if" (Spans IsConditional)) := by
  rw [ifStatement]
  refine sound_current.bind fun word => sound_advance.bind fun _ =>
    (sound_discard_expect _ (by decide)).bind fun _ =>
      (sound_expression room).bind fun condition =>
        (sound_discard_expect _ (by decide)).bind fun _ =>
          (hBlock _ _).bind fun body => hElse.bind fun orElse => .pure ?_
  rintro after _ ⟨es, l, rfl, hOrElse⟩ _ ⟨bs, m, rfl, hBody⟩ _ ⟨close, rfl, hClose⟩
    _ ⟨cs, n, rfl, hCondition⟩ _ ⟨opening, rfl, hOpen⟩ _ hTail _ ⟨rfl, hHead⟩ t ts hBefore hWord
  obtain rfl := hHead.eq_of_cons hBefore
  subst hBefore
  refine ⟨t :: opening :: (cs ++ close :: (bs ++ es)), max (n + 1) (max m l), ?_,
    .mk hWord hOpen hCondition hClose hBody hOrElse⟩
  simpa using hTail.symm

theorem sound_forStatement {room : Nat}
    (hBlock : ∀ opening closing, Sound (block room opening closing) (Spans IsBlock)) :
    Sound (forStatement room) (Begins "for" (Gives (Spans IsStatement))) := by
  rw [forStatement]
  refine sound_current.bind fun word => sound_advance.bind fun _ =>
    (sound_discard_expect _ (by decide)).bind fun _ => (sound_forInit room).bind fun o => ?_
  cases o with
  | none => exact .pure fun _ _ h => h.elim
  | some init =>
      refine (sound_expression room).bind fun condition =>
        (sound_discard_expect _ (by decide)).bind fun _ =>
          (sound_forUpdate room).bind fun update =>
            (sound_discard_expect _ (by decide)).bind fun _ =>
              (hBlock _ _).bind fun body => .pure ?_
      rintro after _ ⟨bs, l, rfl, hBody⟩ _ ⟨close, rfl, hClose⟩ _ hUpdate
        _ ⟨semicolon, rfl, hSemicolon⟩ _ ⟨cs, n, rfl, hCondition⟩ _ ⟨is, k, rfl, hInit⟩
        _ ⟨opening, rfl, hOpen⟩ _ hTail _ ⟨rfl, hHead⟩ t ts hBefore hWord
      obtain rfl := hHead.eq_of_cons hBefore
      subst hBefore
      cases update with
      | none => exact hUpdate.elim
      | some update =>
          obtain ⟨us, m, rfl, hUpdate⟩ := hUpdate
          refine ⟨t :: opening :: (is ++ (cs ++ semicolon :: (us ++ close :: bs))),
            max k (max (n + 1) (max m l)), ?_,
            .forLoop hWord hOpen hInit hCondition hSemicolon hUpdate hClose hBody⟩
          simpa using hTail.symm

theorem sound_whileStatement {room : Nat}
    (hBlock : ∀ opening closing, Sound (block room opening closing) (Spans IsBlock)) :
    Sound (whileStatement room) (Begins "while" (Spans IsStatement)) := by
  rw [whileStatement]
  refine sound_current.bind fun word => sound_advance.bind fun _ =>
    (sound_discard_expect _ (by decide)).bind fun _ =>
      (sound_expression room).bind fun condition =>
        (sound_discard_expect _ (by decide)).bind fun _ =>
          (hBlock _ _).bind fun body => .pure ?_
  rintro after _ ⟨bs, m, rfl, hBody⟩ _ ⟨close, rfl, hClose⟩ _ ⟨cs, n, rfl, hCondition⟩
    _ ⟨opening, rfl, hOpen⟩ _ hTail _ ⟨rfl, hHead⟩ t ts hBefore hWord
  obtain rfl := hHead.eq_of_cons hBefore
  subst hBefore
  refine ⟨t :: opening :: (cs ++ close :: bs), max (n + 1) m, ?_,
    .whileLoop hWord hOpen hCondition hClose hBody⟩
  simpa using hTail.symm

/-- A choice by the current word. -/
theorem Sound.choice {α : Type} {word : String} {p q : Parse α}
    {Q : List Token → List Token → α → Prop} (hp : Sound p (Begins word Q))
    (hq : Sound q Q) : Sound (isAtWord word >>= fun b => if b = true then p else q) Q := by
  refine (sound_isAtWord word).bind fun b => ?_
  cases b with
  | false => exact hq.unmoved
  | true =>
      refine hp.mono ?_
      rintro _ after a hBegins before ⟨rfl, hAt⟩
      obtain ⟨t, ts, hBefore, hWord⟩ := hAt rfl
      exact hBegins t ts hBefore hWord

/-- A production of a statement that always gives one. -/
theorem Sound.some {α : Type} {word : String} {p : Parse α} {g : α → Stmt}
    {rule : List Token → α → Nat → Prop} (hp : Sound p (Begins word (Spans rule)))
    (hg : ∀ ts a n, rule ts a n → IsStatement ts (g a) n) :
    Sound (p >>= fun a => Pure.pure (Option.some (g a)))
      (Begins word (Gives (Spans IsStatement))) := by
  refine hp.bind fun a => .pure ?_
  intro after before hBegins t ts hBefore hWord
  obtain ⟨us, n, hRest, hRule⟩ := hBegins t ts hBefore hWord
  exact ⟨us, n, hRest, hg us a n hRule⟩

/-- A statement, given the blocks and conditionals within the same room. -/
theorem sound_statement_of {room : Nat}
    (hBlock : ∀ opening closing, Sound (block room opening closing) (Spans IsBlock))
    (hIf : Sound (ifStatement room) (Begins "if" (Spans IsConditional))) :
    Sound (statement room) (Gives (Spans IsStatement)) := by
  rw [statement]
  refine sound_typeHere.bind fun o => ?_
  cases o with
  | some dataType => exact sound_declarationHere room fun _ _ _ => .declaration
  | none =>
      refine Sound.unmoved ((sound_isAt (by decide)).bind fun b => ?_)
      cases b with
      | true => exact sound_assignmentHere room fun _ _ _ => .assignment
      | false =>
          have hWhile := (sound_whileStatement hBlock).some fun _ _ _ h => h
          have hPrint := (sound_printStatement room).some fun _ _ _ h => h
          have hNone : Sound (noStatement >>= fun s => Pure.pure (some s))
              (Gives (Spans IsStatement)) :=
            (sound_noStatement (Q := fun _ _ _ => False)).bind fun _ =>
              .pure fun _ _ h => h.elim
          exact Sound.unmoved (.choice (hIf.some fun _ _ _ h => .ifElse h)
            (.choice (sound_forStatement hBlock) (.choice hWhile (.choice hPrint hNone))))

/-- Statements and conditionals, by the room that is left. -/
theorem sound_statements (room : Nat) :
    Sound (statement room) (Gives (Spans IsStatement)) ∧
      Sound (ifStatement room) (Begins "if" (Spans IsConditional)) := by
  induction room using Nat.strongRecOn with
  | ind room ih =>
      have hBlock : ∀ opening closing,
          Sound (block room opening closing) (Spans IsBlock) := fun _ _ =>
        sound_block fun inner h => (ih inner h).1
      have hIf := sound_ifStatement hBlock
        (sound_elseBranch hBlock fun inner h => (ih inner h).2)
      exact ⟨sound_statement_of hBlock hIf, hIf⟩

theorem sound_statement (room : Nat) :
    Sound (statement room) (Gives (Spans IsStatement)) :=
  (sound_statements room).1

/-! ## Programs -/

theorem sound_entryProcedure (room : Nat) :
    Sound (entryProcedure room) fun before after entry =>
      ∃ es param close bs n, before = es ++ param :: close :: (bs ++ after) ∧
        Sequence entryHead.tail es ∧ param.IsName ∧ param.text = entry.1 ∧
        close.kind = .rParen ∧ IsBlock bs entry.2 n := by
  have hBlock : ∀ opening closing, Sound (block room opening closing) (Spans IsBlock) :=
    fun _ _ => sound_block fun inner _ => sound_statement inner
  unfold entryProcedure
  refine (sound_expectWord _ _).bind fun _ => (sound_expectWord _ _).bind fun _ =>
    (sound_expectWord _ _).bind fun _ => (sound_expectWord _ _).bind fun _ =>
      (sound_discard_expect _ (by decide)).bind fun _ => (sound_expectWord _ _).bind fun _ =>
        (sound_discard_expect _ (by decide)).bind fun _ =>
          (sound_discard_expect _ (by decide)).bind fun _ =>
            (sound_expect _ (by decide)).bind fun o =>
              (sound_discard_expect _ (by decide)).bind fun _ =>
                (hBlock _ _).bind fun body => .pure ?_
  rintro after _ ⟨bs, n, rfl, hBody⟩ _ ⟨close, rfl, hClose⟩ _ hParam _ ⟨t8, rfl, h8⟩
    _ ⟨t7, rfl, h7⟩ _ ⟨t6, rfl, h6⟩ _ ⟨t5, rfl, h5⟩ _ ⟨t4, rfl, h4⟩ _ ⟨t3, rfl, h3⟩
    _ ⟨t2, rfl, h2⟩ _ ⟨t1, rfl, h1⟩
  cases o with
  | none => exact hParam.elim
  | some param =>
      obtain ⟨rfl, hKind, hSpelled⟩ := hParam
      refine ⟨[t1, t2, t3, t4, t5, t6, t7, t8], param, close, bs, n, rfl, ?_,
        hSpelled.isName hKind, rfl, hClose, hBody⟩
      exact .cons h1 (.cons h2 (.cons h3 (.cons h4 (.cons h5 (.cons h6 (.cons h7
        (.cons h8 .nil)))))))

/-- The input may end only where all tokens are read. -/
theorem sound_checkEnd :
    Sound checkEnd fun before after _ => before = [] ∧ after = [] := by
  unfold checkEnd
  refine sound_isAtEnd.bind fun b => ?_
  cases b with
  | false => exact sound_report _
  | true =>
      refine .pure ?_
      rintro after before ⟨rfl, hNil⟩
      exact ⟨hNil rfl, hNil rfl⟩

/-- All tokens are read, and they are a program. -/
def IsWhole (before after : List Token) (p : Program) : Prop :=
  after = [] ∧ ∃ n, IsProgram before p n

theorem sound_classForm (room : Nat) : Sound (classForm room) IsWhole := by
  unfold classForm
  refine (sound_expectWord _ _).bind fun _ => (sound_expectWord _ _).bind fun _ =>
    (sound_expect _ (by decide)).bind fun o =>
      (sound_discard_expect _ (by decide)).bind fun _ =>
        (sound_entryProcedure room).bind fun entry =>
          (sound_discard_expect _ (by decide)).bind fun _ =>
            sound_checkEnd.bind fun _ => .pure ?_
  rintro after _ ⟨rfl, rfl⟩ _ ⟨last, rfl, hLast⟩ _ ⟨es, param, close, bs, n, rfl, hEntry,
    hParam, hText, hClose, hBody⟩ _ ⟨opening, rfl, hOpen⟩ _ hName _ ⟨t2, rfl, h2⟩
    _ ⟨t1, rfl, h1⟩
  cases o with
  | none => exact hName.elim
  | some name =>
      obtain ⟨rfl, hKind, hSpelled⟩ := hName
      refine ⟨rfl, n, ?_⟩
      have hHead : Sequence classHead [t1, t2] := .cons h1 (.cons h2 .nil)
      have hProgram := IsProgram.wrapped hHead (hSpelled.isName hKind) (.cons hOpen hEntry)
        hParam hClose hBody hLast
      rw [hText] at hProgram
      exact hProgram

theorem sound_scriptItem (room : Nat) :
    Sound (scriptItem room) (Gives (Spans IsStatement)) := by
  unfold scriptItem
  refine (sound_isAt (by decide)).bind fun b => ?_
  cases b with
  | true => exact sound_report_bind _ Frame.advance
  | false => exact (sound_orDrop (sound_statement room)).unmoved

/-- A statement reads at least one token. -/
theorem length_lt_of_gives {before after : List Token} {o : Option Stmt}
    (h : Gives (Spans IsStatement) before after o) : after.length < before.length := by
  cases o with
  | none => exact h.elim
  | some s =>
      obtain ⟨ts, n, rfl, hStatement⟩ := h
      obtain ⟨t, us, rfl, _⟩ := hStatement.exists_cons
      simp only [List.length_append, List.length_cons]
      omega

/-- A run of statements up to the end marker leaves nothing, if it may take as many
turns as there are tokens: every turn reads one. -/
theorem rest_repeatUntil_eq_nil {step : Parse (Option Stmt)}
    (hStep : Sound step (Gives (Spans IsStatement))) (bound : Nat) :
    ∀ s : State, s.Ready → s.rest.length ≤ bound →
      ((repeatUntil (·.kind == .eof) step bound).run s).2.errors = #[] →
        ((repeatUntil (·.kind == .eof) step bound).run s).2.rest = [] := by
  induction bound with
  | zero => exact fun s _ hLength _ => List.length_eq_zero_iff.mp (Nat.le_zero.mp hLength)
  | succ bound ih =>
      intro s hs hLength
      show ((if s.current.kind == .eof then _ else _ : Parse _).run s).2.errors = #[] →
        ((if s.current.kind == .eof then _ else _ : Parse _).run s).2.rest = []
      split
      · next hEnd => exact fun _ => hs.isHead.eq_nil (beq_iff_eq.mp hEnd)
      · intro hErrors
        have hLoop := sound_repeatUntil (·.kind == .eof) hStep bound
        have hClean := (hLoop.frame (step.run s).2).errors_eq_empty hErrors
        have hGives := hStep.holds s hs hClean
        have hLess := length_lt_of_gives hGives
        exact ih (step.run s).2 ((hStep.frame s).ready hs) (by omega) hErrors

theorem sound_scriptForm (room : Nat) : Sound (scriptForm room) IsWhole := by
  have hItem := sound_scriptItem room
  have hLoop := sound_repeatUntil (·.kind == .eof) hItem
  refine ⟨fun s => (hLoop s.rest.length).frame s, fun s hs hErrors => ?_⟩
  refine ⟨rest_repeatUntil_eq_nil hItem _ s hs (Nat.le_refl _) hErrors, ?_⟩
  obtain ⟨ts, n, hRest, hBody⟩ := (hLoop s.rest.length).holds s hs hErrors
  rw [rest_repeatUntil_eq_nil hItem _ s hs (Nat.le_refl _) hErrors, List.append_nil] at hRest
  rw [hRest]
  exact ⟨n, .script hBody⟩

theorem sound_program (room : Nat) : Sound (program room) IsWhole := by
  unfold program
  refine sound_current.bind fun t => ?_
  split
  · next hEnd =>
      refine .pure ?_
      rintro after before ⟨rfl, hHead⟩
      obtain rfl := hHead.eq_nil hEnd
      exact ⟨rfl, 0, .script .nil⟩
  · split
    · exact (sound_classForm room).unmoved
    · exact (sound_scriptForm room).unmoved

/-- A token list is ready to be parsed if what a parse sees of it is well spelled. -/
theorem State.Ready.initial {tokens : List Token}
    (h : ∀ t ∈ significant tokens, t.WellSpelled) : (State.initial tokens).Ready :=
  ⟨kind_endMarker tokens, h, nofun⟩

/-- A parse without errors has derived all it has seen. -/
theorem exists_isProgram_of_errors_eq_nil {tokens : List Token}
    (hSpelled : ∀ t ∈ significant tokens, t.WellSpelled)
    (hErrors : (parse tokens).errors = []) :
    ∃ n, IsProgram (significant tokens) (parse tokens).program n := by
  have hClean := Array.toList_eq_nil_iff.mp hErrors
  exact ((sound_program maxNesting).holds _ (.initial hSpelled) hClean).2

end Parser

/-- **No token is dropped**: if the parse of a text reports no errors, then the tokens
of the text, less comments, invalid characters and the end marker, are derived by the
grammar with the program that is returned. -/
theorem isProgram_parse_lex (source : String)
    (h : (parse (lex source).tokens).errors = []) :
    ∃ n, Grammar.IsProgram
      ((lex source).tokens.filter fun t => !t.isTrivia && t.kind != .eof)
      (parse (lex source).tokens).program n := by
  rw [← Parser.significant_lex]
  exact Parser.exists_isProgram_of_errors_eq_nil
    (fun _ ht => Parser.wellSpelled_of_mem_significant_lex ht) h

/-- A class with a loop, a conditional and a comment. -/
def loopSource : String :=
  "public class A \x7b public static void main(String[] a) \x7b\n" ++
  "int n = 3; // three\n" ++
  "for (int i = 0; i < n * 2; i++) \x7b\n" ++
  "if (i == 1 || !(n > -i)) \x7b n -= 1; \x7d else \x7b System.out.println(\"x\"); \x7d\n" ++
  "\x7d \x7d \x7d"

theorem isProgram_parse_lex_loopSource :
    (parse (lex loopSource).tokens).errors = [] ∧
      ∃ n, Grammar.IsProgram
        ((lex loopSource).tokens.filter fun t => !t.isTrivia && t.kind != .eof)
        (parse (lex loopSource).tokens).program n := by
  have hClean : (parse (lex loopSource).tokens).errors = [] := by decide +kernel
  exact ⟨hClean, isProgram_parse_lex loopSource hClean⟩

end Braceless
