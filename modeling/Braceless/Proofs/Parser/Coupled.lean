import Braceless.Proofs.Parser.SideBySide

/-!
# The productions keep in step

Every production that reads expressions or statements couples with itself, with the room of
the two parses a constant apart.  Only what is read and how much room there is decides which
way a production goes, so two parses of alike tokens take the same way, also through the
recovery from errors and past the nesting limit.

## Main results

* `afterExpression_map`, `afterElseChain_map`: what is skipped does not depend on positions.
* `couples_expression`: expressions couple.
* `couples_statement`: statements couple.
-/

namespace Braceless

namespace Parser

/-! ## Skipping -/

theorem afterExpression_map (f : Position → Position) (opened : Nat) (ts : List Token) :
    afterExpression opened (ts.map (Token.mapPos f)) =
      (afterExpression opened ts).map (Token.mapPos f) := by
  induction ts generalizing opened with
  | nil => rfl
  | cons t ts ih =>
      have hKind : (t.mapPos f).kind = t.kind := rfl
      rw [List.map_cons, afterExpression, afterExpression, hKind]
      cases t.kind <;> simp only [ih, apply_ite (List.map (Token.mapPos f)), List.map_cons]

theorem afterClosing_map (f : Position → Position) (opening closing : Token.Kind) (opened : Nat)
    (ts : List Token) : afterClosing opening closing opened (ts.map (Token.mapPos f)) =
      (afterClosing opening closing opened ts).map (Token.mapPos f) := by
  induction ts generalizing opened with
  | nil => rfl
  | cons t ts ih =>
      have hKind : (t.mapPos f).kind = t.kind := rfl
      simp only [List.map_cons, afterClosing, hKind, ih, apply_ite (List.map (Token.mapPos f))]

theorem afterBalanced_map (f : Position → Position) (opening closing : Token.Kind)
    (ts : List Token) : afterBalanced opening closing (ts.map (Token.mapPos f)) =
      (afterBalanced opening closing ts).map (Token.mapPos f) := by
  cases ts with
  | nil => rfl
  | cons t ts =>
      have hKind : (t.mapPos f).kind = t.kind := rfl
      simp only [List.map_cons, afterBalanced, hKind, afterClosing_map,
        apply_ite (List.map (Token.mapPos f))]

theorem afterConditional_map (f : Position → Position) (ts : List Token) :
    afterConditional (ts.map (Token.mapPos f)) =
      (afterConditional ts).map (Token.mapPos f) := by
  have hWord : afterWord "if" (ts.map (Token.mapPos f)) =
      (afterWord "if" ts).map (Token.mapPos f) := by
    cases ts with
    | nil => rfl
    | cons t ts =>
        have hIs : (t.mapPos f).isWord "if" = t.isWord "if" := rfl
        simp only [List.map_cons, afterWord, hIs, apply_ite (List.map (Token.mapPos f))]
  rw [afterConditional, hWord, afterBalanced_map, afterBalanced_map, afterConditional]

theorem afterElseChain_map (f : Position → Position) (ts : List Token) :
    afterElseChain (ts.map (Token.mapPos f)) = (afterElseChain ts).map (Token.mapPos f) := by
  fun_induction afterElseChain ts with
  | case1 ts hNil =>
      rw [afterElseChain]
      split
      · rfl
      · next hCons => simp [afterConditional_map, hNil] at hCons
  | case2 ts t rest hCons hElse ih =>
      rw [afterElseChain]
      split
      · next hNil => simp [afterConditional_map, hCons] at hNil
      · next u us hMap =>
          rw [afterConditional_map, hCons, List.map_cons] at hMap
          obtain ⟨rfl, rfl⟩ := List.cons.inj hMap
          rw [if_pos (show (t.mapPos f).isWord "else" = true from hElse)]
          exact ih
  | case3 ts t rest hCons hElse =>
      rw [afterElseChain]
      split
      · next hNil => simp [afterConditional_map, hCons] at hNil
      · next u us hMap =>
          rw [afterConditional_map, hCons, List.map_cons] at hMap
          obtain ⟨rfl, rfl⟩ := List.cons.inj hMap
          rw [if_neg (show ¬ (t.mapPos f).isWord "else" = true from hElse)]
          rfl
/-! ## Expressions -/

variable {c : Coupling} {K : Token → Token → Prop}

theorem couples_skipExpression (hExtra : c.extra = 0) :
    Couples c (Alike c.place) skipExpression skipExpression (Expr.mapPos c.place)
      fun _ => Anywhere :=
  couples_placeholder.bind fun _ _ h =>
    (couples_skipTo hExtra (afterExpression_suffix 0) (afterExpression_map _ 0)).bind
      fun _ _ _ => .done (congrArg Expr.invalid h)

theorem couples_literalHere (kind : Literal.Kind) (value : String) :
    Couples c (Alike c.place) (literalHere kind value) (literalHere kind value)
      (Expr.mapPos c.place) fun _ => Anywhere :=
  couples_advance.bind fun _ _ _ => .done rfl

theorem couples_noExpression :
    Couples c K noExpression noExpression (Expr.mapPos c.place) fun _ => Anywhere :=
  (couples_report _).bind fun _ _ _ => couples_placeholder.bind fun _ _ h =>
    .done (congrArg Expr.invalid h)

/-- A factor, given the expressions within the same room. -/
theorem couples_factor {room : Nat}
    (hExpression : ∀ K, Couples c K (expression room) (expression (room + c.extra))
      (Expr.mapPos c.place) fun _ => Anywhere) :
    Couples c K (factor room) (factor (room + c.extra)) (Expr.mapPos c.place)
      fun _ => Anywhere := by
  rw [factor, factor]
  refine .current (fun t t' h => ?_) fun t t' h => ?_
  · obtain ⟨kind, text, pos⟩ := t
    obtain ⟨kind', text', pos'⟩ := t'
    obtain rfl : kind = kind' := h.kind
    obtain rfl : text = text' := h.text
    cases kind with
    | integer => exact couples_literalHere _ _
    | decimal => exact couples_literalHere _ _
    | char => exact couples_literalHere _ _
    | string => exact couples_literalHere _ _
    | keyword =>
        by_cases hTruth : text = "true" ∨ text = "false"
        · rw [if_pos hTruth]
          exact couples_literalHere _ _
        · rw [if_neg hTruth]
          exact couples_noExpression
    | identifier =>
        refine (couples_checkDeclared h).bind fun _ _ _ => couples_advance.bind fun _ _ _ =>
          .done ?_
        exact congrArg (Expr.identifier text) h.pos
    | lParen =>
        exact couples_advance.bind fun _ _ _ => (hExpression _).bind fun _ _ hInner =>
          (couples_discard_expect _ (by decide) (by decide)).bind fun _ _ _ =>
            .done (congrArg Expr.group hInner)
    | _ => exact couples_noExpression
  · obtain ⟨hKind, hKind', _⟩ := c.ends h
    rw [hKind, hKind']
    exact couples_noExpression

/-- A unary operand, given those with less room. -/
theorem couples_unary {room : Nat}
    (hExpression : ∀ K, Couples c K (expression room) (expression (room + c.extra))
      (Expr.mapPos c.place) fun _ => Anywhere)
    (hInner : ∀ inner < room, ∀ K, Couples c K (unary inner) (unary (inner + c.extra))
      (Expr.mapPos c.place) fun _ => Anywhere) :
    Couples c K (unary room) (unary (room + c.extra)) (Expr.mapPos c.place)
      fun _ => Anywhere := by
  rw [unary, unary]
  refine .current (fun t t' h => ?_) fun t t' h => ?_
  · rw [← h.kind]
    cases unaryOp? t.kind with
    | none => exact couples_factor hExpression
    | some op =>
        refine .nested rfl (fun inner inner' h h' hRoom => ?_) (fun inner h => ?_)
          frame_skipExpression frame_skipExpression couples_skipExpression
        · subst hRoom
          exact couples_advance.bind fun _ _ _ => (hInner inner h _).bind fun _ _ hOperand =>
            .done (congrArg (Expr.unary op) hOperand)
        · exact Framed.bind Frame.advance fun _ =>
            Framed.bind (sound_operands inner).2.2.frame fun _ => framed_pure _
  · obtain ⟨hKind, hKind', _⟩ := c.ends h
    rw [hKind, hKind']
    exact couples_factor hExpression

/-- No operator of a level stands where what the parses share ends. -/
theorem lookup_eq_none_of_isLevel {r : Nat} {ops : OperatorLevel} (hLevel : IsLevel r ops)
    {k : Token.Kind} (hk : ∀ op : BinaryOp, k ≠ op.kind) : ops.lookup k = none := by
  cases hLookup : ops.lookup k with
  | none => rfl
  | some op => exact absurd ((hLevel k op).mp hLookup).2 (hk op)

/-- The rest of a chain, given the operands and the chains with less room. -/
theorem couples_chain {room r : Nat} {ops : OperatorLevel} {left left' : Expr} (hr : r < 6)
    (hLevel : IsLevel r ops) (hLeft : left.mapPos c.place = left'.mapPos c.place)
    (hOperand : ∀ inner < room, ∀ K,
      Couples c K (binary inner (operatorLevels.drop (r + 1)))
        (binary (inner + c.extra) (operatorLevels.drop (r + 1))) (Expr.mapPos c.place)
        fun _ => Anywhere)
    (hMore : ∀ inner < room, ∀ K (left left' : Expr),
      left.mapPos c.place = left'.mapPos c.place →
        Couples c K (chain inner ops (operatorLevels.drop (r + 1)) left)
          (chain (inner + c.extra) ops (operatorLevels.drop (r + 1)) left')
          (Expr.mapPos c.place) fun _ => Anywhere) :
    Couples c K (chain room ops (operatorLevels.drop (r + 1)) left)
      (chain (room + c.extra) ops (operatorLevels.drop (r + 1)) left') (Expr.mapPos c.place)
      fun _ => Anywhere := by
  rw [chain, chain]
  refine .looking (fun t => ops.lookup t.kind) none (fun _ => rfl) ?_ ?_ ?_ (.done hLeft)
  · intro t t' h
    rw [h.kind]
  · intro t t' h
    obtain ⟨hKind, hKind', _⟩ := c.ends h
    constructor
    · exact lookup_eq_none_of_isLevel hLevel fun op => by rw [hKind]; cases op <;> decide
    · exact lookup_eq_none_of_isLevel hLevel fun op => by rw [hKind']; cases op <;> decide
  · intro o ho
    cases o with
    | none => exact absurd rfl ho
    | some op =>
        refine .nested rfl (fun inner inner' h h' hRoom => ?_) (fun inner h => ?_)
          (Framed.bind frame_skipExpression fun _ => framed_pure _)
          (Framed.bind frame_skipExpression fun _ => framed_pure _) fun hExtra => ?_
        · subst hRoom
          refine couples_advance.bind fun _ _ _ => (hOperand inner h _).bind
            fun right right' hRight => hMore inner h _ _ _ ?_
          simp only [Expr.mapPos, hLeft, hRight]
        · have hFrames := sound_operands inner
          exact Framed.bind Frame.advance fun _ =>
            Framed.bind (hFrames.1 (r + 1) hr).frame fun right =>
              (hFrames.2.1 r hr ops _ hLevel).frame
        · exact (couples_skipExpression hExtra).discard.bind fun _ _ _ => .done hLeft

/-- An operand of a rank, given the chains of all ranks and the tightest operand. -/
theorem couples_joined {operand operand' : Parse Expr}
    {go go' : OperatorLevel → List OperatorLevel → Expr → Parse Expr}
    (hOperand : ∀ K, Couples c K operand operand' (Expr.mapPos c.place) fun _ => Anywhere)
    (hGo : ∀ r < 6, ∀ K ops (left left' : Expr), IsLevel r ops →
      left.mapPos c.place = left'.mapPos c.place →
        Couples c K (go ops (operatorLevels.drop (r + 1)) left)
          (go' ops (operatorLevels.drop (r + 1)) left') (Expr.mapPos c.place)
          fun _ => Anywhere) :
    ∀ k r, r + k = 6 → ∀ K,
      Couples c K (joined operand go (operatorLevels.drop r))
        (joined operand' go' (operatorLevels.drop r)) (Expr.mapPos c.place)
        fun _ => Anywhere := by
  intro k
  induction k with
  | zero =>
      intro r hr K
      obtain rfl : r = 6 := hr
      exact hOperand K
  | succ k ih =>
      intro r hr K
      have hLt : r < 6 := by omega
      obtain ⟨ops, hLevel, hDrop⟩ := exists_isLevel hLt
      rw [hDrop, joined, joined]
      exact (ih (r + 1) (by omega) K).bind fun left left' hLeft =>
        hGo r hLt _ ops left left' hLevel hLeft

/-- An expression, given the operands with less room. -/
theorem couples_expression_of {room : Nat}
    (hInner : ∀ inner < room, ∀ K, Couples c K (binary inner operatorLevels)
      (binary (inner + c.extra) operatorLevels) (Expr.mapPos c.place) fun _ => Anywhere) :
    Couples c K (expression room) (expression (room + c.extra)) (Expr.mapPos c.place)
      fun _ => Anywhere := by
  rw [expression, expression]
  refine .nested rfl (fun inner inner' h h' hRoom => ?_) (fun inner _ => ?_)
    frame_skipExpression frame_skipExpression couples_skipExpression
  · subst hRoom
    exact hInner inner h K
  · exact ((sound_operands inner).1 0 (by omega)).frame

/-- Operands of every rank, chains and unary operands, by the room that is left. -/
theorem couples_operands (room : Nat) :
    (∀ r ≤ 6, ∀ K, Couples c K (binary room (operatorLevels.drop r))
      (binary (room + c.extra) (operatorLevels.drop r)) (Expr.mapPos c.place)
      fun _ => Anywhere) ∧
    (∀ r < 6, ∀ K ops (left left' : Expr), IsLevel r ops →
      left.mapPos c.place = left'.mapPos c.place →
        Couples c K (chain room ops (operatorLevels.drop (r + 1)) left)
          (chain (room + c.extra) ops (operatorLevels.drop (r + 1)) left')
          (Expr.mapPos c.place) fun _ => Anywhere) ∧
    ∀ K, Couples c K (unary room) (unary (room + c.extra)) (Expr.mapPos c.place)
      fun _ => Anywhere := by
  induction room using Nat.strongRecOn with
  | ind room ih =>
      have hUnary : ∀ K, Couples c K (unary room) (unary (room + c.extra))
          (Expr.mapPos c.place) fun _ => Anywhere := fun _ =>
        couples_unary (fun _ => couples_expression_of fun inner h => (ih inner h).1 0 (by omega))
          fun inner h => (ih inner h).2.2
      have hChain : ∀ r < 6, ∀ K ops (left left' : Expr), IsLevel r ops →
          left.mapPos c.place = left'.mapPos c.place →
            Couples c K (chain room ops (operatorLevels.drop (r + 1)) left)
              (chain (room + c.extra) ops (operatorLevels.drop (r + 1)) left')
              (Expr.mapPos c.place) fun _ => Anywhere := by
        intro r hr K ops left left' hLevel hLeft
        refine couples_chain hr hLevel hLeft (fun inner h => (ih inner h).1 (r + 1) hr) ?_
        intro inner h K left left' hLeft
        exact (ih inner h).2.1 r hr K ops left left' hLevel hLeft
      refine ⟨fun r hr K => ?_, hChain, hUnary⟩
      rw [binary, binary]
      exact couples_joined hUnary hChain (6 - r) r (by omega) K

theorem couples_expression (room : Nat) :
    Couples c K (expression room) (expression (room + c.extra)) (Expr.mapPos c.place)
      fun _ => Anywhere :=
  couples_expression_of fun inner _ => (couples_operands inner).1 0 (by omega)

/-! ## Simple statements -/

theorem couples_firstValue (room : Nat) :
    Couples c K (firstValue room) (firstValue (room + c.extra))
      (Option.map (Expr.mapPos c.place)) fun _ => Anywhere := by
  refine (couples_eat (by decide) (by decide)).bind fun b b' h => ?_
  obtain rfl : b = b' := h
  cases b with
  | false => exact .done rfl
  | true => exact (couples_expression room).bind fun _ _ hValue => .done (congrArg some hValue)

theorem couples_declaration (room : Nat) (dataType : DataType) :
    Couples c (Alike c.place) (declaration room dataType)
      (declaration (room + c.extra) dataType) (Option.map (Declaration.mapPos c.place))
      (AlikeIfNone c) := by
  refine couples_advance.bind fun _ _ _ =>
    (couples_expect _ (by decide) (by decide)).bindOption (.missing fun _ _ h => h rfl) ?_
  intro ident ident' hIdent
  have hAlike : Alike c.place ident ident' := hIdent
  refine (couples_declare hAlike dataType).bind fun _ _ _ =>
    (couples_firstValue room).bind fun value value' hValue =>
      (couples_discard_expect _ (by decide) (by decide)).bind fun _ _ _ => .given ?_
  simp only [Declaration.mapPos, hAlike.text, hAlike.pos, hValue]

/-- The operation that updates a variable, at alike tokens. -/
theorem mapPos_updated {place : Position → Position} {target target' : Token}
    (h : Alike place target target') (op : BinaryOp) {amount amount' : Expr}
    (hAmount : amount.mapPos place = amount'.mapPos place) :
    (updated target op amount).mapPos place = (updated target' op amount').mapPos place := by
  simp only [updated, Expr.mapPos, h.text, h.pos, hAmount]

theorem couples_updateValue (room : Nat) {target target' : Token}
    (hTarget : Alike c.place target target') (what : String) :
    Couples c K (updateValue room target what) (updateValue (room + c.extra) target' what)
      (Option.map (Expr.mapPos c.place)) (AlikeIfNone c) := by
  have hReport : ∀ L, Couples c L
      (report (.expected what) >>= fun _ => pure (none : Option Expr))
      (report (.expected what) >>= fun _ => pure none) (Option.map (Expr.mapPos c.place))
      (AlikeIfNone c) := fun L =>
    (couples_report _).bind fun _ _ _ => .missing fun _ _ h => h
  have hStep : ∀ op, Couples c (Alike c.place)
      (advance >>= fun _ => pure (some (updated target op one)))
      (advance >>= fun _ => pure (some (updated target' op one)))
      (Option.map (Expr.mapPos c.place)) (AlikeIfNone c) := fun op =>
    couples_advance.bind fun _ _ _ =>
      .given (mapPos_updated hTarget op rfl)
  have hAmount : ∀ op, Couples c (Alike c.place)
      (advance >>= fun _ => expression room >>= fun e => pure (some (updated target op e)))
      (advance >>= fun _ => expression (room + c.extra) >>= fun e =>
        pure (some (updated target' op e)))
      (Option.map (Expr.mapPos c.place)) (AlikeIfNone c) := fun op =>
    couples_advance.bind fun _ _ _ => (couples_expression room).bind fun _ _ hAmount =>
      .given (mapPos_updated hTarget op hAmount)
  refine .current (fun t t' h => ?_) fun t t' h => ?_
  · rw [← h.kind]
    cases t.kind with
    | assign =>
        exact couples_advance.bind fun _ _ _ => (couples_expression room).bind
          fun _ _ hValue => .given hValue
    | increment => exact hStep .add
    | decrement => exact hStep .sub
    | plusAssign => exact hAmount .add
    | minusAssign => exact hAmount .sub
    | _ => exact hReport _
  · obtain ⟨hKind, hKind', _⟩ := c.ends h
    rw [hKind, hKind']
    exact hReport _

/-- Where the operator is missing the current tokens are alike, so both parses find the same
end of the statement or none. -/
theorem couples_valueWithoutOperator (room : Nat) :
    Couples c (Alike c.place) (valueWithoutOperator room)
      (valueWithoutOperator (room + c.extra)) (Expr.mapPos c.place) fun _ => Anywhere := by
  refine .here fun t t' h => ?_
  rw [← h.kind]
  by_cases hEnd : t.kind = .semicolon ∨ t.kind = .rBrace
  · rw [if_pos hEnd, if_pos hEnd]
    exact couples_placeholder.bind fun _ _ hPlace => .done (congrArg Expr.invalid hPlace)
  · rw [if_neg hEnd, if_neg hEnd]
    exact couples_expression room

theorem couples_assignedValue (room : Nat) {target target' : Token}
    (hTarget : Alike c.place target target') :
    Couples c K (assignedValue room target) (assignedValue (room + c.extra) target')
      (Expr.mapPos c.place) fun _ => Anywhere := by
  refine (couples_updateValue room hTarget _).bindOption ?_ fun _ _ hValue => .done hValue
  exact (couples_valueWithoutOperator room).weaken fun _ _ h => h rfl

theorem couples_assignment (room : Nat) :
    Couples c (Alike c.place) (assignment room) (assignment (room + c.extra))
      (Assignment.mapPos c.place) fun _ => Anywhere := by
  refine .here fun target target' hTarget =>
    (couples_checkDeclared hTarget).bind fun _ _ _ => couples_advance.bind fun _ _ _ =>
      (couples_assignedValue room hTarget).bind fun value value' hValue =>
        (couples_discard_expect _ (by decide) (by decide)).bind fun _ _ _ => .done ?_
  simp only [Assignment.mapPos, hTarget.text, hTarget.pos, hValue]

theorem couples_printMethod :
    Couples c K printMethod printMethod id fun _ => Anywhere := by
  refine (couples_eatWord _).bind fun b b' h => ?_
  obtain rfl : b = b' := h
  cases b with
  | true => exact .done rfl
  | false =>
      refine (couples_eatWord _).bind fun b b' h => ?_
      obtain rfl : b = b' := h
      cases b with
      | true => exact .done rfl
      | false => exact (couples_report _).bind fun _ _ _ => .done rfl

theorem couples_printArgument (room : Nat) :
    Couples c K (printArgument room) (printArgument (room + c.extra))
      (Option.map (Expr.mapPos c.place)) fun _ => Anywhere :=
  .isAt (by decide) (by decide) (.done rfl) <|
    (couples_expression room).bind fun _ _ hValue => .done (congrArg some hValue)

theorem couples_printStatement (room : Nat) :
    Couples c (Alike c.place) (printStatement room) (printStatement (room + c.extra))
      (Stmt.mapPos c.place) fun _ => Anywhere := by
  refine .here fun t t' h => couples_advance.bind fun _ _ _ =>
    (couples_discard_expect _ (by decide) (by decide)).bind fun _ _ _ =>
      (couples_expectWord _ _).bind fun _ _ _ =>
        (couples_discard_expect _ (by decide) (by decide)).bind fun _ _ _ =>
          couples_printMethod.bind fun newline newline' hNewline =>
            (couples_discard_expect _ (by decide) (by decide)).bind fun _ _ _ =>
              (couples_printArgument room).bind fun argument argument' hArgument =>
                (couples_discard_expect _ (by decide) (by decide)).bind fun _ _ _ =>
                  (couples_discard_expect _ (by decide) (by decide)).bind fun _ _ _ => .done ?_
  obtain rfl : newline = newline' := hNewline
  simp only [Stmt.mapPos, hArgument, h.pos]

/-! ## The header of a counting loop -/

theorem couples_forInit (room : Nat) :
    Couples c K (forInit room) (forInit (room + c.extra))
      (Option.map (ForInit.mapPos c.place)) (AlikeIfNone c) := by
  refine .typeHere (fun dataType => ?_) (.isAt (by decide) (by decide) ?_ ?_)
  · exact (couples_declaration room dataType).bindOption (.missing fun _ _ h => h rfl)
      fun d d' h => .given (congrArg ForInit.declaration h)
  · exact (couples_assignment room).bind fun a a' h =>
      .given (congrArg ForInit.assignment h)
  · exact (couples_report _).bind fun _ _ _ => .missing fun _ _ h => h

theorem couples_forUpdate (room : Nat) :
    Couples c K (forUpdate room) (forUpdate (room + c.extra))
      (Option.map (Assignment.mapPos c.place)) fun _ => Anywhere := by
  refine (couples_expect _ (by decide) (by decide)).bindOption (.done rfl) ?_
  intro target target' hIdent
  have hTarget : Alike c.place target target' := hIdent
  refine (couples_checkDeclared hTarget).bind fun _ _ _ =>
    (couples_updateValue room hTarget _).bindOption (.done rfl) fun v v' hValue => .done ?_
  simp only [Option.map_some, Assignment.mapPos, hTarget.text, hTarget.pos, hValue]

/-! ## Compound statements -/

theorem couples_noStatement :
    Couples c K noStatement noStatement (Stmt.mapPos c.place) fun _ => Anywhere := by
  show Couples c K
    (current >>= fun t => report .unrecognizedStatement >>= fun _ => advance >>= fun _ =>
      pure (Stmt.invalid ⟨t.text, t.pos⟩))
    (current >>= fun t => report .unrecognizedStatement >>= fun _ => advance >>= fun _ =>
      pure (Stmt.invalid ⟨t.text, t.pos⟩)) _ _
  refine .current (fun t t' h => ?_) fun t t' h => ?_
  · refine (couples_report _).bind fun _ _ _ => couples_advance.bind fun _ _ _ => .done ?_
    simp only [Stmt.mapPos, Placeholder.mapPos, h.text, h.pos]
  · -- The parses part at the report, so what is read for the placeholder does not matter.
    refine ⟨?_, ?_, fun s s' hs hEnd => .inl ?_⟩
    · exact Framed.bind (frame_report _) fun _ => Framed.bind Frame.advance fun _ => framed_pure _
    · exact Framed.bind (frame_report _) fun _ => Framed.bind Frame.advance fun _ => framed_pure _
    · exact c.parted (c.reportEnds _ _ hs hEnd) (Frame.advance _) (Frame.advance _)

theorem couples_orDrop {α β : Type} {view : α → β} {p p' : Parse (Option α)}
    (hp : Couples c K p p' (Option.map view) (AlikeIfNone c)) :
    Couples c K (orDrop p) (orDrop p') (Option.map view) fun _ => Anywhere := by
  refine hp.bindOption ?_ fun _ _ h => .done (congrArg some h)
  exact (couples_advance.bind fun _ _ _ => .done rfl).weaken fun _ _ h => h rfl

theorem endsBlock_of_eof {t : Token} (h : t.kind = .eof) : endsBlock t = true := by
  simp [endsBlock, h]

theorem stopsAt_endsBlock : c.StopsAt endsBlock where
  alike t t' h := by rw [endsBlock, endsBlock, h.kind]
  ends t t' h := by
    obtain ⟨hKind, hKind', _⟩ := c.ends h
    simp [endsBlock, hKind, hKind']
  eof _ h := endsBlock_of_eof h

/-- A block, given the statements with less room. -/
theorem couples_block {room : Nat} {opening closing : String}
    (hInner : ∀ inner < room, ∀ K, Couples c K (statement inner) (statement (inner + c.extra))
      (Option.map (Stmt.mapPos c.place)) (AlikeIfNone c)) :
    Couples c K (block room opening closing) (block (room + c.extra) opening closing)
      (mapPosAll c.place) fun _ => Anywhere := by
  rw [block, block]
  have hSkip : Framed (skipTo (afterBalanced .lBrace .rBrace) >>= fun _ => pure ([] : List Stmt)) :=
    Framed.bind (fun s => Frame.skip (afterBalanced_suffix _ _ s.rest)) fun _ => framed_pure _
  refine .nested rfl (fun inner inner' h h' hRoom => ?_) (fun inner _ => ?_) hSkip hSkip
    fun hExtra => ?_
  · subst hRoom
    have hBody := Couples.repeatUntil (K := Anywhere) stopsAt_endsBlock
      (couples_orDrop (hInner inner h _)) (consumes_orDrop (consumes_statement inner))
      (consumes_orDrop (consumes_statement (inner + c.extra)))
    exact (couples_discard_expect _ (by decide) (by decide)).bind fun _ _ _ =>
      hBody.bind fun _ _ hBody => (couples_closingBrace _).bind fun _ _ _ => .done hBody
  · have hStatement : Framed (orDrop (statement inner)) :=
      Framed.orDrop (sound_statement inner).frame
    exact (framed_discard_expect _ _).bind fun _ => Framed.bind Frame.refl fun s =>
      (hStatement.repeatUntil _ _).bind fun _ => (framed_discard_expect _ _).bind fun _ =>
        framed_pure _
  · exact (couples_skipTo hExtra (afterBalanced_suffix _ _) (afterBalanced_map _ _ _)).bind
      fun _ _ _ => .done rfl

/-- The branches after the first one, given the blocks within the same room and the
conditionals with less. -/
theorem couples_elseBranch {room : Nat}
    (hBlock : ∀ K opening closing, Couples c K (block room opening closing)
      (block (room + c.extra) opening closing) (mapPosAll c.place) fun _ => Anywhere)
    (hInner : ∀ inner < room, Couples c (Alike c.place) (ifStatement inner)
      (ifStatement (inner + c.extra)) (IfStatement.mapPos c.place) fun _ => Anywhere) :
    Couples c K (elseBranch room) (elseBranch (room + c.extra)) (Else.mapPos c.place)
      fun _ => Anywhere := by
  rw [elseBranch, elseBranch]
  have hSkip : Framed (skipTo afterElseChain >>= fun _ => pure Else.none) :=
    Framed.bind (fun s => Frame.skip (afterElseChain_suffix s.rest)) fun _ => framed_pure _
  refine (couples_eatWord "else").bind fun b b' h => ?_
  obtain rfl : b = b' := h
  cases b with
  | false => exact .done rfl
  | true =>
      refine .isAtWord ?_ ((hBlock _ _ _).bind fun _ _ hBody => .done ?_)
      · refine .nested rfl (fun inner inner' h h' hRoom => ?_) (fun inner _ => ?_) hSkip hSkip
          fun hExtra => ?_
        · subst hRoom
          refine (hInner inner h).bind fun i i' hi => .done ?_
          simp only [Else.mapPos, hi]
        · exact Framed.bind (sound_statements inner).2.frame fun _ => framed_pure _
        · exact (couples_skipTo hExtra afterElseChain_suffix (afterElseChain_map _)).bind
            fun _ _ _ => .done rfl
      · simp only [Else.mapPos, hBody]

theorem couples_ifStatement {room : Nat}
    (hBlock : ∀ K opening closing, Couples c K (block room opening closing)
      (block (room + c.extra) opening closing) (mapPosAll c.place) fun _ => Anywhere)
    (hElse : ∀ K, Couples c K (elseBranch room) (elseBranch (room + c.extra))
      (Else.mapPos c.place) fun _ => Anywhere) :
    Couples c (Alike c.place) (ifStatement room) (ifStatement (room + c.extra))
      (IfStatement.mapPos c.place) fun _ => Anywhere := by
  rw [ifStatement, ifStatement]
  refine .here fun t t' h => couples_advance.bind fun _ _ _ =>
    (couples_discard_expect _ (by decide) (by decide)).bind fun _ _ _ =>
      (couples_expression room).bind fun condition condition' hCondition =>
        (couples_discard_expect _ (by decide) (by decide)).bind fun _ _ _ =>
          (hBlock _ _ _).bind fun body body' hBody =>
            (hElse _).bind fun orElse orElse' hOrElse => .done ?_
  simp only [IfStatement.mapPos, hCondition, hBody, hOrElse, h.pos]

theorem couples_forStatement {room : Nat}
    (hBlock : ∀ K opening closing, Couples c K (block room opening closing)
      (block (room + c.extra) opening closing) (mapPosAll c.place) fun _ => Anywhere) :
    Couples c (Alike c.place) (forStatement room) (forStatement (room + c.extra))
      (Option.map (Stmt.mapPos c.place)) (AlikeIfNone c) := by
  rw [forStatement, forStatement]
  refine .here fun t t' h => couples_advance.bind fun _ _ _ =>
    (couples_discard_expect _ (by decide) (by decide)).bind fun _ _ _ =>
      (couples_forInit room).bindOption (.missing fun _ _ h => h rfl) ?_
  intro init init' hInit
  refine (couples_expression room).bind fun condition condition' hCondition =>
    (couples_discard_expect _ (by decide) (by decide)).bind fun _ _ _ =>
      (couples_forUpdate room).bind fun update update' hUpdate =>
        (couples_discard_expect _ (by decide) (by decide)).bind fun _ _ _ =>
          (hBlock _ _ _).bind fun body body' hBody => .given ?_
  simp only [Stmt.mapPos, hInit, hCondition, hUpdate, hBody, h.pos]

theorem couples_whileStatement {room : Nat}
    (hBlock : ∀ K opening closing, Couples c K (block room opening closing)
      (block (room + c.extra) opening closing) (mapPosAll c.place) fun _ => Anywhere) :
    Couples c (Alike c.place) (whileStatement room) (whileStatement (room + c.extra))
      (Stmt.mapPos c.place) fun _ => Anywhere := by
  rw [whileStatement, whileStatement]
  refine .here fun t t' h => couples_advance.bind fun _ _ _ =>
    (couples_discard_expect _ (by decide) (by decide)).bind fun _ _ _ =>
      (couples_expression room).bind fun condition condition' hCondition =>
        (couples_discard_expect _ (by decide) (by decide)).bind fun _ _ _ =>
          (hBlock _ _ _).bind fun body body' hBody => .done ?_
  simp only [Stmt.mapPos, hCondition, hBody, h.pos]

/-- A production that always gives a statement. -/
theorem Couples.asStatement {p p' : Parse Stmt} {T : Stmt → Token → Token → Prop}
    (hp : Couples c K p p' (Stmt.mapPos c.place) T) :
    Couples c K (p >>= fun s => Pure.pure (some s)) (p' >>= fun s => Pure.pure (some s))
      (Option.map (Stmt.mapPos c.place)) (AlikeIfNone c) :=
  hp.bind fun _ _ h => .given h

/-- A statement, given the blocks and conditionals within the same room. -/
theorem couples_statement_of {room : Nat}
    (hBlock : ∀ K opening closing, Couples c K (block room opening closing)
      (block (room + c.extra) opening closing) (mapPosAll c.place) fun _ => Anywhere)
    (hIf : Couples c (Alike c.place) (ifStatement room) (ifStatement (room + c.extra))
      (IfStatement.mapPos c.place) fun _ => Anywhere) :
    Couples c K (statement room) (statement (room + c.extra))
      (Option.map (Stmt.mapPos c.place)) (AlikeIfNone c) := by
  rw [statement, statement]
  refine .typeHere (fun dataType => ?_) (.isAt (by decide) (by decide) ?_ (.isAtWord ?_
    (.isAtWord (couples_forStatement hBlock) (.isAtWord (couples_whileStatement hBlock).asStatement
      (.isAtWord (couples_printStatement room).asStatement couples_noStatement.asStatement)))))
  · refine (couples_declaration room dataType).bindOption (.missing fun _ _ h => h rfl)
      fun d d' h => .given ?_
    simp only [Stmt.mapPos, h]
  · refine (couples_assignment room).bind fun a a' h => .given ?_
    simp only [Stmt.mapPos, h]
  · refine hIf.bind fun i i' h => .given ?_
    simp only [Stmt.mapPos, h]

/-- Statements and conditionals, by the room that is left. -/
theorem couples_statements (room : Nat) :
    (∀ K, Couples c K (statement room) (statement (room + c.extra))
      (Option.map (Stmt.mapPos c.place)) (AlikeIfNone c)) ∧
    Couples c (Alike c.place) (ifStatement room) (ifStatement (room + c.extra))
      (IfStatement.mapPos c.place) fun _ => Anywhere := by
  induction room using Nat.strongRecOn with
  | ind room ih =>
      have hBlock : ∀ K opening closing, Couples c K (block room opening closing)
          (block (room + c.extra) opening closing) (mapPosAll c.place) fun _ => Anywhere :=
        fun _ _ _ => couples_block fun inner h => (ih inner h).1
      have hIf := couples_ifStatement hBlock fun _ =>
        couples_elseBranch hBlock fun inner h => (ih inner h).2
      exact ⟨fun _ => couples_statement_of hBlock hIf, hIf⟩

theorem couples_statement (room : Nat) :
    Couples c K (statement room) (statement (room + c.extra))
      (Option.map (Stmt.mapPos c.place)) (AlikeIfNone c) :=
  (couples_statements room).1 K

end Parser

end Braceless
