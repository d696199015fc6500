import Braceless.Proofs.Parser.Soundness

/-!
# Every turn reads a token

A run of statements takes one statement after another until its end comes in sight.  Each
turn reads a token, also where nothing can be made of the tokens: a statement reads its first
token before it looks at anything else, and what it does afterwards never goes back.  So a
run of statements that may take as many turns as there are tokens never lacks a turn.

## Main definitions

* `Framed`: actions that never go back.
* `Consumes`: actions that read at least one token where one is left.

## Main results

* `consumes_statement`, `consumes_scriptItem`: a turn of either form reads a token.
-/

namespace Braceless

namespace Parser

variable {α β : Type}

/-! ## Actions that never go back -/

/-- An action that keeps what every parse keeps. -/
def Framed (p : Parse α) : Prop :=
  ∀ s, Frame s (p.run s).2

theorem framed_pure (a : α) : Framed (pure a) :=
  Frame.refl

theorem Framed.bind {p : Parse α} {f : α → Parse β} (hp : Framed p) (hf : ∀ a, Framed (f a)) :
    Framed (p >>= f) := by
  intro s
  exact (hp s).trans (hf (p.run s).1 (p.run s).2)

theorem framed_expect (k : Token.Kind) (what : String) : Framed (expect k what) := by
  intro s
  show Frame s ((if s.current.kind = k then _ else _ : Parse _).run s).2
  by_cases h : s.current.kind = k
  · rw [if_pos h]
    exact Frame.advance s
  · rw [if_neg h]
    exact Frame.report s _

theorem framed_discard_expect (k : Token.Kind) (what : String) :
    Framed (discard (expect k what)) :=
  framed_expect k what

theorem framed_block (room : Nat) (opening closing : String) :
    Framed (block room opening closing) :=
  (sound_block fun inner _ => sound_statement inner).frame

theorem framed_elseBranch (room : Nat) : Framed (elseBranch room) := by
  refine (sound_elseBranch (fun _ _ => ?_) fun inner _ => (sound_statements inner).2).frame
  exact sound_block fun inner _ => sound_statement inner

theorem Framed.nested {room : Nat} {inside : (inner : Nat) → inner < room → Parse α}
    {outside : Parse α} (hInside : ∀ inner h, Framed (inside inner h)) (hOutside : Framed outside) :
    Framed (nested room inside outside) := by
  cases room with
  | zero => exact Framed.bind Frame.reportOverflow fun _ => hOutside
  | succ inner =>
      exact Framed.bind Frame.openLevel fun _ => (hInside inner _).bind fun _ =>
        Framed.bind Frame.closeLevel fun _ => framed_pure _

/-- Dropping a token comes after all that the action does. -/
theorem Frame.orDrop (p : Parse (Option α)) (s : State) :
    Frame (p.run s).2 ((Parser.orDrop p).run s).2 := by
  unfold Parser.orDrop
  rw [StateT.run_bind]
  obtain ⟨result, next⟩ := p.run s
  cases result with
  | none => exact Frame.advance next
  | some a => exact Frame.refl next

theorem Framed.orDrop {p : Parse (Option α)} (hp : Framed p) : Framed (orDrop p) :=
  fun s => (hp s).trans (Frame.orDrop p s)

theorem Framed.repeatUntil {step : Parse (Option α)} (hStep : Framed step)
    (stop : Token → Bool) (bound : Nat) : Framed (repeatUntil stop step bound) := by
  induction bound with
  | zero => exact framed_pure _
  | succ bound ih =>
      rw [Parser.repeatUntil]
      refine Framed.bind Frame.refl fun t => ?_
      by_cases hStop : stop t = true
      · rw [if_pos hStop]
        exact framed_pure _
      · rw [if_neg hStop]
        exact hStep.bind fun _ => ih.bind fun _ => framed_pure _

/-! ## Actions that read a token -/

/-- An action that reads at least one token where one is left. -/
def Consumes (p : Parse α) : Prop :=
  ∀ s : State, s.rest ≠ [] → (p.run s).2.rest.length < s.rest.length

theorem Frame.length_le {s s' : State} (h : Frame s s') : s'.rest.length ≤ s.rest.length :=
  h.rest.length_le

theorem consumes_advance : Consumes advance := by
  intro s hs
  have hPos : 0 < s.rest.length := List.length_pos_iff.mpr hs
  show s.rest.tail.length < s.rest.length
  rw [List.length_tail]
  omega

/-- What follows does not give the token back. -/
theorem Consumes.bind {p : Parse α} {f : α → Parse β} (hp : Consumes p)
    (hf : ∀ a, Framed (f a)) : Consumes (p >>= f) := by
  intro s hs
  have hFirst := hp s hs
  have hRest := (hf (p.run s).1 (p.run s).2).length_le
  exact Nat.lt_of_le_of_lt hRest hFirst

/-- An action that reads nothing may stand in front. -/
theorem Consumes.after {p : Parse α} {f : α → Parse β} (hp : ∀ s, (p.run s).2.rest = s.rest)
    (hf : ∀ a, Consumes (f a)) : Consumes (p >>= f) := by
  intro s hs
  have hSame := hp s
  have hNext := hf (p.run s).1 (p.run s).2 (by rw [hSame]; exact hs)
  rw [hSame] at hNext
  exact hNext

/-- A look at the current token reads nothing. -/
theorem Consumes.current {f : Token → Parse β} (hf : ∀ t, Consumes (f t)) :
    Consumes (Parser.current >>= f) :=
  .after (fun _ => rfl) hf

theorem rest_checkDeclared (t : Token) (s : State) :
    ((checkDeclared t).run s).2.rest = s.rest := by
  rw [run_checkDeclared]
  split <;> rfl

/-! ## Statements -/

theorem consumes_declaration (room : Nat) (dataType : DataType) :
    Consumes (declaration room dataType) := by
  unfold declaration
  refine consumes_advance.bind fun _ => (framed_expect _ _).bind fun o => ?_
  cases o with
  | none => exact framed_pure _
  | some ident =>
      exact Framed.bind (fun s => Frame.declare s ident dataType) fun _ =>
        Framed.bind (sound_firstValue room).frame fun _ =>
          (framed_discard_expect _ _).bind fun _ => framed_pure _

theorem consumes_assignment (room : Nat) : Consumes (assignment room) := by
  unfold assignment
  exact .current fun target => .after (rest_checkDeclared target) fun _ =>
    consumes_advance.bind fun _ => Framed.bind (sound_assignedValue room target).frame fun _ =>
      (framed_discard_expect _ _).bind fun _ => framed_pure _

theorem consumes_printStatement (room : Nat) : Consumes (printStatement room) := by
  unfold printStatement
  exact .current fun _ => consumes_advance.bind fun _ => (framed_discard_expect _ _).bind fun _ =>
    Framed.bind (sound_expectWord _ _).frame fun _ => (framed_discard_expect _ _).bind fun _ =>
      Framed.bind sound_printMethod.frame fun _ => (framed_discard_expect _ _).bind fun _ =>
        Framed.bind (sound_printArgument room).frame fun _ =>
          (framed_discard_expect _ _).bind fun _ => (framed_discard_expect _ _).bind fun _ =>
            framed_pure _

theorem consumes_ifStatement (room : Nat) : Consumes (ifStatement room) := by
  rw [ifStatement]
  exact .current fun _ => consumes_advance.bind fun _ => (framed_discard_expect _ _).bind fun _ =>
    Framed.bind (sound_expression room).frame fun _ => (framed_discard_expect _ _).bind fun _ =>
      (framed_block room _ _).bind fun _ => (framed_elseBranch room).bind fun _ => framed_pure _

theorem consumes_whileStatement (room : Nat) : Consumes (whileStatement room) := by
  rw [whileStatement]
  exact .current fun _ => consumes_advance.bind fun _ => (framed_discard_expect _ _).bind fun _ =>
    Framed.bind (sound_expression room).frame fun _ => (framed_discard_expect _ _).bind fun _ =>
      (framed_block room _ _).bind fun _ => framed_pure _

theorem consumes_forStatement (room : Nat) : Consumes (forStatement room) := by
  rw [forStatement]
  refine .current fun _ => consumes_advance.bind fun _ => (framed_discard_expect _ _).bind fun _ =>
    Framed.bind (sound_forInit room).frame fun o => ?_
  cases o with
  | none => exact framed_pure _
  | some init =>
      exact Framed.bind (sound_expression room).frame fun _ =>
        (framed_discard_expect _ _).bind fun _ => Framed.bind (sound_forUpdate room).frame fun _ =>
          (framed_discard_expect _ _).bind fun _ => (framed_block room _ _).bind fun _ =>
            framed_pure _

theorem consumes_noStatement : Consumes noStatement :=
  .after (fun _ => rfl) fun _ => .after (fun _ => rfl) fun _ =>
    consumes_advance.bind fun _ => framed_pure _

/-- A choice between two actions by a look at the current token. -/
theorem Consumes.ite {look : Parse Bool} {p q : Parse α} (hLook : ∀ s, (look.run s).2 = s)
    (hp : Consumes p) (hq : Consumes q) :
    Consumes (look >>= fun b => if b = true then p else q) := by
  refine .after (fun s => by rw [hLook s]) fun b => ?_
  cases b with
  | true => exact hp
  | false => exact hq

/-- A statement reads at least one token, whatever the tokens are. -/
theorem consumes_statement (room : Nat) : Consumes (statement room) := by
  rw [statement]
  refine .after (fun _ => rfl) fun o => ?_
  cases o with
  | some dataType =>
      exact (consumes_declaration room dataType).bind fun _ => framed_pure _
  | none =>
      have hAssignment := (consumes_assignment room).bind fun a =>
        framed_pure (some (Stmt.assignment a))
      have hIf := (consumes_ifStatement room).bind fun i => framed_pure (some (Stmt.ifElse i))
      have hWhile := (consumes_whileStatement room).bind fun s => framed_pure (some s)
      have hPrint := (consumes_printStatement room).bind fun s => framed_pure (some s)
      have hNone := consumes_noStatement.bind fun s => framed_pure (some s)
      exact .ite (fun _ => rfl) hAssignment (.ite (fun _ => rfl) hIf (.ite (fun _ => rfl)
        (consumes_forStatement room) (.ite (fun _ => rfl) hWhile
          (.ite (fun _ => rfl) hPrint hNone))))

/-- A statement or a dropped token. -/
theorem consumes_orDrop {p : Parse (Option α)} (hp : Consumes p) : Consumes (orDrop p) :=
  fun s hs => Nat.lt_of_le_of_lt (Frame.orDrop p s).length_le (hp s hs)

theorem consumes_scriptItem (room : Nat) : Consumes (scriptItem room) := by
  have hBrace : Consumes (report .unrecognizedStatement >>= fun _ => advance >>= fun _ =>
      pure (none : Option Stmt)) :=
    .after (fun _ => rfl) fun _ => consumes_advance.bind fun _ => framed_pure _
  exact .ite (fun _ => rfl) hBrace (consumes_orDrop (consumes_statement room))

end Parser

end Braceless
