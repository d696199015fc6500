import Braceless.Parser

/-!
# What every parse keeps

Whatever a production does, it reads on in the token list and never back, only
adds errors, and leaves no excursion past the nesting limit unreported.  These
facts hold on the paths of recovery too, so they are what later arguments fall
back on where nothing is known about the tokens.

## Main definitions

* `State.Overrun`: the nesting limit has been reported.
* `State.Accounted`: an excursion past the limit has been reported.
* `Frame`: what one state keeps of another.

## Main results

* `afterExpression_suffix`, `afterElseChain_suffix`: skipping only drops tokens.
* `run_declare`, `run_checkDeclared`: what becomes of a name.
* `Frame.reportOverflow`: after an overflow the limit has been reported.
-/

namespace Braceless

namespace Parser

/-! ## Skipping -/

theorem afterExpression_suffix (opened : Nat) (ts : List Token) :
    afterExpression opened ts <:+ ts := by
  induction ts generalizing opened with
  | nil => exact List.suffix_refl _
  | cons t ts ih =>
      have hSkip : ∀ k, afterExpression k ts <:+ t :: ts := fun k =>
        (ih k).trans (List.suffix_cons t ts)
      unfold afterExpression
      split
      · split
        · exact List.suffix_refl _
        · exact hSkip _
      · exact hSkip _
      · exact hSkip _
      · split
        · exact List.suffix_refl _
        · exact hSkip _
      · split
        · exact List.suffix_refl _
        · exact hSkip _
      · exact hSkip _

theorem afterClosing_suffix (opening closing : Token.Kind) (opened : Nat)
    (ts : List Token) : afterClosing opening closing opened ts <:+ ts := by
  induction ts generalizing opened with
  | nil => exact List.suffix_refl _
  | cons t ts ih =>
      have hSkip : ∀ k, afterClosing opening closing k ts <:+ t :: ts := fun k =>
        (ih k).trans (List.suffix_cons t ts)
      unfold afterClosing
      split
      · exact hSkip _
      · split
        · split
          · exact List.suffix_cons t ts
          · exact hSkip _
        · exact hSkip _

theorem afterBalanced_suffix (opening closing : Token.Kind) (ts : List Token) :
    afterBalanced opening closing ts <:+ ts := by
  cases ts with
  | nil => exact List.suffix_refl _
  | cons t ts =>
      rw [afterBalanced]
      split
      · exact (afterClosing_suffix ..).trans (List.suffix_cons t ts)
      · exact List.suffix_refl _

theorem afterWord_suffix (word : String) (ts : List Token) :
    afterWord word ts <:+ ts := by
  cases ts with
  | nil => exact List.suffix_refl _
  | cons t ts =>
      rw [afterWord]
      split
      · exact List.suffix_cons t ts
      · exact List.suffix_refl _

theorem afterConditional_suffix (ts : List Token) : afterConditional ts <:+ ts :=
  (afterBalanced_suffix ..).trans
    ((afterBalanced_suffix ..).trans (afterWord_suffix ..))

theorem afterElseChain_suffix (ts : List Token) : afterElseChain ts <:+ ts := by
  fun_induction afterElseChain ts with
  | case1 ts hNil => exact List.nil_suffix
  | case2 ts t rest hCons _ ih =>
      have hTail : rest <:+ ts :=
        (List.suffix_cons t rest).trans (hCons ▸ afterConditional_suffix ts)
      exact ih.trans hTail
  | case3 ts t rest hCons _ => exact hCons ▸ afterConditional_suffix ts

/-! ## Variables -/

/-- A name is reported if it is in the table, and entered if it is not. -/
theorem run_declare (ident : Token) (dataType : DataType) (s : State) :
    ((declare ident dataType).run s).2 =
      if ident.text ∈ s.declared.names then s.report (.ofToken (.redeclared ident.text) ident)
      else { s with declared := s.declared.insert ⟨ident.text, dataType, ident.pos⟩ } := by
  show ((if s.declared.contains ident.text then _ else _ : Parse Unit).run s).2 = _
  by_cases h : ident.text ∈ s.declared.names
  · rw [if_pos h, if_pos (Declarations.contains_iff.mpr h)]
    rfl
  · rw [if_neg h, if_neg (fun hTable => h (Declarations.contains_iff.mp hTable))]
    rfl

/-- A name is reported if it is not in the table. -/
theorem run_checkDeclared (ident : Token) (s : State) :
    ((checkDeclared ident).run s).2 =
      if ident.text ∈ s.declared.names then s
      else s.report (.ofToken (.undeclared ident.text) ident) := by
  show ((if s.declared.contains ident.text then _ else _ : Parse Unit).run s).2 = _
  by_cases h : ident.text ∈ s.declared.names
  · rw [if_pos h, if_pos (Declarations.contains_iff.mpr h)]
    rfl
  · rw [if_neg h, if_neg (fun hTable => h (Declarations.contains_iff.mp hTable))]
    rfl

/-! ## Frames -/

namespace State

/-- What holds of the tokens that are left and of the end marker holds of the current token. -/
theorem current_of_forall {s : State} {P : Token → Prop} (hRest : ∀ t ∈ s.rest, P t)
    (hStop : P s.stop) : P s.current := by
  cases hTokens : s.rest with
  | nil =>
      rw [current_eq_stop hTokens]
      exact hStop
  | cons t ts =>
      rw [current_eq_of_rest_cons hTokens]
      exact hRest t (hTokens ▸ List.mem_cons_self)

/-- The nesting limit has been reported. -/
def Overrun (s : State) : Prop :=
  ∃ e ∈ s.errors, e.fault = .nestingTooDeep

/-- The present excursion past the nesting limit, if there is one, has been
reported. -/
def Accounted (s : State) : Prop :=
  s.overflowed = true → s.Overrun

end State

/-- What the state `s'` keeps of an earlier state `s`. -/
structure Frame (s s' : State) : Prop where
  stop : s'.stop = s.stop
  rest : s'.rest <:+ s.rest
  errors : s.errors.toList <+: s'.errors.toList
  accounted : s.Accounted → s'.Accounted

namespace Frame

variable {s s' s'' : State}

theorem refl (s : State) : Frame s s :=
  ⟨rfl, List.suffix_refl _, List.prefix_refl _, id⟩

theorem trans (h : Frame s s') (h' : Frame s' s'') : Frame s s'' :=
  ⟨h'.stop.trans h.stop, h'.rest.trans h.rest, h.errors.trans h'.errors,
    h'.accounted ∘ h.accounted⟩

/-- What has been reported stays reported. -/
theorem overrun (h : Frame s s') (hOver : s.Overrun) : s'.Overrun := by
  obtain ⟨e, he, hFault⟩ := hOver
  exact ⟨e, Array.mem_toList_iff.mp (h.errors.subset (Array.mem_toList_iff.mpr he)),
    hFault⟩

/-- Without errors at the end there were none before. -/
theorem errors_eq_empty (h : Frame s s') (hErrors : s'.errors = #[]) :
    s.errors = #[] := by
  have hPrefix := h.errors
  rw [hErrors] at hPrefix
  exact Array.toList_eq_nil_iff.mp (List.prefix_nil.mp hPrefix)

/-- Reading on is a step. -/
theorem skip {ts : List Token} (h : ts <:+ s.rest) : Frame s { s with rest := ts } :=
  ⟨rfl, h, List.prefix_refl _, id⟩

theorem advance (s : State) : Frame s (Parser.advance.run s).2 :=
  .skip (List.tail_suffix s.rest)

/-- Any further error is a step. -/
theorem report (s : State) (e : SyntaxError) : Frame s (s.report e) := by
  refine ⟨rfl, List.suffix_refl _, ?_, ?_⟩
  · show s.errors.toList <+: (s.errors.push e).toList
    rw [Array.toList_push]
    exact List.prefix_append _ _
  · intro hAcc hOver
    obtain ⟨e', he', hFault⟩ := hAcc hOver
    exact ⟨e', Array.mem_push.mpr (.inl he'), hFault⟩

theorem declare (s : State) (ident : Token) (dataType : DataType) :
    Frame s ((Parser.declare ident dataType).run s).2 := by
  rw [run_declare]
  split
  · exact report s _
  · exact ⟨rfl, List.suffix_refl _, List.prefix_refl _, id⟩

theorem checkDeclared (s : State) (ident : Token) :
    Frame s ((Parser.checkDeclared ident).run s).2 := by
  rw [run_checkDeclared]
  split
  · exact refl s
  · exact report s _

theorem openLevel (s : State) : Frame s (Parser.openLevel.run s).2 := by
  refine ⟨rfl, List.suffix_refl _, List.prefix_refl _, ?_⟩
  intro hAcc hOver
  have hBefore : s.overflowed = true := (Bool.and_eq_true_iff.mp hOver).1
  exact hAcc hBefore

theorem closeLevel (s : State) : Frame s (Parser.closeLevel.run s).2 :=
  ⟨rfl, List.suffix_refl _, List.prefix_refl _, id⟩

/-- An overflow leaves the limit reported, now or before. -/
theorem overrun_reportOverflow (hAcc : s.Accounted) :
    (Parser.reportOverflow.run s).2.Overrun := by
  show ((if s.overflowed = true then _ else _ : Parse Unit).run s).2.Overrun
  split
  · next hOver => exact hAcc hOver
  · exact ⟨.ofToken .nestingTooDeep s.current, Array.mem_push_self, rfl⟩

theorem reportOverflow (s : State) : Frame s (Parser.reportOverflow.run s).2 := by
  show Frame s ((if s.overflowed = true then _ else _ : Parse Unit).run s).2
  split
  · exact refl s
  · have hReport := report s (.ofToken .nestingTooDeep s.current)
    refine ⟨hReport.stop, hReport.rest, hReport.errors, ?_⟩
    intro _ _
    exact ⟨.ofToken .nestingTooDeep s.current, Array.mem_push_self, rfl⟩

end Frame

end Parser

end Braceless
