import Braceless.Proofs.Lexer.Coverage
import Braceless.Proofs.Parser.Tracing

/-!
# Errors and positions

The tokens of a text stand at increasing positions, and a parse reads each of them once, from
left to right.  Whatever a step reports, it reports at the token that is current before it.
So no error stands behind the current token, and an error about a name stands before it, since
the name has been read.  Two errors about names are therefore never at one position, and an
error can be traced back to the step that reported it.

## Main definitions

* `State.InOrder`: tokens and errors that stand in the order of the text.

## Main results

* `Step.new_error`: what a step reports, it reports at the current token.
* `Step.inOrder`, `Trace.inOrder`: the order is kept.
* `Trace.mem_errors_or_le`: what a run reports stands where it starts or behind that.
* `inOrder_initial_lex`: the tokens of a text are in order.
-/

namespace Braceless

namespace Position

theorem le_refl (p : Position) : p ≤ p := by
  rw [le_def]
  omega

theorem le_of_lt {p q : Position} (h : p < q) : p ≤ q := by
  rw [lt_def] at h
  rw [le_def]
  omega

theorem lt_irrefl (p : Position) : ¬ p < p := by
  rw [lt_def]
  omega

theorem not_lt_of_le {p q : Position} (h : p ≤ q) : ¬ q < p := by
  rw [le_def] at h
  rw [lt_def]
  omega

theorem eq_or_lt_of_le {p q : Position} (h : p ≤ q) : p = q ∨ p < q := by
  obtain ⟨pl, pc⟩ := p
  obtain ⟨ql, qc⟩ := q
  rw [le_def] at h
  rw [lt_def, mk.injEq]
  simp only at h ⊢
  omega

end Position

namespace Parser

namespace State

/-- The tokens stand at increasing positions, and the errors stand where the parse has
been. -/
structure InOrder (s : State) : Prop where
  stop : s.stop.kind = .eof
  tokens : (s.rest ++ [s.stop]).Pairwise (·.pos < ·.pos)
  errors : ∀ e ∈ s.errors, e.pos ≤ s.current.pos
  /-- A name that has been reported has been read. -/
  naming : ∀ e ∈ s.errors, e.fault.IsNaming → e.pos < s.current.pos

theorem current_mem (s : State) : s.current ∈ s.rest ++ [s.stop] :=
  current_of_forall (fun _ ht => List.mem_append_left _ ht)
    (List.mem_append_right _ List.mem_cons_self)

/-- The current token is the end marker only when all tokens are read. -/
theorem exists_rest_eq_cons {s : State} (hStop : s.stop.kind = .eof)
    (h : s.current.kind ≠ .eof) : ∃ ts, s.rest = s.current :: ts := by
  cases hRest : s.rest with
  | nil =>
      rw [current_eq_stop hRest] at h
      exact absurd hStop h
  | cons t ts =>
      rw [current_eq_of_rest_cons hRest]
      exact ⟨ts, rfl⟩

namespace InOrder

variable {s s' : State}

/-- Reading on leads to the same token or to one behind it. -/
theorem current_le (hs : s.InOrder) (hRest : s'.rest <:+ s.rest) (hStop : s'.stop = s.stop) :
    s.current.pos ≤ s'.current.pos := by
  obtain ⟨read, hRead⟩ := hRest
  cases read with
  | nil =>
      have hSame : s'.current = s.current := by
        simp only [List.nil_append] at hRead
        simp [current, hRead, hStop]
      rw [hSame]
      exact Position.le_refl _
  | cons t ts =>
      have hCurrent : s.current = t := current_eq_of_rest_cons hRead.symm
      have hOrder := hs.tokens
      rw [← hRead, List.cons_append, List.cons_append, List.pairwise_cons] at hOrder
      have hLater : s'.current ∈ ts ++ s'.rest ++ [s.stop] := by
        have hMem := s'.current_mem
        rw [hStop] at hMem
        rw [List.append_assoc]
        exact List.mem_append_right _ hMem
      rw [hCurrent]
      exact Position.le_of_lt (hOrder.1 _ hLater)

/-- Reading a token leads to one behind it. -/
theorem current_lt_advance (hs : s.InOrder) (h : s.current.kind ≠ .eof) :
    s.current.pos < (advance.run s).2.current.pos := by
  obtain ⟨ts, hRest⟩ := exists_rest_eq_cons hs.stop h
  have hOrder := hs.tokens
  rw [hRest, List.cons_append, List.pairwise_cons] at hOrder
  have hNext : (advance.run s).2.current ∈ ts ++ [s.stop] := by
    have hMem := (advance.run s).2.current_mem
    have hTail : (advance.run s).2.rest = ts := by
      show s.rest.tail = ts
      rw [hRest]
      rfl
    rw [hTail] at hMem
    exact hMem
  exact hOrder.1 _ hNext

/-- The order is kept by reading on and by errors at the current token; a name that is
reported must have been read. -/
theorem next (hs : s.InOrder) (hRest : s'.rest <:+ s.rest) (hStop : s'.stop = s.stop)
    (hErrors : ∀ e ∈ s'.errors, e ∈ s.errors ∨
      e.pos = s.current.pos ∧ (e.fault.IsNaming → s.current.pos < s'.current.pos)) :
    s'.InOrder := by
  have hLater := hs.current_le hRest hStop
  have hOrdered : (s'.rest ++ [s'.stop]).Pairwise (·.pos < ·.pos) := by
    have hSublist : (s'.rest ++ [s.stop]).Sublist (s.rest ++ [s.stop]) :=
      hRest.sublist.append_right _
    rw [hStop]
    exact hs.tokens.sublist hSublist
  refine ⟨by rw [hStop]; exact hs.stop, hOrdered, ?_, ?_⟩
  · intro e he
    rcases hErrors e he with hOld | ⟨hHere, _⟩
    · exact Position.le_trans (hs.errors e hOld) hLater
    · rw [hHere]
      exact hLater
  · intro e he hFault
    rcases hErrors e he with hOld | ⟨hHere, hRead⟩
    · exact Position.lt_of_lt_of_le (hs.naming e hOld hFault) hLater
    · rw [hHere]
      exact hRead hFault

end InOrder

end State

/-! ## Steps -/

theorem current_declare (t : Token) (dataType : DataType) (s : State) :
    ((declare t dataType).run s).2.current = s.current := by
  rw [run_declare]
  split <;> rfl

theorem current_checkDeclared (t : Token) (s : State) :
    ((checkDeclared t).run s).2.current = s.current := by
  rw [run_checkDeclared]
  split <;> rfl

theorem mem_errors_declare {s : State} {t : Token} {dataType : DataType} {e : SyntaxError}
    (h : e ∈ ((declare t dataType).run s).2.errors) : e ∈ s.errors ∨ e.pos = t.pos := by
  rw [run_declare] at h
  split at h
  · rcases Array.mem_push.mp h with hOld | rfl
    · exact .inl hOld
    · exact .inr rfl
  · exact .inl h

/-- Looking a name up reports it exactly if it is not in the table. -/
theorem mem_errors_checkDeclared_iff {s : State} {t : Token} {e : SyntaxError} :
    e ∈ ((checkDeclared t).run s).2.errors ↔
      e ∈ s.errors ∨ t.text ∉ s.declared.names ∧ e = .ofToken (.undeclared t.text) t := by
  rw [run_checkDeclared]
  split
  · next hTable => simp [hTable]
  · next hTable =>
      show e ∈ s.errors.push _ ↔ _
      simp [hTable]

/-- What a step reports, it reports at the current token, and if that is a name then the step
reads it. -/
theorem Step.new_error {s s' : State} {ms : List Mention} (h : Step s ms s') (hs : s.InOrder)
    {e : SyntaxError} (he : e ∈ s'.errors) :
    e ∈ s.errors ∨
      e.pos = s.current.pos ∧ (e.fault.IsNaming → s.current.pos < s'.current.pos) := by
  have hOther : ∀ {fault : SyntaxFault} {P : Prop}, ¬ fault.IsNaming →
      e ∈ s.errors.push (.ofToken fault s.current) →
        e ∈ s.errors ∨ e.pos = s.current.pos ∧ (e.fault.IsNaming → P) := by
    intro fault P hFault hMem
    rcases Array.mem_push.mp hMem with hOld | rfl
    · exact .inl hOld
    · exact .inr ⟨rfl, fun h => absurd h hFault⟩
  cases h with
  | skip _ => exact .inl he
  | report hFault _ => exact hOther hFault he
  | level _ _ _ => exact .inl he
  | overflow => exact hOther id he
  | declare dataType hKind =>
      rw [current_declare]
      have hRead := hs.current_lt_advance (by rw [hKind]; decide)
      rcases mem_errors_declare he with hOld | hHere
      · exact .inl hOld
      · exact .inr ⟨hHere, fun _ => hRead⟩
  | lookUp n hKind =>
      rw [current_checkDeclared]
      have hRead := hs.current_lt_advance (by rw [hKind]; decide)
      rcases mem_errors_checkDeclared_iff.mp he with hOld | ⟨_, rfl⟩
      · exact .inl hOld
      · exact .inr ⟨rfl, fun _ => hRead⟩
  | literal _ => exact .inl he
  | one => exact .inl he
  | unread _ => exact .inl he
  | unrecognized _ _ => exact hOther id he

theorem Step.inOrder {s s' : State} {ms : List Mention} (h : Step s ms s')
    (hs : s.InOrder) : s'.InOrder :=
  hs.next h.frame.rest h.frame.stop fun _ he => h.new_error hs he

theorem Trace.inOrder {s s' : State} {ms : List Mention} (h : Trace s ms s')
    (hs : s.InOrder) : s'.InOrder := by
  induction h with
  | refl s => exact hs
  | step hStep _ ih => exact ih (hStep.inOrder hs)

/-- What a run reports does not stand before the token it starts with. -/
theorem Trace.mem_errors_or_le {s s' : State} {ms : List Mention} (h : Trace s ms s')
    (hs : s.InOrder) {e : SyntaxError} (he : e ∈ s'.errors) :
    e ∈ s.errors ∨ s.current.pos ≤ e.pos := by
  induction h with
  | refl s => exact .inl he
  | step hStep _ ih =>
      rcases ih (hStep.inOrder hs) he with hBefore | hLater
      · rcases hStep.new_error hs hBefore with hOld | ⟨hHere, _⟩
        · exact .inl hOld
        · rw [hHere]
          exact .inr (Position.le_refl _)
      · have hOn := hs.current_le hStep.frame.rest hStep.frame.stop
        exact .inr (Position.le_trans hOn hLater)

/-! ## Texts -/

/-- The tokens of a text stand at increasing positions, and the last of them is the only end
marker. -/
theorem exists_tokens_lex (source : String) :
    ∃ ts stop, (lex source).tokens = ts ++ [stop] ∧ (∀ t ∈ ts, t.kind ≠ .eof) ∧
      stop.kind = .eof ∧ (ts ++ [stop]).Pairwise (·.pos < ·.pos) := by
  obtain ⟨gs, last, hTokens, hText, hProper, _, hPlaced⟩ :=
    exists_gapped_place source.toList [] [] (by simp)
  simp only [List.nil_append] at hTokens hText
  have hLex : (lex source).tokens =
      gs.map (·.token) ++ [⟨.eof, "", .behind source.toList⟩] := hTokens
  refine ⟨gs.map (·.token), ⟨.eof, "", .behind source.toList⟩, hLex, ?_, rfl, ?_⟩
  · intro t ht
    obtain ⟨g, hg, rfl⟩ := List.mem_map.mp ht
    exact (hProper g hg).notEnd
  · exact pairwise_pos_of_placed hProper hPlaced (by rw [List.nil_append, ← hText])

/-- The tokens of a text are in order when a parse starts. -/
theorem inOrder_initial_lex (source : String) :
    (State.initial (lex source).tokens).InOrder := by
  obtain ⟨ts, stop, hTokens, hNotEnd, hStop, hOrder⟩ := exists_tokens_lex source
  have hMarker : endMarker (ts ++ [stop]) = stop := by
    have hNone : ts.find? (·.kind == .eof) = none := by simpa using hNotEnd
    simp [endMarker, hNone, hStop]
  have hSublist : (significant (ts ++ [stop]) ++ [stop]).Sublist (ts ++ [stop]) := by
    rw [significant_append_eof hNotEnd hStop]
    exact List.filter_sublist.append_right _
  rw [hTokens]
  refine ⟨kind_endMarker _, ?_, ?_, ?_⟩
  · show (significant (ts ++ [stop]) ++ [endMarker (ts ++ [stop])]).Pairwise (·.pos < ·.pos)
    rw [hMarker]
    exact hOrder.sublist hSublist
  · exact fun e he => absurd he (Array.not_mem_empty e)
  · exact fun e he => absurd he (Array.not_mem_empty e)

end Parser

end Braceless
