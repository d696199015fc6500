import Braceless.Proofs.ClassAndScript

/-!
# A run of statements takes the turns it needs

The number of turns that a run of statements may take is bounded by the tokens that are left
when it begins.  Since every turn reads a token, the bound never is why a run ends, and any
larger one gives the same result.  So a run of statements can be taken apart turn by turn
without a word about bounds, and the statements of the bare form can be taken apart into
those of blocks, between which a stray closing brace is dropped.

## Main results

* `run_repeatUntil_congr`: bounds that are large enough do not matter.
* `run_blockBody_of_not_ends`: the first turn of a run of statements, and the rest.
* `run_scriptBody`: the bare form, from one stray brace to the next.
-/

namespace Braceless

namespace Parser

section Bounds

variable {stop : Token → Bool} {step : Parse (Option Stmt)}

/-- Two bounds that are not smaller than the number of tokens left give the same run. -/
theorem run_repeatUntil_congr (hEof : ∀ t : Token, t.kind = .eof → stop t = true)
    (hFrame : Framed step) (hConsumes : Consumes step) (n : Nat) :
    ∀ (n' : Nat) {s : State}, s.stop.kind = .eof → s.rest.length ≤ n → s.rest.length ≤ n' →
      (repeatUntil stop step n).run s = (repeatUntil stop step n').run s := by
  induction n with
  | zero =>
      intro n' s hStop hn _
      have hNil : s.rest = [] := List.length_eq_zero_iff.mp (Nat.le_zero.mp hn)
      have hHere : stop s.current = true := by
        rw [State.current_eq_stop hNil]
        exact hEof _ hStop
      rw [run_repeatUntil_of_stop stop hHere, run_repeatUntil_of_stop stop hHere]
  | succ n ih =>
      intro n' s hStop hn hn'
      by_cases hHere : stop s.current = true
      · rw [run_repeatUntil_of_stop stop hHere, run_repeatUntil_of_stop stop hHere]
      · have hLess := hConsumes s (rest_ne_nil_of_not_stop hEof hStop hHere)
        obtain ⟨k, rfl⟩ : ∃ k, n' = k + 1 := ⟨n' - 1, by omega⟩
        have hStop' : (step.run s).2.stop.kind = .eof := by
          rw [(hFrame s).stop]
          exact hStop
        rw [run_repeatUntil_succ stop hHere, run_repeatUntil_succ stop hHere,
          ih k hStop' (by omega) (by omega)]

/-- The first turn of a run that is long enough, and what follows it. -/
theorem run_repeatUntil_of_not_stop (hEof : ∀ t : Token, t.kind = .eof → stop t = true)
    (hFrame : Framed step) (hConsumes : Consumes step) {s : State} (hStop : s.stop.kind = .eof)
    (h : ¬ stop s.current = true) :
    (repeatUntil stop step s.rest.length).run s =
      ((step.run s).1.toList ++
          ((repeatUntil stop step (step.run s).2.rest.length).run (step.run s).2).1,
        ((repeatUntil stop step (step.run s).2.rest.length).run (step.run s).2).2) := by
  have hLess := hConsumes s (rest_ne_nil_of_not_stop hEof hStop h)
  have hStop' : (step.run s).2.stop.kind = .eof := by
    rw [(hFrame s).stop]
    exact hStop
  obtain ⟨n, hn⟩ : ∃ n, s.rest.length = n + 1 := ⟨s.rest.length - 1, by omega⟩
  rw [hn, run_repeatUntil_succ stop h,
    run_repeatUntil_congr hEof hFrame hConsumes n _ hStop' (by omega) (Nat.le_refl _)]

end Bounds

/-! ## Blocks and the bare form -/

variable {room : Nat} {s : State}

theorem run_blockBody_of_ends (h : endsBlock s.current = true) :
    (blockBody room).run s = ([], s) :=
  run_repeatUntil_of_stop endsBlock h

theorem run_blockBody_of_not_ends (hStop : s.stop.kind = .eof)
    (h : ¬ endsBlock s.current = true) :
    (blockBody room).run s =
      (((orDrop (statement room)).run s).1.toList ++
          ((blockBody room).run ((orDrop (statement room)).run s).2).1,
        ((blockBody room).run ((orDrop (statement room)).run s).2).2) :=
  run_repeatUntil_of_not_stop (fun _ => endsBlock_of_eof) (.orDrop (sound_statement room).frame)
    (consumes_orDrop (consumes_statement room)) hStop h

theorem run_scriptBody_of_eof (h : s.current.kind = .eof) :
    (scriptBody room).run s = ([], s) :=
  run_repeatUntil_of_stop (·.kind == .eof) (beq_iff_eq.mpr h)

theorem run_scriptBody_of_not_eof (hStop : s.stop.kind = .eof) (h : s.current.kind ≠ .eof) :
    (scriptBody room).run s =
      (((scriptItem room).run s).1.toList ++ ((scriptBody room).run ((scriptItem room).run s).2).1,
        ((scriptBody room).run ((scriptItem room).run s).2).2) :=
  @run_repeatUntil_of_not_stop (·.kind == .eof) _ (fun _ => beq_iff_eq.mpr)
    (framed_scriptItem room) (consumes_scriptItem room) s hStop (by simpa using h)

/-- A closing brace that has nothing to close is reported and dropped. -/
theorem run_scriptItem_of_rBrace (h : s.current.kind = .rBrace) :
    (scriptItem room).run s =
      (none, (advance.run (s.report (.ofToken .unrecognizedStatement s.current))).2) := by
  show (if (s.current.kind == .rBrace) = true then _ else _ : Parse _).run s = _
  rw [if_pos (beq_iff_eq.mpr h)]
  rfl

/-- The statements up to a brace that has nothing to close, and what follows it. -/
def pastBrace (room : Nat) (r : List Stmt × State) : List Stmt × State :=
  if r.2.current.kind = .eof then r
  else
    let next := (advance.run (r.2.report (.ofToken .unrecognizedStatement r.2.current))).2
    (r.1 ++ ((scriptBody room).run next).1, ((scriptBody room).run next).2)

theorem pastBrace_append (room : Nat) (items : List Stmt) (r : List Stmt × State) :
    pastBrace room (items ++ r.1, r.2) =
      (items ++ (pastBrace room r).1, (pastBrace room r).2) := by
  unfold pastBrace
  by_cases h : r.2.current.kind = .eof
  · rw [if_pos h, if_pos h]
  · rw [if_neg h, if_neg h]
    simp only [List.append_assoc]

/-- The bare form begins like a block.  The induction is on the tokens that are left. -/
theorem run_scriptBody_of_length (n : Nat) : ∀ {s : State}, s.stop.kind = .eof →
    s.rest.length ≤ n →
      (scriptBody room).run s = pastBrace room ((blockBody room).run s) := by
  induction n with
  | zero =>
      intro s hStop hn
      have hNil : s.rest = [] := List.length_eq_zero_iff.mp (Nat.le_zero.mp hn)
      have hEof : s.current.kind = .eof := by
        rw [State.current_eq_stop hNil]
        exact hStop
      rw [run_scriptBody_of_eof hEof, run_blockBody_of_ends (endsBlock_of_eof hEof), pastBrace,
        if_pos hEof]
  | succ n ih =>
      intro s hStop hn
      by_cases hEof : s.current.kind = .eof
      · rw [run_scriptBody_of_eof hEof, run_blockBody_of_ends (endsBlock_of_eof hEof), pastBrace,
          if_pos hEof]
      rw [run_scriptBody_of_not_eof hStop hEof]
      by_cases hBrace : s.current.kind = .rBrace
      · have hEnds : endsBlock s.current = true := by simp [endsBlock, hBrace]
        rw [run_blockBody_of_ends hEnds, run_scriptItem_of_rBrace hBrace, pastBrace, if_neg hEof]
        rfl
      · have hNotEnds : ¬ endsBlock s.current = true := by simp [endsBlock, hBrace, hEof]
        have hLess := consumes_orDrop (consumes_statement room) s
          (rest_ne_nil_of_not_stop (fun _ => endsBlock_of_eof) hStop hNotEnds)
        have hStop' : ((orDrop (statement room)).run s).2.stop.kind = .eof := by
          rw [(Framed.orDrop (sound_statement room).frame s).stop]
          exact hStop
        rw [run_blockBody_of_not_ends hStop hNotEnds, run_scriptItem hBrace, pastBrace_append,
          ih hStop' (by omega)]

/-- **The bare form is made of blocks**: its statements are those up to a closing brace or the
end, and behind a closing brace, which is reported and dropped, those of the rest. -/
theorem run_scriptBody (room : Nat) {s : State} (hStop : s.stop.kind = .eof) :
    (scriptBody room).run s = pastBrace room ((blockBody room).run s) :=
  run_scriptBody_of_length s.rest.length hStop (Nat.le_refl _)

end Parser

end Braceless
