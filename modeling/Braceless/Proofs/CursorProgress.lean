import Braceless.Proofs.Cursor.Productions

/-!
# The cursor makes progress

The machine with a cursor reads every token list to the end: it returns what `parse` returns,
its loops come to an end without a bound of their own, and none of the things that it watches
for goes wrong.  What the cursor does meanwhile is read off the record of the run.

## Main results

* `exists_parse`: from start to end, a run of the machine is a parse and in order throughout.
* `exists_parse_of_visible_eq`: the machine returns the same on lists with other trivia.
* `cursor_progress_parse`: the cursor never goes back, stays within the list, rests on tokens
  that are not trivia, and reads on with every turn of a loop.
-/

namespace Braceless

namespace Parser

theorem significant_concat_of_eof {stop : Token} (hStop : stop.kind = .eof) (ts : List Token) :
    significant (ts ++ [stop]) = significant ts := by
  induction ts with
  | nil => rw [List.nil_append, significant_cons, if_pos hStop]; rfl
  | cons t ts ih => rw [List.cons_append, significant_cons, significant_cons, ih]

end Parser

namespace Cursor

variable {tokens : List Token}

/-! ## The added end marker -/

theorem significant_withEnd (tokens : List Token) :
    Parser.significant (withEnd tokens) = Parser.significant tokens := by
  unfold withEnd
  split
  · split
    · rfl
    · exact Parser.significant_concat_of_eof rfl tokens
  · next hNone => rw [List.getLast?_eq_none_iff.mp hNone]; rfl

/-- The marker that is added is the one that a parse makes up. -/
theorem endMarker_withEnd (tokens : List Token) :
    Parser.endMarker (withEnd tokens) = Parser.endMarker tokens := by
  unfold withEnd
  split
  · next t hLast =>
      split
      · rfl
      · unfold Parser.endMarker
        rw [List.find?_append]
        cases tokens.find? (·.kind == .eof) with
        | some stop => rfl
        | none => rw [hLast]; rfl
  · next hNone => rw [List.getLast?_eq_none_iff.mp hNone]; rfl

/-! ## Whole runs -/

theorem ready_start (tokens : List Token) : Ready (withEnd tokens) .start where
  closed := closed_withEnd tokens
  inBounds := by
    obtain ⟨t, hLast, -⟩ := closed_withEnd tokens
    exact List.length_pos_of_mem (List.mem_of_getLast? hLast)
  shallow := Nat.zero_le _
  accounted h := by cases h

/-- The first skip leads to the state in which a parse starts. -/
theorem exists_start (tokens : List Token) :
    ∃ w events, Yields (withEnd tokens) skipTrivia ⟨.start, []⟩ () w ∧
      view (withEnd tokens) w.now = .initial tokens ∧
      Passage (withEnd tokens) ⟨.start, []⟩ w events ∧ AtRest (withEnd tokens) w.now.pos ∧
      ∀ e ∈ events, e.label ≠ .stepped → AtRest (withEnd tokens) e.state.pos := by
  obtain ⟨p, w, events, hYields, hNow, hPassage, hRest, hEvents, hTokens, hStop⟩ :=
    exists_skipTrivia _ ⟨.start, []⟩ (ready_start tokens) (Nat.zero_add _).symm
  refine ⟨w, events, hYields, ?_, hPassage, by rw [hNow]; exact hRest, hEvents⟩
  have hRemaining := hTokens.trans (significant_withEnd tokens)
  have hMarker := hStop.trans (endMarker_withEnd tokens)
  rw [hNow, Parser.State.initial, ← hRemaining, ← hMarker]
  rfl

/-- With fuel enough a run of the machine is a parse, and it is in order from start to end. -/
theorem exists_parse (tokens : List Token) :
    ∃ (fuel : Nat) (w : World),
      (∀ fuel' ≥ fuel, parse fuel' tokens = some (.ok (Braceless.parse tokens, w))) ∧
      Passage (withEnd tokens) ⟨.start, []⟩ w w.log ∧ AtRest (withEnd tokens) w.now.pos ∧
      ∀ e ∈ w.log, e.label ≠ .stepped → AtRest (withEnd tokens) e.state.pos := by
  obtain ⟨w, events, hSkip, hView, hStart, hRest, hEvents⟩ := exists_start tokens
  have hDepth : w.now.depth = 0 := congrArg Parser.State.depth hView
  obtain ⟨result, w', events', hForm, hRun, -, hPassage⟩ :=
    Follows.stays_iff.mp (@follows_form _ maxNesting) w hStart.ready (by rw [hDepth]; rfl)
  have hAll := hStart.trans hPassage (by rw [Machine.start, Nat.zero_min]; exact Nat.zero_le _)
  have hLog : w'.log = events ++ events' := hAll.log
  -- Where the cursor has not moved since it first came to rest, it is still at rest.
  have hSettled {p : Nat} (h : p = w.now.pos ∨ AtRest (withEnd tokens) p) :
      AtRest (withEnd tokens) p := h.elim (fun hSame => hSame ▸ hRest) id
  have hProgram : Yields (withEnd tokens) program ⟨.start, []⟩ result w' := hSkip.bind hForm
  obtain ⟨fuel, hProgram⟩ := hProgram
  refine ⟨fuel, w', fun fuel' hFuel => ?_, by rw [hLog]; exact hAll, hSettled hPassage.rests, ?_⟩
  · rw [parse, Run.run_mono hFuel hProgram, Braceless.parse, ← hView, hRun]
    rfl
  · intro e he hLabel
    rw [hLog] at he
    cases List.mem_append.mp he with
    | inl he => exact hEvents e he hLabel
    | inr he => exact hSettled ((hPassage.within e he).rests hLabel)

/-- **The machine does not see trivia**: where two token lists have the same visible tokens, its
cursor goes other ways and it returns the same. -/
theorem exists_parse_of_visible_eq {ts us : List Token} (hEnd : Parser.HasEnd ts)
    (h : Parser.visible us = Parser.visible ts) :
    ∃ (fuel : Nat) (result : Parsed) (w w' : World), ∀ fuel' ≥ fuel,
      parse fuel' ts = some (.ok (result, w)) ∧ parse fuel' us = some (.ok (result, w')) := by
  obtain ⟨fuel, w, hParse, -⟩ := exists_parse ts
  obtain ⟨fuel', w', hParse', -⟩ := exists_parse us
  rw [Parser.parse_eq_of_visible_eq hEnd h] at hParse'
  refine ⟨max fuel fuel', Braceless.parse ts, w, w', fun n hn => ⟨hParse n ?_, hParse' n ?_⟩⟩
  · exact Nat.le_trans (Nat.le_max_left fuel fuel') hn
  · exact Nat.le_trans (Nat.le_max_right fuel fuel') hn

end Cursor

/-- On every token list the machine with a cursor returns, and with what `parse` returns.  Its
record leads from the start to the last state by moves of one token, so the cursor never goes
back.  The cursor stays within the list, rests on tokens that are not trivia whenever it is not
on its way, and is further on after every turn of a loop than before it. -/
theorem cursor_progress_parse (tokens : List Token) :
    ∃ (fuel : Nat) (w : Cursor.World),
      (∀ fuel' ≥ fuel, Cursor.parse fuel' tokens = some (.ok (parse tokens, w))) ∧
      Cursor.Trail .start w.log w.now ∧
      w.log.Pairwise (fun e e' => e.state.pos ≤ e'.state.pos) ∧
      (∀ e ∈ w.log, e.state.pos < (Cursor.withEnd tokens).length) ∧
      (∀ e ∈ w.log, e.label ≠ .stepped → Cursor.AtRest (Cursor.withEnd tokens) e.state.pos) ∧
      Cursor.AtRest (Cursor.withEnd tokens) w.now.pos ∧
      ∀ e ∈ w.log, ∀ loop start, e.label = .turned loop start → start < e.state.pos := by
  obtain ⟨fuel, w, hParse, hPassage, hLast, hRests⟩ := Cursor.exists_parse tokens
  refine ⟨fuel, w, hParse, hPassage.trail, hPassage.trail.sorted,
    fun e he => (hPassage.within e he).ready.inBounds, hRests, hLast, ?_⟩
  intro e he loop start hLabel
  have hHolds := (hPassage.within e he).holds
  rw [hLabel] at hHolds
  exact hHolds

/-- The record of a stray semicolon with a comment behind it. -/
example : (Cursor.parse 5 [⟨.semicolon, ";", .start⟩, ⟨.comment, "//", ⟨1, 2⟩⟩]).map
      (fun r => r.toOption.map fun r => r.2.log.map fun e => (e.label, e.state.pos)) =
    some (some [(.settled, 0), (.reported, 0), (.stepped, 1), (.stepped, 2), (.settled, 2),
      (.turned .statements 0, 2)]) := by
  decide +kernel

end Braceless
