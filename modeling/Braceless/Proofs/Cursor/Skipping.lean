import Braceless.Proofs.Cursor.Follows

/-!
# The loops that skip

What is nested too deeply is skipped by counting brackets.  Each of the three loops goes on for
as long as its condition tells it to; that it comes to an end is shown by induction on the
tokens that are left, of which every turn reads one.  What is left afterwards is what the
functions on token lists leave.

## Main results

* `follows_skipExpression`, `follows_skipBalanced`, `follows_skipElseChain`: the loops end, and
  skip what is to be skipped.
-/

namespace Braceless

namespace Cursor

variable {tokens : List Token} {room : Nat}

/-- Reads what `after` drops, from every state in which `ts` is left. -/
def Skips (tokens : List Token) (p : Run Unit) (ts after : List Token) : Prop :=
  ∀ w, Ready tokens w.now → (view tokens w.now).rest = ts →
    ∃ w' events, Yields tokens p w () w' ∧
      view tokens w'.now = { view tokens w.now with rest := after } ∧ Passage tokens w w' events

theorem Skips.follows {p : Run Unit} {after : List Token → List Token}
    (h : ∀ ts, Skips tokens p ts (after ts)) :
    Follows tokens Stays room p (Parser.skipTo after) := by
  refine Follows.stays_iff.mpr fun w hw _ => ?_
  obtain ⟨w', events, hYields, hView, hPassage⟩ := h _ w hw rfl
  exact ⟨(), w', events, hYields, congrArg (Prod.mk ()) hView.symm,
    congrArg Parser.State.depth hView, hPassage⟩

/-- Where nothing is left, the cursor is at an end marker. -/
theorem kind_of_rest_view_eq_nil {m : Machine} {t : Token} (ht : tokens[m.pos]? = some t)
    (h : (view tokens m).rest = []) : t.kind = .eof := by
  by_cases hKind : t.kind = .eof
  · exact hKind
  · rw [rest_view ht hKind] at h
    cases h

/-- The first token left is read. -/
theorem exists_read {w : World} {t : Token} {ts : List Token} (hw : Ready tokens w.now)
    (hRest : (view tokens w.now).rest = t :: ts) :
    ∃ w' events, Yields tokens advance w () w' ∧
      view tokens w'.now = { view tokens w.now with rest := ts } ∧ Passage tokens w w' events := by
  obtain ⟨ht, hKind⟩ := current_of_rest_view hRest
  obtain ⟨w', events, hYields, hView, hPassage⟩ := exists_advance hw ht hKind
  refine ⟨w', events, hYields, ?_, hPassage⟩
  rw [hView]
  show { view tokens w.now with rest := (view tokens w.now).rest.tail } = _
  rw [hRest, List.tail_cons]

/-- Skipping goes on after a part has been skipped. -/
theorem Skips.resume {p : Run Unit} {ts after : List Token} {w w' : World} {events : List Event}
    (h : Skips tokens p ts after) (hPassage : Passage tokens w w' events)
    (hView : view tokens w'.now = { view tokens w.now with rest := ts }) :
    ∃ w'' events', Yields tokens p w' () w'' ∧
      view tokens w''.now = { view tokens w.now with rest := after } ∧
      Passage tokens w w'' events' := by
  obtain ⟨w'', events', hYields, hView', hPassage'⟩ :=
    h w' hPassage.ready (congrArg Parser.State.rest hView)
  have hDepth : w'.now.depth = w.now.depth := congrArg Parser.State.depth hView
  refine ⟨w'', _, hYields, ?_, hPassage.trans hPassage' (by omega)⟩
  rw [hView', hView]

/-! ## Expressions -/

/-- Where the rest of an expression ends, nothing is skipped. -/
theorem afterExpression_of_endsRest {opened : Nat} {t : Token} (ts : List Token)
    (hKind : t.kind ≠ .eof) (h : endsRest opened t.kind = true) :
    Parser.afterExpression opened (t :: ts) = t :: ts := by
  unfold Parser.afterExpression
  unfold endsRest at h
  split <;> simp_all

/-- A closing bracket that does not end the rest of an expression closes one that is open. -/
theorem exists_succ_of_not_endsRest {opened : Nat} {kind : Token.Kind}
    (hKind : kind = .rParen ∨ kind = .rBrace) (h : ¬ endsRest opened kind = true) :
    ∃ n, opened = n + 1 := by
  cases opened with
  | zero => rcases hKind with rfl | rfl <;> exact absurd rfl h
  | succ n => exact ⟨n, rfl⟩

/-- Elsewhere the brackets are counted, and the count does not go below zero. -/
theorem exists_openedBehind {opened : Nat} {t : Token} (ts : List Token)
    (h : ¬ endsRest opened t.kind = true) :
    ∃ n, (∀ w, Yields tokens (openedBehind opened t.kind) w n w) ∧
      Parser.afterExpression opened (t :: ts) = Parser.afterExpression n ts := by
  rw [Parser.afterExpression]
  split
  · next hKind =>
      have hOpened : opened ≠ 0 := by
        rintro rfl
        rw [hKind] at h
        exact h rfl
      rw [hKind, if_neg hOpened]
      exact ⟨opened, .pure opened, rfl⟩
  · next hKind =>
      rw [hKind]
      exact ⟨opened + 1, .pure _, rfl⟩
  · next hKind =>
      rw [hKind]
      exact ⟨opened + 1, .pure _, rfl⟩
  · next hKind =>
      obtain ⟨n, rfl⟩ := exists_succ_of_not_endsRest (.inl hKind) h
      rw [hKind]
      exact ⟨n, .decrease n, rfl⟩
  · next hKind =>
      obtain ⟨n, rfl⟩ := exists_succ_of_not_endsRest (.inr hKind) h
      rw [hKind]
      exact ⟨n, .decrease n, rfl⟩
  · next hSemicolon hParen hBrace hParen' hBrace' =>
      have hPlain : openedBehind opened t.kind = pure opened := by
        unfold openedBehind
        split <;> simp_all
      rw [hPlain]
      exact ⟨opened, .pure opened, rfl⟩

/-- The rest of an expression is skipped; the induction is on the tokens that are left. -/
theorem skips_skipRest (ts : List Token) : ∀ opened,
    Skips tokens (skipRest opened) ts (Parser.afterExpression opened ts) := by
  induction ts with
  | nil =>
      intro opened w hw hRest
      obtain ⟨t, ht⟩ := hw.exists_current
      have hKind := kind_of_rest_view_eq_nil ht hRest
      have hEnds : endsRest opened t.kind = true := by
        rw [hKind]
        rfl
      refine ⟨w, [], ?_, ?_, .refl hw⟩
      · refine .call ((Yields.now w).bind ((Yields.current ht).bind ?_))
        rw [if_pos hEnds]
        exact .pure () w
      · rw [Parser.afterExpression, ← hRest]
  | cons t ts ih =>
      intro opened w hw hRest
      obtain ⟨ht, hKind⟩ := current_of_rest_view hRest
      by_cases hEnds : endsRest opened t.kind = true
      · refine ⟨w, [], ?_, ?_, .refl hw⟩
        · refine .call ((Yields.now w).bind ((Yields.current ht).bind ?_))
          rw [if_pos hEnds]
          exact .pure () w
        · rw [afterExpression_of_endsRest ts hKind hEnds, ← hRest]
      · obtain ⟨n, hCount, hAfter⟩ := exists_openedBehind ts hEnds
        obtain ⟨w', events, hRead, hView, hPassage⟩ := exists_read hw hRest
        have hTurn := hPassage.turn .expression (by rw [hView, hRest]; exact Nat.lt_succ_self _)
        obtain ⟨w'', events'', hYields, hView', hPassage'⟩ := (ih n).resume hTurn hView
        refine ⟨w'', events'', ?_, by rw [hView', hAfter], hPassage'⟩
        refine .call ((Yields.now w).bind ((Yields.current ht).bind ?_))
        rw [if_neg hEnds]
        exact (hCount w).bind (hRead.bind ((Yields.act _ _ w').bind hYields))

theorem follows_skipExpression :
    Follows tokens Stays room skipExpression Parser.skipExpression :=
  follows_placeholder.bind fun _ =>
    (Skips.follows fun ts => skips_skipRest ts 0).bind fun _ => .pure _

/-! ## Bracketed parts -/

/-- A turn that reads a token goes on behind it. -/
theorem yields_skipToClosing {opening closing : Token.Kind} {opened : Nat} {w w' w'' : World}
    {t : Token} (ht : tokens[w.now.pos]? = some t) (hKind : t.kind ≠ .eof)
    (hRead : Yields tokens advance w () w')
    (h : Yields tokens (skipBehind opening closing opened w.now.pos t.kind) w' () w'') :
    Yields tokens (skipToClosing opening closing opened) w () w'' := by
  refine .call ((Yields.now w).bind ((Yields.current ht).bind ?_))
  rw [if_neg hKind]
  exact hRead.bind h

/-- A bracketed part is read up to the bracket that closes the last one that is open. -/
theorem skips_skipToClosing (opening closing : Token.Kind) (ts : List Token) : ∀ n,
    Skips tokens (skipToClosing opening closing (n + 1)) ts
      (Parser.afterClosing opening closing (n + 1) ts) := by
  induction ts with
  | nil =>
      intro n w hw hRest
      obtain ⟨t, ht⟩ := hw.exists_current
      have hKind := kind_of_rest_view_eq_nil ht hRest
      refine ⟨w, [], ?_, ?_, .refl hw⟩
      · refine .call ((Yields.now w).bind ((Yields.current ht).bind ?_))
        rw [if_pos hKind]
        exact .pure () w
      · rw [Parser.afterClosing, ← hRest]
  | cons t ts ih =>
      intro n w hw hRest
      obtain ⟨ht, hKind⟩ := current_of_rest_view hRest
      obtain ⟨w', events, hRead, hView, hPassage⟩ := exists_read hw hRest
      have hTurn := hPassage.turn .balanced (by rw [hView, hRest]; exact Nat.lt_succ_self _)
      have hMore : ∀ k, ∃ w'' events'',
          Yields tokens (turn .balanced w.now.pos >>= fun _ => skipToClosing opening closing (k + 1))
            w' () w'' ∧
          view tokens w''.now =
            { view tokens w.now with rest := Parser.afterClosing opening closing (k + 1) ts } ∧
          Passage tokens w w'' events'' := by
        intro k
        obtain ⟨w'', events'', hYields, hView', hPassage'⟩ := (ih k).resume hTurn hView
        exact ⟨w'', events'', (Yields.act _ _ w').bind hYields, hView', hPassage'⟩
      rw [Parser.afterClosing]
      by_cases hOpening : t.kind = opening
      · obtain ⟨w'', events'', hYields, hView', hPassage'⟩ := hMore (n + 1)
        rw [if_pos hOpening]
        refine ⟨w'', events'', yields_skipToClosing ht hKind hRead ?_, hView', hPassage'⟩
        rw [skipBehind, if_pos hOpening]
        exact hYields
      · rw [if_neg hOpening]
        by_cases hClosing : t.kind = closing
        · rw [if_pos hClosing]
          cases n with
          | zero =>
              refine ⟨w', events, yields_skipToClosing ht hKind hRead ?_, hView, hPassage⟩
              rw [skipBehind, if_neg hOpening, if_pos hClosing]
              exact (Yields.decrease 0 w').bind (.pure () w')
          | succ n =>
              obtain ⟨w'', events'', hYields, hView', hPassage'⟩ := hMore n
              refine ⟨w'', events'', yields_skipToClosing ht hKind hRead ?_, hView', hPassage'⟩
              rw [skipBehind, if_neg hOpening, if_pos hClosing]
              exact (Yields.decrease (n + 1) w').bind hYields
        · obtain ⟨w'', events'', hYields, hView', hPassage'⟩ := hMore n
          rw [if_neg hClosing]
          refine ⟨w'', events'', yields_skipToClosing ht hKind hRead ?_, hView', hPassage'⟩
          rw [skipBehind, if_neg hOpening, if_neg hClosing]
          exact hYields

theorem Yields.isAt {w : World} {t : Token} (ht : tokens[w.now.pos]? = some t) (kind : Token.Kind) :
    Yields tokens (Cursor.isAt kind) w (t.kind == kind) w :=
  (Yields.current ht).bind (.pure _ w)

theorem Yields.isAtWord {w : World} {t : Token} (ht : tokens[w.now.pos]? = some t) (word : String) :
    Yields tokens (Cursor.isAtWord word) w (t.isWord word) w :=
  (Yields.current ht).bind (.pure _ w)

/-- A bracketed part is skipped if one stands under the cursor. -/
theorem skips_skipBalanced {opening : Token.Kind} (hOpening : opening ≠ .eof)
    (closing : Token.Kind) (ts : List Token) :
    Skips tokens (skipBalanced opening closing) ts (Parser.afterBalanced opening closing ts) := by
  intro w hw hRest
  have hStays : ∀ {t : Token}, tokens[w.now.pos]? = some t → t.kind ≠ opening →
      Yields tokens (skipBalanced opening closing) w () w := by
    intro t ht hKind
    refine (Yields.isAt ht opening).bind ?_
    rw [if_neg (by simpa using hKind)]
    exact .pure () w
  cases ts with
  | nil =>
      obtain ⟨t, ht⟩ := hw.exists_current
      have hKind := kind_of_rest_view_eq_nil ht hRest
      refine ⟨w, [], hStays ht (by rw [hKind]; exact hOpening.symm), ?_, .refl hw⟩
      rw [Parser.afterBalanced, ← hRest]
  | cons t ts =>
      obtain ⟨ht, hKind⟩ := current_of_rest_view hRest
      rw [Parser.afterBalanced]
      by_cases hHere : t.kind = opening
      · obtain ⟨w', events, hRead, hView, hPassage⟩ := exists_read hw hRest
        have hTurn := hPassage.turn .balanced (by rw [hView, hRest]; exact Nat.lt_succ_self _)
        obtain ⟨w'', events'', hYields, hView', hPassage'⟩ :=
          (skips_skipToClosing opening closing ts 0).resume hTurn hView
        rw [if_pos hHere]
        refine ⟨w'', events'', (Yields.isAt ht opening).bind ?_, hView', hPassage'⟩
        rw [if_pos (by simpa using hHere)]
        refine yields_skipToClosing ht hKind hRead ?_
        rw [skipBehind, if_pos hHere]
        exact (Yields.act _ _ w').bind hYields
      · rw [if_neg hHere, ← hRest]
        exact ⟨w, [], hStays ht hHere, rfl, .refl hw⟩

theorem follows_skipBalanced {opening : Token.Kind} (hOpening : opening ≠ .eof)
    (closing : Token.Kind) : Follows tokens Stays room (skipBalanced opening closing)
      (Parser.skipTo (Parser.afterBalanced opening closing)) :=
  Skips.follows (skips_skipBalanced hOpening closing)

/-! ## Conditionals -/

theorem isWord_eq_false_of_eof {t : Token} (h : t.kind = .eof) (word : String) :
    t.isWord word = false := by
  simp [Token.isWord, h]

/-- A word is read if it stands under the cursor. -/
theorem exists_eatWord (word : String) {w : World} (hw : Ready tokens w.now) :
    ∃ w' events, Yields tokens (eatWord word) w ((view tokens w.now).current.isWord word) w' ∧
      view tokens w'.now = { view tokens w.now with
        rest := Parser.afterWord word (view tokens w.now).rest } ∧ Passage tokens w w' events := by
  obtain ⟨t, ht⟩ := hw.exists_current
  rw [current_view ht]
  by_cases hWord : t.isWord word = true
  · have hKind : t.kind ≠ .eof := by
      intro hEof
      rw [isWord_eq_false_of_eof hEof] at hWord
      cases hWord
    have hRest := rest_view ht hKind
    obtain ⟨w', events, hRead, hView, hPassage⟩ := exists_read hw hRest
    refine ⟨w', events, ?_, ?_, hPassage⟩
    · refine (Yields.isAtWord ht word).bind ?_
      rw [if_pos hWord, hWord]
      exact hRead.bind (.pure true w')
    · rw [hView, hRest, Parser.afterWord, if_pos hWord]
  · refine ⟨w, [], ?_, ?_, .refl hw⟩
    · refine (Yields.isAtWord ht word).bind ?_
      rw [Bool.not_eq_true] at hWord
      rw [hWord, if_neg Bool.false_ne_true]
      exact .pure false w
    · by_cases hKind : t.kind = .eof
      · have hRest := rest_view_eq_nil ht hKind
        rw [hRest, Parser.afterWord, ← hRest]
      · have hRest := rest_view ht hKind
        rw [hRest, Parser.afterWord, if_neg hWord, ← hRest]

/-- One conditional is skipped without its other branches. -/
theorem exists_skipConditional {w : World} (hw : Ready tokens w.now) :
    ∃ w₁ w₂ w₃ events, Yields tokens (discard (eatWord "if")) w () w₁ ∧
      Yields tokens (skipBalanced .lParen .rParen) w₁ () w₂ ∧
      Yields tokens (skipBalanced .lBrace .rBrace) w₂ () w₃ ∧
      view tokens w₃.now = { view tokens w.now with
        rest := Parser.afterConditional (view tokens w.now).rest } ∧
      Passage tokens w w₃ events := by
  obtain ⟨w₁, events₁, hWord, hView₁, hPassage₁⟩ := exists_eatWord "if" hw
  obtain ⟨w₂, events₂, hParens, hView₂, hPassage₂⟩ :=
    (@skips_skipBalanced tokens .lParen (by decide) .rParen _).resume hPassage₁ hView₁
  obtain ⟨w₃, events₃, hBraces, hView₃, hPassage₃⟩ :=
    (@skips_skipBalanced tokens .lBrace (by decide) .rBrace _).resume hPassage₂ hView₂
  exact ⟨w₁, w₂, w₃, events₃, hWord.discard, hParens, hBraces, hView₃, hPassage₃⟩

/-- A conditional is skipped up to the word that may follow it. -/
theorem exists_skipToElse {w : World} (hw : Ready tokens w.now) :
    ∃ (found : Bool) (w' : World) (events : List Event),
      found = { view tokens w.now with
        rest := Parser.afterConditional (view tokens w.now).rest }.current.isWord "else" ∧
      (∀ {w'' : World}, Yields tokens
        (if found = true then turn .elseChain w.now.pos >>= fun _ => skipElseChain else pure ())
          w' () w'' → Yields tokens skipElseChain w () w'') ∧
      view tokens w'.now = { view tokens w.now with
        rest := Parser.afterWord "else" (Parser.afterConditional (view tokens w.now).rest) } ∧
      Passage tokens w w' events := by
  obtain ⟨w₁, w₂, w₃, events, hWord, hParens, hBraces, hView, hPassage⟩ := exists_skipConditional hw
  obtain ⟨w', events', hElse, hView', hPassage'⟩ := exists_eatWord "else" hPassage.ready
  have hDepth : w₃.now.depth = w.now.depth := congrArg Parser.State.depth hView
  rw [hView] at hElse hView'
  refine ⟨_, w', _, rfl, fun hMore => ?_, hView', hPassage.trans hPassage' (by omega)⟩
  exact .call ((Yields.now w).bind (hWord.bind (hParens.bind (hBraces.bind (hElse.bind hMore)))))

/-- A conditional is skipped with all its branches; every turn that goes on has read a word. -/
theorem skips_skipElseChain (ts : List Token) :
    Skips tokens skipElseChain ts (Parser.afterElseChain ts) := by
  fun_induction Parser.afterElseChain ts with
  | case1 ts hNil =>
      intro w hw hRest
      obtain ⟨found, w', events, hFound, hYields, hView, hPassage⟩ := exists_skipToElse hw
      rw [hRest, hNil] at hFound hView
      have hNo : found = false := by
        rw [hFound, Parser.State.current_eq_stop rfl]
        exact isWord_eq_false_of_eof (Parser.kind_endMarker _) "else"
      subst hNo
      exact ⟨w', events, hYields (.pure () w'), hView, hPassage⟩
  | case2 ts t rest hCons hElse ih =>
      intro w hw hRest
      obtain ⟨found, w', events, hFound, hYields, hView, hPassage⟩ := exists_skipToElse hw
      rw [hRest, hCons] at hFound hView
      rw [Parser.afterWord, if_pos hElse] at hView
      have hLess : (view tokens w'.now).rest.length < (view tokens w.now).rest.length := by
        have hLength := Parser.length_afterConditional_le ts
        rw [hCons] at hLength
        rw [hView, hRest]
        exact hLength
      have hTurn := hPassage.turn .elseChain hLess
      obtain ⟨w'', events'', hMore, hView', hPassage'⟩ := ih.resume hTurn hView
      have hYes : found = true := hFound.trans hElse
      subst hYes
      exact ⟨w'', events'', hYields ((Yields.act _ _ w').bind hMore), hView', hPassage'⟩
  | case3 ts t rest hCons hElse =>
      intro w hw hRest
      obtain ⟨found, w', events, hFound, hYields, hView, hPassage⟩ := exists_skipToElse hw
      rw [hRest, hCons] at hFound hView
      rw [Parser.afterWord, if_neg hElse] at hView
      have hNo : found = false := hFound.trans (Bool.not_eq_true _ ▸ hElse)
      subst hNo
      exact ⟨w', events, hYields (.pure () w'), hView, hPassage⟩

theorem follows_skipElseChain :
    Follows tokens Stays room skipElseChain (Parser.skipTo Parser.afterElseChain) :=
  Skips.follows skips_skipElseChain

end Cursor

end Braceless
