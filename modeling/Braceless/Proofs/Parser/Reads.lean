import Braceless.Proofs.Parser.Frame
import Braceless.Proofs.Parser.Skipping

/-!
# Reading a derived phrase

`Reads room n before p Q` is the contract of a production on tokens that the grammar
derives.  From any state in which `before` is still to be read, `p` reports nothing but
variables and the nesting limit, it has the limit reported exactly if the `n` levels of
the phrase do not fit into the room, and `Q` holds of the tokens that are left and of
the result.  A part that overflows is skipped, so the contract also covers what happens
after an excursion past the limit.

## Main definitions

* `SyntaxFault.IsNaming`: the faults of a derived program.
* `Outcome`, `Reads`: the contract of one run, and of an action.
* `Yields`, `Found`: what is left and returned after a whole phrase.

## Main results

* `Reads.bind`, `Reads.bind_or_skip`: the contract of a sequence.
* `Reads.nested`: the contract of a production within a level of its own.
-/

namespace Braceless

/-- The faults that say something about variables and nothing about the grammar. -/
def SyntaxFault.IsNaming : SyntaxFault → Prop
  | .redeclared _ | .undeclared _ => True
  | _ => False

instance : DecidablePred SyntaxFault.IsNaming
  | .redeclared _ | .undeclared _ => .isTrue trivial
  | .expected _ | .unrecognizedStatement | .invalidExpression | .trailingInput
  | .nestingTooDeep => .isFalse id

namespace Parser

open Grammar

/-! ## The contract -/

/-- Only variables and the nesting limit have been reported. -/
def State.Lawful (s : State) : Prop :=
  ∀ e ∈ s.errors, e.fault = .nestingTooDeep ∨ e.fault.IsNaming

theorem State.Lawful.report {s : State} {e : SyntaxError} (hs : s.Lawful)
    (he : e.fault = .nestingTooDeep ∨ e.fault.IsNaming) : (s.report e).Lawful := by
  intro e' he'
  rcases Array.mem_push.mp he' with hOld | rfl
  · exact hs e' hOld
  · exact he

/-- An error about a variable is not about the nesting limit. -/
theorem State.overrun_report_iff {s : State} {e : SyntaxError}
    (he : e.fault.IsNaming) : (s.report e).Overrun ↔ s.Overrun := by
  constructor
  · rintro ⟨e', he', hFault⟩
    rcases Array.mem_push.mp he' with hOld | rfl
    · exact ⟨e', hOld, hFault⟩
    · rw [hFault] at he
      exact he.elim
  · exact (Frame.report s e).overrun

/-- What comes of running a production from `s`, where `n` levels are to be read
within the given room. -/
structure Outcome {α : Type} (room n : Nat) (Q : List Token → α → Prop) (s : State)
    (r : α × State) : Prop where
  frame : Frame s r.2
  lawful : s.Lawful → r.2.Lawful
  overrun : r.2.Overrun ↔ s.Overrun ∨ room < n
  post : Q r.2.rest r.1

/-- A step that reports nothing. -/
theorem Outcome.silent {α : Type} {room : Nat} {Q : List Token → α → Prop} {s : State}
    {r : α × State} (hFrame : Frame s r.2) (hErrors : r.2.errors = s.errors)
    (hPost : Q r.2.rest r.1) : Outcome room 0 Q s r := by
  refine ⟨hFrame, ?_, ?_, hPost⟩
  · rw [State.Lawful, State.Lawful, hErrors]
    exact id
  · simp [State.Overrun, hErrors]

/-- A step that reports a variable. -/
theorem Outcome.naming {α : Type} {room : Nat} {Q : List Token → α → Prop} {s : State}
    {a : α} {e : SyntaxError} (he : e.fault.IsNaming) (hPost : Q s.rest a) :
    Outcome room 0 Q s (a, s.report e) :=
  ⟨Frame.report s e, fun hs => hs.report (.inr he),
    (State.overrun_report_iff he).trans (by simp), hPost⟩

/-- The contract of a production where the tokens `before` are still to be read. -/
def Reads {α : Type} (room n : Nat) (before : List Token) (p : Parse α)
    (Q : List Token → α → Prop) : Prop :=
  ∀ s : State, s.rest = before → s.stop.kind = .eof → s.Accounted →
    Outcome room n Q s (p.run s)

/-- After a phrase: `rest` is left, and the result is `a` if the levels fit. -/
def Yields {α : Type} (room n : Nat) (rest : List Token) (a : α)
    (after : List Token) (b : α) : Prop :=
  after = rest ∧ (n ≤ room → b = a)

/-- There is a result, and the condition holds of it. -/
def Found {α : Type} (Q : List Token → α → Prop) (after : List Token) :
    Option α → Prop
  | none => False
  | some a => Q after a

namespace Reads

variable {α β : Type} {room n m : Nat} {before between : List Token} {p : Parse α}
variable {f : α → Parse β} {Q : List Token → α → Prop} {R : List Token → β → Prop}

theorem mono {P : List Token → α → Prop} (h : Reads room n before p P)
    (hQ : ∀ after a, P after a → Q after a) : Reads room n before p Q := by
  intro s hRest hStop hAcc
  have hOut := h s hRest hStop hAcc
  exact ⟨hOut.frame, hOut.lawful, hOut.overrun, hQ _ _ hOut.post⟩

theorem levels (h : Reads room n before p Q) (hn : n = m) : Reads room m before p Q :=
  hn ▸ h

/-- An action that leaves the state alone. -/
theorem of_run_eq {a : α} (hRun : ∀ s : State, s.rest = before → s.stop.kind = .eof →
    p.run s = (a, s)) (hQ : Q before a) : Reads room 0 before p Q := by
  intro s hRest hStop _
  rw [hRun s hRest hStop]
  exact .silent (Frame.refl s) rfl (by rw [hRest]; exact hQ)

theorem pure {a : α} (h : Q before a) : Reads room 0 before (Pure.pure a) Q :=
  of_run_eq (fun _ _ _ => rfl) h

/-- An action that leaves the state alone and gives a known result. -/
theorem looks {a : α} (hRun : ∀ s : State, s.rest = before → s.stop.kind = .eof →
    p.run s = (a, s)) : Reads room 0 before p (Yields room 0 before a) :=
  of_run_eq hRun ⟨rfl, fun _ => rfl⟩

/-- What the first action leaves is what the second one starts with.  If the first has
passed the limit, then the second may find nothing of its phrase. -/
theorem bind_or_skip (hp : Reads room n before p Q)
    (hf : ∀ between a, Q between a → Reads room m between (f a) R ∨
      (room < n ∧ Reads room 0 between (f a) R)) :
    Reads room (max n m) before (p >>= f) R := by
  intro s hRest hStop hAcc
  have hFirst := hp s hRest hStop hAcc
  have hStop' : (p.run s).2.stop.kind = .eof := by rw [hFirst.frame.stop]; exact hStop
  have hNext : ∀ k, Reads room k (p.run s).2.rest (f (p.run s).1) R →
      Outcome room k R (p.run s).2 ((p >>= f).run s) := fun k h =>
    h _ rfl hStop' (hFirst.frame.accounted hAcc)
  have hOver := hFirst.overrun
  have hMax : room < max n m ↔ room < n ∨ room < m := by omega
  rcases hf _ _ hFirst.post with hReads | ⟨hDeep, hReads⟩
  · have hSecond := hNext m hReads
    refine ⟨hFirst.frame.trans hSecond.frame, hSecond.lawful ∘ hFirst.lawful, ?_,
      hSecond.post⟩
    rw [hSecond.overrun, hOver, or_assoc, hMax]
  · have hSecond := hNext 0 hReads
    refine ⟨hFirst.frame.trans hSecond.frame, hSecond.lawful ∘ hFirst.lawful, ?_,
      hSecond.post⟩
    have hPassed := hSecond.frame.overrun (hOver.mpr (.inr hDeep))
    exact iff_of_true hPassed (.inr (hMax.mpr (.inl hDeep)))

theorem bind (hp : Reads room n before p Q)
    (hf : ∀ between a, Q between a → Reads room m between (f a) R) :
    Reads room (max n m) before (p >>= f) R :=
  hp.bind_or_skip fun between a h => .inl (hf between a h)

/-- A part without levels does not count. -/
theorem bind_flat (hp : Reads room 0 before p Q)
    (hf : ∀ between a, Q between a → Reads room m between (f a) R) :
    Reads room m before (p >>= f) R :=
  (hp.bind hf).levels (Nat.zero_max m)

/-- The result of a part without levels is known. -/
theorem andThen {a : α} (hp : Reads room 0 before p (Yields room 0 between a))
    (hf : Reads room m between (f a) R) : Reads room m before (p >>= f) R := by
  refine hp.bind_flat ?_
  rintro _ b ⟨rfl, hValue⟩
  rw [hValue (Nat.zero_le room)]
  exact hf

/-- A result may be put into another form. -/
theorem map {g : α → β} (hp : Reads room n before p Q)
    (hg : ∀ after a, Q after a → R after (g a)) :
    Reads room n before (p >>= fun a => Pure.pure (g a)) R :=
  (hp.bind fun after a h => .pure (hg after a h)).levels (Nat.max_zero n)

theorem map_yields {g : α → β} {rest : List Token} {a : α}
    (hp : Reads room n before p (Yields room n rest a)) :
    Reads room n before (p >>= fun a => Pure.pure (g a)) (Yields room n rest (g a)) :=
  hp.map fun _ _ h => ⟨h.1, fun hFits => congrArg g (h.2 hFits)⟩

theorem found {g : α → β} {rest : List Token} {a : α}
    (hp : Reads room n before p (Yields room n rest a)) :
    Reads room n before (p >>= fun a => Pure.pure (some (g a)))
      (Found (Yields room n rest (g a))) :=
  hp.map fun _ _ h => ⟨h.1, fun hFits => congrArg g (h.2 hFits)⟩

/-- The state may be looked at. -/
theorem get {g : State → Parse β}
    (hg : ∀ s : State, s.rest = before → Reads room n before (g s) R) :
    Reads room n before (MonadState.get >>= g) R :=
  fun s hRest hStop hAcc => hg s hRest s hRest hStop hAcc

end Reads

/-! ## Levels -/

theorem lawful_reportOverflow {s : State} (hs : s.Lawful) :
    (reportOverflow.run s).2.Lawful := by
  show ((if s.overflowed = true then _ else _ : Parse Unit).run s).2.Lawful
  split
  · exact hs
  · exact hs.report (.inl rfl)

theorem rest_reportOverflow (s : State) : (reportOverflow.run s).2.rest = s.rest := by
  show ((if s.overflowed = true then _ else _ : Parse Unit).run s).2.rest = s.rest
  split <;> rfl

/-- A level of its own, where the inside keeps its contract with one level less of room
and what takes its place without room leads to the same condition. -/
theorem Reads.nested {α : Type} {room n : Nat} {before : List Token}
    {inside : (inner : Nat) → inner < room → Parse α} {outside : Parse α}
    {Q : List Token → α → Prop}
    (hInside : ∀ inner h, room = inner + 1 → Reads inner n before (inside inner h) Q)
    (hOutside : room = 0 → Reads 0 0 before outside Q) :
    Reads room (n + 1) before (Parser.nested room inside outside) Q := by
  intro s hRest hStop hAcc
  cases room with
  | zero =>
      have hReport := Frame.reportOverflow s
      have hOut := hOutside rfl (reportOverflow.run s).2 (by rw [rest_reportOverflow, hRest])
        (by rw [hReport.stop]; exact hStop) (hReport.accounted hAcc)
      refine ⟨hReport.trans hOut.frame, fun hs => hOut.lawful (lawful_reportOverflow hs), ?_,
        hOut.post⟩
      have hOver : ((Parser.nested 0 inside outside).run s).2.Overrun :=
        hOut.frame.overrun (Frame.overrun_reportOverflow hAcc)
      exact iff_of_true hOver (.inr (Nat.zero_lt_succ n))
  | succ inner =>
      have hOpen := Frame.openLevel s
      have hOut := hInside inner (Nat.lt_succ_self inner) rfl (openLevel.run s).2 hRest hStop
        (hOpen.accounted hAcc)
      refine ⟨(hOpen.trans hOut.frame).trans (Frame.closeLevel _), hOut.lawful, ?_, hOut.post⟩
      exact hOut.overrun.trans (or_congr_right Nat.succ_lt_succ_iff.symm)

/-! ## Tokens -/

section Tokens

variable {room : Nat} {t : Token} {rest before : List Token}

theorem reads_current :
    Reads room 0 (t :: rest) current (Yields room 0 (t :: rest) t) :=
  .looks fun s hRest _ => by
    show (s.current, s) = (t, s)
    rw [State.current_eq_of_rest_cons hRest]

/-- At the end, the current token is the end marker. -/
theorem reads_current_nil :
    Reads room 0 [] current fun after u => after = [] ∧ u.kind = .eof := by
  intro s hRest hStop _
  refine .silent (Frame.refl s) rfl ⟨hRest, ?_⟩
  show s.current.kind = .eof
  rw [State.current_eq_stop hRest]
  exact hStop

/-- What is true of the first token, and of any end marker if there is none, is true of
the current token. -/
theorem reads_current_of {P : Token → Prop} (hHead : ∀ t ∈ before.head?, P t)
    (hEnd : ∀ t : Token, t.kind = .eof → P t) :
    Reads room 0 before current fun after u => after = before ∧ P u := by
  cases before with
  | nil => exact reads_current_nil.mono fun _ _ h => ⟨h.1, hEnd _ h.2⟩
  | cons t rest =>
      exact reads_current.mono fun _ _ h => ⟨h.1, h.2 (Nat.zero_le _) ▸ hHead t rfl⟩

theorem reads_advance : Reads room 0 (t :: rest) advance (Yields room 0 rest ()) := by
  intro s hRest _ _
  refine .silent (Frame.advance s) rfl ⟨?_, fun _ => rfl⟩
  show s.rest.tail = rest
  rw [hRest]
  rfl

theorem reads_isAt (k : Token.Kind) :
    Reads room 0 (t :: rest) (isAt k) (Yields room 0 (t :: rest) (t.kind == k)) :=
  reads_current.map_yields

theorem reads_isAtWord (word : String) :
    Reads room 0 (t :: rest) (isAtWord word)
      (Yields room 0 (t :: rest) (t.isWord word)) :=
  reads_current.map_yields

theorem reads_eat {k : Token.Kind} (h : t.kind = k) :
    Reads room 0 (t :: rest) (eat k) (Yields room 0 rest true) := by
  refine (reads_isAt k).andThen ?_
  rw [if_pos (beq_iff_eq.mpr h)]
  exact reads_advance.map_yields

theorem reads_eat_other {k : Token.Kind} (h : t.kind ≠ k) :
    Reads room 0 (t :: rest) (eat k) (Yields room 0 (t :: rest) false) := by
  refine (reads_isAt k).andThen ?_
  rw [if_neg (by simpa using h)]
  exact .looks fun _ _ _ => rfl

theorem reads_eatWord {word : String} (h : t.Spells word) :
    Reads room 0 (t :: rest) (eatWord word) (Yields room 0 rest true) := by
  refine (reads_isAtWord word).andThen ?_
  rw [if_pos (Token.isWord_of_spells h)]
  exact reads_advance.map_yields

theorem reads_eatWord_notAhead {word : String} (h : NotAhead word before) :
    Reads room 0 before (eatWord word) (Yields room 0 before false) := by
  have hAt : Reads room 0 before (isAtWord word) (Yields room 0 before false) :=
    (reads_current_of h fun u hu =>
      isWord_eq_false_of_kind (by simp [hu]) (by simp [hu])).map
        fun _ _ h => ⟨h.1, fun _ => h.2⟩
  exact hAt.andThen (.looks fun _ _ _ => rfl)

theorem reads_expectWord {word : String} (what : String) (h : t.Spells word) :
    Reads room 0 (t :: rest) (expectWord word what) (Yields room 0 rest ()) :=
  (reads_eatWord h).andThen (.looks fun _ _ _ => rfl)

theorem reads_expect {k : Token.Kind} (what : String) (h : t.kind = k) :
    Reads room 0 (t :: rest) (expect k what) (Yields room 0 rest (some t)) := by
  refine reads_current.andThen ?_
  rw [if_pos h]
  exact reads_advance.map_yields

theorem reads_discard_expect {k : Token.Kind} (what : String) (h : t.kind = k) :
    Reads room 0 (t :: rest) (discard (expect k what)) (Yields room 0 rest ()) :=
  (reads_expect what h).map_yields

/-- The type whose keyword comes first. -/
theorem reads_typeHere {dataType : DataType} (h : t.Spells dataType.keyword) :
    Reads room 0 (t :: rest) typeHere (Yields room 0 (t :: rest) (some dataType)) := by
  have hType : (if t.kind = .keyword then DataType.ofKeyword? t.text else none) =
      some dataType := by
    rw [h.1, h.2]
    cases dataType <;> decide
  have hRead : Reads room 0 (t :: rest) typeHere (Yields room 0 (t :: rest) _) :=
    reads_current.map_yields
  rwa [hType] at hRead

theorem reads_skipTo (after : List Token → List Token) (h : after before <:+ before) :
    Reads room 0 before (skipTo after) (Yields room 0 (after before) ()) := by
  rintro s rfl _ _
  exact .silent (Frame.skip h) rfl ⟨rfl, fun _ => rfl⟩

theorem reads_skipExpression :
    Reads room 0 before skipExpression fun after _ => after = afterExpression 0 before := by
  rintro s rfl _ _
  exact .silent (Frame.skip (afterExpression_suffix 0 s.rest)) rfl rfl

end Tokens

/-! ## Variables -/

theorem reads_declare {room : Nat} {before : List Token} (ident : Token)
    (dataType : DataType) :
    Reads room 0 before (declare ident dataType) (Yields room 0 before ()) := by
  rintro s rfl _ _
  show Outcome _ _ _ s ((if s.declared.contains ident.text then _ else _ : Parse Unit).run s)
  split
  · exact .naming trivial ⟨rfl, fun _ => rfl⟩
  · exact .silent ⟨rfl, List.suffix_refl _, List.prefix_refl _, id⟩ rfl ⟨rfl, fun _ => rfl⟩

theorem reads_checkDeclared {room : Nat} {before : List Token} (ident : Token) :
    Reads room 0 before (checkDeclared ident) (Yields room 0 before ()) := by
  rintro s rfl _ _
  show Outcome _ _ _ s ((if s.declared.contains ident.text then _ else _ : Parse Unit).run s)
  split
  · exact .silent (Frame.refl s) rfl ⟨rfl, fun _ => rfl⟩
  · exact .naming trivial ⟨rfl, fun _ => rfl⟩

end Parser

end Braceless
