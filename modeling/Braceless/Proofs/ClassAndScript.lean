import Braceless.Proofs.Parser.Coupled
import Mathlib.Data.List.Forall2

/-!
# The two forms of a program agree

The same statements can stand bare or in a class around an entry procedure.  The class takes
one level of nesting, so the parse of the bare form has one level more of room, and its
statements end at a closing brace instead of the end marker.  The two parses are followed
side by side: as long as neither has reported anything, they read the same tokens and enter
the same variables, and where they part, both have something to report, or the one in the
class has come upon the nesting limit.

## Main definitions

* `wrapping`: the coupling of a parse in a class with a parse of the bare form.
* `wrapperHead`: the tokens of a class in front of the body of its entry procedure.

## Main results

* `agree_bodies`: the statements of the two forms, from beginning to end.
* `formsAgree`: what is accepted in one form is accepted in the other, up to the nesting limit.
-/

namespace Braceless

namespace Parser

/-! ## The coupling -/

/-- A parse within a class and a parse of the bare form, both without errors: the first one
has two closing braces more to read. -/
structure State.Wraps (s s' : State) : Prop where
  rest : ∃ c d : Token, c.kind = .rBrace ∧ d.kind = .rBrace ∧ s.rest = s'.rest ++ [c, d]
  notEnd : ∀ t ∈ s'.rest, t.kind ≠ .eof
  stop : s.stop.kind = .eof
  stop' : s'.stop.kind = .eof
  errors : s.errors = #[]
  errors' : s'.errors = #[]
  declared : s.declared = s'.declared
  overflowed : s.overflowed = false

/-- The first parse has an error, or not the two braces that close a class; the second one has
an error, unless the first one has come upon the nesting limit. -/
def State.Parted (s s' : State) : Prop :=
  (s.errors ≠ #[] ∨ s.rest.length < 2) ∧ (s'.errors ≠ #[] ∨ s.Overrun)

theorem Frame.errors_ne_empty {s s' : State} (h : Frame s s') (hs : s.errors ≠ #[]) :
    s'.errors ≠ #[] :=
  fun hEmpty => hs (h.errors_eq_empty hEmpty)

theorem State.errors_report_ne_empty (s : State) (e : SyntaxError) :
    (s.report e).errors ≠ #[] := by
  simp [State.report]

namespace State.Wraps

variable {s s' : State}

/-- What comes next is the same, unless all of the bare form has been read. -/
theorem current_cases (h : s.Wraps s') :
    (s'.rest ≠ [] ∧ s.current = s'.current) ∨
      (s'.rest = [] ∧ s.current.kind = .rBrace ∧ s'.current.kind = .eof) := by
  obtain ⟨c, d, hc, _, hRest⟩ := h.rest
  cases hTokens : s'.rest with
  | nil =>
      rw [hTokens] at hRest
      refine .inr ⟨rfl, ?_, ?_⟩
      · rw [State.current_eq_of_rest_cons hRest]
        exact hc
      · rw [State.current_eq_stop hTokens]
        exact h.stop'
  | cons t ts =>
      rw [hTokens] at hRest
      refine .inl ⟨List.cons_ne_nil t ts, ?_⟩
      rw [State.current_eq_of_rest_cons hRest, State.current_eq_of_rest_cons hTokens]

/-- No end marker comes before the end of the bare form. -/
theorem current_ne_eof (h : s.Wraps s') (hNext : s'.rest ≠ []) : s'.current.kind ≠ .eof := by
  obtain ⟨t, ts, hTokens⟩ := List.exists_cons_of_ne_nil hNext
  rw [State.current_eq_of_rest_cons hTokens]
  exact h.notEnd t (hTokens ▸ List.mem_cons_self)

theorem advance (h : s.Wraps s') (hNext : s'.rest ≠ []) :
    (Parser.advance.run s).2.Wraps (Parser.advance.run s').2 := by
  obtain ⟨c, d, hc, hd, hRest⟩ := h.rest
  have hTail : s.rest.tail = s'.rest.tail ++ [c, d] := by
    rw [hRest, List.tail_append_of_ne_nil hNext]
  exact { h with
    rest := ⟨c, d, hc, hd, hTail⟩
    notEnd := fun t ht => h.notEnd t (List.mem_of_mem_tail ht) }

theorem kind_ne_eof (h : s.Wraps s') : ∀ t ∈ s.rest, t.kind ≠ .eof := by
  obtain ⟨c, d, hc, hd, hRest⟩ := h.rest
  intro t ht
  rw [hRest] at ht
  simp only [List.mem_append, List.mem_cons, List.not_mem_nil, or_false] at ht
  rcases ht with hMem | rfl | rfl
  · exact h.notEnd t hMem
  · simp [hc]
  · simp [hd]

theorem insert (h : s.Wraps s') (dataType : DataType) {t t' : Token} (ht : Alike id t t') :
    { s with declared := s.declared.insert ⟨t.text, dataType, t.pos⟩ : State }.Wraps
      { s' with declared := s'.declared.insert ⟨t'.text, dataType, t'.pos⟩ } := by
  have hPos : t.pos = t'.pos := ht.pos
  have hDeclared : s.declared.insert ⟨t.text, dataType, t.pos⟩ =
      s'.declared.insert ⟨t'.text, dataType, t'.pos⟩ := by
    rw [h.declared, ht.text, hPos]
  exact { h with declared := hDeclared }

theorem openLevel (h : s.Wraps s') :
    (Parser.openLevel.run s).2.Wraps (Parser.openLevel.run s').2 := by
  have hOver : (s.overflowed && decide (maxNesting / 2 ≤ s.depth)) = false := by
    rw [h.overflowed, Bool.false_and]
  exact { h with overflowed := hOver }

theorem length_rest (h : s.Wraps s') : s.rest.length = s'.rest.length + 2 := by
  obtain ⟨c, d, _, _, hRest⟩ := h.rest
  rw [hRest, List.length_append]
  rfl

/-- Where all of the bare form has been read, the braces of the class are left. -/
theorem length_of_ends (h : s.Wraps s') (hKind : s.current.kind = .rBrace)
    (hKind' : s'.current.kind = .eof) : s.rest.length = 2 := by
  cases h.current_cases with
  | inl hSame =>
      rw [hSame.2, hKind'] at hKind
      cases hKind
  | inr hEnd =>
      rw [h.length_rest, hEnd.1]
      rfl

/-- The nesting limit of the class is reported. -/
theorem overflow (h : s.Wraps s') :
    (reportOverflow.run s).2.errors ≠ #[] ∧ (reportOverflow.run s).2.Overrun := by
  have hOver : (reportOverflow.run s).2.Overrun :=
    Frame.overrun_reportOverflow fun hTrue => by
      rw [h.overflowed] at hTrue
      cases hTrue
  refine ⟨fun hEmpty => ?_, hOver⟩
  obtain ⟨e, he, _⟩ := hOver
  rw [hEmpty] at he
  exact Array.not_mem_empty e he

end State.Wraps

theorem State.Parted.of_frame {s s' u u' : State} (h : s.Parted s') (hu : Frame s u)
    (hu' : Frame s' u') : u.Parted u' := by
  have hLength := hu.length_le
  constructor
  · cases h.1 with
    | inl hErrors => exact .inl (hu.errors_ne_empty hErrors)
    | inr hShort => exact .inr (by omega)
  · cases h.2 with
    | inl hErrors => exact .inl (hu'.errors_ne_empty hErrors)
    | inr hOver => exact .inr (hu.overrun hOver)

theorem State.Parted.of_report {s s' : State} (e e' : SyntaxError) :
    (s.report e).Parted (s'.report e') :=
  ⟨.inl (s.errors_report_ne_empty e), .inl (s'.errors_report_ne_empty e')⟩

/-- A parse within a class, and a parse of the bare form with one level more of room. -/
def wrapping : Coupling where
  extra := 1
  place := id
  Abreast := State.Wraps
  Parted := State.Parted
  Ends t t' := t.kind = .rBrace ∧ t'.kind = .eof
  ends h := ⟨h.1, h.2, Nat.one_ne_zero⟩
  parted h hu hu' := h.of_frame hu hu'
  meet h := by
    cases h.current_cases with
    | inl hSame => exact .inl (congrArg (Token.mapPos id) hSame.2)
    | inr hEnd => exact .inr hEnd.2
  stop h := ⟨h.stop, h.stop'⟩
  names h := congrArg Declarations.names h.declared
  advance h hAlike := by
    cases h.current_cases with
    | inl hSame => exact h.advance hSame.1
    | inr hEnd =>
        have hKind := hAlike.kind
        rw [hEnd.2.1, hEnd.2.2] at hKind
        cases hKind
  insert dataType h ht := h.insert dataType ht
  report fault h _ := .inr (.of_report _ _)
  reportEnds e e' _ _ := .of_report e e'
  closeEnds {s s'} e' h hEnd := by
    have hLength := h.length_of_ends hEnd.1 hEnd.2
    have hTail : s.rest.tail.length < 2 := by
      rw [List.length_tail]
      omega
    exact ⟨.inr hTail, .inl (s'.errors_report_ne_empty e')⟩
  openLevel h := h.openLevel
  closeLevel h := { h with }
  overflow h := (Nat.one_ne_zero h).elim
  skip _ h := (Nat.one_ne_zero h).elim
  overflowAlone _ h _ := ⟨.inl h.overflow.1, .inr h.overflow.2⟩

/-! ## The statements of the two forms -/

/-- The statements of a block, up to its end. -/
def blockBody (room : Nat) : Parse (List Stmt) := do
  let s ← get
  repeatUntil endsBlock (orDrop (statement room)) s.rest.length

/-- The statements of the bare form, up to the end marker. -/
def scriptBody (room : Nat) : Parse (List Stmt) := do
  let s ← get
  repeatUntil (·.kind == .eof) (scriptItem room) s.rest.length

/-- What is left of the class does not close it properly, or there is an error; and so for the
second parse, unless the first one has come upon the nesting limit. -/
def State.Strayed (s s' : State) : Prop :=
  (s.errors ≠ #[] ∨ s.rest.length ≠ 2) ∧ (s'.errors ≠ #[] ∨ s.Overrun)

theorem State.Parted.strayed {s s' : State} (h : s.Parted s') : s.Strayed s' :=
  ⟨h.1.imp_right Nat.ne_of_lt, h.2⟩

theorem framed_scriptItem (room : Nat) : Framed (scriptItem room) :=
  (sound_scriptItem room).frame

/-- A closing brace that has nothing to close is reported. -/
theorem errors_scriptItem_ne_empty (room : Nat) {s : State} (h : s.current.kind = .rBrace) :
    ((scriptItem room).run s).2.errors ≠ #[] := by
  show ((if (s.current.kind == .rBrace) = true then _ else _ : Parse _).run s).2.errors ≠ #[]
  rw [if_pos (by rw [h]; rfl)]
  exact State.errors_report_ne_empty s _

/-- Any other token is read as in a block. -/
theorem run_scriptItem {room : Nat} {s : State} (h : s.current.kind ≠ .rBrace) :
    (scriptItem room).run s = (orDrop (statement room)).run s := by
  show (if (s.current.kind == .rBrace) = true then _ else _ : Parse _).run s = _
  rw [if_neg (by simpa using h)]

/-- A statement or a dropped token, in the class and in the bare form. -/
theorem couples_turn (room : Nat) :
    Couples wrapping Anywhere (orDrop (statement room)) (orDrop (statement (room + 1)))
      (Option.map (Stmt.mapPos id)) fun _ => Anywhere :=
  couples_orDrop (couples_statement room)

/-- Statements that look alike at their own places are the same. -/
theorem eq_of_map_mapPos_id {o o' : Option Stmt}
    (h : o.map (Stmt.mapPos id) = o'.map (Stmt.mapPos id)) : o = o' := by
  have hId : Stmt.mapPos id = id := funext Stmt.mapPos_id
  rwa [hId, Option.map_id, id, id] at h

/-- The two forms have strayed, or the same statements have been read and only the braces of
the class are left. -/
def Agree (r r' : List Stmt × State) : Prop :=
  r.2.Strayed r'.2 ∨ (r.2.Wraps r'.2 ∧ r'.2.rest = [] ∧ r.1 = r'.1)

/-- A brace among the statements ends those of the class too early, and is an error in the
bare form. -/
theorem agree_of_brace {room n n' : Nat} {s s' : State} (hs : s.Wraps s') (hNext : s'.rest ≠ [])
    (hSame : s.current = s'.current) (hBrace : s'.current.kind = .rBrace) :
    Agree ((repeatUntil endsBlock (orDrop (statement room)) n).run s)
      ((repeatUntil (·.kind == .eof) (scriptItem (room + 1)) (n' + 1)).run s') := by
  have hLength := hs.length_rest
  have hPos := List.length_pos_iff.mpr hNext
  have hLong : s.rest.length ≠ 2 := by omega
  have hStop : endsBlock s.current = true := by simp [endsBlock, hSame, hBrace]
  have hNotEnd : ¬ (s'.current.kind == .eof) = true := by simp [hBrace]
  have hFrame := (framed_scriptItem (room + 1)).repeatUntil (·.kind == .eof) n'
    ((scriptItem (room + 1)).run s').2
  rw [run_repeatUntil_of_stop _ hStop, run_repeatUntil_succ (·.kind == .eof) hNotEnd]
  exact .inl ⟨.inr hLong,
    .inl (hFrame.errors_ne_empty (errors_scriptItem_ne_empty (room + 1) hBrace))⟩

/-- The statements of a class and of the bare form are read turn by turn. -/
theorem agree_repeatUntil (room n : Nat) : ∀ (n' : Nat) {s s' : State}, s.Wraps s' →
    s.rest.length ≤ n → s'.rest.length ≤ n' →
    Agree ((repeatUntil endsBlock (orDrop (statement room)) n).run s)
      ((repeatUntil (·.kind == .eof) (scriptItem (room + 1)) n').run s') := by
  induction n with
  | zero =>
      intro n' s s' hs hn
      have hLength := hs.length_rest
      omega
  | succ n ih =>
      intro n' s s' hs hn hn'
      have hLength := hs.length_rest
      cases hs.current_cases with
      | inr hEnd =>
          have hStop : endsBlock s.current = true := by simp [endsBlock, hEnd.2.1]
          have hStop' : (s'.current.kind == .eof) = true := by simp [hEnd.2.2]
          rw [run_repeatUntil_of_stop _ hStop, run_repeatUntil_of_stop (·.kind == .eof) hStop']
          exact .inr ⟨hs, hEnd.1, rfl⟩
      | inl hSame =>
          have hPos := List.length_pos_iff.mpr hSame.1
          obtain ⟨m, rfl⟩ : ∃ m, n' = m + 1 := ⟨n' - 1, by omega⟩
          by_cases hBrace : s'.current.kind = .rBrace
          · exact agree_of_brace hs hSame.1 hSame.2 hBrace
          have hEof := hs.current_ne_eof hSame.1
          have hStop : ¬ endsBlock s.current = true := by
            simp [endsBlock, hSame.2, hBrace, hEof]
          have hStop' : ¬ (s'.current.kind == .eof) = true := by simp [hEof]
          have hLess := consumes_orDrop (consumes_statement room) s
            (List.ne_nil_of_length_pos (by omega))
          have hLess' := consumes_scriptItem (room + 1) s' hSame.1
          rw [run_repeatUntil_succ _ hStop, run_repeatUntil_succ (·.kind == .eof) hStop']
          rw [run_scriptItem hBrace] at hLess' ⊢
          cases (couples_turn room).holds s s' hs trivial with
          | inl hParted =>
              exact .inl (hParted.of_frame
                ((Framed.orDrop (sound_statement room).frame).repeatUntil _ n _)
                ((framed_scriptItem (room + 1)).repeatUntil _ m _)).strayed
          | inr hNext =>
              cases ih m hNext.1 (by omega) (by omega) with
              | inl hStrayed => exact .inl hStrayed
              | inr hMore =>
                  refine .inr ⟨hMore.1, hMore.2.1, ?_⟩
                  exact congrArg₂ (·.toList ++ ·) (eq_of_map_mapPos_id hNext.2.1) hMore.2.2

theorem agree_bodies (room : Nat) {s s' : State} (hs : s.Wraps s') :
    Agree ((blockBody room).run s) ((scriptBody (room + 1)).run s') :=
  agree_repeatUntil room _ _ hs (Nat.le_refl _) (Nat.le_refl _)

/-! ## Reading the wrapper -/

section Wrapper

open Grammar

variable {α β : Type} {s s' : State} {t : Token} {ts : List Token}

theorem run_bind_of_eq {p : Parse α} {f : α → Parse β} {a : α} (h : p.run s = (a, s')) :
    (p >>= f).run s = (f a).run s' := by
  show (f (p.run s).1).run (p.run s).2 = _
  rw [h]

theorem run_expect_cons {k : Token.Kind} (what : String) (hRest : s.rest = t :: ts)
    (h : t.kind = k) : (expect k what).run s = (some t, { s with rest := ts }) := by
  have hCurrent := State.current_eq_of_rest_cons hRest
  show (if s.current.kind = k then _ else _ : Parse _).run s = _
  rw [hCurrent, if_pos h]
  show (some t, { s with rest := s.rest.tail }) = _
  rw [hRest]
  rfl

theorem run_discard_expect_cons {k : Token.Kind} (what : String) (hRest : s.rest = t :: ts)
    (h : t.kind = k) : (discard (expect k what)).run s = ((), { s with rest := ts }) :=
  congrArg (fun r : Option Token × State => ((), r.2)) (run_expect_cons what hRest h)

theorem run_expectWord_cons {word : String} (what : String) (hRest : s.rest = t :: ts)
    (h : t.Spells word) : (expectWord word what).run s = ((), { s with rest := ts }) := by
  have hEat : (eatWord word).run s = (true, { s with rest := ts }) := by
    have hCurrent := State.current_eq_of_rest_cons hRest
    show (if s.current.isWord word = true then _ else _ : Parse _).run s = _
    rw [hCurrent, if_pos (Token.isWord_of_spells h)]
    show (true, { s with rest := s.rest.tail }) = _
    rw [hRest]
    rfl
  exact run_bind_of_eq hEat

/-- A block, from its opening brace on. -/
theorem run_block_cons (room : Nat) (opening closing : String) (hRest : s.rest = t :: ts)
    (h : t.kind = .lBrace) :
    (block (room + 1) opening closing).run s =
      (do
        let body ← blockBody room
        discard (expect .rBrace closing)
        closeLevel
        return body : Parse _).run { (openLevel.run s).2 with rest := ts } := by
  have hOpen : (discard (expect .lBrace opening)).run (openLevel.run s).2 =
      ((), { (openLevel.run s).2 with rest := ts }) := run_discard_expect_cons opening hRest h
  rw [block]
  show (discard (expect .lBrace opening) >>= fun _ => blockBody room >>= fun body =>
    discard (expect .rBrace closing) >>= fun _ => closeLevel >>= fun _ => pure body).run
      (openLevel.run s).2 = _
  exact run_bind_of_eq hOpen

/-- The tokens of an entry procedure in front of its statements. -/
def procedureHead : List (Token → Prop) :=
  entryHead.tail ++ [(·.kind = .identifier), (·.kind = .rParen), (·.kind = .lBrace)]

/-- The tokens of a class in front of the statements of its entry procedure. -/
def wrapperHead : List (Token → Prop) :=
  classHead ++ (·.kind = .identifier) :: (·.kind = .lBrace) :: procedureHead

/-- What follows the statements of an entry procedure. -/
def procedureEnd : Parse Unit := do
  discard (expect .rBrace "'\x7d' to close main body")
  closeLevel

/-- What follows the statements of a class: two closing braces and nothing else. -/
def wrapperEnd : Parse Unit := do
  procedureEnd
  discard (expect .rBrace "'\x7d' at end of class")
  checkEnd

/-- An entry procedure whose head is complete is read up to its statements, and then from
their end. -/
theorem exists_run_entryProcedure {es : List Token} (hHead : Sequence procedureHead es)
    (room : Nat) (hRest : s.rest = es ++ ts) :
    ∃ param, (entryProcedure (room + 1)).run s =
      ((param, ((blockBody room).run { (openLevel.run s).2 with rest := ts }).1),
        (procedureEnd.run ((blockBody room).run { (openLevel.run s).2 with rest := ts }).2).2) := by
  simp only [procedureHead, entryHead, List.tail_cons, List.cons_append, List.nil_append, Sequence,
    List.forall₂_cons_left_iff, List.forall₂_nil_left_iff] at hHead
  obtain ⟨_, _, h1, ⟨_, _, h2, ⟨_, _, h3, ⟨_, _, h4, ⟨_, _, h5, ⟨_, _, h6, ⟨_, _, h7,
    ⟨_, _, h8, ⟨param, _, h9, ⟨_, _, h10, ⟨_, _, h11, rfl, rfl⟩, rfl⟩, rfl⟩, rfl⟩, rfl⟩, rfl⟩,
    rfl⟩, rfl⟩, rfl⟩, rfl⟩, rfl⟩ := hHead
  refine ⟨param.text, ?_⟩
  unfold entryProcedure
  refine (run_bind_of_eq (run_expectWord_cons _ hRest h1)).trans ?_
  refine (run_bind_of_eq (run_expectWord_cons _ rfl h2)).trans ?_
  refine (run_bind_of_eq (run_expectWord_cons _ rfl h3)).trans ?_
  refine (run_bind_of_eq (run_expectWord_cons _ rfl h4)).trans ?_
  refine (run_bind_of_eq (run_discard_expect_cons _ rfl h5)).trans ?_
  refine (run_bind_of_eq (run_expectWord_cons _ rfl h6)).trans ?_
  refine (run_bind_of_eq (run_discard_expect_cons _ rfl h7)).trans ?_
  refine (run_bind_of_eq (run_discard_expect_cons _ rfl h8)).trans ?_
  refine (run_bind_of_eq (run_expect_cons _ rfl h9)).trans ?_
  refine (run_bind_of_eq (run_discard_expect_cons _ rfl h10)).trans ?_
  exact run_bind_of_eq (run_block_cons room _ _ rfl h11)

/-- A class whose head is complete is read up to its statements, and then from their end. -/
theorem exists_run_classForm {pre : List Token} (hPre : Sequence wrapperHead pre) (room : Nat)
    (hRest : s.rest = pre ++ ts) :
    ∃ program : Program,
      program.body = ((blockBody room).run { (openLevel.run s).2 with rest := ts }).1 ∧
      (classForm (room + 1)).run s = (program,
        (wrapperEnd.run ((blockBody room).run { (openLevel.run s).2 with rest := ts }).2).2) := by
  simp only [wrapperHead, classHead, List.cons_append, List.nil_append, Sequence,
    List.forall₂_cons_left_iff] at hPre
  obtain ⟨_, _, h1, ⟨_, _, h2, ⟨name, _, h3, ⟨_, es, h4, hHead, rfl⟩, rfl⟩, rfl⟩, rfl⟩ := hPre
  have hNext : ({ s with rest := es ++ ts } : State).rest = es ++ ts := rfl
  obtain ⟨param, hRun⟩ := exists_run_entryProcedure hHead room hNext
  refine ⟨⟨name.text, param, _⟩, rfl, ?_⟩
  unfold classForm
  refine (run_bind_of_eq (run_expectWord_cons _ hRest h1)).trans ?_
  refine (run_bind_of_eq (run_expectWord_cons _ rfl h2)).trans ?_
  refine (run_bind_of_eq (run_expect_cons _ rfl h3)).trans ?_
  refine (run_bind_of_eq (run_discard_expect_cons _ rfl h4)).trans ?_
  exact run_bind_of_eq hRun

/-! ## The end of the wrapper -/

/-- A required token whose absence is not reported is there, and what follows goes on
behind it. -/
theorem exists_cons_of_expect_clean {k : Token.Kind} {what : String} {f : Unit → Parse α}
    (h : ((discard (expect k what) >>= f).run s).2.errors = #[]) (hf : Framed (f ()))
    (hk : k ≠ .eof) (hStop : s.stop.kind = .eof) :
    ∃ t ts, s.rest = t :: ts ∧ t.kind = k ∧ ((f ()).run { s with rest := ts }).2.errors = #[] := by
  by_cases hKind : s.current.kind = k
  · cases hRest : s.rest with
    | nil =>
        rw [State.current_eq_stop hRest, hStop] at hKind
        exact absurd hKind.symm hk
    | cons t ts =>
        rw [State.current_eq_of_rest_cons hRest] at hKind
        rw [run_bind_of_eq (run_discard_expect_cons what hRest hKind)] at h
        exact ⟨t, ts, rfl, hKind, h⟩
  · have hRun : (expect k what).run s = (none, s.report (.ofToken (.expected what) s.current)) := by
      show (if s.current.kind = k then _ else _ : Parse _).run s = _
      rw [if_neg hKind]
      rfl
    have hErrors : ((expect k what).run s).2.errors = #[] := (hf _).errors_eq_empty h
    rw [hRun] at hErrors
    exact absurd hErrors (s.errors_report_ne_empty _)

theorem run_checkEnd (s : State) : (checkEnd.run s).2 =
    if s.current.kind = .eof then s else s.report (.ofToken .trailingInput s.current) := by
  show ((if (s.current.kind == .eof) = true then _ else _ : Parse Unit).run s).2 = _
  by_cases h : s.current.kind = .eof
  · rw [if_pos h, if_pos (beq_iff_eq.mpr h)]
    rfl
  · rw [if_neg h, if_neg (fun hEq => h (beq_iff_eq.mp hEq))]
    rfl

theorem framed_checkEnd : Framed checkEnd :=
  sound_checkEnd.frame

theorem framed_procedureEnd : Framed procedureEnd :=
  (framed_discard_expect _ _).bind fun _ => Frame.closeLevel

/-- What follows the entry procedure of a class. -/
theorem framed_classEnd :
    Framed (discard (expect .rBrace "'\x7d' at end of class") >>= fun _ => checkEnd) :=
  (framed_discard_expect _ _).bind fun _ => framed_checkEnd

theorem framed_wrapperEnd : Framed wrapperEnd :=
  framed_procedureEnd.bind fun _ => framed_classEnd

theorem run_procedureEnd {c : Token} (hc : c.kind = .rBrace) (hRest : s.rest = c :: ts) :
    procedureEnd.run s = ((), { s with rest := ts, depth := s.depth - 1 }) :=
  run_bind_of_eq (run_discard_expect_cons _ hRest hc)

/-- The braces of a class are read one after the other. -/
theorem run_wrapperEnd {c d : Token} (hc : c.kind = .rBrace) (hd : d.kind = .rBrace)
    (hRest : s.rest = c :: d :: ts) :
    wrapperEnd.run s = checkEnd.run { s with rest := ts, depth := s.depth - 1 } :=
  (run_bind_of_eq (run_procedureEnd hc hRest)).trans
    (run_bind_of_eq (run_discard_expect_cons _ rfl hd))

/-- A class ends without an error only if its two braces were left, and nothing else. -/
theorem length_of_wrapperEnd_clean (hStop : s.stop.kind = .eof)
    (hNotEnd : ∀ t ∈ s.rest, t.kind ≠ .eof) (h : (wrapperEnd.run s).2.errors = #[]) :
    s.rest.length = 2 := by
  have hFirst : (procedureEnd.run s).2.errors = #[] := (framed_classEnd _).errors_eq_empty h
  obtain ⟨c, us, hRest, hc, _⟩ :=
    exists_cons_of_expect_clean hFirst Frame.closeLevel (by decide) hStop
  have hSecond := h
  rw [wrapperEnd, run_bind_of_eq (run_procedureEnd hc hRest)] at hSecond
  obtain ⟨d, vs, hRest', hd, _⟩ :=
    exists_cons_of_expect_clean hSecond framed_checkEnd (by decide) hStop
  obtain rfl : us = d :: vs := hRest'
  rw [run_wrapperEnd hc hd hRest, run_checkEnd] at h
  cases vs with
  | nil =>
      rw [hRest]
      rfl
  | cons t ts =>
      have hKind : t.kind ≠ .eof := hNotEnd t (by simp [hRest])
      rw [State.current_eq_of_rest_cons rfl, if_neg hKind] at h
      exact absurd h (State.errors_report_ne_empty _ _)

/-- Where only the two braces are left, a class ends without an error. -/
theorem run_wrapperEnd_of_braces {c d : Token} (hc : c.kind = .rBrace) (hd : d.kind = .rBrace)
    (hRest : s.rest = [c, d]) (hStop : s.stop.kind = .eof) :
    (wrapperEnd.run s).2 = { s with rest := [], depth := s.depth - 1 } := by
  rw [run_wrapperEnd hc hd hRest, run_checkEnd, State.current_eq_stop rfl]
  exact if_pos hStop

end Wrapper

/-! ## Words of the wrapper -/

/-- An assignment to a name that is not in the table is an error. -/
theorem errors_assignment_ne_empty {s : State} (room : Nat)
    (hTable : s.current.text ∉ s.declared.names) :
    ((assignment room).run s).2.errors ≠ #[] := by
  have hCheck : ((checkDeclared s.current).run s).2.errors ≠ #[] := by
    rw [run_checkDeclared, if_neg hTable]
    exact s.errors_report_ne_empty _
  have hRest : Framed (advance >>= fun _ => assignedValue room s.current >>= fun value =>
      discard (expect .semicolon "';' after assignment") >>= fun _ =>
        pure (⟨s.current.text, value, s.current.pos⟩ : Assignment)) :=
    Framed.bind Frame.advance fun _ =>
      Framed.bind (sound_assignedValue room s.current).frame fun _ =>
        (framed_discard_expect _ _).bind fun _ => framed_pure _
  exact (hRest _).errors_ne_empty hCheck

theorem errors_noStatement_ne_empty (s : State) : (noStatement.run s).2.errors ≠ #[] :=
  (Frame.advance _).errors_ne_empty (s.errors_report_ne_empty _)

/-- A statement cannot start with a word that starts none, as long as no variable has that
name. -/
theorem errors_statement_ne_empty {s : State} {word : String} (room : Nat)
    (hWord : s.current.isWord word = true) (hType : DataType.ofKeyword? word = none)
    (hNot : word ∉ ["if", "for", "while", "System"]) (hTable : word ∉ s.declared.names) :
    ((statement room).run s).2.errors ≠ #[] := by
  have hText : s.current.text = word := by
    simp only [Token.isWord, Bool.and_eq_true, beq_iff_eq] at hWord
    exact hWord.2
  have hNoType : typeHere.run s = (none, s) := by
    show ((if s.current.kind = .keyword then DataType.ofKeyword? s.current.text else none), s) = _
    rw [hText, hType, ite_self]
  have hNoWord : ∀ w ∈ ["if", "for", "while", "System"], (isAtWord w).run s = (false, s) := by
    intro w hw
    show (s.current.isWord w, s) = _
    have hNe : word ≠ w := fun hEq => hNot (hEq ▸ hw)
    simp [Token.isWord, hText, hNe]
  rw [statement, run_bind_of_eq hNoType]
  by_cases hKind : s.current.kind = .identifier
  · have hAt : (isAt .identifier).run s = (true, s) := by
      show (s.current.kind == .identifier, s) = _
      rw [hKind]
      rfl
    show ((isAt .identifier >>= fun b => _).run s).2.errors ≠ #[]
    rw [run_bind_of_eq hAt]
    exact errors_assignment_ne_empty room (hText ▸ hTable)
  · have hAt : (isAt .identifier).run s = (false, s) := by
      show (s.current.kind == .identifier, s) = _
      simp [hKind]
    show ((isAt .identifier >>= fun b => _).run s).2.errors ≠ #[]
    rw [run_bind_of_eq hAt]
    show ((isAtWord "if" >>= fun b => _).run s).2.errors ≠ #[]
    rw [run_bind_of_eq (hNoWord "if" (by decide))]
    show ((isAtWord "for" >>= fun b => _).run s).2.errors ≠ #[]
    rw [run_bind_of_eq (hNoWord "for" (by decide))]
    show ((isAtWord "while" >>= fun b => _).run s).2.errors ≠ #[]
    rw [run_bind_of_eq (hNoWord "while" (by decide))]
    show ((isAtWord "System" >>= fun b => _).run s).2.errors ≠ #[]
    rw [run_bind_of_eq (hNoWord "System" (by decide))]
    exact errors_noStatement_ne_empty s

/-- The statements of a class whose first word starts none are not without errors. -/
theorem errors_blockBody_ne_empty {s : State} {word : String} (room : Nat)
    (hWord : s.current.isWord word = true) (hType : DataType.ofKeyword? word = none)
    (hNot : word ∉ ["if", "for", "while", "System"]) (hTable : word ∉ s.declared.names)
    (hStop : s.stop.kind = .eof) : ((blockBody room).run s).2.errors ≠ #[] := by
  have hKind : s.current.kind = .keyword ∨ s.current.kind = .identifier := by
    simp only [Token.isWord, Bool.and_eq_true, Bool.or_eq_true, beq_iff_eq] at hWord
    exact hWord.1
  have hGoesOn : ¬ endsBlock s.current = true := by
    cases hKind with
    | inl hKeyword => simp [endsBlock, hKeyword]
    | inr hIdent => simp [endsBlock, hIdent]
  have hStatement : Framed (orDrop (statement room)) := Framed.orDrop (sound_statement room).frame
  have hTurn : ((orDrop (statement room)).run s).2.errors ≠ #[] :=
    (Frame.orDrop _ s).errors_ne_empty (errors_statement_ne_empty room hWord hType hNot hTable)
  have hRest := rest_ne_nil_of_not_stop (fun _ => endsBlock_of_eof) hStop hGoesOn
  obtain ⟨n, hLength⟩ := Nat.exists_eq_succ_of_ne_zero (mt List.length_eq_zero_iff.mp hRest)
  show ((repeatUntil endsBlock (orDrop (statement room)) s.rest.length).run s).2.errors ≠ #[]
  rw [hLength, run_repeatUntil_succ _ hGoesOn]
  exact (hStatement.repeatUntil endsBlock n _).errors_ne_empty hTurn

/-! ## Parses of both forms -/

section Forms

open Grammar

variable {pre body : List Token} {close close' stop stop' : Token}

theorem seen_of_sequence {heads : List (Token → Prop)} {ts : List Token}
    (hHeads : ∀ P ∈ heads, ∀ t, P t → t.kind ≠ .eof ∧ t.isTrivia = false)
    (h : Sequence heads ts) : ∀ t ∈ ts, t.kind ≠ .eof ∧ t.isTrivia = false := by
  induction h with
  | nil => simp
  | @cons P t heads ts hHead _ ih =>
      intro u hu
      cases List.mem_cons.mp hu with
      | inl hEq => exact hHeads P List.mem_cons_self u (hEq ▸ hHead)
      | inr hMem => exact ih (fun Q hQ => hHeads Q (List.mem_cons_of_mem P hQ)) u hMem

/-- No token of the head of a class is trivia or an end marker. -/
theorem seen_wrapperHead (hPre : Sequence wrapperHead pre) :
    ∀ t ∈ pre, t.kind ≠ .eof ∧ t.isTrivia = false := by
  have hKind : ∀ {t : Token} {k : Token.Kind}, k ≠ .eof → k.isTrivia = false → t.kind = k →
      t.kind ≠ .eof ∧ t.isTrivia = false := by
    intro t k hEof hTrivia h
    rw [Token.isTrivia, h]
    exact ⟨hEof, hTrivia⟩
  have hWord : ∀ {t : Token} {word : String}, t.Spells word →
      t.kind ≠ .eof ∧ t.isTrivia = false := by
    intro t word h
    by_cases hKeyword : isKeyword word
    · exact hKind (k := .keyword) (by decide) rfl (h.1.trans (if_pos hKeyword))
    · exact hKind (k := .identifier) (by decide) rfl (h.1.trans (if_neg hKeyword))
  refine seen_of_sequence ?_ hPre
  simp only [wrapperHead, procedureHead, classHead, entryHead, List.tail_cons, List.cons_append,
    List.nil_append, List.forall_mem_cons]
  exact ⟨fun _ => hWord, fun _ => hWord, fun _ => hKind (by decide) rfl,
    fun _ => hKind (by decide) rfl, fun _ => hWord, fun _ => hWord, fun _ => hWord, fun _ => hWord,
    fun _ => hKind (by decide) rfl, fun _ => hWord, fun _ => hKind (by decide) rfl,
    fun _ => hKind (by decide) rfl, fun _ => hKind (by decide) rfl, fun _ => hKind (by decide) rfl,
    fun _ => hKind (by decide) rfl, by simp⟩

/-- What a parse sees of a class around `body`. -/
theorem significant_wrapped (hPre : Sequence wrapperHead pre)
    (hBody : ∀ t ∈ body, t.kind ≠ .eof) (hClose : close.kind = .rBrace)
    (hClose' : close'.kind = .rBrace) (hStop : stop.kind = .eof) :
    significant (pre ++ body ++ [close, close', stop]) =
      pre ++ (body.filter (!·.isTrivia) ++ [close, close']) := by
  have hSeen := seen_wrapperHead hPre
  have hTokens : pre ++ body ++ [close, close', stop] =
      (pre ++ body ++ [close, close']) ++ [stop] := by simp
  have hNotEnd : ∀ t ∈ pre ++ body ++ [close, close'], t.kind ≠ .eof := by
    intro t ht
    simp only [List.mem_append, List.mem_cons, List.not_mem_nil, or_false] at ht
    rcases ht with (hMem | hMem) | rfl | rfl
    · exact (hSeen t hMem).1
    · exact hBody t hMem
    · simp [hClose]
    · simp [hClose']
  have hHead : pre.filter (!·.isTrivia) = pre :=
    List.filter_eq_self.mpr fun t ht => by simp [(hSeen t ht).2]
  rw [hTokens, significant_append_eof hNotEnd hStop, List.filter_append, List.filter_append,
    hHead, List.append_assoc]
  simp [Token.isTrivia, Token.Kind.isTrivia, hClose, hClose']

theorem framed_blockBody (room : Nat) : Framed (blockBody room) :=
  Framed.bind Frame.refl fun _ => (Framed.orDrop (sound_statement room).frame).repeatUntil _ _

/-- What comes of the statements of a class up to its end, where `r` comes of the statements
themselves and `r'` of those of the bare form. -/
inductive FormsAgree (r r' : List Stmt × State) : Prop where
  | clean (h : (wrapperEnd.run r.2).2.errors = #[]) (h' : r'.2.errors = #[])
      (body : r'.1 = r.1) (declared : r'.2.declared = (wrapperEnd.run r.2).2.declared)
  | faulty (h : (wrapperEnd.run r.2).2.errors ≠ #[])
      (h' : r'.2.errors = #[] → (wrapperEnd.run r.2).2.Overrun)

theorem formsAgree {s s' : State} (hs : s.Wraps s') (room : Nat) :
    FormsAgree ((blockBody room).run s) ((scriptBody (room + 1)).run s') := by
  have hFrame := framed_blockBody room s
  have hStop : ((blockBody room).run s).2.stop.kind = .eof := by
    rw [hFrame.stop]
    exact hs.stop
  cases agree_bodies room hs with
  | inr hSame =>
      obtain ⟨hEnd, hNil, hBody⟩ := hSame
      obtain ⟨c, d, hc, hd, hRest⟩ := hEnd.rest
      rw [hNil, List.nil_append] at hRest
      have hRun := run_wrapperEnd_of_braces hc hd hRest hStop
      exact .clean (by rw [hRun]; exact hEnd.errors) hEnd.errors' hBody.symm
        (by rw [hRun]; exact hEnd.declared.symm)
  | inl hStrayed =>
      have hNotEnd : ∀ t ∈ ((blockBody room).run s).2.rest, t.kind ≠ .eof := fun t ht =>
        hs.kind_ne_eof t (hFrame.rest.subset ht)
      refine .faulty (fun hClean => ?_) fun hBare => ?_
      · cases hStrayed.1 with
        | inl hErrors => exact hErrors ((framed_wrapperEnd _).errors_eq_empty hClean)
        | inr hLength => exact hLength (length_of_wrapperEnd_clean hStop hNotEnd hClean)
      · exact (framed_wrapperEnd _).overrun (hStrayed.2.resolve_left (absurd hBare))

/-- A parse of the bare form, unless it starts like a class. -/
theorem parse_bare {tokens : List Token}
    (hFirst : ((State.initial tokens).current.isWord "public" ||
      (State.initial tokens).current.isWord "class") = false) :
    parse tokens =
      ⟨{ (default : Program) with body := ((scriptBody maxNesting).run (.initial tokens)).1 },
        ((scriptBody maxNesting).run (.initial tokens)).2.errors.toList,
        ((scriptBody maxNesting).run (.initial tokens)).2.declared⟩ := by
  have hRun : (program maxNesting).run (.initial tokens) =
      ({ (default : Program) with body := ((scriptBody maxNesting).run (.initial tokens)).1 },
        ((scriptBody maxNesting).run (.initial tokens)).2) := by
    show (if (State.initial tokens).current.kind = .eof then _ else if _ then _ else _ :
      Parse Program).run (.initial tokens) = _
    by_cases hEof : (State.initial tokens).current.kind = .eof
    · have hNone : (scriptBody maxNesting).run (.initial tokens) = ([], .initial tokens) :=
        run_repeatUntil_of_stop (·.kind == .eof) (beq_iff_eq.mpr hEof)
      rw [if_pos hEof, hNone]
      rfl
    · rw [if_neg hEof, hFirst, if_neg Bool.false_ne_true]
      rfl
  exact congrArg (fun r : Program × State =>
    (⟨r.1, r.2.errors.toList, r.2.declared⟩ : Parsed)) hRun

/-- A parse of a class whose head is complete. -/
theorem parse_wrapped {tokens ts : List Token} (hPre : Sequence wrapperHead pre)
    (hTokens : significant tokens = pre ++ ts) {s : State}
    (hs : s = { (openLevel.run (.initial tokens)).2 with rest := ts }) :
    (parse tokens).program.body = ((blockBody (maxNesting - 1)).run s).1 ∧
      (parse tokens).errors =
        (wrapperEnd.run ((blockBody (maxNesting - 1)).run s).2).2.errors.toList ∧
      (parse tokens).declarations =
        (wrapperEnd.run ((blockBody (maxNesting - 1)).run s).2).2.declared := by
  obtain ⟨program, hBody, hClass⟩ := exists_run_classForm hPre (maxNesting - 1)
    (show (State.initial tokens).rest = pre ++ ts from hTokens)
  have hRun : (Parser.program maxNesting).run (.initial tokens) =
      (classForm (maxNesting - 1 + 1)).run (.initial tokens) := by
    cases hPre with
    | @cons _ t _ _ hFirst _ =>
        have hCurrent : (State.initial tokens).current = t :=
          State.current_eq_of_rest_cons hTokens
        have hPublic : t.isWord "public" = true := Token.isWord_of_spells hFirst
        have hKind : t.kind ≠ .eof := by rw [hFirst.1]; decide
        show (if (State.initial tokens).current.kind = .eof then _ else
          if ((State.initial tokens).current.isWord "public" || _) = true then _ else _ :
            Parse Program).run (.initial tokens) = _
        rw [hCurrent, if_neg hKind, hPublic, Bool.true_or, if_pos rfl]
        rfl
  rw [hClass, ← hs] at hRun
  rw [← hs] at hBody
  show ((Parser.program maxNesting).run (.initial tokens)).1.body = _ ∧
    ((Parser.program maxNesting).run (.initial tokens)).2.errors.toList = _ ∧
    ((Parser.program maxNesting).run (.initial tokens)).2.declared = _
  rw [hRun]
  exact ⟨hBody, rfl, rfl⟩

/-- The two parses start side by side. -/
theorem State.Wraps.initial {tokens tokens' ts : List Token} (hClose : close.kind = .rBrace)
    (hClose' : close'.kind = .rBrace) (hTokens' : significant tokens' = ts)
    (hNotEnd : ∀ t ∈ ts, t.kind ≠ .eof) :
    State.Wraps { (Parser.openLevel.run (.initial tokens)).2 with rest := ts ++ [close, close'] }
      (.initial tokens') where
  rest := ⟨close, close', hClose, hClose', congrArg (· ++ _) hTokens'.symm⟩
  notEnd t ht := hNotEnd t (hTokens' ▸ ht)
  stop := kind_endMarker tokens
  stop' := kind_endMarker tokens'
  errors := rfl
  errors' := rfl
  declared := rfl
  overflowed := rfl

/-- The current token is a word of the class head only if it is the first token. -/
theorem initial_isWord_eq_false {tokens : List Token} {word : String}
    (h : ∀ t ∈ (significant tokens).head?, t.isWord word = false) :
    (State.initial tokens).current.isWord word = false := by
  cases hTokens : significant tokens with
  | nil =>
      have hCurrent : (State.initial tokens).current = endMarker tokens :=
        State.current_eq_stop hTokens
      simp [hCurrent, Token.isWord]
  | cons t ts =>
      have hCurrent : (State.initial tokens).current = t :=
        State.current_eq_of_rest_cons hTokens
      rw [hCurrent]
      exact h t (by simp [hTokens])

/-- In a class, statements that start with a word of the class head are not without errors. -/
theorem errors_blockBody_of_classWord {s s' : State} (hs : s.Wraps s') (room : Nat)
    (hTable : s.declared = .empty)
    (hFirst : (s'.current.isWord "public" || s'.current.isWord "class") = true) :
    ((blockBody room).run s).2.errors ≠ #[] := by
  have hSame : s.current = s'.current := by
    cases hs.current_cases with
    | inl hSame => exact hSame.2
    | inr hEnd => simp [Token.isWord, hEnd.2.2] at hFirst
  rw [← hSame, Bool.or_eq_true] at hFirst
  cases hFirst with
  | inl hPublic =>
      exact errors_blockBody_ne_empty room hPublic (by decide) (by decide)
        (by simp [hTable, Declarations.names, Declarations.empty]) hs.stop
  | inr hClass =>
      exact errors_blockBody_ne_empty room hClass (by decide) (by decide)
        (by simp [hTable, Declarations.names, Declarations.empty]) hs.stop

end Forms

end Parser

/-- **The two forms agree**: the tokens of `body` in a class and bare.  If the class is without
errors, then so is the bare form, with the same statements at the same places and the same
variables.  If the bare form is, and does not itself start like a class, then so is the class,
unless it nests too deep by the level that it takes. -/
theorem parse_wrapped_iff_bare {pre body : List Token} {close close' stop stop' : Token}
    (hPre : Grammar.Sequence Parser.wrapperHead pre) (hBody : ∀ t ∈ body, t.kind ≠ .eof)
    (hClose : close.kind = .rBrace) (hClose' : close'.kind = .rBrace)
    (hStop : stop.kind = .eof) (hStop' : stop'.kind = .eof) :
    let wrapped := parse (pre ++ body ++ [close, close', stop])
    let bare := parse (body ++ [stop'])
    (wrapped.errors = [] → bare.errors = [] ∧ bare.program.body = wrapped.program.body ∧
      bare.declarations = wrapped.declarations) ∧
    ((∀ t ∈ (body.filter (!·.isTrivia)).head?, t.isWord "public" = false ∧
        t.isWord "class" = false) → bare.errors = [] →
      (wrapped.errors = [] ∧ bare.program.body = wrapped.program.body ∧
        bare.declarations = wrapped.declarations) ∨
      ∃ e ∈ wrapped.errors, e.fault = .nestingTooDeep) := by
  intro wrapped bare
  have hSeen : Parser.significant (body ++ [stop']) = body.filter (!·.isTrivia) :=
    Parser.significant_append_eof hBody hStop'
  have hSeen' := Parser.significant_wrapped hPre hBody hClose hClose' hStop
  have hNotEnd : ∀ t ∈ body.filter (!·.isTrivia), t.kind ≠ .eof := fun t ht =>
    hBody t (List.mem_filter.mp ht).1
  obtain ⟨s, hs⟩ : ∃ s : Parser.State, s =
      { (Parser.openLevel.run (.initial (pre ++ body ++ [close, close', stop]))).2 with
        rest := body.filter (!·.isTrivia) ++ [close, close'] } := ⟨_, rfl⟩
  have hWraps : s.Wraps (.initial (body ++ [stop'])) := by
    rw [hs]
    exact .initial hClose hClose' hSeen hNotEnd
  obtain ⟨hStatements, hErrors, hDeclared⟩ := Parser.parse_wrapped hPre hSeen' hs
  by_cases hFirst : ((Parser.State.initial (body ++ [stop'])).current.isWord "public" ||
      (Parser.State.initial (body ++ [stop'])).current.isWord "class") = true
  · have hFaulty : wrapped.errors ≠ [] := by
      have hTable : s.declared = .empty := by rw [hs]; rfl
      have hBody := Parser.errors_blockBody_of_classWord hWraps (maxNesting - 1) hTable hFirst
      have hEnd := (Parser.framed_wrapperEnd _).errors_ne_empty hBody
      show (parse (pre ++ body ++ [close, close', stop])).errors ≠ []
      rw [hErrors]
      exact mt Array.toList_eq_nil_iff.mp hEnd
    refine ⟨fun hClean => absurd hClean hFaulty, fun hHead => ?_⟩
    rw [← hSeen] at hHead
    rw [Parser.initial_isWord_eq_false fun t ht => (hHead t ht).1,
      Parser.initial_isWord_eq_false fun t ht => (hHead t ht).2] at hFirst
    cases hFirst
  · have hForms : Parser.FormsAgree ((Parser.blockBody (maxNesting - 1)).run s)
        ((Parser.scriptBody maxNesting).run (.initial (body ++ [stop']))) :=
      Parser.formsAgree hWraps (maxNesting - 1)
    simp only [wrapped, bare, hStatements, hErrors, hDeclared,
      Parser.parse_bare (Bool.eq_false_iff.mpr hFirst), Array.toList_eq_nil_iff]
    cases hForms with
    | clean hClean hClean' hSame hTable =>
        exact ⟨fun _ => ⟨hClean', hSame, hTable⟩, fun _ _ => .inl ⟨hClean, hSame, hTable⟩⟩
    | faulty hFaulty hDeep =>
        refine ⟨fun hClean => absurd hClean hFaulty, fun _ hClean' => .inr ?_⟩
        obtain ⟨e, he, hFault⟩ := hDeep hClean'
        exact ⟨e, Array.mem_toList_iff.mpr he, hFault⟩

/-- The head of a class `N` whose entry procedure has the parameter `a`. -/
def smallHead : List Token :=
  [⟨.keyword, "public", .start⟩, ⟨.keyword, "class", .start⟩, ⟨.identifier, "N", .start⟩,
    ⟨.lBrace, "\x7b", .start⟩, ⟨.keyword, "public", .start⟩, ⟨.keyword, "static", .start⟩,
    ⟨.keyword, "void", .start⟩, ⟨.keyword, "main", .start⟩, ⟨.lParen, "(", .start⟩,
    ⟨.keyword, "String", .start⟩, ⟨.lBracket, "[", .start⟩, ⟨.rBracket, "]", .start⟩,
    ⟨.identifier, "a", .start⟩, ⟨.rParen, ")", .start⟩, ⟨.lBrace, "\x7b", .start⟩]

theorem sequence_smallHead : Grammar.Sequence Parser.wrapperHead smallHead :=
  .cons ⟨rfl, rfl⟩ (.cons ⟨rfl, rfl⟩ (.cons rfl (.cons rfl (.cons ⟨rfl, rfl⟩ (.cons ⟨rfl, rfl⟩
    (.cons ⟨rfl, rfl⟩ (.cons ⟨rfl, rfl⟩ (.cons rfl (.cons ⟨rfl, rfl⟩ (.cons rfl (.cons rfl
      (.cons rfl (.cons rfl (.cons rfl .nil))))))))))))))

/-- The tokens of a loop, with a comment among them and without an end marker. -/
def countingTokens : List Token :=
  (lex "int x = 1; /* up */ while (x < 3) \x7b x += 1; \x7d").tokens.dropLast

theorem parse_wrapped_countingTokens :
    let wrapped := parse (smallHead ++ countingTokens ++
      [⟨.rBrace, "\x7d", .start⟩, ⟨.rBrace, "\x7d", .start⟩, ⟨.eof, "", .start⟩])
    let bare := parse (countingTokens ++ [⟨.eof, "", .start⟩])
    wrapped.errors = [] ∧ bare.errors = [] ∧ bare.program.body = wrapped.program.body ∧
      bare.declarations = wrapped.declarations := by
  intro wrapped bare
  have hClean : wrapped.errors = [] := by decide +kernel
  have hBody : ∀ t ∈ countingTokens, t.kind ≠ .eof := by decide +kernel
  exact ⟨hClean, (parse_wrapped_iff_bare sequence_smallHead hBody rfl rfl rfl rfl).1 hClean⟩

end Braceless
