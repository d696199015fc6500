import Braceless.Proofs.Grammar
import Braceless.Proofs.Parser.Frame

/-!
# Actions that read what they return

`Sound p Q` says of an action that whatever it does is a frame, and if no error has been
reported when it is done, then `Q` relates the tokens before it, the tokens after it and
what it returns.  It is closed under sequencing, so the proof for a production follows
its text.

## Main definitions

* `State.Ready`: a state in which well spelled tokens are still to be read.
* `Sound`: the predicate on actions.
* `Spans`: a grammar rule as a relation of tokens before and after.

## Main results

* `Sound.bind`, `Sound.nested`: sequencing and the nesting limit.
* `sound_eat`, `sound_expect`: the primitives read one token or report an error.
-/

namespace Braceless

namespace Parser

open Grammar

/-! ## Sound actions -/

/-- A state of a parse of well spelled tokens. -/
structure State.Ready (s : State) : Prop where
  stop : s.stop.kind = .eof
  spelled : ∀ t ∈ s.rest, t.WellSpelled
  accounted : s.Accounted

theorem Frame.ready {s s' : State} (h : Frame s s') (hs : s.Ready) : s'.Ready :=
  ⟨by rw [h.stop]; exact hs.stop, fun t ht => hs.spelled t (h.rest.subset ht),
    h.accounted hs.accounted⟩

/-- If no error has been reported when `p` is done, then `Q` holds of the tokens
before it, the tokens after it and its result. -/
structure Sound {α : Type} (p : Parse α) (Q : List Token → List Token → α → Prop) :
    Prop where
  frame : ∀ s, Frame s (p.run s).2
  holds : ∀ s, s.Ready → (p.run s).2.errors = #[] →
    Q s.rest (p.run s).2.rest (p.run s).1

/-- The tokens between `before` and `after` follow a rule of the grammar. -/
def Spans {α : Type} (rule : List Token → α → Nat → Prop)
    (before after : List Token) (a : α) : Prop :=
  ∃ ts n, before = ts ++ after ∧ rule ts a n

/-- There is a result, and the relation holds of it. -/
def Gives {α : Type} (Q : List Token → List Token → α → Prop)
    (before after : List Token) : Option α → Prop
  | none => False
  | some a => Q before after a

/-- The relation holds where the given word comes first. -/
def Begins {α : Type} (word : String) (Q : List Token → List Token → α → Prop)
    (before after : List Token) (a : α) : Prop :=
  ∀ t ts, before = t :: ts → t.Spells word → Q before after a

namespace Sound

variable {α β : Type} {p : Parse α} {f : α → Parse β}
variable {Q R : List Token → List Token → α → Prop}
variable {P : List Token → List Token → β → Prop}

theorem mono (h : Sound p R) (hQ : ∀ before after a, R before after a → Q before after a) :
    Sound p Q :=
  ⟨h.frame, fun s hs hErrors => hQ _ _ _ (h.holds s hs hErrors)⟩

/-- Where an earlier action has only looked ahead, it need not be mentioned. -/
theorem unmoved {C : List Token → Prop} (h : Sound p Q) :
    Sound p fun between after a =>
      ∀ before, before = between ∧ C before → Q before after a := by
  refine h.mono ?_
  rintro _ after a hQ before ⟨rfl, _⟩
  exact hQ

theorem pure {a : α} (h : ∀ ts, Q ts ts a) : Sound (Pure.pure a) Q :=
  ⟨fun s => Frame.refl s, fun s _ _ => h s.rest⟩

/-- What the first action leaves is what the second one starts with. -/
theorem bind (hp : Sound p R)
    (hf : ∀ a, Sound (f a) fun between after b =>
      ∀ before, R before between a → P before after b) : Sound (p >>= f) P where
  frame s := (hp.frame s).trans ((hf _).frame _)
  holds s hs hErrors := by
    have hNext := (hf (p.run s).1).frame (p.run s).2
    have hFirst := hp.holds s hs (hNext.errors_eq_empty hErrors)
    exact (hf (p.run s).1).holds (p.run s).2 ((hp.frame s).ready hs) hErrors s.rest hFirst

theorem discard {T : List Token → List Token → Prop} (hp : Sound p R)
    (hT : ∀ before after a, R before after a → T before after) :
    Sound (Functor.discard p) fun before after _ => T before after :=
  ⟨hp.frame, fun s hs hErrors => hT _ _ _ (hp.holds s hs hErrors)⟩

/-- The state may be looked at. -/
theorem get {g : State → Parse β} (hg : ∀ s, Sound (g s) P) :
    Sound (MonadState.get >>= g) P :=
  ⟨fun s => (hg s).frame s, fun s hs hErrors => (hg s).holds s hs hErrors⟩

/-- A production beyond the nesting limit has been reported, so what takes its place
does not matter. -/
theorem nested {room : Nat} {inside : (inner : Nat) → inner < room → Parse α}
    {outside : Parse α} (hInside : ∀ inner h, Sound (inside inner h) Q)
    (hOutside : ∀ s, Frame s (outside.run s).2) :
    Sound (Parser.nested room inside outside) Q := by
  cases room with
  | zero =>
      have hFrame : ∀ s, Frame s ((Parser.nested 0 inside outside).run s).2 := fun s =>
        (Frame.reportOverflow s).trans (hOutside _)
      refine ⟨hFrame, fun s hs hErrors => ?_⟩
      have hOver := (hOutside _).overrun (Frame.overrun_reportOverflow hs.accounted)
      obtain ⟨e, he, _⟩ := hOver
      have hMem : e ∈ ((Parser.nested 0 inside outside).run s).2.errors := he
      rw [hErrors] at hMem
      exact absurd hMem (Array.not_mem_empty e)
  | succ inner =>
      have hSound := hInside inner (Nat.lt_succ_self inner)
      have hOpen := Frame.openLevel
      refine ⟨fun s => ((hOpen s).trans (hSound.frame _)).trans (Frame.closeLevel _), ?_⟩
      intro s hs hErrors
      exact hSound.holds _ ((hOpen s).ready hs) hErrors

end Sound

/-! ## Primitives -/

/-- The token `t` is the current one where the tokens `ts` are still to be read: the
first of them, or the end marker if there is none. -/
def IsHead (ts : List Token) (t : Token) : Prop :=
  (ts = [] ∧ t.kind = .eof) ∨ ∃ us, ts = t :: us ∧ t.WellSpelled

theorem IsHead.eq_cons {ts : List Token} {t : Token} (h : IsHead ts t)
    (hKind : t.kind ≠ .eof) : ∃ us, ts = t :: us ∧ t.WellSpelled := by
  rcases h with ⟨_, hEnd⟩ | hCons
  · exact absurd hEnd hKind
  · exact hCons

/-- At the end marker nothing is left to read. -/
theorem IsHead.eq_nil {ts : List Token} {t : Token} (h : IsHead ts t)
    (hEnd : t.kind = .eof) : ts = [] := by
  rcases h with ⟨hNil, _⟩ | ⟨_, _, hSpelled⟩
  · exact hNil
  · exact absurd hEnd hSpelled.notEnd

/-- Where tokens are left, the current one is the first of them. -/
theorem IsHead.eq_of_cons {ts us : List Token} {t u : Token} (h : IsHead ts t)
    (hCons : ts = u :: us) : u = t := by
  rcases h with ⟨hNil, _⟩ | ⟨vs, hVs, _⟩
  · simp [hCons] at hNil
  · exact (List.cons.inj (hCons.symm.trans hVs)).1

theorem State.Ready.isHead {s : State} (hs : s.Ready) : IsHead s.rest s.current := by
  cases hRest : s.rest with
  | nil => exact .inl ⟨rfl, by rw [State.current_eq_stop hRest]; exact hs.stop⟩
  | cons t ts =>
      have hCurrent := State.current_eq_of_rest_cons hRest
      refine .inr ⟨ts, by rw [hCurrent], ?_⟩
      rw [hCurrent]
      exact hs.spelled t (by simp [hRest])

/-- A word is the first of the tokens to be read. -/
theorem State.Ready.rest_eq_of_isWord {s : State} (hs : s.Ready) {word : String}
    (hWord : s.current.isWord word = true) :
    ∃ t ts, s.rest = t :: ts ∧ t.Spells word := by
  have hKind : s.current.kind ≠ .eof := by
    intro hEnd
    simp [Token.isWord, hEnd] at hWord
  obtain ⟨ts, hRest, hSpelled⟩ := hs.isHead.eq_cons hKind
  exact ⟨s.current, ts, hRest, hSpelled.spells hWord⟩

theorem sound_current : Sound current fun before after t =>
    before = after ∧ IsHead before t :=
  ⟨fun s => Frame.refl s, fun _ hs _ => ⟨rfl, hs.isHead⟩⟩

theorem sound_advance : Sound advance fun before after _ => after = before.tail :=
  ⟨Frame.advance, fun _ _ _ => rfl⟩

theorem sound_isAt {k : Token.Kind} (hk : k ≠ .eof) :
    Sound (isAt k) fun before after b => before = after ∧
      (b = true → ∃ t ts, before = t :: ts ∧ t.kind = k ∧ t.WellSpelled) where
  frame s := Frame.refl s
  holds s hs _ := by
    refine ⟨rfl, fun hAt => ?_⟩
    have hKind : s.current.kind = k := beq_iff_eq.mp hAt
    obtain ⟨ts, hRest, hSpelled⟩ := hs.isHead.eq_cons (hKind ▸ hk)
    exact ⟨s.current, ts, hRest, hKind, hSpelled⟩

theorem sound_isAtEnd : Sound (isAt .eof) fun before after b =>
    before = after ∧ (b = true → before = []) :=
  ⟨fun s => Frame.refl s, fun _ hs _ =>
    ⟨rfl, fun hAt => hs.isHead.eq_nil (beq_iff_eq.mp hAt)⟩⟩

theorem sound_isAtWord (word : String) :
    Sound (isAtWord word) fun before after b => before = after ∧
      (b = true → ∃ t ts, before = t :: ts ∧ t.Spells word) :=
  ⟨fun s => Frame.refl s, fun _ hs _ => ⟨rfl, hs.rest_eq_of_isWord⟩⟩

theorem sound_typeHere : Sound typeHere fun before after o => before = after ∧
    ∀ dataType, o = some dataType →
      ∃ t ts, before = t :: ts ∧ t.Spells dataType.keyword where
  frame s := Frame.refl s
  holds s hs _ := by
    refine ⟨rfl, fun dataType hType => ?_⟩
    change (if s.current.kind = .keyword then _ else _) = _ at hType
    split at hType
    · next hKind =>
        have hText : dataType.keyword = s.current.text := by
          simpa using List.find?_some hType
        refine hs.rest_eq_of_isWord ?_
        simp [Token.isWord, hKind, hText]
    · cases hType

theorem frame_report (fault : SyntaxFault) (s : State) :
    Frame s ((report fault).run s).2 :=
  Frame.report s _

/-- A report is an error. -/
theorem sound_report (fault : SyntaxFault) {Q : List Token → List Token → Unit → Prop} :
    Sound (report fault) Q where
  frame := frame_report fault
  holds s _ hErrors := by
    change s.errors.push _ = #[] at hErrors
    simp at hErrors

/-- After a report nothing is asked of what follows. -/
theorem sound_report_bind {α : Type} (fault : SyntaxFault) {f : Unit → Parse α}
    {Q : List Token → List Token → α → Prop} (hf : ∀ s, Frame s ((f ()).run s).2) :
    Sound (report fault >>= f) Q :=
  (sound_report fault (Q := fun _ _ _ => False)).bind fun _ => ⟨hf, fun _ _ _ _ h => h.elim⟩

theorem sound_eat {k : Token.Kind} (hk : k ≠ .eof) :
    Sound (eat k) fun before after b =>
      (b = true → ∃ t, before = t :: after ∧ t.kind = k) ∧
        (b = false → before = after) := by
  unfold eat
  refine (sound_isAt hk).bind fun b => ?_
  cases b with
  | false => exact .pure fun ts before h => ⟨nofun, fun _ => h.1⟩
  | true =>
      refine sound_advance.bind fun _ => .pure ?_
      rintro _ between rfl before ⟨rfl, hAt⟩
      obtain ⟨t, ts, rfl, hKind, _⟩ := hAt rfl
      exact ⟨fun _ => ⟨t, rfl, hKind⟩, nofun⟩

theorem sound_eatWord (word : String) :
    Sound (eatWord word) fun before after b =>
      (b = true → ∃ t, before = t :: after ∧ t.Spells word) ∧
        (b = false → before = after) := by
  unfold eatWord
  refine (sound_isAtWord word).bind fun b => ?_
  cases b with
  | false => exact .pure fun ts before h => ⟨nofun, fun _ => h.1⟩
  | true =>
      refine sound_advance.bind fun _ => .pure ?_
      rintro _ between rfl before ⟨rfl, hAt⟩
      obtain ⟨t, ts, rfl, hWord⟩ := hAt rfl
      exact ⟨fun _ => ⟨t, rfl, hWord⟩, nofun⟩

theorem sound_expectWord (word what : String) :
    Sound (expectWord word what) fun before after _ =>
      ∃ t, before = t :: after ∧ t.Spells word := by
  unfold expectWord
  refine (sound_eatWord word).bind fun b => ?_
  cases b with
  | false => exact sound_report _
  | true => exact .pure fun ts before h => h.1 rfl

theorem sound_expect {k : Token.Kind} (what : String) (hk : k ≠ .eof) :
    Sound (expect k what) (Gives fun before after t =>
      before = t :: after ∧ t.kind = k ∧ t.WellSpelled) := by
  unfold expect
  refine sound_current.bind fun t => ?_
  split
  · next hKind =>
      refine sound_advance.bind fun _ => .pure ?_
      rintro _ between rfl before ⟨rfl, hHead⟩
      obtain ⟨ts, rfl, hSpelled⟩ := hHead.eq_cons (hKind ▸ hk)
      exact ⟨rfl, hKind, hSpelled⟩
  · exact sound_report_bind _ Frame.refl

/-- A required token whose text does not matter. -/
theorem sound_discard_expect {k : Token.Kind} (what : String) (hk : k ≠ .eof) :
    Sound (Functor.discard (expect k what)) fun before after _ =>
      ∃ t, before = t :: after ∧ t.kind = k :=
  (sound_expect what hk).discard fun
    | _, _, some t, ⟨hBefore, hKind, _⟩ => ⟨t, hBefore, hKind⟩

theorem sound_checkDeclared (ident : Token) :
    Sound (checkDeclared ident) fun before after _ => before = after where
  frame s := Frame.checkDeclared s ident
  holds s _ _ := by
    rw [run_checkDeclared]
    split <;> rfl

theorem sound_declare (ident : Token) (dataType : DataType) :
    Sound (declare ident dataType) fun before after _ => before = after where
  frame s := Frame.declare s ident dataType
  holds s _ _ := by
    rw [run_declare]
    split <;> rfl

theorem sound_placeholder : Sound placeholder fun before after _ => before = after :=
  sound_current.bind fun _ => .pure fun _ _ h => h.1

end Parser

end Braceless
