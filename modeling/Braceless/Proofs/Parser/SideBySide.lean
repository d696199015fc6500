import Braceless.Proofs.Parser.Progress
import Braceless.Proofs.Relocation

/-!
# Two parses side by side

Two parses of different token lists can be followed side by side as long as they see alike
tokens.  A `Coupling` says what relates their states, and what each primitive action does to
related states.  They may also come to the end of what they share: the first one then sees a
closing brace where the second one has read all.  From there on, and wherever only the first
one comes upon the nesting limit, they part, and what they have reported by then says why.

`Couples` is the statement about a pair of actions that this makes possible: run on related
states, they either part or leave related states and alike results.  It is closed under
sequencing, so the proof for a production follows its text.

## Main definitions

* `Token.Alike`: two tokens that are the same at the places of interest.
* `Coupling`: what relates the states of two parses.
* `Couples`: the predicate on pairs of actions.

## Main results

* `Couples.bind`, `Couples.nested`, `Couples.repeatUntil`: sequencing, the nesting limit and
  repetition.
* `couples_expect`, `couples_closingBrace`, `couples_declare`: the primitives.
-/

namespace Braceless

namespace Parser

/-! ## Couplings -/

/-- Two tokens of the same kind and text whose positions have the same place. -/
def Alike (place : Position → Position) (t t' : Token) : Prop :=
  t.mapPos place = t'.mapPos place

theorem Alike.kind {place : Position → Position} {t t' : Token} (h : Alike place t t') :
    t.kind = t'.kind :=
  ((Token.mapPos_eq_iff place).mp h).1

theorem Alike.text {place : Position → Position} {t t' : Token} (h : Alike place t t') :
    t.text = t'.text :=
  ((Token.mapPos_eq_iff place).mp h).2.1

theorem Alike.pos {place : Position → Position} {t t' : Token} (h : Alike place t t') :
    place t.pos = place t'.pos :=
  ((Token.mapPos_eq_iff place).mp h).2.2

/-- How two parses run side by side.  Their results are compared at the places that `place`
gives to positions. -/
structure Coupling where
  /-- By how much the second parse has more room. -/
  extra : Nat
  place : Position → Position
  /-- The two states correspond. -/
  Abreast : State → State → Prop
  /-- The two parses have parted. -/
  Parted : State → State → Prop
  /-- The two tokens stand where what the parses share ends. -/
  Ends : Token → Token → Prop
  ends : ∀ {t t'}, Ends t t' → t.kind = .rBrace ∧ t'.kind = .eof ∧ extra ≠ 0
  parted : ∀ {s s' u u'}, Parted s s' → Frame s u → Frame s' u' → Parted u u'
  meet : ∀ {s s'}, Abreast s s' →
    Alike place s.current s'.current ∨ Ends s.current s'.current
  stop : ∀ {s s'}, Abreast s s' → s.stop.kind = .eof ∧ s'.stop.kind = .eof
  names : ∀ {s s'}, Abreast s s' → s.declared.names = s'.declared.names
  advance : ∀ {s s'}, Abreast s s' → Alike place s.current s'.current →
    Abreast (Parser.advance.run s).2 (Parser.advance.run s').2
  insert : ∀ {s s' t t'} dataType, Abreast s s' → Alike place t t' →
    Abreast { s with declared := s.declared.insert ⟨t.text, dataType, t.pos⟩ }
      { s' with declared := s'.declared.insert ⟨t'.text, dataType, t'.pos⟩ }
  report : ∀ {s s' t t'} fault, Abreast s s' → Alike place t t' →
    Abreast (s.report (.ofToken fault t)) (s'.report (.ofToken fault t')) ∨
      Parted (s.report (.ofToken fault t)) (s'.report (.ofToken fault t'))
  /-- Where what they share ends, a report on both sides parts them. -/
  reportEnds : ∀ {s s'} e e', Abreast s s' → Ends s.current s'.current →
    Parted (s.report e) (s'.report e')
  /-- So does a brace that only the first parse can read. -/
  closeEnds : ∀ {s s'} e', Abreast s s' → Ends s.current s'.current →
    Parted (Parser.advance.run s).2 (s'.report e')
  openLevel : ∀ {s s'}, Abreast s s' →
    Abreast (Parser.openLevel.run s).2 (Parser.openLevel.run s').2
  closeLevel : ∀ {s s'}, Abreast s s' →
    Abreast (Parser.closeLevel.run s).2 (Parser.closeLevel.run s').2
  /-- With the same room, both come upon the nesting limit. -/
  overflow : ∀ {s s'}, extra = 0 → Abreast s s' →
    Abreast (reportOverflow.run s).2 (reportOverflow.run s').2
  skip : ∀ {s s'} (after : List Token → List Token), extra = 0 → Abreast s s' →
    (∀ ts, after (ts.map (Token.mapPos place)) = (after ts).map (Token.mapPos place)) →
      Abreast { s with rest := after s.rest } { s' with rest := after s'.rest }
  /-- With more room for the second, the first one comes upon it alone. -/
  overflowAlone : ∀ {s s' u'}, extra ≠ 0 → Abreast s s' → Frame s' u' →
    Parted (reportOverflow.run s).2 u'

/-- No condition on the current tokens. -/
def Anywhere (_ _ : Token) : Prop :=
  True

/-- Where a result is missing, the current tokens are alike. -/
def AlikeIfNone {α : Type} (c : Coupling) (o : Option α) (t t' : Token) : Prop :=
  o = none → Alike c.place t t'

/-- Run on corresponding states whose current tokens satisfy `K`, the two actions part, or
they leave corresponding states, results that look alike, and current tokens that satisfy
`T`. -/
structure Couples {α β : Type} (c : Coupling) (K : Token → Token → Prop) (p p' : Parse α)
    (view : α → β) (T : α → Token → Token → Prop) : Prop where
  frame : Framed p
  frame' : Framed p'
  holds : ∀ s s', c.Abreast s s' → K s.current s'.current →
    c.Parted (p.run s).2 (p'.run s').2 ∨
      c.Abreast (p.run s).2 (p'.run s').2 ∧ view (p.run s).1 = view (p'.run s').1 ∧
        T (p.run s).1 (p.run s).2.current (p'.run s').2.current

namespace Couples

variable {α β γ δ : Type} {c : Coupling} {K : Token → Token → Prop}
variable {p p' : Parse α} {f f' : α → Parse γ} {view : α → β} {look : γ → δ}
variable {T : α → Token → Token → Prop} {U : γ → Token → Token → Prop}

/-! ## Sequencing -/

theorem pure {a a' : α} (h : view a = view a') (hT : ∀ t t', K t t' → T a t t') :
    Couples c K (Pure.pure a) (Pure.pure a') view T :=
  ⟨framed_pure a, framed_pure a', fun _ _ hs hK => .inr ⟨hs, h, hT _ _ hK⟩⟩

/-- A result with nothing more to say about the current tokens. -/
theorem done {a a' : α} (h : view a = view a') :
    Couples c K (Pure.pure a) (Pure.pure a') view fun _ => Anywhere :=
  .pure h fun _ _ _ => trivial

/-- An optional result that is there. -/
theorem given {a a' : α} (h : view a = view a') :
    Couples c K (Pure.pure (some a)) (Pure.pure (some a')) (Option.map view) (AlikeIfNone c) := by
  refine .pure (congrArg some h) ?_
  intro _ _ _ hNone
  cases hNone

/-- An optional result that is missing. -/
theorem missing (hK : ∀ t t', K t t' → Alike c.place t t') :
    Couples c K (Pure.pure none) (Pure.pure none) (Option.map view) (AlikeIfNone c) :=
  .pure rfl fun t t' h _ => hK t t' h

theorem weaken {L : Token → Token → Prop} (h : Couples c L p p' view T)
    (hK : ∀ t t', K t t' → L t t') : Couples c K p p' view T :=
  ⟨h.frame, h.frame', fun s s' hs hMeet => h.holds s s' hs (hK _ _ hMeet)⟩

/-- What is known of the current tokens need not be used. -/
theorem forget (h : Couples c K p p' view T) : Couples c K p p' view fun _ => Anywhere where
  frame := h.frame
  frame' := h.frame'
  holds s s' hs hK := by
    cases h.holds s s' hs hK with
    | inl hParted => exact .inl hParted
    | inr hNext => exact .inr ⟨hNext.1, hNext.2.1, trivial⟩

/-- Once the first actions have parted, whatever follows them keeps the parses apart. -/
theorem bind (hp : Couples c K p p' view T)
    (hf : ∀ a a', view a = view a' → Couples c (T a) (f a) (f' a') look U) :
    Couples c K (p >>= f) (p' >>= f') look U where
  frame := hp.frame.bind fun a => (hf a a rfl).frame
  frame' := hp.frame'.bind fun a => (hf a a rfl).frame'
  holds s s' hs hK := by
    have hFrame := (hf (p.run s).1 _ rfl).frame (p.run s).2
    have hFrame' := (hf (p'.run s').1 _ rfl).frame' (p'.run s').2
    cases hp.holds s s' hs hK with
    | inl hParted => exact .inl (c.parted hParted hFrame hFrame')
    | inr hNext =>
        have hRest := hf (p.run s).1 (p'.run s').1 hNext.2.1
        exact hRest.holds (p.run s).2 (p'.run s').2 hNext.1 hNext.2.2

/-- Two optional results that look alike are both there or both missing. -/
theorem bindOption {p p' : Parse (Option α)} {f f' : Option α → Parse γ}
    {T : Option α → Token → Token → Prop} (hp : Couples c K p p' (Option.map view) T)
    (hNone : Couples c (T none) (f none) (f' none) look U)
    (hSome : ∀ a a', view a = view a' →
      Couples c (T (some a)) (f (some a)) (f' (some a')) look U) :
    Couples c K (p >>= f) (p' >>= f') look U := by
  refine hp.bind fun o o' h => ?_
  cases o with
  | none =>
      obtain rfl : o' = none := Option.map_eq_none_iff.mp h.symm
      exact hNone
  | some a =>
      obtain ⟨a', rfl, ha⟩ := Option.map_eq_some_iff.mp h.symm
      exact hSome a a' ha.symm

/-- A result that does not matter. -/
theorem discard (hp : Couples c K p p' view T) :
    Couples c K (Functor.discard p) (Functor.discard p') id fun _ => Anywhere where
  frame := hp.frame
  frame' := hp.frame'
  holds s s' hs hK := by
    cases hp.holds s s' hs hK with
    | inl hParted => exact .inl hParted
    | inr hNext => exact .inr ⟨hNext.1, rfl, trivial⟩

/-! ## Looking ahead -/

/-- Where the current tokens are alike, both actions go on with alike tokens. -/
theorem here {f f' : Token → Parse γ}
    (hf : ∀ t t', Alike c.place t t' → Couples c (Alike c.place) (f t) (f' t') look U) :
    Couples c (Alike c.place) (current >>= f) (current >>= f') look U where
  frame := Framed.bind Frame.refl fun t => (hf t t rfl).frame
  frame' := Framed.bind Frame.refl fun t => (hf t t rfl).frame'
  holds s s' hs hK := (hf s.current s'.current hK).holds s s' hs hK

/-- The current tokens are alike, or they are where what the parses share ends. -/
theorem current {f f' : Token → Parse γ}
    (hf : ∀ t t', Alike c.place t t' → Couples c (Alike c.place) (f t) (f' t') look U)
    (hEnds : ∀ t t', c.Ends t t' → Couples c c.Ends (f t) (f' t') look U) :
    Couples c K (Parser.current >>= f) (Parser.current >>= f') look U where
  frame := (here hf).frame
  frame' := (here hf).frame'
  holds s s' hs _ := by
    cases c.meet hs with
    | inl hAlike => exact (here hf).holds s s' hs hAlike
    | inr hEnd => exact (hEnds s.current s'.current hEnd).holds s s' hs hEnd

/-- A look at the current token that sees nothing where what the parses share ends.  Where it
sees something, the current tokens are alike. -/
theorem looking [DecidableEq γ] (see : Token → γ) (nothing : γ) {look : Parse γ}
    {f f' : γ → Parse α} (hLook : ∀ s, look.run s = (see s.current, s))
    (hSee : ∀ t t', Alike c.place t t' → see t = see t')
    (hEnds : ∀ t t', c.Ends t t' → see t = nothing ∧ see t' = nothing)
    (hSome : ∀ g, g ≠ nothing → Couples c (Alike c.place) (f g) (f' g) view T)
    (hNothing : Couples c K (f nothing) (f' nothing) view T) :
    Couples c K (look >>= f) (look >>= f') view T := by
  have hFramed : ∀ g, Framed (f g) ∧ Framed (f' g) := by
    intro g
    by_cases hg : g = nothing
    · rw [hg]
      exact ⟨hNothing.frame, hNothing.frame'⟩
    · exact ⟨(hSome g hg).frame, (hSome g hg).frame'⟩
  have hUnmoved : Framed look := by
    intro s
    rw [hLook]
    exact Frame.refl s
  refine ⟨hUnmoved.bind fun g => (hFramed g).1, hUnmoved.bind fun g => (hFramed g).2, ?_⟩
  intro s s' hs hK
  have hSame : see s.current = see s'.current := by
    cases c.meet hs with
    | inl hAlike => exact hSee _ _ hAlike
    | inr hEnd => rw [(hEnds _ _ hEnd).1, (hEnds _ _ hEnd).2]
  have hRun : (look >>= f).run s = (f (see s.current)).run s := by
    rw [StateT.run_bind, hLook]
    rfl
  have hRun' : (look >>= f').run s' = (f' (see s.current)).run s' := by
    rw [StateT.run_bind, hLook, hSame]
    rfl
  rw [hRun, hRun']
  by_cases hg : see s.current = nothing
  · rw [hg]
    exact hNothing.holds s s' hs hK
  · have hAlike : Alike c.place s.current s'.current := by
      cases c.meet hs with
      | inl hAlike => exact hAlike
      | inr hEnd => exact absurd (hEnds _ _ hEnd).1 hg
    exact (hSome _ hg).holds s s' hs hAlike

/-- A choice by the kind of the current token. -/
theorem isAt {k : Token.Kind} {q q' : Parse α} (hBrace : k ≠ .rBrace) (hEof : k ≠ .eof)
    (hp : Couples c (Alike c.place) p p' view T) (hq : Couples c K q q' view T) :
    Couples c K (Parser.isAt k >>= fun b => if b = true then p else q)
      (Parser.isAt k >>= fun b => if b = true then p' else q') view T := by
  refine looking (fun t => t.kind == k) false (fun _ => rfl) ?_ ?_ ?_ hq
  · intro t t' h
    rw [h.kind]
  · intro t t' h
    obtain ⟨hKind, hKind', _⟩ := c.ends h
    simp [hKind, hKind', hBrace.symm, hEof.symm]
  · intro g hg
    have hTrue : g = true := by simpa using hg
    subst hTrue
    exact hp

/-- A choice by the current word. -/
theorem isAtWord {word : String} {q q' : Parse α}
    (hp : Couples c (Alike c.place) p p' view T) (hq : Couples c K q q' view T) :
    Couples c K (Parser.isAtWord word >>= fun b => if b = true then p else q)
      (Parser.isAtWord word >>= fun b => if b = true then p' else q') view T := by
  refine looking (fun t => t.isWord word) false (fun _ => rfl) ?_ ?_ ?_ hq
  · intro t t' h
    simp only [Token.isWord, h.kind, h.text]
  · intro t t' h
    obtain ⟨hKind, hKind', _⟩ := c.ends h
    simp [Token.isWord, hKind, hKind']
  · intro g hg
    have hTrue : g = true := by simpa using hg
    subst hTrue
    exact hp

/-- A choice by the type whose keyword is the current token. -/
theorem typeHere {f f' : Option DataType → Parse α}
    (hf : ∀ dataType, Couples c (Alike c.place) (f (some dataType)) (f' (some dataType)) view T)
    (hNone : Couples c K (f none) (f' none) view T) :
    Couples c K (Parser.typeHere >>= f) (Parser.typeHere >>= f') view T := by
  refine looking (fun t => if t.kind = .keyword then DataType.ofKeyword? t.text else none) none
    (fun _ => rfl) ?_ ?_ ?_ hNone
  · intro t t' h
    simp only [h.kind, h.text]
  · intro t t' h
    obtain ⟨hKind, hKind', _⟩ := c.ends h
    simp [hKind, hKind']
  · intro g hg
    cases g with
    | none => exact absurd rfl hg
    | some dataType => exact hf dataType

end Couples

/-! ## Primitives -/

section Primitives

variable {c : Coupling} {K : Token → Token → Prop}

theorem couples_advance : Couples c (Alike c.place) advance advance id fun _ => Anywhere :=
  ⟨Frame.advance, Frame.advance, fun _ _ hs hAlike => .inr ⟨c.advance hs hAlike, rfl, trivial⟩⟩

/-- A report at tokens that have been read. -/
theorem couples_reportAt (fault : SyntaxFault) {t t' : Token} (h : Alike c.place t t') :
    Couples c K (reportAt fault t) (reportAt fault t') id fun _ => K where
  frame s := Frame.report s _
  frame' s := Frame.report s _
  holds s s' hs hK := by
    cases c.report fault hs h with
    | inl hReported => exact .inr ⟨hReported, rfl, hK⟩
    | inr hParted => exact .inl hParted

/-- After a report at the current tokens these are alike, or the parses have parted. -/
theorem couples_report (fault : SyntaxFault) :
    Couples c K (report fault) (report fault) id fun _ => Alike c.place := by
  refine .current (fun t t' h => couples_reportAt fault h) fun t t' _ => ?_
  refine ⟨fun s => Frame.report s _, fun s => Frame.report s _, fun s s' hs hEnd => ?_⟩
  exact .inl (c.reportEnds _ _ hs hEnd)

theorem couples_checkDeclared {t t' : Token} (h : Alike c.place t t') :
    Couples c K (checkDeclared t) (checkDeclared t') id fun _ => K where
  frame s := Frame.checkDeclared s t
  frame' s := Frame.checkDeclared s t'
  holds s s' hs hK := by
    rw [run_checkDeclared, run_checkDeclared, ← h.text, ← c.names hs]
    by_cases hName : t.text ∈ s.declared.names
    · rw [if_pos hName, if_pos hName]
      exact .inr ⟨hs, rfl, hK⟩
    · rw [if_neg hName, if_neg hName]
      exact (couples_reportAt (.undeclared t.text) h).holds s s' hs hK

theorem couples_declare {t t' : Token} (h : Alike c.place t t') (dataType : DataType) :
    Couples c K (declare t dataType) (declare t' dataType) id fun _ => K where
  frame s := Frame.declare s t dataType
  frame' s := Frame.declare s t' dataType
  holds s s' hs hK := by
    rw [run_declare, run_declare, ← h.text, ← c.names hs]
    by_cases hName : t.text ∈ s.declared.names
    · rw [if_pos hName, if_pos hName]
      exact (couples_reportAt (.redeclared t.text) h).holds s s' hs hK
    · rw [if_neg hName, if_neg hName]
      have hInsert := c.insert dataType hs h
      rw [← h.text] at hInsert
      exact .inr ⟨hInsert, rfl, hK⟩

theorem couples_eat {k : Token.Kind} (hBrace : k ≠ .rBrace) (hEof : k ≠ .eof) :
    Couples c K (eat k) (eat k) id fun _ => Anywhere :=
  .isAt hBrace hEof (couples_advance.bind fun _ _ _ => .done rfl) (.done rfl)

theorem couples_eatWord (word : String) :
    Couples c K (eatWord word) (eatWord word) id fun _ => Anywhere :=
  .isAtWord (couples_advance.bind fun _ _ _ => .done rfl) (.done rfl)

/-- A required word. -/
theorem couples_expectWord (word what : String) :
    Couples c K (expectWord word what) (expectWord word what) id fun _ => Anywhere := by
  refine (couples_eatWord word).bind fun b b' h => ?_
  obtain rfl : b = b' := h
  cases b with
  | true => exact .done rfl
  | false => exact (couples_report _).forget

theorem couples_expect {k : Token.Kind} (what : String) (hBrace : k ≠ .rBrace) (hEof : k ≠ .eof) :
    Couples c K (expect k what) (expect k what) (Option.map (Token.mapPos c.place))
      (AlikeIfNone c) := by
  have hReport : ∀ L, Couples c L
      (report (.expected what) >>= fun _ => pure (none : Option Token))
      (report (.expected what) >>= fun _ => pure none) (Option.map (Token.mapPos c.place))
      (AlikeIfNone c) := fun L =>
    (couples_report _).bind fun _ _ _ => .missing fun _ _ h => h
  refine .current (fun t t' h => ?_) fun t t' h => ?_
  · rw [← h.kind]
    by_cases hKind : t.kind = k
    · rw [if_pos hKind, if_pos hKind]
      exact couples_advance.bind fun _ _ _ => .given h
    · rw [if_neg hKind, if_neg hKind]
      exact hReport _
  · obtain ⟨hKind, hKind', _⟩ := c.ends h
    rw [if_neg (by rw [hKind]; exact hBrace.symm), if_neg (by rw [hKind']; exact hEof.symm)]
    exact hReport _

theorem couples_discard_expect {k : Token.Kind} (what : String) (hBrace : k ≠ .rBrace)
    (hEof : k ≠ .eof) :
    Couples c K (discard (expect k what)) (discard (expect k what)) id fun _ => Anywhere :=
  (couples_expect what hBrace hEof).discard

/-- The brace that closes a block.  Where what the parses share ends, only the first one
finds it. -/
theorem couples_closingBrace (what : String) :
    Couples c K (discard (expect .rBrace what)) (discard (expect .rBrace what)) id
      fun _ => Anywhere := by
  have hExpect : Couples c K (expect .rBrace what) (expect .rBrace what) (fun _ => ())
      fun _ => Anywhere := by
    refine .current (fun t t' h => ?_) fun t t' h => ?_
    · rw [← h.kind]
      by_cases hKind : t.kind = .rBrace
      · rw [if_pos hKind, if_pos hKind]
        exact couples_advance.bind fun _ _ _ => .done rfl
      · rw [if_neg hKind, if_neg hKind]
        exact (couples_report _).bind fun _ _ _ => .done rfl
    · obtain ⟨hKind, hKind', _⟩ := c.ends h
      rw [if_pos hKind, if_neg (by rw [hKind']; decide)]
      refine ⟨Framed.bind Frame.advance fun _ => framed_pure _,
        Framed.bind (frame_report _) fun _ => framed_pure _, fun s s' hs hEnd => ?_⟩
      exact .inl (c.closeEnds _ hs hEnd)
  exact hExpect.discard

/-- The placeholder for the current token. -/
theorem couples_placeholder :
    Couples c (Alike c.place) placeholder placeholder (Placeholder.mapPos c.place)
      fun _ => Alike c.place := by
  refine .here fun t t' h => .pure ?_ fun _ _ hAlike => hAlike
  simp [Placeholder.mapPos, h.text, h.pos]

/-- With the same room, a skipped part ends at the same token. -/
theorem couples_skipTo {after : List Token → List Token} (hExtra : c.extra = 0)
    (hSuffix : ∀ ts, after ts <:+ ts)
    (hAfter : ∀ ts, after (ts.map (Token.mapPos c.place)) = (after ts).map (Token.mapPos c.place)) :
    Couples c K (skipTo after) (skipTo after) id fun _ => Anywhere :=
  ⟨fun s => Frame.skip (hSuffix s.rest), fun s => Frame.skip (hSuffix s.rest),
    fun _ _ hs _ => .inr ⟨c.skip after hExtra hs hAfter, rfl, trivial⟩⟩

end Primitives

/-! ## The nesting limit -/

section Nesting

variable {α β : Type} {c : Coupling} {K : Token → Token → Prop} {view : α → β}

/-- With the same room there is nothing that the parses do not share. -/
theorem Coupling.alike {s s' : State} (hExtra : c.extra = 0) (hs : c.Abreast s s') :
    Alike c.place s.current s'.current := by
  cases c.meet hs with
  | inl hAlike => exact hAlike
  | inr hEnd => exact absurd hExtra (c.ends hEnd).2.2

/-- A production inside one more level.  With the same room both have it or both are skipped;
with more room for the second, the first one may be skipped alone. -/
theorem Couples.nested {room room' : Nat} {inside : (inner : Nat) → inner < room → Parse α}
    {inside' : (inner : Nat) → inner < room' → Parse α} {outside outside' : Parse α}
    (hRoom : room' = room + c.extra)
    (hInside : ∀ inner inner' h h', inner' = inner + c.extra →
      Couples c K (inside inner h) (inside' inner' h') view fun _ => Anywhere)
    (hInside' : ∀ inner h, Framed (inside' inner h))
    (hOutside : Framed outside) (hOutside' : Framed outside')
    (hSkip : c.extra = 0 →
      Couples c (Alike c.place) outside outside' view fun _ => Anywhere) :
    Couples c K (nested room inside outside) (nested room' inside' outside') view
      fun _ => Anywhere := by
  have hFramed : Framed (Parser.nested room inside outside) := by
    refine Framed.nested (fun inner h => ?_) hOutside
    exact (hInside inner (inner + c.extra) h (by omega) rfl).frame
  refine ⟨hFramed, Framed.nested hInside' hOutside', fun s s' hs hK => ?_⟩
  cases room with
  | zero =>
      by_cases hExtra : c.extra = 0
      · obtain rfl : room' = 0 := by omega
        have hReported := c.overflow hExtra hs
        exact (hSkip hExtra).holds _ _ hReported (c.alike hExtra hReported)
      · have hAlone := c.overflowAlone hExtra hs (Framed.nested hInside' hOutside' s')
        exact .inl (c.parted hAlone (hOutside _) (Frame.refl _))
  | succ inner =>
      cases room' with
      | zero => omega
      | succ inner' =>
          have hInner := hInside inner inner' (by omega) (by omega) (by omega)
          cases hInner.holds _ _ (c.openLevel hs) hK with
          | inl hParted =>
              exact .inl (c.parted hParted (Frame.closeLevel _) (Frame.closeLevel _))
          | inr hNext => exact .inr ⟨c.closeLevel hNext.1, hNext.2.1, trivial⟩

end Nesting

/-! ## Repetition -/

section Repetition

variable {c : Coupling} {K : Token → Token → Prop} {stop : Token → Bool}
variable {step step' : Parse (Option Stmt)}

/-- A test that ends a run of statements at the end marker, and on both sides where what the
parses share ends. -/
structure Coupling.StopsAt (c : Coupling) (stop : Token → Bool) : Prop where
  alike : ∀ t t', Alike c.place t t' → stop t = stop t'
  ends : ∀ t t', c.Ends t t' → stop t = true ∧ stop t' = true
  eof : ∀ t, t.kind = .eof → stop t = true

theorem run_repeatUntil_of_stop (stop : Token → Bool) {bound : Nat} {s : State}
    (h : stop s.current = true) :
    (repeatUntil stop step bound).run s = ([], s) := by
  cases bound with
  | zero => rfl
  | succ bound =>
      show (if stop s.current = true then _ else _ : Parse _).run s = _
      rw [if_pos h]
      rfl

theorem rest_ne_nil_of_not_stop {s : State} (hEof : ∀ t : Token, t.kind = .eof → stop t = true)
    (hStop : s.stop.kind = .eof) (h : ¬ stop s.current = true) : s.rest ≠ [] := by
  intro hNil
  rw [State.current_eq_stop hNil] at h
  exact h (hEof _ hStop)

/-- A turn of a run of statements, and what follows it. -/
theorem run_repeatUntil_succ (stop : Token → Bool) {bound : Nat} {s : State}
    (h : ¬ stop s.current = true) :
    (repeatUntil stop step (bound + 1)).run s =
      ((step.run s).1.toList ++ ((repeatUntil stop step bound).run (step.run s).2).1,
        ((repeatUntil stop step bound).run (step.run s).2).2) := by
  show (if stop s.current = true then _ else _ : Parse _).run s = _
  rw [if_neg h]
  rfl

theorem Coupling.StopsAt.eq_of_abreast (hStop : c.StopsAt stop) {s s' : State}
    (hs : c.Abreast s s') : stop s.current = stop s'.current := by
  cases c.meet hs with
  | inl hAlike => exact hStop.alike _ _ hAlike
  | inr hEnd => rw [(hStop.ends _ _ hEnd).1, (hStop.ends _ _ hEnd).2]

/-- Two runs of statements take their turns together.  The bounds may differ, since both are
large enough never to matter. -/
theorem Coupling.StopsAt.holds_repeatUntil (hStop : c.StopsAt stop)
    (hStep : Couples c Anywhere step step' (Option.map (Stmt.mapPos c.place)) fun _ => Anywhere)
    (hConsumes : Consumes step) (hConsumes' : Consumes step') (bound : Nat) :
    ∀ (bound' : Nat) {s s' : State}, c.Abreast s s' → s.rest.length ≤ bound →
      s'.rest.length ≤ bound' →
      c.Parted ((repeatUntil stop step bound).run s).2
          ((repeatUntil stop step' bound').run s').2 ∨
        c.Abreast ((repeatUntil stop step bound).run s).2
            ((repeatUntil stop step' bound').run s').2 ∧
          mapPosAll c.place ((repeatUntil stop step bound).run s).1 =
            mapPosAll c.place ((repeatUntil stop step' bound').run s').1 := by
  induction bound with
  | zero =>
      intro bound' s s' hs hBound _
      have hNil : s.rest = [] := List.length_eq_zero_iff.mp (Nat.le_zero.mp hBound)
      have hHere : stop s.current = true := by
        rw [State.current_eq_stop hNil]
        exact hStop.eof _ (c.stop hs).1
      rw [run_repeatUntil_of_stop stop hHere,
        run_repeatUntil_of_stop stop (hStop.eq_of_abreast hs ▸ hHere)]
      exact .inr ⟨hs, rfl⟩
  | succ bound ih =>
      intro bound' s s' hs hBound hBound'
      by_cases hHere : stop s.current = true
      · rw [run_repeatUntil_of_stop stop hHere,
          run_repeatUntil_of_stop stop (hStop.eq_of_abreast hs ▸ hHere)]
        exact .inr ⟨hs, rfl⟩
      · have hHere' : ¬ stop s'.current = true := hStop.eq_of_abreast hs ▸ hHere
        have hLess := hConsumes s (rest_ne_nil_of_not_stop hStop.eof (c.stop hs).1 hHere)
        have hLess' := hConsumes' s' (rest_ne_nil_of_not_stop hStop.eof (c.stop hs).2 hHere')
        cases bound' with
        | zero => omega
        | succ bound' =>
            rw [run_repeatUntil_succ stop hHere, run_repeatUntil_succ stop hHere']
            cases hStep.holds s s' hs trivial with
            | inl hParted =>
                exact .inl (c.parted hParted (hStep.frame.repeatUntil stop bound _)
                  (hStep.frame'.repeatUntil stop bound' _))
            | inr hNext =>
                cases ih bound' hNext.1 (by omega) (by omega) with
                | inl hParted => exact .inl hParted
                | inr hMore =>
                    refine .inr ⟨hMore.1, ?_⟩
                    rw [mapPosAll_toList_append, mapPosAll_toList_append, hNext.2.1, hMore.2]

/-- A run of statements that may take as many turns as there are tokens. -/
theorem Couples.repeatUntil (hStop : c.StopsAt stop)
    (hStep : Couples c Anywhere step step' (Option.map (Stmt.mapPos c.place)) fun _ => Anywhere)
    (hConsumes : Consumes step) (hConsumes' : Consumes step') :
    Couples c K (get >>= fun s => repeatUntil stop step s.rest.length)
      (get >>= fun s => repeatUntil stop step' s.rest.length) (mapPosAll c.place)
      fun _ => Anywhere where
  frame s := hStep.frame.repeatUntil stop s.rest.length s
  frame' s := hStep.frame'.repeatUntil stop s.rest.length s
  holds s s' hs _ := by
    cases hStop.holds_repeatUntil hStep hConsumes hConsumes' _ _ hs (Nat.le_refl _)
        (Nat.le_refl _) with
    | inl hParted => exact .inl hParted
    | inr hNext => exact .inr ⟨hNext.1, hNext.2, trivial⟩

end Repetition

end Parser

end Braceless
