import Braceless.Proofs.Mentions
import Braceless.Proofs.Parser.Reads

/-!
# What a parse does, step by step

Whatever a production does, on every path of recovery, it does by a few kinds of steps: it
reads on, reports a fault, opens or closes a level of nesting, looks at a name, or makes a
part of the tree out of the current token.  `Step` lists them, each with what it mentions,
and a `Trace` is a run of steps.  A production leaves a trace that mentions what the tree
mentions that it returns.  A fact about the state and the tree is then a fact about single
steps.

The variable of an update such as `x += 1` is looked up once and stands in the tree twice,
so the step that looks a name up may mention it any number of times.

A step says what the parser knows when it is taken: a place is left unread only where a
fault has been reported or the nesting limit is exceeded, and only a closing brace that
closes nothing is reported without a statement in its place.

## Main definitions

* `ReadAs`: the literal that a token is read as.
* `State.Explained`: a state that accounts for a place where nothing can be read.
* `Step`, `Trace`: single steps, and runs of them.
* `Traces`: actions that leave a trace with what they return.

## Main results

* `Step.frame`, `Trace.frame`: what every step and every run keeps.
* `Traces.bind`, `Traces.nested`: sequencing and the nesting limit.
* `traces_declare`, `traces_lookUp`: the two ways in which a name is entered.
-/

namespace Braceless

/-- The faults that account for a place where no expression could be read. -/
def SyntaxFault.IsGap : SyntaxFault → Prop
  | .expected _ | .invalidExpression | .nestingTooDeep => True
  | _ => False

namespace Parser

/-! ## Steps -/

/-- The literal that a token is read as. -/
inductive ReadAs (t : Token) : Literal → Prop where
  | integer (h : t.kind = .integer) : ReadAs t ⟨.int, t.text⟩
  | decimal (h : t.kind = .decimal) : ReadAs t ⟨.double, t.text⟩
  | char (h : t.kind = .char) : ReadAs t ⟨.char, literalBody t.text⟩
  | string (h : t.kind = .string) : ReadAs t ⟨.str, literalBody t.text⟩
  | truth (h : t.kind = .keyword) : ReadAs t ⟨.boolean, t.text⟩

/-- The nesting limit is exceeded, or a fault has been reported at the current token that
accounts for an expression that is not there. -/
def State.Explained (s : State) : Prop :=
  s.overflowed = true ∨ ∃ e ∈ s.errors, e.fault.IsGap ∧ e.pos = s.current.pos

/-- A single step of a parse, with what it mentions. -/
inductive Step : State → List Mention → State → Prop where
  | skip {s : State} {ts : List Token} (h : ts <:+ s.rest) : Step s [] { s with rest := ts }
  /-- A closing brace that closes nothing is the only token that starts no statement and
  leaves no mention. -/
  | report {s : State} {fault : SyntaxFault} (h : ¬ fault.IsNaming)
      (hBrace : fault = .unrecognizedStatement → s.current.kind = .rBrace) :
      Step s [] (s.report (.ofToken fault s.current))
  | level {s : State} (depth : Nat) (overflowed : Bool)
      (h : overflowed = true → s.overflowed = true) :
      Step s [] { s with depth := depth, overflowed := overflowed }
  | overflow {s : State} :
      Step s [] { s.report (.ofToken .nestingTooDeep s.current) with overflowed := true }
  | declare {s : State} (dataType : DataType) (h : s.current.kind = .identifier) :
      Step s [.declared ⟨s.current.text, dataType, s.current.pos⟩]
        ((declare s.current dataType).run (advance.run s).2).2
  | lookUp {s : State} (n : Nat) (h : s.current.kind = .identifier) :
      Step s (List.replicate n (.used s.current.text s.current.pos))
        ((checkDeclared s.current).run (advance.run s).2).2
  | literal {s : State} {l : Literal} (h : ReadAs s.current l) : Step s [.literal l] s
  /-- The amount of an increment is not written. -/
  | one {s : State} : Step s [.literal ⟨.int, "1"⟩] s
  | unread {s : State} (h : s.Explained) :
      Step s [.unread ⟨s.current.text, s.current.pos⟩] s
  | unrecognized {s : State} (hBrace : s.current.kind ≠ .rBrace)
      (hEnd : s.current.kind ≠ .eof) :
      Step s [.unrecognized ⟨s.current.text, s.current.pos⟩]
        (s.report (.ofToken .unrecognizedStatement s.current))

/-- A missing token is reported. -/
theorem Step.expected (s : State) (what : String) :
    Step s [] (s.report (.ofToken (.expected what) s.current)) :=
  .report id (fun h => by cases h)

/-- A step is a frame, whatever it mentions. -/
theorem Step.frame {s s' : State} {ms : List Mention} (h : Step s ms s') : Frame s s' := by
  cases h with
  | skip hSuffix => exact .skip hSuffix
  | report _ _ => exact .report s _
  | level _ _ hOver =>
      exact ⟨rfl, List.suffix_refl _, List.prefix_refl _, fun hAcc h => hAcc (hOver h)⟩
  | overflow =>
      have hReport := Frame.report s (.ofToken .nestingTooDeep s.current)
      exact ⟨hReport.stop, hReport.rest, hReport.errors,
        fun _ _ => ⟨_, Array.mem_push_self, rfl⟩⟩
  | declare dataType _ => exact (Frame.advance s).trans (.declare _ s.current dataType)
  | lookUp _ _ => exact (Frame.advance s).trans (.checkDeclared _ s.current)
  | literal _ => exact .refl s
  | one => exact .refl s
  | unread _ => exact .refl s
  | unrecognized _ _ => exact .report s _

/-- A run of steps, with all that they mention. -/
inductive Trace : State → List Mention → State → Prop where
  | refl (s : State) : Trace s [] s
  | step {s s' s'' : State} {ms ms' : List Mention} (h : Step s ms s')
      (rest : Trace s' ms' s'') : Trace s (ms ++ ms') s''

namespace Trace

variable {s s' s'' : State} {ms ms' : List Mention}

theorem trans (h : Trace s ms s') (h' : Trace s' ms' s'') : Trace s (ms ++ ms') s'' := by
  induction h with
  | refl s => exact h'
  | step hStep _ ih =>
      rw [List.append_assoc]
      exact .step hStep (ih h')

theorem single (h : Step s ms s') : Trace s ms s' := by
  have hTrace := Trace.step h (.refl s')
  rwa [List.append_nil] at hTrace

theorem frame (h : Trace s ms s') : Frame s s' := by
  induction h with
  | refl s => exact .refl s
  | step hStep _ ih => exact hStep.frame.trans ih

theorem skip {ts : List Token} (h : ts <:+ s.rest) : Trace s [] { s with rest := ts } :=
  single (.skip h)

theorem advance (s : State) : Trace s [] (Parser.advance.run s).2 :=
  skip (List.tail_suffix s.rest)

theorem reportOverflow (s : State) : Trace s [] (Parser.reportOverflow.run s).2 := by
  show Trace s [] ((if s.overflowed = true then _ else _ : Parse Unit).run s).2
  split
  · exact refl s
  · exact single .overflow

end Trace

/-! ## Actions -/

/-- From a state that satisfies `P`, the action leaves a trace whose mentions `Q` relates
to what it returns. -/
def TracesFrom {α : Type} (P : State → Prop) (p : Parse α) (Q : α → List Mention → Prop) :
    Prop :=
  ∀ s, P s → ∃ ms, Trace s ms (p.run s).2 ∧ Q (p.run s).1 ms

/-- From every state, the action leaves a trace whose mentions `Q` relates to what it
returns. -/
def Traces {α : Type} (p : Parse α) (Q : α → List Mention → Prop) : Prop :=
  TracesFrom (fun _ => True) p Q

/-- The mentions are those of what is returned. -/
def Shows {α : Type} (view : α → List Mention) (a : α) (ms : List Mention) : Prop :=
  ms = view a

/-- Nothing is mentioned. -/
def Silent {α : Type} (_ : α) (ms : List Mention) : Prop :=
  ms = []

section Actions

variable {α β : Type} {P : State → Prop} {p : Parse α} {f : α → Parse β}
variable {Q : α → List Mention → Prop} {R : β → List Mention → Prop}

theorem run_bind (p : Parse α) (f : α → Parse β) (s : State) :
    (p >>= f).run s = (f (p.run s).1).run (p.run s).2 := rfl

theorem Traces.from (h : Traces p Q) (P : State → Prop) : TracesFrom P p Q :=
  fun s _ => h s trivial

theorem TracesFrom.mono {Q' : α → List Mention → Prop} (h : TracesFrom P p Q)
    (hQ : ∀ a ms, Q a ms → Q' a ms) : TracesFrom P p Q' := by
  intro s hs
  obtain ⟨ms, hTrace, hMentions⟩ := h s hs
  exact ⟨ms, hTrace, hQ _ _ hMentions⟩

theorem TracesFrom.weaken {P' : State → Prop} (h : TracesFrom P p Q)
    (hP : ∀ s, P' s → P s) : TracesFrom P' p Q :=
  fun s hs => h s (hP s hs)

theorem TracesFrom.pure {a : α} (h : Q a []) : TracesFrom P (Pure.pure a) Q :=
  fun s _ => ⟨[], .refl s, h⟩

/-- What the first action mentions comes before what the second one does, which may rely on
what the first one leaves. -/
theorem TracesFrom.bind_of (P' : α → State → Prop) (hp : TracesFrom P p Q)
    (hLeaves : ∀ s, P s → P' (p.run s).1 (p.run s).2)
    (hf : ∀ a, TracesFrom (P' a) (f a) fun b ms' => ∀ ms, Q a ms → R b (ms ++ ms')) :
    TracesFrom P (p >>= f) R := by
  intro s hs
  obtain ⟨ms, hTrace, hMentions⟩ := hp s hs
  obtain ⟨ms', hTrace', hMentions'⟩ := hf (p.run s).1 (p.run s).2 (hLeaves s hs)
  exact ⟨ms ++ ms', hTrace.trans hTrace', hMentions' ms hMentions⟩

theorem TracesFrom.bind (hp : TracesFrom P p Q)
    (hf : ∀ a, Traces (f a) fun b ms' => ∀ ms, Q a ms → R b (ms ++ ms')) :
    TracesFrom P (p >>= f) R :=
  hp.bind_of (fun _ _ => True) (fun _ _ => trivial) hf

/-- An action that mentions nothing may stand in front. -/
theorem TracesFrom.andThen (hp : TracesFrom P p Silent) (hf : ∀ a, Traces (f a) R) :
    TracesFrom P (p >>= f) R := by
  refine hp.bind fun a => (hf a).mono ?_
  rintro b ms' hR _ rfl
  exact hR

theorem TracesFrom.discard (hp : TracesFrom P p Silent) :
    TracesFrom P (Functor.discard p) Silent :=
  hp

/-- The state may be looked at. -/
theorem traces_get {g : State → Parse β} (hg : ∀ s, Traces (g s) R) :
    Traces (MonadState.get >>= g) R :=
  fun s _ => hg s s trivial

/-- What is known of the current token can be used after it has been looked at. -/
theorem TracesFrom.current {g : Token → Parse β}
    (hg : ∀ t, TracesFrom (fun s => P s ∧ s.current = t) (g t) R) :
    TracesFrom P (Parser.current >>= g) R :=
  fun s hs => hg s.current s ⟨hs, rfl⟩

theorem traces_current {g : Token → Parse β}
    (hg : ∀ t, TracesFrom (·.current = t) (g t) R) : Traces (Parser.current >>= g) R :=
  TracesFrom.current fun t => (hg t).weaken fun _ hs => hs.2

/-- A test of the current token, after which all is as before. -/
theorem TracesFrom.test {test : Parse α} (hTest : ∀ s, (test.run s).2 = s)
    (hf : ∀ a, TracesFrom P (f a) R) : TracesFrom P (test >>= f) R := by
  intro s hs
  rw [run_bind, hTest s]
  exact hf (test.run s).1 s hs

theorem traces_test {test : Parse α} (hTest : ∀ s, (test.run s).2 = s)
    (hf : ∀ a, Traces (f a) R) : Traces (test >>= f) R :=
  TracesFrom.test hTest hf

/-- After the report of an overflow the limit is known to be exceeded. -/
theorem explained_reportOverflow (s : State) : (reportOverflow.run s).2.Explained := by
  show ((if s.overflowed = true then _ else _ : Parse Unit).run s).2.Explained
  split
  · next hOver => exact .inl hOver
  · exact .inl rfl

theorem Traces.nested {room : Nat} {inside : (inner : Nat) → inner < room → Parse α}
    {outside : Parse α} (hInside : ∀ inner h, Traces (inside inner h) Q)
    (hOutside : TracesFrom State.Explained outside Q) :
    Traces (Parser.nested room inside outside) Q := by
  cases room with
  | zero =>
      intro s _
      obtain ⟨ms, hTrace, hMentions⟩ :=
        hOutside (reportOverflow.run s).2 (explained_reportOverflow s)
      exact ⟨ms, (Trace.reportOverflow s).trans hTrace, hMentions⟩
  | succ inner =>
      intro s _
      obtain ⟨ms, hTrace, hMentions⟩ :=
        hInside inner (Nat.lt_succ_self inner) (openLevel.run s).2 trivial
      have hOpen : Trace s [] (openLevel.run s).2 :=
        .single (.level _ _ fun h => (Bool.and_eq_true_iff.mp h).1)
      have hClose : ∀ s', Trace s' [] (closeLevel.run s').2 := fun s' =>
        .single (.level (s'.depth - 1) s'.overflowed id)
      refine ⟨ms, ?_, hMentions⟩
      have hAll := (hOpen.trans hTrace).trans (hClose _)
      rwa [List.append_nil] at hAll

end Actions

/-! ## Primitives -/

theorem traces_advance : Traces advance Silent :=
  fun s _ => ⟨[], .advance s, rfl⟩

theorem traces_report {fault : SyntaxFault} (h : ¬ fault.IsNaming)
    (hOther : fault ≠ .unrecognizedStatement) : Traces (report fault) Silent :=
  fun _ _ => ⟨[], .single (.report h fun hFault => absurd hFault hOther), rfl⟩

theorem traces_expected (what : String) : Traces (report (.expected what)) Silent :=
  fun s _ => ⟨[], .single (.expected s what), rfl⟩

/-- What is reported at the current token explains what is not there. -/
theorem explained_report (s : State) {fault : SyntaxFault} (h : fault.IsGap) :
    (s.report (.ofToken fault s.current)).Explained :=
  .inr ⟨_, Array.mem_push_self, h, rfl⟩

theorem traces_eat (kind : Token.Kind) : Traces (eat kind) Silent := by
  unfold eat
  refine traces_test (fun _ => rfl) fun b => ?_
  cases b with
  | false => exact .pure rfl
  | true => exact traces_advance.andThen fun _ => .pure rfl

theorem traces_eatWord (word : String) : Traces (eatWord word) Silent := by
  unfold eatWord
  refine traces_test (fun _ => rfl) fun b => ?_
  cases b with
  | false => exact .pure rfl
  | true => exact traces_advance.andThen fun _ => .pure rfl

theorem traces_expectWord (word what : String) : Traces (expectWord word what) Silent := by
  unfold expectWord
  refine (traces_eatWord word).andThen fun b => ?_
  cases b with
  | false => exact traces_expected what
  | true => exact .pure rfl

theorem traces_expect (kind : Token.Kind) (what : String) :
    Traces (expect kind what) Silent := by
  unfold expect
  refine traces_current fun t => Traces.from ?_ _
  split
  · exact traces_advance.andThen fun _ => .pure rfl
  · exact (traces_expected what).andThen fun _ => .pure rfl

theorem traces_discard_expect (kind : Token.Kind) (what : String) :
    Traces (Functor.discard (expect kind what)) Silent :=
  (traces_expect kind what).discard

/-- A name that is expected is the current token before it is read. -/
theorem traces_expectName {α : Type} {what : String} {f : Option Token → Parse α}
    {Q : α → List Mention → Prop} (hNone : Traces (f none) Q)
    (hSome : ∀ t, TracesFrom (fun s => s.current = t ∧ t.kind = .identifier)
      (advance >>= fun _ => f (some t)) Q) :
    Traces (expect .identifier what >>= f) Q := by
  intro s _
  by_cases hKind : s.current.kind = .identifier
  · have hRun : (expect .identifier what).run s = (some s.current, (advance.run s).2) := by
      show (if s.current.kind = .identifier then _ else _ : Parse _).run s = _
      rw [if_pos hKind]
      rfl
    rw [run_bind, hRun]
    exact hSome s.current s ⟨rfl, hKind⟩
  · have hRun : (expect .identifier what).run s =
        (none, s.report (.ofToken (.expected what) s.current)) := by
      show (if s.current.kind = .identifier then _ else _ : Parse _).run s = _
      rw [if_neg hKind]
      rfl
    obtain ⟨ms, hTrace, hMentions⟩ :=
      hNone (s.report (.ofToken (.expected what) s.current)) trivial
    rw [run_bind, hRun]
    exact ⟨ms, .step (.expected s what) hTrace, hMentions⟩

/-- A name that is read and declared. -/
theorem traces_declare {α : Type} {t : Token} {dataType : DataType} {g : Unit → Parse α}
    {Q : α → List Mention → Prop}
    (hg : Traces (g ()) fun a ms => Q a (.declared ⟨t.text, dataType, t.pos⟩ :: ms)) :
    TracesFrom (fun s => s.current = t ∧ t.kind = .identifier)
      (advance >>= fun _ => declare t dataType >>= g) Q := by
  rintro s ⟨rfl, hKind⟩
  obtain ⟨ms, hTrace, hMentions⟩ :=
    hg ((declare s.current dataType).run (advance.run s).2).2 trivial
  exact ⟨_, .step (.declare dataType hKind) hTrace, hMentions⟩

/-- A name that is read and looked up, which may be mentioned any number of times. -/
theorem traces_lookUp {α : Type} {t : Token} {g : Unit → Parse α}
    {Q : α → List Mention → Prop}
    (hg : Traces (g ()) fun a ms => ∃ n, Q a (List.replicate n (.used t.text t.pos) ++ ms)) :
    TracesFrom (fun s => s.current = t ∧ t.kind = .identifier)
      (advance >>= fun _ => checkDeclared t >>= g) Q := by
  rintro s ⟨rfl, hKind⟩
  obtain ⟨ms, hTrace, n, hMentions⟩ :=
    hg ((checkDeclared s.current).run (advance.run s).2).2 trivial
  exact ⟨_, .step (.lookUp n hKind) hTrace, hMentions⟩

/-- It does not matter whether a name is looked up before it is read or after. -/
theorem run_checkDeclared_advance (t : Token) (s : State) :
    (advance.run ((checkDeclared t).run s).2).2 =
      ((checkDeclared t).run (advance.run s).2).2 := by
  have hTable : (advance.run s).2.declared = s.declared := rfl
  rw [run_checkDeclared, run_checkDeclared, hTable]
  split <;> rfl

theorem traces_lookUp_first {α : Type} {t : Token} {g : Unit → Parse α}
    {Q : α → List Mention → Prop}
    (hg : Traces (g ()) fun a ms => ∃ n, Q a (List.replicate n (.used t.text t.pos) ++ ms)) :
    TracesFrom (fun s => s.current = t ∧ t.kind = .identifier)
      (checkDeclared t >>= fun _ => advance >>= g) Q := by
  intro s hs
  rw [run_bind, run_bind, run_checkDeclared_advance]
  exact traces_lookUp hg s hs

theorem traces_skipTo {after : List Token → List Token} (h : ∀ ts, after ts <:+ ts) :
    Traces (skipTo after) Silent :=
  fun s _ => ⟨[], .skip (h s.rest), rfl⟩

/-- What takes the place of the current token where nothing can be read. -/
theorem traces_placeholder :
    TracesFrom State.Explained placeholder (Shows fun p => [.unread p]) :=
  fun _ hs => ⟨_, .single (.unread hs), rfl⟩

end Parser

end Braceless
