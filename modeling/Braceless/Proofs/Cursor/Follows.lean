import Braceless.Proofs.Cursor.Machine
import Braceless.Proofs.Trivia

/-!
# The machine follows the productions

Seen from the cursor on, a state of the machine is a state of the parser: what is left are the
significant tokens, and the first end marker stops the parse.  `Follows` says of an action of
the machine that, from any state that is ready, it returns, that it does to the state what a
production does, and that all that happens meanwhile is in order: the cursor stays within the
token list and never goes back, it rests on tokens that are not trivia, the turns of loops
read on, and the levels stay between those at the ends and the limit.

## Main definitions

* `view`: the state of the parser that a state of the machine stands for.
* `Ready`: the states from which nothing goes wrong.
* `Yields`: an action returns.
* `Trail`, `Passage`: what lies between two moments of a run.
* `Follows`: an action of the machine does what a production does.

## Main results

* `Passage.trans`: passages compose.
* `Follows.bind`, `Follows.nested`: sequencing and the nesting limit.
* `follows_advance`: the cursor and the list of significant tokens move together.
-/

namespace Braceless

namespace Cursor

variable {α β : Type} {tokens : List Token}

/-! ## What a parse sees from the cursor on -/

/-- The last token is an end marker. -/
def Closed (tokens : List Token) : Prop :=
  ∃ t, tokens.getLast? = some t ∧ t.kind = .eof

theorem closed_withEnd (tokens : List Token) : Closed (withEnd tokens) := by
  unfold withEnd
  split
  · next t hLast =>
      by_cases hEof : t.kind = .eof
      · rw [if_pos hEof]
        exact ⟨t, hLast, hEof⟩
      · rw [if_neg hEof]
        exact ⟨_, List.getLast?_concat, rfl⟩
  · exact ⟨_, rfl, rfl⟩

/-- What is left from a token on, which may be trivia itself. -/
def remaining : List Token → List Token
  | [] => []
  | t :: ts => if t.kind = .eof then [] else t :: Parser.significant ts

/-- The state of the parser that a state of the machine stands for. -/
def view (tokens : List Token) (m : Machine) : Parser.State where
  rest := remaining (tokens.drop m.pos)
  stop := Parser.endMarker (tokens.drop m.pos)
  errors := m.errors
  declared := m.declared
  depth := m.depth
  overflowed := m.overflowed

/-- The token at a place is there and is not trivia. -/
def AtRest (tokens : List Token) (p : Nat) : Prop :=
  ∃ t, tokens[p]? = some t ∧ t.isTrivia = false

/-- The nesting limit has been reported. -/
def Machine.Overrun (m : Machine) : Prop :=
  ∃ e ∈ m.errors, e.fault = .nestingTooDeep

/-- The states from which nothing goes wrong. -/
structure Ready (tokens : List Token) (m : Machine) : Prop where
  closed : Closed tokens
  inBounds : m.pos < tokens.length
  shallow : m.depth ≤ maxNesting
  /-- An excursion past the limit has been reported. -/
  accounted : m.overflowed = true → m.Overrun

theorem drop_eq_cons {p : Nat} {t : Token} (h : tokens[p]? = some t) :
    tokens.drop p = t :: tokens.drop (p + 1) := by
  obtain ⟨hp, rfl⟩ := List.getElem?_eq_some_iff.mp h
  exact List.drop_eq_getElem_cons hp

/-- A token that is no end marker is not the last one. -/
theorem Closed.lt_of_ne_eof (hClosed : Closed tokens) {p : Nat} {t : Token}
    (h : tokens[p]? = some t) (hKind : t.kind ≠ .eof) : p + 1 < tokens.length := by
  obtain ⟨stop, hLast, hStop⟩ := hClosed
  obtain ⟨hp, -⟩ := List.getElem?_eq_some_iff.mp h
  have hOther : tokens.length - 1 ≠ p := by
    rintro rfl
    rw [List.getLast?_eq_getElem?, h] at hLast
    cases hLast
    exact hKind hStop
  omega

theorem Closed.hasEnd_drop (hClosed : Closed tokens) {p : Nat} (hp : p < tokens.length) :
    Parser.HasEnd (tokens.drop p) := by
  obtain ⟨stop, hLast, hStop⟩ := hClosed
  have hDrop : (tokens.drop p).getLast? = some stop := by
    rw [List.getLast?_drop, if_neg (Nat.not_le.mpr hp), hLast]
  exact ⟨stop, List.mem_of_getLast? hDrop, hStop⟩

/-- A token that is no end marker may be dropped without losing the end marker. -/
theorem Closed.endMarker_drop_succ (hClosed : Closed tokens) {p : Nat} {t : Token}
    (h : tokens[p]? = some t) (hKind : t.kind ≠ .eof) :
    Parser.endMarker (tokens.drop (p + 1)) = Parser.endMarker (tokens.drop p) := by
  refine (Parser.endMarker_eq_of_find? (hClosed.hasEnd_drop (hClosed.lt_of_ne_eof h hKind)) ?_).symm
  rw [drop_eq_cons h, List.find?_cons_of_neg (by simpa using hKind)]

/-- The token under the cursor is the current one. -/
theorem current_view {m : Machine} {t : Token} (h : tokens[m.pos]? = some t) :
    (view tokens m).current = t := by
  unfold view Parser.State.current
  rw [drop_eq_cons h, remaining]
  by_cases hEof : t.kind = .eof
  · rw [if_pos hEof, Parser.endMarker, List.find?_cons_of_pos (by simpa using hEof)]
    rfl
  · rw [if_neg hEof]
    rfl

/-- While the cursor is not at an end marker, the token under it is the first one left. -/
theorem rest_view {m : Machine} {t : Token} (h : tokens[m.pos]? = some t) (hKind : t.kind ≠ .eof) :
    (view tokens m).rest = t :: Parser.significant (tokens.drop (m.pos + 1)) := by
  unfold view
  rw [drop_eq_cons h, remaining, if_neg hKind]

theorem rest_view_eq_nil {m : Machine} {t : Token} (h : tokens[m.pos]? = some t)
    (hKind : t.kind = .eof) : (view tokens m).rest = [] := by
  unfold view
  rw [drop_eq_cons h, remaining, if_pos hKind]

/-- The first token left is under the cursor, and it is no end marker. -/
theorem current_of_rest_view {m : Machine} {t : Token} {ts : List Token}
    (h : (view tokens m).rest = t :: ts) : tokens[m.pos]? = some t ∧ t.kind ≠ .eof := by
  cases hCurrent : tokens[m.pos]? with
  | none =>
      rw [view, List.drop_eq_nil_of_le (List.getElem?_eq_none_iff.mp hCurrent)] at h
      cases h
  | some u =>
      by_cases hKind : u.kind = .eof
      · rw [rest_view_eq_nil hCurrent hKind] at h
        cases h
      · rw [rest_view hCurrent hKind] at h
        cases h
        exact ⟨rfl, hKind⟩

theorem Ready.exists_current {m : Machine} (h : Ready tokens m) : ∃ t, tokens[m.pos]? = some t :=
  ⟨_, List.getElem?_eq_getElem h.inBounds⟩

/-! ## Returning -/

/-- From `w`, with fuel enough, the action returns `a` and leaves `w'`. -/
def Yields (tokens : List Token) (p : Run α) (w : World) (a : α) (w' : World) : Prop :=
  ∃ fuel, p.run tokens fuel w = some (.ok (a, w'))

namespace Yields

variable {p : Run α} {f : α → Run β} {a : α} {b : β} {w w' w'' : World}

theorem pure (a : α) (w : World) : Yields tokens (Pure.pure a) w a w :=
  ⟨0, rfl⟩

theorem bind (hp : Yields tokens p w a w') (hf : Yields tokens (f a) w' b w'') :
    Yields tokens (p >>= f) w b w'' := by
  obtain ⟨fuel, hp⟩ := hp
  obtain ⟨fuel', hf⟩ := hf
  refine ⟨max fuel fuel', ?_⟩
  show (p.run tokens (max fuel fuel') w).andThen
    (fun a w' => (f a).run tokens (max fuel fuel') w') = _
  rw [Run.run_mono (Nat.le_max_left fuel fuel') hp]
  exact Run.run_mono (Nat.le_max_right fuel fuel') hf

theorem discard (hp : Yields tokens p w a w') : Yields tokens (Functor.discard p) w () w' := by
  have hMap : (Functor.discard p : Run Unit) = p >>= fun _ => Pure.pure () := rfl
  rw [hMap]
  exact hp.bind (.pure () w')

theorem call {c : Call α} (h : Yields tokens c.steps w a w') : Yields tokens (.call c) w a w' := by
  obtain ⟨fuel, h⟩ := h
  exact ⟨fuel + 1, h⟩

theorem act (label : Label) (f : Machine → Machine) (w : World) :
    Yields tokens (Cursor.act label f) w () (w.after label f) :=
  ⟨0, rfl⟩

theorem now (w : World) : Yields tokens Cursor.now w w.now w :=
  ⟨0, rfl⟩

theorem current {t : Token} (h : tokens[w.now.pos]? = some t) :
    Yields tokens Cursor.current w t w := by
  have hInput : Yields tokens .input w tokens w := ⟨0, rfl⟩
  refine hInput.bind ((Yields.now w).bind ?_)
  rw [h]
  exact .pure t w

theorem decrease (n : Nat) (w : World) : Yields tokens (Cursor.decrease (n + 1)) w n w :=
  ⟨0, rfl⟩

end Yields

/-! ## Passages -/

/-- What a state has to be like after an event. -/
def Label.Holds (m : Machine) : Label → Prop
  | .turned _ start => start < m.pos
  | .refused => m.Overrun
  | _ => True

/-- The states on record lead from `m` to `m'`, and the cursor moves by one token at a time. -/
def Trail : Machine → List Event → Machine → Prop
  | m, [], m' => m = m'
  | m, e :: events, m' =>
    (e.state.pos = m.pos ∨ e.state.pos = m.pos + 1) ∧ Trail e.state events m'

namespace Trail

variable {events events' : List Event}

theorem append {m m' m'' : Machine} (h : Trail m events m') (h' : Trail m' events' m'') :
    Trail m (events ++ events') m'' := by
  induction events generalizing m with
  | nil =>
      subst h
      exact h'
  | cons e events ih => exact ⟨h.1, ih h.2⟩

theorem pos_le {m m' : Machine} (h : Trail m events m') : m.pos ≤ m'.pos := by
  induction events generalizing m with
  | nil =>
      subst h
      exact Nat.le_refl _
  | cons e events ih =>
      have hFirst := h.1
      have hLater := ih h.2
      omega

theorem pos_le_of_mem {m m' : Machine} (h : Trail m events m') {e : Event} (he : e ∈ events) :
    m.pos ≤ e.state.pos := by
  induction events generalizing m with
  | nil => cases he
  | cons first events ih =>
      have hFirst := h.1
      cases List.mem_cons.mp he with
      | inl hHere =>
          subst hHere
          omega
      | inr he =>
          have hLater := ih h.2 he
          omega

/-- The cursor never goes back. -/
theorem sorted {m m' : Machine} (h : Trail m events m') :
    events.Pairwise fun e e' => e.state.pos ≤ e'.state.pos := by
  induction events generalizing m with
  | nil => exact .nil
  | cons e events ih => exact List.pairwise_cons.mpr ⟨fun _ he' => h.2.pos_le_of_mem he', ih h.2⟩

end Trail

/-- An event between the states `m` and `m'` of a run that is as it should be. -/
structure Within (tokens : List Token) (m : Machine) (e : Event) (m' : Machine) : Prop where
  ready : Ready tokens e.state
  /-- No more levels are closed than at one of the ends. -/
  floor : min m.depth m'.depth ≤ e.state.depth
  rests : e.label ≠ .stepped → e.state.pos = m.pos ∨ AtRest tokens e.state.pos
  holds : e.label.Holds e.state

/-- What lies between two moments of a run. -/
structure Passage (tokens : List Token) (w w' : World) (events : List Event) : Prop where
  ready : Ready tokens w'.now
  trail : Trail w.now events w'.now
  rests : w'.now.pos = w.now.pos ∨ AtRest tokens w'.now.pos
  log : w'.log = w.log ++ events
  within : ∀ e ∈ events, Within tokens w.now e w'.now

namespace Passage

variable {w w' w'' : World} {events events' : List Event}

theorem refl (h : Ready tokens w.now) : Passage tokens w w [] :=
  ⟨h, rfl, .inl rfl, (List.append_nil _).symm, by simp⟩

/-- Passages compose, if the levels in between are not fewer than at both ends. -/
theorem trans (h : Passage tokens w w' events) (h' : Passage tokens w' w'' events')
    (hDepth : min w.now.depth w''.now.depth ≤ w'.now.depth) :
    Passage tokens w w'' (events ++ events') where
  ready := h'.ready
  trail := h.trail.append h'.trail
  rests := by
    cases h'.rests with
    | inl hSame => rw [hSame]; exact h.rests
    | inr hRest => exact .inr hRest
  log := by rw [h'.log, h.log, List.append_assoc]
  within e he := by
    cases List.mem_append.mp he with
    | inl he =>
        have hFirst := h.within e he
        have hFloor := hFirst.floor
        exact { hFirst with floor := by omega }
    | inr he =>
        have hSecond := h'.within e he
        have hFloor := hSecond.floor
        refine { hSecond with floor := by omega, rests := ?_ }
        intro hLabel
        cases hSecond.rests hLabel with
        | inl hSame => rw [hSame]; exact h.rests
        | inr hRest => exact .inr hRest

/-- Where fewer tokens are left, the cursor has moved on. -/
theorem lt_of_rest (h : Passage tokens w w' events)
    (hRest : (view tokens w'.now).rest.length < (view tokens w.now).rest.length) :
    w.now.pos < w'.now.pos := by
  refine Nat.lt_of_le_of_ne h.trail.pos_le fun hSame => ?_
  have hEqual : (view tokens w'.now).rest = (view tokens w.now).rest := by
    rw [view, view, hSame]
  rw [hEqual] at hRest
  exact Nat.lt_irrefl _ hRest

/-- A change that does not move the cursor. -/
theorem act (label : Label) (f : Machine → Machine) (hPos : (f w.now).pos = w.now.pos)
    (hReady : Ready tokens (f w.now)) (hHolds : label.Holds (f w.now)) :
    Passage tokens w (w.after label f) [⟨label, f w.now⟩] where
  ready := hReady
  trail := ⟨.inl hPos, rfl⟩
  rests := .inl hPos
  log := rfl
  within e he := by
    obtain rfl := List.mem_singleton.mp he
    exact ⟨hReady, Nat.min_le_right _ _, fun _ => .inl hPos, hHolds⟩

/-- A turn of a loop after which fewer tokens are left is put on record. -/
theorem turn (loop : Loop) (h : Passage tokens w w' events)
    (hRest : (view tokens w'.now).rest.length < (view tokens w.now).rest.length) :
    Passage tokens w (w'.after (.turned loop w.now.pos) id)
      (events ++ [⟨.turned loop w.now.pos, w'.now⟩]) :=
  h.trans (act (.turned loop w.now.pos) id rfl h.ready (h.lt_of_rest hRest)) (Nat.min_le_right _ _)

/-- The cursor moves on by one token, wherever that is, and then comes to rest. -/
theorem step (hReady : Ready tokens w.now.next)
    (h : Passage tokens (w.after .stepped Machine.next) w' events)
    (hRest : AtRest tokens w'.now.pos)
    (hEvents : ∀ e ∈ events, e.label ≠ .stepped → AtRest tokens e.state.pos) :
    Passage tokens w w' (⟨.stepped, w.now.next⟩ :: events) where
  ready := h.ready
  trail := ⟨.inr rfl, h.trail⟩
  rests := .inr hRest
  log := by
    rw [h.log, World.after, List.append_assoc]
    rfl
  within e he := by
    cases List.mem_cons.mp he with
    | inl hFirst =>
        subst hFirst
        exact ⟨hReady, Nat.min_le_left _ _, fun hLabel => absurd rfl hLabel, trivial⟩
    | inr he =>
        exact { h.within e he with rests := fun hLabel => .inr (hEvents e he hLabel) }

end Passage

/-! ## Following a production -/

/-- As many levels are open as before. -/
def Stays (depth depth' : Nat) : Prop :=
  depth' = depth

/-- The innermost level has been closed. -/
def Drops (depth depth' : Nat) : Prop :=
  depth' + 1 = depth

/-- Levels may have been left open. -/
def Climbs (depth depth' : Nat) : Prop :=
  depth ≤ depth'

/-- From every state that is ready and has the given room, the action returns, and it does what
the production does, up to the number of open levels, for which `levels` stands. -/
def Follows (tokens : List Token) (levels : Nat → Nat → Prop) (room : Nat) (p : Run α)
    (q : Parser.Parse α) : Prop :=
  ∀ w, Ready tokens w.now → w.now.depth + room = maxNesting →
    ∃ a w' events, Yields tokens p w a w' ∧
      q.run (view tokens w.now) = (a, { view tokens w'.now with depth := w.now.depth }) ∧
      levels w.now.depth w'.now.depth ∧ Passage tokens w w' events

namespace Follows

variable {levels : Nat → Nat → Prop} {room : Nat} {p : Run α} {q : Parser.Parse α}
variable {f : α → Run β} {g : α → Parser.Parse β}

/-- Where as many levels are open as before, the states correspond altogether. -/
theorem stays_iff : Follows tokens Stays room p q ↔
    ∀ w, Ready tokens w.now → w.now.depth + room = maxNesting →
      ∃ a w' events, Yields tokens p w a w' ∧
        q.run (view tokens w.now) = (a, view tokens w'.now) ∧
        w'.now.depth = w.now.depth ∧ Passage tokens w w' events := by
  refine forall_congr' fun w => forall_congr' fun _ => forall_congr' fun _ => exists_congr fun a =>
    exists_congr fun w' => exists_congr fun events => and_congr_right fun _ => ?_
  have hView (hDepth : w'.now.depth = w.now.depth) :
      { view tokens w'.now with depth := w.now.depth } = view tokens w'.now := by
    rw [← hDepth]
    rfl
  constructor
  · rintro ⟨hRun, hDepth, hPassage⟩
    exact ⟨by rw [hRun, hView hDepth], hDepth, hPassage⟩
  · rintro ⟨hRun, hDepth, hPassage⟩
    exact ⟨by rw [hRun, hView hDepth], hDepth, hPassage⟩

theorem mono {levels' : Nat → Nat → Prop} (h : Follows tokens levels room p q)
    (hLevels : ∀ d d', levels d d' → levels' d d') : Follows tokens levels' room p q := by
  intro w hw hRoom
  obtain ⟨a, w', events, hYields, hRun, hDepth, hPassage⟩ := h w hw hRoom
  exact ⟨a, w', events, hYields, hRun, hLevels _ _ hDepth, hPassage⟩

theorem pure (a : α) : Follows tokens Stays room (Pure.pure a) (Pure.pure a) :=
  fun w hw _ => ⟨a, w, [], .pure a w, rfl, rfl, .refl hw⟩

theorem bind (hp : Follows tokens Stays room p q)
    (hf : ∀ a, Follows tokens levels room (f a) (g a)) :
    Follows tokens levels room (p >>= f) (q >>= g) := by
  intro w hw hRoom
  obtain ⟨a, w', events, hYields, hRun, hDepth, hPassage⟩ := stays_iff.mp hp w hw hRoom
  obtain ⟨b, w'', events', hYields', hRun', hLevels, hPassage'⟩ :=
    hf a w' hPassage.ready (by rw [hDepth]; exact hRoom)
  rw [hDepth] at hRun' hLevels
  refine ⟨b, w'', events ++ events', hYields.bind hYields', ?_, hLevels, ?_⟩
  · rw [StateT.run_bind, hRun]
    exact hRun'
  · exact hPassage.trans hPassage' (by omega)

/-- A call does what the procedure does. -/
theorem call {c : Call α} (h : Follows tokens levels room c.steps q) :
    Follows tokens levels room (.call c) q := by
  intro w hw hRoom
  obtain ⟨a, w', events, hYields, hRest⟩ := h w hw hRoom
  exact ⟨a, w', events, hYields.call, hRest⟩

theorem discard (hp : Follows tokens Stays room p q) :
    Follows tokens Stays room (Functor.discard p) (Functor.discard q) := by
  intro w hw hRoom
  obtain ⟨a, w', events, hYields, hRun, hRest⟩ := hp w hw hRoom
  refine ⟨(), w', events, hYields.discard, ?_, hRest⟩
  exact congrArg (fun r : α × Parser.State => ((), r.2)) hRun

end Follows

/-! ## Reading tokens -/

section Primitives

variable {room : Nat}

theorem kind_ne_eof_of_isTrivia {t : Token} (h : t.isTrivia = true) : t.kind ≠ .eof := by
  intro hEof
  rw [Token.isTrivia, hEof] at h
  cases h

/-- The cursor comes to rest on the next token that is not trivia.  The induction is on the
tokens that are left. -/
theorem exists_skipTrivia (n : Nat) : ∀ w : World, Ready tokens w.now →
    tokens.length = w.now.pos + n →
    ∃ p w' events, Yields tokens skipTrivia w () w' ∧ w'.now = { w.now with pos := p } ∧
      Passage tokens w w' events ∧ AtRest tokens p ∧
      (∀ e ∈ events, e.label ≠ .stepped → AtRest tokens e.state.pos) ∧
      remaining (tokens.drop p) = Parser.significant (tokens.drop w.now.pos) ∧
      Parser.endMarker (tokens.drop p) = Parser.endMarker (tokens.drop w.now.pos) := by
  induction n with
  | zero =>
      intro w hw hLength
      have hBound := hw.inBounds
      omega
  | succ n ih =>
      intro w hw hLength
      obtain ⟨t, ht⟩ := hw.exists_current
      by_cases hTrivia : t.isTrivia = true
      · have hKind := kind_ne_eof_of_isTrivia hTrivia
        have hNext : Ready tokens w.now.next :=
          { hw with inBounds := hw.closed.lt_of_ne_eof ht hKind }
        have hLeft : tokens.length = w.now.pos + 1 + n := by omega
        obtain ⟨p, w', events, hYields, hNow, hPassage, hRest, hEvents, hTokens, hStop⟩ :=
          ih (w.after .stepped Machine.next) hNext hLeft
        refine ⟨p, w', _, ?_, hNow, hPassage.step hNext (by rw [hNow]; exact hRest) hEvents, hRest,
          ?_, ?_, ?_⟩
        · refine .call ((Yields.current ht).bind ?_)
          rw [if_pos hTrivia]
          exact (Yields.act _ _ w).bind hYields
        · intro e he hLabel
          cases List.mem_cons.mp he with
          | inl hFirst => exact absurd (congrArg Event.label hFirst) hLabel
          | inr he => exact hEvents e he hLabel
        · rw [hTokens, drop_eq_cons ht, Parser.significant_cons, if_neg hKind, if_pos hTrivia]
          rfl
        · exact hStop.trans (hw.closed.endMarker_drop_succ ht hKind)
      · have hRest : AtRest tokens w.now.pos := ⟨t, ht, by simpa using hTrivia⟩
        refine ⟨w.now.pos, w.after .settled id, _, ?_, rfl, .act .settled id rfl hw trivial, hRest,
          ?_, ?_, rfl⟩
        · refine .call ((Yields.current ht).bind ?_)
          rw [if_neg hTrivia]
          exact Yields.act .settled id w
        · intro e he _
          rw [List.mem_singleton.mp he]
          exact hRest
        · rw [drop_eq_cons ht, remaining, Parser.significant_cons, if_neg hTrivia]

/-- Where the cursor is not at an end marker, it moves on to the next token left. -/
theorem exists_advance {w : World} {t : Token} (hw : Ready tokens w.now)
    (ht : tokens[w.now.pos]? = some t) (hKind : t.kind ≠ .eof) :
    ∃ w' events, Yields tokens advance w () w' ∧
      view tokens w'.now = (Parser.advance.run (view tokens w.now)).2 ∧
      Passage tokens w w' events := by
  have hBound := hw.closed.lt_of_ne_eof ht hKind
  have hNext : Ready tokens w.now.next := { hw with inBounds := hBound }
  have hLeft : tokens.length = w.now.pos + 1 + (tokens.length - (w.now.pos + 1)) := by omega
  obtain ⟨p, w', events, hYields, hNow, hPassage, hRest, hEvents, hTokens, hStop⟩ :=
    exists_skipTrivia _ (w.after .stepped Machine.next) hNext hLeft
  refine ⟨w', _, ?_, ?_,
    hPassage.step hNext (by rw [hNow]; exact hRest) hEvents⟩
  · refine (Yields.current ht).bind ?_
    rw [if_pos hKind]
    exact (Yields.act _ _ w).bind hYields
  · rw [hNow]
    show (⟨remaining (tokens.drop p), Parser.endMarker (tokens.drop p), _, _, _, _⟩ : Parser.State) =
      ⟨(view tokens w.now).rest.tail, Parser.endMarker (tokens.drop w.now.pos), _, _, _, _⟩
    rw [rest_view ht hKind, hTokens, hStop, ← hw.closed.endMarker_drop_succ ht hKind]
    rfl

theorem follows_advance : Follows tokens Stays room advance Parser.advance := by
  refine Follows.stays_iff.mpr fun w hw _ => ?_
  obtain ⟨t, ht⟩ := hw.exists_current
  by_cases hKind : t.kind = .eof
  · refine ⟨(), w, [], ?_, ?_, rfl, .refl hw⟩
    · refine (Yields.current ht).bind ?_
      rw [if_neg (fun h => h hKind)]
      exact .pure () w
    · have hNil := rest_view_eq_nil ht hKind
      show ((), { view tokens w.now with rest := (view tokens w.now).rest.tail }) =
        ((), view tokens w.now)
      rw [hNil, List.tail_nil, ← hNil]
  · obtain ⟨w', events, hYields, hView, hPassage⟩ := exists_advance hw ht hKind
    exact ⟨(), w', events, hYields, congrArg (Prod.mk ()) hView.symm,
      congrArg Parser.State.depth hView, hPassage⟩

theorem follows_current : Follows tokens Stays room current Parser.current := by
  intro w hw _
  obtain ⟨t, ht⟩ := hw.exists_current
  refine ⟨t, w, [], .current ht, ?_, rfl, .refl hw⟩
  rw [← current_view ht]
  rfl

/-- The state may be looked at. -/
theorem follows_now {levels : Nat → Nat → Prop} {f : Machine → Run β}
    {g : Parser.State → Parser.Parse β}
    (h : ∀ m, Follows tokens levels room (f m) (g (view tokens m))) :
    Follows tokens levels room (now >>= f) (get >>= g) := by
  intro w hw hRoom
  obtain ⟨b, w', events, hYields, hRest⟩ := h w.now w hw hRoom
  exact ⟨b, w', events, (Yields.now w).bind hYields, hRest⟩

/-- A change that moves no cursor and opens no level. -/
theorem follows_act {label : Label} {f : Machine → Machine} {g : Parser.State → Parser.State}
    (hView : ∀ m, view tokens (f m) = g (view tokens m)) (hPos : ∀ m, (f m).pos = m.pos)
    (hDepth : ∀ m, (f m).depth = m.depth)
    (hAccounted : ∀ m, (m.overflowed = true → m.Overrun) → (f m).overflowed = true → (f m).Overrun)
    (hHolds : ∀ m, label.Holds (f m)) :
    Follows tokens Stays room (act label f) (modify g) := by
  refine Follows.stays_iff.mpr fun w hw _ => ?_
  have hReady : Ready tokens (f w.now) :=
    ⟨hw.closed, by rw [hPos]; exact hw.inBounds, by rw [hDepth]; exact hw.shallow,
      hAccounted w.now hw.accounted⟩
  exact ⟨(), w.after label f, _, .act label f w, congrArg (Prod.mk ()) (hView w.now).symm,
    hDepth w.now, .act label f (hPos w.now) hReady (hHolds w.now)⟩

theorem Machine.Overrun.report {m : Machine} (h : m.Overrun) (e : SyntaxError) :
    (m.report e).Overrun := by
  obtain ⟨e', he', hFault⟩ := h
  exact ⟨e', Array.mem_push.mpr (.inl he'), hFault⟩

theorem follows_reportAt (fault : SyntaxFault) (t : Token) :
    Follows tokens Stays room (reportAt fault t) (Parser.reportAt fault t) :=
  follows_act (fun _ => rfl) (fun _ => rfl) (fun _ => rfl) (fun _ hAcc hOver => (hAcc hOver).report _)
    fun _ => trivial

theorem follows_report (fault : SyntaxFault) :
    Follows tokens Stays room (report fault) (Parser.report fault) :=
  follows_current.bind fun t => follows_reportAt fault t

theorem follows_isAt (kind : Token.Kind) :
    Follows tokens Stays room (isAt kind) (Parser.isAt kind) :=
  follows_current.bind fun _ => .pure _

theorem follows_isAtWord (word : String) :
    Follows tokens Stays room (isAtWord word) (Parser.isAtWord word) :=
  follows_current.bind fun _ => .pure _

theorem follows_typeHere : Follows tokens Stays room typeHere Parser.typeHere :=
  follows_current.bind fun _ => .pure _

theorem follows_placeholder : Follows tokens Stays room placeholder Parser.placeholder :=
  follows_current.bind fun _ => .pure _

/-- A choice is made alike on both sides. -/
theorem Follows.ite {levels : Nat → Nat → Prop} (c : Prop) [Decidable c] {p p' : Run α}
    {q q' : Parser.Parse α} (h : Follows tokens levels room p q)
    (h' : Follows tokens levels room p' q') :
    Follows tokens levels room (if c then p else p') (if c then q else q') := by
  split
  · exact h
  · exact h'

theorem follows_eat (kind : Token.Kind) : Follows tokens Stays room (eat kind) (Parser.eat kind) :=
  (follows_isAt kind).bind fun _ => .ite _ (follows_advance.bind fun _ => .pure _) (.pure _)

theorem follows_eatWord (word : String) :
    Follows tokens Stays room (eatWord word) (Parser.eatWord word) :=
  (follows_isAtWord word).bind fun _ => .ite _ (follows_advance.bind fun _ => .pure _) (.pure _)

theorem follows_expect (kind : Token.Kind) (what : String) :
    Follows tokens Stays room (expect kind what) (Parser.expect kind what) :=
  follows_current.bind fun _ => .ite _ (follows_advance.bind fun _ => .pure _)
    ((follows_report _).bind fun _ => .pure _)

theorem follows_discard_expect (kind : Token.Kind) (what : String) :
    Follows tokens Stays room (discard (expect kind what)) (discard (Parser.expect kind what)) :=
  (follows_expect kind what).discard

theorem follows_expectWord (word what : String) :
    Follows tokens Stays room (expectWord word what) (Parser.expectWord word what) :=
  (follows_eatWord word).bind fun _ => .ite _ (.pure _) (follows_report _)

theorem follows_declare (ident : Token) (dataType : DataType) :
    Follows tokens Stays room (declare ident dataType) (Parser.declare ident dataType) := by
  refine follows_now fun m => .ite _ (follows_reportAt _ ident) ?_
  exact follows_act (fun _ => rfl) (fun _ => rfl) (fun _ => rfl) (fun _ hAcc => hAcc)
    fun _ => trivial

theorem follows_checkDeclared (ident : Token) :
    Follows tokens Stays room (checkDeclared ident) (Parser.checkDeclared ident) :=
  follows_now fun _ => .ite _ (.pure _) (follows_reportAt _ ident)

/-! ## Levels -/

/-- After the report of an overflow, the limit has been reported. -/
theorem exists_reportOverflow {w : World} (hw : Ready tokens w.now) :
    ∃ w' events, Yields tokens reportOverflow w () w' ∧ w'.now.Overrun ∧
      view tokens w'.now.overflow = (Parser.reportOverflow.run (view tokens w.now)).2 ∧
      Passage tokens w w' events := by
  obtain ⟨t, ht⟩ := hw.exists_current
  by_cases hOver : w.now.overflowed = true
  · refine ⟨w, [], ?_, hw.accounted hOver, ?_, .refl hw⟩
    · refine (Yields.now w).bind ?_
      rw [if_pos hOver]
      exact .pure () w
    · show _ = ((if w.now.overflowed = true then _ else _ : Parser.Parse Unit).run _).2
      rw [if_pos hOver, Machine.overflow, ← hOver]
      rfl
  · let e := SyntaxError.ofToken .nestingTooDeep t
    have hReported : (w.now.report e).Overrun := ⟨e, Array.mem_push_self, rfl⟩
    have hReady : Ready tokens (w.now.report e) := { hw with accounted := fun _ => hReported }
    refine ⟨w.after .reported (·.report e), _, ?_, hReported, ?_,
      .act .reported (·.report e) rfl hReady trivial⟩
    · refine (Yields.now w).bind ?_
      rw [if_neg hOver]
      exact (Yields.current ht).bind (.act _ _ w)
    · show _ = ((if w.now.overflowed = true then _ else _ : Parser.Parse Unit).run _).2
      have hError : e = .ofToken .nestingTooDeep (view tokens w.now).current := by
        rw [current_view ht]
      rw [if_neg hOver, World.after, hError]
      rfl

/-- Where the limit is reached, no level is opened, and this has been reported. -/
theorem exists_refusal {w : World} (hw : Ready tokens w.now) (hDepth : w.now.depth = maxNesting) :
    ∃ w' events, Yields tokens enter w false w' ∧ w'.now.Overrun ∧
      view tokens w'.now = (Parser.reportOverflow.run (view tokens w.now)).2 ∧
      Passage tokens w w' events := by
  obtain ⟨w', events, hYields, hOver, hView, hPassage⟩ := exists_reportOverflow hw
  have hReady : Ready tokens w'.now.overflow := { hPassage.ready with accounted := fun _ => hOver }
  refine ⟨w'.after .refused Machine.overflow, _, ?_, hOver, hView,
    hPassage.trans (.act .refused Machine.overflow rfl hReady hOver) (Nat.min_le_right _ _)⟩
  refine (Yields.now w).bind ?_
  rw [if_pos (Nat.le_of_eq hDepth.symm)]
  exact hYields.bind ((Yields.act _ _ w').bind (.pure false _))

/-- Below the limit a level is opened. -/
theorem exists_entry {w : World} (hw : Ready tokens w.now) (hDepth : w.now.depth < maxNesting) :
    ∃ w' events, Yields tokens enter w true w' ∧
      view tokens w'.now = (Parser.openLevel.run (view tokens w.now)).2 ∧
      Passage tokens w w' events := by
  have hFlag : w.now.openLevel.overflowed =
      (w.now.overflowed && decide (maxNesting / 2 ≤ w.now.depth)) := by
    unfold Machine.openLevel
    by_cases hHalf : w.now.depth < maxNesting / 2
    · simp [hHalf, Nat.not_le.mpr hHalf]
    · simp [hHalf, Nat.not_lt.mp hHalf]
  have hReady : Ready tokens w.now.openLevel := by
    refine ⟨hw.closed, hw.inBounds, hDepth, fun hOver => hw.accounted ?_⟩
    rw [hFlag, Bool.and_eq_true] at hOver
    exact hOver.1
  refine ⟨w.after .entered Machine.openLevel, _, ?_, ?_,
    .act .entered Machine.openLevel rfl hReady trivial⟩
  · refine (Yields.now w).bind ?_
    rw [if_neg (Nat.not_le.mpr hDepth)]
    exact (Yields.act _ _ w).bind (.pure true _)
  · show (⟨_, _, _, _, _, w.now.openLevel.overflowed⟩ : Parser.State) = _
    rw [hFlag]
    rfl

theorem depth_reportOverflow (s : Parser.State) :
    (Parser.reportOverflow.run s).2.depth = s.depth := by
  show ((if s.overflowed = true then _ else _ : Parser.Parse Unit).run s).2.depth = _
  split
  · rfl
  · rfl

/-- A production inside one more level, or what takes its place without room. -/
theorem Follows.nested {levels levels' : Nat → Nat → Prop} {inside outside : Run α}
    {inside' : (inner : Nat) → inner < room → Parser.Parse α} {outside' : Parser.Parse α}
    (hEnds : ∀ d d', levels' (d + 1) d' → levels d d') (hStays : ∀ d, levels d d)
    (hInside : ∀ inner h, inner < maxNesting → Follows tokens levels' inner inside (inside' inner h))
    (hOutside : Follows tokens Stays 0 outside outside') :
    Follows tokens levels room (enter >>= fun b => if b = true then inside else outside)
      (Parser.nested room inside' outside') := by
  intro w hw hRoom
  cases room with
  | zero =>
      obtain ⟨w', events, hYields, -, hView, hPassage⟩ := exists_refusal hw hRoom
      have hDepth : w'.now.depth = w.now.depth :=
        (congrArg Parser.State.depth hView).trans (depth_reportOverflow _)
      obtain ⟨a, w'', events', hYields', hRun, hDepth', hPassage'⟩ :=
        hOutside w' hPassage.ready (by rw [hDepth]; exact hRoom)
      have hSame : w''.now.depth = w.now.depth := hDepth'.trans hDepth
      refine ⟨a, w'', _, hYields.bind hYields', ?_, ?_, hPassage.trans hPassage' (by omega)⟩
      · show outside'.run (Parser.reportOverflow.run (view tokens w.now)).2 = _
        rw [← hView, hRun, hDepth]
      · rw [hSame]
        exact hStays _
  | succ inner =>
      obtain ⟨w', events, hYields, hView, hPassage⟩ := exists_entry hw (by omega)
      have hDepth : w'.now.depth = w.now.depth + 1 := congrArg Parser.State.depth hView
      obtain ⟨a, w'', events', hYields', hRun, hDepth', hPassage'⟩ :=
        hInside inner (Nat.lt_succ_self inner) (by omega) w' hPassage.ready (by omega)
      rw [hDepth] at hRun hDepth'
      refine ⟨a, w'', _, hYields.bind hYields', ?_, hEnds _ _ hDepth',
        hPassage.trans hPassage' (by omega)⟩
      rw [hView] at hRun
      exact congrArg (fun r : α × Parser.State => (r.1, (Parser.closeLevel.run r.2).2)) hRun

/-- The innermost level is closed. -/
theorem follows_leave (a : α) (hRoom : room < maxNesting) :
    Follows tokens Drops room (leave >>= fun _ => Pure.pure a) (Pure.pure a) := by
  intro w hw hDepth
  obtain ⟨d, hd⟩ : ∃ d, w.now.depth = d + 1 := ⟨w.now.depth - 1, by omega⟩
  have hShallow := hw.shallow
  have hReady : Ready tokens (w.now.withDepth d) :=
    { hw with shallow := by show d ≤ maxNesting; omega }
  have hLeave : Yields tokens leave w () (w.after .released (·.withDepth d)) := by
    refine (Yields.now w).bind ?_
    rw [hd]
    exact (Yields.decrease d w).bind (.act _ _ w)
  exact ⟨a, _, _, hLeave.bind (.pure a _), rfl, hd.symm,
    .act .released (·.withDepth d) rfl hReady trivial⟩

end Primitives

end Cursor

end Braceless
