import Braceless.Proofs.Lexer.Relexing

/-!
# The lexer as a scanner with a cursor

`lex` cuts a text into pieces first and counts lines and columns afterwards.  The scanner does
all of it at once and one character at a time.  Its cursor is an offset in bytes, it looks at one
or two characters behind the cursor, and the text of a token is what lies between two offsets.
Its loops have no measure of their own.  So three things can go wrong that cannot go wrong in
`lex`: an offset may fall within a character or behind the end of the text, the text of a token may
end before it starts, and a loop may go on without end.  The first two are one outcome and the last
one is another, and neither comes about: with one turn more than the text has characters, the
scanner returns what `lex` returns.

## Main definitions

* `splitBytes`, `slice`: a text cut at an offset, and between two offsets.
* `Machine`, `Scan`: the cursor with what has been found, and actions on it.
* `tokenize`, `scan`: the loop over a text, and what the scanner returns.
* `Yields`: what an action returns, and the state that it leaves.
* `Faces`: the text behind the cursor.
* `Machine.read`, `Machine.take`: the state behind some characters, and behind a lexeme.

## Main results

* `yields_advanceWhile`, `yields_closeComment`, `yields_closeQuote`: where the loops end.
* `yields_readFrom`: what is read is the lexeme at the front of the text.
* `yields_turn`: a turn of the main loop takes a blank or a lexeme.
* `scan_eq_lex`: the scanner returns, and with what `lex` returns.
-/

namespace Braceless

namespace Scanner

/-! ## Bytes -/

/-- The number of bytes of a text. -/
def byteLength : List Char → Nat
  | [] => 0
  | c :: cs => c.utf8Size + byteLength cs

/-- The characters in the first bytes of a text and those behind them, if no character lies
across that place. -/
def splitBytes : Nat → List Char → Option (List Char × List Char)
  | 0, cs => some ([], cs)
  | _ + 1, [] => none
  | n + 1, c :: cs =>
    if c.utf8Size ≤ n + 1 then
      (splitBytes (n + 1 - c.utf8Size) cs).map fun parts => (c :: parts.1, parts.2)
    else none

/-- The characters between two offsets, if both are at the ends of characters and in order. -/
def slice (start stop : Nat) (cs : List Char) : Option (List Char) :=
  (splitBytes stop cs).bind fun parts => (splitBytes start parts.1).map Prod.snd

theorem byteLength_append (cs ds : List Char) :
    byteLength (cs ++ ds) = byteLength cs + byteLength ds := by
  induction cs with
  | nil => exact (Nat.zero_add _).symm
  | cons c cs ih => rw [List.cons_append, byteLength, ih, byteLength, Nat.add_assoc]

theorem splitBytes_append (front back : List Char) :
    splitBytes (byteLength front) (front ++ back) = some (front, back) := by
  induction front with
  | nil => cases back <;> rfl
  | cons c front ih =>
      obtain ⟨n, hn⟩ : ∃ n, byteLength (c :: front) = n + 1 := by
        refine Nat.exists_eq_succ_of_ne_zero ?_
        have hPos := c.utf8Size_pos
        rw [byteLength]
        omega
      have hLength : n + 1 = c.utf8Size + byteLength front := by rw [← hn, byteLength]
      have hFits : c.utf8Size ≤ n + 1 := by omega
      have hRest : n + 1 - c.utf8Size = byteLength front := by omega
      rw [hn, List.cons_append, splitBytes, if_pos hFits, hRest, ih]
      rfl

theorem slice_append (front text back : List Char) :
    slice (byteLength front) (byteLength (front ++ text)) (front ++ text ++ back) = some text := by
  rw [slice, splitBytes_append, Option.bind_some, splitBytes_append]
  rfl

/-! ## Actions -/

/-- The cursor and what has been found so far. -/
structure Machine where
  /-- The number of bytes in front of the cursor. -/
  offset : Nat
  /-- The line and the column of the cursor. -/
  pos : Position
  tokens : List Token
  errors : List LexicalError

/-- The state before anything has been read. -/
def Machine.start : Machine :=
  ⟨0, .start, [], []⟩

/-- Why the scanner stops without a result. -/
inductive Panic where
  /-- A text is cut within a character, behind its end, or behind the place where it starts. -/
  | badOffset
  /-- A loop has taken all the turns that it may take. -/
  | endless
deriving DecidableEq, Repr

/-- An action on a fixed text. -/
abbrev Scan :=
  ReaderT (List Char) (StateT Machine (Except Panic))

/-- What lies behind the cursor. -/
def ahead : Scan (List Char) := do
  match splitBytes (← get).offset (← read) with
  | some (_, back) => return back
  | none => throw .badOffset

/-- The character behind the cursor. -/
def peek : Scan (Option Char) :=
  return (← ahead).head?

/-- The character behind that one. -/
def peekNext : Scan (Option Char) :=
  return (← ahead).tail.head?

/-- The state behind one more character. -/
def Machine.step (m : Machine) (c : Char) : Machine :=
  { m with offset := m.offset + c.utf8Size, pos := m.pos.step c }

/-- Moves the cursor on by one character; at the end of the text nothing happens. -/
def advance : Scan Unit := do
  match ← peek with
  | some c => modify (·.step c)
  | none => return

/-- Moves the cursor on by some characters. -/
def advanceBy : Nat → Scan Unit
  | 0 => return
  | n + 1 => do
    advance
    advanceBy n

/-- Takes turns until one of them has a result. -/
def loop {α : Type} (turns : Nat) (turn : Scan (Option α)) : Scan α :=
  match turns with
  | 0 => throw .endless
  | turns + 1 => do
    match ← turn with
    | some a => return a
    | none => loop turns turn

/-- Moves the cursor on as long as it stands before characters that are asked for. -/
def advanceWhile (turns : Nat) (p : Char → Bool) : Scan Unit :=
  loop turns do
    if (← peek).any p then
      advance
      return none
    else
      return some ()

/-- The text between an offset and the cursor. -/
def textFrom (start : Nat) : Scan (List Char) := do
  match slice start (← get).offset (← read) with
  | some text => return text
  | none => throw .badOffset

/-- One more token, from an offset to the cursor. -/
def push (kind : Token.Kind) (start : Nat) (pos : Position) : Scan Unit := do
  let text ← textFrom start
  modify fun m => { m with tokens := m.tokens ++ [⟨kind, String.ofList text, pos⟩] }

/-- One more error. -/
def pushError (fault : LexicalFault) (c : Char) (pos : Position) : Scan Unit :=
  modify fun m => { m with errors := m.errors ++ [⟨fault, c, pos⟩] }

/-! ## Lexemes -/

def readLineComment (turns : Nat) : Scan Unit := do
  let m ← get
  advanceWhile turns (· != '\n')
  push .comment m.offset m.pos

/-- Moves the cursor behind the closing pair of a block comment, or to the end of the text. -/
def closeComment (turns : Nat) : Scan Unit :=
  loop turns do
    match ← peek with
    | none => return some ()
    | some c =>
      if c = '*' ∧ (← peekNext) = some '/' then
        advance
        advance
        return some ()
      else
        advance
        return none

def readBlockComment (turns : Nat) : Scan Unit := do
  let m ← get
  advance
  advance
  closeComment turns
  push .comment m.offset m.pos

def readNumber (turns : Nat) : Scan Unit := do
  let m ← get
  advanceWhile turns Char.isDigit
  if (← peek) = some '.' ∧ (← peekNext).any Char.isDigit then
    advance
    advanceWhile turns Char.isDigit
    push .decimal m.offset m.pos
  else
    push .integer m.offset m.pos

/-- Moves the cursor on by a backslash and, on the same line, by the character behind it. -/
def escape : Scan Unit := do
  advance
  if (← peek).any (· != '\n') then advance

/-- Moves the cursor behind the closing quote, or before the end of the line, and says whether
there is a closing quote. -/
def closeQuote (turns : Nat) (quote : Char) : Scan Bool :=
  loop turns do
    match ← peek with
    | none => return some false
    | some c =>
      if c = '\n' then return some false
      else if c = '\\' then
        escape
        return none
      else if c = quote then
        advance
        return some true
      else
        advance
        return none

def readQuoted (turns : Nat) (quote : Char) (kind : Token.Kind) (unclosed : LexicalFault) :
    Scan Unit := do
  let m ← get
  advance
  let closed ← closeQuote turns quote
  push kind m.offset m.pos
  unless closed do
    pushError unclosed quote m.pos

def readWord (turns : Nat) : Scan Unit := do
  let m ← get
  advanceWhile turns isWordPart
  let text ← textFrom m.offset
  push (if isKeyword (String.ofList text) then .keyword else .identifier) m.offset m.pos

/-- An operator or a bracket with its length, of two characters where possible. -/
def operator? (c : Char) (next : Option Char) : Option (Token.Kind × Nat) :=
  match next.bind (pairOperator? c) with
  | some kind => some (kind, 2)
  | none => (singleOperator? c).map (·, 1)

def readOperator (c : Char) : Scan Unit := do
  let m ← get
  match operator? c (← peekNext) with
  | some (kind, length) =>
    advanceBy length
    push kind m.offset m.pos
  | none =>
    advance
    push .invalid m.offset m.pos
    pushError .unexpectedCharacter c m.pos

/-! ## Texts -/

/-- Reads the blank or the lexeme that starts with the given character. -/
def readFrom (turns : Nat) (c : Char) : Scan Unit := do
  let next ← peekNext
  if isBlank c then advance
  else if c = '/' ∧ next = some '/' then readLineComment turns
  else if c = '/' ∧ next = some '*' then readBlockComment turns
  else if c = '"' then readQuoted turns '"' .string .unterminatedString
  else if c = '\'' then readQuoted turns '\'' .char .unterminatedChar
  else if c.isDigit then readNumber turns
  else if isWordStart c then readWord turns
  else readOperator c

/-- What has been found, closed by the end marker. -/
def Machine.result (m : Machine) : Lexed :=
  ⟨m.tokens ++ [⟨.eof, "", m.pos⟩], m.errors⟩

/-- A turn of the loop over a text. -/
def turn (turns : Nat) : Scan (Option Unit) := do
  match ← peek with
  | some c =>
    readFrom turns c
    return none
  | none => return some ()

/-- Reads a text to its end, where no loop may take more than the given number of turns. -/
def tokenize (turns : Nat) : Scan Lexed := do
  loop turns (turn turns)
  return (← get).result

/-- The tokens and errors of a text, by the scanner. -/
def scan (turns : Nat) (source : String) : Except Panic Lexed :=
  (·.1) <$> ((tokenize turns).run source.toList).run .start

/-! ## What an action comes to -/

section Yields

variable {α β : Type} {input : List Char} {m m' m'' : Machine}

/-- From the state `m`, the action returns `a` and leaves the state `m'`. -/
def Yields (input : List Char) (p : Scan α) (m : Machine) (a : α) (m' : Machine) : Prop :=
  (p.run input).run m = .ok (a, m')

theorem yields_pure (a : α) : Yields input (pure a) m a m :=
  rfl

theorem yields_get : Yields input get m m m :=
  rfl

theorem yields_read : Yields input read m input m :=
  rfl

theorem yields_modify (f : Machine → Machine) : Yields input (modify f) m () (f m) :=
  rfl

theorem Yields.bind {p : Scan α} {f : α → Scan β} {a : α} {b : β}
    (h : Yields input p m a m') (hRest : Yields input (f a) m' b m'') :
    Yields input (p >>= f) m b m'' := by
  unfold Yields at h hRest ⊢
  rw [ReaderT.run_bind, StateT.run_bind, h]
  exact hRest

theorem yields_loop_done {turn : Scan (Option α)} {a : α} {k turns : Nat} (hTurns : k < turns)
    (h : Yields input turn m (some a) m') : Yields input (loop turns turn) m a m' := by
  obtain ⟨n, rfl⟩ := Nat.exists_eq_add_of_lt hTurns
  exact h.bind (yields_pure a)

theorem yields_loop_next {turn : Scan (Option α)} {a : α} {k turns : Nat} (hTurns : k < turns)
    (h : Yields input turn m none m') (hRest : Yields input (loop (turns - 1) turn) m' a m'') :
    Yields input (loop turns turn) m a m'' := by
  obtain ⟨n, rfl⟩ := Nat.exists_eq_add_of_lt hTurns
  exact h.bind hRest

end Yields

/-! ## The cursor -/

/-- The state behind the given characters. -/
def Machine.read (m : Machine) (cs : List Char) : Machine :=
  { m with offset := m.offset + byteLength cs, pos := m.pos.after cs }

theorem read_nil (m : Machine) : m.read [] = m :=
  rfl

theorem read_append (m : Machine) (cs ds : List Char) :
    m.read (cs ++ ds) = (m.read cs).read ds := by
  simp [Machine.read, byteLength_append, Position.after_append, Nat.add_assoc]

theorem read_cons (m : Machine) (c : Char) (cs : List Char) :
    m.read (c :: cs) = (m.read [c]).read cs :=
  read_append m [c] cs

/-- What is behind the cursor in the text. -/
def Faces (input : List Char) (m : Machine) (back : List Char) : Prop :=
  ∃ front, input = front ++ back ∧ m.offset = byteLength front

section Faces

variable {input : List Char} {m : Machine}

theorem Faces.read {cs back : List Char} (h : Faces input m (cs ++ back)) :
    Faces input (m.read cs) back := by
  obtain ⟨front, hInput, hOffset⟩ := h
  refine ⟨front ++ cs, by rw [hInput, List.append_assoc], ?_⟩
  rw [byteLength_append, ← hOffset]
  rfl

theorem Faces.step {c : Char} {back : List Char} (h : Faces input m (c :: back)) :
    Faces input (m.read [c]) back :=
  Faces.read h

/-- The text behind the cursor, cut behind a first part that is not empty. -/
theorem Faces.split {c : Char} {cs : List Char} (h : Faces input m (c :: cs)) (n : Nat) :
    Faces input m ((c :: cs.take n) ++ cs.drop n) := by
  rwa [List.cons_append, List.take_append_drop]

theorem yields_ahead {back : List Char} (h : Faces input m back) :
    Yields input ahead m back m := by
  obtain ⟨front, hInput, hOffset⟩ := h
  have hSplit : splitBytes m.offset input = some (front, back) := by
    rw [hInput, hOffset, splitBytes_append]
  refine yields_get.bind (yields_read.bind ?_)
  rw [hSplit]
  exact yields_pure back

theorem yields_peek {back : List Char} (h : Faces input m back) :
    Yields input peek m back.head? m :=
  (yields_ahead h).bind (yields_pure _)

theorem yields_peekNext {back : List Char} (h : Faces input m back) :
    Yields input peekNext m back.tail.head? m :=
  (yields_ahead h).bind (yields_pure _)

theorem yields_advance {c : Char} {back : List Char} (h : Faces input m (c :: back)) :
    Yields input advance m () (m.read [c]) :=
  (yields_peek h).bind (yields_modify _)

theorem yields_textFrom {text back : List Char} (h : Faces input m (text ++ back)) :
    Yields input (textFrom m.offset) (m.read text) text (m.read text) := by
  obtain ⟨front, hInput, hOffset⟩ := h
  have hStop : (m.read text).offset = byteLength (front ++ text) := by
    rw [byteLength_append, ← hOffset]
    rfl
  have hSlice : slice m.offset (m.read text).offset input = some text := by
    rw [hStop, hOffset, hInput, ← List.append_assoc, slice_append]
  refine yields_get.bind (yields_read.bind ?_)
  rw [hSlice]
  exact yields_pure text

/-! ## Loops -/

/-- The cursor ends up behind the run.  All but the last turn of a loop take a character of what is
behind the cursor, so the induction is on that. -/
theorem yields_advanceWhile (p : Char → Bool) {back : List Char} {turns : Nat}
    (h : Faces input m back) (hTurns : back.length < turns) :
    Yields input (advanceWhile turns p) m () (m.read (back.take (runLength p back))) := by
  induction back generalizing m turns with
  | nil => exact yields_loop_done hTurns ((yields_peek h).bind (yields_pure (some ())))
  | cons c back ih =>
      by_cases hc : p c = true
      · have hRest := ih h.step (Nat.lt_sub_of_add_lt hTurns)
        rw [runLength_cons_of_pos hc, List.take_succ_cons, read_cons]
        refine yields_loop_next hTurns ((yields_peek h).bind ?_) hRest
        rw [List.head?_cons, Option.any_some, if_pos hc]
        exact (yields_advance h).bind (yields_pure none)
      · have hLength : runLength p (c :: back) = 0 := by simp [runLength, hc]
        rw [hLength, List.take_zero, read_nil]
        refine yields_loop_done hTurns ((yields_peek h).bind ?_)
        rw [List.head?_cons, Option.any_some, if_neg hc]
        exact yields_pure (some ())

/-- The cursor ends up behind the comment. -/
theorem yields_closeComment {body : List Char} {turns : Nat}
    (h : Faces input m body) (hTurns : body.length < turns) :
    Yields input (closeComment turns) m () (m.read (body.take (blockCommentLength body))) := by
  fun_induction blockCommentLength body generalizing m turns with
  | case1 => exact yields_loop_done hTurns ((yields_peek h).bind (yields_pure (some ())))
  | case2 body =>
      have hEnd : Yields input (pure (some ())) ((m.read ['*']).read ['/']) (some ())
          (m.read ['*', '/']) := by
        rw [read_cons]
        exact yields_pure (some ())
      refine yields_loop_done hTurns ((yields_peek h).bind ((yields_peekNext h).bind ?_))
      rw [if_pos ⟨rfl, rfl⟩]
      exact (yields_advance h).bind ((yields_advance h.step).bind hEnd)
  | case3 c body hPair ih =>
      have hNot : ¬ (c = '*' ∧ body.head? = some '/') := by
        rintro ⟨hc, hHead⟩
        obtain ⟨rest, hRest⟩ := exists_eq_cons_of_head? hHead
        exact hPair rest hc hRest
      have hRest := ih h.step (Nat.lt_sub_of_add_lt hTurns)
      rw [List.take_succ_cons, read_cons]
      refine yields_loop_next hTurns ((yields_peek h).bind ((yields_peekNext h).bind ?_)) hRest
      rw [List.tail_cons, if_neg hNot]
      exact (yields_advance h).bind (yields_pure none)

theorem yields_escape_pair {c d : Char} {cs : List Char} (hd : d ≠ '\n')
    (h : Faces input m (c :: d :: cs)) : Yields input escape m () (m.read [c, d]) := by
  rw [read_cons]
  refine (yields_advance h).bind ((yields_peek h.step).bind ?_)
  rw [List.head?_cons, Option.any_some, if_pos (bne_iff_ne.mpr hd)]
  exact yields_advance h.step

theorem yields_escape_alone {c : Char} {cs : List Char} (hcs : ∀ d ∈ cs.head?, d = '\n')
    (h : Faces input m (c :: cs)) : Yields input escape m () (m.read [c]) := by
  have hStop : ¬ cs.head?.any (· != '\n') = true := by
    cases cs with
    | nil => simp
    | cons d cs => simp [hcs d rfl]
  refine (yields_advance h).bind ((yields_peek h.step).bind ?_)
  rw [if_neg hStop]
  exact yields_pure ()

/-- Before the end of the line there is no closing quote. -/
theorem yields_closeQuote_line {quote : Char} {cs : List Char} {k turns : Nat}
    (hcs : ∀ d ∈ cs.head?, d = '\n') (h : Faces input m cs) (hTurns : k < turns) :
    Yields input (closeQuote turns quote) m false m := by
  refine yields_loop_done hTurns ((yields_peek h).bind ?_)
  cases cs with
  | nil => exact yields_pure (some false)
  | cons d cs =>
      obtain rfl := hcs d rfl
      exact yields_pure (some false)

/-- A backslash at the end of the line is the last character of the literal. -/
theorem yields_closeQuote_escape {quote : Char} {cs : List Char} {turns : Nat}
    (hcs : ∀ d ∈ cs.head?, d = '\n') (h : Faces input m ('\\' :: cs))
    (hTurns : ('\\' :: cs).length < turns) :
    Yields input (closeQuote turns quote) m false (m.read ['\\']) := by
  refine yields_loop_next hTurns ((yields_peek h).bind ?_)
    (yields_closeQuote_line hcs h.step (Nat.lt_sub_of_add_lt hTurns))
  exact (yields_escape_alone hcs h).bind (yields_pure none)

/-- The cursor ends up behind the literal. -/
theorem yields_closeQuote (quote : Char) (cs : List Char) :
    ∀ (m : Machine) (turns : Nat), Faces input m cs → cs.length < turns →
      Yields input (closeQuote turns quote) m (quotedLength quote cs).2
        (m.read (cs.take (quotedLength quote cs).1)) := by
  fun_induction quotedLength quote cs with
  | case1 =>
      intro m turns h hTurns
      exact yields_closeQuote_line (by simp) h hTurns
  | case2 cs =>
      intro m turns h hTurns
      exact yields_closeQuote_line (by simp) h hTurns
  | case3 =>
      intro m turns h hTurns
      exact yields_closeQuote_escape (by simp) h hTurns
  | case4 cs =>
      intro m turns h hTurns
      exact yields_closeQuote_escape (by simp) h hTurns
  | case5 d cs hLine rest _ ih =>
      intro m turns h hTurns
      have hTwo : Faces input (m.read ['\\', d]) cs := Faces.read h
      have hLess : cs.length < turns - 1 := by
        simp only [List.length_cons] at hTurns
        omega
      have hRest := ih _ _ hTwo hLess
      rw [← read_append] at hRest
      refine yields_loop_next hTurns ((yields_peek h).bind ?_) hRest
      exact (yields_escape_pair hLine h).bind (yields_pure none)
  | case6 cs hLine hSlash =>
      intro m turns h hTurns
      refine yields_loop_done hTurns ((yields_peek h).bind ?_)
      dsimp only [List.head?_cons]
      rw [if_neg hLine, if_neg hSlash, if_pos rfl]
      exact (yields_advance h).bind (yields_pure (some true))
  | case7 c cs hLine hSlash hQuote rest ih =>
      intro m turns h hTurns
      have hRest := ih _ _ h.step (Nat.lt_sub_of_add_lt hTurns)
      rw [← read_cons] at hRest
      refine yields_loop_next hTurns ((yields_peek h).bind ?_) hRest
      dsimp only [List.head?_cons]
      rw [if_neg hLine, if_neg hSlash, if_neg hQuote]
      exact (yields_advance h).bind (yields_pure none)

/-- Behind a run with the given first character. -/
theorem yields_advanceWhile_cons {p : Char → Bool} {c : Char} {cs : List Char} {turns : Nat}
    (hc : p c = true) (h : Faces input m (c :: cs)) (hTurns : (c :: cs).length < turns) :
    Yields input (advanceWhile turns p) m () (m.read (c :: cs.take (runLength p cs))) := by
  have hRun := yields_advanceWhile p h hTurns
  rwa [runLength_cons_of_pos hc, List.take_succ_cons] at hRun

/-! ## Readers -/

/-- The lexeme of the given extent at the front of the text `c :: cs`. -/
def lexemeOf (c : Char) (cs : List Char) (e : Extent) : Lexeme :=
  ⟨e.kind, c, cs.take e.more, e.fault⟩

/-- The state behind a lexeme. -/
def Machine.take (m : Machine) (l : Lexeme) : Machine :=
  { m.read l.chars with
    tokens := m.tokens ++ [l.token m.pos]
    errors := m.errors ++ (l.error? m.pos).toList }

section Readers

variable {c : Char} {cs : List Char} {turns : Nat}

theorem yields_push (e : Extent) (h : Faces input m (c :: cs)) :
    Yields input (push e.kind m.offset m.pos) (m.read (c :: cs.take e.more)) ()
      { m.read (c :: cs.take e.more) with
        tokens := m.tokens ++ [(lexemeOf c cs e).token m.pos] } :=
  (yields_textFrom (h.split e.more)).bind (yields_modify _)

theorem yields_push_sound (e : Extent) (hFault : e.fault = none) (h : Faces input m (c :: cs)) :
    Yields input (push e.kind m.offset m.pos) (m.read (c :: cs.take e.more)) ()
      (m.take (lexemeOf c cs e)) := by
  have hErrors : m.errors ++ ((lexemeOf c cs e).error? m.pos).toList = m.errors := by
    simp [Lexeme.error?, lexemeOf, hFault]
  rw [Machine.take, hErrors]
  exact yields_push e h

theorem yields_readLineComment (h : Faces input m ('/' :: cs))
    (hTurns : ('/' :: cs).length < turns) :
    Yields input (readLineComment turns) m ()
      (m.take (lexemeOf '/' cs ⟨.comment, runLength (· != '\n') cs, none⟩)) :=
  yields_get.bind ((yields_advanceWhile_cons (by decide) h hTurns).bind
    (yields_push_sound ⟨.comment, runLength (· != '\n') cs, none⟩ rfl h))

theorem yields_readBlockComment {body : List Char} (h : Faces input m ('/' :: '*' :: body))
    (hTurns : body.length < turns) :
    Yields input (readBlockComment turns) m ()
      (m.take (lexemeOf '/' ('*' :: body) ⟨.comment, blockCommentLength body + 1, none⟩)) := by
  have hClose := yields_closeComment h.step.step hTurns
  have hPush := yields_push_sound ⟨.comment, blockCommentLength body + 1, none⟩ rfl h
  rw [List.take_succ_cons, read_cons, read_cons] at hPush
  exact yields_get.bind ((yields_advance h).bind ((yields_advance h.step).bind
    (hClose.bind hPush)))

/-- The extent of a number by the two characters behind its first digits. -/
theorem numberExtent_eq {cs rest : List Char} (hRest : cs.drop (runLength Char.isDigit cs) = rest) :
    numberExtent cs =
      if rest.head? = some '.' ∧ rest.tail.head?.any Char.isDigit then
        ⟨.decimal, runLength Char.isDigit cs + (runLength Char.isDigit rest.tail + 1), none⟩
      else ⟨.integer, runLength Char.isDigit cs, none⟩ := by
  unfold numberExtent
  dsimp only
  rw [hRest]
  split
  case h_1 d ds =>
    by_cases hd : d.isDigit = true
    · simp [hd, runLength_cons_of_pos hd]
      omega
    · simp [hd]
  case h_2 hNot =>
    rw [if_neg]
    rintro ⟨hPoint, hDigit⟩
    obtain ⟨tail, rfl⟩ := exists_eq_cons_of_head? hPoint
    cases tail with
    | nil => cases hDigit
    | cons d ds => exact hNot d ds rfl

theorem yields_readNumber (hDigit : c.isDigit = true) (h : Faces input m (c :: cs))
    (hTurns : (c :: cs).length < turns) :
    Yields input (readNumber turns) m () (m.take (lexemeOf c cs (numberExtent cs))) := by
  obtain ⟨rest, hRest⟩ : ∃ rest, cs.drop (runLength Char.isDigit cs) = rest := ⟨_, rfl⟩
  have hWhole := yields_advanceWhile_cons hDigit h hTurns
  have hBehind : Faces input (m.read (c :: cs.take (runLength Char.isDigit cs))) rest :=
    hRest ▸ (h.split (runLength Char.isDigit cs)).read
  rw [numberExtent_eq hRest]
  refine yields_get.bind (hWhole.bind ((yields_peek hBehind).bind
    ((yields_peekNext hBehind).bind ?_)))
  by_cases hPoint : rest.head? = some '.' ∧ rest.tail.head?.any Char.isDigit = true
  · rw [if_pos hPoint, if_pos hPoint]
    obtain ⟨tail, rfl⟩ := exists_eq_cons_of_head? hPoint.1
    have hLength : tail.length < turns := by
      have hDrop := congrArg List.length hRest
      simp only [List.length_drop, List.length_cons] at hDrop hTurns
      omega
    have hFraction := yields_advanceWhile Char.isDigit hBehind.step hLength
    have hPush := yields_push_sound ⟨.decimal, runLength Char.isDigit cs +
      (runLength Char.isDigit tail + 1), none⟩ rfl h
    rw [List.take_add, hRest, List.take_succ_cons, ← List.cons_append, read_append,
      read_cons] at hPush
    exact (yields_advance hBehind).bind (hFraction.bind hPush)
  · rw [if_neg hPoint, if_neg hPoint]
    exact yields_push_sound ⟨.integer, runLength Char.isDigit cs, none⟩ rfl h

theorem yields_readQuoted {quote : Char} (kind : Token.Kind) (unclosed : LexicalFault)
    (h : Faces input m (quote :: cs)) (hTurns : cs.length < turns) :
    Yields input (readQuoted turns quote kind unclosed) m ()
      (m.take (lexemeOf quote cs (quotedExtent quote kind unclosed cs))) := by
  have hClose := yields_closeQuote quote cs _ _ h.step hTurns
  rw [← read_cons] at hClose
  refine yields_get.bind ((yields_advance h).bind (hClose.bind ?_))
  cases hClosed : (quotedLength quote cs).2 with
  | true =>
      have hFault : (quotedExtent quote kind unclosed cs).fault = none := by
        simp [quotedExtent, hClosed]
      exact (yields_push_sound _ hFault h).bind (yields_pure ())
  | false =>
      have hError : ((lexemeOf quote cs (quotedExtent quote kind unclosed cs)).error?
          m.pos).toList = [⟨unclosed, quote, m.pos⟩] := by
        simp [lexemeOf, quotedExtent, Lexeme.error?, hClosed]
      rw [Machine.take, hError]
      exact (yields_push (quotedExtent quote kind unclosed cs) h).bind (yields_modify _)

theorem yields_readWord (hWord : isWordStart c = true) (h : Faces input m (c :: cs))
    (hTurns : (c :: cs).length < turns) :
    Yields input (readWord turns) m () (m.take (lexemeOf c cs (wordExtent c cs))) := by
  have hRun := yields_advanceWhile_cons (isWordPart_of_isWordStart hWord) h hTurns
  have hText := yields_textFrom (h.split (runLength isWordPart cs))
  exact yields_get.bind (hRun.bind (hText.bind (yields_push_sound (wordExtent c cs) rfl h)))

theorem yields_readOperator (h : Faces input m (c :: cs)) :
    Yields input (readOperator c) m () (m.take (lexemeOf c cs (operatorExtent c cs))) := by
  refine yields_get.bind ((yields_peekNext h).bind ?_)
  rw [operatorExtent, operator?, List.tail_cons]
  cases hPair : cs.head?.bind (pairOperator? c) with
  | some kind =>
      obtain ⟨d, hHead, -⟩ := Option.bind_eq_some_iff.mp hPair
      obtain ⟨rest, rfl⟩ := exists_eq_cons_of_head? hHead
      have hPush := yields_push_sound ⟨kind, 1, none⟩ rfl h
      rw [List.take_succ_cons, List.take_zero, read_cons] at hPush
      exact ((yields_advance h).bind ((yields_advance h.step).bind (yields_pure ()))).bind hPush
  | none =>
      cases hSingle : singleOperator? c with
      | some kind =>
          have hPush := yields_push_sound ⟨kind, 0, none⟩ rfl h
          exact ((yields_advance h).bind (yields_pure ())).bind hPush
      | none =>
          have hPush := yields_push ⟨.invalid, 0, some .unexpectedCharacter⟩ h
          exact (yields_advance h).bind (hPush.bind (yields_modify _))

/-- A lexeme is read by the reader for its first characters.  The quotes are asked for before the
digits here and after them in `extent`, which makes no difference. -/
theorem yields_readFrom (hBlank : ¬ isBlank c = true) (h : Faces input m (c :: cs))
    (hTurns : (c :: cs).length < turns) :
    Yields input (readFrom turns c) m () (m.take (Lexeme.front c cs)) := by
  have hLess : cs.length < turns := Nat.lt_of_succ_lt hTurns
  refine (yields_peekNext h).bind ?_
  show Yields input _ m () (m.take (lexemeOf c cs (extent c cs)))
  rw [List.tail_cons, if_neg hBlank]
  by_cases hLine : c = '/' ∧ cs.head? = some '/'
  · rw [if_pos hLine, extent, if_pos hLine]
    obtain ⟨rfl, -⟩ := hLine
    exact yields_readLineComment h hTurns
  rw [if_neg hLine]
  by_cases hBlock : c = '/' ∧ cs.head? = some '*'
  · rw [if_pos hBlock]
    obtain ⟨rfl, hHead⟩ := hBlock
    obtain ⟨body, rfl⟩ := exists_eq_cons_of_head? hHead
    rw [extent_comment]
    exact yields_readBlockComment h (Nat.lt_of_succ_lt hLess)
  rw [if_neg hBlock, extent_plain cs hLine hBlock]
  by_cases hString : c = '"'
  · subst hString
    exact yields_readQuoted .string .unterminatedString h hLess
  by_cases hChar : c = '\''
  · subst hChar
    exact yields_readQuoted .char .unterminatedChar h hLess
  rw [if_neg hString, if_neg hChar]
  by_cases hDigit : c.isDigit = true
  · rw [if_pos hDigit, if_pos hDigit]
    exact yields_readNumber hDigit h hTurns
  rw [if_neg hDigit, if_neg hDigit, if_neg hString, if_neg hChar]
  by_cases hWord : isWordStart c = true
  · rw [if_pos hWord, if_pos hWord]
    exact yields_readWord hWord h hTurns
  · rw [if_neg hWord, if_neg hWord]
    exact yields_readOperator h

end Readers

/-! ## Texts -/

/-- The state behind a blank or a lexeme. -/
def Machine.pass (m : Machine) : Piece → Machine
  | .blank c => m.read [c]
  | .lexeme l => m.take l

/-- A turn of the main loop takes one piece of the text. -/
theorem yields_turn {c : Char} {cs : List Char} {turns : Nat} (h : Faces input m (c :: cs))
    (hTurns : (c :: cs).length < turns) :
    Yields input (turn turns) m none
      (m.pass (if isBlank c then .blank c else .lexeme (Lexeme.front c cs))) := by
  refine (yields_peek h).bind ?_
  by_cases hBlank : isBlank c = true
  · rw [if_pos hBlank]
    have hAdvance : Yields input (readFrom turns c) m () (m.read [c]) := by
      refine (yields_peekNext h).bind ?_
      rw [if_pos hBlank]
      exact yields_advance h
    exact hAdvance.bind (yields_pure none)
  · rw [if_neg hBlank]
    exact (yields_readFrom hBlank h hTurns).bind (yields_pure none)

/-- The main loop takes the pieces of the text, one after the other. -/
theorem yields_pieces (back : List Char) :
    ∀ (m : Machine) (k turns : Nat), Faces input m back → back.length < k → back.length < turns →
      Yields input (loop k (turn turns)) m () ((pieces back).foldl Machine.pass m) := by
  fun_induction pieces back with
  | case1 =>
      intro m k turns h hk _
      exact yields_loop_done hk ((yields_peek h).bind (yields_pure (some ())))
  | case2 c cs hBlank ih =>
      intro m k turns h hk hTurns
      have hTurn := yields_turn h hTurns
      rw [if_pos hBlank] at hTurn
      exact yields_loop_next hk hTurn
        (ih _ _ _ h.step (Nat.lt_sub_of_add_lt hk) (Nat.lt_of_succ_lt hTurns))
  | case3 c cs hBlank ih =>
      intro m k turns h hk hTurns
      have hTurn := yields_turn h hTurns
      rw [if_neg hBlank] at hTurn
      have hBehind : Faces input (m.take (Lexeme.front c cs)) (cs.drop (extent c cs).more) :=
        (h.split (extent c cs).more).read
      have hLength : (cs.drop (extent c cs).more).length ≤ cs.length := by
        rw [List.length_drop]
        exact Nat.sub_le _ _
      exact yields_loop_next hk hTurn (ih _ _ _ hBehind
        (Nat.lt_of_le_of_lt hLength (Nat.lt_sub_of_add_lt hk))
        (Nat.lt_of_le_of_lt hLength (Nat.lt_of_succ_lt hTurns)))

end Faces

/-- Pieces that are taken one after the other give the tokens and errors of all of them. -/
theorem result_foldl_pass (ps : List Piece) (m : Machine) :
    (ps.foldl Machine.pass m).result =
      ⟨m.tokens ++ (place m.pos ps).tokens, m.errors ++ (place m.pos ps).errors⟩ := by
  induction ps generalizing m with
  | nil => simp [Machine.result, place]
  | cons piece ps ih =>
      rw [List.foldl_cons, ih]
      cases piece with
      | blank c => rfl
      | lexeme l => simp [Machine.pass, Machine.take, Machine.read, place]

/-- **The scanner returns what the lexer returns.**  A loop that goes on without end is one that
takes more turns than any given number, so a bound on them is no restriction. -/
theorem scan_eq_lex {source : String} {turns : Nat} (hTurns : source.length < turns) :
    scan turns source = .ok (lex source) := by
  have hLength : source.toList.length < turns := by rwa [String.length_toList]
  have hFaces : Faces source.toList .start source.toList := ⟨[], rfl, rfl⟩
  have hRun := yields_pieces source.toList .start turns turns hFaces hLength hLength
  have hResult : ((pieces source.toList).foldl Machine.pass .start).result = lex source :=
    result_foldl_pass (pieces source.toList) .start
  have hScan : Yields source.toList (tokenize turns) .start (lex source)
      ((pieces source.toList).foldl Machine.pass .start) := by
    rw [← hResult]
    exact hRun.bind (yields_get.bind (yields_pure _))
  rw [scan, hScan]
  rfl

end Scanner

end Braceless
