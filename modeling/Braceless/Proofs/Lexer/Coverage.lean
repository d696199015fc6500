import Braceless.Proofs.Spelling

/-!
# Tokens and the text they stand in

The tokens of a text are the text, cut into pieces: between two of them there are blanks
and nothing else, none of them is empty but the end marker, and each stands where its
position says.  A position is what a reader would count: the line feeds before a place,
and the characters since the last of them.

The lexer keeps a running position instead, which it moves along with every character.
The two agree, and so the positions of the tokens increase.

## Main definitions

* `Position.behind`: the position behind a text, by counting.
* `blanks`: what may stand between tokens.
* `Gapped`: a token with the blanks in front of it.
* `Placed`: tokens that stand where their positions say.

## Main results

* `Position.after_behind`: the running position is the counted one.
* `exists_gapped_place`: the pieces of a text as tokens with the blanks before them.
* `pairwise_pos_of_placed`: the positions of tokens that are placed increase.
-/

namespace Braceless

/-! ## Counting -/

namespace Position

/-- The position behind a text: one line more than there are line feeds, and one column
more than there are characters behind the last of them. -/
def behind (cs : List Char) : Position :=
  ⟨cs.count '\n' + 1, (cs.reverse.takeWhile (· != '\n')).length + 1⟩

theorem behind_concat (cs : List Char) (c : Char) :
    behind (cs ++ [c]) = (behind cs).step c := by
  by_cases h : c = '\n'
  · subst h
    simp [behind, step]
  · simp [behind, step, h]

/-- The running position is the counted one. -/
theorem after_behind (cs ds : List Char) : (behind cs).after ds = behind (cs ++ ds) := by
  induction ds generalizing cs with
  | nil => simp
  | cons d ds ih =>
      rw [after_cons, ← behind_concat, ih, List.append_assoc]
      rfl

/-! ## Order -/

theorem lt_trans {p q r : Position} (hpq : p < q) (hqr : q < r) : p < r := by
  rw [lt_def] at *
  omega

theorem le_trans {p q r : Position} (hpq : p ≤ q) (hqr : q ≤ r) : p ≤ r := by
  rw [le_def] at *
  omega

theorem lt_of_lt_of_le {p q r : Position} (hpq : p < q) (hqr : q ≤ r) : p < r := by
  rw [lt_def] at *
  rw [le_def] at hqr
  omega

theorem lt_step (p : Position) (c : Char) : p < p.step c := by
  unfold step
  rw [lt_def]
  split <;> simp

/-- A text that is not empty ends behind the place where it starts. -/
theorem lt_after (p : Position) {cs : List Char} (h : cs ≠ []) : p < p.after cs := by
  induction cs generalizing p with
  | nil => exact absurd rfl h
  | cons c cs ih =>
      by_cases hcs : cs = []
      · subst hcs
        exact lt_step p c
      · exact lt_trans (lt_step p c) (ih (p.step c) hcs)

theorem behind_lt_append (cs : List Char) {ds : List Char} (h : ds ≠ []) :
    behind cs < behind (cs ++ ds) := by
  rw [← after_behind]
  exact lt_after _ h

theorem behind_le_append (cs ds : List Char) : behind cs ≤ behind (cs ++ ds) := by
  by_cases h : ds = []
  · simp [h, le_def]
  · have hLess := behind_lt_append cs h
    rw [lt_def] at hLess
    rw [le_def]
    omega

end Position

/-! ## Tokens and gaps -/

/-- The characters that may stand between tokens. -/
def blanks : List Char :=
  [' ', '\t', '\r', '\n', '\uFEFF']

theorem isBlank_iff {c : Char} : isBlank c = true ↔ c ∈ blanks := by
  simp [isBlank, blanks, or_assoc]

/-- A token with the characters between it and the token before it. -/
structure Gapped where
  gap : List Char
  token : Token

namespace Gapped

/-- The characters of the gap and of the token. -/
def chars (g : Gapped) : List Char :=
  g.gap ++ g.token.text.toList

/-- A token that has characters, behind blanks. -/
structure Proper (g : Gapped) : Prop where
  blank : ∀ c ∈ g.gap, c ∈ blanks
  notEnd : g.token.kind ≠ .eof
  text : g.token.text ≠ ""

end Gapped

/-- Behind the text `before`, every token stands where its position says. -/
def Placed (before : List Char) : List Gapped → Prop
  | [] => True
  | g :: gs => g.token.pos = .behind (before ++ g.gap) ∧ Placed (before ++ g.chars) gs

/-- The tokens of the pieces of a text that goes on after `before` and the blanks `gap`,
each with its own gap. -/
theorem exists_gapped_place (cs before gap : List Char)
    (hGap : ∀ c ∈ gap, c ∈ blanks) :
    ∃ gs last, (place (.behind (before ++ gap)) (pieces cs)).tokens =
        gs.map (·.token) ++ [⟨.eof, "", .behind (before ++ (gap ++ cs))⟩] ∧
      gap ++ cs = gs.flatMap Gapped.chars ++ last ∧
      (∀ g ∈ gs, g.Proper) ∧ (∀ c ∈ last, c ∈ blanks) ∧ Placed before gs := by
  -- A blank joins the gap; a lexeme ends it and starts an empty one.
  fun_induction pieces cs generalizing before gap with
  | case1 => exact ⟨[], gap, by simp [place], by simp, by simp, hGap, trivial⟩
  | case2 c cs hBlank ih =>
      have hMore : ∀ d ∈ gap ++ [c], d ∈ blanks := by
        intro d hd
        rcases List.mem_append.mp hd with h | h
        · exact hGap d h
        · rw [List.mem_singleton.mp h]
          exact isBlank_iff.mp hBlank
      have hNext := ih before (gap ++ [c]) hMore
      rw [← List.append_assoc, Position.behind_concat] at hNext
      simpa [place] using hNext
  | case3 c cs hBlank ih =>
      have hSplit : (Lexeme.front c cs).chars ++ cs.drop (extent c cs).more = c :: cs := by
        simp [Lexeme.chars, Lexeme.front]
      have hToken : ((Lexeme.front c cs).token (.behind (before ++ gap))).text.toList =
          (Lexeme.front c cs).chars := by
        simp [Lexeme.token]
      obtain ⟨gs, last, hTokens, hText, hProper, hLast, hPlaced⟩ :=
        ih (before ++ (gap ++ (Lexeme.front c cs).chars)) [] (by simp)
      refine ⟨⟨gap, (Lexeme.front c cs).token (.behind (before ++ gap))⟩ :: gs, last,
        ?_, ?_, ?_, hLast, ?_⟩
      · simp only [List.append_nil, List.nil_append, List.append_assoc, hSplit] at hTokens
        simp only [place, Position.after_behind, List.append_assoc, hTokens]
        rfl
      · rw [List.nil_append] at hText
        rw [List.flatMap_cons, Gapped.chars, hToken, List.append_assoc, List.append_assoc,
          ← hText, hSplit]
      · intro g hg
        rcases List.mem_cons.mp hg with rfl | hg
        · refine ⟨hGap, (wellSpelled_front c cs _).notEnd, ?_⟩
          simp [Lexeme.token, Lexeme.chars]
        · exact hProper g hg
      · refine ⟨rfl, ?_⟩
        rw [Gapped.chars, hToken]
        exact hPlaced

/-! ## Increasing positions -/

/-- No token behind a text stands before its end, and neither does the end marker. -/
theorem behind_le_of_placed {before last : List Char} {gs : List Gapped}
    (hPlaced : Placed before gs) {stop : Token}
    (hStop : stop.pos = .behind (before ++ (gs.flatMap Gapped.chars ++ last))) :
    ∀ t ∈ gs.map (·.token) ++ [stop], Position.behind before ≤ t.pos := by
  induction gs generalizing before with
  | nil =>
      intro t ht
      rw [List.mem_singleton.mp ht, hStop]
      exact Position.behind_le_append _ _
  | cons g gs ih =>
      intro t ht
      rcases List.mem_cons.mp ht with rfl | hMem
      · rw [hPlaced.1]
        exact Position.behind_le_append _ _
      · have hRest := ih hPlaced.2 (by simpa using hStop) t hMem
        exact Position.le_trans (Position.behind_le_append _ _) hRest

/-- Tokens that have characters and are placed stand at increasing positions, the end
marker after them included. -/
theorem pairwise_pos_of_placed {before last : List Char} {gs : List Gapped}
    (hProper : ∀ g ∈ gs, g.Proper) (hPlaced : Placed before gs) {stop : Token}
    (hStop : stop.pos = .behind (before ++ (gs.flatMap Gapped.chars ++ last))) :
    (gs.map (·.token) ++ [stop]).Pairwise (·.pos < ·.pos) := by
  induction gs generalizing before with
  | nil => simp
  | cons g gs ih =>
      have hNext : stop.pos =
          .behind (before ++ g.chars ++ (gs.flatMap Gapped.chars ++ last)) := by
        simpa using hStop
      have hText : g.token.text.toList ≠ [] := by
        simpa using (hProper g (by simp)).text
      have hEnd : g.token.pos < .behind (before ++ g.chars) := by
        rw [hPlaced.1, Gapped.chars, ← List.append_assoc]
        exact Position.behind_lt_append _ hText
      refine List.Pairwise.cons ?_ (ih (fun g' hg' => hProper g' (by simp [hg'])) hPlaced.2 hNext)
      intro t ht
      exact Position.lt_of_lt_of_le hEnd (behind_le_of_placed hPlaced.2 hNext t ht)

/-- **The tokens cover the text**: they are its characters but for blanks between them,
followed by the one end marker.  Each stands where its position says, counted in the text
before it, and the positions increase. -/
theorem lex_covers_text (source : String) :
    ∃ (gs : List Gapped) (last : List Char) (stop : Token),
      (lex source).tokens = gs.map (·.token) ++ [stop] ∧
      stop.kind = .eof ∧ (∀ g ∈ gs, g.Proper) ∧
      source.toList = gs.flatMap Gapped.chars ++ last ∧
      (∀ c ∈ last, c ∈ blanks) ∧
      Placed [] gs ∧ stop.pos = .behind source.toList ∧
      (lex source).tokens.Pairwise (·.pos < ·.pos) := by
  obtain ⟨gs, last, hTokens, hText, hProper, hLast, hPlaced⟩ :=
    exists_gapped_place source.toList [] [] (by simp)
  simp only [List.nil_append] at hTokens hText
  have hLex : (lex source).tokens =
      gs.map (·.token) ++ [⟨.eof, "", .behind source.toList⟩] := hTokens
  refine ⟨gs, last, _, hLex, rfl, hProper, hText, hLast, hPlaced, rfl, ?_⟩
  rw [hLex]
  exact pairwise_pos_of_placed hProper hPlaced (by rw [List.nil_append, ← hText])

end Braceless
