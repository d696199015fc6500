import Braceless.Analysis
import Braceless.Proofs.Lexer.Gaps
import Braceless.Proofs.Parser.Coupled

/-!
# Nothing depends on where the tokens stand

Positions go into the tree, into the errors and into the table of variables, and no decision
is made on them.  Two lists of tokens that agree in kind and text therefore give the same
parse at other positions, whatever is wrong with them, and the same output.  Two texts with the
same lexemes and other gaps between them have such lists of tokens.

## Main definitions

* `State.SameAt`: two states that differ in positions only.
* `relocation`: the coupling of two parses of the same tokens at other positions.

## Main results

* `couples_program`: a parse keeps in step with a parse of the same tokens elsewhere.
* `mapPos_parse_eq`: a parse depends on the kinds and the texts of the tokens, up to positions.
-/

namespace Braceless

namespace Parser

variable {place : Position → Position} {K : Token → Token → Prop}

/-! ## The coupling -/

/-- Two states that are the same at the places that `place` gives to positions. -/
structure State.SameAt (place : Position → Position) (s s' : State) : Prop where
  rest : s.rest.map (Token.mapPos place) = s'.rest.map (Token.mapPos place)
  stop : Alike place s.stop s'.stop
  eof : s.stop.kind = .eof
  errors : s.errors.toList.map (SyntaxError.mapPos place) =
    s'.errors.toList.map (SyntaxError.mapPos place)
  declared : s.declared.mapPos place = s'.declared.mapPos place
  depth : s.depth = s'.depth
  overflowed : s.overflowed = s'.overflowed

namespace State.SameAt

variable {s s' : State}

theorem current (h : s.SameAt place s') : Alike place s.current s'.current := by
  have hRest := h.rest
  cases hTokens : s.rest with
  | nil =>
      have hNil : s'.rest = [] := by
        rw [hTokens] at hRest
        exact List.map_eq_nil_iff.mp hRest.symm
      rw [State.current_eq_stop hTokens, State.current_eq_stop hNil]
      exact h.stop
  | cons t ts =>
      rw [hTokens, List.map_cons] at hRest
      obtain ⟨t', ts', hTokens', hHead, _⟩ := List.map_eq_cons_iff.mp hRest.symm
      rw [State.current_eq_of_rest_cons hTokens, State.current_eq_of_rest_cons hTokens']
      exact hHead.symm

theorem names (h : s.SameAt place s') : s.declared.names = s'.declared.names := by
  rw [← Declarations.names_mapPos place s.declared, h.declared, Declarations.names_mapPos]

theorem report (h : s.SameAt place s') (fault : SyntaxFault) {t t' : Token}
    (ht : Alike place t t') :
    (s.report (.ofToken fault t)).SameAt place (s'.report (.ofToken fault t')) := by
  have hError : (SyntaxError.ofToken fault t).mapPos place =
      (SyntaxError.ofToken fault t').mapPos place := by
    simp [SyntaxError.ofToken, SyntaxError.mapPos, ht.kind, ht.text, ht.pos]
  have hErrors : (s.errors.push (.ofToken fault t)).toList.map (SyntaxError.mapPos place) =
      (s'.errors.push (.ofToken fault t')).toList.map (SyntaxError.mapPos place) := by
    rw [Array.toList_push, Array.toList_push, List.map_append, List.map_append, h.errors,
      List.map_singleton, List.map_singleton, hError]
  exact { h with errors := hErrors }

theorem insert (h : s.SameAt place s') (dataType : DataType) {t t' : Token}
    (ht : Alike place t t') :
    { s with declared := s.declared.insert ⟨t.text, dataType, t.pos⟩ : State }.SameAt place
      { s' with declared := s'.declared.insert ⟨t'.text, dataType, t'.pos⟩ } := by
  have hEntry : Declared.mapPos place ⟨t.text, dataType, t.pos⟩ =
      Declared.mapPos place ⟨t'.text, dataType, t'.pos⟩ := by
    simp [Declared.mapPos, ht.text, ht.pos]
  have hDeclared : (s.declared.insert ⟨t.text, dataType, t.pos⟩).mapPos place =
      (s'.declared.insert ⟨t'.text, dataType, t'.pos⟩).mapPos place := by
    rw [Declarations.mapPos_insert, Declarations.mapPos_insert, h.declared, hEntry]
  exact { h with declared := hDeclared }

theorem advance (h : s.SameAt place s') :
    (Parser.advance.run s).2.SameAt place (Parser.advance.run s').2 := by
  have hRest : s.rest.tail.map (Token.mapPos place) = s'.rest.tail.map (Token.mapPos place) := by
    rw [List.map_tail, List.map_tail, h.rest]
  exact { h with rest := hRest }

theorem skip (h : s.SameAt place s') {after : List Token → List Token}
    (hAfter : ∀ ts, after (ts.map (Token.mapPos place)) = (after ts).map (Token.mapPos place)) :
    { s with rest := after s.rest : State }.SameAt place { s' with rest := after s'.rest } := by
  have hRest : (after s.rest).map (Token.mapPos place) =
      (after s'.rest).map (Token.mapPos place) := by
    rw [← hAfter, ← hAfter, h.rest]
  exact { h with rest := hRest }

theorem openLevel (h : s.SameAt place s') :
    (Parser.openLevel.run s).2.SameAt place (Parser.openLevel.run s').2 := by
  have hOver : (s.overflowed && decide (maxNesting / 2 ≤ s.depth)) =
      (s'.overflowed && decide (maxNesting / 2 ≤ s'.depth)) := by
    rw [h.overflowed, h.depth]
  exact { h with depth := congrArg (· + 1) h.depth, overflowed := hOver }

theorem overflow (h : s.SameAt place s') :
    (reportOverflow.run s).2.SameAt place (reportOverflow.run s').2 := by
  show ((if s.overflowed = true then _ else _ : Parse Unit).run s).2.SameAt place
    ((if s'.overflowed = true then _ else _ : Parse Unit).run s').2
  rw [← h.overflowed]
  by_cases hOver : s.overflowed = true
  · rw [if_pos hOver]
    exact h
  · rw [if_neg hOver]
    exact { h.report .nestingTooDeep h.current with overflowed := rfl }

end State.SameAt

/-- Two parses of the same tokens at other positions.  They never part. -/
def relocation (place : Position → Position) : Coupling where
  extra := 0
  place := place
  Abreast s s' := s.SameAt place s'
  Parted _ _ := False
  Ends _ _ := False
  ends h := h.elim
  parted h _ _ := h
  meet h := .inl h.current
  stop h := ⟨h.eof, h.stop.kind ▸ h.eof⟩
  names h := h.names
  advance h _ := h.advance
  insert dataType h ht := h.insert dataType ht
  report fault h ht := .inl (h.report fault ht)
  reportEnds _ _ _ h := h
  closeEnds _ _ h := h
  openLevel h := h.openLevel
  closeLevel h := { h with depth := congrArg (· - 1) h.depth }
  overflow _ h := h.overflow
  skip _ _ h hAfter := h.skip hAfter
  overflowAlone h _ _ := (h rfl).elim

/-! ## Programs -/

theorem couples_isAt (k : Token.Kind) :
    Couples (relocation place) K (isAt k) (isAt k) id fun _ => K :=
  ⟨Frame.refl, Frame.refl, fun _ _ hs hK =>
    .inr ⟨hs, congrArg (· == k) (State.SameAt.current hs).kind, hK⟩⟩

/-- Optional tokens that are alike have the same text. -/
theorem map_text_eq {o o' : Option Token}
    (h : o.map (Token.mapPos place) = o'.map (Token.mapPos place)) :
    o.map (·.text) = o'.map (·.text) := by
  have hText := congrArg (Option.map (·.text)) h
  rw [Option.map_map, Option.map_map] at hText
  exact hText

theorem couples_entryProcedure (room : Nat) :
    Couples (relocation place) K (entryProcedure room) (entryProcedure room)
      (Prod.map id (mapPosAll place)) fun _ => Anywhere := by
  have hBlock : ∀ opening closing, Couples (relocation place) Anywhere
      (block room opening closing) (block room opening closing) (mapPosAll place)
      fun _ => Anywhere := fun _ _ => couples_block fun inner _ _ => couples_statement inner
  refine (couples_expectWord _ _).bind fun _ _ _ => (couples_expectWord _ _).bind fun _ _ _ =>
    (couples_expectWord _ _).bind fun _ _ _ => (couples_expectWord _ _).bind fun _ _ _ =>
      (couples_discard_expect _ (by decide) (by decide)).bind fun _ _ _ =>
        (couples_expectWord _ _).bind fun _ _ _ =>
          (couples_discard_expect _ (by decide) (by decide)).bind fun _ _ _ =>
            (couples_discard_expect _ (by decide) (by decide)).bind fun _ _ _ =>
              (couples_expect _ (by decide) (by decide)).bind fun param param' hParam =>
                (couples_discard_expect _ (by decide) (by decide)).bind fun _ _ _ =>
                  (hBlock _ _).bind fun body body' hBody => .done ?_
  exact congrArg₂ Prod.mk (congrArg (Option.getD · "args") (map_text_eq hParam)) hBody

theorem couples_checkEnd :
    Couples (relocation place) K checkEnd checkEnd id fun _ => Anywhere := by
  refine (couples_isAt .eof).bind fun b b' h => ?_
  obtain rfl : b = b' := h
  cases b with
  | true => exact .done rfl
  | false => exact (couples_report _).forget

theorem couples_classForm (room : Nat) :
    Couples (relocation place) K (classForm room) (classForm room) (Program.mapPos place)
      fun _ => Anywhere := by
  refine (couples_expectWord _ _).bind fun _ _ _ => (couples_expectWord _ _).bind fun _ _ _ =>
    (couples_expect _ (by decide) (by decide)).bind fun name name' hName =>
      (couples_discard_expect _ (by decide) (by decide)).bind fun _ _ _ =>
        (couples_entryProcedure room).bind fun entry entry' hEntry =>
          (couples_closingBrace _).bind fun _ _ _ => couples_checkEnd.bind fun _ _ _ => .done ?_
  obtain ⟨hParam, hBody⟩ := Prod.mk.inj hEntry
  have hName := congrArg (Option.getD · "Main") (map_text_eq hName)
  simp only [Program.mapPos, hName, hBody, show entry.1 = entry'.1 from hParam]

theorem couples_scriptItem (room : Nat) :
    Couples (relocation place) K (scriptItem room) (scriptItem room)
      (Option.map (Stmt.mapPos place)) fun _ => Anywhere := by
  refine (couples_isAt .rBrace).bind fun b b' h => ?_
  obtain rfl : b = b' := h
  cases b with
  | true =>
      exact (couples_report _).bind fun _ _ _ => couples_advance.bind fun _ _ _ => .done rfl
  | false => exact couples_orDrop (couples_statement room)

theorem couples_scriptForm (room : Nat) :
    Couples (relocation place) K (scriptForm room) (scriptForm room) (Program.mapPos place)
      fun _ => Anywhere := by
  have hStop : (relocation place).StopsAt (·.kind == .eof) :=
    ⟨fun _ _ h => congrArg (· == _) h.kind, fun _ _ h => h.elim, fun _ h => by simp [h]⟩
  have hBody := Couples.repeatUntil (K := K) hStop (couples_scriptItem room)
    (consumes_scriptItem room) (consumes_scriptItem room)
  refine hBody.bind fun body body' h => .done ?_
  exact congrArg (fun ss => { (default : Program) with body := ss }) h

/-- A parse keeps in step with a parse of the same tokens elsewhere. -/
theorem couples_program (room : Nat) :
    Couples (relocation place) K (program room) (program room) (Program.mapPos place)
      fun _ => Anywhere := by
  refine .current (fun t t' h => ?_) fun _ _ h => h.elim
  have hPublic : t.isWord "public" = t'.isWord "public" := by
    simp only [Token.isWord, h.kind, h.text]
  have hClass : t.isWord "class" = t'.isWord "class" := by
    simp only [Token.isWord, h.kind, h.text]
  rw [← h.kind, ← hPublic, ← hClass]
  by_cases hEof : t.kind = .eof
  · rw [if_pos hEof]
    exact .done rfl
  · rw [if_neg hEof]
    by_cases hWord : (t.isWord "public" || t.isWord "class") = true
    · rw [if_pos hWord]
      exact couples_classForm room
    · rw [if_neg hWord]
      exact couples_scriptForm room

/-! ## Token lists -/

theorem significant_map (f : Position → Position) (ts : List Token) :
    significant (ts.map (Token.mapPos f)) = (significant ts).map (Token.mapPos f) := by
  rw [significant, List.takeWhile_map, List.filter_map]
  rfl

/-- The end marker of the same tokens elsewhere is the same elsewhere, also where it is made
up. -/
theorem alike_endMarker {ts us : List Token}
    (h : ts.map (Token.mapPos place) = us.map (Token.mapPos place)) :
    Alike place (endMarker ts) (endMarker us) := by
  have hFind : (ts.find? (·.kind == .eof)).map (Token.mapPos place) =
      (us.find? (·.kind == .eof)).map (Token.mapPos place) := by
    have hMap : ∀ vs : List Token, (vs.find? (·.kind == .eof)).map (Token.mapPos place) =
        (vs.map (Token.mapPos place)).find? (·.kind == .eof) := fun vs => by
      rw [List.find?_map]
      rfl
    rw [hMap, hMap, h]
  have hLast : (ts.getLast?.map (·.pos)).map place = (us.getLast?.map (·.pos)).map place := by
    have hMap : ∀ vs : List Token, (vs.getLast?.map (·.pos)).map place =
        (vs.map (Token.mapPos place)).getLast?.map (·.pos) := fun vs => by
      rw [List.getLast?_map, Option.map_map, Option.map_map]
      rfl
    rw [hMap, hMap, h]
  unfold endMarker
  cases hTs : ts.find? (·.kind == .eof) with
  | some t =>
      rw [hTs, Option.map_some] at hFind
      obtain ⟨u, hUs, hAlike⟩ := Option.map_eq_some_iff.mp hFind.symm
      rw [hUs]
      exact hAlike.symm
  | none =>
      rw [hTs, Option.map_none] at hFind
      rw [Option.map_eq_none_iff.mp hFind.symm]
      refine (Token.mapPos_eq_iff place).mpr ⟨rfl, rfl, ?_⟩
      show place ((ts.getLast?.map (·.pos)).getD .start) =
        place ((us.getLast?.map (·.pos)).getD .start)
      rw [← Option.getD_map place, ← Option.getD_map place, hLast]

theorem State.SameAt.initial {ts us : List Token}
    (h : ts.map (Token.mapPos place) = us.map (Token.mapPos place)) :
    (State.initial ts).SameAt place (State.initial us) where
  rest := by
    show (significant ts).map _ = (significant us).map _
    rw [← significant_map, ← significant_map, h]
  stop := alike_endMarker h
  eof := kind_endMarker ts
  errors := rfl
  declared := rfl
  depth := rfl
  overflowed := rfl

end Parser

/-- A parse of the same tokens at other positions gives the same at other positions. -/
theorem mapPos_parse_eq {place : Position → Position} {ts us : List Token}
    (h : ts.map (Token.mapPos place) = us.map (Token.mapPos place)) :
    (parse ts).mapPos place = (parse us).mapPos place := by
  have hInitial : (Parser.relocation place).Abreast (.initial ts) (.initial us) := .initial h
  cases (Parser.couples_program maxNesting).holds _ _ hInitial (K := fun _ _ => True) trivial with
  | inl hParted => exact hParted.elim
  | inr hDone =>
      obtain ⟨hState, hProgram, _⟩ := hDone
      have hErrors := Parser.State.SameAt.errors hState
      have hDeclared := Parser.State.SameAt.declared hState
      simp only [Parsed.mapPos, Parsed.mk.injEq]
      exact ⟨hProgram, hErrors, hDeclared⟩

theorem map_mapPos_nowhere_iff {ts us : List Token} :
    ts.map (Token.mapPos nowhere) = us.map (Token.mapPos nowhere) ↔
      ts.map (fun t => (t.kind, t.text)) = us.map fun t => (t.kind, t.text) := by
  constructor
  · intro h
    have hContents := congrArg (List.map fun t : Token => (t.kind, t.text)) h
    rw [List.map_map, List.map_map] at hContents
    exact hContents
  · intro h
    have hTokens := congrArg (List.map fun c => (⟨c.1, c.2, .start⟩ : Token)) h
    rw [List.map_map, List.map_map] at hTokens
    exact hTokens

theorem render_parse_eq {ts us : List Token}
    (h : ts.map (Token.mapPos nowhere) = us.map (Token.mapPos nowhere)) (layout : Layout) :
    (parse ts).program.render ts layout = (parse us).program.render us layout := by
  have hProgram : (parse ts).program.mapPos nowhere = (parse us).program.mapPos nowhere :=
    congrArg Parsed.program (mapPos_parse_eq h)
  rw [← Program.render_mapPos nowhere, hProgram, h, Program.render_mapPos]

/-- **Nothing depends on where the tokens stand**: for two lists of tokens with the same kinds
and texts, everything that comes out of a parse is the same but for positions, and so is the
output.  So a text whose gaps between the lexemes are changed has the same tokens but for
positions, and the same output. -/
theorem parse_render_of_same_tokens {ts us : List Token}
    (h : ts.map (fun t => (t.kind, t.text)) = us.map fun t => (t.kind, t.text)) :
    (parse ts).mapPos nowhere = (parse us).mapPos nowhere ∧
      (∀ layout, (parse ts).program.render ts layout = (parse us).program.render us layout) ∧
      ∀ source source', Respaced source source' →
        (lex source).tokens.map (fun t => (t.kind, t.text)) =
            (lex source').tokens.map (fun t => (t.kind, t.text)) ∧
          ∀ layout, (analyze source layout).python = (analyze source' layout).python := by
  have hMap := map_mapPos_nowhere_iff.mpr h
  refine ⟨mapPos_parse_eq hMap, render_parse_eq hMap, ?_⟩
  intro source source' hRespaced
  have hTokens := (tokens_of_respaced hRespaced).symm
  exact ⟨map_mapPos_nowhere_iff.mp hTokens, render_parse_eq hTokens⟩

/-- A text on one line, with a brace that closes nothing. -/
def denseSource : String :=
  "int x=1;\x7dx+=2;//y"

/-- The same tokens on four lines. -/
def spreadSource : String :=
  "\tint x\n= 1 ;\n\x7d x += 2 ; \n  //y"

/-- Both texts have the same lexemes; behind each stand the gaps of the one and of the other. -/
theorem respaced_spreadSource : Respaced denseSource spreadSource := by
  have hComment : Piece.Respaced [.lexeme ⟨.comment, '/', ['/', 'y'], none⟩]
      [.lexeme ⟨.comment, '/', ['/', 'y'], none⟩] :=
    @Piece.Respaced.lexeme _ [] [] _ _ ⟨nofun, nofun, fun _ => rfl⟩ (fun _ => .inl rfl) .nil
  have hLexemes :=
    Piece.Respaced.plain ⟨.keyword, 'i', ['n', 't'], none⟩ [' '] [' '] (by decide) (by decide) <|
    .plain ⟨.identifier, 'x', [], none⟩ [] ['\n'] (by decide) (by decide) <|
    .plain ⟨.assign, '=', [], none⟩ [] [' '] (by decide) (by decide) <|
    .plain ⟨.integer, '1', [], none⟩ [] [' '] (by decide) (by decide) <|
    .plain ⟨.semicolon, ';', [], none⟩ [] ['\n'] (by decide) (by decide) <|
    .plain ⟨.rBrace, '\x7d', [], none⟩ [] [' '] (by decide) (by decide) <|
    .plain ⟨.identifier, 'x', [], none⟩ [] [' '] (by decide) (by decide) <|
    .plain ⟨.plusAssign, '+', ['='], none⟩ [] [' '] (by decide) (by decide) <|
    .plain ⟨.integer, '2', [], none⟩ [] [' '] (by decide) (by decide) <|
    .plain ⟨.semicolon, ';', [], none⟩ [] [' ', '\n', ' ', ' '] (by decide) (by decide) hComment
  exact ⟨[], ['\t'], _, _, by decide +kernel, hLexemes, List.all_eq_true.mp rfl,
    by decide +kernel⟩

theorem python_spreadSource_eq :
    (lex denseSource).tokens.map (fun t => (t.kind, t.text)) =
        (lex spreadSource).tokens.map (fun t => (t.kind, t.text)) ∧
      (lex denseSource).tokens ≠ (lex spreadSource).tokens ∧
      Respaced denseSource spreadSource ∧
      (analyze denseSource default).python = (analyze spreadSource default).python := by
  have hSame : (lex denseSource).tokens.map (fun t => (t.kind, t.text)) =
      (lex spreadSource).tokens.map fun t => (t.kind, t.text) := by decide +kernel
  have hOutput := (parse_render_of_same_tokens hSame).2.2 _ _ respaced_spreadSource
  exact ⟨hSame, by decide +kernel, respaced_spreadSource, hOutput.2 default⟩

end Braceless
