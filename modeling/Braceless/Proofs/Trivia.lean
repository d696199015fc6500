import Braceless.Parser
import Mathlib.Logic.Relation

/-!
# What a parse does not look at

Comments and invalid characters may stand anywhere, and anything may stand behind the end
marker.  `visible` goes through a token list once, passes over what is not looked at and
stops at the first end marker; a parse depends on nothing else, whichever way it goes through
its productions.

A parse starts from a list without trivia, so this takes no more than a look at how it starts.
The machine with a cursor starts from the list as it stands, and passes over trivia with every
step.  That it cannot tell such lists apart either is `Cursor.exists_parse_of_visible_eq`, by the
simulation between the two.

## Main definitions

* `visible`: the tokens of a list that a parse looks at, its end marker included.
* `Retouch`: a change to a token list that touches only what is not looked at.

## Main results

* `parse_eq_of_visible_eq`: a parse depends on the visible tokens only.
* `visible_eq_of_retouches`: no series of such changes touches a visible token.
-/

namespace Braceless

namespace Parser

/-! ## Visible tokens -/

/-- The tokens up to the first end marker, with it and without trivia. -/
def visible : List Token → List Token
  | [] => []
  | t :: ts =>
    if t.kind = .eof then [t]
    else if t.isTrivia then visible ts
    else t :: visible ts

/-- There is an end marker. -/
def HasEnd (ts : List Token) : Prop :=
  ∃ t ∈ ts, t.kind = .eof

theorem visible_cons_of_isTrivia {t : Token} (ts : List Token) (h : t.isTrivia = true) :
    visible (t :: ts) = visible ts := by
  have hKind : t.kind ≠ .eof := by
    intro hEof
    rw [Token.isTrivia, hEof] at h
    cases h
  rw [visible, if_neg hKind, if_pos h]

theorem significant_cons (t : Token) (ts : List Token) :
    significant (t :: ts) =
      if t.kind = .eof then [] else if t.isTrivia then significant ts else t :: significant ts := by
  by_cases hEof : t.kind = .eof
  · simp [significant, hEof]
  · by_cases hTrivia : t.isTrivia = true
    · simp [significant, hEof, hTrivia]
    · simp [significant, hEof, hTrivia]

/-- A parse sees of a token list what it sees of its visible tokens. -/
theorem significant_visible (ts : List Token) : significant (visible ts) = significant ts := by
  induction ts with
  | nil => rfl
  | cons t ts ih =>
      rw [visible, significant_cons]
      by_cases hEof : t.kind = .eof
      · rw [if_pos hEof, if_pos hEof, significant_cons, if_pos hEof]
      · rw [if_neg hEof, if_neg hEof]
        by_cases hTrivia : t.isTrivia = true
        · rw [if_pos hTrivia, if_pos hTrivia, ih]
        · rw [if_neg hTrivia, if_neg hTrivia, significant_cons, if_neg hEof, if_neg hTrivia, ih]

theorem find?_eof_visible (ts : List Token) :
    (visible ts).find? (·.kind == .eof) = ts.find? (·.kind == .eof) := by
  induction ts with
  | nil => rfl
  | cons t ts ih =>
      rw [visible]
      by_cases hEof : t.kind = .eof
      · simp [hEof]
      · by_cases hTrivia : t.isTrivia = true
        · simp [hEof, hTrivia, ih]
        · simp [hEof, hTrivia, ih]

theorem endMarker_eq_of_find? {ts us : List Token} (hEnd : HasEnd ts)
    (h : us.find? (·.kind == .eof) = ts.find? (·.kind == .eof)) : endMarker us = endMarker ts := by
  obtain ⟨t, ht, hKind⟩ := hEnd
  have hFound : (ts.find? (·.kind == .eof)).isSome := by
    rw [List.find?_isSome]
    exact ⟨t, ht, by simp [hKind]⟩
  obtain ⟨stop, hStop⟩ := Option.isSome_iff_exists.mp hFound
  rw [endMarker, endMarker, h, hStop]

/-- What is visible of visible tokens is all of them. -/
theorem visible_visible (ts : List Token) : visible (visible ts) = visible ts := by
  induction ts with
  | nil => rfl
  | cons t ts ih =>
      rw [visible]
      by_cases hEof : t.kind = .eof
      · rw [if_pos hEof, visible, if_pos hEof]
      · rw [if_neg hEof]
        by_cases hTrivia : t.isTrivia = true
        · rw [if_pos hTrivia, ih]
        · rw [if_neg hTrivia, visible, if_neg hEof, if_neg hTrivia, ih]

/-- Two token lists with the same visible tokens have the same parse. -/
theorem parse_eq_of_visible_eq {ts us : List Token} (hEnd : HasEnd ts)
    (h : visible us = visible ts) : parse us = parse ts := by
  have hRest : significant us = significant ts := by
    rw [← significant_visible us, h, significant_visible]
  have hFind : us.find? (·.kind == .eof) = ts.find? (·.kind == .eof) := by
    rw [← find?_eof_visible us, h, find?_eof_visible]
  have hInitial : State.initial us = State.initial ts := by
    rw [State.initial, hRest, endMarker_eq_of_find? hEnd hFind, State.initial]
  rw [parse, hInitial, parse]

/-! ## Changes that are not looked at -/

/-- A change to a token list that touches only what is not looked at. -/
inductive Retouch : List Token → List Token → Prop where
  | insert {us vs : List Token} {t : Token} (h : t.isTrivia = true) :
      Retouch (us ++ vs) (us ++ t :: vs)
  | delete {us vs : List Token} {t : Token} (h : t.isTrivia = true) :
      Retouch (us ++ t :: vs) (us ++ vs)
  | behind {us vs ws : List Token} {stop : Token} (h : stop.kind = .eof) :
      Retouch (us ++ stop :: vs) (us ++ stop :: ws)

/-- What is visible behind a common front depends on what is visible behind it. -/
theorem visible_append_congr (us : List Token) {vs ws : List Token} (h : visible vs = visible ws) :
    visible (us ++ vs) = visible (us ++ ws) := by
  induction us with
  | nil => exact h
  | cons u us ih => rw [List.cons_append, List.cons_append, visible, visible, ih]

theorem Retouch.visible_eq {ts us : List Token} (h : Retouch ts us) : visible us = visible ts := by
  cases h with
  | insert hTrivia => exact visible_append_congr _ (visible_cons_of_isTrivia _ hTrivia)
  | delete hTrivia => exact visible_append_congr _ (visible_cons_of_isTrivia _ hTrivia).symm
  | behind hStop => exact visible_append_congr _ (by rw [visible, visible, if_pos hStop, if_pos hStop])

/-- After any series of changes, the same tokens are visible. -/
theorem visible_eq_of_retouches {ts us : List Token} (h : Relation.ReflTransGen Retouch ts us) :
    visible us = visible ts := by
  induction h with
  | refl => rfl
  | tail _ hLast ih => rw [hLast.visible_eq, ih]

end Parser

/-- **A parse looks at visible tokens only**: the parse of a token list with an end marker is
the parse of its tokens up to the first end marker without trivia, and any series of changes
to its trivia and to what stands behind an end marker leaves the parse as it is. -/
theorem parse_eq_parse_visible {ts : List Token} (h : Parser.HasEnd ts) :
    parse ts = parse (Parser.visible ts) ∧
      ∀ us, Relation.ReflTransGen Parser.Retouch ts us → parse us = parse ts := by
  constructor
  · exact (Parser.parse_eq_of_visible_eq h (Parser.visible_visible ts)).symm
  · intro us hRetouched
    exact Parser.parse_eq_of_visible_eq h (Parser.visible_eq_of_retouches hRetouched)

/-- A declaration among a comment and an invalid character, with a word behind its end. -/
def clutteredTokens : List Token :=
  [⟨.comment, "// c", .start⟩, ⟨.keyword, "int", ⟨2, 1⟩⟩, ⟨.invalid, "#", ⟨2, 4⟩⟩,
    ⟨.identifier, "x", ⟨2, 5⟩⟩, ⟨.semicolon, ";", ⟨2, 6⟩⟩, ⟨.eof, "", ⟨2, 7⟩⟩,
    ⟨.keyword, "while", ⟨3, 1⟩⟩]

theorem parse_clutteredTokens :
    parse clutteredTokens =
        parse [⟨.keyword, "int", ⟨2, 1⟩⟩, ⟨.identifier, "x", ⟨2, 5⟩⟩, ⟨.semicolon, ";", ⟨2, 6⟩⟩,
          ⟨.eof, "", ⟨2, 7⟩⟩] ∧
      parse (⟨.invalid, "@", .start⟩ :: clutteredTokens.take 6) = parse clutteredTokens := by
  have hEnd : Parser.HasEnd clutteredTokens := ⟨⟨.eof, "", ⟨2, 7⟩⟩, by decide, rfl⟩
  have hInsert : Parser.Retouch clutteredTokens (⟨.invalid, "@", .start⟩ :: clutteredTokens) :=
    @Parser.Retouch.insert [] clutteredTokens _ rfl
  have hBehind : Parser.Retouch (⟨.invalid, "@", .start⟩ :: clutteredTokens)
      (⟨.invalid, "@", .start⟩ :: clutteredTokens.take 6) :=
    @Parser.Retouch.behind (⟨.invalid, "@", .start⟩ :: clutteredTokens.take 5) _ [] _ rfl
  have hMain := parse_eq_parse_visible hEnd
  exact ⟨hMain.1, hMain.2 _ (.tail (.single hInsert) hBehind)⟩

end Braceless
