/-!
# Positions in a text

A position is a line and a column, both counted from one.  Columns count code points, and a line feed is
the only character that starts a new line.  Positions are ordered as they stand in a text: by line, and
within a line by column.

## Main definitions

* `Position.after`: where a text ends that starts at a given position.
* `Position.text`: the form `line:column`.
-/

namespace Braceless

/-- A place in a text. -/
structure Position where
  /-- The line, counted from one. -/
  line : Nat
  /-- The column, counted from one in code points. -/
  column : Nat
deriving DecidableEq, Repr

namespace Position

/-- Where every text starts. -/
def start : Position := ⟨1, 1⟩

instance : Inhabited Position := ⟨start⟩

/-- The position after one character that stands at `p`. -/
def step (p : Position) (c : Char) : Position :=
  if c = '\n' then ⟨p.line + 1, 1⟩ else ⟨p.line, p.column + 1⟩

/-- The position after the characters `cs`, the first of which stands at `p`. -/
def after (p : Position) (cs : List Char) : Position :=
  cs.foldl step p

@[simp]
theorem after_nil (p : Position) : p.after [] = p := rfl

@[simp]
theorem after_cons (p : Position) (c : Char) (cs : List Char) :
    p.after (c :: cs) = (p.step c).after cs := rfl

@[simp]
theorem after_append (p : Position) (cs ds : List Char) :
    p.after (cs ++ ds) = (p.after cs).after ds := by
  simp [after]

/-! ## Order -/

/-- Positions in reading order. -/
protected def le (p q : Position) : Prop :=
  p.line < q.line ∨ p.line = q.line ∧ p.column ≤ q.column

instance : LE Position := ⟨Position.le⟩

theorem le_def {p q : Position} :
    p ≤ q ↔ p.line < q.line ∨ p.line = q.line ∧ p.column ≤ q.column := Iff.rfl

instance (p q : Position) : Decidable (p ≤ q) :=
  inferInstanceAs (Decidable (p.line < q.line ∨ p.line = q.line ∧ p.column ≤ q.column))

/-- Strictly before, in reading order. -/
protected def lt (p q : Position) : Prop :=
  p.line < q.line ∨ p.line = q.line ∧ p.column < q.column

instance : LT Position := ⟨Position.lt⟩

theorem lt_def {p q : Position} :
    p < q ↔ p.line < q.line ∨ p.line = q.line ∧ p.column < q.column := Iff.rfl

instance (p q : Position) : Decidable (p < q) :=
  inferInstanceAs (Decidable (p.line < q.line ∨ p.line = q.line ∧ p.column < q.column))

/-! ## Text -/

/-- The short form `line:column`. -/
def text (p : Position) : String :=
  toString p.line ++ ":" ++ toString p.column

/-- The long form that ends a message. -/
def phrase (p : Position) : String :=
  "line " ++ toString p.line ++ ", column " ++ toString p.column

end Position

end Braceless
