import Braceless.Program

/-!
# The table of declared variables

One flat table for a whole program: the first declaration of each name, in the order in which the names
were first declared.

## Main definitions

* `Declarations.insert`: enters a variable unless its name is taken.

## Main results

* `Declarations.names_insert`, `Declarations.nodup_insert`: entering adds a name at most, and
  keeps the names distinct.
-/

namespace Braceless

/-- A declared variable: its name, its type and where the name stands. -/
structure Declared where
  name : String
  dataType : DataType
  pos : Position
deriving DecidableEq, Repr

/-- The declared variables, in the order of their declarations. -/
structure Declarations where
  entries : List Declared
deriving DecidableEq, Repr

namespace Declarations

/-- The table without entries. -/
def empty : Declarations := ⟨[]⟩

/-- The names in the table, in the order of their declarations. -/
def names (t : Declarations) : List String :=
  t.entries.map (·.name)

/-- Whether a name is declared. -/
def contains (t : Declarations) (name : String) : Bool :=
  t.names.contains name

@[simp]
theorem contains_iff {t : Declarations} {name : String} :
    t.contains name = true ↔ name ∈ t.names := by
  simp [contains]

/-- Enters a variable at the end; the first entry of a name stays. -/
def insert (t : Declarations) (d : Declared) : Declarations :=
  if t.contains d.name then t else ⟨t.entries ++ [d]⟩

theorem names_insert (t : Declarations) (d : Declared) :
    (t.insert d).names = if d.name ∈ t.names then t.names else t.names ++ [d.name] := by
  unfold insert
  by_cases h : d.name ∈ t.names
  · simp [h]
  · simp only [contains_iff, h, if_false]
    simp [names]

theorem nodup_insert {t : Declarations} (h : t.names.Nodup) (d : Declared) :
    (t.insert d).names.Nodup := by
  rw [names_insert]
  by_cases hd : d.name ∈ t.names
  · simpa [hd] using h
  · simp only [hd, if_false]
    exact List.nodup_append.2 ⟨h, by simp, fun a ha b hb => by
      rintro rfl
      exact hd (by simpa using List.mem_singleton.1 hb ▸ ha)⟩

end Declarations

end Braceless
