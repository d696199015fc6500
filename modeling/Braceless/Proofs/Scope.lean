import Braceless.Proofs.DeclarationTable

/-!
# Names and the table of variables

A name is looked up when it is used, and reported if it is not in the table by then.  The
table only grows.  So without errors, every name of the tree is in the table of the whole
program.

## Main definitions

* `Mention.Within`: mentions of names from a list only.

## Main results

* `mem_names_parse_iff`: the names in the table are those that the program declares.
* `within_names_parse`: without errors, a program has no names but those of its table.
-/

namespace Braceless

namespace Mention

/-- The name that is mentioned, if one is. -/
def name? : Mention → Option String
  | declared d => some d.name
  | used name _ => some name
  | _ => none

/-- A name that is mentioned is one of the given names. -/
def Within (names : List String) (m : Mention) : Prop :=
  ∀ x ∈ m.name?, x ∈ names

theorem Within.mono {names names' : List String} {m : Mention} (h : m.Within names)
    (hSubset : names ⊆ names') : m.Within names' :=
  fun x hx => hSubset (h x hx)

theorem Within.of_nameless {names : List String} {m : Mention} (h : m.name? = none) :
    m.Within names := by
  intro x hx
  rw [h] at hx
  exact nomatch hx

end Mention

namespace Declarations

theorem mem_names_insert_iff {t : Declarations} {d : Declared} {x : String} :
    x ∈ (t.insert d).names ↔ x ∈ t.names ∨ d.name = x := by
  rw [names_insert]
  by_cases h : d.name ∈ t.names
  · rw [if_pos h]
    constructor
    · exact .inl
    · rintro (hTable | rfl)
      · exact hTable
      · exact h
  · rw [if_neg h, List.mem_append, List.mem_singleton, eq_comm]

/-- The names of a table after some declarations. -/
theorem mem_names_insertAll_iff {t : Declarations} {ds : List Declared} {x : String} :
    x ∈ (t.insertAll ds).names ↔ x ∈ t.names ∨ ∃ d ∈ ds, d.name = x := by
  induction ds generalizing t with
  | nil => simp
  | cons d ds ih =>
      rw [insertAll_cons, ih, mem_names_insert_iff, or_assoc]
      simp

end Declarations

namespace Parser

theorem Trace.subset_names {s s' : State} {ms : List Mention} (h : Trace s ms s') :
    s.declared.names ⊆ s'.declared.names := by
  rw [h.tallies.declared]
  exact fun x hx => Declarations.mem_names_insertAll_iff.mpr (.inl hx)

/-- Looking a name up without an error finds it. -/
theorem mem_names_of_checkDeclared {s : State} {t : Token}
    (h : ((checkDeclared t).run s).2.errors.toList = []) :
    t.text ∈ ((checkDeclared t).run s).2.declared.names := by
  rw [run_checkDeclared] at h ⊢
  by_cases hMem : t.text ∈ s.declared.names
  · rw [if_pos hMem]
    exact hMem
  · rw [if_neg hMem] at h
    simp [State.report] at h

/-- What a step without errors mentions is in the table after it. -/
theorem Step.within {s s' : State} {ms : List Mention} (hStep : Step s ms s')
    (h : s'.errors.toList = []) : ∀ m ∈ ms, m.Within s'.declared.names := by
  have hTable := hStep.tallies.declared
  cases hStep with
  | skip _ => exact nofun
  | report _ _ => exact nofun
  | level _ _ _ => exact nofun
  | overflow => exact nofun
  | declare dataType _ =>
      intro m hm x hx
      obtain rfl := List.mem_singleton.mp hm
      obtain rfl := Option.some.inj hx
      rw [hTable]
      exact Declarations.mem_names_insert_iff.mpr (.inr rfl)
  | lookUp n _ =>
      intro m hm x hx
      obtain rfl := List.eq_of_mem_replicate hm
      obtain rfl := Option.some.inj hx
      exact mem_names_of_checkDeclared h
  | literal _ => exact List.forall_mem_singleton.mpr (.of_nameless rfl)
  | one => exact List.forall_mem_singleton.mpr (.of_nameless rfl)
  | unread _ => exact List.forall_mem_singleton.mpr (.of_nameless rfl)
  | unrecognized _ _ => exact List.forall_mem_singleton.mpr (.of_nameless rfl)

theorem Trace.within {s s' : State} {ms : List Mention} (hTrace : Trace s ms s')
    (h : s'.errors.toList = []) : ∀ m ∈ ms, m.Within s'.declared.names := by
  induction hTrace with
  | refl s => exact nofun
  | step hStep hRest ih =>
      have hBefore := List.prefix_nil.mp (h ▸ hRest.frame.errors)
      intro m hm
      rcases List.mem_append.mp hm with hFirst | hLater
      · exact (hStep.within hBefore m hFirst).mono hRest.subset_names
      · exact ih h m hLater

end Parser

/-- The names in the table are those that the program declares. -/
theorem mem_names_parse_iff {tokens : List Token} {x : String} :
    x ∈ (parse tokens).declarations.names ↔
      ∃ d ∈ (parse tokens).program.declarations, d.name = x := by
  rw [declarations_parse_eq_insertAll, Declarations.mem_names_insertAll_iff]
  simp [Declarations.empty, Declarations.names, Declaration.declared]

/-- Without errors, a program has no names but those of its table. -/
theorem within_names_parse {tokens : List Token} (h : (parse tokens).errors = []) :
    ∀ m ∈ mentionsOf (parse tokens).program.body,
      m.Within (parse tokens).declarations.names := by
  obtain ⟨s, hTrace, hErrors, hTable⟩ := Parser.exists_trace_parse tokens
  rw [hTable]
  exact hTrace.within (hErrors ▸ h)

end Braceless
