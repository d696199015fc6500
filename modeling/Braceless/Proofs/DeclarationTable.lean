import Braceless.Proofs.Parser.Tracing

/-!
# The table of variables and the program

The table is filled while a program is parsed, before it is known whether what surrounds a
declaration can be read.  Still it is determined by the tree that comes out: it holds the
first declaration of each name, in the order of the tree, and the further declarations of a
name are what is reported as declared before.  This holds of every token list, with any
errors.

## Main definitions

* `firstsAfter`, `repeatsAfter`: declarations of new names, and of names seen before.
* `redeclarations`: the errors about names that were declared before.

## Main results

* `Declarations.entries_insertAll`: entering declarations adds the first one of each name.
* `Parser.Step.tallies`, `Parser.Trace.tallies`: what a step, and a run of steps, does to the
  table and to the errors.
* `nodup_names_parse`: no name is in the table of a parse twice.
-/

namespace Braceless

/-! ## First declarations -/

/-- The declarations of names that were not seen before, the first one of each. -/
def firstsAfter (seen : List String) : List Declared → List Declared
  | [] => []
  | d :: ds =>
    if d.name ∈ seen then firstsAfter seen ds else d :: firstsAfter (seen ++ [d.name]) ds

/-- The declarations of names that were seen before, in a declaration or in `seen`. -/
def repeatsAfter (seen : List String) : List Declared → List Declared
  | [] => []
  | d :: ds =>
    if d.name ∈ seen then d :: repeatsAfter seen ds else repeatsAfter (seen ++ [d.name]) ds

namespace Declarations

/-- The table after some declarations, entered one by one. -/
def insertAll (t : Declarations) (ds : List Declared) : Declarations :=
  ds.foldl insert t

@[simp] theorem insertAll_nil (t : Declarations) : t.insertAll [] = t := rfl

@[simp] theorem insertAll_cons (t : Declarations) (d : Declared) (ds : List Declared) :
    t.insertAll (d :: ds) = (t.insert d).insertAll ds := rfl

theorem insertAll_append (t : Declarations) (ds ds' : List Declared) :
    t.insertAll (ds ++ ds') = (t.insertAll ds).insertAll ds' := by
  simp [insertAll]

theorem insert_of_mem {t : Declarations} {d : Declared} (h : d.name ∈ t.names) :
    t.insert d = t := by
  simp [insert, h]

theorem insert_of_notMem {t : Declarations} {d : Declared} (h : d.name ∉ t.names) :
    t.insert d = ⟨t.entries ++ [d]⟩ := by
  simp [insert, h]

/-- Entering declarations keeps the names distinct. -/
theorem nodup_insertAll {t : Declarations} (h : t.names.Nodup) (ds : List Declared) :
    (t.insertAll ds).names.Nodup := by
  induction ds generalizing t with
  | nil => exact h
  | cons d ds ih => exact ih (nodup_insert h d)

/-- Entering declarations adds the first one of each new name. -/
theorem entries_insertAll (t : Declarations) (ds : List Declared) :
    (t.insertAll ds).entries = t.entries ++ firstsAfter t.names ds := by
  induction ds generalizing t with
  | nil => simp [firstsAfter]
  | cons d ds ih =>
      rw [insertAll_cons, ih, names_insert]
      by_cases h : d.name ∈ t.names
      · simp [firstsAfter, h, insert_of_mem h]
      · simp [firstsAfter, h, insert_of_notMem h]

/-- What is seen before the second of two runs of declarations is the table after the
first. -/
theorem repeatsAfter_append (t : Declarations) (ds ds' : List Declared) :
    repeatsAfter t.names (ds ++ ds') =
      repeatsAfter t.names ds ++ repeatsAfter (t.insertAll ds).names ds' := by
  induction ds generalizing t with
  | nil => rfl
  | cons d ds ih =>
      have hNext := ih (t.insert d)
      rw [names_insert] at hNext
      by_cases h : d.name ∈ t.names
      · simpa [repeatsAfter, h] using hNext
      · simpa [repeatsAfter, h] using hNext

end Declarations

/-! ## Errors about names -/

/-- Whether an error says that a name was declared before. -/
def SyntaxError.isRedeclaration (e : SyntaxError) : Bool :=
  match e.fault with
  | .redeclared _ => true
  | _ => false

/-- The errors about names that were declared before. -/
def redeclarations (errors : List SyntaxError) : List SyntaxError :=
  errors.filter SyntaxError.isRedeclaration

/-- The error about a declaration of a name that was declared before. -/
def Declared.redeclaration (d : Declared) : SyntaxError :=
  ⟨.redeclared d.name, d.name, d.pos⟩

namespace Parser

namespace State

theorem redeclarations_report_of_other (s : State) {e : SyntaxError}
    (h : e.isRedeclaration = false) :
    redeclarations (s.report e).errors.toList = redeclarations s.errors.toList := by
  simp [redeclarations, report, h]

theorem redeclarations_report {s : State} {e : SyntaxError} (h : e.isRedeclaration = true) :
    redeclarations (s.report e).errors.toList = redeclarations s.errors.toList ++ [e] := by
  simp [redeclarations, report, h]

end State

/-! ## Steps -/

/-- What happens to the table and to the errors where `ds` is declared. -/
structure Tallies (s : State) (ds : List Declared) (s' : State) : Prop where
  declared : s'.declared = s.declared.insertAll ds
  redeclared : redeclarations s'.errors.toList = redeclarations s.errors.toList ++
    (repeatsAfter s.declared.names ds).map Declared.redeclaration

/-- A step that leaves the table alone and reports no name that was declared before. -/
theorem Tallies.nothing {s s' : State} (hDeclared : s'.declared = s.declared)
    (hErrors : redeclarations s'.errors.toList = redeclarations s.errors.toList) :
    Tallies s [] s' :=
  ⟨by simpa using hDeclared, by simpa [repeatsAfter] using hErrors⟩

theorem Tallies.trans {s s' s'' : State} {ds ds' : List Declared} (h : Tallies s ds s')
    (h' : Tallies s' ds' s'') : Tallies s (ds ++ ds') s'' := by
  refine ⟨?_, ?_⟩
  · rw [h'.declared, h.declared, Declarations.insertAll_append]
  · rw [h'.redeclared, h.redeclared, h.declared, Declarations.repeatsAfter_append,
      List.map_append, List.append_assoc]

/-- A name is entered, or reported if it is in the table. -/
theorem tallies_declare (s : State) {t : Token} (hKind : t.kind = .identifier)
    (dataType : DataType) :
    Tallies s [⟨t.text, dataType, t.pos⟩] ((declare t dataType).run s).2 := by
  rw [run_declare]
  by_cases h : t.text ∈ s.declared.names
  · have hError : SyntaxError.ofToken (.redeclared t.text) t =
        Declared.redeclaration ⟨t.text, dataType, t.pos⟩ := by
      simp [SyntaxError.ofToken, Declared.redeclaration, hKind]
    rw [if_pos h]
    refine ⟨(Declarations.insert_of_mem h).symm, ?_⟩
    rw [State.redeclarations_report rfl, hError]
    simp [repeatsAfter, h]
  · rw [if_neg h]
    refine ⟨rfl, ?_⟩
    simp [repeatsAfter, h]

theorem tallies_checkDeclared (s : State) (t : Token) :
    Tallies s [] ((checkDeclared t).run s).2 := by
  rw [run_checkDeclared]
  split
  · exact .nothing rfl rfl
  · exact .nothing rfl (s.redeclarations_report_of_other rfl)

theorem isRedeclaration_of_not_naming {fault : SyntaxFault} (h : ¬ fault.IsNaming)
    (t : Token) : (SyntaxError.ofToken fault t).isRedeclaration = false := by
  cases fault with
  | redeclared name => exact absurd trivial h
  | _ => rfl

/-- What a step mentions as declared is what it does to the table. -/
theorem Step.tallies {s s' : State} {ms : List Mention} (h : Step s ms s') :
    Tallies s (declaredIn ms) s' := by
  cases h with
  | skip _ => exact .nothing rfl rfl
  | report hFault _ =>
      exact .nothing rfl
        (s.redeclarations_report_of_other (isRedeclaration_of_not_naming hFault _))
  | level _ _ _ => exact .nothing rfl rfl
  | overflow => exact .nothing rfl (s.redeclarations_report_of_other rfl)
  | declare dataType hKind =>
      exact ⟨(tallies_declare _ hKind dataType).declared,
        (tallies_declare _ hKind dataType).redeclared⟩
  | lookUp n _ =>
      have hNone : declaredIn (List.replicate n (.used s.current.text s.current.pos)) = [] := by
        induction n with
        | zero => rfl
        | succ n ih => exact ih
      rw [hNone]
      exact ⟨(tallies_checkDeclared _ s.current).declared,
        (tallies_checkDeclared _ s.current).redeclared⟩
  | literal _ => exact .nothing rfl rfl
  | one => exact .nothing rfl rfl
  | unread _ => exact .nothing rfl rfl
  | unrecognized _ _ => exact .nothing rfl (s.redeclarations_report_of_other rfl)

theorem Trace.tallies {s s' : State} {ms : List Mention} (h : Trace s ms s') :
    Tallies s (declaredIn ms) s' := by
  induction h with
  | refl s => exact .nothing rfl rfl
  | step hStep _ ih =>
      rw [declaredIn_append]
      exact hStep.tallies.trans ih

end Parser

/-- The table of a parse holds the declarations of its program, entered one by one. -/
theorem declarations_parse_eq_insertAll (tokens : List Token) :
    (parse tokens).declarations = Declarations.empty.insertAll
      ((parse tokens).program.declarations.map Declaration.declared) := by
  obtain ⟨s, hTrace, _, hTable⟩ := Parser.exists_trace_parse tokens
  have hDeclared := hTrace.tallies.declared
  rw [declaredIn_mentionsOf] at hDeclared
  exact hTable.trans hDeclared

/-- No name is in the table of a parse twice. -/
theorem nodup_names_parse (tokens : List Token) : (parse tokens).declarations.names.Nodup := by
  have hEmpty : Declarations.empty.names.Nodup := List.nodup_nil
  rw [declarations_parse_eq_insertAll]
  exact Declarations.nodup_insertAll hEmpty _

/-- **The table is determined by the tree**: for every token list, it holds the first
declaration of each name in the program, in order, and the further declarations are what is
reported as declared before, in order. -/
theorem table_parse_eq_firsts (tokens : List Token) :
    (parse tokens).declarations.entries =
        firstsAfter [] ((parse tokens).program.declarations.map Declaration.declared) ∧
      redeclarations (parse tokens).errors =
        (repeatsAfter [] ((parse tokens).program.declarations.map Declaration.declared)).map
          Declared.redeclaration := by
  constructor
  · rw [declarations_parse_eq_insertAll, Declarations.entries_insertAll]
    rfl
  · obtain ⟨s, hTrace, hErrors, _⟩ := Parser.exists_trace_parse tokens
    have hRedeclared := hTrace.tallies.redeclared
    rw [declaredIn_mentionsOf] at hRedeclared
    rw [hErrors, hRedeclared]
    rfl

end Braceless
