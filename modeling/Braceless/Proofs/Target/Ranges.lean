import Braceless.Proofs.Target.Commands

/-!
# Loops over a range

How the target reads the header `for name in range(arguments):` and which numbers the variable
goes through.  A range starts at its first argument, goes on in equal steps and leaves its end
out; without a first argument it starts at zero, and without a third its step is one.  A step
of zero is an error.

The numbers are counted first, by a division, as the target counts them.  A loop does not
divide: it tests and steps.  So a range is also described by what is left of it behind its
first number.

## Main definitions

* `rangeValues`: the numbers in a range.
* `readRange`, `rangeOf`: the header of a loop over a range, and its numbers.

## Main results

* `rangeValues_of_ahead`, `rangeValues_of_not_ahead`: a range, number by number.
* `rangeOf_header`: the numbers of a header that was written out.
-/

namespace Braceless

namespace Target

/-! ## The numbers in a range -/

/-- How far the end of a range lies ahead of a number, in the direction of the steps. -/
def ahead (n stop step : Int) : Int :=
  if 0 < step then stop - n else n - stop

/-- The number of steps of a given length that start before the end of a gap. -/
def stepsWithin (gap length : Int) : Nat :=
  if 0 < gap then ((gap - 1) / length).toNat + 1 else 0

/-- The numbers in a range whose step is not zero. -/
def rangeValues (first stop step : Int) : List Int :=
  (List.range (stepsWithin (ahead first stop step) step.natAbs)).map fun i : Nat =>
    first + step * i

theorem ahead_add (n stop step : Int) :
    ahead (n + step) stop step = ahead n stop step - step.natAbs := by
  unfold ahead
  split <;> omega

/-- The first step takes its length from the gap. -/
theorem stepsWithin_of_pos {gap length : Int} (hLength : 0 < length) (hGap : 0 < gap) :
    stepsWithin gap length = stepsWithin (gap - length) length + 1 := by
  rw [stepsWithin, if_pos hGap, stepsWithin]
  by_cases hMore : 0 < gap - length
  · have hSplit : gap - 1 = gap - length - 1 + 1 * length := by omega
    have hRest : 0 ≤ (gap - length - 1) / length := Int.ediv_nonneg (by omega) (by omega)
    rw [if_pos hMore, hSplit, Int.add_mul_ediv_right _ _ (by omega)]
    omega
  · rw [if_neg hMore, Int.ediv_eq_zero_of_lt (by omega) (by omega)]
    rfl

/-- A range whose end lies ahead has its first number, and then the range behind it. -/
theorem rangeValues_of_ahead {first stop step : Int} (hStep : step ≠ 0)
    (h : 0 < ahead first stop step) :
    rangeValues first stop step = first :: rangeValues (first + step) stop step := by
  have hShift : ∀ i : Nat, first + step * ((i + 1 : Nat) : Int) = first + step + step * i := by
    intro i
    rw [Int.natCast_add, Int.mul_add, Int.add_assoc, Int.add_comm step]
    simp
  rw [rangeValues, stepsWithin_of_pos (by omega) h, ← ahead_add, List.range_succ_eq_map,
    List.map_cons, List.map_map, rangeValues]
  simp only [Function.comp_def, Nat.succ_eq_add_one, hShift]
  simp

theorem rangeValues_of_not_ahead {first stop step : Int} (h : ¬ 0 < ahead first stop step) :
    rangeValues first stop step = [] := by
  rw [rangeValues, stepsWithin, if_neg h]
  rfl

-- The end is left out from both sides, and also where no step meets it.
example : rangeValues 1 7 3 = [1, 4] ∧ rangeValues 7 0 (-3) = [7, 4, 1] ∧
    rangeValues 2 2 1 = [] := by
  decide

/-! ## Headers -/

/-- The numbers that `range` gives for its arguments. -/
def expandRange : List Value → Option (List Int)
  | [stop] => some (rangeValues 0 (number stop) 1)
  | [first, stop] => some (rangeValues (number first) (number stop) 1)
  | [first, stop, step] =>
    if number step = 0 then none
    else some (rangeValues (number first) (number stop) (number step))
  | _ => none

/-- The variable and the arguments in the header of a loop over a range.  A comma ends an
argument also between brackets, which leaves nothing there that can be read.  The numbers of a
range do not depend on what they are assigned to, so it is not asked here whether the target
lets a page assign to the variable. -/
def readRange (header : String) : Option (String × List Tree) :=
  (enclosed? "for ".toList "):".toList header.toList).bind fun cs =>
    (enclosed? " in range(".toList [] (cs.dropWhile isWordPart)).bind fun arguments =>
      if isVariable (cs.takeWhile isWordPart) then
        ((arguments.splitOn ',').mapM fun a => read (String.ofList a)).map
          (String.ofList (cs.takeWhile isWordPart), ·)
      else none

/-- The variable of a loop over a range and the numbers that it goes through, where the
arguments are evaluated once, before the first turn. -/
def rangeOf (env : Env) (header : String) : Option (String × List Int) :=
  (readRange header).bind fun (name, arguments) =>
    ((arguments.mapM (Tree.eval env)).bind expandRange).map (name, ·)

/-- Expressions that can be told apart in a list of arguments, and read. -/
structure Expr.IsArgument (e : Expr) : Prop where
  spelled : e.Spelled
  fits : e.Fits
  noComma : ',' ∉ e.text.toList

theorem read_blank (text : String) : read (" " ++ text) = read text := by
  have hChars : (" " ++ text).toList = ' ' :: text.toList := String.toList_append
  rw [read, read, hChars, tokenize_blank]

theorem mapM_read_arguments {first stop : Expr} {step : Option Expr} (hFirst : first.IsArgument)
    (hStop : stop.IsArgument) (hStep : ∀ e ∈ step, e.IsArgument) :
    (((rangeArguments first stop step).toList.splitOn ',').mapM fun a => read (String.ofList a)) =
      some (first.tree :: stop.tree :: (step.map Expr.tree).toList) := by
  have hReadFirst := read_text hFirst.spelled hFirst.fits
  have hReadStop := read_text hStop.spelled hStop.fits
  cases step with
  | none =>
      have hChars : (rangeArguments first stop none).toList =
          [','].intercalate [first.text.toList, ' ' :: stop.text.toList] := by
        simp [rangeArguments]
      rw [hChars, List.splitOn_intercalate ',' (by simp [hFirst.noComma, hStop.noComma])
        (List.cons_ne_nil _ _)]
      simp [read_blank, hReadFirst, hReadStop]
  | some step =>
      have hStep := hStep step rfl
      have hReadStep := read_text hStep.spelled hStep.fits
      have hChars : (rangeArguments first stop (some step)).toList =
          [','].intercalate [first.text.toList, ' ' :: stop.text.toList,
            ' ' :: step.text.toList] := by
        simp [rangeArguments]
      rw [hChars, List.splitOn_intercalate ','
        (by simp [hFirst.noComma, hStop.noComma, hStep.noComma]) (List.cons_ne_nil _ _)]
      simp [read_blank, hReadFirst, hReadStop, hReadStep]

/-- The header of a loop over a range is read as what it says. -/
theorem readRange_header {name : String} (hName : IsIdentifier name.toList)
    (hFree : name ∉ fixedWords) {first stop : Expr} {step : Option Expr}
    (hFirst : first.IsArgument) (hStop : stop.IsArgument) (hStep : ∀ e ∈ step, e.IsArgument) :
    readRange ("for " ++ name ++ " in range(" ++ rangeArguments first stop step ++ "):") =
      some (name, first.tree :: stop.tree :: (step.map Expr.tree).toList) := by
  have hWord := isWordPart_of_isIdentifier hName
  have hOuter : enclosed? "for ".toList "):".toList
      ("for " ++ name ++ " in range(" ++ rangeArguments first stop step ++ "):").toList =
      some (name.toList ++ (" in range(".toList ++
        ((rangeArguments first stop step).toList ++ []))) := by
    rw [enclosed?_eq_some_iff]
    simp
  have hTake : (name.toList ++ (" in range(".toList ++
      ((rangeArguments first stop step).toList ++ []))).takeWhile isWordPart = name.toList := by
    rw [List.takeWhile_append_of_pos hWord]
    exact List.append_nil _
  have hDrop : (name.toList ++ (" in range(".toList ++
      ((rangeArguments first stop step).toList ++ []))).dropWhile isWordPart =
      " in range(".toList ++ ((rangeArguments first stop step).toList ++ []) := by
    rw [List.dropWhile_append_of_pos hWord]
    rfl
  rw [readRange, hOuter, Option.bind_some, hDrop, enclosed?_eq_some_iff.mpr rfl,
    Option.bind_some, hTake, if_pos (isVariable_of_isIdentifier hName hFree),
    mapM_read_arguments hFirst hStop hStep, String.ofList_toList]
  rfl

/-- The numbers of a header that was written out.  A step that is not written is one. -/
theorem rangeOf_header {name : String} (hName : IsIdentifier name.toList)
    (hFree : name ∉ fixedWords) {first stop : Expr} {step : Option Expr}
    (hFirst : first.IsArgument) (hStop : stop.IsArgument) (hStep : ∀ e ∈ step, e.IsArgument)
    {env : Env} {m n k : Int} (hm : first.tree.eval env = some (.int m))
    (hn : stop.tree.eval env = some (.int n)) (hk : k ≠ 0) (hOne : step = none → k = 1)
    (hStepValue : ∀ e ∈ step, e.tree.eval env = some (.int k)) :
    rangeOf env ("for " ++ name ++ " in range(" ++ rangeArguments first stop step ++ "):") =
      some (name, rangeValues m n k) := by
  rw [rangeOf, readRange_header hName hFree hFirst hStop hStep]
  cases step with
  | none => simp [hm, hn, hOne rfl, expandRange, number]
  | some step => simp [hm, hn, hStepValue step rfl, expandRange, number, hk]

end Target

end Braceless
