import Elucid.Aggregates

/-!
# Counts and unsigned sums

The accumulators of `count` and of `sum` over an unsigned column, with the states that they
exchange. None of them adds a negative number, so no partial result leaves the result type if the
total does not (`countOperations_checked`, `unsignedOperations_checked`).
-/

namespace Elucid

open List

/-! ## Counts -/

inductive CountMode
  | allRows
  | nonNull
  deriving DecidableEq

structure CheckedCountAccumulator where
  mode : CountMode
  count : Int
  deriving DecidableEq

namespace CheckedCountAccumulator

/-- `Array::null_count`. -/
def nullCount (values : List ScalarValue) : Nat := values.countP (·.isNull)

/-- The rows of a batch that count. -/
def increment (values : List ScalarValue) : CountMode → Except RuntimeFailureKind Nat
  | .allRows => .ok values.length
  | .nonNull => do
    ensure (nullCount values ≤ values.length) .execution
    return values.length - nullCount values

/-- `Accumulator::update_batch`. -/
def updateBatch (accumulator : CheckedCountAccumulator) :
    List (List ScalarValue) → Except RuntimeFailureKind CheckedCountAccumulator
  | [values] => do
    let increment ← increment values accumulator.mode
    let increment ← okOr (IntegerType.int64.tryFrom increment) .evaluation
    let count ← okOr (IntegerType.int64.checkedAdd accumulator.count increment) .evaluation
    return { accumulator with count }
  | _ => .error .execution

/-- `Accumulator::evaluate`. -/
def evaluate (accumulator : CheckedCountAccumulator) : Except RuntimeFailureKind ScalarValue :=
  .ok (.int64 (some accumulator.count))

/-- `Accumulator::state`. -/
def states (accumulator : CheckedCountAccumulator) : List ScalarValue :=
  [.int64 (some accumulator.count)]

/-- One turn of the loop of `merge_batch`. -/
def mergeCount (accumulator : CheckedCountAccumulator) :
    ScalarValue → Except RuntimeFailureKind CheckedCountAccumulator
  | .int64 (some count) =>
    if 0 ≤ count then do
      let count ← okOr (IntegerType.int64.checkedAdd accumulator.count count) .evaluation
      return { accumulator with count }
    else .error .execution
  | _ => .error .execution

/-- `Accumulator::merge_batch`. -/
def mergeBatch (accumulator : CheckedCountAccumulator) :
    List (List ScalarValue) → Except RuntimeFailureKind CheckedCountAccumulator
  | [counts] => counts.foldlM mergeCount accumulator
  | _ => .error .execution

end CheckedCountAccumulator

/-- `checked_count_udaf`. -/
def countOperations (mode : CountMode) :
    MergeRun.Operations ScalarValue CheckedCountAccumulator (List ScalarValue)
      RuntimeFailureKind where
  new := ⟨mode, 0⟩
  update accumulator values := accumulator.updateBatch [values]
  state := CheckedCountAccumulator.states
  merge accumulator states := accumulator.mergeBatch (stateColumns 1 states)

/-- The inputs that count. -/
def rowCount (inputs : List ScalarValue) : CountMode → Nat
  | .allRows => inputs.length
  | .nonNull => inputs.countP (!·.isNull)

theorem rowCount_append (seen values : List ScalarValue) (mode : CountMode) :
    rowCount (seen ++ values) mode = rowCount seen mode + rowCount values mode := by
  cases mode with
  | allRows => exact length_append
  | nonNull => exact countP_append

theorem increment_eq (values : List ScalarValue) (mode : CountMode) :
    CheckedCountAccumulator.increment values mode = .ok (rowCount values mode) := by
  cases mode with
  | allRows => rfl
  | nonNull =>
    have hlength := length_eq_countP_add_countP (·.isNull) (l := values)
    have hle : CheckedCountAccumulator.nullCount values ≤ values.length := countP_le_length
    rw [CheckedCountAccumulator.increment, ensure_of hle, ok_bind]
    refine congrArg Except.ok ?_
    simp only [rowCount, CheckedCountAccumulator.nullCount] at hlength ⊢
    simp only [Bool.not_eq_true, Bool.decide_eq_false] at hlength
    omega

/-- The accumulator behind some inputs. -/
def CheckedCountAccumulator.ofInputs (mode : CountMode) (inputs : List ScalarValue) :
    CheckedCountAccumulator :=
  ⟨mode, rowCount inputs mode⟩

/-- A number of rows is added if the total fits. -/
theorem checkedAdd_rowCount (seen values : List ScalarValue) (mode : CountMode) :
    IntegerType.int64.checkedAdd (rowCount seen mode) (rowCount values mode) =
      if IntegerType.int64.Holds (rowCount (seen ++ values) mode) then
        some (rowCount (seen ++ values) mode : Int)
      else none := by
  rw [IntegerType.checkedAdd, IntegerType.tryFrom, rowCount_append, Nat.cast_add]

/-- The number of rows of a part fits if the total does. -/
theorem holds_rowCount_append {seen values : List ScalarValue} {mode : CountMode}
    (h : IntegerType.int64.Holds (rowCount (seen ++ values) mode)) :
    IntegerType.int64.Holds (rowCount seen mode) ∧
      IntegerType.int64.Holds (rowCount values mode) := by
  rw [rowCount_append] at h
  simp only [IntegerType.holds_int64] at h ⊢
  omega

theorem countOperations_checked (mode : CountMode) :
    MergeRun.Checked (countOperations mode) (.ofInputs mode)
      (fun inputs => IntegerType.int64.Holds (rowCount inputs mode)) .evaluation where
  new := by cases mode <;> rfl
  fits_nil := by cases mode <;> decide
  safe_append := holds_rowCount_append
  update {seen values} _ := by
    refine MergeRun.outcome_iff.mpr ?_
    change CheckedCountAccumulator.updateBatch _ [values] = _
    rw [CheckedCountAccumulator.updateBatch]
    simp only [CheckedCountAccumulator.ofInputs, increment_eq, ok_bind, IntegerType.tryFrom]
    by_cases hall : IntegerType.int64.Holds (rowCount (seen ++ values) mode)
    · rw [if_pos (holds_rowCount_append hall).2, okOr_some, ok_bind, checkedAdd_rowCount,
        if_pos hall, if_pos hall]
      rfl
    · rw [if_neg hall]
      split_ifs
      · rw [okOr_some, ok_bind, checkedAdd_rowCount, if_neg hall]
        rfl
      · rfl
  merge {seen parts} hseen _ := by
    have hstep : ∀ seen, ∀ part ∈ parts, IntegerType.int64.Holds (rowCount seen mode) →
        CheckedCountAccumulator.mergeCount (.ofInputs mode seen)
            (.int64 (some (rowCount part mode))) =
          if IntegerType.int64.Holds (rowCount (seen ++ part) mode) then
            .ok (.ofInputs mode (seen ++ part))
          else .error .evaluation := by
      intro seen part _ _
      rw [CheckedCountAccumulator.mergeCount, if_pos (Int.natCast_nonneg _)]
      simp only [CheckedCountAccumulator.ofInputs, checkedAdd_rowCount]
      split_ifs <;> rfl
    have hfold := MergeRun.foldlM_eq (CheckedCountAccumulator.ofInputs mode)
      (fun inputs => IntegerType.int64.Holds (rowCount inputs mode))
      (fun accumulator part => accumulator.mergeCount (.int64 (some (rowCount part mode)))) id
      holds_rowCount_append hstep hseen
    refine MergeRun.outcome_iff.mpr ?_
    change CheckedCountAccumulator.mergeBatch _
      (stateColumns 1 (parts.map fun part => [.int64 (some (rowCount part mode))])) = _
    rw [stateColumns_one, CheckedCountAccumulator.mergeBatch, foldlM_map, hfold,
      flatMap_id]

/-! ## Unsigned sums -/

/-- A nullable value of an unsigned column. -/
inductive UnsignedInput
  | uint32 (value : Option UInt32)
  | uint64 (value : Option UInt64)

namespace UnsignedInput

/-- The value of the column. -/
def scalar : UnsignedInput → ScalarValue
  | .uint32 value => .uint32 (value.map fun value => value.toNat)
  | .uint64 value => .uint64 (value.map fun value => value.toNat)

/-- The number, if there is one. -/
def value : UnsignedInput → Option Nat
  | .uint32 value => value.map UInt32.toNat
  | .uint64 value => value.map UInt64.toNat

end UnsignedInput

/-- The inputs that are not null. -/
def unsignedValues (inputs : List UnsignedInput) : List Int :=
  inputs.filterMap fun input => input.value.map Nat.cast

section Unsigned

theorem unsignedValues_append (seen values : List UnsignedInput) :
    unsignedValues (seen ++ values) = unsignedValues seen ++ unsignedValues values :=
  filterMap_append

theorem sum_unsignedValues_nonneg (inputs : List UnsignedInput) :
    0 ≤ (unsignedValues inputs).sum := by
  refine sum_nonneg fun value hvalue => ?_
  obtain ⟨input, -, hinput⟩ := mem_filterMap.mp hvalue
  obtain ⟨number, -, rfl⟩ := Option.map_eq_some_iff.mp hinput
  exact Int.natCast_nonneg _

/-- The sum of a part fits if the total does. -/
theorem holds_unsignedValues_append {seen values : List UnsignedInput}
    (h : IntegerType.uint64.Holds (unsignedValues (seen ++ values)).sum) :
    IntegerType.uint64.Holds (unsignedValues seen).sum ∧
      IntegerType.uint64.Holds (unsignedValues values).sum := by
  have hseen := sum_unsignedValues_nonneg seen
  have hvalues := sum_unsignedValues_nonneg values
  rw [unsignedValues_append, sum_append] at h
  simp only [IntegerType.holds_uint64] at h ⊢
  omega

theorem holds_unsignedValues_singleton (input : UnsignedInput) :
    IntegerType.uint64.Holds (unsignedValues [input]).sum := by
  cases input with
  | uint32 value =>
    cases value with
    | none => decide
    | some value =>
      have hlt := value.toNat_lt
      simp only [unsignedValues, UnsignedInput.value, filterMap_cons, filterMap_nil,
        Option.map_some, sum_singleton, IntegerType.holds_uint64]
      omega
  | uint64 value =>
    cases value with
    | none => decide
    | some value =>
      have hlt := value.toNat_lt
      simp only [unsignedValues, UnsignedInput.value, filterMap_cons, filterMap_nil,
        Option.map_some, sum_singleton, IntegerType.holds_uint64]
      omega

variable [FloatArithmetic]

/-- `checked_sum_udaf` of an unsigned column. -/
def unsignedOperations :
    MergeRun.Operations UnsignedInput CheckedSumAccumulator (List ScalarValue)
      RuntimeFailureKind where
  new := .new .unsigned
  update accumulator values := accumulator.updateBatch [values.map (·.scalar)]
  state := CheckedSumAccumulator.states
  merge accumulator states := accumulator.mergeBatch (stateColumns 1 states)

/-- The accumulator behind some inputs. -/
def CheckedSumAccumulator.ofUnsigned (inputs : List UnsignedInput) : CheckedSumAccumulator :=
  ⟨.unsigned (exactSum (unsignedValues inputs))⟩

/-- The sum of a part is added if the total fits. -/
theorem addInput_ofUnsigned {seen part : List UnsignedInput}
    (hseen : IntegerType.uint64.Holds (unsignedValues seen).sum)
    (hpart : IntegerType.uint64.Holds (unsignedValues part).sum) :
    (CheckedSumAccumulator.ofUnsigned seen).addInput
        (.uint64 (exactSum (unsignedValues part))) =
      if IntegerType.uint64.Holds (unsignedValues (seen ++ part)).sum then
        .ok (.ofUnsigned (seen ++ part))
      else .error .evaluation := by
  rw [CheckedSumAccumulator.ofUnsigned, CheckedSumAccumulator.ofUnsigned, unsignedValues_append]
  cases hvalues : unsignedValues part with
  | nil =>
    rw [append_nil, if_pos hseen]
    rfl
  | cons value values =>
    rw [hvalues] at hpart
    have hstep : CheckedSumAccumulator.addInput ⟨.unsigned (exactSum (unsignedValues seen))⟩
        (.uint64 (exactSum (value :: values))) =
        (addInteger .uint64 (exactSum (unsignedValues seen)) (value + values.sum)).map
          fun sum => ⟨.unsigned sum⟩ := by
      rw [exactSum_cons]
      rfl
    rw [hstep, addInteger_exactSum hpart]
    split_ifs <;> rfl

/-- An input is added as the sum of itself. -/
theorem addInput_scalar (seen : List UnsignedInput) (input : UnsignedInput) :
    (CheckedSumAccumulator.ofUnsigned seen).addInput input.scalar =
      (CheckedSumAccumulator.ofUnsigned seen).addInput
        (.uint64 (exactSum (unsignedValues [input]))) := by
  cases input with
  | uint32 value =>
    cases value with
    | none => rfl
    | some value => simp [unsignedValues, UnsignedInput.value, UnsignedInput.scalar, exactSum,
        CheckedSumAccumulator.addInput, CheckedSumAccumulator.ofUnsigned, ScalarValue.isNull]
  | uint64 value =>
    cases value with
    | none => rfl
    | some value => simp [unsignedValues, UnsignedInput.value, UnsignedInput.scalar, exactSum]

theorem unsignedOperations_checked :
    MergeRun.Checked unsignedOperations CheckedSumAccumulator.ofUnsigned
      (fun inputs => IntegerType.uint64.Holds (unsignedValues inputs).sum) .evaluation where
  new := rfl
  fits_nil := by decide
  safe_append := holds_unsignedValues_append
  update {seen values} hseen := by
    have hstep : ∀ seen, ∀ input ∈ values, IntegerType.uint64.Holds (unsignedValues seen).sum →
        (CheckedSumAccumulator.ofUnsigned seen).addInput input.scalar =
          if IntegerType.uint64.Holds (unsignedValues (seen ++ [input])).sum then
            .ok (.ofUnsigned (seen ++ [input]))
          else .error .evaluation := by
      intro seen input _ hseen
      rw [addInput_scalar, addInput_ofUnsigned hseen (holds_unsignedValues_singleton input)]
    have hfold := MergeRun.foldlM_eq CheckedSumAccumulator.ofUnsigned
      (fun inputs => IntegerType.uint64.Holds (unsignedValues inputs).sum)
      (fun accumulator input => accumulator.addInput input.scalar) (fun input => [input])
      holds_unsignedValues_append hstep hseen
    refine MergeRun.outcome_iff.mpr ?_
    change CheckedSumAccumulator.updateBatch _ [values.map (·.scalar)] = _
    rw [CheckedSumAccumulator.updateBatch, foldlM_map, hfold, flatMap_singleton']
  merge {seen parts} hseen hparts := by
    have hfold := MergeRun.foldlM_eq CheckedSumAccumulator.ofUnsigned
      (fun inputs => IntegerType.uint64.Holds (unsignedValues inputs).sum)
      (fun accumulator part => accumulator.addInput (.uint64 (exactSum (unsignedValues part)))) id
      holds_unsignedValues_append
      (fun seen part hpart hseen => addInput_ofUnsigned hseen (hparts part hpart)) hseen
    refine MergeRun.outcome_iff.mpr ?_
    change CheckedSumAccumulator.mergeBatch _
      (stateColumns 1 (parts.map fun part => [.uint64 (exactSum (unsignedValues part))])) = _
    rw [stateColumns_one, CheckedSumAccumulator.mergeBatch, CheckedSumAccumulator.updateBatch,
      foldlM_map, hfold, flatMap_id]

end Unsigned

end Elucid
