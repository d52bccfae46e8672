import Elucid.JsonCast
import Elucid.MergeRun

/-!
# Checked sums

The engine gives DataFusion its own accumulator for `sum`. It is updated with batches of a
column, and accumulators are merged through their states. Every addition is checked, so a
partial sum that leaves the result type ends the query, even if the whole sum is in it.

How a sum is computed is a tree of updates and merges (`SumRun`), with the inputs at its leaves.
The operations keep the sum of the inputs, and do not fail if those are `Bounded`
(`signedOperations_guarded`). `sum_exact_iff` : for a multiset of signed inputs whose sum fits,
every tree gives the sum exactly if the positive inputs fit together and the negative ones do.
-/

namespace Elucid

open List

/-! ## The accumulator -/

inductive SumKind
  | signed
  | unsigned
  | float
  deriving DecidableEq

inductive SumState
  | signed (sum : Option Int)
  | unsigned (sum : Option Int)
  | float (sum : Option UInt64)
  deriving DecidableEq

/-- `add_signed` and `add_unsigned`, by their type. -/
def addInteger (integerType : IntegerType) (state : Option Int) (value : Int) :
    Except RuntimeFailureKind (Option Int) :=
  match state with
  | some current => (okOr (integerType.checkedAdd current value) .evaluation).map some
  | none => .ok (some value)

def addSigned : Option Int → Int → Except RuntimeFailureKind (Option Int) := addInteger .int64

def addUnsigned : Option Int → Int → Except RuntimeFailureKind (Option Int) := addInteger .uint64

section Accumulator

variable [FloatArithmetic]

def addFloat (state : Option UInt64) (value : UInt64) :
    Except RuntimeFailureKind (Option UInt64) :=
  let sum := state.elim value fun current => FloatArithmetic.f64.add current value
  if isFiniteF64 sum then .ok (some sum) else .error .evaluation

structure CheckedSumAccumulator where
  state : SumState
  deriving DecidableEq

namespace CheckedSumAccumulator

/-- `CheckedSumAccumulator::new`. -/
def new : SumKind → CheckedSumAccumulator
  | .signed => ⟨.signed none⟩
  | .unsigned => ⟨.unsigned none⟩
  | .float => ⟨.float none⟩

/-- `CheckedSumAccumulator::add_input`. -/
def addInput (accumulator : CheckedSumAccumulator) (value : ScalarValue) :
    Except RuntimeFailureKind CheckedSumAccumulator :=
  if value.isNull then .ok accumulator
  else
    match accumulator.state, value with
    | .signed sum, .int32 (some value) => (addSigned sum value).map fun sum => ⟨.signed sum⟩
    | .signed sum, .int64 (some value) => (addSigned sum value).map fun sum => ⟨.signed sum⟩
    | .unsigned sum, .uint32 (some value) =>
      (addUnsigned sum value).map fun sum => ⟨.unsigned sum⟩
    | .unsigned sum, .uint64 (some value) =>
      (addUnsigned sum value).map fun sum => ⟨.unsigned sum⟩
    | .float sum, .float32 (some value) =>
      if isFiniteF32 value then
        (addFloat sum (FloatArithmetic.widen value)).map fun sum => ⟨.float sum⟩
      else .error .execution
    | .float sum, .float64 (some value) =>
      if isFiniteF64 value then (addFloat sum value).map fun sum => ⟨.float sum⟩
      else .error .execution
    | _, _ => .error .execution

/-- `CheckedSumAccumulator::scalar`. -/
def scalar (accumulator : CheckedSumAccumulator) : ScalarValue :=
  match accumulator.state with
  | .signed value => .int64 value
  | .unsigned value => .uint64 value
  | .float value => .float64 value

/-- `Accumulator::update_batch`, on the columns that it is given. -/
def updateBatch (accumulator : CheckedSumAccumulator) :
    List (List ScalarValue) → Except RuntimeFailureKind CheckedSumAccumulator
  | [values] => values.foldlM addInput accumulator
  | _ => .error .execution

/-- `Accumulator::evaluate`. -/
def evaluate (accumulator : CheckedSumAccumulator) : Except RuntimeFailureKind ScalarValue :=
  .ok accumulator.scalar

/-- `Accumulator::state`. -/
def states (accumulator : CheckedSumAccumulator) : List ScalarValue := [accumulator.scalar]

/-- `Accumulator::merge_batch`. -/
def mergeBatch (accumulator : CheckedSumAccumulator) (states : List (List ScalarValue)) :
    Except RuntimeFailureKind CheckedSumAccumulator :=
  accumulator.updateBatch states

end CheckedSumAccumulator

/-! ## Runs -/

/-- The columns of some states with `width` values each. -/
def stateColumns (width : Nat) (states : List (List ScalarValue)) : List (List ScalarValue) :=
  (List.range width).map fun column => states.filterMap (·[column]?)

/-- How an accumulator for signed inputs came about : it was made, updated with a batch, or
merged with the states of others. -/
abbrev SumRun := MergeRun (Option Int64)

namespace SumRun

/-- A nullable input as a value of its column. -/
def inputScalar (value : Option Int64) : ScalarValue := .int64 (value.map Int64.toInt)

/-- `checked_sum_udaf` of a signed column. -/
def signedOperations :
    MergeRun.Operations (Option Int64) CheckedSumAccumulator (List ScalarValue)
      RuntimeFailureKind where
  new := .new .signed
  update accumulator values := accumulator.updateBatch [values.map inputScalar]
  state := CheckedSumAccumulator.states
  merge accumulator states := accumulator.mergeBatch (stateColumns 1 states)

/-- The sum that a run gives. -/
def result (run : SumRun) : Except RuntimeFailureKind ScalarValue := do
  let accumulator ← run.execute signedOperations
  accumulator.evaluate

end SumRun

end Accumulator

/-! ## Exact sums -/

/-- The inputs that are not null. -/
def nonNull (inputs : List (Option Int64)) : List Int := inputs.filterMap (·.map Int64.toInt)

/-- The mathematical sum, null if there is nothing to add. -/
def exactSum (values : List Int) : Option Int := if values = [] then none else some values.sum

/-- The sum of the positive values. -/
def positiveSum (values : List Int) : Int := (values.map fun value => max value 0).sum

/-- The sum of the negative values. -/
def negativeSum (values : List Int) : Int := (values.map fun value => min value 0).sum

theorem exactSum_cons (value : Int) (values : List Int) :
    exactSum (value :: values) = some (value + values.sum) := by
  simp [exactSum]

theorem sum_le_positiveSum (values : List Int) : values.sum ≤ positiveSum values := by
  induction values with
  | nil => exact le_rfl
  | cons value values ih =>
    simp only [positiveSum, map_cons, sum_cons] at ih ⊢
    omega

theorem negativeSum_le_sum (values : List Int) : negativeSum values ≤ values.sum := by
  induction values with
  | nil => exact le_rfl
  | cons value values ih =>
    simp only [negativeSum, map_cons, sum_cons] at ih ⊢
    omega

/-- The sum of some values is added if the sum of all fits. -/
theorem addInteger_exactSum {t : IntegerType} {seen part : List Int} {value : Int}
    (hpart : t.Holds (value :: part).sum) :
    addInteger t (exactSum seen) (value + part.sum) =
      if t.Holds (seen ++ value :: part).sum then .ok (exactSum (seen ++ value :: part))
      else .error .evaluation := by
  cases seen with
  | nil =>
    rw [nil_append, if_pos hpart, exactSum_cons]
    rfl
  | cons first seen =>
    have hsum : ((first :: seen) ++ value :: part).sum =
        first + seen.sum + (value + part.sum) := by
      rw [sum_append, sum_cons, sum_cons]
    have hexact : exactSum ((first :: seen) ++ value :: part) =
        some (first + seen.sum + (value + part.sum)) := by
      rw [← hsum, cons_append, exactSum_cons, sum_cons]
    rw [hexact, hsum, exactSum_cons]
    simp only [addInteger, IntegerType.checkedAdd, IntegerType.tryFrom]
    split_ifs <;> rfl

/-- The positive values fit together, and the negative ones do. -/
structure Bounded (values : List Int) : Prop where
  positive : IntegerType.int64.Holds (positiveSum values)
  negative : IntegerType.int64.Holds (negativeSum values)

namespace Bounded

variable {values rest : List Int}

theorem positiveSum_nonneg (values : List Int) : 0 ≤ positiveSum values := by
  refine sum_nonneg fun value hvalue => ?_
  obtain ⟨_, -, rfl⟩ := mem_map.mp hvalue
  exact le_max_right _ _

theorem negativeSum_nonpos (values : List Int) : negativeSum values ≤ 0 := by
  induction values with
  | nil => exact le_rfl
  | cons value values ih =>
    simp only [negativeSum, map_cons, sum_cons] at ih ⊢
    omega

/-- A part of bounded values is bounded. -/
theorem of_append (h : Bounded (values ++ rest)) :
    Bounded values ∧ Bounded rest := by
  obtain ⟨hpositive, hnegative⟩ := h
  have hvalues := positiveSum_nonneg values
  have hrest := positiveSum_nonneg rest
  have hvalues' := negativeSum_nonpos values
  have hrest' := negativeSum_nonpos rest
  rw [IntegerType.holds_int64] at hpositive hnegative
  simp only [positiveSum, negativeSum, map_append, sum_append] at *
  refine ⟨⟨?_, ?_⟩, ?_, ?_⟩ <;>
  · simp only [positiveSum, negativeSum]
    rw [IntegerType.holds_int64]
    omega

theorem perm (h : Bounded values) (hperm : values.Perm rest) :
    Bounded rest where
  positive := by
    have hsum : positiveSum values = positiveSum rest := (hperm.map _).sum_eq
    exact hsum ▸ h.positive
  negative := by
    have hsum : negativeSum values = negativeSum rest := (hperm.map _).sum_eq
    exact hsum ▸ h.negative

/-- The sum of bounded values fits. -/
theorem holds_sum {values : List Int} (h : Bounded values) :
    IntegerType.int64.Holds values.sum := by
  obtain ⟨hpositive, hnegative⟩ := h
  have hle := sum_le_positiveSum values
  have hge := negativeSum_le_sum values
  rw [IntegerType.holds_int64] at *
  omega

end Bounded

/-- The values of one kind, added on their own, are the others replaced by zero. -/
theorem sum_nonNull_filter (kind : Int → Bool) {clip : Int → Int}
    (hclip : ∀ value, clip value = if kind value then value else 0) (inputs : List (Option Int64)) :
    (nonNull (inputs.filter fun value => value.any fun value => kind value.toInt)).sum =
      ((nonNull inputs).map clip).sum := by
  induction inputs with
  | nil => rfl
  | cons value inputs ih =>
    cases value with
    | none => exact ih
    | some value =>
      have hcons : nonNull (some value :: inputs) = value.toInt :: nonNull inputs := rfl
      rw [filter_cons, hcons, map_cons, sum_cons, ← ih, hclip]
      by_cases hvalue : kind value.toInt <;> simp [hvalue, nonNull]

/-! ## What a run computes -/

namespace SumRun

/-- An input is the sum of itself. -/
theorem inputScalar_eq (value : Option Int64) :
    inputScalar value = .int64 (exactSum (nonNull [value])) := by
  cases value with
  | none => rfl
  | some value => simp [inputScalar, nonNull, exactSum]

theorem holds_singleton (value : Option Int64) :
    IntegerType.int64.Holds (nonNull [value]).sum := by
  cases value with
  | none => decide
  | some value =>
    have hle := value.le_toInt
    have hlt := value.toInt_lt
    simp only [nonNull, filterMap_cons, filterMap_nil, Option.map_some,
      sum_singleton, IntegerType.holds_int64]
    omega

theorem nonNull_append (values rest : List (Option Int64)) :
    nonNull (values ++ rest) = nonNull values ++ nonNull rest := filterMap_append

theorem bounded_append {seen values : List (Option Int64)}
    (h : Bounded (nonNull (seen ++ values))) : Bounded (nonNull seen) ∧ Bounded (nonNull values) :=
  Bounded.of_append (nonNull_append seen values ▸ h)

end SumRun

theorem stateColumns_one {α : Type} (parts : List α) (state : α → ScalarValue) :
    stateColumns 1 (parts.map fun part => [state part]) = [parts.map state] := by
  rw [stateColumns, range_one, map_singleton, filterMap_map]
  exact congrArg (fun column => [column]) (filterMap_eq_map (f := state) ▸ rfl)

section Runs

variable [FloatArithmetic]

namespace CheckedSumAccumulator

/-- The accumulator behind some inputs. -/
def ofInputs (inputs : List (Option Int64)) : CheckedSumAccumulator :=
  ⟨.signed (exactSum (nonNull inputs))⟩

/-- The sum of a part is added if the total fits, so if all inputs are bounded. -/
theorem addInput_ofInputs {seen part : List (Option Int64)}
    (hseen : IntegerType.int64.Holds (nonNull seen).sum)
    (hpart : IntegerType.int64.Holds (nonNull part).sum) :
    MergeRun.Outcome (ofInputs (seen ++ part))
      (IntegerType.int64.Holds (nonNull (seen ++ part)).sum) (Bounded (nonNull (seen ++ part)))
      .evaluation ((ofInputs seen).addInput (.int64 (exactSum (nonNull part)))) := by
  rw [ofInputs, ofInputs, SumRun.nonNull_append]
  cases hvalues : nonNull part with
  | nil =>
    rw [append_nil]
    exact ⟨rfl, hseen⟩
  | cons value values =>
    rw [hvalues] at hpart
    have hstep : CheckedSumAccumulator.addInput ⟨.signed (exactSum (nonNull seen))⟩
        (.int64 (exactSum (value :: values))) =
        (addInteger .int64 (exactSum (nonNull seen)) (value + values.sum)).map
          fun sum => ⟨.signed sum⟩ := by
      rw [exactSum_cons]
      rfl
    rw [hstep, addInteger_exactSum hpart]
    split_ifs with hall
    · exact ⟨rfl, hall⟩
    · exact ⟨rfl, fun hbounded => hall hbounded.holds_sum⟩

/-- The sums of some parts, one after another. -/
theorem foldlM_ofInputs {β : Type} {items : List β} (part : β → List (Option Int64))
    {seen : List (Option Int64)} (hseen : IntegerType.int64.Holds (nonNull seen).sum)
    (hitems : ∀ item ∈ items, IntegerType.int64.Holds (nonNull (part item)).sum) :
    MergeRun.Outcome (ofInputs (seen ++ items.flatMap part))
      (IntegerType.int64.Holds (nonNull (seen ++ items.flatMap part)).sum)
      (Bounded (nonNull (seen ++ items.flatMap part))) .evaluation
      (items.foldlM (fun accumulator item =>
        accumulator.addInput (.int64 (exactSum (nonNull (part item))))) (ofInputs seen)) :=
  MergeRun.foldlM_outcome ofInputs (fun inputs => IntegerType.int64.Holds (nonNull inputs).sum)
    (fun inputs => Bounded (nonNull inputs)) _ part SumRun.bounded_append
    (fun _ item hitem hseen => addInput_ofInputs hseen (hitems item hitem)) hseen

end CheckedSumAccumulator

namespace SumRun

/-- The operations keep the sum of the inputs, which fits, and do not fail if they are bounded. -/
theorem signedOperations_guarded :
    MergeRun.Guarded signedOperations CheckedSumAccumulator.ofInputs
      (fun inputs => IntegerType.int64.Holds (nonNull inputs).sum)
      (fun inputs => Bounded (nonNull inputs)) .evaluation where
  new := rfl
  fits_nil := by decide
  safe_append := bounded_append
  update {seen values} hseen := by
    have hfold := CheckedSumAccumulator.foldlM_ofInputs (fun value => [value]) hseen
      fun value (_ : value ∈ values) => holds_singleton value
    rw [flatMap_singleton'] at hfold
    change MergeRun.Outcome _ _ _ _ (CheckedSumAccumulator.updateBatch _ [values.map inputScalar])
    rw [CheckedSumAccumulator.updateBatch, funext inputScalar_eq, foldlM_map]
    exact hfold
  merge {seen parts} hseen hparts := by
    have hfold := CheckedSumAccumulator.foldlM_ofInputs id hseen hparts
    rw [flatMap_id] at hfold
    change MergeRun.Outcome _ _ _ _ (CheckedSumAccumulator.mergeBatch _
      (stateColumns 1 (parts.map fun part => [.int64 (exactSum (nonNull part))])))
    rw [stateColumns_one, CheckedSumAccumulator.mergeBatch, CheckedSumAccumulator.updateBatch,
      foldlM_map]
    exact hfold

/-- A run gives the sum of its inputs, and fails if that does not fit. -/
def Exact (run : SumRun) : Prop :=
  (IntegerType.int64.Holds (nonNull run.inputs).sum →
    run.result = .ok (.int64 (exactSum (nonNull run.inputs)))) ∧
  (¬IntegerType.int64.Holds (nonNull run.inputs).sum → ∃ failure, run.result = .error failure)

/-- A run gives the sum of its inputs, which fits, or it fails and the inputs are not bounded. -/
theorem result_outcome (run : SumRun) :
    MergeRun.Outcome (.int64 (exactSum (nonNull run.inputs)))
      (IntegerType.int64.Holds (nonNull run.inputs).sum) (Bounded (nonNull run.inputs))
      .evaluation run.result :=
  (signedOperations_guarded.execute run).bind id fun hfits => ⟨rfl, hfits⟩

/-- Inputs of one kind may come first, so that they have to fit on their own. -/
theorem holds_filter {inputs : List (Option Int64)}
    (hholds : IntegerType.int64.Holds (nonNull inputs).sum)
    (h : ∀ run : SumRun, run.inputs.Perm inputs → run.Exact) (kind : Option Int64 → Bool) :
    IntegerType.int64.Holds (nonNull (inputs.filter kind)).sum := by
  let first : SumRun := .updateBatch .new (inputs.filter kind)
  let run := first.updateBatch (inputs.filter fun value => !kind value)
  have hperm : run.inputs.Perm inputs := filter_append_perm kind inputs
  have hsum : (nonNull run.inputs).sum = (nonNull inputs).sum :=
    (hperm.filterMap _).sum_eq
  have hresult := (h run hperm).1 (hsum ▸ hholds)
  obtain ⟨accumulator, hrun, -⟩ := bind_eq_ok.mp hresult
  obtain ⟨previous, hfirst, -⟩ := bind_eq_ok.mp hrun
  have houtcome := signedOperations_guarded.execute first
  rw [hfirst] at houtcome
  exact houtcome.2

end SumRun

/-- For every multiset of signed inputs : its sum comes out of every run over it, whatever the
order, the batches and the merges, or none if it does not fit, exactly if the positive inputs fit
together and the negative ones do, or the sum does not fit anyway. -/
theorem sum_exact_iff (inputs : List (Option Int64)) :
    (∀ run : SumRun, run.inputs.Perm inputs → run.Exact) ↔
      (IntegerType.int64.Holds (nonNull inputs).sum → Bounded (nonNull inputs)) := by
  constructor
  · intro h hholds
    refine ⟨?_, ?_⟩
    · rw [positiveSum, ← sum_nonNull_filter (fun value => 0 < value) (by grind)]
      exact SumRun.holds_filter hholds h _
    · rw [negativeSum, ← sum_nonNull_filter (fun value => value < 0) (by grind)]
      exact SumRun.holds_filter hholds h _
  · intro h run hperm
    have hvalues : (nonNull run.inputs).Perm (nonNull inputs) := hperm.filterMap _
    have houtcome := SumRun.result_outcome run
    refine ⟨fun hholds => ?_, fun hholds => ?_⟩
    · have hbounded := (h (hvalues.sum_eq ▸ hholds)).perm hvalues.symm
      cases hresult : run.result with
      | ok sum => exact congrArg Except.ok (hresult ▸ houtcome).1
      | error failure => exact absurd hbounded (hresult ▸ houtcome).2
    · cases hresult : run.result with
      | ok sum => exact absurd (hresult ▸ houtcome).2 hholds
      | error failure => exact ⟨failure, rfl⟩

end Runs

section Sample

attribute [local instance] FloatArithmetic.zero

/-- The largest input, one and minus one. -/
def overflowingInputs : List (Option Int64) := [some Int64.maxValue, some 1, some (-1)]

/-- Their sum is the largest input, and adding them in their order fails. -/
theorem sum_overflowingInputs :
    exactSum (nonNull overflowingInputs) = some (2 ^ 63 - 1) ∧
      SumRun.result (.updateBatch .new overflowingInputs) = .error .evaluation := by
  decide

end Sample

end Elucid
