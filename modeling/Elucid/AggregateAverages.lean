import Elucid.AggregateCounts

/-!
# Averages

The accumulator of `avg` keeps a float sum and a count, and both go their own ways
(`execute_averageOperations`) : the sum depends on the order of the inputs, the count does not.

`aggregates_exact` : a run gives the total of its inputs, whatever the order, the batches and the
merges, and fails if the total does not fit, or in the case of an average if the float sum fails.
Merging what has seen no input changes nothing.
-/

namespace Elucid

/-! ## Averages -/

section Average

variable [FloatArithmetic]
variable {result : Except RuntimeFailureKind (Option UInt64)} {count : Nat}

/-- The binary64 that `CheckedAverageAccumulator::add_input` adds for a value of its type. -/
def averageValue (inputType : LogicalType) (value : ScalarValue) : Option UInt64 :=
  match inputType, value with
  | .int32, .int32 (some value) => some (FloatArithmetic.f64.ofInt value)
  | .int64, .int64 (some value) => some (FloatArithmetic.f64.ofInt value)
  | .uint32, .uint32 (some value) => some (FloatArithmetic.f64.ofInt value)
  | .uint64, .uint64 (some value) => some (FloatArithmetic.f64.ofInt value)
  | .float32, .float32 (some value) =>
    if isFiniteF32 value then some (FloatArithmetic.widen value) else none
  | .float64, .float64 (some value) => if isFiniteF64 value then some value else none
  | _, _ => none

structure CheckedAverageAccumulator where
  inputType : LogicalType
  sum : Option UInt64
  count : Int
  deriving DecidableEq

namespace CheckedAverageAccumulator

/-- `CheckedAverageAccumulator::new`. -/
def new (inputType : LogicalType) : CheckedAverageAccumulator := ⟨inputType, none, 0⟩

/-- The additions to the sum and to the count. -/
def add (accumulator : CheckedAverageAccumulator) (value : UInt64) (count : Int) :
    Except RuntimeFailureKind CheckedAverageAccumulator := do
  let sum ← addFloat accumulator.sum value
  let count ← okOr (IntegerType.uint64.checkedAdd accumulator.count count) .evaluation
  return { accumulator with sum, count }

/-- `CheckedAverageAccumulator::add_input`. -/
def addInput (accumulator : CheckedAverageAccumulator) (value : ScalarValue) :
    Except RuntimeFailureKind CheckedAverageAccumulator :=
  if value.isNull then .ok accumulator
  else
    match averageValue accumulator.inputType value with
    | some value => accumulator.add value 1
    | none => .error .execution

/-- `Accumulator::update_batch`. -/
def updateBatch (accumulator : CheckedAverageAccumulator) :
    List (List ScalarValue) → Except RuntimeFailureKind CheckedAverageAccumulator
  | [values] => values.foldlM addInput accumulator
  | _ => .error .execution

/-- `Accumulator::evaluate`. -/
def evaluate (accumulator : CheckedAverageAccumulator) : Except RuntimeFailureKind ScalarValue :=
  match accumulator.sum with
  | none => .ok (.float64 none)
  | some sum =>
    if accumulator.count = 0 then .error .execution
    else
      let average := FloatArithmetic.f64.div sum (FloatArithmetic.f64.ofInt accumulator.count)
      if isFiniteF64 average then .ok (.float64 (some average)) else .error .evaluation

/-- `Accumulator::state`. -/
def states (accumulator : CheckedAverageAccumulator) : List ScalarValue :=
  [.float64 accumulator.sum, .uint64 (some accumulator.count)]

/-- One turn of the loop of `merge_batch`. -/
def mergeState (accumulator : CheckedAverageAccumulator) (state : ScalarValue × ScalarValue) :
    Except RuntimeFailureKind CheckedAverageAccumulator :=
  match state with
  | (.float64 none, .uint64 (some 0)) => .ok accumulator
  | (.float64 (some sum), .uint64 (some count)) =>
    if isFiniteF64 sum ∧ 0 < count then accumulator.add sum count else .error .execution
  | _ => .error .execution

/-- `Accumulator::merge_batch`. -/
def mergeBatch (accumulator : CheckedAverageAccumulator) :
    List (List ScalarValue) → Except RuntimeFailureKind CheckedAverageAccumulator
  | [sums, counts] => do
    ensure (sums.length = counts.length) .execution
    (sums.zip counts).foldlM mergeState accumulator
  | _ => .error .execution

end CheckedAverageAccumulator

/-- A nullable value of a column of a type, finite if it is a float. -/
def AverageInput (inputType : LogicalType) : Type :=
  { value : ScalarValue // value.isNull ∨ (averageValue inputType value).isSome }

/-- The binary64 of an input that is not null. -/
def AverageInput.value {inputType : LogicalType} (input : AverageInput inputType) :
    Option UInt64 :=
  if input.val.isNull then none else averageValue inputType input.val

/-- The number of inputs that are not null. -/
def averageCount {inputType : LogicalType} (inputs : List (AverageInput inputType)) : Nat :=
  inputs.countP (!·.val.isNull)

/-- `checked_average_udaf`. -/
def averageOperations (inputType : LogicalType) :
    MergeRun.Operations (AverageInput inputType) CheckedAverageAccumulator (List ScalarValue)
      RuntimeFailureKind where
  new := .new inputType
  update accumulator values := accumulator.updateBatch [values.map (·.val)]
  state := CheckedAverageAccumulator.states
  merge accumulator states := accumulator.mergeBatch (stateColumns 2 states)

/-- An addition, or nothing to add. -/
def addNullable (sum value : Option UInt64) : Except RuntimeFailureKind (Option UInt64) :=
  value.elim (.ok sum) (addFloat sum)

/-- The sum of an average, without its count. -/
def floatOperations (inputType : LogicalType) :
    MergeRun.Operations (AverageInput inputType) (Option UInt64) (Option UInt64)
      RuntimeFailureKind where
  new := none
  update sum values := (values.map (·.value)).foldlM addNullable sum
  state := id
  merge sum states := states.foldlM addNullable sum

/-- What the sum of `count` values can be. -/
inductive FloatSum : Nat → Except RuntimeFailureKind (Option UInt64) → Prop
  | empty : FloatSum 0 (.ok none)
  | finite {count : Nat} {sum : UInt64} (hcount : 0 < count) (hsum : isFiniteF64 sum) :
    FloatSum count (.ok (some sum))
  | failed {count : Nat} (hcount : 0 < count) : FloatSum count (.error .evaluation)

/-- A sum as the accumulator has it, if the count fits. -/
def averageOf (inputType : LogicalType) (count : Nat) (sum : Option UInt64) :
    Except RuntimeFailureKind CheckedAverageAccumulator :=
  if IntegerType.uint64.Holds count then .ok ⟨inputType, sum, count⟩ else .error .evaluation

namespace FloatSum

variable {sum : Except RuntimeFailureKind (Option UInt64)}
variable {total : Nat} {β : Type}

theorem addFloat {sum : Option UInt64} {value : UInt64} (hcount : 0 < count) :
    FloatSum count (Elucid.addFloat sum value) := by
  rw [Elucid.addFloat]
  split_ifs with hfinite
  · exact .finite hcount hfinite
  · exact .failed hcount

omit [FloatArithmetic] in
theorem eq_none_iff {sum : Option UInt64} (h : FloatSum count (.ok sum)) :
    sum = none ↔ count = 0 := by
  cases h with
  | empty => exact ⟨fun _ => rfl, fun _ => rfl⟩
  | finite hcount _ =>
    exact ⟨fun h => absurd h (Option.some_ne_none _), fun h => absurd h hcount.ne'⟩

/-- Adding the sum of some inputs to a sum. -/
theorem addNullable {added : Nat} {sum value : Option UInt64} (hsum : FloatSum count (.ok sum))
    (hvalue : value = none ↔ added = 0) :
    FloatSum (count + added) (Elucid.addNullable sum value) := by
  cases value with
  | none =>
    rw [hvalue.mp rfl]
    exact hsum
  | some value =>
    have hadded : added ≠ 0 := fun h => Option.some_ne_none _ (hvalue.mpr h)
    exact .addFloat (Nat.add_pos_right _ (Nat.pos_of_ne_zero hadded))

/-- Adding the sums of some inputs to a sum, one after another. -/
theorem foldlM {sum : Option UInt64} {items : List (Option UInt64 × Nat)}
    (hsum : FloatSum count (.ok sum)) (hitems : ∀ item ∈ items, item.1 = none ↔ item.2 = 0) :
    FloatSum (count + (items.map Prod.snd).sum)
      ((items.map Prod.fst).foldlM Elucid.addNullable sum) := by
  induction items generalizing count sum with
  | nil => exact hsum
  | cons item items ih =>
    obtain ⟨hitem, hitems⟩ := List.forall_mem_cons.mp hitems
    have hstep := hsum.addNullable hitem
    rw [List.map_cons, List.map_cons, List.foldlM_cons, List.sum_cons, ← Nat.add_assoc]
    generalize count + item.2 = count at hstep ⊢
    generalize Elucid.addNullable sum item.1 = result at hstep ⊢
    cases hstep with
    | empty => exact ih .empty hitems
    | finite hcount hfinite => exact ih (.finite hcount hfinite) hitems
    | failed hcount => exact .failed (Nat.add_pos_left hcount _)

omit [FloatArithmetic] in
/-- A count that does not fit fails, whatever the sum. -/
theorem bind_averageOf (h : FloatSum count sum) (hcount : ¬IntegerType.uint64.Holds total)
    (inputType : LogicalType) :
    sum >>= averageOf inputType total = .error .evaluation := by
  cases h with
  | empty => exact if_neg hcount
  | finite _ _ => exact if_neg hcount
  | failed _ => rfl

omit [FloatArithmetic] in
theorem bind_failed (h : FloatSum count sum) :
    (sum >>= fun _ => (.error .evaluation : Except RuntimeFailureKind β)) =
      .error .evaluation := by
  cases h <;> rfl

omit [FloatArithmetic] in
theorem bind_averageOf_failed (h : FloatSum count sum) (inputType : LogicalType) :
    (sum >>= averageOf inputType total >>= fun _ =>
      (.error .evaluation : Except RuntimeFailureKind β)) = .error .evaluation := by
  have hstep : ∀ sum, (averageOf inputType total sum >>= fun _ =>
      (.error .evaluation : Except RuntimeFailureKind β)) = .error .evaluation := by
    intro sum
    rw [averageOf]
    split_ifs <;> rfl
  rw [bind_assoc]
  simp only [hstep]
  exact h.bind_failed

end FloatSum

namespace CheckedAverageAccumulator

variable {inputType : LogicalType} {items : List (Option UInt64 × Nat)} {item : Option UInt64 × Nat}

/-- A value and the number of inputs that it stands for. -/
def accumulate (accumulator : CheckedAverageAccumulator) (item : Option UInt64 × Nat) :
    Except RuntimeFailureKind CheckedAverageAccumulator :=
  item.1.elim (.ok accumulator) fun value => accumulator.add value item.2

/-- One addition to the sum, and one to the count. -/
theorem accumulate_eq {n : Nat} {sum value : Option UInt64}
    (hcount : IntegerType.uint64.Holds count) (hvalue : value = none ↔ n = 0) :
    accumulate ⟨inputType, sum, count⟩ (value, n) =
      addNullable sum value >>= averageOf inputType (count + n) := by
  cases value with
  | none =>
    rw [hvalue.mp rfl, Nat.add_zero]
    exact (if_pos hcount).symm
  | some value =>
    refine congrArg (addFloat sum value >>= ·) (funext fun sum => ?_)
    rw [averageOf, IntegerType.checkedAdd, IntegerType.tryFrom, Nat.cast_add]
    split_ifs <;> rfl

/-- The sum and the count go their own ways. -/
theorem foldlM_accumulate {sum : Option UInt64} (hcount : IntegerType.uint64.Holds count)
    (hsum : FloatSum count (.ok sum)) (hitems : ∀ item ∈ items, item.1 = none ↔ item.2 = 0) :
    items.foldlM accumulate ⟨inputType, sum, count⟩ =
      (items.map Prod.fst).foldlM addNullable sum >>=
        averageOf inputType (count + (items.map Prod.snd).sum) := by
  induction items generalizing count sum with
  | nil => exact (if_pos hcount).symm
  | cons item items ih =>
    obtain ⟨hitem, hrest⟩ := List.forall_mem_cons.mp hitems
    obtain ⟨value, n⟩ := item
    have hcounts : count + (((value, n) :: items).map Prod.snd).sum =
        count + n + (items.map Prod.snd).sum := by
      rw [List.map_cons, List.sum_cons, Nat.add_assoc]
    have hadd := hsum.addNullable hitem
    rw [List.foldlM_cons, accumulate_eq hcount hitem, List.map_cons, List.foldlM_cons, bind_assoc,
      bind_assoc, hcounts]
    generalize addNullable sum value = result at hadd ⊢
    cases result with
    | error failure => rfl
    | ok sum =>
      rw [ok_bind, ok_bind, averageOf]
      by_cases hfits : IntegerType.uint64.Holds (count + n : Nat)
      · rw [if_pos hfits]
        exact ih hfits hadd hrest
      · have htotal : ¬IntegerType.uint64.Holds (count + n + (items.map Prod.snd).sum : Nat) := by
          simp only [IntegerType.holds_uint64] at hfits ⊢
          omega
        rw [if_neg hfits, (hadd.foldlM hrest).bind_averageOf htotal]
        rfl

/-- What an input contributes. -/
def contribution {inputType : LogicalType} (input : AverageInput inputType) :
    Option UInt64 × Nat :=
  (input.value, if input.val.isNull then 0 else 1)

theorem addInput_eq (accumulator : CheckedAverageAccumulator)
    (htype : accumulator.inputType = inputType) (input : AverageInput inputType) :
    accumulator.addInput input.val = accumulator.accumulate (contribution input) := by
  rw [addInput, accumulate, contribution, AverageInput.value, htype]
  by_cases hnull : input.val.isNull
  · simp only [if_pos hnull]
    rfl
  · simp only [if_neg hnull]
    obtain ⟨value, hvalue⟩ := Option.isSome_iff_exists.mp (input.property.resolve_left hnull)
    rw [hvalue]
    rfl

theorem inputType_of_accumulate {accumulator result : CheckedAverageAccumulator}
    (h : accumulator.accumulate item = .ok result) :
    result.inputType = accumulator.inputType := by
  obtain ⟨value, count⟩ := item
  cases value with
  | none =>
    cases h
    rfl
  | some value =>
    obtain ⟨sum, -, h⟩ := bind_eq_ok.mp h
    obtain ⟨count, -, h⟩ := bind_eq_ok.mp h
    cases h
    rfl

/-- A batch adds what its inputs contribute. -/
theorem updateBatch_eq (accumulator : CheckedAverageAccumulator)
    (htype : accumulator.inputType = inputType) (values : List (AverageInput inputType)) :
    accumulator.updateBatch [values.map (·.val)] =
      (values.map contribution).foldlM accumulate accumulator := by
  rw [updateBatch]
  induction values generalizing accumulator with
  | nil => rfl
  | cons input values ih =>
    rw [List.map_cons, List.map_cons, List.foldlM_cons, List.foldlM_cons,
      addInput_eq accumulator htype]
    cases hstep : accumulator.accumulate (contribution input) with
    | error failure => rfl
    | ok result => exact ih result ((inputType_of_accumulate hstep).trans htype)

/-- The state of a sum and a count. -/
def itemStates (item : Option UInt64 × Nat) : List ScalarValue :=
  [.float64 item.1, .uint64 (some item.2)]

omit [FloatArithmetic] in
theorem stateColumns_itemStates (items : List (Option UInt64 × Nat)) :
    stateColumns 2 (items.map itemStates) =
      [items.map fun item => .float64 item.1, items.map fun item => .uint64 (some item.2)] := by
  simp [stateColumns, List.range_succ, List.filterMap_map, Function.comp_def, itemStates]

theorem mergeState_eq (accumulator : CheckedAverageAccumulator) (h : FloatSum item.2 (.ok item.1)) :
    accumulator.mergeState (.float64 item.1, .uint64 (some item.2)) =
      accumulator.accumulate item := by
  obtain ⟨value, count⟩ := item
  cases h with
  | empty => rfl
  | finite hcount hfinite => exact if_pos ⟨hfinite, Int.natCast_pos.mpr hcount⟩

/-- The states of sums add what they stand for. -/
theorem mergeBatch_eq (accumulator : CheckedAverageAccumulator)
    (hitems : ∀ item ∈ items, FloatSum item.2 (.ok item.1)) :
    accumulator.mergeBatch (stateColumns 2 (items.map itemStates)) =
      items.foldlM accumulate accumulator := by
  rw [stateColumns_itemStates, mergeBatch,
    ensure_of (by rw [List.length_map, List.length_map]), ok_bind, List.zip_map', List.foldlM_map]
  induction items generalizing accumulator with
  | nil => rfl
  | cons item items ih =>
    obtain ⟨hitem, hitems⟩ := List.forall_mem_cons.mp hitems
    rw [List.foldlM_cons, List.foldlM_cons, mergeState_eq _ hitem]
    exact bind_congr fun accumulator => ih accumulator hitems

end CheckedAverageAccumulator

open CheckedAverageAccumulator List

variable {inputType : LogicalType}

/-- Adding the sums of some inputs to what a run came to. -/
theorem FloatSum.bind_accumulate {items : List (Option UInt64 × Nat)} (h : FloatSum count result)
    (inputType : LogicalType) (hitems : ∀ item ∈ items, item.1 = none ↔ item.2 = 0) :
    FloatSum (count + (items.map Prod.snd).sum)
        (result >>= (items.map Prod.fst).foldlM Elucid.addNullable) ∧
      result >>= averageOf inputType count >>= items.foldlM accumulate =
        result >>= (items.map Prod.fst).foldlM Elucid.addNullable >>=
          averageOf inputType (count + (items.map Prod.snd).sum) := by
  cases result with
  | error failure =>
    cases h with
    | failed hcount => exact ⟨.failed (Nat.add_pos_left hcount _), rfl⟩
  | ok sum =>
    refine ⟨h.foldlM hitems, ?_⟩
    rw [ok_bind, ok_bind, averageOf]
    by_cases hfits : IntegerType.uint64.Holds count
    · rw [if_pos hfits]
      exact foldlM_accumulate hfits h hitems
    · have htotal : ¬IntegerType.uint64.Holds (count + (items.map Prod.snd).sum : Nat) := by
        simp only [IntegerType.holds_uint64] at hfits ⊢
        omega
      rw [if_neg hfits, (h.foldlM hitems).bind_averageOf htotal]
      rfl

omit [FloatArithmetic] in
/-- Only accumulators of the type come out. -/
theorem bind_averageOf_congr
    {f g : CheckedAverageAccumulator → Except RuntimeFailureKind CheckedAverageAccumulator}
    (h : ∀ accumulator, accumulator.inputType = inputType → f accumulator = g accumulator) :
    result >>= averageOf inputType count >>= f = result >>= averageOf inputType count >>= g := by
  rw [bind_assoc, bind_assoc]
  refine bind_congr fun sum => ?_
  rw [averageOf]
  split_ifs
  · exact h _ rfl
  · rfl

theorem averageCount_append (seen values : List (AverageInput inputType)) :
    averageCount (seen ++ values) = averageCount seen + averageCount values :=
  countP_append

theorem averageCount_inputsOfParts (parts : List (MergeRun (AverageInput inputType))) :
    averageCount (MergeRun.inputsOfParts parts) = (parts.map (averageCount ·.inputs)).sum := by
  rw [MergeRun.inputsOfParts_eq, averageCount, countP_flatten, map_map]
  rfl

theorem sum_contribution (values : List (AverageInput inputType)) :
    ((values.map contribution).map Prod.snd).sum = averageCount values := by
  induction values with
  | nil => rfl
  | cons input values ih =>
    rw [map_cons, map_cons, sum_cons, ih, averageCount, averageCount,
      countP_cons, contribution]
    cases input.val.isNull <;> simp [Nat.add_comm]

theorem contribution_eq_none_iff (input : AverageInput inputType) :
    (contribution input).1 = none ↔ (contribution input).2 = 0 := by
  rw [contribution, AverageInput.value]
  by_cases hnull : input.val.isNull
  · simp [hnull]
  · simpa [hnull, Option.isSome_iff_ne_none] using input.property.resolve_left hnull

mutual

/-- The sum of a run does not depend on its count, and the count is that of the inputs. -/
theorem execute_averageOperations (run : MergeRun (AverageInput inputType)) :
    FloatSum (averageCount run.inputs) (run.execute (floatOperations inputType)) ∧
      run.execute (averageOperations inputType) =
        run.execute (floatOperations inputType) >>=
          averageOf inputType (averageCount run.inputs) := by
  cases run with
  | new => exact ⟨.empty, rfl⟩
  | updateBatch run values =>
    obtain ⟨hsum, hrun⟩ := execute_averageOperations run
    have hfloat : ∀ sum, (floatOperations inputType).update sum values =
        ((values.map contribution).map Prod.fst).foldlM addNullable sum := by
      intro sum
      rw [map_map]
      rfl
    have haverage : ∀ accumulator : CheckedAverageAccumulator,
        accumulator.inputType = inputType →
        (averageOperations inputType).update accumulator values =
          (values.map contribution).foldlM accumulate accumulator :=
      fun accumulator htype => updateBatch_eq accumulator htype values
    rw [MergeRun.execute, MergeRun.execute, MergeRun.inputs, hrun, averageCount_append,
      ← sum_contribution values, bind_averageOf_congr haverage]
    simp only [hfloat]
    exact hsum.bind_accumulate inputType
      (forall_mem_map.mpr fun input _ => contribution_eq_none_iff input)
  | mergeBatch run parts =>
    obtain ⟨hsum, hrun⟩ := execute_averageOperations run
    rw [MergeRun.execute, MergeRun.execute, MergeRun.inputs, hrun, averageCount_append,
      averageCount_inputsOfParts]
    rcases executeParts_averageOperations parts with
      ⟨items, hfloat, hcounts, hitems, haverage⟩ | ⟨hfloat, haverage, hcounts⟩
    · have hcounted : ∀ item ∈ items, item.1 = none ↔ item.2 = 0 :=
        fun item hitem => (hitems item hitem).eq_none_iff
      obtain ⟨htotal, heq⟩ := hsum.bind_accumulate inputType hcounted
      have hmerge : ∀ accumulator : CheckedAverageAccumulator,
          (averageOperations inputType).merge accumulator (items.map itemStates) =
            items.foldlM accumulate accumulator :=
        fun accumulator => mergeBatch_eq accumulator hitems
      rw [hfloat, haverage, ← hcounts]
      refine ⟨htotal, ?_⟩
      split_ifs with hfits
      · simp only [ok_bind, hmerge]
        exact heq
      · push Not at hfits
        obtain ⟨item, hitem, hfits⟩ := hfits
        have hle : item.2 ≤ (items.map Prod.snd).sum :=
          le_sum_of_mem (mem_map_of_mem hitem)
        have hsumfits : ¬IntegerType.uint64.Holds
            (averageCount run.inputs + (items.map Prod.snd).sum : Nat) := by
          simp only [IntegerType.holds_uint64] at hfits ⊢
          omega
        exact (hsum.bind_averageOf_failed _).trans (htotal.bind_averageOf hsumfits _).symm
    · rw [hfloat, haverage]
      have hfailed : run.execute (floatOperations inputType) >>= (fun sum =>
          .error .evaluation >>= (floatOperations inputType).merge sum) = .error .evaluation :=
        hsum.bind_failed
      rw [hfailed]
      exact ⟨.failed (Nat.add_pos_right _ hcounts), hsum.bind_averageOf_failed _⟩

/-- The states of some runs. -/
theorem executeParts_averageOperations (parts : List (MergeRun (AverageInput inputType))) :
    (∃ items : List (Option UInt64 × Nat),
      MergeRun.executeParts (floatOperations inputType) parts = .ok (items.map Prod.fst) ∧
      items.map Prod.snd = parts.map (averageCount ·.inputs) ∧
      (∀ item ∈ items, FloatSum item.2 (.ok item.1)) ∧
      MergeRun.executeParts (averageOperations inputType) parts =
        if ∀ item ∈ items, IntegerType.uint64.Holds (item.2 : Int) then
          .ok (items.map itemStates)
        else .error .evaluation) ∨
      (MergeRun.executeParts (floatOperations inputType) parts = .error .evaluation ∧
        MergeRun.executeParts (averageOperations inputType) parts = .error .evaluation ∧
        0 < (parts.map (averageCount ·.inputs)).sum) := by
  cases parts with
  | nil => exact .inl ⟨[], rfl, rfl, by simp, rfl⟩
  | cons part parts =>
    obtain ⟨hsum, hpart⟩ := execute_averageOperations part
    have hparts := executeParts_averageOperations parts
    rw [MergeRun.executeParts, MergeRun.executeParts, hpart, map_cons, sum_cons]
    generalize part.execute (floatOperations inputType) = result at hsum ⊢
    generalize averageCount part.inputs = count at hsum ⊢
    cases result with
    | error failure =>
      cases hsum with
      | failed hcount => exact .inr ⟨rfl, rfl, Nat.add_pos_left hcount _⟩
    | ok sum =>
      rw [ok_bind, ok_bind, averageOf]
      rcases hparts with ⟨items, hfloat, hcounts, hitems, haverage⟩ | ⟨hfloat, haverage, hcounts⟩
      · refine .inl ⟨(sum, count) :: items, ?_, ?_, forall_mem_cons.mpr ⟨hsum, hitems⟩, ?_⟩
        · rw [hfloat]
          rfl
        · rw [map_cons, hcounts]
        · rw [haverage]
          simp only [forall_mem_cons]
          by_cases hcount : IntegerType.uint64.Holds (count : Int)
          · rw [if_pos hcount]
            by_cases hfits : ∀ item ∈ items, IntegerType.uint64.Holds (item.2 : Int)
            · rw [if_pos hfits, if_pos ⟨hcount, hfits⟩]
              rfl
            · rw [if_neg hfits, if_neg fun hall => hfits hall.2]
              rfl
          · rw [if_neg hcount]
            exact (if_neg fun hall => hcount hall.1).symm
      · rw [hfloat, haverage]
        refine .inr ⟨rfl, ?_, Nat.add_pos_right _ hcounts⟩
        split_ifs <;> rfl

end

theorem foldlM_addNullable_none {values : List (Option UInt64)} (h : ∀ value ∈ values, value = none)
    (sum : Option UInt64) : values.foldlM addNullable sum = .ok sum := by
  induction values with
  | nil => rfl
  | cons value values ih =>
    obtain ⟨rfl, hvalues⟩ := forall_mem_cons.mp h
    exact ih hvalues

/-- Merging sums of nothing changes nothing. -/
theorem execute_mergeBatch_of_averageCount_eq_zero (run : MergeRun (AverageInput inputType))
    {parts : List (MergeRun (AverageInput inputType))}
    (hparts : ∀ part ∈ parts, averageCount part.inputs = 0) :
    (run.mergeBatch parts).execute (averageOperations inputType) =
      run.execute (averageOperations inputType) := by
  have hzero : (parts.map (averageCount ·.inputs)).sum = 0 :=
    sum_eq_zero (forall_mem_map.mpr hparts)
  have hfloat : (run.mergeBatch parts).execute (floatOperations inputType) =
      run.execute (floatOperations inputType) := by
    rw [MergeRun.execute]
    rcases executeParts_averageOperations parts with ⟨items, hfloat, hcounts, hitems, -⟩ | hfailed
    · have hnone : ∀ value ∈ items.map Prod.fst, value = none := by
        refine forall_mem_map.mpr fun item hitem => (hitems item hitem).eq_none_iff.mpr ?_
        exact sum_eq_zero_iff.mp (hcounts ▸ hzero) _ (mem_map_of_mem hitem)
      rw [hfloat]
      simp only [ok_bind]
      change (_ >>= fun sum => (items.map Prod.fst).foldlM addNullable sum) = _
      simp only [foldlM_addNullable_none hnone]
      exact bind_pure _
    · exact absurd hzero hfailed.2.2.ne'
  rw [(execute_averageOperations (run.mergeBatch parts)).2, (execute_averageOperations run).2,
    hfloat, MergeRun.inputs, averageCount_append, averageCount_inputsOfParts, hzero, Nat.add_zero]

end Average

/-! ## The totals -/

theorem rowCount_of_perm {inputs values : List ScalarValue} (h : inputs.Perm values)
    (mode : CountMode) : rowCount inputs mode = rowCount values mode := by
  cases mode with
  | allRows => exact h.length_eq
  | nonNull => exact h.countP_eq _

theorem rowCount_inputsOfParts {parts : List (MergeRun ScalarValue)} {mode : CountMode}
    (h : ∀ part ∈ parts, rowCount part.inputs mode = 0) :
    rowCount (MergeRun.inputsOfParts parts) mode = 0 := by
  induction parts with
  | nil => cases mode <;> rfl
  | cons part parts ih =>
    obtain ⟨hpart, hparts⟩ := List.forall_mem_cons.mp h
    rw [MergeRun.inputsOfParts, rowCount_append, hpart, ih hparts]

theorem unsignedValues_inputsOfParts {parts : List (MergeRun UnsignedInput)}
    (h : ∀ part ∈ parts, unsignedValues part.inputs = []) :
    unsignedValues (MergeRun.inputsOfParts parts) = [] := by
  induction parts with
  | nil => rfl
  | cons part parts ih =>
    obtain ⟨hpart, hparts⟩ := List.forall_mem_cons.mp h
    rw [MergeRun.inputsOfParts, unsignedValues_append, hpart, ih hparts, List.append_nil]

theorem exactSum_of_perm {values rest : List Int} (h : values.Perm rest) :
    exactSum values = exactSum rest := by
  rw [exactSum, exactSum, h.sum_eq]
  exact if_congr ⟨fun hnil => (hnil ▸ h).nil_eq.symm, fun hnil => (hnil ▸ h).eq_nil⟩ rfl rfl

section Totals

variable [FloatArithmetic]

/-- Every run over some inputs, in any order and however split, counts them exactly, adds them
exactly and averages over their exact number if these fit, and fails if they do not. An average
fails also if its float sum does. Merging what has seen nothing changes nothing. -/
theorem aggregates_exact :
    (∀ (mode : CountMode) {run : MergeRun ScalarValue} {inputs : List ScalarValue},
      run.inputs.Perm inputs → run.execute (countOperations mode) =
        if IntegerType.int64.Holds (rowCount inputs mode) then
          .ok ⟨mode, rowCount inputs mode⟩
        else .error .evaluation) ∧
    (∀ {run : MergeRun UnsignedInput} {inputs : List UnsignedInput},
      run.inputs.Perm inputs → run.execute unsignedOperations =
        if IntegerType.uint64.Holds (unsignedValues inputs).sum then
          .ok ⟨.unsigned (exactSum (unsignedValues inputs))⟩
        else .error .evaluation) ∧
    (∀ {inputType : LogicalType} {run : MergeRun (AverageInput inputType)}
      {inputs : List (AverageInput inputType)}, run.inputs.Perm inputs →
      run.execute (averageOperations inputType) = do
        let sum ← run.execute (floatOperations inputType)
        if IntegerType.uint64.Holds (averageCount inputs) then
          .ok ⟨inputType, sum, averageCount inputs⟩
        else .error .evaluation) ∧
    (∀ (mode : CountMode) (run : MergeRun ScalarValue) {parts : List (MergeRun ScalarValue)},
      (∀ part ∈ parts, rowCount part.inputs mode = 0) →
      (run.mergeBatch parts).execute (countOperations mode) =
        run.execute (countOperations mode)) ∧
    (∀ (run : MergeRun UnsignedInput) {parts : List (MergeRun UnsignedInput)},
      (∀ part ∈ parts, unsignedValues part.inputs = []) →
      (run.mergeBatch parts).execute unsignedOperations = run.execute unsignedOperations) ∧
    (∀ {inputType : LogicalType} (run : MergeRun (AverageInput inputType))
      {parts : List (MergeRun (AverageInput inputType))},
      (∀ part ∈ parts, averageCount part.inputs = 0) →
      (run.mergeBatch parts).execute (averageOperations inputType) =
        run.execute (averageOperations inputType)) := by
  refine ⟨fun mode run inputs hperm => ?_, fun {run inputs} hperm => ?_,
    fun {inputType run inputs} hperm => ?_, fun mode run parts hparts => ?_,
    fun run parts hparts => ?_, execute_mergeBatch_of_averageCount_eq_zero⟩
  · rw [(countOperations_checked mode).execute_eq, rowCount_of_perm hperm,
      CheckedCountAccumulator.ofInputs, rowCount_of_perm hperm]
  · have hvalues : (unsignedValues run.inputs).Perm (unsignedValues inputs) :=
      hperm.filterMap _
    rw [unsignedOperations_checked.execute_eq, CheckedSumAccumulator.ofUnsigned, hvalues.sum_eq,
      exactSum_of_perm hvalues]
  · have hcount : averageCount run.inputs = averageCount inputs := hperm.countP_eq _
    rw [(execute_averageOperations run).2, hcount]
    rfl
  · have hcount : rowCount (run.inputs ++ MergeRun.inputsOfParts parts) mode =
        rowCount run.inputs mode := by
      rw [rowCount_append, rowCount_inputsOfParts hparts, Nat.add_zero]
    refine (countOperations_checked mode).execute_mergeBatch_of_eq ?_ ?_
    · rw [CheckedCountAccumulator.ofInputs, hcount]
      rfl
    · rw [hcount]
  · have hvalues : unsignedValues (run.inputs ++ MergeRun.inputsOfParts parts) =
        unsignedValues run.inputs := by
      rw [unsignedValues_append, unsignedValues_inputsOfParts hparts, List.append_nil]
    refine unsignedOperations_checked.execute_mergeBatch_of_eq ?_ ?_
    · rw [CheckedSumAccumulator.ofUnsigned, hvalues]
      rfl
    · rw [hvalues]

end Totals

section Sample

/-- The greatest finite binary64. -/
def greatestBinary64 : UInt64 := 0x7FEFFFFFFFFFFFFF

/-- Sums are rounded, and infinite beyond the greatest finite binary64. -/
@[reducible] def FloatArithmetic.roundingSums : FloatArithmetic where
  f32 := FloatArithmetic.zero.f32
  f64 := { FloatArithmetic.zero.f64 with
    add := fun left right =>
      let sum := Binary64.format.round (Binary64.value left + Binary64.value right)
      if |sum| < 2 ^ 1024 then Binary64.ofValue sum else 0x7FF0000000000000 }
  widen := FloatArithmetic.zero.widen
  narrow := FloatArithmetic.zero.narrow

attribute [local instance] FloatArithmetic.roundingSums

theorem greatestBinary64_input : (ScalarValue.float64 (some greatestBinary64)).isNull ∨
    (averageValue .float64 (.float64 (some greatestBinary64))).isSome := by
  decide

/-- The greatest binary64 as an input. -/
def greatestInput : AverageInput .float64 :=
  ⟨.float64 (some greatestBinary64), greatestBinary64_input⟩

/-- A value, and the state of a null. -/
def countedRun : MergeRun ScalarValue :=
  (MergeRun.new.updateBatch [.int64 (some 5)]).mergeBatch [MergeRun.new.updateBatch [.int64 none]]

/-- A value, and the state of another. -/
def addedRun : MergeRun UnsignedInput :=
  (MergeRun.new.updateBatch [.uint64 (some 5)]).mergeBatch
    [MergeRun.new.updateBatch [.uint32 (some 2)]]

/-- The state of a value. -/
def averagedRun : MergeRun (AverageInput .float64) :=
  MergeRun.new.mergeBatch [MergeRun.new.updateBatch [greatestInput]]

/-- Inputs in the other order, and states of nothing. -/
theorem aggregates_exact_merged :
    countedRun.execute (countOperations .nonNull) = .ok ⟨.nonNull, 1⟩ ∧
    addedRun.execute unsignedOperations = .ok ⟨.unsigned (some 7)⟩ ∧
    averagedRun.execute (averageOperations .float64) =
      .ok ⟨.float64, some greatestBinary64, 1⟩ ∧
    (countedRun.mergeBatch [.new]).execute (countOperations .allRows) =
      countedRun.execute (countOperations .allRows) ∧
    (addedRun.mergeBatch [.new]).execute unsignedOperations =
      addedRun.execute unsignedOperations ∧
    (averagedRun.mergeBatch [.new]).execute (averageOperations .float64) =
      averagedRun.execute (averageOperations .float64) := by
  obtain ⟨hcount, hsum, haverage, hcount', hsum', haverage'⟩ := aggregates_exact
  have hcounted : countedRun.inputs.Perm [.int64 none, .int64 (some 5)] := .swap _ _ _
  have hadded : addedRun.inputs.Perm [.uint32 (some 2), .uint64 (some 5)] := .swap _ _ _
  refine ⟨hcount .nonNull hcounted, hsum hadded, ?_, hcount' .allRows _ (by decide),
    hsum' _ (by decide), haverage' _ (by decide)⟩
  rw [haverage (List.Perm.refl averagedRun.inputs)]
  decide +kernel

/-- The average of two greatest values fails, and their number fits. -/
theorem average_greatestInputs :
    IntegerType.uint64.Holds (averageCount [greatestInput, greatestInput]) ∧
      (MergeRun.new.updateBatch [greatestInput, greatestInput]).execute
        (averageOperations .float64) = .error .evaluation := by
  decide +kernel

end Sample

end Elucid
