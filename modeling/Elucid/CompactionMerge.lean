import Elucid.CompactionClaim
import Mathlib.Algebra.BigOperators.Fin

/-!
# The merge of a compaction

The worker merges the rows of its inputs into outputs. A row goes to the current output as long as
that accepts it, by the number of its rows and by an estimate of their bytes : the estimated bytes
of an input are spread over its rows in shares that differ by one at most (`sharesBefore_self`).
The order of the rows depends on their event times and is any that takes the rows of each input
(`Interleaves`). What is here are the numbers of rows and bytes : reading the inputs is left out,
and of the files only their sizes matter, which may be any.

What the cursors have handed out is in the outputs and in the accumulator (`Conserved`), so nothing
is lost or counted twice. `estimates_conserved` : no row is refused for its estimate, every output
stays within the target, and the outputs have the bytes of the inputs.

An output that was ended early is full, by its rows or by its bytes and those of the next row
(`Filled`), so that the totals bound how many there are (`merge_beneficial`). That a claim was
chosen and accepted is not enough for fewer outputs : `merge_notBeneficial`.
-/

namespace Elucid

open List

namespace Compaction

/-! ## Shares -/

/-- The share of the part `index` if a total is spread over some parts. -/
def share (total parts index : Nat) : Nat :=
  total / parts + if index < total % parts then 1 else 0

/-- What the parts in front of one have. -/
def sharesBefore (total parts count : Nat) : Nat :=
  ∑ index ∈ Finset.range count, share total parts index

/-- The first shares have the remainder. -/
theorem sharesBefore_eq (total parts count : Nat) :
    sharesBefore total parts count = count * (total / parts) + min count (total % parts) := by
  unfold sharesBefore
  induction count with
  | zero => simp
  | succ count ih =>
    rw [Finset.sum_range_succ, ih, share, Nat.succ_mul]
    split_ifs <;> omega

/-- All shares together are the total. -/
theorem sharesBefore_self (total : Nat) {parts : Nat} (h : 0 < parts) :
    sharesBefore total parts parts = total := by
  rw [sharesBefore_eq, min_eq_right (Nat.mod_lt total h).le]
  exact Nat.div_add_mod total parts

theorem sharesBefore_le (total : Nat) {parts count : Nat} (h : count ≤ parts)
    (hparts : 0 < parts) : sharesBefore total parts count ≤ total := by
  have hall := sharesBefore_self total hparts
  rw [sharesBefore_eq] at hall ⊢
  have hmul : count * (total / parts) ≤ parts * (total / parts) := Nat.mul_le_mul_right _ h
  omega

/-- A share is not more than the total, or one. -/
theorem share_le {bytes rows : Nat} (hrows : 0 < rows) (hbytes : 0 < bytes) (index : Nat) :
    share (max bytes rows) rows index ≤ bytes := by
  rcases le_total rows bytes with hle | hle
  · rw [max_eq_left hle, share]
    have hdiv := Nat.div_add_mod bytes rows
    have hmul : bytes / rows ≤ rows * (bytes / rows) := Nat.le_mul_of_pos_left _ hrows
    split_ifs <;> omega
  · rw [max_eq_right hle, share, Nat.div_self hrows, Nat.mod_self, if_neg (Nat.not_lt_zero _)]
    exact hbytes

theorem share_le_of_le_mul {total parts largest : Nat} (h : total ≤ largest * parts)
    (index : Nat) : share total parts index ≤ largest := by
  have hdiv : total / parts ≤ largest := Nat.div_le_of_le_mul (Nat.mul_comm .. ▸ h)
  rw [share]
  split_ifs with hlt
  · refine Nat.lt_of_le_of_ne hdiv fun heq => ?_
    have hmod := Nat.div_add_mod total parts
    rw [heq, Nat.mul_comm] at hmod
    omega
  · exact hdiv

/-! ## Rows -/

/-- The estimated bytes of an input, at least one for each row. -/
def CompactionInputSegment.estimatedBytes (input : CompactionInputSegment) : Nat :=
  max input.descriptor.uncompressedBytes input.descriptor.rowCount

/-- `InputCursor::estimated_row_bytes`, of a cursor that has emitted some rows. -/
def estimatedRowBytes (input : CompactionInputSegment) (rowsEmitted : Nat) :
    Except CompactionError Nat := do
  ensure (rowsEmitted < input.descriptor.rowCount)
    (.input "compaction input row estimate is past the registered count")
  let total := max input.descriptor.uncompressedBytes input.descriptor.rowCount
  let base := total / input.descriptor.rowCount
  let remainder := total % input.descriptor.rowCount
  return base + if rowsEmitted < remainder then 1 else 0

/-- The estimate of a row. -/
def CompactionInputSegment.rowEstimate (input : CompactionInputSegment) (index : Nat) : Nat :=
  share input.estimatedBytes input.descriptor.rowCount index

theorem estimatedRowBytes_of_lt {input : CompactionInputSegment} {rowsEmitted : Nat}
    (h : rowsEmitted < input.descriptor.rowCount) :
    estimatedRowBytes input rowsEmitted = .ok (input.rowEstimate rowsEmitted) := by
  rw [estimatedRowBytes, ensure_of h]
  rfl

theorem rowEstimate_pos (input : CompactionInputSegment) (index : Nat) :
    0 < input.rowEstimate index :=
  Nat.add_pos_left (Nat.div_pos (le_max_right _ _) input.descriptor.rowCount_pos) _

theorem rowEstimate_le (input : CompactionInputSegment) (index : Nat) :
    input.rowEstimate index ≤ input.descriptor.uncompressedBytes :=
  share_le input.descriptor.rowCount_pos input.descriptor.uncompressedBytes_pos index

/-! ## Outputs -/

/-- `OutputAccumulator`, with the number of its selections. -/
structure OutputAccumulator where
  targetRows : Nat
  targetUncompressedBytes : Nat
  selections : Nat
  estimatedUncompressedBytes : Nat

namespace OutputAccumulator

variable {accumulator : OutputAccumulator} {estimatedBytes : Nat}

/-- `OutputAccumulator::new`. -/
def new (targetRows targetUncompressedBytes : Nat) : OutputAccumulator :=
  ⟨targetRows, targetUncompressedBytes, 0, 0⟩

/-- `OutputAccumulator::can_accept`. -/
def canAccept (accumulator : OutputAccumulator) (estimatedBytes : Nat) :
    Except CompactionError Bool := do
  ensure (estimatedBytes ≠ 0 ∧ estimatedBytes ≤ accumulator.targetUncompressedBytes)
    (.input "one compaction row exceeds the output byte target")
  if accumulator.selections = 0 then return true
  else
    let projected ← okOr (checkedAdd accumulator.estimatedUncompressedBytes estimatedBytes)
      (.build "compaction output byte estimate overflowed")
    return decide (accumulator.selections < accumulator.targetRows ∧
      projected ≤ accumulator.targetUncompressedBytes)

/-- `OutputAccumulator::append`. -/
def append (accumulator : OutputAccumulator) (estimatedBytes : Nat) :
    Except CompactionError OutputAccumulator := do
  let estimated ← okOr (checkedAdd accumulator.estimatedUncompressedBytes estimatedBytes)
    (.build "compaction output byte estimate overflowed")
  return { accumulator with
    selections := accumulator.selections + 1
    estimatedUncompressedBytes := estimated }

/-- The output takes one more row. -/
def Accepts (accumulator : OutputAccumulator) (estimatedBytes : Nat) : Prop :=
  accumulator.selections = 0 ∨ accumulator.selections < accumulator.targetRows ∧
    accumulator.estimatedUncompressedBytes + estimatedBytes ≤ accumulator.targetUncompressedBytes

instance (accumulator : OutputAccumulator) (estimatedBytes : Nat) :
    Decidable (accumulator.Accepts estimatedBytes) := instDecidableOr

/-- An estimate within the target is accepted if it fits. -/
theorem canAccept_eq (hpos : estimatedBytes ≠ 0)
    (hle : estimatedBytes ≤ accumulator.targetUncompressedBytes)
    (hlt : accumulator.estimatedUncompressedBytes + estimatedBytes < 2 ^ 64) :
    accumulator.canAccept estimatedBytes = .ok (decide (accumulator.Accepts estimatedBytes)) := by
  rw [canAccept, ensure_of ⟨hpos, hle⟩, ok_bind]
  by_cases hempty : accumulator.selections = 0
  · rw [if_pos hempty, decide_eq_true (show accumulator.Accepts _ from .inl hempty)]
    rfl
  · rw [if_neg hempty, checkedAdd_of_lt hlt, okOr_some, ok_bind]
    simp only [Accepts, hempty, false_or]
    rfl

/-- The row is appended with its estimate. -/
theorem append_eq (hlt : accumulator.estimatedUncompressedBytes + estimatedBytes < 2 ^ 64) :
    accumulator.append estimatedBytes = .ok { accumulator with
      selections := accumulator.selections + 1
      estimatedUncompressedBytes := accumulator.estimatedUncompressedBytes + estimatedBytes } := by
  rw [append, checkedAdd_of_lt hlt]
  rfl

end OutputAccumulator

/-- The rows and the estimated bytes that an output is registered with. -/
structure OutputTotals where
  rowCount : Nat
  uncompressedBytes : Nat
  deriving DecidableEq

/-! ## The merge -/

/-- The variables of `build_outputs`, for some inputs. -/
structure MergeState (inputs : Nat) where
  rowsEmitted : Fin inputs → Nat
  accumulator : OutputAccumulator
  outputs : List OutputTotals
  totalRows : Nat
  totalStagingBytes : Nat

section Merge

variable (claim : CompactionRunClaim) (limits : CompactionBuildLimits) (fileBytes : Nat → Nat)

/-- An output without rows. -/
def emptyOutput : OutputAccumulator :=
  .new limits.targetOutputRows limits.targetOutputUncompressedBytes

/-- Before the first row. -/
def MergeState.start (inputs : Nat) : MergeState inputs :=
  ⟨fun _ => 0, emptyOutput limits, [], 0, 0⟩

/-- The state behind an output whose file has been written. -/
def MergeState.written {inputs : Nat} (state : MergeState inputs) : MergeState inputs :=
  { state with
    accumulator := emptyOutput limits
    outputs := state.outputs ++
      [⟨state.accumulator.selections, state.accumulator.estimatedUncompressedBytes⟩]
    totalStagingBytes := state.totalStagingBytes + fileBytes state.outputs.length }

/-- `write_output`, and the checks behind it. The file of an output has some size. -/
def writeOutput {inputs : Nat} (state : MergeState inputs) :
    Except CompactionError (MergeState inputs) := do
  let file := fileBytes state.outputs.length
  ensure (state.accumulator.selections ≠ 0)
    (.build "compaction attempted to materialize an empty output")
  -- `write_parquet_segment` gives up at the limit of one file
  ensure (file ≤ limits.maximumOutputParquetBytes) (.outputStorage .localCapacityExhausted)
  ensure (state.accumulator.estimatedUncompressedBytes ≠ 0)
    (.build "compaction output has no estimated bytes")
  let totalStagingBytes ← okOr (checkedAdd state.totalStagingBytes file)
    (.build "compaction staging byte total overflowed")
  ensure (totalStagingBytes ≤ limits.maximumStagingBytes)
    (.build "compaction outputs exceed their total staging limit")
  ensure (state.outputs.length + 1 < inputs)
    (.notBeneficial "compaction did not reduce its segment count")
  return state.written limits fileBytes

/-- A row that the output has accepted. -/
def appendRow {inputs : Nat} (state : MergeState inputs) (input : Fin inputs)
    (estimatedBytes : Nat) : Except CompactionError (MergeState inputs) := do
  let accumulator ← state.accumulator.append estimatedBytes
  let totalRows ← okOr (checkedAdd state.totalRows 1) (.build "compaction row total overflowed")
  return { state with
    accumulator, totalRows
    rowsEmitted := Function.update state.rowsEmitted input (state.rowsEmitted input + 1) }

/-- The next row, which is one of an input. Where the output does not accept it, the output is
written, and the row is the first one of the next output. -/
def placeRow (state : MergeState claim.inputs.length) (input : Fin claim.inputs.length) :
    Except CompactionError (MergeState claim.inputs.length) := do
  let estimatedBytes ← estimatedRowBytes (claim.inputs.get input) (state.rowsEmitted input)
  if ← state.accumulator.canAccept estimatedBytes then appendRow state input estimatedBytes
  else
    let state ← writeOutput limits fileBytes state
    let _ ← state.accumulator.canAccept estimatedBytes
    appendRow state input estimatedBytes

/-- `build_outputs`, with the inputs in the order in which they have the least row. There is a row
that the last output is written for, since every input has one. -/
def buildOutputs (order : List (Fin claim.inputs.length)) :
    Except CompactionError (List OutputTotals) := do
  let state ← order.foldlM (placeRow claim limits fileBytes) (.start limits _)
  let state ← writeOutput limits fileBytes state
  ensure (state.totalRows = claim.inputRows)
    (.input "compaction merge row count differs from its claim")
  ensure (state.outputs ≠ [] ∧ state.outputs.length < claim.inputs.length)
    (.notBeneficial "compaction did not produce fewer non-empty segments")
  return state.outputs

/-- The rows of every input, in any order. -/
def Interleaves (order : List (Fin claim.inputs.length)) : Prop :=
  ∀ input, order.count input = (claim.inputs.get input).descriptor.rowCount

instance (order : List (Fin claim.inputs.length)) : Decidable (Interleaves claim order) :=
  Nat.decidableForallFin _

/-- The files of some outputs are within the limits of the worker. -/
structure FilesFit (count : Nat) : Prop where
  file_le : ∀ index < count, fileBytes index ≤ limits.maximumOutputParquetBytes
  staging_le : ∑ index ∈ Finset.range count, fileBytes index ≤ limits.maximumStagingBytes
  staging_lt : ∑ index ∈ Finset.range count, fileBytes index < 2 ^ 64

/-- What the cursors have handed out. -/
def handedOut (rowsEmitted : Fin claim.inputs.length → Nat) : Nat :=
  ∑ input, sharesBefore (claim.inputs.get input).estimatedBytes
    (claim.inputs.get input).descriptor.rowCount (rowsEmitted input)

/-- The estimated bytes of all inputs. -/
def totalEstimatedBytes (inputs : List CompactionInputSegment) : Nat :=
  (inputs.map (·.estimatedBytes)).sum

/-- What is asked of a claim : every row fits into an output, and the totals are numbers. -/
structure Mergeable (largest : Nat) : Prop where
  rowEstimate_le : ∀ input index, (claim.inputs.get input).rowEstimate index ≤ largest
  largest_le : largest ≤ limits.targetOutputUncompressedBytes
  total_lt : totalEstimatedBytes claim.inputs < 2 ^ 64

/-- The outputs were ended by their rows or by their bytes. One that was ended by its bytes is full
up to a row of the largest size, and the last one of these has no room for the row behind it, which
is among the bytes that come `later`. -/
def Filled (largest : Nat) (outputs : List OutputTotals) (later : Nat) : Prop :=
  ∃ byRows byBytes, outputs.length = byRows + byBytes ∧
    byRows * limits.targetOutputRows ≤ (outputs.map (·.rowCount)).sum ∧
    byBytes * (limits.targetOutputUncompressedBytes - largest + 1) ≤
      (outputs.map (·.uncompressedBytes)).sum ∧
    (byBytes = 0 ∨ byBytes * (limits.targetOutputUncompressedBytes - largest + 1) + largest ≤
      (outputs.map (·.uncompressedBytes)).sum + later)

/-- The outputs and the accumulator have what the cursors have handed out. -/
structure Conserved (state : MergeState claim.inputs.length) : Prop where
  targetRows_eq : state.accumulator.targetRows = limits.targetOutputRows
  target_eq : state.accumulator.targetUncompressedBytes = limits.targetOutputUncompressedBytes
  rowsEmitted_le : ∀ input,
    state.rowsEmitted input ≤ (claim.inputs.get input).descriptor.rowCount
  selections_le : state.accumulator.selections ≤ state.accumulator.estimatedUncompressedBytes
  estimated_le :
    state.accumulator.estimatedUncompressedBytes ≤ limits.targetOutputUncompressedBytes
  empty : state.accumulator.selections = 0 → state.accumulator.estimatedUncompressedBytes = 0
  outputs_le : ∀ output ∈ state.outputs,
    output.uncompressedBytes ≤ limits.targetOutputUncompressedBytes
  outputs_lt : state.outputs.length < claim.inputs.length
  rows_eq : (state.outputs.map (·.rowCount)).sum + state.accumulator.selections =
    ∑ input, state.rowsEmitted input
  bytes_eq : (state.outputs.map (·.uncompressedBytes)).sum +
    state.accumulator.estimatedUncompressedBytes = handedOut claim state.rowsEmitted
  totalRows_eq : state.totalRows = ∑ input, state.rowsEmitted input
  staging_eq : state.totalStagingBytes =
    ∑ index ∈ Finset.range state.outputs.length, fileBytes index

end Merge

/-! ## Steps of the merge -/

/-- A sum in which one argument has changed. -/
theorem sum_update {n : Nat} (value : Fin n → Nat → Nat) (count : Fin n → Nat) (input : Fin n)
    (next : Nat) : ∑ i, value i (Function.update count input next i) + value input (count input) =
      ∑ i, value i (count i) + value input next := by
  have hrest : ∑ i ∈ Finset.univ.erase input, value i (Function.update count input next i) =
      ∑ i ∈ Finset.univ.erase input, value i (count i) :=
    Finset.sum_congr rfl fun i hi => by rw [Function.update_of_ne (Finset.ne_of_mem_erase hi)]
  rw [← Finset.add_sum_erase _ _ (Finset.mem_univ input), hrest, Function.update_self,
    ← Finset.add_sum_erase _ (fun i => value i (count i)) (Finset.mem_univ input)]
  omega

section Steps

variable {claim : CompactionRunClaim} {limits : CompactionBuildLimits} {fileBytes : Nat → Nat}
  {largest : Nat} {state : MergeState claim.inputs.length}
variable {input : Fin claim.inputs.length} {rowsEmitted : Fin claim.inputs.length → Nat}

theorem sum_get_eq (size : CompactionInputSegment → Nat) (claim : CompactionRunClaim) :
    ∑ input, size (claim.inputs.get input) = (claim.inputs.map size).sum :=
  Fin.sum_univ_fun_getElem claim.inputs size

theorem handedOut_update (rowsEmitted : Fin claim.inputs.length → Nat)
    (input : Fin claim.inputs.length) :
    handedOut claim (Function.update rowsEmitted input (rowsEmitted input + 1)) =
      handedOut claim rowsEmitted + (claim.inputs.get input).rowEstimate (rowsEmitted input) := by
  have hsum := sum_update (fun i => sharesBefore (claim.inputs.get i).estimatedBytes
    (claim.inputs.get i).descriptor.rowCount) rowsEmitted input (rowsEmitted input + 1)
  have hlast : sharesBefore (claim.inputs.get input).estimatedBytes
      (claim.inputs.get input).descriptor.rowCount (rowsEmitted input + 1) = _ :=
    Finset.sum_range_succ _ _
  rw [hlast, ← Nat.add_assoc, Nat.add_right_comm] at hsum
  exact Nat.add_right_cancel hsum

theorem sum_rowsEmitted_update (rowsEmitted : Fin claim.inputs.length → Nat)
    (input : Fin claim.inputs.length) :
    ∑ i, Function.update rowsEmitted input (rowsEmitted input + 1) i =
      ∑ i, rowsEmitted i + 1 := by
  have hsum := sum_update (fun _ count => count) rowsEmitted input (rowsEmitted input + 1)
  omega

/-- No more is handed out than the inputs have. -/
theorem handedOut_le (h : ∀ input, rowsEmitted input ≤ (claim.inputs.get input).descriptor.rowCount) :
    handedOut claim rowsEmitted ≤ totalEstimatedBytes claim.inputs := by
  rw [totalEstimatedBytes, ← sum_get_eq]
  exact Finset.sum_le_sum fun input _ =>
    sharesBefore_le _ (h input) (claim.inputs.get input).descriptor.rowCount_pos

theorem sum_rowsEmitted_le
    (h : ∀ input, rowsEmitted input ≤ (claim.inputs.get input).descriptor.rowCount) :
    ∑ input, rowsEmitted input ≤ totalEstimatedBytes claim.inputs := by
  rw [totalEstimatedBytes, ← sum_get_eq]
  exact Finset.sum_le_sum fun input _ => (h input).trans (le_max_right _ _)

theorem update_le (h : ∀ i, rowsEmitted i ≤ (claim.inputs.get i).descriptor.rowCount)
    (hlt : rowsEmitted input < (claim.inputs.get input).descriptor.rowCount)
    (i : Fin claim.inputs.length) :
    Function.update rowsEmitted input (rowsEmitted input + 1) i ≤
      (claim.inputs.get i).descriptor.rowCount := by
  rw [Function.update_apply]
  split_ifs with heq
  · rw [heq]
    exact hlt
  · exact h i

/-- Nothing is handed out yet. -/
theorem conserved_start (limits : CompactionBuildLimits) (fileBytes : Nat → Nat)
    (hinputs : 0 < claim.inputs.length) :
    Conserved claim limits fileBytes (.start limits _) where
  targetRows_eq := rfl
  target_eq := rfl
  rowsEmitted_le _ := Nat.zero_le _
  selections_le := le_rfl
  estimated_le := Nat.zero_le _
  empty _ := rfl
  outputs_le _ h := absurd h not_mem_nil
  outputs_lt := hinputs
  rows_eq := (Finset.sum_const_zero).symm
  bytes_eq := (Finset.sum_eq_zero fun _ _ => rfl).symm
  totalRows_eq := (Finset.sum_const_zero).symm
  staging_eq := rfl

theorem filled_nil (limits : CompactionBuildLimits) (largest later : Nat) :
    Filled limits largest [] later :=
  ⟨0, 0, rfl, by simp, by simp, .inl rfl⟩

theorem Filled.mono {outputs : List OutputTotals} {later later' : Nat}
    (h : Filled limits largest outputs later) (hle : later ≤ later') :
    Filled limits largest outputs later' := by
  obtain ⟨byRows, byBytes, hlength, hrows, hbytes, hlater⟩ := h
  exact ⟨byRows, byBytes, hlength, hrows, hbytes, hlater.imp_right fun hlater => by omega⟩

/-- An output that does not take the next row is ended by its rows or by its bytes. -/
theorem Filled.concat {outputs : List OutputTotals} {output : OutputTotals} {next : Nat}
    (h : Filled limits largest outputs output.uncompressedBytes)
    (hlargest : largest ≤ limits.targetOutputUncompressedBytes) (hnext : next ≤ largest)
    (hended : limits.targetOutputRows ≤ output.rowCount ∨
      limits.targetOutputUncompressedBytes < output.uncompressedBytes + next) :
    Filled limits largest (outputs ++ [output]) next := by
  obtain ⟨byRows, byBytes, hlength, hrows, hbytes, hlater⟩ := h
  simp only [Filled, length_append, length_singleton, map_append, map_cons,
    map_nil, sum_append, sum_singleton]
  rcases hended with hended | hended
  · refine ⟨byRows + 1, byBytes, by omega, by rw [Nat.succ_mul]; omega, by omega, ?_⟩
    exact hlater.imp_right fun hlater => by omega
  · refine ⟨byRows, byBytes + 1, by omega, by omega, ?_, .inr ?_⟩ <;> rw [Nat.succ_mul] <;> omega

/-- The totals bound the number of outputs that were ended. -/
theorem Filled.length_le {outputs : List OutputTotals} {later rows bytes : Nat}
    (h : Filled limits largest outputs later) (htarget : 0 < limits.targetOutputRows)
    (hrows : (outputs.map (·.rowCount)).sum < rows)
    (hbytes : (outputs.map (·.uncompressedBytes)).sum + later ≤ bytes) :
    outputs.length ≤ (rows - 1) / limits.targetOutputRows +
      (bytes - largest) / (limits.targetOutputUncompressedBytes - largest + 1) := by
  obtain ⟨byRows, byBytes, hlength, hrows', -, hlater⟩ := h
  rw [hlength]
  refine Nat.add_le_add ((Nat.le_div_iff_mul_le htarget).mpr (by omega)) ?_
  rcases hlater with rfl | hlater
  · exact Nat.zero_le _
  · exact (Nat.le_div_iff_mul_le (by omega)).mpr (by omega)

/-- A state in which one more row of an input has been handed out, and is in the accumulator. -/
structure Placed (claim : CompactionRunClaim) (limits : CompactionBuildLimits)
    (fileBytes : Nat → Nat) (largest : Nat) (rowsEmitted : Fin claim.inputs.length → Nat)
    (input : Fin claim.inputs.length) (next : MergeState claim.inputs.length) : Prop where
  conserved : Conserved claim limits fileBytes next
  filled : Filled limits largest next.outputs next.accumulator.estimatedUncompressedBytes
  rowsEmitted_eq : next.rowsEmitted = Function.update rowsEmitted input (rowsEmitted input + 1)
  selections_ne : next.accumulator.selections ≠ 0

/-- The next estimate can be added to those of the output. -/
theorem Conserved.next_lt (h : Conserved claim limits fileBytes state)
    (hmergeable : Mergeable claim limits largest)
    (hlt : state.rowsEmitted input < (claim.inputs.get input).descriptor.rowCount) :
    state.accumulator.estimatedUncompressedBytes +
      (claim.inputs.get input).rowEstimate (state.rowsEmitted input) < 2 ^ 64 := by
  have hnext := handedOut_le (update_le h.rowsEmitted_le hlt)
  rw [handedOut_update, ← h.bytes_eq] at hnext
  have htotal := hmergeable.total_lt
  omega

/-- A row that is accepted. -/
theorem Conserved.appendRow (h : Conserved claim limits fileBytes state)
    (hmergeable : Mergeable claim limits largest)
    (hlt : state.rowsEmitted input < (claim.inputs.get input).descriptor.rowCount)
    (hfilled : Filled limits largest state.outputs (state.accumulator.estimatedUncompressedBytes +
      (claim.inputs.get input).rowEstimate (state.rowsEmitted input)))
    (haccepts : state.accumulator.Accepts
      ((claim.inputs.get input).rowEstimate (state.rowsEmitted input))) :
    ∃ next, appendRow state input
        ((claim.inputs.get input).rowEstimate (state.rowsEmitted input)) = .ok next ∧
      Placed claim limits fileBytes largest state.rowsEmitted input next := by
  have hle := update_le h.rowsEmitted_le hlt
  have hrows : state.totalRows + 1 < 2 ^ 64 := by
    have hsum := sum_rowsEmitted_le hle
    rw [sum_rowsEmitted_update, ← h.totalRows_eq] at hsum
    exact hsum.trans_lt hmergeable.total_lt
  have hestimate := hmergeable.rowEstimate_le input (state.rowsEmitted input)
  have hpos := rowEstimate_pos (claim.inputs.get input) (state.rowsEmitted input)
  have hlargest := hmergeable.largest_le
  have hselections := h.selections_le
  rw [Compaction.appendRow, OutputAccumulator.append_eq (h.next_lt hmergeable hlt), ok_bind,
    checkedAdd_of_lt hrows, okOr_some]
  refine ⟨_, rfl, ?_, hfilled, rfl, Nat.succ_ne_zero _⟩
  exact {
    targetRows_eq := h.targetRows_eq
    target_eq := h.target_eq
    rowsEmitted_le := hle
    selections_le := by dsimp only; omega
    estimated_le := by
      rcases haccepts with hempty | ⟨-, hfits⟩
      · have hzero := h.empty hempty
        dsimp only
        omega
      · exact h.target_eq ▸ hfits
    empty := fun hzero => absurd hzero (Nat.succ_ne_zero _)
    outputs_le := h.outputs_le
    outputs_lt := h.outputs_lt
    rows_eq := by
      dsimp only
      rw [sum_rowsEmitted_update, ← h.rows_eq, Nat.add_assoc]
    bytes_eq := by
      dsimp only
      rw [handedOut_update, ← h.bytes_eq, Nat.add_assoc]
    totalRows_eq := by
      dsimp only
      rw [sum_rowsEmitted_update, ← h.totalRows_eq]
    staging_eq := h.staging_eq }

/-- The merge has ended early : with the next output there are as many as inputs, or the files are
too large. -/
inductive Refused (claim : CompactionRunClaim) (limits : CompactionBuildLimits)
    (fileBytes : Nat → Nat) (largest : Nat) {α : Type} : Except CompactionError α → Prop
  | notBeneficial (message : String) (state : MergeState claim.inputs.length)
      (hconserved : Conserved claim limits fileBytes state)
      (hfilled : Filled limits largest state.outputs state.accumulator.estimatedUncompressedBytes)
      (hne : state.accumulator.selections ≠ 0)
      (hmany : claim.inputs.length ≤ state.outputs.length + 1) :
      Refused claim limits fileBytes largest (.error (.notBeneficial message))
  | buildFailed (error : CompactionError) (hkind : error.kind = .buildFailed)
      (hfiles : ¬FilesFit limits fileBytes claim.inputs.length) :
      Refused claim limits fileBytes largest (.error error)

theorem Refused.bind {α β : Type} {result : Except CompactionError α}
    (h : Refused claim limits fileBytes largest result) (next : α → Except CompactionError β) :
    Refused claim limits fileBytes largest (result >>= next) := by
  cases h with
  | notBeneficial message state hconserved hfilled hne hmany =>
    exact .notBeneficial message state hconserved hfilled hne hmany
  | buildFailed error hkind hfiles => exact .buildFailed error hkind hfiles

/-- The staging total behind the next output is that of one file more. -/
theorem Conserved.staging_succ (h : Conserved claim limits fileBytes state) :
    state.totalStagingBytes + fileBytes state.outputs.length =
      ∑ index ∈ Finset.range (state.outputs.length + 1), fileBytes index := by
  rw [Finset.sum_range_succ, h.staging_eq]

/-- Files that fit do so behind the next output. -/
theorem Conserved.staging_le (h : Conserved claim limits fileBytes state) :
    state.totalStagingBytes + fileBytes state.outputs.length ≤
      ∑ index ∈ Finset.range claim.inputs.length, fileBytes index := by
  rw [h.staging_succ]
  exact Finset.sum_le_sum_of_subset (Finset.range_subset_range.mpr h.outputs_lt)

/-- The output is written, or the merge ends here. -/
theorem Conserved.writeOutput_cases (h : Conserved claim limits fileBytes state)
    (hfilled : Filled limits largest state.outputs state.accumulator.estimatedUncompressedBytes)
    (hne : state.accumulator.selections ≠ 0) :
    (writeOutput limits fileBytes state = .ok (state.written limits fileBytes) ∧
      state.outputs.length + 1 < claim.inputs.length) ∨
    Refused claim limits fileBytes largest (writeOutput limits fileBytes state) := by
  have hpos : state.accumulator.estimatedUncompressedBytes ≠ 0 := by
    have hle := h.selections_le
    omega
  have hstaging := h.staging_le
  rw [writeOutput, ensure_of hne, ok_bind]
  by_cases hfile : fileBytes state.outputs.length ≤ limits.maximumOutputParquetBytes
  swap
  · rw [ensure, if_neg hfile]
    exact .inr (.buildFailed _ rfl fun hfit => hfile (hfit.file_le _ h.outputs_lt))
  rw [ensure_of hfile, ok_bind, ensure_of hpos, ok_bind]
  by_cases hlt : state.totalStagingBytes + fileBytes state.outputs.length < 2 ^ 64
  swap
  · rw [checkedAdd, if_neg hlt]
    exact .inr (.buildFailed _ rfl fun hfit => hlt (hstaging.trans_lt hfit.staging_lt))
  rw [checkedAdd_of_lt hlt, okOr_some, ok_bind]
  by_cases hle : state.totalStagingBytes + fileBytes state.outputs.length ≤
      limits.maximumStagingBytes
  swap
  · rw [ensure, if_neg hle]
    exact .inr (.buildFailed _ rfl fun hfit => hle (hstaging.trans hfit.staging_le))
  rw [ensure_of hle, ok_bind]
  by_cases hfew : state.outputs.length + 1 < claim.inputs.length
  · rw [ensure_of hfew]
    exact .inl ⟨rfl, hfew⟩
  · rw [ensure, if_neg hfew]
    exact .inr (.notBeneficial _ state h hfilled hne (not_lt.mp hfew))

/-- Behind an output that has been written. -/
theorem Conserved.written (h : Conserved claim limits fileBytes state)
    (hfew : state.outputs.length + 1 < claim.inputs.length) :
    Conserved claim limits fileBytes (state.written limits fileBytes) where
  targetRows_eq := rfl
  target_eq := rfl
  rowsEmitted_le := h.rowsEmitted_le
  selections_le := le_rfl
  estimated_le := Nat.zero_le _
  empty _ := rfl
  outputs_le output houtput := by
    rcases mem_append.mp houtput with hold | hnew
    · exact h.outputs_le output hold
    · rw [mem_singleton.mp hnew]
      exact h.estimated_le
  outputs_lt := by simpa [MergeState.written] using hfew
  rows_eq := by
    rw [MergeState.written, ← h.rows_eq]
    simp [emptyOutput, OutputAccumulator.new]
  bytes_eq := by
    rw [MergeState.written, ← h.bytes_eq]
    simp [emptyOutput, OutputAccumulator.new]
  totalRows_eq := h.totalRows_eq
  staging_eq := by simpa [MergeState.written] using h.staging_succ

/-- A row is placed, or the merge ends here. It is never refused for its estimate. -/
theorem Conserved.placeRow (h : Conserved claim limits fileBytes state)
    (hfilled : Filled limits largest state.outputs state.accumulator.estimatedUncompressedBytes)
    (hmergeable : Mergeable claim limits largest)
    (hlt : state.rowsEmitted input < (claim.inputs.get input).descriptor.rowCount) :
    (∃ next, placeRow claim limits fileBytes state input = .ok next ∧
      Placed claim limits fileBytes largest state.rowsEmitted input next) ∨
    Refused claim limits fileBytes largest (placeRow claim limits fileBytes state input) := by
  have hpos := (rowEstimate_pos (claim.inputs.get input) (state.rowsEmitted input)).ne'
  have hestimate := hmergeable.rowEstimate_le input (state.rowsEmitted input)
  have hle := hestimate.trans hmergeable.largest_le
  rw [Compaction.placeRow, estimatedRowBytes_of_lt hlt, ok_bind,
    OutputAccumulator.canAccept_eq hpos (h.target_eq ▸ hle) (h.next_lt hmergeable hlt), ok_bind]
  by_cases haccepts : state.accumulator.Accepts
    ((claim.inputs.get input).rowEstimate (state.rowsEmitted input))
  · rw [if_pos (decide_eq_true haccepts)]
    exact .inl (h.appendRow hmergeable hlt (hfilled.mono (Nat.le_add_right _ _)) haccepts)
  rw [if_neg (fun hdecide => haccepts (of_decide_eq_true hdecide))]
  rcases h.writeOutput_cases hfilled fun hempty => haccepts (.inl hempty) with
    ⟨hwrite, hfew⟩ | hrefused
  · have hended : limits.targetOutputRows ≤ state.accumulator.selections ∨
        limits.targetOutputUncompressedBytes < state.accumulator.estimatedUncompressedBytes +
          (claim.inputs.get input).rowEstimate (state.rowsEmitted input) := by
      rw [OutputAccumulator.Accepts, h.targetRows_eq, h.target_eq] at haccepts
      omega
    have hnext : Filled limits largest (state.written limits fileBytes).outputs
        ((claim.inputs.get input).rowEstimate (state.rowsEmitted input)) :=
      Filled.concat hfilled hmergeable.largest_le hestimate hended
    have hwritten := h.written hfew
    rw [hwrite, ok_bind, OutputAccumulator.canAccept_eq hpos (hwritten.target_eq ▸ hle)
      (hwritten.next_lt hmergeable hlt), ok_bind]
    exact .inl (hwritten.appendRow hmergeable hlt (hnext.mono (Nat.le_add_left _ _)) (.inl rfl))
  · exact .inr (hrefused.bind _)

/-- The rows of an order are placed, or the merge ends early. -/
theorem Conserved.foldlM_placeRow (hmergeable : Mergeable claim limits largest)
    (order : List (Fin claim.inputs.length)) (h : Conserved claim limits fileBytes state)
    (hfilled : Filled limits largest state.outputs state.accumulator.estimatedUncompressedBytes)
    (hcount : ∀ input, state.rowsEmitted input + order.count input ≤
      (claim.inputs.get input).descriptor.rowCount) :
    (∃ final, order.foldlM (Compaction.placeRow claim limits fileBytes) state = .ok final ∧
      Conserved claim limits fileBytes final ∧
      Filled limits largest final.outputs final.accumulator.estimatedUncompressedBytes ∧
      (∀ input, final.rowsEmitted input = state.rowsEmitted input + order.count input) ∧
      (state.accumulator.selections ≠ 0 ∨ order ≠ [] → final.accumulator.selections ≠ 0)) ∨
    Refused claim limits fileBytes largest
      (order.foldlM (Compaction.placeRow claim limits fileBytes) state) := by
  induction order generalizing state with
  | nil =>
    refine .inl ⟨state, rfl, h, hfilled, fun _ => rfl, fun hsome => ?_⟩
    exact hsome.resolve_right (not_not_intro rfl)
  | cons input order ih =>
    have hlt : state.rowsEmitted input < (claim.inputs.get input).descriptor.rowCount := by
      have hinput := hcount input
      rw [count_cons_self] at hinput
      omega
    rw [foldlM_cons]
    rcases h.placeRow hfilled hmergeable hlt with ⟨next, hnext, hplaced⟩ | hrefused
    · have hemitted : ∀ i, next.rowsEmitted i + order.count i =
          state.rowsEmitted i + (input :: order).count i := by
        intro i
        rw [hplaced.rowsEmitted_eq, Function.update_apply, count_cons]
        by_cases hi : i = input
        · subst hi
          simp only [if_true, beq_self_eq_true]
          omega
        · have hi' : (input == i) = false := beq_eq_false_iff_ne.mpr (Ne.symm hi)
          simp only [hi, if_false, hi', Bool.false_eq_true]
          omega
      have hrest := ih hplaced.conserved hplaced.filled
        fun i => (hemitted i).trans_le (hcount i)
      rw [hnext, ok_bind]
      refine hrest.imp_left fun ⟨final, hfinal, hconserved, hfilled, hcounts, hsome⟩ => ?_
      exact ⟨final, hfinal, hconserved, hfilled, fun i => (hcounts i).trans (hemitted i),
        fun _ => hsome (.inl hplaced.selections_ne)⟩
    · exact .inr (hrefused.bind _)

end Steps

/-! ## The outputs -/

section Outputs

variable {claim : CompactionRunClaim} {limits : CompactionBuildLimits} {fileBytes : Nat → Nat}
variable {largest : Nat} {order : List (Fin claim.inputs.length)}

/-- The outputs have the rows and the estimated bytes of the inputs, within the target, and they
are fewer. -/
structure Merged (claim : CompactionRunClaim) (limits : CompactionBuildLimits)
    (outputs : List OutputTotals) : Prop where
  length_lt : outputs.length < claim.inputs.length
  uncompressedBytes_le : ∀ output ∈ outputs,
    output.uncompressedBytes ≤ limits.targetOutputUncompressedBytes
  rows_eq : (outputs.map (·.rowCount)).sum = claim.inputRows
  bytes_eq : (outputs.map (·.uncompressedBytes)).sum = totalEstimatedBytes claim.inputs

/-- What is handed out at the end. -/
theorem handedOut_all {rowsEmitted : Fin claim.inputs.length → Nat}
    (h : ∀ input, rowsEmitted input = (claim.inputs.get input).descriptor.rowCount) :
    handedOut claim rowsEmitted = totalEstimatedBytes claim.inputs := by
  rw [totalEstimatedBytes, ← sum_get_eq]
  refine Finset.sum_congr rfl fun input _ => ?_
  rw [h input, sharesBefore_self _ (claim.inputs.get input).descriptor.rowCount_pos]

/-- There is a row in every order of the rows of a claim. -/
theorem Interleaves.ne_nil (h : Interleaves claim order) (htwo : 2 ≤ claim.inputs.length) :
    order ≠ [] := by
  rintro rfl
  have hfirst := h ⟨0, Nat.lt_of_lt_of_le Nat.two_pos htwo⟩
  exact absurd hfirst (claim.inputs.get _).descriptor.rowCount_pos.ne

/-- The merge of a claim has its outputs, or it ends early. -/
theorem buildOutputs_spec (hmergeable : Mergeable claim limits largest)
    (hrows : totalRows claim.inputs = claim.inputRows) (htwo : 2 ≤ claim.inputs.length)
    (horder : Interleaves claim order) (fileBytes : Nat → Nat) :
    (∃ outputs, buildOutputs claim limits fileBytes order = .ok outputs ∧
      Merged claim limits outputs) ∨
    Refused claim limits fileBytes largest (buildOutputs claim limits fileBytes order) := by
  have hstart := conserved_start limits fileBytes (Nat.zero_lt_of_lt htwo)
  rw [buildOutputs]
  rcases hstart.foldlM_placeRow hmergeable order (filled_nil limits largest _)
    (fun input => (Nat.zero_add _).trans_le (horder input).le) with
    ⟨final, hfinal, hconserved, hfilled, hcounts, hsome⟩ | hrefused
  · have hemitted : ∀ input,
        final.rowsEmitted input = (claim.inputs.get input).descriptor.rowCount :=
      fun input => (hcounts input).trans ((Nat.zero_add _).trans (horder input))
    have htotal : ∑ input, final.rowsEmitted input = claim.inputRows := by
      rw [← hrows, totalRows, ← sum_get_eq]
      exact Finset.sum_congr rfl fun input _ => hemitted input
    rw [hfinal, ok_bind]
    rcases hconserved.writeOutput_cases hfilled (hsome (.inr (horder.ne_nil htwo))) with
      ⟨hwrite, hfew⟩ | hrefused
    · have hwritten := hconserved.written hfew
      have hnonempty : (final.written limits fileBytes).outputs ≠ [] :=
        append_ne_nil_of_right_ne_nil _ (cons_ne_nil _ _)
      rw [hwrite, ok_bind, ensure_of (hwritten.totalRows_eq.trans htotal), ok_bind,
        ensure_of ⟨hnonempty, hwritten.outputs_lt⟩]
      exact .inl ⟨_, rfl, hwritten.outputs_lt, hwritten.outputs_le,
        hwritten.rows_eq.trans htotal,
        hwritten.bytes_eq.trans (handedOut_all hemitted)⟩
    · exact .inr (hrefused.bind _)
  · exact .inr (hrefused.bind _)

/-- The totals of the estimates of inputs with at least one byte for each row. -/
theorem totalEstimatedBytes_of_le {inputs : List CompactionInputSegment}
    (h : ∀ input ∈ inputs, input.descriptor.rowCount ≤ input.descriptor.uncompressedBytes) :
    totalEstimatedBytes inputs = totalUncompressedBytes inputs := by
  rw [totalEstimatedBytes, totalUncompressedBytes]
  congr 1
  exact map_congr_left fun input hinput => max_eq_left (h input hinput)

theorem totalEstimatedBytes_le (inputs : List CompactionInputSegment) :
    totalEstimatedBytes inputs ≤ totalUncompressedBytes inputs + totalRows inputs := by
  rw [totalEstimatedBytes, totalUncompressedBytes, totalRows, ← sum_map_add]
  exact sum_le_sum fun input _ =>
    max_le (Nat.le_add_right _ _) (Nat.le_add_left _ _)

/-- A claim that the worker accepts, with limits from the values of the metastore, has totals that
are numbers of the database. -/
theorem CompactionBuildLimits.Accepts.totalEstimatedBytes_lt (h : limits.Accepts claim)
    {claimLimits : CompactionClaimLimits}
    (hsame : limits.SameValues claimLimits.toCompactionClaimLimitConfiguration) :
    totalEstimatedBytes claim.inputs < 2 ^ 64 := by
  have hrows := h.rows_le
  have hbytes := h.uncompressedBytes_le
  rw [← h.rows_eq, hsame.maximumInputRows_eq] at hrows
  rw [← h.uncompressedBytes_eq, hsame.maximumInputUncompressedBytes_eq] at hbytes
  have hrows' := claimLimits.maximumInputRows_lt
  have hbytes' := claimLimits.maximumInputUncompressedBytes_lt
  have hle := totalEstimatedBytes_le claim.inputs
  omega

/-- The rows of an input have estimates between one and the target, and their sum is the estimate
of the input. So the merge of a claim that the worker accepts refuses no row, in any order of the
rows, its outputs are within the target at every time, and together they have the estimates of the
inputs. It can only end early because its outputs are not fewer than the inputs, or because the
files are too large. -/
theorem estimates_conserved :
    (∀ (input : CompactionInputSegment) (target : Nat),
      input.descriptor.uncompressedBytes < target →
      (∀ index < input.descriptor.rowCount, ∃ estimate,
        estimatedRowBytes input index = .ok estimate ∧ estimate = input.rowEstimate index ∧
          1 ≤ estimate ∧ estimate ≤ target) ∧
      ∑ index ∈ Finset.range input.descriptor.rowCount, input.rowEstimate index =
        max input.descriptor.uncompressedBytes input.descriptor.rowCount) ∧
    ∀ (claim : CompactionRunClaim) (limits : CompactionBuildLimits)
      (claimLimits : CompactionClaimLimits) (order : List (Fin claim.inputs.length))
      (fileBytes : Nat → Nat),
      validateClaim claim limits = .ok () →
      limits.SameValues claimLimits.toCompactionClaimLimitConfiguration →
      Interleaves claim order →
      (∀ taken state, taken <+: order →
        taken.foldlM (placeRow claim limits fileBytes) (.start limits _) = .ok state →
        state.accumulator.estimatedUncompressedBytes ≤ limits.targetOutputUncompressedBytes ∧
        ∀ output ∈ state.outputs,
          output.uncompressedBytes ≤ limits.targetOutputUncompressedBytes) ∧
      ((∃ outputs, buildOutputs claim limits fileBytes order = .ok outputs ∧
        Merged claim limits outputs ∧
        ((∀ input ∈ claim.inputs,
            input.descriptor.rowCount ≤ input.descriptor.uncompressedBytes) →
          (outputs.map (·.uncompressedBytes)).sum = claim.inputUncompressedBytes)) ∨
      (∃ message, buildOutputs claim limits fileBytes order = .error (.notBeneficial message)) ∨
      ∃ error, buildOutputs claim limits fileBytes order = .error error ∧
        error.kind = .buildFailed ∧ ¬FilesFit limits fileBytes claim.inputs.length) := by
  refine ⟨fun input target hbelow => ⟨fun index hindex => ⟨_, estimatedRowBytes_of_lt hindex, rfl,
    rowEstimate_pos input index, (rowEstimate_le input index).trans hbelow.le⟩,
    sharesBefore_self _ input.descriptor.rowCount_pos⟩, ?_⟩
  intro claim limits claimLimits order fileBytes hvalid hsame horder
  have haccepts := accepts_of_validateClaim hvalid
  have hmergeable : Mergeable claim limits limits.targetOutputUncompressedBytes :=
    ⟨fun input index => (rowEstimate_le _ index).trans
      (haccepts.below _ (get_mem claim.inputs input)).2.le, le_rfl,
      haccepts.totalEstimatedBytes_lt hsame⟩
  constructor
  · intro taken state htaken hstate
    have hcount : ∀ input, 0 + taken.count input ≤
        (claim.inputs.get input).descriptor.rowCount := fun input => by
      rw [Nat.zero_add, ← horder input]
      exact htaken.sublist.count_le input
    have hstart := conserved_start limits fileBytes (Nat.zero_lt_of_lt haccepts.two_le_length)
    rcases hstart.foldlM_placeRow hmergeable taken (filled_nil limits _ _) hcount with
      ⟨final, hfinal, hconserved, -⟩ | hrefused
    · obtain rfl := Except.ok.inj (hfinal.symm.trans hstate)
      exact ⟨hconserved.estimated_le, hconserved.outputs_le⟩
    · rw [hstate] at hrefused
      cases hrefused
  · rcases buildOutputs_spec hmergeable haccepts.rows_eq haccepts.two_le_length horder fileBytes with
      ⟨outputs, houtputs, hmerged⟩ | hrefused
    · refine .inl ⟨outputs, houtputs, hmerged, fun hrows => ?_⟩
      rw [hmerged.bytes_eq, totalEstimatedBytes_of_le hrows, haccepts.uncompressedBytes_eq]
    · generalize buildOutputs claim limits fileBytes order = result at hrefused ⊢
      cases hrefused with
      | notBeneficial message => exact .inr (.inl ⟨message, rfl⟩)
      | buildFailed error hkind hfiles => exact .inr (.inr ⟨error, rfl, hkind, hfiles⟩)

/-- With an order of the rows that ends early for its outputs, the totals allow for as many full
outputs as there are inputs, but for one. -/
theorem Refused.le_of_notBeneficial {message : String}
    (h : Refused claim limits fileBytes largest
      (Except.error (.notBeneficial message) : Except CompactionError (List OutputTotals)))
    (htarget : 0 < limits.targetOutputRows) :
    claim.inputs.length ≤ (totalRows claim.inputs - 1) / limits.targetOutputRows +
      (totalEstimatedBytes claim.inputs - largest) /
        (limits.targetOutputUncompressedBytes - largest + 1) + 1 := by
  cases h with
  | buildFailed _ hkind => exact absurd hkind nofun
  | notBeneficial _ state hconserved hfilled hne hmany =>
    have hrows : ∑ input, state.rowsEmitted input ≤ totalRows claim.inputs := by
      rw [totalRows, ← sum_get_eq]
      exact Finset.sum_le_sum fun input _ => hconserved.rowsEmitted_le input
    have hbytes := handedOut_le hconserved.rowsEmitted_le
    rw [← hconserved.rows_eq] at hrows
    rw [← hconserved.bytes_eq] at hbytes
    have hle := hfilled.length_le htarget (by omega : _ < totalRows claim.inputs) hbytes
    omega

/-- The worker accepts the claim of a group that the metastore chooses, and for every order of the
rows its merge does not end for having too many outputs, if the full outputs that the totals allow
for and one more are fewer than the inputs. Here `largest` is a bound on the estimates of the rows.
If its files fit too, the merge has its outputs. -/
theorem merge_beneficial {claimLimits : CompactionClaimLimits}
    {candidates selected : List CompactionInputSegment} {runId : CompactionRunId}
    {schema : Catalog.Schema}
    (hcandidates : ∀ candidate ∈ candidates, candidate.Stored ∧ claimLimits.Admits candidate)
    (hselected : chooseCandidateGroup candidates claimLimits = .ok (some selected))
    (hclaim : materializeClaim runId schema selected = .ok claim)
    (hsame : limits.SameValues claimLimits.toCompactionClaimLimitConfiguration)
    (hrows : ∀ input ∈ claim.inputs, input.estimatedBytes ≤ largest * input.descriptor.rowCount)
    (hlargest : largest ≤ limits.targetOutputUncompressedBytes)
    (hfew : (claim.inputRows - 1) / limits.targetOutputRows +
      (totalEstimatedBytes claim.inputs - largest) /
        (limits.targetOutputUncompressedBytes - largest + 1) + 1 < claim.inputs.length) :
    validateClaim claim limits = .ok () ∧
    ∀ order, Interleaves claim order → ∀ fileBytes,
      (∀ message, buildOutputs claim limits fileBytes order ≠ .error (.notBeneficial message)) ∧
      (FilesFit limits fileBytes claim.inputs.length →
        ∃ outputs, buildOutputs claim limits fileBytes order = .ok outputs ∧
          Merged claim limits outputs) := by
  have hvalid := validateClaim_of_selected hcandidates hselected hclaim hsame
  have haccepts := accepts_of_validateClaim hvalid
  have hmergeable : Mergeable claim limits largest :=
    ⟨fun input index => share_le_of_le_mul (hrows _ (get_mem claim.inputs input)) index,
      hlargest, haccepts.totalEstimatedBytes_lt hsame⟩
  have htarget : 0 < limits.targetOutputRows := by
    have hbelow := (haccepts.below _ (get_mem claim.inputs
      ⟨0, Nat.lt_of_lt_of_le Nat.two_pos haccepts.two_le_length⟩)).1
    omega
  refine ⟨hvalid, fun order horder fileBytes => ?_⟩
  have hspec := buildOutputs_spec hmergeable haccepts.rows_eq haccepts.two_le_length horder fileBytes
  have hbeneficial : ∀ message,
      buildOutputs claim limits fileBytes order ≠ .error (.notBeneficial message) := by
    intro message heq
    rw [heq] at hspec
    have hle := (hspec.resolve_left nofun).le_of_notBeneficial htarget
    rw [haccepts.rows_eq] at hle
    omega
  refine ⟨hbeneficial, fun hfit => hspec.resolve_right fun hrefused => ?_⟩
  generalize buildOutputs claim limits fileBytes order = result at hrefused hbeneficial
  cases hrefused with
  | notBeneficial message => exact hbeneficial message rfl
  | buildFailed _ _ hfiles => exact hfiles hfit

end Outputs

section Sample

/-- An input with one row of three hundred bytes. -/
def heavyInput (n : UInt8) : CompactionInputSegment where
  descriptor := { (CompactionInputSegment.sample n).descriptor with
    uncompressedBytes := 300
    uncompressedBytes_pos := Nat.succ_pos 299 }
  dataExpiresAt := 0
  publishedAt := 0

/-- The claim of three inputs. -/
def tripleClaim (input : UInt8 → CompactionInputSegment) : CompactionRunClaim :=
  claimOf (UuidV7.sample 4).uuid .first (input 1) [input 2, input 3]

/-- The three rows one after the other. -/
def tripleOrder (input : UInt8 → CompactionInputSegment) :
    List (Fin (tripleClaim input).inputs.length) :=
  ([0, 1, 2] : List (Fin 3))

/-- Files of a thousand bytes are within the limits of the worker. -/
theorem filesFit_sample : FilesFit ⟨buildConfiguration⟩ (fun _ => 1000) 3 :=
  ⟨by decide, by decide, by decide⟩

theorem sameValues_sample : CompactionBuildLimitConfiguration.SameValues buildConfiguration
    CompactionClaimLimits.sample.toCompactionClaimLimitConfiguration :=
  ⟨rfl, rfl, rfl, rfl, rfl, rfl⟩

/-- Three rows of three hundred bytes with a target of five hundred : two outputs are expected, so
that the group is chosen and its claim accepted, but no two rows share an output. -/
theorem merge_notBeneficial :
    (∀ n ∈ [1, 2, 3], (heavyInput n).Stored ∧ CompactionClaimLimits.sample.Admits (heavyInput n)) ∧
    chooseCandidateGroup [heavyInput 1, heavyInput 2, heavyInput 3] .sample =
      .ok (some [heavyInput 1, heavyInput 2, heavyInput 3]) ∧
    materializeClaim (UuidV7.sample 4).uuid .first [heavyInput 1, heavyInput 2, heavyInput 3] =
      .ok (tripleClaim heavyInput) ∧
    CompactionBuildLimitConfiguration.SameValues buildConfiguration
      CompactionClaimLimits.sample.toCompactionClaimLimitConfiguration ∧
    validateClaim (tripleClaim heavyInput) ⟨buildConfiguration⟩ = .ok () ∧
    Interleaves (tripleClaim heavyInput) (tripleOrder heavyInput) ∧
    FilesFit ⟨buildConfiguration⟩ (fun _ => 1000) 3 ∧
    buildOutputs (tripleClaim heavyInput) ⟨buildConfiguration⟩ (fun _ => 1000)
        (tripleOrder heavyInput) =
      .error (.notBeneficial "compaction did not reduce its segment count") := by
  refine ⟨fun n hn => ?_, by decide +kernel, rfl, sameValues_sample, rfl, by decide,
    filesFit_sample, rfl⟩
  simp only [mem_cons, not_mem_nil, or_false] at hn
  rcases hn with rfl | rfl | rfl <;>
    exact ⟨⟨by decide, by decide, by decide⟩, by decide, by decide, by decide⟩

/-- Three rows of one hundred bytes share an output. -/
theorem merge_beneficial_triple :
    validateClaim (tripleClaim .sample) ⟨buildConfiguration⟩ = .ok () ∧
    ∃ outputs, buildOutputs (tripleClaim .sample) ⟨buildConfiguration⟩ (fun _ => 1000)
      (tripleOrder .sample) = .ok outputs ∧ outputs.length < 3 := by
  have hcandidates : ∀ candidate ∈ [CompactionInputSegment.sample 1, .sample 2, .sample 3],
      candidate.Stored ∧ CompactionClaimLimits.sample.Admits candidate := by
    simp only [forall_mem_cons, not_mem_nil, false_implies, implies_true, and_true]
    exact ⟨stored_sample 1, stored_sample 2, stored_sample 3⟩
  have hselected : chooseCandidateGroup [.sample 1, .sample 2, .sample 3] .sample =
      .ok (some [.sample 1, .sample 2, .sample 3]) := by decide +kernel
  have hclaim : materializeClaim (UuidV7.sample 4).uuid .first [.sample 1, .sample 2, .sample 3] =
      .ok (tripleClaim .sample) := rfl
  have hrows : ∀ input ∈ (tripleClaim .sample).inputs,
      input.estimatedBytes ≤ 100 * input.descriptor.rowCount := by decide
  have horder : Interleaves (tripleClaim .sample) (tripleOrder .sample) := by decide
  obtain ⟨hvalid, hmerge⟩ := merge_beneficial hcandidates hselected hclaim
    (show CompactionBuildLimitConfiguration.SameValues (CompactionBuildLimits.mk
      buildConfiguration).toCompactionBuildLimitConfiguration _ from sameValues_sample)
    hrows (by decide) (by decide)
  obtain ⟨outputs, houtputs, hmerged⟩ := (hmerge _ horder _).2 filesFit_sample
  exact ⟨hvalid, outputs, houtputs, hmerged.length_lt⟩

/-- The outputs have the three hundred bytes of the inputs. -/
theorem estimates_conserved_triple :
    validateClaim (tripleClaim .sample) ⟨buildConfiguration⟩ = .ok () ∧
    ∃ outputs, buildOutputs (tripleClaim .sample) ⟨buildConfiguration⟩ (fun _ => 1000)
      (tripleOrder .sample) = .ok outputs ∧ (outputs.map (·.uncompressedBytes)).sum = 300 := by
  have hvalid : validateClaim (tripleClaim .sample) ⟨buildConfiguration⟩ = .ok () := rfl
  have horder : Interleaves (tripleClaim .sample) (tripleOrder .sample) := by decide
  have hbuilt : buildOutputs (tripleClaim .sample) ⟨buildConfiguration⟩ (fun _ => 1000)
      (tripleOrder .sample) = .ok [⟨3, 300⟩] := rfl
  rcases (estimates_conserved.2 _ _ .sample _ (fun _ => 1000) hvalid sameValues_sample horder).2
    with ⟨outputs, houtputs, -, hsum⟩ | ⟨message, herror⟩ | ⟨error, herror, -⟩
  · exact ⟨hvalid, outputs, houtputs, hsum (by decide)⟩
  · exact absurd (hbuilt.symm.trans herror) nofun
  · exact absurd (hbuilt.symm.trans herror) nofun

end Sample

end Compaction

end Elucid
