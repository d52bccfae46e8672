import Elucid.Normalization

/-!
# Size estimates of rows

The builders account two sizes for every row : the uncompressed bytes it will take when it
is staged, and the memory it takes until then. Both are sums of checked additions over
the fields and the remainder of the row. `estimateRow_eq` says what they sum to, and that
they fail only if a sum leaves `u64`.

Sizes of Rust types and capacities of buffers are parameters (`Layout`).
-/

namespace Elucid

open BigEndian

/-- Sizes the compiler and the allocator choose. -/
class Layout where
  /-- `size_of::<SegmentRow>()`. -/
  segmentRowBytes : Nat
  /-- `size_of::<NormalizedField>()`. -/
  normalizedFieldBytes : Nat
  /-- `size_of::<(String, Value)>()`. -/
  jsonEntryBytes : Nat
  /-- `size_of::<Value>()`. -/
  jsonValueBytes : Nat
  /-- The capacity of the buffer of a string. -/
  stringCapacity : Text → Nat
  /-- The capacity of a vector of so many values, filled one by one. -/
  vecCapacity : Nat → Nat
  segmentRowBytes_pos : 0 < segmentRowBytes
  segmentRowBytes_lt : segmentRowBytes < 2 ^ 64
  normalizedFieldBytes_pos : 0 < normalizedFieldBytes
  normalizedFieldBytes_lt : normalizedFieldBytes < 2 ^ 64
  jsonEntryBytes_pos : 0 < jsonEntryBytes
  jsonEntryBytes_lt : jsonEntryBytes < 2 ^ 64
  jsonValueBytes_pos : 0 < jsonValueBytes
  jsonValueBytes_lt : jsonValueBytes < 2 ^ 64

/-! ## Written JSON -/

section Encode

variable [SerdeJson]

mutual

/-- The bytes `serde_json::to_writer` writes for a value. -/
def encodeValue : Value → Bytes
  | .null => Text.ofString "null"
  | .bool true => Text.ofString "true"
  | .bool false => Text.ofString "false"
  | .number text => text
  | .string value => SerdeJson.encodeString value
  | .array values => [0x5B] ++ encodeValues values ++ [0x5D]
  | .object entries => [0x7B] ++ encodeEntries entries ++ [0x7D]

/-- The values of an array, with commas between them. -/
def encodeValues : List Value → Bytes
  | [] => []
  | [value] => encodeValue value
  | value :: rest => encodeValue value ++ [0x2C] ++ encodeValues rest

/-- The entries of an object, with commas between them. -/
def encodeEntries : List (Text × Value) → Bytes
  | [] => []
  | [(key, value)] => SerdeJson.encodeString key ++ [0x3A] ++ encodeValue value
  | (key, value) :: rest =>
    SerdeJson.encodeString key ++ [0x3A] ++ encodeValue value ++ [0x2C] ++ encodeEntries rest

end

end Encode

/-! ## Estimates -/

inductive SegmentCapacity
  | residentMemory
  | staging
  deriving DecidableEq, Repr

inductive SegmentBuildError
  | estimatedBytesOverflow
  | clockMovedBackwards
  | accessSequenceExhausted
  | batchExceedsCapacity (capacity : SegmentCapacity) (estimatedBytes maximumBytes : Nat)
  | stateInconsistent
  deriving DecidableEq, Repr

/-- `checked_add` of an estimate. -/
def addEstimate (a b : Nat) : Except SegmentBuildError Nat :=
  okOr (checkedAdd a b) .estimatedBytesOverflow

/-- `checked_mul` of an estimate. -/
def mulEstimate (a b : Nat) : Except SegmentBuildError Nat :=
  if a * b < 2 ^ 64 then .ok (a * b) else .error .estimatedBytesOverflow

def segmentRowVectorCapacityHeadroom : Nat := 2

def heapAllocationHeadroomBytes : Nat := 32

def jsonObjectEntryHeadroomBytes : Nat := 64

/-- `usize_bytes` : a `u64` holds every `usize`. -/
def usizeBytes (bytes : Nat) : Except SegmentBuildError Nat :=
  if bytes < 2 ^ 64 then .ok bytes else .error .estimatedBytesOverflow

def bytesForItems (count itemBytes : Nat) : Except SegmentBuildError Nat := do
  mulEstimate (← usizeBytes count) (← usizeBytes itemBytes)

def estimatedAllocation (bytes : Nat) : Except SegmentBuildError Nat :=
  if bytes = 0 then .ok 0 else addEstimate bytes heapAllocationHeadroomBytes

def estimateJson [SerdeJson] (entries : List (Text × Value)) : Except SegmentBuildError Nat :=
  usizeBytes (encodeValue (.object entries)).length

/-- `estimate_uncompressed_value`. -/
def estimateUncompressedValue : NormalizedValue → Except SegmentBuildError Nat
  | .null => .ok 1
  | .bool _ => .ok 2
  | .int32 _ | .uint32 _ | .float32 _ => .ok 5
  | .int64 _ | .uint64 _ | .float64 _ | .datetime _ => .ok 9
  | .utf8 value => do addEstimate (← usizeBytes value.length) 5

section Resident

variable [Layout]

mutual

/-- `estimate_json_value_resident`. -/
def estimateJsonValueResident : Value → Except SegmentBuildError Nat
  | .null | .bool _ | .number _ => .ok 0
  | .string value => do estimatedAllocation (← usizeBytes (Layout.stringCapacity value))
  | .array values => do
    let inlineBytes ← bytesForItems (Layout.vecCapacity values.length) Layout.jsonValueBytes
    addValuesResident (← estimatedAllocation inlineBytes) values
  | .object entries => do
    let entryBytes ← bytesForItems entries.length Layout.jsonEntryBytes
    let entryOverhead ← mulEstimate (← usizeBytes entries.length) jsonObjectEntryHeadroomBytes
    addEntriesResident (← addEstimate entryBytes entryOverhead) entries

/-- The fold of `estimate_json_value_resident` over an array. -/
def addValuesResident (residentBytes : Nat) : List Value → Except SegmentBuildError Nat
  | [] => .ok residentBytes
  | value :: rest => do
    let residentBytes ← addEstimate residentBytes (← estimateJsonValueResident value)
    addValuesResident residentBytes rest

/-- The loop of `estimate_json_map_resident`. -/
def addEntriesResident (bytes : Nat) : List (Text × Value) → Except SegmentBuildError Nat
  | [] => .ok bytes
  | (key, value) :: rest => do
    let bytes ← addEstimate bytes (← estimatedAllocation (← usizeBytes (Layout.stringCapacity key)))
    let bytes ← addEstimate bytes (← estimateJsonValueResident value)
    addEntriesResident bytes rest

end

/-- The loop of `estimate_resident_row` over the fields. -/
def addFieldsResident (bytes : Nat) : List NormalizedField → Except SegmentBuildError Nat
  | [] => .ok bytes
  | field :: rest =>
    match field.value with
    | .utf8 value => do
      let capacity ← usizeBytes (Layout.stringCapacity value)
      let bytes ← addEstimate bytes (← estimatedAllocation capacity)
      addFieldsResident bytes rest
    | _ => addFieldsResident bytes rest

variable [Chrono]

/-- `estimate_resident_row`. -/
def estimateResidentRow (row : AcceptedRow) : Except SegmentBuildError Nat := do
  let segmentRowBytes ← bytesForItems segmentRowVectorCapacityHeadroom Layout.segmentRowBytes
  let fieldBytes ← bytesForItems row.fields.length Layout.normalizedFieldBytes
  let bytes ← addEstimate segmentRowBytes (← estimatedAllocation fieldBytes)
  let bytes ← addFieldsResident bytes row.fields
  match row.remainder with
  | some remainder => do addEstimate bytes (← estimateJsonValueResident (.object remainder))
  | none => .ok bytes

end Resident

/-- The loop of `estimate_row` over the fields. -/
def addFieldsUncompressed (bytes : Nat) : List NormalizedField → Except SegmentBuildError Nat
  | [] => .ok bytes
  | field :: rest => do
    let bytes ← addEstimate bytes (← estimateUncompressedValue field.value)
    addFieldsUncompressed bytes rest

structure RowEstimates where
  uncompressedBytes : Nat
  residentBytes : Nat
  deriving DecidableEq, Repr

/-- The bytes `estimate_row` adds for the remainder. -/
def estimateRemainder [SerdeJson] :
    Option (List (Text × Value)) → Except SegmentBuildError Nat
  | some remainder => do addEstimate (← estimateJson remainder) 5
  | none => .ok 1

def estimateRow [SerdeJson] [Layout] [Chrono] (row : AcceptedRow) :
    Except SegmentBuildError RowEstimates := do
  let uncompressedBytes ← addFieldsUncompressed 32 row.fields
  let uncompressedBytes ← addEstimate uncompressedBytes (← estimateRemainder row.remainder)
  return ⟨uncompressedBytes, ← estimateResidentRow row⟩

/-! ## What the estimates are -/

/-- An allocation with its headroom. -/
def allocationBytes (bytes : Nat) : Nat :=
  if bytes = 0 then 0 else bytes + heapAllocationHeadroomBytes

/-- The staged bytes of a value. -/
def uncompressedValueBytes : NormalizedValue → Nat
  | .null => 1
  | .bool _ => 2
  | .int32 _ | .uint32 _ | .float32 _ => 5
  | .int64 _ | .uint64 _ | .float64 _ | .datetime _ => 9
  | .utf8 value => value.length + 5

/-- The staged bytes of a remainder. -/
def remainderBytes [SerdeJson] : Option (List (Text × Value)) → Nat
  | some remainder => (encodeValue (.object remainder)).length + 5
  | none => 1

/-- The staged bytes of a row. -/
def rowUncompressedBytes [SerdeJson] [Chrono] (row : AcceptedRow) : Nat :=
  32 + (row.fields.map fun field => uncompressedValueBytes field.value).sum +
    remainderBytes row.remainder

section ResidentBytes

variable [Layout]

mutual

/-- The memory of a value behind its inline part. -/
def valueResidentBytes : Value → Nat
  | .null | .bool _ | .number _ => 0
  | .string value => allocationBytes (Layout.stringCapacity value)
  | .array values =>
    allocationBytes (Layout.vecCapacity values.length * Layout.jsonValueBytes) +
      valuesResidentBytes values
  | .object entries =>
    entries.length * Layout.jsonEntryBytes + entries.length * jsonObjectEntryHeadroomBytes +
      entriesResidentBytes entries

/-- The memory of the values of an array. -/
def valuesResidentBytes : List Value → Nat
  | [] => 0
  | value :: rest => valueResidentBytes value + valuesResidentBytes rest

/-- The memory of the entries of an object. -/
def entriesResidentBytes : List (Text × Value) → Nat
  | [] => 0
  | (key, value) :: rest =>
    allocationBytes (Layout.stringCapacity key) + valueResidentBytes value +
      entriesResidentBytes rest

end

/-- The memory of a field behind its inline part. -/
def fieldResidentBytes (field : NormalizedField) : Nat :=
  match field.value with
  | .utf8 value => allocationBytes (Layout.stringCapacity value)
  | _ => 0

/-- The memory of a row. -/
def rowResidentBytes [Chrono] (row : AcceptedRow) : Nat :=
  segmentRowVectorCapacityHeadroom * Layout.segmentRowBytes +
    allocationBytes (row.fields.length * Layout.normalizedFieldBytes) +
    (row.fields.map fieldResidentBytes).sum +
    match row.remainder with
    | some remainder => valueResidentBytes (.object remainder)
    | none => 0

end ResidentBytes

/-! ## The estimates are checked sums -/

theorem usizeBytes_of_lt {bytes : Nat} (h : bytes < 2 ^ 64) : usizeBytes bytes = .ok bytes :=
  if_pos h

theorem usizeBytes_of_le {bytes : Nat} (h : 2 ^ 64 ≤ bytes) :
    usizeBytes bytes = .error .estimatedBytesOverflow :=
  if_neg (Nat.not_lt.mpr h)

theorem addEstimate_eq_ok {a b sum : Nat} (h : addEstimate a b = .ok sum) :
    sum = a + b ∧ a + b < 2 ^ 64 :=
  checkedAdd_eq_some (okOr_eq_ok h)

theorem addEstimate_eq (a b : Nat) : addEstimate a b = usizeBytes (a + b) := by
  unfold addEstimate checkedAdd usizeBytes
  split <;> rfl

/-- A checked addition of two checked numbers is their checked sum. -/
theorem add_usizeBytes (a b : Nat) :
    (do addEstimate (← usizeBytes a) (← usizeBytes b)) = usizeBytes (a + b) := by
  by_cases ha : a < 2 ^ 64
  · rw [usizeBytes_of_lt ha, ok_bind]
    by_cases hb : b < 2 ^ 64
    · rw [usizeBytes_of_lt hb, ok_bind, addEstimate_eq]
    · rw [usizeBytes_of_le (Nat.not_lt.mp hb), error_bind, usizeBytes_of_le (by omega)]
  · rw [usizeBytes_of_le (Nat.not_lt.mp ha), error_bind, usizeBytes_of_le (by omega)]

/-- What follows a checked number that is part of the checked result. -/
theorem usizeBytes_bind {a : Nat} {f : Nat → Except SegmentBuildError Nat} {total : Nat}
    (hle : a ≤ total) (hf : a < 2 ^ 64 → f a = usizeBytes total) :
    (do f (← usizeBytes a)) = usizeBytes total := by
  by_cases ha : a < 2 ^ 64
  · rw [usizeBytes_of_lt ha, ok_bind, hf ha]
  · rw [usizeBytes_of_le (Nat.not_lt.mp ha), error_bind, usizeBytes_of_le (by omega)]

theorem mulEstimate_usizeBytes {item : Nat} (hpos : 0 < item) (hlt : item < 2 ^ 64)
    (count : Nat) : bytesForItems count item = usizeBytes (count * item) := by
  unfold bytesForItems
  refine usizeBytes_bind (Nat.le_mul_of_pos_right count hpos) fun _ => ?_
  rw [usizeBytes_of_lt hlt, ok_bind]
  rfl

theorem estimatedAllocation_usizeBytes (bytes : Nat) :
    (do estimatedAllocation (← usizeBytes bytes)) = usizeBytes (allocationBytes bytes) := by
  refine usizeBytes_bind ?_ fun _ => ?_
  · unfold allocationBytes
    split <;> omega
  · unfold estimatedAllocation allocationBytes
    split
    · rfl
    · rw [addEstimate_eq]

theorem estimateUncompressedValue_eq (value : NormalizedValue) :
    estimateUncompressedValue value = usizeBytes (uncompressedValueBytes value) := by
  cases value with
  | utf8 value =>
    exact usizeBytes_bind (Nat.le_add_right ..) fun _ => addEstimate_eq ..
  | _ => rfl

theorem estimateRemainder_eq [SerdeJson] (remainder : Option (List (Text × Value))) :
    estimateRemainder remainder = usizeBytes (remainderBytes remainder) := by
  cases remainder with
  | none => rfl
  | some remainder =>
    exact usizeBytes_bind (Nat.le_add_right ..) fun _ => addEstimate_eq ..

theorem addFieldsUncompressed_eq (fields : List NormalizedField) {bytes : Nat}
    (hbytes : bytes < 2 ^ 64) : addFieldsUncompressed bytes fields =
      usizeBytes (bytes + (fields.map fun field => uncompressedValueBytes field.value).sum) := by
  induction fields generalizing bytes with
  | nil => exact (usizeBytes_of_lt hbytes).symm
  | cons field rest ih =>
    rw [addFieldsUncompressed, estimateUncompressedValue_eq, List.map_cons, List.sum_cons,
      ← Nat.add_assoc]
    refine usizeBytes_bind (by omega) fun _ => ?_
    rw [addEstimate_eq]
    exact usizeBytes_bind (by omega) fun hsum => ih hsum

section ResidentEq

variable [Layout]

mutual

theorem estimateJsonValueResident_eq : ∀ value : Value,
    estimateJsonValueResident value = usizeBytes (valueResidentBytes value)
  | .null => by rw [estimateJsonValueResident, valueResidentBytes]; rfl
  | .bool _ => by rw [estimateJsonValueResident, valueResidentBytes]; rfl
  | .number _ => by rw [estimateJsonValueResident, valueResidentBytes]; rfl
  | .string value => by
    rw [estimateJsonValueResident, valueResidentBytes]
    exact estimatedAllocation_usizeBytes _
  | .array values => by
    rw [estimateJsonValueResident, valueResidentBytes,
      mulEstimate_usizeBytes Layout.jsonValueBytes_pos Layout.jsonValueBytes_lt]
    have hinline := estimatedAllocation_usizeBytes
      (Layout.vecCapacity values.length * Layout.jsonValueBytes)
    rw [← bind_assoc, hinline]
    exact usizeBytes_bind (Nat.le_add_right ..) fun h => addValuesResident_eq values h
  | .object entries => by
    rw [estimateJsonValueResident, valueResidentBytes,
      mulEstimate_usizeBytes Layout.jsonEntryBytes_pos Layout.jsonEntryBytes_lt]
    refine usizeBytes_bind (by omega) fun hentry => ?_
    refine usizeBytes_bind (by simp only [jsonObjectEntryHeadroomBytes]; omega) fun _ => ?_
    refine usizeBytes_bind (by omega) fun _ => ?_
    rw [addEstimate_eq]
    exact usizeBytes_bind (Nat.le_add_right ..) fun h => addEntriesResident_eq entries h

theorem addValuesResident_eq : ∀ (values : List Value) {bytes : Nat}, bytes < 2 ^ 64 →
    addValuesResident bytes values = usizeBytes (bytes + valuesResidentBytes values)
  | [], bytes, h => by
    rw [addValuesResident, valuesResidentBytes, Nat.add_zero, usizeBytes_of_lt h]
  | value :: rest, bytes, h => by
    rw [addValuesResident, valuesResidentBytes, estimateJsonValueResident_eq value,
      ← Nat.add_assoc]
    refine usizeBytes_bind (by omega) fun _ => ?_
    rw [addEstimate_eq]
    exact usizeBytes_bind (Nat.le_add_right ..) fun h => addValuesResident_eq rest h

theorem addEntriesResident_eq : ∀ (entries : List (Text × Value)) {bytes : Nat}, bytes < 2 ^ 64 →
    addEntriesResident bytes entries = usizeBytes (bytes + entriesResidentBytes entries)
  | [], bytes, h => by
    rw [addEntriesResident, entriesResidentBytes, Nat.add_zero, usizeBytes_of_lt h]
  | (key, value) :: rest, bytes, h => by
    rw [addEntriesResident, entriesResidentBytes, estimateJsonValueResident_eq value,
      ← bind_assoc, estimatedAllocation_usizeBytes]
    refine usizeBytes_bind (by omega) fun _ => ?_
    rw [addEstimate_eq]
    refine usizeBytes_bind (by omega) fun _ => ?_
    refine usizeBytes_bind (by omega) fun _ => ?_
    rw [addEstimate_eq]
    refine (usizeBytes_bind (by omega) fun h => addEntriesResident_eq rest h).trans ?_
    congr 1
    omega

end

theorem addFieldsResident_eq (fields : List NormalizedField) {bytes : Nat}
    (hbytes : bytes < 2 ^ 64) : addFieldsResident bytes fields =
      usizeBytes (bytes + (fields.map fieldResidentBytes).sum) := by
  induction fields generalizing bytes with
  | nil => exact (usizeBytes_of_lt hbytes).symm
  | cons field rest ih =>
    rw [addFieldsResident, List.map_cons, List.sum_cons, ← Nat.add_assoc, fieldResidentBytes]
    split
    · rw [← bind_assoc, estimatedAllocation_usizeBytes]
      refine usizeBytes_bind (by omega) fun _ => ?_
      rw [addEstimate_eq]
      exact usizeBytes_bind (by omega) fun h => ih h
    · exact ih hbytes

theorem estimateResidentRow_eq [Chrono] (row : AcceptedRow) :
    estimateResidentRow row = usizeBytes (rowResidentBytes row) := by
  rw [estimateResidentRow,
    mulEstimate_usizeBytes Layout.segmentRowBytes_pos Layout.segmentRowBytes_lt,
    mulEstimate_usizeBytes Layout.normalizedFieldBytes_pos Layout.normalizedFieldBytes_lt,
    rowResidentBytes]
  refine usizeBytes_bind (by omega) fun _ => ?_
  rw [← bind_assoc, estimatedAllocation_usizeBytes]
  refine usizeBytes_bind (by omega) fun _ => ?_
  rw [addEstimate_eq]
  refine usizeBytes_bind (by omega) fun hinline => ?_
  rw [addFieldsResident_eq _ hinline]
  refine usizeBytes_bind (by omega) fun _ => ?_
  cases row.remainder with
  | none => exact (usizeBytes_of_lt ‹_›).symm
  | some remainder =>
    dsimp only
    rw [estimateJsonValueResident_eq]
    exact usizeBytes_bind (by omega) fun _ => addEstimate_eq ..

/-- The estimates of a row are its sizes, as long as both fit. -/
theorem estimateRow_eq [SerdeJson] [Chrono] (row : AcceptedRow) :
    estimateRow row =
      if rowUncompressedBytes row < 2 ^ 64 ∧ rowResidentBytes row < 2 ^ 64 then
        .ok ⟨rowUncompressedBytes row, rowResidentBytes row⟩
      else .error .estimatedBytesOverflow := by
  have huncompressed : (do
      let uncompressedBytes ← addFieldsUncompressed 32 row.fields
      addEstimate uncompressedBytes (← estimateRemainder row.remainder)) =
        usizeBytes (rowUncompressedBytes row) := by
    rw [addFieldsUncompressed_eq _ (by decide), estimateRemainder_eq]
    exact add_usizeBytes _ _
  have hassoc : estimateRow row = (do
      let uncompressedBytes ← usizeBytes (rowUncompressedBytes row)
      return ⟨uncompressedBytes, ← usizeBytes (rowResidentBytes row)⟩) := by
    rw [← huncompressed, ← estimateResidentRow_eq]
    simp only [estimateRow, bind_assoc]
  rw [hassoc]
  by_cases hu : rowUncompressedBytes row < 2 ^ 64
  · rw [usizeBytes_of_lt hu, ok_bind]
    by_cases hr : rowResidentBytes row < 2 ^ 64
    · rw [usizeBytes_of_lt hr, if_pos ⟨hu, hr⟩]
      rfl
    · rw [usizeBytes_of_le (Nat.not_lt.mp hr), if_neg fun h => hr h.2]
      rfl
  · rw [usizeBytes_of_le (Nat.not_lt.mp hu), if_neg fun h => hu h.1]
    rfl

end ResidentEq

/-! ## Concrete values -/

/-- Sizes on a 64 bit machine, with buffers that fit what they hold. -/
@[reducible] def Layout.sample : Layout where
  segmentRowBytes := 200
  normalizedFieldBytes := 48
  jsonEntryBytes := 56
  jsonValueBytes := 32
  stringCapacity := List.length
  vecCapacity := id
  segmentRowBytes_pos := by decide
  segmentRowBytes_lt := by decide
  normalizedFieldBytes_pos := by decide
  normalizedFieldBytes_lt := by decide
  jsonEntryBytes_pos := by decide
  jsonEntryBytes_lt := by decide
  jsonValueBytes_pos := Nat.two_pow_pos 5
  jsonValueBytes_lt := by decide

end Elucid
