import Elucid.Frame

/-!
# Admission

What an operator configures is checked once, at startup (`validate`), and what a client
sends is checked while its body is read (`readBoundedNdjson`) : against the configured
number of bytes and a fixed number of lines. The chunks in which the transport delivers a
body do not matter (`readBoundedNdjson_eq`).
-/

namespace Elucid

open BigEndian

/-! ## Configuration -/

/-- A `positive_measurement`. -/
@[ext] structure Measurement where
  get : Nat
  pos : 0 < get
  lt : get < 2 ^ 64

instance : DecidableEq Measurement := fun _ _ => decidable_of_iff' _ Measurement.ext_iff

inductive MaintenanceMode
  | automatic
  | disabled
  deriving DecidableEq, Repr

/-- `RuntimeConfigurationCandidate`, as far as it is validated. A path is the list of its
components. -/
structure RuntimeConfiguration where
  maximumConnections : Measurement
  spoolPath : List String
  spoolCapacityBytes : Measurement
  scratchPath : List String
  scratchCapacityBytes : Measurement
  maximumHttpBatchBytes : Measurement
  queryMemoryBytes : Measurement
  maximumResultBytes : Measurement
  maintenanceMode : MaintenanceMode
  deriving DecidableEq

inductive ConfigurationViolation
  | automaticMaintenanceRequiresTwoConnections
  | maximumHttpBatchExceedsSpoolCapacity
  | maximumHttpBatchExceedsScratchCapacity
  | maximumResultExceedsQueryMemory
  | maximumResultExceedsScratchCapacity
  | spoolAndScratchPathsMustDiffer
  deriving DecidableEq, Repr

/-- `SpoolCapacity::can_reserve`. -/
def SpoolCapacity.canReserve (capacity : SpoolCapacity) (bodyLimit : AppendBodyLimit) : Bool :=
  match checkedAdd bodyLimit.get frameOverheadBytes with
  | some requiredBytes => requiredBytes ≤ capacity.get
  | none => false

/-- `validate`. -/
def validate (configuration : RuntimeConfiguration) : Except ConfigurationViolation Unit := do
  let batchBytes := configuration.maximumHttpBatchBytes
  let spoolBytes := configuration.spoolCapacityBytes
  let scratchBytes := configuration.scratchCapacityBytes.get
  let resultBytes := configuration.maximumResultBytes.get
  ensure (¬ (configuration.maintenanceMode = .automatic ∧ configuration.maximumConnections.get < 2))
    .automaticMaintenanceRequiresTwoConnections
  ensure (SpoolCapacity.canReserve ⟨spoolBytes.get, spoolBytes.pos, spoolBytes.lt⟩
      ⟨batchBytes.get, batchBytes.pos, batchBytes.lt⟩)
    .maximumHttpBatchExceedsSpoolCapacity
  ensure (batchBytes.get ≤ scratchBytes) .maximumHttpBatchExceedsScratchCapacity
  ensure (resultBytes ≤ configuration.queryMemoryBytes.get) .maximumResultExceedsQueryMemory
  ensure (resultBytes ≤ scratchBytes) .maximumResultExceedsScratchCapacity
  ensure (configuration.spoolPath ≠ configuration.scratchPath) .spoolAndScratchPathsMustDiffer

/-! ## Bodies -/

def maximumHttpBatchRecords : Nat := 100000

/-- `BodyReadFailure`, as far as the chunks decide it. -/
inductive BodyReadFailure
  | invalid
  | limitExceeded
  deriving DecidableEq, Repr

/-- The loop of `read_bounded_ndjson` over the chunks, of which the transport may fail to
deliver one. Reserving the memory is assumed to succeed. -/
def readChunks (maximumBodyBytes maximumRecords : Nat) :
    Bytes → Nat → Nat → List (Option Bytes) → Except BodyReadFailure (Bytes × Nat)
  | bytes, _, framedRecords, [] => .ok (bytes, framedRecords)
  | _, _, _, none :: _ => .error .invalid
  | bytes, bodyBytes, framedRecords, some chunk :: rest => do
    let bodyBytes ← okOr (checkedAdd bodyBytes chunk.length) .limitExceeded
    ensure (bodyBytes ≤ maximumBodyBytes) .limitExceeded
    let framedRecords ← okOr (checkedAdd framedRecords (chunk.count 0x0A)) .limitExceeded
    ensure (framedRecords ≤ maximumRecords) .limitExceeded
    readChunks maximumBodyBytes maximumRecords (bytes ++ chunk) bodyBytes framedRecords rest

/-- `read_bounded_ndjson`. -/
def readBoundedNdjson (chunks : List (Option Bytes)) (maximumBodyBytes maximumRecords : Nat) :
    Except BodyReadFailure Bytes := do
  let read ← readChunks maximumBodyBytes maximumRecords [] 0 0 chunks
  let unterminated := read.1.getLast?.any (· ≠ 0x0A)
  let framedRecords ← okOr (checkedAdd read.2 unterminated.toNat) .limitExceeded
  ensure (framedRecords ≤ maximumRecords) .limitExceeded
  return read.1

/-- The lines of a body : its line feeds, and an unterminated last line. -/
def framedRecords (body : Bytes) : Nat :=
  body.count 0x0A + (body.getLast?.any (· ≠ 0x0A)).toNat

theorem readChunks_eq {maximumBodyBytes maximumRecords : Nat} (hbytes : maximumBodyBytes < 2 ^ 64)
    (hrecords : maximumRecords < 2 ^ 64) (chunks : List Bytes) {bytes : Bytes}
    (hlength : bytes.length ≤ maximumBodyBytes) (hcount : bytes.count 0x0A ≤ maximumRecords) :
    readChunks maximumBodyBytes maximumRecords bytes bytes.length (bytes.count 0x0A)
        (chunks.map some) =
      let body := bytes ++ chunks.flatten
      if body.length ≤ maximumBodyBytes ∧ body.count 0x0A ≤ maximumRecords then
        .ok (body, body.count 0x0A)
      else .error .limitExceeded := by
  induction chunks generalizing bytes with
  | nil => simp [readChunks, hlength, hcount]
  | cons chunk rest ih =>
    have hassoc : bytes ++ (chunk :: rest).flatten = (bytes ++ chunk) ++ rest.flatten := by simp
    have hlength' : (bytes ++ (chunk :: rest).flatten).length =
        bytes.length + chunk.length + rest.flatten.length := by simp [Nat.add_assoc]
    have hcount' : (bytes ++ (chunk :: rest).flatten).count 0x0A =
        bytes.count 0x0A + chunk.count 0x0A + rest.flatten.count 0x0A := by simp [Nat.add_assoc]
    rw [List.map_cons, readChunks]
    by_cases hfits : bytes.length + chunk.length ≤ maximumBodyBytes
    · rw [checkedAdd_of_lt (by omega), okOr_some, ok_bind, ensure_of hfits, ok_bind]
      by_cases hlines : bytes.count 0x0A + chunk.count 0x0A ≤ maximumRecords
      · rw [checkedAdd_of_lt (by omega), okOr_some, ok_bind, ensure_of hlines, ok_bind, hassoc,
          ← List.length_append, ← List.count_append]
        exact ih (by simpa using hfits) (by simpa using hlines)
      · refine .trans ?_ (if_neg (by omega)).symm
        cases hadd : checkedAdd (bytes.count 0x0A) (chunk.count 0x0A) with
        | none => rfl
        | some count =>
          have := (checkedAdd_eq_some hadd).1
          rw [okOr_some, ok_bind, ensure, if_neg (by omega)]
          rfl
    · refine .trans ?_ (if_neg (by omega)).symm
      cases hadd : checkedAdd bytes.length chunk.length with
      | none => rfl
      | some length =>
        have := (checkedAdd_eq_some hadd).1
        rw [okOr_some, ok_bind, ensure, if_neg (by omega)]
        rfl

/-- A body is read exactly if it is within both limits, whatever its chunks are. -/
theorem readBoundedNdjson_eq {maximumBodyBytes maximumRecords : Nat}
    (hbytes : maximumBodyBytes < 2 ^ 64) (hrecords : maximumRecords + 1 < 2 ^ 64)
    (chunks : List Bytes) :
    readBoundedNdjson (chunks.map some) maximumBodyBytes maximumRecords =
      if chunks.flatten.length ≤ maximumBodyBytes ∧
          framedRecords chunks.flatten ≤ maximumRecords then .ok chunks.flatten
      else .error .limitExceeded := by
  have hread := readChunks_eq hbytes (show maximumRecords < 2 ^ 64 by omega) chunks
    (List.length_nil (α := UInt8) ▸ Nat.zero_le _) (List.count_nil (α := UInt8) ▸ Nat.zero_le _)
  rw [List.nil_append] at hread
  rw [readBoundedNdjson]
  simp only [List.length_nil, List.count_nil] at hread
  rw [hread]
  have hle : (chunks.flatten.getLast?.any (· ≠ 0x0A)).toNat ≤ 1 := Bool.toNat_le _
  by_cases hfits : chunks.flatten.length ≤ maximumBodyBytes ∧
      chunks.flatten.count 0x0A ≤ maximumRecords
  · rw [if_pos hfits, ok_bind]
    dsimp only
    rw [checkedAdd_of_lt (by omega), okOr_some, ok_bind, ← framedRecords]
    by_cases hlines : framedRecords chunks.flatten ≤ maximumRecords
    · rw [ensure_of hlines, if_pos ⟨hfits.1, hlines⟩]
      rfl
    · rw [ensure, if_neg hlines, if_neg (fun h => hlines h.2)]
      rfl
  · rw [if_neg hfits]
    refine (if_neg fun h => hfits ⟨h.1, ?_⟩).symm
    exact le_trans (Nat.le_add_right _ _) h.2

end Elucid
