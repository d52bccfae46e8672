import Elucid.Admission
import Elucid.DeadLetterObject
import Elucid.SegmentMoves

/-!
# Capacity for a batch

A batch that was admitted has to be processed : an error while it is pushed into the
builders or while its dead letters are encoded stops the worker, which meets the same batch
again after every restart. Both limits come from the configured scratch capacity.

`noCapacityError_iff` says which batches are processed without a capacity error. Validation
compares the number of bytes of a body with the scratch capacity, but the sizes that count
are those of its rows and of its dead letters, and `poisonBody_exceeds` is a body of 7 bytes
whose only row is estimated larger than the 20 bytes of an accepted configuration.
-/

namespace Elucid

open BigEndian

/-- The staging capacity the worker gives its builders. -/
def RuntimeConfiguration.stagingCapacity (configuration : RuntimeConfiguration) :
    SegmentStagingCapacity :=
  ⟨configuration.scratchCapacityBytes.get, configuration.scratchCapacityBytes.pos,
    configuration.scratchCapacityBytes.lt⟩

def maximumSegmentBuilderMemoryBytes : Nat := 256 * 1024 * 1024

section Capacity

variable [Chrono] [SerdeJson] [Layout]

/-- Whatever the builders have gone through, pushing the batch does not fail for its size, and
neither does encoding its dead letters. -/
def NoCapacityError (configuration : RuntimeConfiguration) (batch : NormalizedBatch) : Prop :=
  (∀ builders, SegmentBuilders.Reachable configuration.stagingCapacity builders →
    ∀ observedAt, (∀ previous, builders.lastObservedAt = some previous → previous ≤ observedAt) →
      ∀ capacity estimatedBytes maximumBytes, builders.pushBatch batch observedAt ≠
        .error (.batchExceedsCapacity capacity estimatedBytes maximumBytes)) ∧
  encodeDeadLetters batch.deadLetters configuration.scratchCapacityBytes.get ≠
    .error .capacityExceeded

/-- The sizes of the rows do not exceed the memory of the builders nor the scratch capacity,
unless they cannot even be counted, and the documents of the dead letters fit the scratch
capacity. -/
def FitsCapacity (configuration : RuntimeConfiguration) (batch : NormalizedBatch) : Prop :=
  (rowsUncompressedBytes batch.acceptedRows < 2 ^ 64 → rowsResidentBytes batch.acceptedRows < 2 ^ 64 →
    rowsResidentBytes batch.acceptedRows ≤ maximumSegmentBuilderMemoryBytes ∧
      rowsUncompressedBytes batch.acceptedRows ≤ configuration.scratchCapacityBytes.get) ∧
  documentsBytes batch.deadLetters ≤ configuration.scratchCapacityBytes.get

theorem not_exceeds_iff (configuration : RuntimeConfiguration) (batch : NormalizedBatch) :
    ¬ SegmentBuilders.Exceeds (.standard configuration.stagingCapacity) batch ↔
      (rowsUncompressedBytes batch.acceptedRows < 2 ^ 64 →
        rowsResidentBytes batch.acceptedRows < 2 ^ 64 →
        rowsResidentBytes batch.acceptedRows ≤ maximumSegmentBuilderMemoryBytes ∧
          rowsUncompressedBytes batch.acceptedRows ≤ configuration.scratchCapacityBytes.get) := by
  simp only [SegmentBuilders.Exceeds, SegmentBuildLimits.standard, maximumSegmentBuilderMemoryBytes,
    RuntimeConfiguration.stagingCapacity, not_and, not_or, Nat.not_lt]

omit [Chrono] [Layout] in
/-- Encoding fails for the size exactly if the documents exceed the limit. -/
theorem encodeDeadLetters_ne_iff (entries : List DeadLetterEntry) {maximumBytes : Nat}
    (hmaximum : maximumBytes < 2 ^ 64) :
    encodeDeadLetters entries maximumBytes ≠ .error .capacityExceeded ↔
      documentsBytes entries ≤ maximumBytes := by
  by_cases hentries : entries = []
  · simp [hentries, encodeDeadLetters, ensure, documentsBytes]
  rw [encodeDeadLetters_eq hentries hmaximum]
  split <;> simp_all

theorem noCapacityError_iff_fitsCapacity (configuration : RuntimeConfiguration)
    (batch : NormalizedBatch) :
    NoCapacityError configuration batch ↔ FitsCapacity configuration batch := by
  refine and_congr ?_ (encodeDeadLetters_ne_iff _ configuration.scratchCapacityBytes.lt)
  rw [← not_exceeds_iff]
  constructor
  · -- the builders of a worker that has just started
    intro hnever hexceeds
    have hnew := SegmentBuilders.wellFormed_new configuration.stagingCapacity
    obtain ⟨capacity, bytes, maximum, hpush⟩ :=
      (SegmentBuilders.pushBatch_exceeds_iff hnew batch 0
        (fun _ hprevious => by cases hprevious)).mpr hexceeds
    exact hnever _ .new 0 (fun _ hprevious => by cases hprevious) capacity bytes maximum hpush
  · intro hnot builders hreachable observedAt htime capacity bytes maximum hpush
    obtain ⟨hwf, hlimits⟩ := hreachable.wellFormed
    exact hnot (hlimits ▸ (SegmentBuilders.pushBatch_exceeds_iff hwf batch observedAt htime).mp
      ⟨capacity, bytes, maximum, hpush⟩)

/-- The body of a batch, with the positions of recovered outputs removed, is processed without
a capacity error exactly if its rows and dead letters fit. -/
theorem noCapacityError_iff [Blake3] [ChronoText] [FloatText] [Base64]
    (configuration : RuntimeConfiguration) (metadata : BatchMetadata) (body : Bytes)
    (source : Source) (covered : List Nat) :
    (∀ batch, normalizeRecords metadata body source = .ok batch →
        NoCapacityError configuration (batch.removeCoveredPositions covered)) ↔
      ∀ batch, normalizeRecords metadata body source = .ok batch →
        FitsCapacity configuration (batch.removeCoveredPositions covered) :=
  forall₂_congr fun _ _ => noCapacityError_iff_fitsCapacity configuration _

end Capacity

/-! ## A poison batch -/

/-- A configuration with so many bytes for a body and for scratch. -/
def RuntimeConfiguration.sample (bytes : Measurement) : RuntimeConfiguration where
  maximumConnections := ⟨3, by decide, by decide⟩
  spoolPath := ["spool"]
  spoolCapacityBytes := ⟨4096, page_pos, page_lt⟩
  scratchPath := ["scratch"]
  scratchCapacityBytes := bytes
  maximumHttpBatchBytes := bytes
  queryMemoryBytes := bytes
  maximumResultBytes := bytes
  maintenanceMode := .automatic

/-- A record whose event time is the epoch, without a line feed. -/
def poisonBody : Bytes := [0x7B, 0x22, 0x74, 0x22, 0x3A, 0x30, 0x7D]

/-- An accepted configuration, a body it admits, and a capacity error for the only row. -/
theorem poisonBody_exceeds :
    letI := Chrono.unbounded
    letI := SerdeJson.plain
    letI := ChronoText.silent
    letI := FloatText.silent
    letI := Base64.empty
    letI := Blake3.constant
    letI := Layout.sample
    let configuration := RuntimeConfiguration.sample ⟨20, by decide, by decide⟩
    validate configuration = .ok () ∧
      readBoundedNdjson [some poisonBody] configuration.maximumHttpBatchBytes.get
        maximumHttpBatchRecords = .ok poisonBody ∧
      ∃ batch, normalizeRecords (BatchMetadata.sample 9) poisonBody Source.sample = .ok batch ∧
        (SegmentBuilders.new configuration.stagingCapacity).pushBatch batch 0 =
          .error (.batchExceedsCapacity .staging 33 20) :=
  ⟨by decide, by decide, _, rfl, rfl⟩

/-- The same body is processed with as much scratch as its row needs. -/
theorem noCapacityError_iff_poisonBody :
    letI := Chrono.unbounded
    letI := SerdeJson.plain
    letI := ChronoText.silent
    letI := FloatText.silent
    letI := Base64.empty
    letI := Blake3.constant
    letI := Layout.sample
    ∀ batch, normalizeRecords (BatchMetadata.sample 9) poisonBody Source.sample = .ok batch →
      NoCapacityError (.sample ⟨33, by decide, by decide⟩) (batch.removeCoveredPositions []) := by
  let _ := Chrono.unbounded
  let _ := SerdeJson.plain
  let _ := ChronoText.silent
  let _ := FloatText.silent
  let _ := Base64.empty
  let _ := Blake3.constant
  let _ := Layout.sample
  refine (noCapacityError_iff _ _ _ _ _).mpr fun batch hbatch => ?_
  obtain rfl := Except.ok.inj hbatch
  exact ⟨fun _ _ => ⟨by decide, by decide⟩, by decide⟩

end Elucid
