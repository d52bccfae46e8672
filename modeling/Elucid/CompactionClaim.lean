import Elucid.CatalogSchema
import Elucid.CompactionSelection
import Elucid.Processing

/-!
# The claim of a compaction

The metastore makes a claim of the inputs that it chose, and the compaction worker checks the
claim before it reads anything. Both compute the totals on their own, the worker against its own
limits.

`selection_validated` : if both have their limits from the same values, the worker accepts the
claim of every group that the metastore chooses among the candidates of its query.
-/

namespace Elucid

open List

namespace Compaction

variable {inputs : List CompactionInputSegment} {limits : CompactionClaimLimits}

/-! ## Claims -/

abbrev CompactionRunId := Uuid

structure CompactionRunClaim where
  runId : CompactionRunId
  sourceId : SourceId
  schema : Catalog.Schema
  eventDay : Int
  inputs : List CompactionInputSegment
  inputRows : Nat
  inputParquetBytes : Nat
  inputUncompressedBytes : Nat
  dataExpiresAt : Int

/-- The variables of the loop of `materialize_claim`. -/
structure ClaimTotals where
  inputRows : Nat
  inputParquetBytes : Nat
  inputUncompressedBytes : Nat
  dataExpiresAt : Int
  deriving DecidableEq

/-- One turn of the loop of `materialize_claim`. -/
def ClaimTotals.add (totals : ClaimTotals) (candidate : CompactionInputSegment) :
    Except CompactionMetadataError ClaimTotals := do
  let inputRows ← checkedSum totals.inputRows candidate.descriptor.rowCount
  let inputParquetBytes ←
    checkedSum totals.inputParquetBytes candidate.descriptor.object.expectedByteSize
  let inputUncompressedBytes ←
    checkedSum totals.inputUncompressedBytes candidate.descriptor.uncompressedBytes
  return ⟨inputRows, inputParquetBytes, inputUncompressedBytes,
    max totals.dataExpiresAt candidate.dataExpiresAt⟩

/-- `materialize_claim`. -/
def materializeClaim (runId : CompactionRunId) (schema : Catalog.Schema)
    (selected : List CompactionInputSegment) :
    Except CompactionMetadataError CompactionRunClaim := do
  let first ← okOr selected.head? (.corrupt "claimed compaction run has no input segments")
  ensure (2 ≤ selected.length ∧ schema.sourceId = first.key.sourceId ∧
      schema.id = first.key.schemaId ∧ ∀ candidate ∈ selected, candidate.key = first.key)
    (.corrupt "claimed compaction inputs are not one homogeneous group")
  let totals ← selected.foldlM ClaimTotals.add ⟨0, 0, 0, first.dataExpiresAt⟩
  return {
    runId, schema
    sourceId := schema.sourceId
    eventDay := first.key.eventDay
    inputs := selected
    inputRows := totals.inputRows
    inputParquetBytes := totals.inputParquetBytes
    inputUncompressedBytes := totals.inputUncompressedBytes
    dataExpiresAt := totals.dataExpiresAt }

/-! ## Limits of the worker -/

def maximumBuildInputSegments : Nat := 1000

def parquetMaxRowGroupRows : Nat := 8192

inductive CompactionBuildModelError
  | inputSegmentLimitOutOfRange (maximum : Nat)
  | byteAndRowLimitsMustBePositive
  | readerBatchRowsOutOfRange (maximum : Nat)
  | outputTargetExceedsInputLimit
  | outputObjectExceedsStagingLimit
  | maximumDurationInvalid
  deriving DecidableEq, Repr

structure CompactionBuildLimitConfiguration where
  maximumInputSegments : Nat
  maximumInputRows : Nat
  maximumInputParquetBytes : Nat
  maximumInputUncompressedBytes : Nat
  readerBatchRows : Nat
  targetOutputRows : Nat
  targetOutputUncompressedBytes : Nat
  maximumOutputParquetBytes : Nat
  maximumStagingBytes : Nat
  maximumDuration : Duration
  deriving DecidableEq, Repr

/-- `CompactionBuildLimits` : its fields are those of the configuration. -/
structure CompactionBuildLimits extends CompactionBuildLimitConfiguration

/-- `CompactionBuildLimits::new`. Whether the duration can be added to the time of the call is
`representable`. -/
def CompactionBuildLimits.new (representable : Duration → Bool)
    (configuration : CompactionBuildLimitConfiguration) :
    Except CompactionBuildModelError CompactionBuildLimits := do
  ensure (2 ≤ configuration.maximumInputSegments ∧
      configuration.maximumInputSegments ≤ maximumBuildInputSegments)
    (.inputSegmentLimitOutOfRange maximumBuildInputSegments)
  ensure (∀ value ∈ [configuration.maximumInputRows, configuration.maximumInputParquetBytes,
      configuration.maximumInputUncompressedBytes, configuration.targetOutputRows,
      configuration.targetOutputUncompressedBytes, configuration.maximumOutputParquetBytes,
      configuration.maximumStagingBytes], value ≠ 0)
    .byteAndRowLimitsMustBePositive
  ensure (configuration.readerBatchRows ≠ 0 ∧
      configuration.readerBatchRows ≤ parquetMaxRowGroupRows)
    (.readerBatchRowsOutOfRange parquetMaxRowGroupRows)
  ensure (configuration.targetOutputRows ≤ configuration.maximumInputRows ∧
      configuration.targetOutputUncompressedBytes ≤ configuration.maximumInputUncompressedBytes)
    .outputTargetExceedsInputLimit
  ensure (configuration.maximumOutputParquetBytes ≤ configuration.maximumStagingBytes)
    .outputObjectExceedsStagingLimit
  ensure ((configuration.maximumDuration.seconds ≠ 0 ∨
      configuration.maximumDuration.subsecNanos ≠ 0) ∧
        representable configuration.maximumDuration = true)
    .maximumDurationInvalid
  return ⟨configuration⟩

/-- The limits of a claim and those of the worker have the same values. -/
structure CompactionBuildLimitConfiguration.SameValues
    (build : CompactionBuildLimitConfiguration) (claim : CompactionClaimLimitConfiguration) :
    Prop where
  maximumInputSegments_eq : build.maximumInputSegments = claim.maximumInputSegments
  maximumInputRows_eq : build.maximumInputRows = claim.maximumInputRows
  maximumInputParquetBytes_eq : build.maximumInputParquetBytes = claim.maximumInputParquetBytes
  maximumInputUncompressedBytes_eq :
    build.maximumInputUncompressedBytes = claim.maximumInputUncompressedBytes
  targetOutputRows_eq : build.targetOutputRows = claim.targetOutputRows
  targetOutputUncompressedBytes_eq :
    build.targetOutputUncompressedBytes = claim.targetOutputUncompressedBytes

/-! ## The check of the worker -/

inductive CompactionErrorKind
  | inputInvalid
  | buildFailed
  | notBeneficial
  deriving DecidableEq, Repr

/-- `CompactionError`, as the check of a claim and the merge have it. -/
inductive CompactionError
  | input (message : String)
  | build (message : String)
  | notBeneficial (message : String)
  | outputStorage (kind : StorageErrorKind)
  deriving DecidableEq, Repr

/-- `CompactionError::kind`. -/
def CompactionError.kind : CompactionError → CompactionErrorKind
  | .input _ => .inputInvalid
  | .build _ | .outputStorage _ => .buildFailed
  | .notBeneficial _ => .notBeneficial

/-- A total of the inputs that the worker computes. -/
def tryTotal (size : CompactionInputSegment → Nat) (message : String)
    (inputs : List CompactionInputSegment) : Except CompactionError Nat :=
  inputs.foldlM (fun total input => okOr (checkedAdd total (size input)) (.input message)) 0

/-- `validate_claim`. -/
def validateClaim (claim : CompactionRunClaim) (limits : CompactionBuildLimits) :
    Except CompactionError Unit := do
  ensure (2 ≤ claim.inputs.length ∧ claim.inputs.length ≤ limits.maximumInputSegments)
    (.input "compaction claim has an invalid input segment count")
  ensure (claim.schema.sourceId = claim.sourceId ∧ ∀ input ∈ claim.inputs,
      input.descriptor.times.eventDay = claim.eventDay ∧
        input.descriptor.object.key.owner = .segment input.descriptor.segmentId)
    (.input "compaction claim is not homogeneous or has invalid object ownership")
  let recomputedRows ← tryTotal (·.descriptor.rowCount)
    "compaction input row total overflowed" claim.inputs
  let recomputedParquetBytes ← tryTotal (·.descriptor.object.expectedByteSize)
    "compaction input byte total overflowed" claim.inputs
  let recomputedUncompressedBytes ← tryTotal (·.descriptor.uncompressedBytes)
    "compaction input uncompressed total overflowed" claim.inputs
  let maximumDeadline ← okOr (claim.inputs.map (·.dataExpiresAt)).max?
    (.input "compaction claim has no retention deadline")
  ensure (∀ input ∈ claim.inputs, input.descriptor.rowCount < limits.targetOutputRows ∧
      input.descriptor.uncompressedBytes < limits.targetOutputUncompressedBytes)
    (.input "compaction claim contains a segment at or above the output target")
  let expectedOutputs := max (ceilingDividend recomputedRows limits.targetOutputRows)
    (ceilingDividend recomputedUncompressedBytes limits.targetOutputUncompressedBytes)
  ensure (claim.inputs.length ≠ 0 ∧ recomputedRows = claim.inputRows ∧
      recomputedParquetBytes = claim.inputParquetBytes ∧
      recomputedUncompressedBytes = claim.inputUncompressedBytes ∧
      recomputedRows ≤ limits.maximumInputRows ∧
      recomputedParquetBytes ≤ limits.maximumInputParquetBytes ∧
      recomputedUncompressedBytes ≤ limits.maximumInputUncompressedBytes ∧
      maximumDeadline = claim.dataExpiresAt)
    (.input "compaction claim totals exceed limits or contradict its inputs")
  ensure (expectedOutputs < claim.inputs.length)
    (.notBeneficial "compaction claim cannot produce fewer target-sized outputs")

/-! ## Totals of a claim -/

theorem tryTotal_eq (size : CompactionInputSegment → Nat) (message : String)
    (h : (inputs.map size).sum < 2 ^ 64) :
    tryTotal size message inputs = .ok (inputs.map size).sum := by
  suffices hfold : ∀ (inputs : List CompactionInputSegment) (total : Nat),
      total + (inputs.map size).sum < 2 ^ 64 →
      inputs.foldlM (fun total input => okOr (checkedAdd total (size input))
        (CompactionError.input message)) total = .ok (total + (inputs.map size).sum) by
    have hall := hfold inputs 0 (by rwa [Nat.zero_add])
    rwa [Nat.zero_add] at hall
  intro inputs
  induction inputs with
  | nil => exact fun total _ => rfl
  | cons input inputs ih =>
    intro total htotal
    rw [map_cons, sum_cons, ← Nat.add_assoc] at htotal ⊢
    rw [foldlM_cons, checkedAdd_of_lt (by omega), okOr_some]
    exact ih _ htotal

/-- A total that the worker has computed is the total. -/
theorem eq_of_tryTotal {size : CompactionInputSegment → Nat} {message : String} {total : Nat}
    (h : tryTotal size message inputs = .ok total) : (inputs.map size).sum = total := by
  suffices hfold : ∀ (inputs : List CompactionInputSegment) (start : Nat),
      inputs.foldlM (fun total input => okOr (checkedAdd total (size input))
        (CompactionError.input message)) start = .ok total →
      start + (inputs.map size).sum = total by
    have hall := hfold inputs 0 h
    rwa [Nat.zero_add] at hall
  intro inputs
  induction inputs with
  | nil => exact fun start hstart => Except.ok.inj hstart
  | cons input inputs ih =>
    intro start hstart
    rw [foldlM_cons] at hstart
    obtain ⟨next, hnext, hrest⟩ := bind_eq_ok.mp hstart
    obtain ⟨rfl, -⟩ := checkedAdd_eq_some (okOr_eq_ok hnext)
    rw [map_cons, sum_cons, ← Nat.add_assoc]
    exact ih _ hrest

/-- The totals of a claim, added to some that are there. -/
theorem ClaimTotals.foldlM_add (inputs : List CompactionInputSegment) (totals : ClaimTotals)
    (hrows : totals.inputRows + totalRows inputs < 2 ^ 64)
    (hparquet : totals.inputParquetBytes + totalParquetBytes inputs < 2 ^ 64)
    (huncompressed : totals.inputUncompressedBytes + totalUncompressedBytes inputs < 2 ^ 64) :
    inputs.foldlM ClaimTotals.add totals = .ok ⟨totals.inputRows + totalRows inputs,
      totals.inputParquetBytes + totalParquetBytes inputs,
      totals.inputUncompressedBytes + totalUncompressedBytes inputs,
      (inputs.map (·.dataExpiresAt)).foldl max totals.dataExpiresAt⟩ := by
  induction inputs generalizing totals with
  | nil => rfl
  | cons input inputs ih =>
    simp only [totalRows, totalParquetBytes, totalUncompressedBytes, map_cons,
      sum_cons, ← Nat.add_assoc] at hrows hparquet huncompressed ih ⊢
    rw [foldlM_cons, ClaimTotals.add, checkedSum_of_lt (by omega), ok_bind,
      checkedSum_of_lt (by omega), ok_bind, checkedSum_of_lt (by omega), ok_bind]
    exact ih _ hrows hparquet huncompressed

/-! ## Agreement -/

theorem ceilingDividend_pos {value : Nat} (hvalue : 0 < value) (divisor : Nat) :
    0 < ceilingDividend value divisor := by
  rw [ceilingDividend]
  split_ifs with hdivides
  · rw [Nat.add_zero]
    refine Nat.pos_of_ne_zero fun hzero => ?_
    have hvalue' := Nat.div_add_mod value divisor
    rw [hzero, hdivides, Nat.mul_zero] at hvalue'
    omega
  · exact Nat.succ_pos _

/-- One input is not worth it. -/
theorem CompactionClaimLimits.Beneficial.two_le_length (h : limits.Beneficial inputs) :
    2 ≤ inputs.length := by
  cases inputs with
  | nil => exact absurd h not_beneficial_nil
  | cons input inputs =>
    have hrows : 0 < totalRows (input :: inputs) := by
      rw [totalRows, map_cons, sum_cons]
      exact Nat.add_pos_left input.descriptor.rowCount_pos _
    have houtputs := ceilingDividend_pos hrows limits.targetOutputRows
    exact Nat.lt_of_le_of_lt (houtputs.trans_le (le_max_left _ _)) h

/-- The deadline of a claim is the greatest one. -/
theorem max?_cons_eq_foldl (first : Int) (rest : List Int) :
    (first :: rest).max? = some ((first :: rest).foldl max first) := by
  rw [max?_cons', foldl_cons, max_self]

/-- The claim of some inputs. -/
def claimOf (runId : CompactionRunId) (schema : Catalog.Schema)
    (first : CompactionInputSegment) (rest : List CompactionInputSegment) :
    CompactionRunClaim where
  runId := runId
  sourceId := schema.sourceId
  schema := schema
  eventDay := first.key.eventDay
  inputs := first :: rest
  inputRows := totalRows (first :: rest)
  inputParquetBytes := totalParquetBytes (first :: rest)
  inputUncompressedBytes := totalUncompressedBytes (first :: rest)
  dataExpiresAt := ((first :: rest).map (·.dataExpiresAt)).foldl max first.dataExpiresAt

section Agreement

variable {first : CompactionInputSegment} {rest : List CompactionInputSegment}
  {runId : CompactionRunId} {schema : Catalog.Schema}
variable {buildLimits : CompactionBuildLimits} {claim : CompactionRunClaim}

/-- The totals of inputs within the limits do not overflow. -/
theorem CompactionClaimLimits.Within.totals_lt (h : limits.Within inputs) :
    totalRows inputs < 2 ^ 63 ∧ totalParquetBytes inputs < 2 ^ 63 ∧
      totalUncompressedBytes inputs < 2 ^ 63 :=
  ⟨h.totalRows_le.trans_lt limits.maximumInputRows_lt,
    h.totalParquetBytes_le.trans_lt limits.maximumInputParquetBytes_lt,
    h.totalUncompressedBytes_le.trans_lt limits.maximumInputUncompressedBytes_lt⟩

theorem materializeClaim_eq (hwithin : limits.Within (first :: rest))
    (htwo : 2 ≤ (first :: rest).length) (hsource : schema.sourceId = first.key.sourceId)
    (hschema : schema.id = first.key.schemaId)
    (hkey : ∀ candidate ∈ first :: rest, candidate.key = first.key) :
    materializeClaim runId schema (first :: rest) = .ok (claimOf runId schema first rest) := by
  obtain ⟨hrows, hparquet, huncompressed⟩ := hwithin.totals_lt
  have htotals := ClaimTotals.foldlM_add (first :: rest) ⟨0, 0, 0, first.dataExpiresAt⟩
    (by rw [Nat.zero_add]; omega) (by rw [Nat.zero_add]; omega) (by rw [Nat.zero_add]; omega)
  simp only [Nat.zero_add] at htotals
  rw [materializeClaim, head?_cons, okOr_some, ok_bind,
    ensure_of ⟨htwo, hsource, hschema, hkey⟩, ok_bind, htotals]
  rfl

/-- What the worker checks of a claim with the right totals. -/
structure CompactionBuildLimits.Accepts (buildLimits : CompactionBuildLimits)
    (claim : CompactionRunClaim) : Prop where
  two_le_length : 2 ≤ claim.inputs.length
  length_le : claim.inputs.length ≤ buildLimits.maximumInputSegments
  source_eq : claim.schema.sourceId = claim.sourceId
  eventDay_eq : ∀ input ∈ claim.inputs, input.descriptor.times.eventDay = claim.eventDay
  rows_eq : totalRows claim.inputs = claim.inputRows
  parquetBytes_eq : totalParquetBytes claim.inputs = claim.inputParquetBytes
  uncompressedBytes_eq : totalUncompressedBytes claim.inputs = claim.inputUncompressedBytes
  deadline_eq : (claim.inputs.map (·.dataExpiresAt)).max? = some claim.dataExpiresAt
  below : ∀ input ∈ claim.inputs, input.descriptor.rowCount < buildLimits.targetOutputRows ∧
    input.descriptor.uncompressedBytes < buildLimits.targetOutputUncompressedBytes
  rows_le : claim.inputRows ≤ buildLimits.maximumInputRows
  parquetBytes_le : claim.inputParquetBytes ≤ buildLimits.maximumInputParquetBytes
  uncompressedBytes_le : claim.inputUncompressedBytes ≤ buildLimits.maximumInputUncompressedBytes
  beneficial : max (ceilingDividend claim.inputRows buildLimits.targetOutputRows)
    (ceilingDividend claim.inputUncompressedBytes buildLimits.targetOutputUncompressedBytes) <
      claim.inputs.length

theorem validateClaim_of_accepts (h : buildLimits.Accepts claim) (hrows : claim.inputRows < 2 ^ 64)
    (hparquet : claim.inputParquetBytes < 2 ^ 64)
    (huncompressed : claim.inputUncompressedBytes < 2 ^ 64) :
    validateClaim claim buildLimits = .ok () := by
  have hne : claim.inputs.length ≠ 0 := fun hzero =>
    absurd h.two_le_length (by rw [hzero]; decide)
  have htotal : tryTotal (·.descriptor.rowCount) "compaction input row total overflowed"
      claim.inputs = .ok claim.inputRows := by
    rw [← h.rows_eq] at hrows ⊢
    exact tryTotal_eq _ _ hrows
  have htotal' : tryTotal (·.descriptor.object.expectedByteSize)
      "compaction input byte total overflowed" claim.inputs = .ok claim.inputParquetBytes := by
    rw [← h.parquetBytes_eq] at hparquet ⊢
    exact tryTotal_eq _ _ hparquet
  have htotal'' : tryTotal (·.descriptor.uncompressedBytes)
      "compaction input uncompressed total overflowed" claim.inputs =
        .ok claim.inputUncompressedBytes := by
    rw [← h.uncompressedBytes_eq] at huncompressed ⊢
    exact tryTotal_eq _ _ huncompressed
  rw [validateClaim, ensure_of ⟨h.two_le_length, h.length_le⟩, ok_bind,
    ensure_of ⟨h.source_eq, fun input hinput => ⟨h.eventDay_eq input hinput,
      input.descriptor.owner_eq⟩⟩, ok_bind, htotal, ok_bind, htotal', ok_bind, htotal'', ok_bind,
    h.deadline_eq, okOr_some, ok_bind, ensure_of h.below, ok_bind]
  dsimp only
  rw [ensure_of ⟨hne, rfl, rfl, rfl, h.rows_le, h.parquetBytes_le, h.uncompressedBytes_le, rfl⟩,
    ok_bind, ensure_of h.beneficial]

/-- The worker accepts the claim of a homogeneous group within the limits that is worth it. -/
theorem accepts_claimOf (hsame : buildLimits.SameValues limits.toCompactionClaimLimitConfiguration)
    (hkey : ∀ candidate ∈ first :: rest, candidate.key = first.key)
    (hadmits : ∀ candidate ∈ first :: rest, limits.Admits candidate)
    (hwithin : limits.Within (first :: rest)) (hbeneficial : limits.Beneficial (first :: rest)) :
    buildLimits.Accepts (claimOf runId schema first rest) where
  two_le_length := hbeneficial.two_le_length
  length_le := hsame.maximumInputSegments_eq ▸ hwithin.length_le
  source_eq := rfl
  eventDay_eq input hinput := congrArg CandidateGroupKey.eventDay (hkey input hinput)
  rows_eq := rfl
  parquetBytes_eq := rfl
  uncompressedBytes_eq := rfl
  deadline_eq := max?_cons_eq_foldl _ _
  below input hinput := by
    rw [hsame.targetOutputRows_eq, hsame.targetOutputUncompressedBytes_eq]
    exact ⟨(hadmits input hinput).rowCount_lt, (hadmits input hinput).uncompressedBytes_lt⟩
  rows_le := hsame.maximumInputRows_eq ▸ hwithin.totalRows_le
  parquetBytes_le := hsame.maximumInputParquetBytes_eq ▸ hwithin.totalParquetBytes_le
  uncompressedBytes_le :=
    hsame.maximumInputUncompressedBytes_eq ▸ hwithin.totalUncompressedBytes_le
  beneficial := by
    rw [hsame.targetOutputRows_eq, hsame.targetOutputUncompressedBytes_eq]
    exact hbeneficial

/-- A claim that the worker accepts. -/
theorem accepts_of_validateClaim (h : validateClaim claim buildLimits = .ok ()) :
    buildLimits.Accepts claim := by
  obtain ⟨_, hlength, h⟩ := bind_eq_ok.mp h
  obtain ⟨_, hhomogeneous, h⟩ := bind_eq_ok.mp h
  obtain ⟨rows, hrows, h⟩ := bind_eq_ok.mp h
  obtain ⟨parquetBytes, hparquet, h⟩ := bind_eq_ok.mp h
  obtain ⟨uncompressedBytes, huncompressed, h⟩ := bind_eq_ok.mp h
  obtain ⟨deadline, hdeadline, h⟩ := bind_eq_ok.mp h
  obtain ⟨_, hbelow, h⟩ := bind_eq_ok.mp h
  obtain ⟨_, htotals, hbeneficial⟩ := bind_eq_ok.mp h
  obtain ⟨-, rfl, rfl, rfl, hrowsle, hparquetle, huncompressedle, rfl⟩ := ensure_eq_ok.mp htotals
  obtain ⟨hsource, hinputs⟩ := ensure_eq_ok.mp hhomogeneous
  exact {
    two_le_length := (ensure_eq_ok.mp hlength).1
    length_le := (ensure_eq_ok.mp hlength).2
    source_eq := hsource
    eventDay_eq := fun input hinput => (hinputs input hinput).1
    rows_eq := eq_of_tryTotal hrows
    parquetBytes_eq := eq_of_tryTotal hparquet
    uncompressedBytes_eq := eq_of_tryTotal huncompressed
    deadline_eq := okOr_eq_ok hdeadline
    below := ensure_eq_ok.mp hbelow
    rows_le := hrowsle
    parquetBytes_le := hparquetle
    uncompressedBytes_le := huncompressedle
    beneficial := ensure_eq_ok.mp hbeneficial }

theorem mem_membersOf {candidates : List CompactionInputSegment} {key : CandidateGroupKey}
    {candidate : CompactionInputSegment} (h : candidate ∈ membersOf candidates key) :
    candidate ∈ candidates ∧ candidate.key = key := by
  simpa [membersOf] using h

section Chosen

variable {candidates : List CompactionInputSegment} {key : CandidateGroupKey}

/-- What is chosen has the key of its group. -/
theorem LongestBeneficial.key_eq
    (h : LongestBeneficial limits (membersOf candidates key) (first :: rest)) :
    first.key = key ∧ ∀ candidate ∈ first :: rest, candidate.key = first.key := by
  have hkey : ∀ candidate ∈ first :: rest, candidate.key = key :=
    fun candidate hcandidate => (mem_membersOf (h.of_members.subset hcandidate)).2
  have hfirst := hkey first mem_cons_self
  exact ⟨hfirst, fun candidate hcandidate => (hkey candidate hcandidate).trans hfirst.symm⟩

/-- The worker accepts the claim of what is chosen among the candidates of the query. -/
theorem LongestBeneficial.validateClaim_claimOf
    (h : LongestBeneficial limits (membersOf candidates key) (first :: rest))
    (hadmits : ∀ candidate ∈ candidates, limits.Admits candidate)
    (hsame : buildLimits.SameValues limits.toCompactionClaimLimitConfiguration) :
    validateClaim (claimOf runId schema first rest) buildLimits = .ok () := by
  have hbound : (2 : Nat) ^ 63 < 2 ^ 64 := by decide
  obtain ⟨hrows, hparquet, huncompressed⟩ := h.within.totals_lt
  refine validateClaim_of_accepts ?_ (hrows.trans hbound) (hparquet.trans hbound)
    (huncompressed.trans hbound)
  exact accepts_claimOf hsame h.key_eq.2 (fun candidate hcandidate =>
    hadmits candidate (mem_membersOf (h.of_members.subset hcandidate)).1) h.within h.beneficial

/-- A claim is made only for the source and the schema of its group. -/
theorem schema_of_materializeClaim (h : materializeClaim runId schema (first :: rest) = .ok claim) :
    schema.sourceId = first.key.sourceId ∧ schema.id = first.key.schemaId := by
  obtain ⟨_, hfirst, h⟩ := bind_eq_ok.mp h
  cases hfirst
  obtain ⟨_, hgroup, -⟩ := bind_eq_ok.mp h
  obtain ⟨-, hsource, hschema, -⟩ := ensure_eq_ok.mp hgroup
  exact ⟨hsource, hschema⟩

/-- The worker accepts the claim that is made of a choice. -/
theorem validateClaim_of_selected {selected : List CompactionInputSegment}
    (hcandidates : ∀ candidate ∈ candidates, candidate.Stored ∧ limits.Admits candidate)
    (hselected : chooseCandidateGroup candidates limits = .ok (some selected))
    (hclaim : materializeClaim runId schema selected = .ok claim)
    (hsame : buildLimits.SameValues limits.toCompactionClaimLimitConfiguration) :
    validateClaim claim buildLimits = .ok () := by
  obtain ⟨result, hresult, hlongest, -⟩ :=
    chooseCandidateGroup_spec fun candidate hcandidate => (hcandidates candidate hcandidate).1
  obtain rfl := Except.ok.inj (hresult.symm.trans hselected)
  obtain ⟨key, hlongest⟩ := hlongest selected rfl
  cases selected with
  | nil => exact absurd hlongest.beneficial.two_le_length (by decide)
  | cons first rest =>
    obtain ⟨hsource, hschema⟩ := schema_of_materializeClaim hclaim
    rw [materializeClaim_eq hlongest.within hlongest.beneficial.two_le_length hsource hschema
      hlongest.key_eq.2] at hclaim
    cases hclaim
    exact hlongest.validateClaim_claimOf
      (fun candidate hcandidate => (hcandidates candidate hcandidate).2) hsame

end Chosen

end Agreement

theorem CompactionClaimLimits.configuration_of_new
    {configuration : CompactionClaimLimitConfiguration}
    (h : CompactionClaimLimits.new configuration = .ok limits) :
    limits.toCompactionClaimLimitConfiguration = configuration := by
  rw [CompactionClaimLimits.new] at h
  split_ifs at h
  cases h
  rfl

theorem CompactionBuildLimits.configuration_of_new {representable : Duration → Bool}
    {configuration : CompactionBuildLimitConfiguration} {limits : CompactionBuildLimits}
    (h : CompactionBuildLimits.new representable configuration = .ok limits) :
    limits.toCompactionBuildLimitConfiguration = configuration := by
  obtain ⟨_, -, h⟩ := bind_eq_ok.mp h
  obtain ⟨_, -, h⟩ := bind_eq_ok.mp h
  obtain ⟨_, -, h⟩ := bind_eq_ok.mp h
  obtain ⟨_, -, h⟩ := bind_eq_ok.mp h
  obtain ⟨_, -, h⟩ := bind_eq_ok.mp h
  obtain ⟨_, -, h⟩ := bind_eq_ok.mp h
  cases h
  rfl

/-- With limits from the same values, the choice among stored candidates is the longest
beneficial prefix within the limits of one homogeneous group, and there is none if and only if
no group has such a prefix. If the candidates are those that the query admits, the worker
accepts the claim of the choice. -/
theorem selection_validated {claimConfiguration : CompactionClaimLimitConfiguration}
    {buildConfiguration : CompactionBuildLimitConfiguration} {representable : Duration → Bool}
    {limits : CompactionClaimLimits} {buildLimits : CompactionBuildLimits}
    (hlimits : CompactionClaimLimits.new claimConfiguration = .ok limits)
    (hbuild : CompactionBuildLimits.new representable buildConfiguration = .ok buildLimits)
    (hsame : buildConfiguration.SameValues claimConfiguration)
    {candidates : List CompactionInputSegment}
    (hcandidates : ∀ candidate ∈ candidates, candidate.Stored) :
    ∃ result, chooseCandidateGroup candidates limits = .ok result ∧
      (∀ selected, result = some selected →
        ∃ key, LongestBeneficial limits (candidates.filter (·.key = key)) selected ∧
          ∀ (runId : CompactionRunId) (schema : Catalog.Schema),
            schema.sourceId = key.sourceId → schema.id = key.schemaId →
            ∃ claim, materializeClaim runId schema selected = .ok claim ∧
              claim.inputs = selected ∧
              ((∀ candidate ∈ candidates, limits.Admits candidate) →
                validateClaim claim buildLimits = .ok ())) ∧
      (result = none ↔ ∀ key inputs, inputs <+: candidates.filter (·.key = key) →
        limits.Within inputs → ¬limits.Beneficial inputs) := by
  obtain ⟨result, hresult, hselected, hnone⟩ := chooseCandidateGroup_spec hcandidates
  refine ⟨result, hresult, fun selected hsome => ?_, hnone⟩
  obtain ⟨key, hlongest⟩ := hselected selected hsome
  refine ⟨key, hlongest, fun runId schema hsource hschema => ?_⟩
  have htwo := hlongest.beneficial.two_le_length
  cases selected with
  | nil => exact absurd htwo (by decide)
  | cons first rest =>
    obtain ⟨hfirst, hkey⟩ := hlongest.key_eq
    have hsame' : buildLimits.SameValues limits.toCompactionClaimLimitConfiguration := by
      rw [CompactionClaimLimits.configuration_of_new hlimits,
        CompactionBuildLimits.configuration_of_new hbuild]
      exact hsame
    exact ⟨claimOf runId schema first rest, materializeClaim_eq hlongest.within htwo
      (hfirst ▸ hsource) (hfirst ▸ hschema) hkey, rfl,
      fun hadmits => hlongest.validateClaim_claimOf hadmits hsame'⟩

section Sample

/-- Up to three inputs become outputs of at most five rows and five hundred bytes. -/
def claimConfiguration : CompactionClaimLimitConfiguration :=
  ⟨10, 3, 1000, 1000000, 1000000, 5, 500, ⟨1, 0⟩⟩

/-- The limits of the configuration. -/
def CompactionClaimLimits.sample : CompactionClaimLimits :=
  ⟨claimConfiguration, by decide, by decide, by decide, by decide⟩

/-- The worker with the same values. -/
def buildConfiguration : CompactionBuildLimitConfiguration :=
  ⟨3, 1000, 1000000, 1000000, 1, 5, 500, 1000000, 1000000, ⟨1, 0⟩⟩

/-- An input of one row, with an object of its own. -/
def CompactionInputSegment.sample (n : UInt8) : CompactionInputSegment where
  descriptor := {
    segmentId := (UuidV7.sample n).uuid
    sourceId := UuidV7.sample 10
    schemaId := UuidV7.sample 11
    times := .epoch
    rowCount := 1
    uncompressedBytes := 100
    object := ⟨.parquet ⟨"root"⟩ (UuidV7.sample n).uuid (UuidV7.sample n).uuid, 1000, .zero,
      .parquetData, 1, Eq.refl _, Nat.succ_pos _⟩
    rowCount_pos := Nat.one_pos
    uncompressedBytes_pos := Nat.succ_pos _
    owner_eq := Eq.refl _ }
  dataExpiresAt := 0
  publishedAt := 0

theorem stored_sample (n : UInt8) : (CompactionInputSegment.sample n).Stored ∧
    CompactionClaimLimits.sample.Admits (.sample n) := by
  refine ⟨⟨?_, ?_, ?_⟩, ?_, ?_, ?_⟩ <;> simp only [CompactionInputSegment.sample] <;> decide

/-- Two inputs are chosen, and the worker accepts their claim. -/
theorem selection_validated_pair :
    chooseCandidateGroup [.sample 1, .sample 2] .sample = .ok (some [.sample 1, .sample 2]) ∧
    ∃ claim, materializeClaim (UuidV7.sample 3).uuid .first [.sample 1, .sample 2] = .ok claim ∧
      validateClaim claim ⟨buildConfiguration⟩ = .ok () := by
  have hchoice : chooseCandidateGroup [.sample 1, .sample 2] .sample =
      .ok (some [.sample 1, .sample 2]) := by decide +kernel
  have hcandidates : ∀ candidate ∈ [CompactionInputSegment.sample 1, .sample 2],
      candidate.Stored ∧ CompactionClaimLimits.sample.Admits candidate := by
    intro candidate hcandidate
    rcases mem_pair.mp hcandidate with rfl | rfl <;> exact stored_sample _
  have hlimits : CompactionClaimLimits.new claimConfiguration = .ok .sample := rfl
  have hbuild : CompactionBuildLimits.new (fun _ => true) buildConfiguration =
      .ok ⟨buildConfiguration⟩ := rfl
  have hsame : buildConfiguration.SameValues claimConfiguration := ⟨rfl, rfl, rfl, rfl, rfl, rfl⟩
  obtain ⟨result, hresult, hselected, -⟩ := selection_validated hlimits hbuild hsame
    fun candidate hcandidate => (hcandidates candidate hcandidate).1
  obtain rfl : result = some [.sample 1, .sample 2] := Except.ok.inj (hresult.symm.trans hchoice)
  obtain ⟨key, hlongest, hclaim⟩ := hselected _ rfl
  have hkey : (CompactionInputSegment.sample 1).key = key :=
    (mem_membersOf (hlongest.of_members.subset mem_cons_self)).2
  obtain ⟨claim, hmaterialized, -, hvalid⟩ :=
    hclaim (UuidV7.sample 3).uuid .first (hkey ▸ rfl) (hkey ▸ rfl)
  exact ⟨hchoice, claim, hmaterialized,
    hvalid fun candidate hcandidate => (hcandidates candidate hcandidate).2⟩

end Sample

end Compaction

end Elucid
