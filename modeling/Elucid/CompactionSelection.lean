import Elucid.OutputRecord

/-!
# The inputs of a compaction

The metastore groups the candidates of a compaction by source, schema and event day, in the
order in which the query returns them. A group takes candidates until one does not fit the
limits, and remembers the last length at which it was worth it : rewriting that many segments
gives fewer of them. The first group with such a length is claimed.

`Summarizes` says what a group knows about the candidates of its key. `chooseCandidateGroup_spec`
: for stored candidates the choice does not fail, what it returns is the longest prefix of one
group that is within the limits and worth it, and it returns nothing only if no group has such a
prefix.
-/

namespace Elucid

open List

namespace Compaction

variable {limits : CompactionClaimLimits} {seen : List CompactionInputSegment}
  {candidate : CompactionInputSegment}

/-! ## Limits -/

def maximumCompactionCandidateSegments : Nat := 10000

def maximumCompactionInputSegments : Nat := 1000

/-- `CompactionModelError`, as far as the limits of a claim have it. -/
inductive CompactionModelError
  | candidateSegmentLimitOutOfRange (maximum : Nat)
  | inputSegmentLimitOutOfRange (maximum : Nat)
  | candidateLimitBelowInputLimit
  | byteAndRowLimitsMustBePositive
  | limitOutOfDatabaseRange
  | minimumRetentionMustBeWholePositiveSeconds
  | minimumRetentionOutOfRange
  deriving DecidableEq, Repr

structure Duration where
  seconds : Nat
  subsecNanos : Nat
  deriving DecidableEq, Repr

structure CompactionClaimLimitConfiguration where
  maximumCandidateSegments : Nat
  maximumInputSegments : Nat
  maximumInputRows : Nat
  maximumInputParquetBytes : Nat
  maximumInputUncompressedBytes : Nat
  targetOutputRows : Nat
  targetOutputUncompressedBytes : Nat
  minimumRetention : Duration
  deriving DecidableEq, Repr

/-- The values that `CompactionClaimLimits::new` makes sure are in the range of a `BIGINT`. -/
def CompactionClaimLimitConfiguration.databaseValues
    (configuration : CompactionClaimLimitConfiguration) : List Nat :=
  [configuration.maximumInputRows, configuration.maximumInputParquetBytes,
    configuration.maximumInputUncompressedBytes, configuration.targetOutputRows,
    configuration.targetOutputUncompressedBytes]

structure CompactionClaimLimits extends CompactionClaimLimitConfiguration where
  two_le_segments : 2 ≤ maximumInputSegments
  segments_le : maximumInputSegments ≤ maximumCompactionInputSegments
  databaseValues_pos : ∀ value ∈ toCompactionClaimLimitConfiguration.databaseValues, value ≠ 0
  databaseValues_lt : ∀ value ∈ toCompactionClaimLimitConfiguration.databaseValues,
    value < 2 ^ 63

/-- `CompactionClaimLimits::new`. -/
def CompactionClaimLimits.new (configuration : CompactionClaimLimitConfiguration) :
    Except CompactionModelError CompactionClaimLimits :=
  if configuration.maximumCandidateSegments = 0 ∨
      maximumCompactionCandidateSegments < configuration.maximumCandidateSegments then
    .error (.candidateSegmentLimitOutOfRange maximumCompactionCandidateSegments)
  else if hsegments : configuration.maximumInputSegments < 2 ∨
      maximumCompactionInputSegments < configuration.maximumInputSegments then
    .error (.inputSegmentLimitOutOfRange maximumCompactionInputSegments)
  else if configuration.maximumCandidateSegments < configuration.maximumInputSegments then
    .error .candidateLimitBelowInputLimit
  else if hpositive : ∀ value ∈ configuration.databaseValues, value ≠ 0 then
    if (configuration.minimumRetention.seconds = 0 ∧
          configuration.minimumRetention.subsecNanos = 0) ∨
        configuration.minimumRetention.subsecNanos ≠ 0 then
      .error .minimumRetentionMustBeWholePositiveSeconds
    else if configuration.minimumRetention.seconds < 2 ^ 63 then
      if hrange : ∀ value ∈ configuration.databaseValues, value < 2 ^ 63 then
        .ok ⟨configuration, not_lt.mp (not_or.mp hsegments).1, not_lt.mp (not_or.mp hsegments).2,
          hpositive, hrange⟩
      else .error .limitOutOfDatabaseRange
    else .error .minimumRetentionOutOfRange
  else .error .byteAndRowLimitsMustBePositive

/-! ## Candidates and groups -/

/-- `CompactionMetadataError`, by its kind and message. -/
inductive CompactionMetadataError
  | conflict (message : String)
  | corrupt (message : String)
  deriving DecidableEq, Repr

/-- `CompactionInputSegment`, with times in microseconds. -/
structure CompactionInputSegment where
  descriptor : SegmentDescriptor
  dataExpiresAt : Int
  publishedAt : Int
  deriving DecidableEq

/-- The sizes of a candidate come from columns of the type `BIGINT`. -/
structure CompactionInputSegment.Stored (candidate : CompactionInputSegment) : Prop where
  rowCount_lt : candidate.descriptor.rowCount < 2 ^ 63
  uncompressedBytes_lt : candidate.descriptor.uncompressedBytes < 2 ^ 63
  expectedByteSize_lt : candidate.descriptor.object.expectedByteSize < 2 ^ 63

def checkedSum (left right : Nat) : Except CompactionMetadataError Nat :=
  okOr (checkedAdd left right) (.corrupt "compaction resource total overflowed")

def ceilingDividend (value divisor : Nat) : Nat :=
  value / divisor + if value % divisor = 0 then 0 else 1

structure CandidateGroupKey where
  sourceId : SourceId
  schemaId : SchemaId
  eventDay : Int
  deriving DecidableEq

/-- `CandidateGroupKey::from`. -/
def CandidateGroupKey.of (descriptor : SegmentDescriptor) : CandidateGroupKey :=
  ⟨descriptor.sourceId, descriptor.schemaId, descriptor.times.eventDay⟩

/-- The key of the group of a candidate. -/
def CompactionInputSegment.key (candidate : CompactionInputSegment) : CandidateGroupKey :=
  .of candidate.descriptor

structure CandidateGroup where
  key : CandidateGroupKey
  candidates : List CompactionInputSegment
  inputRows : Nat
  inputParquetBytes : Nat
  inputUncompressedBytes : Nat
  beneficialPrefixLength : Option Nat
  stopped : Bool

namespace CandidateGroup

/-- `CandidateGroup::new`. -/
def new (key : CandidateGroupKey) : CandidateGroup := ⟨key, [], 0, 0, 0, none, false⟩

/-- `CandidateGroup::consider`. -/
def consider (group : CandidateGroup) (candidate : CompactionInputSegment)
    (limits : CompactionClaimLimits) : Except CompactionMetadataError CandidateGroup :=
  if group.stopped then .ok group
  else if candidate.key ≠ group.key then
    .error (.corrupt "candidate was routed to a different compaction group")
  else if group.candidates.length = limits.maximumInputSegments then
    .ok { group with stopped := true }
  else do
    let inputRows ← checkedSum group.inputRows candidate.descriptor.rowCount
    let inputParquetBytes ←
      checkedSum group.inputParquetBytes candidate.descriptor.object.expectedByteSize
    let inputUncompressedBytes ←
      checkedSum group.inputUncompressedBytes candidate.descriptor.uncompressedBytes
    if limits.maximumInputRows < inputRows ∨
        limits.maximumInputParquetBytes < inputParquetBytes ∨
        limits.maximumInputUncompressedBytes < inputUncompressedBytes then
      return { group with stopped := true }
    else
      let candidates := group.candidates ++ [candidate]
      let expectedOutputs := max (ceilingDividend inputRows limits.targetOutputRows)
        (ceilingDividend inputUncompressedBytes limits.targetOutputUncompressedBytes)
      return { group with
        candidates, inputRows, inputParquetBytes, inputUncompressedBytes
        beneficialPrefixLength :=
          if expectedOutputs < candidates.length then some candidates.length
          else group.beneficialPrefixLength }

end CandidateGroup

/-- One candidate goes to the group of its key, which is made if there is none. The source finds
it through a map from keys to indexes. -/
def route (limits : CompactionClaimLimits) (candidate : CompactionInputSegment) :
    List CandidateGroup → Except CompactionMetadataError (List CandidateGroup)
  | [] => ((CandidateGroup.new candidate.key).consider candidate limits).map fun group => [group]
  | group :: groups =>
    if group.key = candidate.key then
      (group.consider candidate limits).map fun group => group :: groups
    else (route limits candidate groups).map fun groups => group :: groups

/-- The prefix of a group that is worth it. -/
def CandidateGroup.selection (group : CandidateGroup) : Option (List CompactionInputSegment) :=
  group.beneficialPrefixLength.map fun length => group.candidates.take length

def chooseCandidateGroup (candidates : List CompactionInputSegment)
    (limits : CompactionClaimLimits) :
    Except CompactionMetadataError (Option (List CompactionInputSegment)) := do
  let groups ← candidates.foldlM (fun groups candidate => route limits candidate groups) []
  return groups.findSome? (·.selection)

/-! ## What a group is worth -/

/-- The rows of some inputs. -/
def totalRows (inputs : List CompactionInputSegment) : Nat :=
  (inputs.map (·.descriptor.rowCount)).sum

/-- The bytes of the objects of some inputs. -/
def totalParquetBytes (inputs : List CompactionInputSegment) : Nat :=
  (inputs.map (·.descriptor.object.expectedByteSize)).sum

/-- The estimated bytes of some inputs. -/
def totalUncompressedBytes (inputs : List CompactionInputSegment) : Nat :=
  (inputs.map (·.descriptor.uncompressedBytes)).sum

namespace CompactionClaimLimits

variable (limits : CompactionClaimLimits)

/-- What the query for candidates requires of the sizes. -/
structure Admits (candidate : CompactionInputSegment) : Prop where
  rowCount_lt : candidate.descriptor.rowCount < limits.targetOutputRows
  uncompressedBytes_lt :
    candidate.descriptor.uncompressedBytes < limits.targetOutputUncompressedBytes
  expectedByteSize_le :
    candidate.descriptor.object.expectedByteSize ≤ limits.maximumInputParquetBytes

/-- Some inputs are within the limits. -/
structure Within (inputs : List CompactionInputSegment) : Prop where
  length_le : inputs.length ≤ limits.maximumInputSegments
  totalRows_le : totalRows inputs ≤ limits.maximumInputRows
  totalParquetBytes_le : totalParquetBytes inputs ≤ limits.maximumInputParquetBytes
  totalUncompressedBytes_le :
    totalUncompressedBytes inputs ≤ limits.maximumInputUncompressedBytes

/-- Outputs of the target sizes are fewer than the inputs. -/
def Beneficial (inputs : List CompactionInputSegment) : Prop :=
  max (ceilingDividend (totalRows inputs) limits.targetOutputRows)
    (ceilingDividend (totalUncompressedBytes inputs) limits.targetOutputUncompressedBytes) <
      inputs.length

instance (inputs : List CompactionInputSegment) : Decidable (limits.Beneficial inputs) :=
  inferInstanceAs (Decidable (_ < _))

theorem maximumInputRows_lt : limits.maximumInputRows < 2 ^ 63 :=
  limits.databaseValues_lt _ (by simp [CompactionClaimLimitConfiguration.databaseValues])

theorem maximumInputParquetBytes_lt : limits.maximumInputParquetBytes < 2 ^ 63 :=
  limits.databaseValues_lt _ (by simp [CompactionClaimLimitConfiguration.databaseValues])

theorem maximumInputUncompressedBytes_lt : limits.maximumInputUncompressedBytes < 2 ^ 63 :=
  limits.databaseValues_lt _ (by simp [CompactionClaimLimitConfiguration.databaseValues])

end CompactionClaimLimits

theorem checkedSum_of_lt {left right : Nat} (h : left + right < 2 ^ 64) :
    checkedSum left right = .ok (left + right) := by
  rw [checkedSum, checkedAdd_of_lt h, okOr_some]

section Totals

variable (inputs rest : List CompactionInputSegment)

theorem totalRows_append : totalRows (inputs ++ rest) = totalRows inputs + totalRows rest := by
  rw [totalRows, totalRows, totalRows, map_append, sum_append]

theorem totalParquetBytes_append :
    totalParquetBytes (inputs ++ rest) = totalParquetBytes inputs + totalParquetBytes rest := by
  rw [totalParquetBytes, totalParquetBytes, totalParquetBytes, map_append, sum_append]

theorem totalUncompressedBytes_append : totalUncompressedBytes (inputs ++ rest) =
    totalUncompressedBytes inputs + totalUncompressedBytes rest := by
  rw [totalUncompressedBytes, totalUncompressedBytes, totalUncompressedBytes, map_append,
    sum_append]

variable (input : CompactionInputSegment)

theorem totalRows_singleton : totalRows [input] = input.descriptor.rowCount :=
  sum_singleton

theorem totalParquetBytes_singleton :
    totalParquetBytes [input] = input.descriptor.object.expectedByteSize :=
  sum_singleton

theorem totalUncompressedBytes_singleton :
    totalUncompressedBytes [input] = input.descriptor.uncompressedBytes :=
  sum_singleton

end Totals

namespace CompactionClaimLimits

variable {inputs rest : List CompactionInputSegment}

theorem within_nil : limits.Within [] :=
  ⟨Nat.zero_le _, Nat.zero_le _, Nat.zero_le _, Nat.zero_le _⟩

theorem not_beneficial_nil : ¬limits.Beneficial [] := Nat.not_lt_zero _

theorem Within.of_append (h : limits.Within (inputs ++ rest)) : limits.Within inputs := by
  obtain ⟨hlength, hrows, hparquet, huncompressed⟩ := h
  rw [length_append] at hlength
  rw [totalRows_append] at hrows
  rw [totalParquetBytes_append] at hparquet
  rw [totalUncompressedBytes_append] at huncompressed
  constructor <;> omega

end CompactionClaimLimits

/-! ## What a group knows -/

/-- The last length at which a prefix is worth it. -/
def LastBeneficial (limits : CompactionClaimLimits) (inputs : List CompactionInputSegment) :
    Option Nat → Prop
  | none => ∀ length ≤ inputs.length, ¬limits.Beneficial (inputs.take length)
  | some last => last ≤ inputs.length ∧ limits.Beneficial (inputs.take last) ∧
      ∀ length, last < length → length ≤ inputs.length →
        ¬limits.Beneficial (inputs.take length)

/-- A further input, and the length if it is worth it. -/
theorem LastBeneficial.append {inputs : List CompactionInputSegment} {last : Option Nat}
    (h : LastBeneficial limits inputs last) (input : CompactionInputSegment) :
    LastBeneficial limits (inputs ++ [input])
      (if limits.Beneficial (inputs ++ [input]) then some (inputs ++ [input]).length
        else last) := by
  have htake : ∀ length ≤ inputs.length, (inputs ++ [input]).take length = inputs.take length :=
    fun length hle => take_append_of_le_length hle
  have hlength : (inputs ++ [input]).length = inputs.length + 1 := length_append
  split_ifs with hbeneficial
  · refine ⟨le_rfl, ?_, fun length hlt hle => absurd hle (not_le.mpr hlt)⟩
    rwa [take_length]
  · cases last with
    | none =>
      intro length hle
      rcases Nat.lt_or_ge inputs.length length with hlt | hge
      · obtain rfl : length = (inputs ++ [input]).length := by omega
        rwa [take_length]
      · rw [htake length hge]
        exact h length hge
    | some last =>
      obtain ⟨hle, hlast, hafter⟩ := h
      refine ⟨by omega, ?_, fun length hlt hle' => ?_⟩
      · rwa [htake last hle]
      · rcases Nat.lt_or_ge inputs.length length with hlt' | hge
        · obtain rfl : length = (inputs ++ [input]).length := by omega
          rwa [take_length]
        · rw [htake length hge]
          exact hafter length hlt hge

/-- What a group knows about the candidates of its key : it has taken all of them, or those in
front of the first one that does not fit. -/
structure Summarizes (limits : CompactionClaimLimits) (members : List CompactionInputSegment)
    (group : CandidateGroup) : Prop where
  within : limits.Within group.candidates
  inputRows_eq : group.inputRows = totalRows group.candidates
  inputParquetBytes_eq : group.inputParquetBytes = totalParquetBytes group.candidates
  inputUncompressedBytes_eq :
    group.inputUncompressedBytes = totalUncompressedBytes group.candidates
  last : LastBeneficial limits group.candidates group.beneficialPrefixLength
  taken : group.stopped = false → members = group.candidates
  stopped : group.stopped = true → ∃ next rest, members = group.candidates ++ next :: rest ∧
    ¬limits.Within (group.candidates ++ [next])

namespace Summarizes

variable {members : List CompactionInputSegment} {group : CandidateGroup}

theorem new (limits : CompactionClaimLimits) (key : CandidateGroupKey) :
    Summarizes limits [] (.new key) where
  within := CompactionClaimLimits.within_nil
  inputRows_eq := rfl
  inputParquetBytes_eq := rfl
  inputUncompressedBytes_eq := rfl
  last length _ := by
    rw [show (CandidateGroup.new key).candidates = [] from rfl, take_nil]
    exact CompactionClaimLimits.not_beneficial_nil
  taken _ := rfl
  stopped h := Bool.noConfusion h

/-- A group that stops in front of a candidate. -/
theorem stop (h : Summarizes limits members group) (hrunning : group.stopped = false)
    (hcandidate : ¬limits.Within (group.candidates ++ [candidate])) :
    Summarizes limits (members ++ [candidate]) { group with stopped := true } :=
  { h with
    taken := fun hstopped => Bool.noConfusion hstopped
    stopped := fun _ => ⟨candidate, [], by rw [h.taken hrunning], hcandidate⟩ }

/-- The candidates of a group are the first ones of its key. -/
theorem exists_append (h : Summarizes limits members group) :
    ∃ rest, members = group.candidates ++ rest := by
  cases hstopped : group.stopped with
  | false => exact ⟨[], by rw [append_nil, h.taken hstopped]⟩
  | true =>
    obtain ⟨next, rest, hmembers, -⟩ := h.stopped hstopped
    exact ⟨next :: rest, hmembers⟩

/-- A prefix within the limits has been taken. -/
theorem length_le_of_within (h : Summarizes limits members group)
    {inputs : List CompactionInputSegment} (hinputs : inputs <+: members)
    (hwithin : limits.Within inputs) : inputs.length ≤ group.candidates.length := by
  cases hstopped : group.stopped with
  | false => exact h.taken hstopped ▸ hinputs.length_le
  | true =>
    obtain ⟨next, rest, hmembers, hnext⟩ := h.stopped hstopped
    by_contra hlt
    have hmore : group.candidates ++ [next] <+: inputs := by
      refine prefix_of_prefix_length_le ?_ hinputs ?_
      · rw [hmembers]
        exact ⟨rest, by simp⟩
      · rw [length_append, length_singleton]
        omega
    obtain ⟨more, rfl⟩ := hmore
    exact hnext hwithin.of_append

/-- The totals do not overflow with a further candidate. -/
theorem sums_lt (h : Summarizes limits members group) (hstored : candidate.Stored) :
    group.inputRows + candidate.descriptor.rowCount < 2 ^ 64 ∧
      group.inputParquetBytes + candidate.descriptor.object.expectedByteSize < 2 ^ 64 ∧
      group.inputUncompressedBytes + candidate.descriptor.uncompressedBytes < 2 ^ 64 := by
  obtain ⟨-, hrows, hparquet, huncompressed⟩ := h.within
  obtain ⟨hrow, hbytes, hobject⟩ := hstored
  have := limits.maximumInputRows_lt
  have := limits.maximumInputParquetBytes_lt
  have := limits.maximumInputUncompressedBytes_lt
  rw [h.inputRows_eq, h.inputParquetBytes_eq, h.inputUncompressedBytes_eq]
  omega

/-- `CandidateGroup::consider` keeps what a group knows. -/
theorem consider (h : Summarizes limits members group) (hkey : candidate.key = group.key)
    (hstored : candidate.Stored) :
    ∃ next, group.consider candidate limits = .ok next ∧ next.key = group.key ∧
      Summarizes limits (members ++ [candidate]) next := by
  rw [CandidateGroup.consider]
  cases hrunning : group.stopped with
  | true =>
    refine ⟨group, rfl, rfl, { h with taken := ?_, stopped := fun _ => ?_ }⟩
    · rw [hrunning]
      exact fun hfalse => Bool.noConfusion hfalse
    · obtain ⟨next, rest, hmembers, hnext⟩ := h.stopped hrunning
      exact ⟨next, rest ++ [candidate], by rw [hmembers, append_assoc, cons_append],
        hnext⟩
  | false =>
    rw [if_neg Bool.false_ne_true, if_neg (not_not_intro hkey)]
    by_cases hlength : group.candidates.length = limits.maximumInputSegments
    · refine ⟨_, if_pos hlength, rfl, h.stop hrunning fun hwithin => ?_⟩
      have hle := hwithin.length_le
      rw [length_append, length_singleton] at hle
      omega
    · have hrows : group.inputRows + candidate.descriptor.rowCount =
          totalRows (group.candidates ++ [candidate]) := by
        rw [h.inputRows_eq, totalRows_append, totalRows_singleton]
      have hparquet : group.inputParquetBytes + candidate.descriptor.object.expectedByteSize =
          totalParquetBytes (group.candidates ++ [candidate]) := by
        rw [h.inputParquetBytes_eq, totalParquetBytes_append, totalParquetBytes_singleton]
      have huncompressed : group.inputUncompressedBytes + candidate.descriptor.uncompressedBytes =
          totalUncompressedBytes (group.candidates ++ [candidate]) := by
        rw [h.inputUncompressedBytes_eq, totalUncompressedBytes_append,
          totalUncompressedBytes_singleton]
      obtain ⟨hrowsum, hparquetsum, huncompressedsum⟩ := h.sums_lt hstored
      rw [if_neg hlength, checkedSum_of_lt hrowsum, ok_bind, checkedSum_of_lt hparquetsum, ok_bind,
        checkedSum_of_lt huncompressedsum, ok_bind, hrows, hparquet, huncompressed]
      split_ifs with hexceeds
      · refine ⟨_, rfl, rfl, h.stop hrunning fun hwithin => ?_⟩
        obtain ⟨-, hrows, hparquet, huncompressed⟩ := hwithin
        omega
      · obtain ⟨hrows, hparquet, huncompressed⟩ := not_or.mp hexceeds |>.imp_right not_or.mp
        refine ⟨_, rfl, rfl, ?_⟩
        exact {
          within := ⟨by
            have hle := h.within.length_le
            rw [length_append, length_singleton]
            omega, not_lt.mp hrows, not_lt.mp hparquet, not_lt.mp huncompressed⟩
          inputRows_eq := rfl
          inputParquetBytes_eq := rfl
          inputUncompressedBytes_eq := rfl
          last := h.last.append candidate
          taken := fun _ => by rw [h.taken hrunning]
          stopped := fun hstopped => Bool.noConfusion hstopped }

end Summarizes

/-! ## The choice -/

/-- The candidates with a key. -/
def membersOf (candidates : List CompactionInputSegment) (key : CandidateGroupKey) :
    List CompactionInputSegment :=
  candidates.filter (·.key = key)

/-- There is one group for each key, and it knows the candidates of the key. -/
structure Tracks (limits : CompactionClaimLimits) (seen : List CompactionInputSegment)
    (groups : List CandidateGroup) : Prop where
  nodup : (groups.map (·.key)).Nodup
  summarizes : ∀ group ∈ groups, Summarizes limits (membersOf seen group.key) group
  complete : ∀ key ∉ groups.map (·.key), membersOf seen key = []

theorem membersOf_append_of_ne {key : CandidateGroupKey} (h : candidate.key ≠ key) :
    membersOf (seen ++ [candidate]) key = membersOf seen key := by
  simp [membersOf, h]

theorem membersOf_append_self (seen : List CompactionInputSegment)
    (candidate : CompactionInputSegment) :
    membersOf (seen ++ [candidate]) candidate.key =
      membersOf seen candidate.key ++ [candidate] := by
  simp [membersOf]

/-- Routing reaches the group of the key, or makes it if the key is new. -/
theorem route_spec (hstored : candidate.Stored) {groups : List CandidateGroup}
    (hnodup : (groups.map (·.key)).Nodup)
    (hgroups : ∀ group ∈ groups, Summarizes limits (membersOf seen group.key) group)
    (hnew : candidate.key ∉ groups.map (·.key) → membersOf seen candidate.key = []) :
    ∃ next, route limits candidate groups = .ok next ∧
      (∀ group ∈ next, Summarizes limits (membersOf (seen ++ [candidate]) group.key) group) ∧
      next.map (·.key) =
        if candidate.key ∈ groups.map (·.key) then groups.map (·.key)
        else groups.map (·.key) ++ [candidate.key] := by
  induction groups with
  | nil =>
    have hmembers : membersOf seen candidate.key = [] := hnew not_mem_nil
    obtain ⟨next, hnext, hkey, hsummarizes⟩ :=
      (Summarizes.new limits candidate.key).consider rfl hstored
    have hkey : next.key = candidate.key := hkey
    refine ⟨[next], by rw [route, hnext]; rfl, ?_, by simp [hkey]⟩
    intro group hgroup
    obtain rfl := mem_singleton.mp hgroup
    rw [hkey, membersOf_append_self, hmembers]
    exact hsummarizes
  | cons group groups ih =>
    obtain ⟨hgroup, hgroups⟩ := forall_mem_cons.mp hgroups
    rw [map_cons, nodup_cons] at hnodup
    rw [route]
    by_cases hkey : group.key = candidate.key
    · obtain ⟨next, hnext, hnextkey, hsummarizes⟩ := hgroup.consider hkey.symm hstored
      refine ⟨next :: groups, by rw [if_pos hkey, hnext]; rfl,
        forall_mem_cons.mpr ⟨?_, fun other hother => ?_⟩, by simp [hnextkey, hkey]⟩
      · rw [hnextkey, hkey, membersOf_append_self, ← hkey]
        exact hsummarizes
      · have hne : candidate.key ≠ other.key := fun heq =>
          hnodup.1 (hkey ▸ heq ▸ mem_map_of_mem hother)
        rw [membersOf_append_of_ne hne]
        exact hgroups other hother
    · obtain ⟨next, hnext, hsummarizes, hkeys⟩ := ih hnodup.2 hgroups fun hmem =>
        hnew (not_mem_cons_of_ne_of_not_mem (Ne.symm hkey) hmem)
      refine ⟨group :: next, by rw [if_neg hkey, hnext]; rfl,
        forall_mem_cons.mpr ⟨?_, hsummarizes⟩, ?_⟩
      · rw [membersOf_append_of_ne (Ne.symm hkey)]
        exact hgroup
      · rw [map_cons, map_cons, hkeys]
        by_cases hmem : candidate.key ∈ groups.map (·.key)
        · rw [if_pos hmem, if_pos (mem_cons_of_mem _ hmem)]
        · rw [if_neg hmem, if_neg (not_mem_cons_of_ne_of_not_mem (Ne.symm hkey) hmem),
            cons_append]

namespace Tracks

variable {groups : List CandidateGroup}

theorem nil (limits : CompactionClaimLimits) : Tracks limits [] [] :=
  ⟨nodup_nil, fun _ h => absurd h not_mem_nil, fun _ _ => rfl⟩

/-- A candidate goes to the group of its key. -/
theorem route (h : Tracks limits seen groups) (hstored : candidate.Stored) :
    ∃ next, Compaction.route limits candidate groups = .ok next ∧
      Tracks limits (seen ++ [candidate]) next := by
  obtain ⟨next, hnext, hsummarizes, hkeys⟩ :=
    route_spec hstored h.nodup h.summarizes (h.complete candidate.key)
  refine ⟨next, hnext, ?_, hsummarizes, fun key hkey => ?_⟩
  · rw [hkeys]
    split_ifs with hmem
    · exact h.nodup
    · exact nodup_append.mpr ⟨h.nodup, nodup_singleton _, by
        rintro key hkey _ (_ | ⟨_, ⟨⟩⟩) rfl
        exact hmem hkey⟩
  · have hne : candidate.key ≠ key := by
      rintro rfl
      rw [hkeys] at hkey
      split_ifs at hkey with hmem
      · exact hkey hmem
      · exact hkey (mem_append_right _ mem_cons_self)
    rw [membersOf_append_of_ne hne]
    refine h.complete key fun hmem => hkey ?_
    rw [hkeys]
    split_ifs
    · exact hmem
    · exact mem_append_left _ hmem

/-- All candidates are routed. -/
theorem foldlM (h : Tracks limits seen groups) {candidates : List CompactionInputSegment}
    (hcandidates : ∀ candidate ∈ candidates, candidate.Stored) :
    ∃ next, candidates.foldlM (fun groups candidate => Compaction.route limits candidate groups)
        groups = .ok next ∧ Tracks limits (seen ++ candidates) next := by
  induction candidates generalizing seen groups with
  | nil => exact ⟨groups, rfl, by rwa [append_nil]⟩
  | cons candidate candidates ih =>
    obtain ⟨hcandidate, hcandidates⟩ := forall_mem_cons.mp hcandidates
    obtain ⟨routed, hrouted, htracks⟩ := h.route hcandidate
    obtain ⟨next, hnext, hall⟩ := ih htracks hcandidates
    refine ⟨next, ?_, by rwa [append_assoc, singleton_append] at hall⟩
    rw [foldlM_cons, hrouted]
    exact hnext

end Tracks

/-- The longest prefix of the candidates of a key that is within the limits and worth it. -/
structure LongestBeneficial (limits : CompactionClaimLimits)
    (members selected : List CompactionInputSegment) : Prop where
  of_members : selected <+: members
  within : limits.Within selected
  beneficial : limits.Beneficial selected
  longest : ∀ inputs, inputs <+: members → limits.Within inputs → limits.Beneficial inputs →
    inputs.length ≤ selected.length

namespace Summarizes

variable {members : List CompactionInputSegment} {group : CandidateGroup}
variable {inputs : List CompactionInputSegment}

/-- A prefix within the limits is one of the candidates taken. -/
theorem eq_take (h : Summarizes limits members group) (hinputs : inputs <+: members)
    (hwithin : limits.Within inputs) :
    inputs = group.candidates.take inputs.length := by
  obtain ⟨rest, hmembers⟩ := h.exists_append
  exact prefix_iff_eq_take.mp (prefix_of_prefix_length_le hinputs ⟨rest, hmembers.symm⟩
    (h.length_le_of_within hinputs hwithin))

/-- A group selects its longest beneficial start. -/
theorem longestBeneficial (h : Summarizes limits members group)
    {selected : List CompactionInputSegment} (hselected : group.selection = some selected) :
    LongestBeneficial limits members selected := by
  obtain ⟨last, hlast, rfl⟩ := Option.map_eq_some_iff.mp hselected
  have hbeneficial := h.last
  rw [hlast] at hbeneficial
  obtain ⟨hle, hbeneficial, hafter⟩ := hbeneficial
  obtain ⟨rest, hmembers⟩ := h.exists_append
  refine ⟨(List.take_prefix _ _).trans ⟨rest, hmembers.symm⟩, ?_, hbeneficial, ?_⟩
  · have hwithin := h.within
    rw [← take_append_drop last group.candidates] at hwithin
    exact hwithin.of_append
  · intro inputs hinputs hwithin hworth
    rw [length_take, Nat.min_eq_left hle]
    by_contra hlt
    refine hafter inputs.length (not_le.mp hlt) (h.length_le_of_within hinputs hwithin) ?_
    rwa [← h.eq_take hinputs hwithin]

/-- A group without a selection has no beneficial start. -/
theorem not_beneficial (h : Summarizes limits members group) (hselection : group.selection = none)
    (hinputs : inputs <+: members) (hwithin : limits.Within inputs) :
    ¬limits.Beneficial inputs := by
  have hnone := h.last
  rw [Option.map_eq_none_iff.mp hselection] at hnone
  rw [h.eq_take hinputs hwithin]
  exact hnone _ (h.length_le_of_within hinputs hwithin)

end Summarizes

/-- The choice among stored candidates does not fail. What it returns is the longest
beneficial prefix within the limits of the candidates of one key, and it returns nothing if and
only if no key has such a prefix. -/
theorem chooseCandidateGroup_spec {candidates : List CompactionInputSegment}
    (hcandidates : ∀ candidate ∈ candidates, candidate.Stored) :
    ∃ result, chooseCandidateGroup candidates limits = .ok result ∧
      (∀ selected, result = some selected →
        ∃ key, LongestBeneficial limits (membersOf candidates key) selected) ∧
      (result = none ↔ ∀ key inputs, inputs <+: membersOf candidates key →
        limits.Within inputs → ¬limits.Beneficial inputs) := by
  obtain ⟨groups, hgroups, htracks⟩ := (Tracks.nil limits).foldlM hcandidates
  rw [nil_append] at htracks
  refine ⟨groups.findSome? (·.selection), by rw [chooseCandidateGroup, hgroups]; rfl, ?_, ?_⟩
  · intro selected hselected
    obtain ⟨group, hgroup, hselection⟩ := exists_of_findSome?_eq_some hselected
    exact ⟨group.key, (htracks.summarizes group hgroup).longestBeneficial hselection⟩
  · rw [findSome?_eq_none_iff]
    constructor
    · intro hnone key inputs hinputs hwithin
      by_cases hkey : key ∈ groups.map (·.key)
      · obtain ⟨group, hgroup, rfl⟩ := mem_map.mp hkey
        exact (htracks.summarizes group hgroup).not_beneficial (hnone group hgroup) hinputs hwithin
      · rw [htracks.complete key hkey, prefix_nil] at hinputs
        rw [hinputs]
        exact CompactionClaimLimits.not_beneficial_nil
    · intro hnone group hgroup
      by_contra hselection
      obtain ⟨selected, hselected⟩ := Option.ne_none_iff_exists'.mp hselection
      have hlongest := (htracks.summarizes group hgroup).longestBeneficial hselected
      exact hnone group.key selected hlongest.of_members hlongest.within hlongest.beneficial

end Compaction

end Elucid
