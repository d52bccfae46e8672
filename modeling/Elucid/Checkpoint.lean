import Elucid.OutputRecord

/-!
# Planning a checkpoint

A batch may be forgotten once every one of its positions is covered by a published
output. `planCheckpoint` collects what the published outputs cover, refuses coverage
that does not belong to the batches it knows, and moves the checkpoint over the batches
that are covered to the last position.

The loop over the coverage is a fold that fails at the first bad occurrence
(`coverAll_eq_ok`), and what it collects is the set of covered occurrences
(`isSome_of_coverAll`), whatever their order. The loop over the batches stops at the first
batch that is not covered (`planTarget_eq_ok`). `planCheckpoint_exact` states when a plan
is made, what it is, and how it changes with the outputs.
-/

namespace Elucid

open List

variable {batches : List BatchOutputRequirements} {covered : BatchOutputRequirements → Prop}
  {outputs : List PublishedOutput}

/-! ## Requirements -/

/-- `BatchOutputRequirements` : the positions of a batch, possibly none. -/
@[ext] structure BatchOutputRequirements where
  batchId : BatchId
  spoolRange : SpoolBatchRange
  positions : List Nat
  positions_le : positions.length ≤ maximumCoveredPositions
  positions_lt : positions.IsChain (· < ·)

instance : DecidableEq BatchOutputRequirements := fun _ _ => decidable_of_iff' _ BatchOutputRequirements.ext_iff

/-- `BatchOutputRequirements::new`. -/
def BatchOutputRequirements.new (batchId : BatchId) (spoolRange : SpoolBatchRange)
    (positions : List Nat) : Except OutputRecoveryModelError BatchOutputRequirements :=
  if hle : positions.length ≤ maximumCoveredPositions then
    if hlt : positions.IsChain (· < ·) then
      .ok ⟨batchId, spoolRange, positions, hle, hlt⟩
    else .error .positionsMustIncrease
  else .error .coveredPositionLimitExceeded

structure CheckpointPlan where
  current : SpoolCheckpoint
  target : SpoolCheckpoint
  deriving DecidableEq, Repr

/-! ## The planner -/

/-- The spool range of an occurrence, as a map. -/
abbrev RangeMap := BatchId × Nat → Option SpoolBatchRange

/-- Collecting entries into a map : a later entry replaces an earlier one. -/
def RangeMap.collect (entries : List ((BatchId × Nat) × SpoolBatchRange)) : RangeMap :=
  entries.foldl (fun map entry => Function.update map entry.1 (some entry.2)) fun _ => none

/-- The map of the required occurrences. -/
def requiredRanges (batches : List BatchOutputRequirements) : RangeMap :=
  RangeMap.collect <| batches.flatMap fun batch =>
    batch.positions.map fun position => ((batch.batchId, position), batch.spoolRange)

/-- One position of a coverage : what is covered behind it. -/
def coverPosition (batches : List BatchOutputRequirements) (coverage : BatchPositionCoverage)
    (covered : RangeMap) (position : Nat) : Except OutputRecoveryModelError RangeMap :=
  let key := (coverage.batchId, position)
  if coverage.batchId ∈ batches.map (·.batchId) then
    match requiredRanges batches key with
    | none => .error .publishedCoverageIsUnknown
    | some requiredRange => do
      ensure (requiredRange = coverage.spoolRange) .publishedCoverageRangeMismatch
      ensure (covered key = none) .publishedCoverageOverlaps
      return Function.update covered key (some coverage.spoolRange)
  else .ok covered

/-- The loop over the coverage of the outputs. -/
def coverAll (batches : List BatchOutputRequirements) (outputs : List PublishedOutput) :
    Except OutputRecoveryModelError RangeMap :=
  (outputs.flatMap PublishedOutput.coverage).foldlM
    (fun covered coverage => coverage.positions.foldlM (coverPosition batches coverage) covered)
    fun _ => none

/-- The loop over the batches : the position the checkpoint can move to. -/
def planTarget (covered : RangeMap) :
    Nat → List BatchOutputRequirements → Except OutputRecoveryModelError Nat
  | target, [] => .ok target
  | target, batch :: rest =>
    if batch.spoolRange.start ≠ target then .error .batchRequirementsAreNotContiguous
    else if batch.positions.any fun position => (covered (batch.batchId, position)).isNone then
      .ok target
    else planTarget covered batch.spoolRange.stop rest

/-- `plan_checkpoint`. -/
def planCheckpoint (current : SpoolCheckpoint) (batches : List BatchOutputRequirements)
    (outputs : List PublishedOutput) :
    Except OutputRecoveryModelError (Option CheckpointPlan) := do
  let knownBatches := (batches.map (·.batchId)).dedup
  ensure (knownBatches.length = batches.length) .duplicateBatchRequirements
  let covered ← coverAll batches outputs
  let target ← planTarget covered current.position batches
  return if target ≠ current.position then some ⟨current, ⟨target⟩⟩ else none

/-! ## What the planner is for -/

/-- The occurrences the outputs cover. -/
def coveredOccurrences (outputs : List PublishedOutput) : List (BatchId × Nat) :=
  outputs.flatMap fun output => output.record.occurrences

/-- Every position of the batch is covered. -/
def BatchOutputRequirements.IsCovered (batch : BatchOutputRequirements)
    (outputs : List PublishedOutput) : Prop :=
  ∀ position ∈ batch.positions, (batch.batchId, position) ∈ coveredOccurrences outputs

instance (batch : BatchOutputRequirements) (outputs : List PublishedOutput) :
    Decidable (batch.IsCovered outputs) :=
  inferInstanceAs (Decidable (∀ position ∈ batch.positions, _))

/-- No batch is required twice. -/
def DistinctBatches (batches : List BatchOutputRequirements) : Prop :=
  (batches.map (·.batchId)).Nodup

instance (batches : List BatchOutputRequirements) : Decidable (DistinctBatches batches) :=
  inferInstanceAs (Decidable (List.Nodup _))

/-- The ranges of the batches follow each other from `start`. -/
def Contiguous (start : Nat) : List BatchOutputRequirements → Prop
  | [] => True
  | batch :: rest => batch.spoolRange.start = start ∧ Contiguous batch.spoolRange.stop rest

/-- The end of the last batch, or `start` if there is none. -/
def endOf (start : Nat) (batches : List BatchOutputRequirements) : Nat :=
  (batches.getLast?.map fun batch => batch.spoolRange.stop).getD start

/-- The coverage of the required batches is in their positions, has their ranges, and
covers no position twice. -/
structure CoverageFits (batches : List BatchOutputRequirements)
    (outputs : List PublishedOutput) : Prop where
  required : ∀ output ∈ outputs, ∀ coverage ∈ output.coverage, ∀ batch ∈ batches,
    coverage.batchId = batch.batchId →
      coverage.positions ⊆ batch.positions ∧ coverage.spoolRange = batch.spoolRange
  disjoint : (outputs.flatMap PublishedOutput.coverage).Pairwise fun a b =>
    a.batchId ∈ batches.map (·.batchId) → a.batchId = b.batchId →
      a.positions.Disjoint b.positions

/-- The longest covered beginning of the batches. -/
def coveredBatches (batches : List BatchOutputRequirements) (outputs : List PublishedOutput) :
    List BatchOutputRequirements :=
  batches.takeWhile fun batch => batch.IsCovered outputs

/-- The plan that moves the checkpoint over `batches`, if there are any. -/
def planTo (current : SpoolCheckpoint) (batches : List BatchOutputRequirements) :
    Option CheckpointPlan :=
  if batches = [] then none else some ⟨current, ⟨endOf current.position batches⟩⟩

/-- Where a plan leaves the checkpoint. -/
def targetOf (current : SpoolCheckpoint) (plan : Option CheckpointPlan) : Nat :=
  (plan.map fun plan => plan.target.position).getD current.position

/-! ## Required ranges -/

theorem RangeMap.collect_append_singleton (entries : List ((BatchId × Nat) × SpoolBatchRange))
    (entry : (BatchId × Nat) × SpoolBatchRange) :
    RangeMap.collect (entries ++ [entry]) =
      Function.update (RangeMap.collect entries) entry.1 (some entry.2) := by
  simp [RangeMap.collect, foldl_append]

theorem RangeMap.collect_eq_some {entries : List ((BatchId × Nat) × SpoolBatchRange)}
    (h : (entries.map Prod.fst).Nodup) (key : BatchId × Nat) (range : SpoolBatchRange) :
    RangeMap.collect entries key = some range ↔ (key, range) ∈ entries := by
  induction entries using List.reverseRecOn with
  | nil => simp [RangeMap.collect]
  | append_singleton entries entry ih =>
    rw [map_append, nodup_append] at h
    obtain ⟨hentries, -, hnew⟩ := h
    rw [RangeMap.collect_append_singleton, mem_append, mem_singleton]
    by_cases hkey : key = entry.1
    · subst hkey
      have hnot : (entry.1, range) ∉ entries := by
        intro hmem
        exact hnew entry.1 (mem_map.mpr ⟨_, hmem, rfl⟩) entry.1 (by simp) rfl
      rw [Function.update_self, Option.some.injEq]
      constructor
      · rintro rfl
        exact Or.inr rfl
      · rintro (hmem | heq)
        · exact absurd hmem hnot
        · exact (congrArg Prod.snd heq).symm
    · rw [Function.update_of_ne hkey, ih hentries]
      constructor
      · exact Or.inl
      · rintro (hmem | rfl)
        · exact hmem
        · exact absurd rfl hkey

theorem BatchOutputRequirements.nodup_positions (batch : BatchOutputRequirements) :
    batch.positions.Nodup :=
  (isChain_iff_pairwise.mp batch.positions_lt).imp ne_of_lt

/-- With distinct batches, the map of the required occurrences is the obvious one. -/
theorem requiredRanges_eq_some (h : DistinctBatches batches) (batchId : BatchId) (position : Nat)
    (range : SpoolBatchRange) :
    requiredRanges batches (batchId, position) = some range ↔
      ∃ batch ∈ batches, batch.batchId = batchId ∧ position ∈ batch.positions ∧
        batch.spoolRange = range := by
  have hkeys : ((batches.flatMap fun batch => batch.positions.map fun position =>
      ((batch.batchId, position), batch.spoolRange)).map Prod.fst).Nodup := by
    rw [map_flatMap, nodup_flatMap]
    constructor
    · intro batch _
      rw [map_map]
      exact batch.nodup_positions.map fun _ _ h => congrArg Prod.snd h
    · refine (pairwise_map.mp h).imp fun hne key ha hb => ?_
      simp only [map_map, mem_map, Function.comp_apply] at ha hb
      obtain ⟨_, _, rfl⟩ := ha
      obtain ⟨_, _, hb⟩ := hb
      exact hne (congrArg Prod.fst hb).symm
  rw [requiredRanges, RangeMap.collect_eq_some hkeys]
  simp only [mem_flatMap, mem_map, Prod.mk.injEq]
  constructor
  · rintro ⟨batch, hbatch, position', hposition, ⟨rfl, rfl⟩, rfl⟩
    exact ⟨batch, hbatch, rfl, hposition, rfl⟩
  · rintro ⟨batch, hbatch, rfl, hposition, rfl⟩
    exact ⟨batch, hbatch, position, hposition, ⟨rfl, rfl⟩, rfl⟩

/-! ## The loop over the coverage -/

section Cover

/-- The occurrences of the loop, one by one, with the coverage each comes from. -/
def itemsOf (coverage : List BatchPositionCoverage) : List (BatchPositionCoverage × Nat) :=
  coverage.flatMap fun item => item.positions.map fun position => (item, position)

/-- The key of an item in the maps. -/
def itemKey (item : BatchPositionCoverage × Nat) : BatchId × Nat := (item.1.batchId, item.2)

/-- The items of batches that are required. -/
def knownItems (batches : List BatchOutputRequirements)
    (items : List (BatchPositionCoverage × Nat)) : List (BatchPositionCoverage × Nat) :=
  items.filter fun item => item.1.batchId ∈ batches.map (·.batchId)

/-- The loops over outputs, coverages and positions are one. -/
theorem coverAll_eq_foldlM (outputs : List PublishedOutput) :
    coverAll batches outputs =
      (itemsOf (outputs.flatMap PublishedOutput.coverage)).foldlM
        (fun covered item => coverPosition batches item.1 covered item.2) fun _ => none := by
  unfold coverAll itemsOf
  generalize outputs.flatMap PublishedOutput.coverage = coverages
  generalize (fun _ => none : RangeMap) = covered
  induction coverages generalizing covered with
  | nil => rfl
  | cons coverage rest ih =>
    rw [foldlM_cons, flatMap_cons, foldlM_append, foldlM_map]
    congr 1
    funext covered
    exact ih covered

/-- What one position of the loop did. -/
theorem coverPosition_eq_ok {item : BatchPositionCoverage × Nat} {covered covered' : RangeMap} :
    coverPosition batches item.1 covered item.2 = .ok covered' ↔
      if item.1.batchId ∈ batches.map (·.batchId) then
        requiredRanges batches (itemKey item) = some item.1.spoolRange ∧
          covered (itemKey item) = none ∧
          covered' = Function.update covered (itemKey item) (some item.1.spoolRange)
      else covered' = covered := by
  rw [coverPosition, ← itemKey]
  by_cases hknown : item.1.batchId ∈ batches.map (·.batchId)
  · simp only [hknown, if_true]
    cases hrange : requiredRanges batches (itemKey item) with
    | none => simp
    | some range =>
      simp only [bind_eq_ok, ensure_eq_ok, Option.some.injEq, pure, Except.pure,
        Except.ok.injEq]
      constructor
      · rintro ⟨-, rfl, -, hnone, rfl⟩
        exact ⟨rfl, hnone, rfl⟩
      · rintro ⟨rfl, hnone, rfl⟩
        exact ⟨(), rfl, (), hnone, rfl⟩
  · simp only [hknown, if_false, Except.ok.injEq]
    exact eq_comm

theorem knownItems_cons (item : BatchPositionCoverage × Nat)
    (rest : List (BatchPositionCoverage × Nat)) :
    knownItems batches (item :: rest) =
      if item.1.batchId ∈ batches.map (·.batchId) then item :: knownItems batches rest
      else knownItems batches rest := by
  unfold knownItems
  rw [filter_cons]
  by_cases h : item.1.batchId ∈ batches.map (·.batchId) <;> simp only [h] <;> rfl

/-- The loop succeeds exactly if every known item has the required range and no key comes
twice, and then it has collected the keys. -/
theorem foldlM_coverPosition {items : List (BatchPositionCoverage × Nat)} {covered : RangeMap} :
    (∃ covered', items.foldlM (fun covered item => coverPosition batches item.1 covered item.2)
        covered = .ok covered') ↔
      (∀ item ∈ knownItems batches items,
        requiredRanges batches (itemKey item) = some item.1.spoolRange ∧
          covered (itemKey item) = none) ∧
      ((knownItems batches items).map itemKey).Nodup := by
  induction items generalizing covered with
  | nil => simp [knownItems, pure, Except.pure]
  | cons item rest ih =>
    rw [knownItems_cons]
    simp only [foldlM_cons, bind_eq_ok, coverPosition_eq_ok]
    by_cases hknown : item.1.batchId ∈ batches.map (·.batchId)
    · simp only [hknown, if_true]
      rw [map_cons, nodup_cons, forall_mem_cons]
      constructor
      · rintro ⟨covered', _, ⟨hrange, hnone, rfl⟩, hrest⟩
        obtain ⟨hitems, hnodup⟩ := ih.mp ⟨covered', hrest⟩
        have hne : ∀ other ∈ knownItems batches rest, itemKey other ≠ itemKey item := by
          intro other hother heq
          have := (hitems other hother).2
          rw [heq, Function.update_self] at this
          cases this
        refine ⟨⟨⟨hrange, hnone⟩, fun other hother => ?_⟩, ?_, hnodup⟩
        · have := (hitems other hother).2
          rw [Function.update_of_ne (hne other hother)] at this
          exact ⟨(hitems other hother).1, this⟩
        · rintro hmem
          obtain ⟨other, hother, heq⟩ := mem_map.mp hmem
          exact hne other hother heq
      · rintro ⟨⟨⟨hrange, hnone⟩, hitems⟩, hnot, hnodup⟩
        have hitems' : ∀ other ∈ knownItems batches rest,
            requiredRanges batches (itemKey other) = some other.1.spoolRange ∧
              Function.update covered (itemKey item) (some item.1.spoolRange) (itemKey other) =
                none := by
          intro other hother
          have hne : itemKey other ≠ itemKey item := by
            intro heq
            exact hnot (mem_map.mpr ⟨other, hother, heq⟩)
          rw [Function.update_of_ne hne]
          exact hitems other hother
        obtain ⟨covered', hrest⟩ := ih.mpr ⟨hitems', hnodup⟩
        exact ⟨covered', _, ⟨hrange, hnone, rfl⟩, hrest⟩
    · simp only [hknown, if_false, exists_eq_left]
      exact ih

/-- The keys the loop has collected. -/
theorem isSome_of_foldlM {items : List (BatchPositionCoverage × Nat)}
    {covered covered' : RangeMap}
    (h : items.foldlM (fun covered item => coverPosition batches item.1 covered item.2)
      covered = .ok covered') (key : BatchId × Nat) :
    (covered' key).isSome ↔ (covered key).isSome ∨ key ∈ (knownItems batches items).map itemKey := by
  induction items generalizing covered with
  | nil =>
    cases h
    simp [knownItems]
  | cons item rest ih =>
    rw [foldlM_cons] at h
    obtain ⟨next, hnext, hrest⟩ := bind_eq_ok.mp h
    rw [ih hrest, knownItems_cons]
    rw [coverPosition_eq_ok] at hnext
    by_cases hknown : item.1.batchId ∈ batches.map (·.batchId)
    · rw [if_pos hknown] at hnext ⊢
      obtain ⟨-, -, rfl⟩ := hnext
      rw [map_cons, mem_cons]
      by_cases hkey : key = itemKey item
      · simp [hkey]
      · rw [Function.update_of_ne hkey]
        simp [hkey]
    · rw [if_neg hknown] at hnext ⊢
      rw [hnext]

/-- The keys of the known items are the occurrences of the known coverage. -/
theorem map_itemKey_knownItems (coverages : List BatchPositionCoverage) :
    (knownItems batches (itemsOf coverages)).map itemKey =
      (coverages.filter fun coverage => coverage.batchId ∈ batches.map (·.batchId)).flatMap
        BatchPositionCoverage.occurrences := by
  induction coverages with
  | nil => rfl
  | cons coverage rest ih =>
    have hsplit : knownItems batches (itemsOf (coverage :: rest)) =
        knownItems batches (coverage.positions.map fun position => (coverage, position)) ++
          knownItems batches (itemsOf rest) := by
      simp [knownItems, itemsOf]
    rw [hsplit, map_append, ih, filter_cons]
    by_cases hknown : coverage.batchId ∈ batches.map (·.batchId)
    · have hall : knownItems batches (coverage.positions.map fun position =>
          (coverage, position)) = coverage.positions.map fun position => (coverage, position) := by
        refine filter_eq_self.mpr fun item hitem => ?_
        obtain ⟨_, _, rfl⟩ := mem_map.mp hitem
        exact decide_eq_true hknown
      rw [hall, if_pos (decide_eq_true hknown), flatMap_cons, map_map]
      rfl
    · have hnone : knownItems batches (coverage.positions.map fun position =>
          (coverage, position)) = [] := by
        refine filter_eq_nil_iff.mpr fun item hitem => ?_
        obtain ⟨_, _, rfl⟩ := mem_map.mp hitem
        simpa using hknown
      rw [hnone, if_neg (by simpa using hknown)]
      rfl

/-- Coverages of one batch share no position. -/
theorem disjoint_occurrences {a b : BatchPositionCoverage} :
    a.occurrences.Disjoint b.occurrences ↔
      (a.batchId = b.batchId → a.positions.Disjoint b.positions) := by
  simp only [BatchPositionCoverage.occurrences, disjoint_left, mem_map, not_exists,
    not_and]
  constructor
  · intro h heq position ha hb
    exact h ⟨position, ha, rfl⟩ position hb (by rw [heq])
  · rintro h _ ⟨position, ha, rfl⟩ position' hb heq
    obtain ⟨hid, rfl⟩ := Prod.mk.inj heq
    exact h hid.symm ha hb

theorem BatchPositionCoverage.nodup_occurrences (coverage : BatchPositionCoverage) :
    coverage.occurrences.Nodup :=
  coverage.nodup_positions.map fun _ _ h => congrArg Prod.snd h

/-- No key comes twice exactly if the coverage of known batches is disjoint. -/
theorem nodup_itemKey_iff (coverages : List BatchPositionCoverage) :
    ((knownItems batches (itemsOf coverages)).map itemKey).Nodup ↔
      coverages.Pairwise fun a b => a.batchId ∈ batches.map (·.batchId) →
        a.batchId = b.batchId → a.positions.Disjoint b.positions := by
  rw [map_itemKey_knownItems, nodup_flatMap, pairwise_filter]
  constructor
  · rintro ⟨-, h⟩
    refine h.imp fun hab ha heq => ?_
    exact disjoint_occurrences.mp
      (hab (decide_eq_true ha) (decide_eq_true (heq ▸ ha))) heq
  · intro h
    refine ⟨fun coverage _ => coverage.nodup_occurrences, h.imp fun hab ha _ => ?_⟩
    exact disjoint_occurrences.mpr (hab (of_decide_eq_true ha))

theorem mem_knownItems {coverages : List BatchPositionCoverage} {coverage : BatchPositionCoverage}
    {position : Nat} :
    (coverage, position) ∈ knownItems batches (itemsOf coverages) ↔
      coverage ∈ coverages ∧ position ∈ coverage.positions ∧
        coverage.batchId ∈ batches.map (·.batchId) := by
  simp only [knownItems, itemsOf, mem_filter, mem_flatMap, mem_map,
    Prod.mk.injEq, decide_eq_true_eq]
  constructor
  · rintro ⟨⟨_, hcoverage, _, hposition, rfl, rfl⟩, hknown⟩
    exact ⟨hcoverage, hposition, hknown⟩
  · rintro ⟨hcoverage, hposition, hknown⟩
    exact ⟨⟨coverage, hcoverage, position, hposition, rfl, rfl⟩, hknown⟩

theorem eq_of_batchId_eq (h : DistinctBatches batches) {a b : BatchOutputRequirements}
    (ha : a ∈ batches) (hb : b ∈ batches) (heq : a.batchId = b.batchId) : a = b :=
  inj_on_of_nodup_map h ha hb heq

/-- The loop over the coverage succeeds exactly if the coverage fits the batches. -/
theorem coverAll_eq_ok (h : DistinctBatches batches) (outputs : List PublishedOutput) :
    (∃ covered, coverAll batches outputs = .ok covered) ↔ CoverageFits batches outputs := by
  rw [coverAll_eq_foldlM, foldlM_coverPosition, nodup_itemKey_iff]
  constructor
  · rintro ⟨hitems, hdisjoint⟩
    refine ⟨fun output houtput coverage hcoverage batch hbatch hid => ?_, hdisjoint⟩
    have hrange : ∀ position ∈ coverage.positions,
        position ∈ batch.positions ∧ coverage.spoolRange = batch.spoolRange := by
      intro position hposition
      have hitem := (hitems (coverage, position) (mem_knownItems.mpr
        ⟨mem_flatMap.mpr ⟨output, houtput, hcoverage⟩, hposition,
          mem_map.mpr ⟨batch, hbatch, hid.symm⟩⟩)).1
      obtain ⟨batch', hbatch', hid', hmem, hspool⟩ := (requiredRanges_eq_some h _ _ _).mp hitem
      obtain rfl := eq_of_batchId_eq h hbatch hbatch' (hid.symm.trans hid'.symm)
      exact ⟨hmem, hspool.symm⟩
    obtain ⟨position, hposition⟩ := exists_mem_of_ne_nil _ coverage.positions_ne
    exact ⟨fun p hp => (hrange p hp).1, (hrange position hposition).2⟩
  · rintro ⟨hrequired, hdisjoint⟩
    refine ⟨?_, hdisjoint⟩
    rintro ⟨coverage, position⟩ hitem
    obtain ⟨hcoverage, hposition, hknown⟩ := mem_knownItems.mp hitem
    obtain ⟨output, houtput, hcoverage⟩ := mem_flatMap.mp hcoverage
    obtain ⟨batch, hbatch, hid⟩ := mem_map.mp hknown
    obtain ⟨hsubset, hspool⟩ := hrequired output houtput coverage hcoverage batch hbatch hid.symm
    exact ⟨(requiredRanges_eq_some h _ _ _).mpr
      ⟨batch, hbatch, hid, hsubset hposition, hspool.symm⟩, rfl⟩

/-- What the loop over the coverage has collected. -/
theorem isSome_of_coverAll {covered : RangeMap} (h : coverAll batches outputs = .ok covered)
    {batch : BatchOutputRequirements} (hbatch : batch ∈ batches) (position : Nat) :
    (covered (batch.batchId, position)).isSome ↔
      (batch.batchId, position) ∈ coveredOccurrences outputs := by
  rw [coverAll_eq_foldlM] at h
  rw [isSome_of_foldlM h, map_itemKey_knownItems]
  simp only [coveredOccurrences, OutputRecoveryRecord.occurrences, mem_flatMap,
    mem_filter, decide_eq_true_eq, Option.isSome_none, Bool.false_eq_true, false_or]
  constructor
  · rintro ⟨coverage, ⟨⟨output, houtput, hcoverage⟩, -⟩, hmem⟩
    exact ⟨output, houtput, coverage, hcoverage, hmem⟩
  · rintro ⟨output, houtput, coverage, hcoverage, hmem⟩
    refine ⟨coverage, ⟨⟨output, houtput, hcoverage⟩, ?_⟩, hmem⟩
    obtain ⟨_, _, heq⟩ := mem_map.mp hmem
    exact mem_map.mpr ⟨batch, hbatch, (congrArg Prod.fst heq).symm⟩

end Cover

/-! ## The loop over the batches -/

@[simp] theorem endOf_nil (start : Nat) : endOf start [] = start := rfl

@[simp] theorem endOf_cons (start : Nat) (batch : BatchOutputRequirements)
    (rest : List BatchOutputRequirements) :
    endOf start (batch :: rest) = endOf batch.spoolRange.stop rest := by
  unfold endOf
  rw [getLast?_cons]
  cases rest.getLast? <;> rfl

/-- The batches follow each other as long as they are covered. -/
def ContiguousWhile (covered : BatchOutputRequirements → Prop) (start : Nat) :
    List BatchOutputRequirements → Prop
  | [] => True
  | batch :: rest => batch.spoolRange.start = start ∧
      (covered batch → ContiguousWhile covered batch.spoolRange.stop rest)

theorem Contiguous.contiguousWhile :
    ∀ {start : Nat} {batches : List BatchOutputRequirements},
      Contiguous start batches → ContiguousWhile covered start batches
  | _, [], _ => trivial
  | _, _ :: _, ⟨hstart, hrest⟩ => ⟨hstart, fun _ => hrest.contiguousWhile⟩

/-- The batches stop following each other exactly if a batch behind covered ones is out of
place. -/
theorem not_contiguousWhile {start : Nat} :
    ¬ContiguousWhile covered start batches ↔
      ∃ front batch back, batches = front ++ batch :: back ∧ (∀ b ∈ front, covered b) ∧
        batch.spoolRange.start ≠ endOf start front := by
  induction batches generalizing start with
  | nil => simp [ContiguousWhile]
  | cons head rest ih =>
    rw [ContiguousWhile, not_and_or, Classical.not_imp, ih]
    constructor
    · rintro (hstart | ⟨hcovered, front, batch, back, rfl, hfront, hne⟩)
      · exact ⟨[], head, rest, rfl, by simp, hstart⟩
      · exact ⟨head :: front, batch, back, rfl, by simpa using ⟨hcovered, hfront⟩, by simpa⟩
    · rintro ⟨front, batch, back, hsplit, hfront, hne⟩
      cases front with
      | nil =>
        obtain ⟨rfl, rfl⟩ := List.cons.inj hsplit
        exact Or.inl hne
      | cons first front =>
        obtain ⟨rfl, rfl⟩ := List.cons.inj hsplit
        refine Or.inr ⟨hfront head (by simp), front, batch, back, rfl, fun b hb => ?_, ?_⟩
        · exact hfront b (mem_cons_of_mem _ hb)
        · simpa using hne

/-- Covered batches that follow each other end behind their start. -/
theorem lt_endOf_takeWhile [DecidablePred covered] {start : Nat}
    (h : ContiguousWhile covered start batches) :
    start ≤ endOf start (batches.takeWhile fun batch => covered batch) ∧
      (batches.takeWhile (fun batch => covered batch) ≠ [] →
        start < endOf start (batches.takeWhile fun batch => covered batch)) := by
  induction batches generalizing start with
  | nil => simp
  | cons head rest ih =>
    obtain ⟨hstart, hrest⟩ := h
    by_cases hcovered : covered head
    · have hle := (ih (hrest hcovered)).1
      have hlt := head.spoolRange.start_lt_stop
      rw [takeWhile_cons_of_pos (by simpa using hcovered), endOf_cons]
      omega
    · rw [takeWhile_cons_of_neg (by simpa using hcovered)]
      simp

/-- The loop over the batches stops at the first batch that is not covered. -/
theorem planTarget_eq_ok {covered : RangeMap} {isCovered : BatchOutputRequirements → Prop}
    [DecidablePred isCovered] {start target : Nat} (h : ∀ batch ∈ batches, isCovered batch ↔
      ∀ position ∈ batch.positions, (covered (batch.batchId, position)).isSome) :
    planTarget covered start batches = .ok target ↔
      ContiguousWhile isCovered start batches ∧
        target = endOf start (batches.takeWhile fun batch => isCovered batch) := by
  induction batches generalizing start with
  | nil => simp [planTarget, ContiguousWhile, eq_comm]
  | cons head rest ih =>
    have hrest := fun start => @ih start
      fun batch hbatch => h batch (mem_cons_of_mem _ hbatch)
    have hany : (head.positions.any fun position =>
        (covered (head.batchId, position)).isNone) = true ↔ ¬isCovered head := by
      rw [h head (mem_cons_self ..)]
      simp
    rw [planTarget, ContiguousWhile]
    by_cases hstart : head.spoolRange.start = start
    · by_cases hcovered : isCovered head
      · rw [if_neg (by simpa using hstart), if_neg (by simpa [hany] using hcovered), hrest,
          takeWhile_cons_of_pos (by simpa using hcovered), endOf_cons]
        simp [hstart, hcovered]
      · rw [if_neg (by simpa using hstart), if_pos (hany.mpr hcovered),
          takeWhile_cons_of_neg (by simpa using hcovered)]
        simp [hstart, hcovered, eq_comm]
    · rw [if_pos hstart]
      simp [hstart]

/-! ## Plans -/

theorem length_dedup_eq_iff (batches : List BatchOutputRequirements) :
    (batches.map (·.batchId)).dedup.length = batches.length ↔ DistinctBatches batches := by
  rw [DistinctBatches, ← dedup_eq_self]
  constructor
  · intro h
    exact (dedup_sublist _).eq_of_length (by rw [h, length_map])
  · intro h
    rw [h, length_map]

theorem planTo_takeWhile {current : SpoolCheckpoint}
    (h : ContiguousWhile (·.IsCovered outputs) current.position batches) :
    (if endOf current.position (coveredBatches batches outputs) ≠ current.position then
      some ⟨current, ⟨endOf current.position (coveredBatches batches outputs)⟩⟩ else none) =
      planTo current (coveredBatches batches outputs) := by
  unfold planTo
  by_cases hempty : coveredBatches batches outputs = []
  · rw [hempty, if_neg (by simp), if_pos rfl]
  · have hlt := (lt_endOf_takeWhile h).2 hempty
    have hne : endOf current.position (coveredBatches batches outputs) ≠ current.position :=
      hlt.ne'
    rw [if_pos hne, if_neg hempty]

/-- A plan is made exactly under three conditions, and it is the one plan. -/
theorem planCheckpoint_eq_ok {current : SpoolCheckpoint} {plan : Option CheckpointPlan} :
    planCheckpoint current batches outputs = .ok plan ↔
      DistinctBatches batches ∧ CoverageFits batches outputs ∧
        ContiguousWhile (·.IsCovered outputs) current.position batches ∧
        plan = planTo current (coveredBatches batches outputs) := by
  have htarget : ∀ {covered}, coverAll batches outputs = .ok covered → ∀ {target},
      planTarget covered current.position batches = .ok target ↔
        ContiguousWhile (·.IsCovered outputs) current.position batches ∧
          target = endOf current.position (coveredBatches batches outputs) := by
    intro covered hcovered target
    refine planTarget_eq_ok fun batch hbatch => ?_
    simp only [isSome_of_coverAll hcovered hbatch]
    rfl
  constructor
  · intro h
    obtain ⟨_, hdistinct, h⟩ := bind_eq_ok.mp h
    obtain ⟨covered, hcovered, h⟩ := bind_eq_ok.mp h
    obtain ⟨target, hplan, h⟩ := bind_eq_ok.mp h
    have hdistinct := (length_dedup_eq_iff batches).mp (ensure_eq_ok.mp hdistinct)
    obtain ⟨hwhile, rfl⟩ := (htarget hcovered).mp hplan
    refine ⟨hdistinct, (coverAll_eq_ok hdistinct outputs).mp ⟨covered, hcovered⟩, hwhile, ?_⟩
    rw [← planTo_takeWhile hwhile]
    exact (Except.ok.inj h).symm
  · rintro ⟨hdistinct, hfits, hwhile, rfl⟩
    obtain ⟨covered, hcovered⟩ := (coverAll_eq_ok hdistinct outputs).mpr hfits
    have hplan := (htarget hcovered).mpr ⟨hwhile, rfl⟩
    rw [planCheckpoint, ensure_of ((length_dedup_eq_iff batches).mpr hdistinct), ok_bind, hcovered, ok_bind, hplan,
      ok_bind, ← planTo_takeWhile hwhile]
    rfl

theorem mem_coveredOccurrences {occurrence : BatchId × Nat} :
    occurrence ∈ coveredOccurrences outputs ↔
      ∃ output ∈ outputs, ∃ coverage ∈ output.coverage, occurrence ∈ coverage.occurrences := by
  simp [coveredOccurrences, OutputRecoveryRecord.occurrences, PublishedOutput.coverage]

section Outputs

variable {outputs' unknown : List PublishedOutput}
variable {p q : BatchOutputRequirements → Prop}

/-- Outputs of other batches cover nothing of a required one. -/
theorem isCovered_perm_append
    (hunknown : ∀ output ∈ unknown, ∀ coverage ∈ output.coverage,
      coverage.batchId ∉ batches.map (·.batchId))
    (hperm : outputs'.Perm (outputs ++ unknown)) {batch : BatchOutputRequirements}
    (hbatch : batch ∈ batches) : batch.IsCovered outputs' ↔ batch.IsCovered outputs := by
  refine forall₂_congr fun position _ => ?_
  rw [mem_coveredOccurrences, mem_coveredOccurrences]
  constructor
  · rintro ⟨output, houtput, coverage, hcoverage, hmem⟩
    rcases mem_append.mp (hperm.mem_iff.mp houtput) with houtput | houtput
    · exact ⟨output, houtput, coverage, hcoverage, hmem⟩
    · obtain ⟨_, _, heq⟩ := mem_map.mp hmem
      refine absurd (mem_map.mpr ⟨batch, hbatch, ?_⟩) (hunknown output houtput coverage
        hcoverage)
      exact (congrArg Prod.fst heq).symm
  · rintro ⟨output, houtput, coverage, hcoverage, hmem⟩
    exact ⟨output, hperm.mem_iff.mpr (mem_append_left _ houtput), coverage, hcoverage, hmem⟩

theorem coverageFits_perm_append
    (hunknown : ∀ output ∈ unknown, ∀ coverage ∈ output.coverage,
      coverage.batchId ∉ batches.map (·.batchId))
    (hperm : outputs'.Perm (outputs ++ unknown)) :
    CoverageFits batches outputs' ↔ CoverageFits batches outputs := by
  have hsymm : ∀ {a b : BatchPositionCoverage},
      (a.batchId ∈ batches.map (·.batchId) → a.batchId = b.batchId →
        a.positions.Disjoint b.positions) →
      b.batchId ∈ batches.map (·.batchId) → b.batchId = a.batchId →
        b.positions.Disjoint a.positions := by
    intro a b hab hb heq
    exact (hab (heq ▸ hb) heq.symm).symm
  have hpairwise := (hperm.flatMap_right PublishedOutput.coverage).pairwise_iff
    (R := fun a b => a.batchId ∈ batches.map (·.batchId) → a.batchId = b.batchId →
      a.positions.Disjoint b.positions) hsymm
  constructor
  · rintro ⟨hrequired, hdisjoint⟩
    have hdisjoint := hpairwise.mp hdisjoint
    rw [flatMap_append, pairwise_append] at hdisjoint
    refine ⟨fun output houtput => ?_, hdisjoint.1⟩
    exact hrequired output (hperm.mem_iff.mpr (mem_append_left _ houtput))
  · rintro ⟨hrequired, hdisjoint⟩
    have hid : ∀ coverage ∈ unknown.flatMap PublishedOutput.coverage,
        coverage.batchId ∉ batches.map (·.batchId) := by
      intro coverage hcoverage
      obtain ⟨output, houtput, hcoverage⟩ := mem_flatMap.mp hcoverage
      exact hunknown output houtput coverage hcoverage
    refine ⟨fun output houtput coverage hcoverage batch hbatch heq => ?_, hpairwise.mpr ?_⟩
    · rcases mem_append.mp (hperm.mem_iff.mp houtput) with houtput | houtput
      · exact hrequired output houtput coverage hcoverage batch hbatch heq
      · exact absurd (mem_map.mpr ⟨batch, hbatch, heq.symm⟩)
          (hunknown output houtput coverage hcoverage)
    · rw [flatMap_append, pairwise_append]
      refine ⟨hdisjoint, ?_, ?_⟩
      · refine pairwise_iff_getElem.mpr fun i j hi hj _ hknown _ => ?_
        exact absurd hknown (hid _ (getElem_mem hi))
      · intro a _ b hb hknown heq
        exact absurd (heq ▸ hknown) (hid b hb)

theorem contiguousWhile_congr {start : Nat} (h : ∀ batch ∈ batches, p batch ↔ q batch) :
    ContiguousWhile p start batches ↔ ContiguousWhile q start batches := by
  induction batches generalizing start with
  | nil => exact Iff.rfl
  | cons head rest ih =>
    rw [ContiguousWhile, ContiguousWhile, h head (mem_cons_self ..),
      ih fun batch hbatch => h batch (mem_cons_of_mem _ hbatch)]

theorem takeWhile_congr [DecidablePred p] [DecidablePred q]
    (h : ∀ batch ∈ batches, p batch ↔ q batch) :
    (batches.takeWhile fun batch => p batch) = batches.takeWhile fun batch => q batch := by
  induction batches with
  | nil => rfl
  | cons head rest ih =>
    have hhead := h head (mem_cons_self ..)
    rw [takeWhile_cons, takeWhile_cons,
      ih fun batch hbatch => h batch (mem_cons_of_mem _ hbatch)]
    simp only [hhead]

/-- The order of the outputs and outputs of other batches do not matter. -/
theorem planCheckpoint_perm_append (current : SpoolCheckpoint)
    (hunknown : ∀ output ∈ unknown, ∀ coverage ∈ output.coverage,
      coverage.batchId ∉ batches.map (·.batchId))
    (hperm : outputs'.Perm (outputs ++ unknown)) :
    (planCheckpoint current batches outputs').toOption =
      (planCheckpoint current batches outputs).toOption := by
  have hcovered : ∀ batch ∈ batches, batch.IsCovered outputs' ↔ batch.IsCovered outputs :=
    fun _ hbatch => isCovered_perm_append hunknown hperm hbatch
  have hiff : ∀ plan, planCheckpoint current batches outputs' = .ok plan ↔
      planCheckpoint current batches outputs = .ok plan := by
    intro plan
    rw [planCheckpoint_eq_ok, planCheckpoint_eq_ok, coverageFits_perm_append hunknown hperm,
      contiguousWhile_congr hcovered, coveredBatches, takeWhile_congr hcovered, ← coveredBatches]
  cases h : planCheckpoint current batches outputs with
  | ok plan => rw [(hiff plan).mpr h]
  | error e =>
    cases h' : planCheckpoint current batches outputs' with
    | ok plan =>
      rw [(hiff plan).mp h'] at h
      cases h
    | error e' => rfl

/-- More covered batches reach further. -/
theorem endOf_takeWhile_le [DecidablePred p] [DecidablePred q] {start : Nat}
    (h : ∀ batch, p batch → q batch) (hq : ContiguousWhile q start batches) :
    endOf start (batches.takeWhile fun batch => p batch) ≤
      endOf start (batches.takeWhile fun batch => q batch) := by
  induction batches generalizing start with
  | nil => exact le_rfl
  | cons head rest ih =>
    by_cases hp : p head
    · rw [takeWhile_cons_of_pos (by simpa using hp),
        takeWhile_cons_of_pos (by simpa using h head hp), endOf_cons, endOf_cons]
      exact ih (hq.2 (h head hp))
    · rw [takeWhile_cons_of_neg (by simpa using hp)]
      exact (lt_endOf_takeWhile hq).1

theorem targetOf_planTo (current : SpoolCheckpoint) (batches : List BatchOutputRequirements) :
    targetOf current (planTo current batches) = endOf current.position batches := by
  unfold targetOf planTo
  split <;> simp_all

/-- More outputs never move the target back. -/
theorem targetOf_planCheckpoint_le {current : SpoolCheckpoint} {plan plan' : Option CheckpointPlan}
    (hsub : outputs ⊆ outputs') (h : planCheckpoint current batches outputs = .ok plan)
    (h' : planCheckpoint current batches outputs' = .ok plan') :
    targetOf current plan ≤ targetOf current plan' := by
  obtain ⟨-, -, -, rfl⟩ := planCheckpoint_eq_ok.mp h
  obtain ⟨-, -, hwhile, rfl⟩ := planCheckpoint_eq_ok.mp h'
  rw [targetOf_planTo, targetOf_planTo]
  refine endOf_takeWhile_le (fun batch hcovered position hposition => ?_) hwhile
  obtain ⟨output, houtput, hmem⟩ := mem_coveredOccurrences.mp (hcovered position hposition)
  exact mem_coveredOccurrences.mpr ⟨output, hsub houtput, hmem⟩

end Outputs

/-- When `planCheckpoint` makes a plan, what the plan is, when it refuses, and how it
depends on the outputs. -/
theorem planCheckpoint_exact (current : SpoolCheckpoint)
    (batches : List BatchOutputRequirements) (outputs : List PublishedOutput) :
    (DistinctBatches batches → Contiguous current.position batches →
      CoverageFits batches outputs →
        planCheckpoint current batches outputs =
          .ok (planTo current (coveredBatches batches outputs))) ∧
    ((∃ e, planCheckpoint current batches outputs = .error e) ↔
      ¬DistinctBatches batches ∨ ¬CoverageFits batches outputs ∨
        ∃ front batch back, batches = front ++ batch :: back ∧
          (∀ b ∈ front, b.IsCovered outputs) ∧
          batch.spoolRange.start ≠ endOf current.position front) ∧
    (∀ plan, planCheckpoint current batches outputs = .ok plan →
      plan = planTo current (coveredBatches batches outputs)) ∧
    (∀ outputs' unknown,
      (∀ output ∈ unknown, ∀ coverage ∈ output.coverage,
        coverage.batchId ∉ batches.map (·.batchId)) →
      outputs'.Perm (outputs ++ unknown) →
        (planCheckpoint current batches outputs').toOption =
          (planCheckpoint current batches outputs).toOption) ∧
    (∀ output plan plan', planCheckpoint current batches outputs = .ok plan →
      planCheckpoint current batches (outputs ++ [output]) = .ok plan' →
        targetOf current plan ≤ targetOf current plan') := by
  refine ⟨?_, ?_, ?_, ?_, ?_⟩
  · intro hdistinct hcontiguous hfits
    exact planCheckpoint_eq_ok.mpr ⟨hdistinct, hfits, hcontiguous.contiguousWhile, rfl⟩
  · rw [← not_contiguousWhile]
    cases h : planCheckpoint current batches outputs with
    | ok plan =>
      obtain ⟨hdistinct, hfits, hwhile, -⟩ := planCheckpoint_eq_ok.mp h
      simp [hdistinct, hfits, hwhile]
    | error e =>
      refine iff_of_true ⟨e, rfl⟩ ?_
      by_contra hnot
      simp only [not_or, not_not] at hnot
      have := planCheckpoint_eq_ok.mpr ⟨hnot.1, hnot.2.1, hnot.2.2, rfl⟩
      rw [h] at this
      cases this
  · intro plan h
    exact (planCheckpoint_eq_ok.mp h).2.2.2
  · intro outputs' unknown hunknown hperm
    exact planCheckpoint_perm_append current hunknown hperm
  · intro output plan plan' h h'
    exact targetOf_planCheckpoint_le (subset_append_left _ _) h h'

/-- Two batches, the first of which has its one position covered. -/
theorem planCheckpoint_exact_sample :
    planCheckpoint ⟨0⟩
        [⟨UuidV7.sample 5, ⟨0, 10, by decide⟩, [1], by decide, by decide⟩,
          ⟨UuidV7.sample 6, ⟨10, 30, by decide⟩, [1, 2], by decide, by decide⟩]
        [⟨OutputRecoveryRecord.sample 7 (UuidV7.sample 5) ⟨0, 10, by decide⟩⟩] =
      .ok (some ⟨⟨0⟩, ⟨10⟩⟩) := by
  refine (planCheckpoint_exact _ _ _).1 (by decide) ⟨rfl, rfl, trivial⟩ ⟨?_, ?_⟩
  · simp [PublishedOutput.coverage, OutputRecoveryRecord.sample]
    decide
  · simp [PublishedOutput.coverage, OutputRecoveryRecord.sample]

end Elucid
