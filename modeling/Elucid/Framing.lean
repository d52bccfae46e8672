import Elucid.Processing
import Elucid.Admission

/-!
# Framing

A body is cut into lines twice : while its chunks are read, where only the line feeds are
counted, and when it is normalized, where the bytes are scanned for the records. Neither uses
the other. `bodyLines` are the lines of a body in the sense of `Lines`, a line without the
carriage return before its line feed is its record, and a blank record is ignored.

`normalizeRecords_eq` : normalization is a map over the records that are not blank, which
passes on the event days. `normalizeRecords_framing` : the outcomes, their numbers and positions
and the ignored lines are those of the body, and admission counts the same lines however the
body is cut into chunks.
-/

namespace Elucid

open BigEndian Lines List

/-! ## Lines of a body -/

theorem length_bodyLines (body : Bytes) : (bodyLines body).length = framedRecords body :=
  length_lines body

theorem length_bodyLines_le (body : Bytes) : (bodyLines body).length ≤ body.length := by
  rw [length_bodyLines, framedRecords]
  cases hlast : body.getLast? with
  | none =>
    rw [getLast?_eq_none_iff.mp hlast]
    exact le_rfl
  | some last =>
    obtain ⟨front, rfl⟩ := getLast?_eq_some_iff.mp hlast
    have hle : front.count 0x0A ≤ front.length := count_le_length
    by_cases hfeed : last = 0x0A
    · simp [hfeed, hle]
    · simp [hfeed, hle]

/-- Every line is blank or has a record. -/
theorem length_recordLines (body : Bytes) :
    (recordLines body).length + (bodyLines body).countP isBlank = (bodyLines body).length := by
  rw [recordLines, ← countP_eq_length_filter, Nat.add_comm,
    @length_eq_countP_add_countP _ isBlank]
  simp

/-! ## Normalization line by line -/

section Normalization

variable [Chrono]

/-- Requirements are made from few increasing positions. -/
theorem BatchOutputRequirements.exists_fromNormalized {batch : NormalizedBatch}
    (hlength : batch.records.length ≤ maximumCoveredPositions)
    (hlt : (batch.records.map (·.inputPosition)).Pairwise (· < ·)) (spoolRange : SpoolBatchRange) :
    ∃ requirements, fromNormalized batch spoolRange = .ok requirements := by
  have hle : (batch.records.map (·.inputPosition)).length ≤ maximumCoveredPositions := by
    rwa [length_map]
  have hchain := isChain_iff_pairwise.mpr hlt
  refine ⟨⟨batch.metadata.batchId, spoolRange, _, hle, hchain⟩, ?_⟩
  rw [fromNormalized, BatchOutputRequirements.new, dif_pos hle, dif_pos hchain]

variable [ChronoText] [FloatText] [Blake3] [Base64] [SerdeJson]

/-- What `normalize_records` does with a line. -/
def normalizeBodyLine (plan : NormalizationPlan) (state : NormalizationState)
    (line : Line UInt8) : Except NormalizationError NormalizationState :=
  normalizeOccurrence plan (lineRecord line) line.offset line.number state

/-- The outcomes of the lines, which pass on the admitted event days. -/
def lineOutcomes (plan : NormalizationPlan) : List Int → List (Line UInt8) → List NormalizedRecord
  | _, [] => []
  | days, line :: lines =>
    let outcome := normalizeLine plan (lineRecord line) (lineLocation line) days
    outcome.1 :: lineOutcomes plan outcome.2 lines

/-- The loop takes the lines one by one, if their numbers fit. -/
theorem normalizeLines_eq_foldlM (plan : NormalizationPlan) {recordStart lineNumber : Nat}
    {line rest : Bytes} (hfits : lineNumber + rest.length < 2 ^ 64) (state : NormalizationState) :
    normalizeLines plan recordStart lineNumber line state rest =
      (scan 0x0A lineNumber recordStart line rest).foldlM (normalizeBodyLine plan) state := by
  induction rest generalizing recordStart lineNumber line state with
  | nil =>
    rw [normalizeLines, scan]
    split
    · rfl
    · rw [foldlM_cons]
      simp [normalizeBodyLine, lineRecord]
  | cons byte rest ih =>
    rw [length_cons] at hfits
    rw [normalizeLines, scan]
    by_cases hfeed : byte = 0x0A
    · rw [if_neg (not_not.mpr hfeed), if_pos hfeed, foldlM_cons, normalizeBodyLine, lineRecord,
        if_pos rfl]
      refine bind_congr fun next => ?_
      rw [checkedAdd_of_lt (by omega), okOr_some, ok_bind]
      exact ih (by omega) next
    · rw [if_pos hfeed, if_neg hfeed]
      exact ih (by omega) state

/-- A blank line is counted. -/
theorem normalizeBodyLine_of_isBlank (plan : NormalizationPlan) {state : NormalizationState}
    (hfits : state.ignoredRecords + 1 < 2 ^ 64) {line : Line UInt8} (hblank : isBlank line = true) :
    normalizeBodyLine plan state line =
      .ok { state with ignoredRecords := state.ignoredRecords + 1 } := by
  rw [isBlank] at hblank
  rw [normalizeBodyLine, normalizeOccurrence, if_pos hblank, checkedAdd_of_lt hfits, okOr_some]
  rfl

/-- A line that is not blank adds its outcome. -/
theorem normalizeBodyLine_of_not_isBlank (plan : NormalizationPlan) (state : NormalizationState)
    {line : Line UInt8} (hblank : ¬isBlank line = true) :
    let outcome :=
      normalizeLine plan (lineRecord line) (lineLocation line) state.admittedEventDays
    normalizeBodyLine plan state line =
      .ok ⟨state.records ++ [outcome.1], state.ignoredRecords, outcome.2⟩ := by
  rw [isBlank] at hblank
  rw [normalizeBodyLine, normalizeOccurrence, if_neg hblank]
  rfl

/-- The lines that are not blank add their outcomes, the blank ones are counted. -/
theorem foldlM_normalizeBodyLine (plan : NormalizationPlan) (lines : List (Line UInt8))
    (state : NormalizationState) (hfits : state.ignoredRecords + lines.length < 2 ^ 64) :
    ∃ days, lines.foldlM (normalizeBodyLine plan) state =
      .ok ⟨state.records ++ lineOutcomes plan state.admittedEventDays (lines.filter (!isBlank ·)),
        state.ignoredRecords + lines.countP isBlank, days⟩ := by
  induction lines generalizing state with
  | nil => exact ⟨state.admittedEventDays, by simp [lineOutcomes, pure, Except.pure]⟩
  | cons line lines ih =>
    rw [length_cons] at hfits
    rw [foldlM_cons]
    by_cases hblank : isBlank line
    · rw [normalizeBodyLine_of_isBlank plan (by omega) hblank, ok_bind]
      obtain ⟨days, hdays⟩ := ih { state with ignoredRecords := state.ignoredRecords + 1 }
        (by dsimp only; omega)
      exact ⟨days, hdays.trans (by simp [hblank, Nat.add_assoc, Nat.add_comm 1])⟩
    · rw [normalizeBodyLine_of_not_isBlank plan state hblank, ok_bind]
      obtain ⟨days, hdays⟩ := ih ⟨_, state.ignoredRecords, _⟩ (by dsimp only; omega)
      exact ⟨days, hdays.trans (by simp [hblank, lineOutcomes])⟩

/-- Normalization is a map over the records that passes on the event days. -/
theorem normalizeRecords_eq {metadata : BatchMetadata} {source : Source} {plan : NormalizationPlan}
    (hplan : NormalizationPlan.resolve metadata source = .ok plan) {body : Bytes}
    (hbody : body.length < 2 ^ 63) :
    normalizeRecords metadata body source =
      .ok ⟨metadata, lineOutcomes plan [] (recordLines body),
        (bodyLines body).countP isBlank⟩ := by
  have hlength := length_bodyLines_le body
  obtain ⟨days, hdays⟩ := foldlM_normalizeBodyLine plan (bodyLines body) ⟨[], 0, []⟩
    (by dsimp only; omega)
  rw [normalizeRecords, hplan, ok_bind, normalizeLines_eq_foldlM plan (by omega)]
  rw [bodyLines, lines] at hdays
  rw [hdays, ok_bind]
  simp [recordLines, bodyLines, lines, pure, Except.pure]

/-- Each outcome is that of its line. -/
theorem forall₂_lineOutcomes (plan : NormalizationPlan) (days : List Int)
    (lines : List (Line UInt8)) :
    List.Forall₂ (fun line record => ∃ days,
      record = (normalizeLine plan (lineRecord line) (lineLocation line) days).1)
      lines (lineOutcomes plan days lines) := by
  induction lines generalizing days with
  | nil => exact .nil
  | cons line lines ih => exact .cons ⟨days, rfl⟩ (ih _)

theorem map_location_lineOutcomes (plan : NormalizationPlan) (days : List Int)
    (lines : List (Line UInt8)) :
    (lineOutcomes plan days lines).map NormalizedRecord.location = lines.map lineLocation := by
  induction lines generalizing days with
  | nil => rfl
  | cons line lines ih =>
    rw [lineOutcomes, map_cons, map_cons, location_normalizeLine, ih]

theorem map_inputPosition_lineOutcomes (plan : NormalizationPlan) (days : List Int)
    (lines : List (Line UInt8)) :
    (lineOutcomes plan days lines).map (·.inputPosition) = lines.map Line.offset := by
  have h := congrArg (List.map RecordLocation.inputPosition)
    (map_location_lineOutcomes plan days lines)
  rw [map_map, map_map] at h
  exact (map_congr_left fun record _ => record.inputPosition_eq).trans h

theorem length_lineOutcomes (plan : NormalizationPlan) (days : List Int)
    (lines : List (Line UInt8)) : (lineOutcomes plan days lines).length = lines.length :=
  (forall₂_lineOutcomes plan days lines).length_eq.symm

/-- For every body and every catalog that resolves : the outcomes are those of the lines that
are not blank, at their numbers and positions, and the other lines are ignored. However the body
is cut into chunks, it is read exactly if it fits the limits, where the outcomes and the ignored
lines are what is counted, and then its requirements are complete. -/
theorem normalizeRecords_framing {metadata : BatchMetadata} {source : Source}
    {plan : NormalizationPlan} (hplan : NormalizationPlan.resolve metadata source = .ok plan)
    {body : Bytes} (hbody : body.length < 2 ^ 63) :
    (∀ line, line ∈ bodyLines body ↔ ∃ offset < body.length, IsStart 0x0A body offset ∧
      line = lineAt 0x0A body offset) ∧
    ∃ batch, normalizeRecords metadata body source = .ok batch ∧
      batch.records.map (·.location) = (recordLines body).map lineLocation ∧
      List.Forall₂ (fun line record => ∃ days,
        record = (normalizeLine plan (lineRecord line) (lineLocation line) days).1)
        (recordLines body) batch.records ∧
      batch.ignoredRecords = (bodyLines body).countP isBlank ∧
      (batch.records.map (·.inputPosition)).Pairwise (· < ·) ∧
      (∀ chunks : List Bytes, chunks.flatten = body → ∀ maximumBodyBytes maximumRecords,
        maximumBodyBytes < 2 ^ 64 → maximumRecords + 1 < 2 ^ 64 →
        readBoundedNdjson (chunks.map some) maximumBodyBytes maximumRecords =
          if body.length ≤ maximumBodyBytes ∧
              batch.records.length + batch.ignoredRecords ≤ maximumRecords then .ok body
          else .error .limitExceeded) ∧
      ∀ chunks : List Bytes, chunks.flatten = body → ∀ maximumBodyBytes < 2 ^ 64,
        readBoundedNdjson (chunks.map some) maximumBodyBytes maximumHttpBatchRecords = .ok body →
        ∀ spoolRange, ∃ requirements,
          BatchOutputRequirements.fromNormalized batch spoolRange = .ok requirements := by
  have hpositions :
      ((lineOutcomes plan [] (recordLines body)).map (·.inputPosition)).Pairwise (· < ·) := by
    rw [map_inputPosition_lineOutcomes]
    exact pairwise_recordPositions body
  have hcount : (lineOutcomes plan [] (recordLines body)).length +
      (bodyLines body).countP isBlank = framedRecords body := by
    rw [length_lineOutcomes, length_recordLines, length_bodyLines]
  refine ⟨fun line => mem_lines, _, normalizeRecords_eq hplan hbody,
    map_location_lineOutcomes plan [] _, forall₂_lineOutcomes plan [] _, rfl, hpositions, ?_, ?_⟩
  · rintro chunks rfl maximumBodyBytes maximumRecords hbytes hrecords
    dsimp only
    rw [hcount]
    exact readBoundedNdjson_eq hbytes hrecords chunks
  · rintro chunks rfl maximumBodyBytes hbytes hread spoolRange
    rw [readBoundedNdjson_eq hbytes (by decide) chunks] at hread
    split at hread
    · rename_i hfits
      refine BatchOutputRequirements.exists_fromNormalized ?_ hpositions spoolRange
      dsimp only
      have hle : maximumHttpBatchRecords ≤ maximumCoveredPositions := le_rfl
      omega
    · cases hread

end Normalization

section Sample

attribute [local instance] Chrono.unbounded SerdeJson.plain ChronoText.silent FloatText.silent
  Base64.empty Blake3.constant

/-- Whitespace, a line that ends in a carriage return, and a line without an end. -/
def threeLines : Bytes := [0x20, 0x0A, 0x7B, 0x0D, 0x0A, 0x7D]

/-- One line is ignored. The brace is the record of line 2, and the other one of line 3. -/
theorem normalizeRecords_framing_threeLines :
    (recordLines threeLines).map lineRecord = [[0x7B], [0x7D]] ∧
    ∃ batch, normalizeRecords (BatchMetadata.sample 9) threeLines Source.sample = .ok batch ∧
      batch.records.map (·.location) = [⟨2, 2⟩, ⟨3, 5⟩] ∧ batch.ignoredRecords = 1 ∧
      readBoundedNdjson [some [0x20, 0x0A, 0x7B, 0x0D], some [], some [0x0A, 0x7D]] 6 3 =
        .ok threeLines ∧
      ∀ spoolRange, ∃ requirements,
        BatchOutputRequirements.fromNormalized batch spoolRange = .ok requirements := by
  obtain ⟨-, batch, hbatch, hlocation, -, hignored, -, hread, hrequirements⟩ :=
    normalizeRecords_framing
      (show NormalizationPlan.resolve (BatchMetadata.sample 9) Source.sample = .ok _ from rfl)
      (show threeLines.length < 2 ^ 63 by decide)
  have hlength : batch.records.length + batch.ignoredRecords = 3 := by
    rw [hignored, ← length_map, hlocation]
    decide
  have hchunks : [[0x20, 0x0A, 0x7B, 0x0D], [], [0x0A, 0x7D]].flatten = threeLines := rfl
  refine ⟨by decide, batch, hbatch, hlocation.trans (by decide), hignored.trans (by decide), ?_, ?_⟩
  · exact (hread _ hchunks 6 3 (by decide) (by decide)).trans (if_pos ⟨by decide, by omega⟩)
  · refine hrequirements _ hchunks 6 (by decide) ?_
    rw [hread _ hchunks 6 maximumHttpBatchRecords (by decide) (by decide)]
    exact if_pos ⟨by decide, by rw [hlength]; decide⟩

end Sample

end Elucid
