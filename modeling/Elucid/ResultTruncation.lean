import Elucid.Arrow
import Elucid.Effect
import Elucid.RemainderReaders
import Elucid.RowEstimate

/-!
# Results of queries

The rows of a query come in record batches, and they are encoded one by one until a row would
exceed the limit for rows or for bytes. The bytes are counted as if the rows were written as one
JSON array : two for the brackets, and a separator in front of every row but the first.

The clock, the memory and the stream are those of an environment. Statistics about the snapshot
and the elapsed time are left out.

`result_truncation_exact` : where nothing fails, the kept rows are the longest beginning of the
rows within both limits, whatever batches they come in, and the count is the length of the text.
-/

namespace Elucid

open BigEndian Effect List

/-! ## Rows -/

/-- The value of an array in a row. -/
def Arrow.ArrayRef.scalarAt (array : Arrow.ArrayRef) (index : Nat) : ScalarValue :=
  match array with
  | ⟨.boolean, values⟩ => .boolean values[index]?.join
  | ⟨.int32, values⟩ => .int32 values[index]?.join
  | ⟨.int64, values⟩ => .int64 values[index]?.join
  | ⟨.uint32, values⟩ => .uint32 (values[index]?.join.map Int.ofNat)
  | ⟨.uint64, values⟩ => .uint64 (values[index]?.join.map Int.ofNat)
  | ⟨.float32, values⟩ => .float32 values[index]?.join
  | ⟨.float64, values⟩ => .float64 values[index]?.join
  | ⟨.utf8, values⟩ => .utf8 values[index]?.join
  | ⟨.timestampMillisecond, values⟩ => .timestampMillisecond values[index]?.join (some utcTimezone)
  | ⟨.fixedSizeBinary width, values⟩ =>
    .fixedSizeBinary width (values[index]?.join.map Subtype.val)

abbrev QueryRow := List Value

structure QueryColumn where
  name : Text
  logicalType : LogicalType
  nullability : Nullability
  deriving DecidableEq

inductive QueryTruncationReason
  | outputRows
  | outputBytes
  deriving DecidableEq, Repr

inductive QueryCompletion
  | complete
  | truncated (reason : QueryTruncationReason)
  deriving DecidableEq, Repr

/-- `EngineError`, as far as a result has it, with the errors of the stream. -/
inductive ResultError (ε : Type)
  | stream (error : ε)
  | cancelled
  | timeout
  | resourcesExhausted
  | encodedRowBytes (maximum : Nat)
  | encode (error : EncodeError)

def maximumEncodedQueryRowBytes : Nat := 1048576

def emptyEncodedRowsBytes : Nat := 2

structure QueryOutputRowLimit where
  get : Nat
  pos : 0 < get
  lt : get < 2 ^ 64

/-- `QueryExecutionLimits`, as far as a result has them. -/
structure QueryExecutionLimits where
  maximumResultBytes : Nat
  le : emptyEncodedRowsBytes ≤ maximumResultBytes
  lt : maximumResultBytes < 2 ^ 64

/-- What the machine answers while a result is made. -/
structure ResultEnvironment (ε : Type) where
  /-- `QueryExecutionGuard::ensure_active`, by the number of calls before. -/
  ensureActive : Nat → Except (ResultError ε) Unit
  /-- `MemoryReservation::try_grow`, by the number of growths before, the size of the
  reservation and the bytes that are asked for. -/
  tryGrow : Nat → Nat → Nat → Bool

/-- `QueryResultBuilder`, with the size of its reservation. -/
structure QueryResultBuilder where
  rows : List QueryRow
  outputBytes : Nat
  maximumRows : Nat
  maximumBytes : Nat
  maximumRowBytes : Nat
  memoryReservation : Nat

inductive PushOutcome
  | accepted
  | truncated (reason : QueryTruncationReason)
  deriving DecidableEq, Repr

structure QueryResult where
  columns : List QueryColumn
  rows : List QueryRow
  completion : QueryCompletion
  outputRows : Nat
  outputBytes : Nat

/-! ## The builder -/

/-- `LogicalType::arrow_data_type`. -/
def Catalog.arrowDataType : LogicalType → Arrow.DataType
  | .bool => .boolean
  | .int32 => .int32
  | .int64 => .int64
  | .uint32 => .uint32
  | .uint64 => .uint64
  | .float32 => .float32
  | .float64 => .float64
  | .utf8 | .json => .utf8
  | .datetime => .timestampMillisecond
  | .eid => .fixedSizeBinary 16

/-- `validate_batch`. -/
def validateBatch (batch : Arrow.RecordBatch) (relation : Ir.Relation) :
    Except EncodeError Unit := do
  ensure (batch.columns.length = relation.fields.length)
    (.executionInvariant "query result width contradicts its typed relation")
  (batch.schema.zip relation.fields).forM fun (physical, logical) =>
    ensure (physical.name = logical.name ∧
        physical.dataType = Catalog.arrowDataType logical.logicalType)
      (.executionInvariant "query result field contradicts its typed relation")

section Builder

variable {ε : Type} [JsonText] [FloatArithmetic] [Chrono] [ChronoFormat]

def encodeRow (batch : Arrow.RecordBatch) (relation : Ir.Relation) (rowIndex : Nat) :
    Except EncodeError QueryRow :=
  (batch.columns.zip relation.fields).mapM fun (array, field) =>
    QueryResult.encodeValue (array.scalarAt rowIndex) field.logicalType field.nullability

namespace QueryResultBuilder

/-- `QueryResultBuilder::new`. -/
def new (environment : ResultEnvironment ε) (limits : QueryExecutionLimits)
    (outputRowLimit : QueryOutputRowLimit) : Except (ResultError ε) QueryResultBuilder := do
  ensure (environment.tryGrow 0 0 emptyEncodedRowsBytes = true) .resourcesExhausted
  return {
    rows := []
    outputBytes := emptyEncodedRowsBytes
    maximumRows := outputRowLimit.get
    maximumBytes := limits.maximumResultBytes
    maximumRowBytes := maximumEncodedQueryRowBytes
    memoryReservation := emptyEncodedRowsBytes }

/-- The separator in front of the next row. -/
def separatorBytes (rows : List QueryRow) : Nat := if rows = [] then 0 else 1

variable [SerdeJson]

/-- `QueryResultBuilder::push`. A `u64` holds every `usize`. -/
def push (environment : ResultEnvironment ε) (builder : QueryResultBuilder)
    (batch : Arrow.RecordBatch) (relation : Ir.Relation) (rowIndex : Nat) :
    Except (ResultError ε) (PushOutcome × QueryResultBuilder) := do
  if builder.maximumRows ≤ builder.rows.length then return (.truncated .outputRows, builder)
  else
    let row ← (encodeRow batch relation rowIndex).mapError .encode
    let encodedRowBytes := (encodeValue (.array row)).length
    ensure (encodedRowBytes ≤ builder.maximumRowBytes) (.encodedRowBytes builder.maximumRowBytes)
    let additionalBytes ← okOr (checkedAdd encodedRowBytes (separatorBytes builder.rows))
      (.encode (.executionInvariant "query result byte count overflowed"))
    let candidateBytes ← okOr (checkedAdd builder.outputBytes additionalBytes)
      (.encode (.executionInvariant "query result byte count overflowed"))
    if builder.maximumBytes < candidateBytes then return (.truncated .outputBytes, builder)
    else
      ensure (environment.tryGrow (builder.rows.length + 1) builder.memoryReservation
        additionalBytes = true) .resourcesExhausted
      return (.accepted, { builder with
        rows := builder.rows ++ [row]
        outputBytes := candidateBytes
        memoryReservation := builder.memoryReservation + additionalBytes })

end QueryResultBuilder

/-! ## The loop -/

/-- A call of `ensure_active`. -/
def ensureActive (environment : ResultEnvironment ε) : EStateM (ResultError ε) Nat Unit :=
  ofStep fun calls => (environment.ensureActive calls).map fun _ => ((), calls + 1)

/-- A part of the loop that does not ask for the time. -/
def untimed {α : Type} (x : Except (ResultError ε) α) : EStateM (ResultError ε) Nat α :=
  ofStep fun calls => x.map fun a => (a, calls)

variable [SerdeJson]

/-- The rows of a batch in `encode_query_result`. -/
def pushRows (environment : ResultEnvironment ε) (relation : Ir.Relation)
    (batch : Arrow.RecordBatch) : List Nat → QueryResultBuilder →
      EStateM (ResultError ε) Nat (PushOutcome × QueryResultBuilder)
  | [], builder => pure (.accepted, builder)
  | rowIndex :: rest, builder => do
    ensureActive environment
    match ← untimed (builder.push environment batch relation rowIndex) with
    | (.accepted, builder) => pushRows environment relation batch rest builder
    | (.truncated reason, builder) => pure (.truncated reason, builder)

/-- The batches of the stream in `encode_query_result`. -/
def pushBatches (environment : ResultEnvironment ε) (relation : Ir.Relation) :
    List (Except ε Arrow.RecordBatch) → QueryResultBuilder →
      EStateM (ResultError ε) Nat (QueryCompletion × QueryResultBuilder)
  | [], builder => pure (.complete, builder)
  | next :: rest, builder => do
    ensureActive environment
    let batch ← untimed (next.mapError .stream)
    untimed ((validateBatch batch relation).mapError .encode)
    match ← pushRows environment relation batch (List.range batch.rowCount) builder with
    | (.truncated reason, builder) => pure (.truncated reason, builder)
    | (.accepted, builder) => do
      ensureActive environment
      pushBatches environment relation rest builder

def finishResult (columns : List QueryColumn) (builder : QueryResultBuilder)
    (completion : QueryCompletion) : QueryResult :=
  ⟨columns, builder.rows, completion, builder.rows.length, builder.outputBytes⟩

/-- `encode_query_result`. -/
def encodeQueryResult (environment : ResultEnvironment ε) (relation : Ir.Relation)
    (limits : QueryExecutionLimits) (outputRowLimit : QueryOutputRowLimit)
    (batches : List (Except ε Arrow.RecordBatch)) : EStateM (ResultError ε) Nat QueryResult := do
  ensureActive environment
  let columns := relation.fields.map fun field =>
    ⟨field.name, field.logicalType, field.nullability⟩
  let builder ← untimed (QueryResultBuilder.new environment limits outputRowLimit)
  let (completion, builder) ← pushBatches environment relation batches builder
  return finishResult columns builder completion

end Builder

/-! ## Encoded rows -/

section Encoded

variable [SerdeJson]

/-- The JSON text of some rows. -/
def encodedRows (rows : List QueryRow) : Bytes := encodeValue (.array (rows.map .array))

theorem encodeValues_cons (value : Value) {rest : List Value} (h : rest ≠ []) :
    encodeValues (value :: rest) = encodeValue value ++ [0x2C] ++ encodeValues rest := by
  cases rest with
  | nil => exact absurd rfl h
  | cons second rest => rw [encodeValues]; simp

theorem encodeValues_concat (values : List Value) (value : Value) :
    encodeValues (values ++ [value]) =
      encodeValues values ++ (if values = [] then [] else [0x2C]) ++ encodeValue value := by
  induction values with
  | nil => simp [encodeValues]
  | cons first rest ih =>
    rcases eq_or_ne rest [] with rfl | hrest
    · simp [encodeValues]
    · rw [cons_append, encodeValues_cons first (by simp), ih, encodeValues_cons first hrest,
        if_neg hrest, if_neg (cons_ne_nil _ _)]
      simp only [append_assoc]

/-- One row more adds its text, and a separator behind another row. -/
theorem length_encodedRows_concat (rows : List QueryRow) (row : QueryRow) :
    (encodedRows (rows ++ [row])).length = (encodedRows rows).length +
      ((encodeValue (.array row)).length + QueryResultBuilder.separatorBytes rows) := by
  rw [encodedRows, encodedRows, map_append, map_singleton, encodeValue, encodeValue,
    encodeValues_concat, QueryResultBuilder.separatorBytes]
  simp only [map_eq_nil_iff, length_append, length_singleton]
  split_ifs <;> simp only [length_nil, length_singleton] <;> omega

theorem length_encodedRows_nil : (encodedRows []).length = emptyEncodedRowsBytes := rfl

/-! ## Cutting rows -/

/-- The rows that are kept if some are kept already, and whether all are. -/
def cutRows (maximumRows maximumBytes : Nat) :
    List QueryRow → List QueryRow → List QueryRow × QueryCompletion
  | kept, [] => (kept, .complete)
  | kept, row :: rest =>
    if maximumRows ≤ kept.length then (kept, .truncated .outputRows)
    else if maximumBytes < (encodedRows (kept ++ [row])).length then
      (kept, .truncated .outputBytes)
    else cutRows maximumRows maximumBytes (kept ++ [row]) rest

/-- Some rows exceed the limit of a reason. -/
def QueryTruncationReason.ViolatedBy (reason : QueryTruncationReason)
    (maximumRows maximumBytes : Nat) (rows : List QueryRow) : Prop :=
  match reason with
  | .outputRows => maximumRows < rows.length
  | .outputBytes => maximumBytes < (encodedRows rows).length

/-- The cut of some rows keeps a beginning within both limits, and ends in front of a row that
exceeds the one that is named. -/
structure IsCut (maximumRows maximumBytes : Nat) (rows kept : List QueryRow)
    (completion : QueryCompletion) : Prop where
  of_rows : kept <+: rows
  length_le : kept.length ≤ maximumRows
  bytes_le : (encodedRows kept).length ≤ maximumBytes
  complete_iff : completion = .complete ↔ kept = rows
  reason : ∀ reason, completion = .truncated reason → ∃ row rest, rows = kept ++ row :: rest ∧
    reason.ViolatedBy maximumRows maximumBytes (kept ++ [row])

theorem isCut_cutRows {maximumRows maximumBytes : Nat} {kept : List QueryRow} (rest : List QueryRow)
    (hlength : kept.length ≤ maximumRows) (hbytes : (encodedRows kept).length ≤ maximumBytes) :
    IsCut maximumRows maximumBytes (kept ++ rest) (cutRows maximumRows maximumBytes kept rest).1
      (cutRows maximumRows maximumBytes kept rest).2 := by
  induction rest generalizing kept with
  | nil =>
    rw [append_nil, cutRows]
    exact ⟨prefix_rfl, hlength, hbytes, by simp, fun _ h => by cases h⟩
  | cons row rest ih =>
    rw [cutRows]
    split_ifs with hrows hexceeds
    · refine ⟨prefix_append _ _, hlength, hbytes, by simp, ?_⟩
      rintro _ ⟨⟩
      refine ⟨row, rest, rfl, ?_⟩
      rw [QueryTruncationReason.ViolatedBy, length_append, length_singleton]
      exact Nat.lt_succ_of_le hrows
    · refine ⟨prefix_append _ _, hlength, hbytes, by simp, ?_⟩
      rintro _ ⟨⟩
      exact ⟨row, rest, rfl, hexceeds⟩
    · have hlength' : (kept ++ [row]).length ≤ maximumRows := by
        rw [length_append, length_singleton]
        exact Nat.succ_le_of_lt (not_le.mp hrows)
      have hnext := ih hlength' (not_lt.mp hexceeds)
      rwa [append_assoc, singleton_append] at hnext

end Encoded

/-! ## What the builder does -/

section Environments

variable {ε : Type}
variable {E : ResultError ε → Nat → Prop} {calls : Nat}

/-- No machine grants more bytes than a pointer may span. -/
def ResultEnvironment.Finite (environment : ResultEnvironment ε) : Prop :=
  ∀ growths size bytes, environment.tryGrow growths size bytes = true → size + bytes < 2 ^ 63

/-- Nobody cancels the query, and it is in time. -/
def ResultEnvironment.Active (environment : ResultEnvironment ε) : Prop :=
  ∀ calls, environment.ensureActive calls = .ok ()

theorem wp_ensureActive {environment : ResultEnvironment ε} (h : environment.Active)
    {Q : Unit → Nat → Prop} :
    wp (ensureActive environment) Q E calls ↔ Q () (calls + 1) := by
  rw [ensureActive, wp_ofStep, h calls]
  constructor
  · intro hstep
    exact hstep.1 () (calls + 1) rfl
  · intro hQ
    refine ⟨fun _ _ hstep => ?_, fun _ hstep => by cases hstep⟩
    cases hstep
    exact hQ

theorem wp_untimed {α : Type} {x : Except (ResultError ε) α} {Q : α → Nat → Prop} :
    wp (untimed x) Q E calls ↔
      (∀ a, x = .ok a → Q a calls) ∧ ∀ error, x = .error error → E error calls := by
  rw [untimed, wp_ofStep]
  cases x with
  | ok a => simp [Except.map]
  | error error => simp [Except.map]

end Environments

section Runs

variable {ε : Type} [SerdeJson]
variable {batches : List Arrow.RecordBatch} {rows : List QueryRow} {calls : Nat} {rowIndex : Nat}
variable {environment : ResultEnvironment ε} {limits : QueryExecutionLimits}
  {outputRowLimit : QueryOutputRowLimit} {builder : QueryResultBuilder} {relation : Ir.Relation}
  {batch : Arrow.RecordBatch}

/-- The bytes of a builder are those of the text of its rows. -/
def QueryResultBuilder.Counts (builder : QueryResultBuilder) : Prop :=
  builder.outputBytes = (encodedRows builder.rows).length

/-- A builder of some limits, with what it has reserved. -/
structure QueryResultBuilder.Ready (builder : QueryResultBuilder)
    (limits : QueryExecutionLimits) (outputRowLimit : QueryOutputRowLimit) : Prop where
  counts : builder.Counts
  maximumRows_eq : builder.maximumRows = outputRowLimit.get
  maximumBytes_eq : builder.maximumBytes = limits.maximumResultBytes
  maximumRowBytes_eq : builder.maximumRowBytes = maximumEncodedQueryRowBytes
  length_le : builder.rows.length ≤ outputRowLimit.get
  outputBytes_le : builder.outputBytes ≤ limits.maximumResultBytes
  reservation_eq : builder.memoryReservation = builder.outputBytes
  reservation_lt : builder.memoryReservation < 2 ^ 63

/-- A new builder has no rows, and has reserved the bytes of none. -/
theorem ready_of_new (h : QueryResultBuilder.new environment limits outputRowLimit = .ok builder) :
    builder.rows = [] ∧ builder.Ready limits outputRowLimit := by
  obtain ⟨_, -, h⟩ := bind_eq_ok.mp h
  cases h
  exact ⟨rfl, length_encodedRows_nil.symm, rfl, rfl, rfl, Nat.zero_le _, limits.le, rfl,
    by norm_num [emptyEncodedRowsBytes]⟩

/-- The result of some rows. -/
structure IsResult (relation : Ir.Relation) (limits : QueryExecutionLimits)
    (outputRowLimit : QueryOutputRowLimit) (rows : List QueryRow) (result : QueryResult) :
    Prop where
  columns_eq : result.columns = relation.fields.map fun field =>
    ⟨field.name, field.logicalType, field.nullability⟩
  cut_eq : cutRows outputRowLimit.get limits.maximumResultBytes [] rows =
    (result.rows, result.completion)
  outputRows_eq : result.outputRows = result.rows.length
  outputBytes_eq : result.outputBytes = (encodedRows result.rows).length

/-- Rows have one result. -/
theorem IsResult.unique {result other : QueryResult}
    (h : IsResult relation limits outputRowLimit rows result)
    (hother : IsResult relation limits outputRowLimit rows other) : result = other := by
  obtain ⟨columns, kept, completion, outputRows, outputBytes⟩ := result
  obtain ⟨hcolumns, hcut, hrows, hbytes⟩ := h
  obtain ⟨hcolumns', hcut', hrows', hbytes'⟩ := hother
  obtain ⟨rfl, rfl⟩ := Prod.mk.inj (hcut.symm.trans hcut')
  dsimp only at hcolumns hrows hbytes
  rw [hcolumns, hrows, hbytes, ← hcolumns', ← hrows', ← hbytes']

variable [JsonText] [FloatArithmetic] [Chrono] [ChronoFormat]

/-- How far a builder is with some rows, when it has taken or refused the last of them. -/
def Follows (limits : QueryExecutionLimits) (outputRowLimit : QueryOutputRowLimit)
    (kept rows : List QueryRow) (outcome : PushOutcome) (next : QueryResultBuilder) : Prop :=
  next.Ready limits outputRowLimit ∧ ∀ later,
    cutRows outputRowLimit.get limits.maximumResultBytes kept (rows ++ later) =
      match outcome with
      | .accepted => cutRows outputRowLimit.get limits.maximumResultBytes next.rows later
      | .truncated reason => (next.rows, .truncated reason)

theorem QueryResultBuilder.Counts.push (h : builder.Counts) {outcome : PushOutcome}
    {next : QueryResultBuilder}
    (hpush : builder.push environment batch relation rowIndex = .ok (outcome, next)) :
    next.Counts := by
  rw [QueryResultBuilder.push] at hpush
  split_ifs at hpush
  · cases hpush
    exact h
  · obtain ⟨row, -, hpush⟩ := bind_eq_ok.mp hpush
    obtain ⟨_, -, hpush⟩ := bind_eq_ok.mp hpush
    obtain ⟨additional, hadditional, hpush⟩ := bind_eq_ok.mp hpush
    obtain ⟨candidate, hcandidate, hpush⟩ := bind_eq_ok.mp hpush
    obtain ⟨rfl, -⟩ := checkedAdd_eq_some (okOr_eq_ok hadditional)
    obtain ⟨rfl, -⟩ := checkedAdd_eq_some (okOr_eq_ok hcandidate)
    split_ifs at hpush
    · cases hpush
      exact h
    · obtain ⟨_, -, hpush⟩ := bind_eq_ok.mp hpush
      cases hpush
      rw [QueryResultBuilder.Counts, length_encodedRows_concat, ← h]

/-- A row within its own limit, where nothing overflows. -/
theorem push_eq {row : QueryRow} (hrows : ¬builder.maximumRows ≤ builder.rows.length)
    (hrow : encodeRow batch relation rowIndex = .ok row)
    (hle : (encodeValue (.array row)).length ≤ builder.maximumRowBytes) {additionalBytes : Nat}
    (hadditional : additionalBytes =
      (encodeValue (.array row)).length + QueryResultBuilder.separatorBytes builder.rows)
    (hlt : builder.outputBytes + additionalBytes < 2 ^ 64) :
    builder.push environment batch relation rowIndex =
      if builder.maximumBytes < builder.outputBytes + additionalBytes then
        .ok (.truncated .outputBytes, builder)
      else do
        ensure (environment.tryGrow (builder.rows.length + 1) builder.memoryReservation
          additionalBytes = true) .resourcesExhausted
        return (.accepted, { builder with
          rows := builder.rows ++ [row]
          outputBytes := builder.outputBytes + additionalBytes
          memoryReservation := builder.memoryReservation + additionalBytes }) := by
  subst hadditional
  rw [QueryResultBuilder.push, if_neg hrows, mapError_eq_ok.mpr hrow, ok_bind]
  dsimp only
  rw [ensure_of hle, ok_bind, checkedAdd_of_lt (by omega), okOr_some, ok_bind,
    checkedAdd_of_lt hlt, okOr_some, ok_bind]
  rfl

/-- A row that can be encoded is taken or refused as the cut says, or there is no memory. -/
theorem push_follows (hready : builder.Ready limits outputRowLimit) (hfinite : environment.Finite)
    {row : QueryRow} (hrow : encodeRow batch relation rowIndex = .ok row)
    (hle : (encodeValue (.array row)).length ≤ maximumEncodedQueryRowBytes) :
    (∃ outcome next, builder.push environment batch relation rowIndex = .ok (outcome, next) ∧
      Follows limits outputRowLimit builder.rows [row] outcome next) ∨
      builder.push environment batch relation rowIndex = .error .resourcesExhausted := by
  have hbytes : builder.outputBytes = (encodedRows builder.rows).length := hready.counts
  have hmaximum : maximumEncodedQueryRowBytes = 1048576 := rfl
  have hreserved := hready.reservation_lt
  have hreservation := hready.reservation_eq
  have hseparator : QueryResultBuilder.separatorBytes builder.rows ≤ 1 := by
    rw [QueryResultBuilder.separatorBytes]
    split_ifs <;> omega
  by_cases hrows : outputRowLimit.get ≤ builder.rows.length
  · rw [QueryResultBuilder.push, hready.maximumRows_eq, if_pos hrows]
    refine .inl ⟨_, _, rfl, hready, fun later => ?_⟩
    rw [singleton_append, cutRows, if_pos hrows]
  obtain ⟨additional, hadditional⟩ : ∃ additional, additional =
    (encodeValue (.array row)).length + QueryResultBuilder.separatorBytes builder.rows := ⟨_, rfl⟩
  have hnext : (encodedRows (builder.rows ++ [row])).length = builder.outputBytes + additional := by
    rw [length_encodedRows_concat, ← hbytes, hadditional]
  rw [push_eq (hready.maximumRows_eq ▸ hrows) hrow (hready.maximumRowBytes_eq ▸ hle) hadditional
    (by omega), hready.maximumBytes_eq]
  by_cases hexceeds : limits.maximumResultBytes < builder.outputBytes + additional
  · rw [if_pos hexceeds]
    refine .inl ⟨_, _, rfl, hready, fun later => ?_⟩
    rw [singleton_append, cutRows, if_neg hrows, hnext, if_pos hexceeds]
  rw [if_neg hexceeds]
  cases hgrow : environment.tryGrow (builder.rows.length + 1) builder.memoryReservation additional with
  | false => exact .inr rfl
  | true =>
    refine .inl ⟨_, _, rfl, ?_, fun later => ?_⟩
    · exact {
        counts := hnext.symm
        maximumRows_eq := hready.maximumRows_eq
        maximumBytes_eq := rfl
        maximumRowBytes_eq := hready.maximumRowBytes_eq
        length_le := by
          rw [length_append, length_singleton]
          exact Nat.succ_le_of_lt (not_le.mp hrows)
        outputBytes_le := not_lt.mp hexceeds
        reservation_eq := by rw [hreservation]
        reservation_lt := hfinite _ _ _ hgrow }
    · rw [singleton_append, cutRows, if_neg hrows, hnext, if_neg hexceeds]

/-- The builder is behind the rows of a batch, or there is no memory. -/
theorem wp_pushRows (hactive : environment.Active) (hfinite : environment.Finite)
    {indexes : List Nat} (hrows : indexes.mapM (encodeRow batch relation) = .ok rows)
    (hle : ∀ row ∈ rows, (encodeValue (.array row)).length ≤ maximumEncodedQueryRowBytes)
    (hready : builder.Ready limits outputRowLimit) :
    wp (pushRows environment relation batch indexes builder)
      (fun result _ => Follows limits outputRowLimit builder.rows rows result.1 result.2)
      (fun error _ => error = .resourcesExhausted) calls := by
  replace hrows := forall₂_of_mapM_eq_ok hrows
  induction hrows generalizing builder calls with
  | nil => exact ⟨hready, fun later => rfl⟩
  | @cons rowIndex row indexes rows hrow hrows ih =>
    obtain ⟨hrowle, hle⟩ := forall_mem_cons.mp hle
    rw [pushRows, wp_bind, wp_ensureActive hactive, wp_bind, wp_untimed]
    rcases push_follows hready hfinite hrow hrowle with ⟨outcome, next, hpush, hfollows⟩ | hpush
    · rw [hpush]
      refine ⟨fun result hresult => ?_, fun _ h => by cases h⟩
      cases hresult
      obtain ⟨hnext, hcut⟩ := hfollows
      cases outcome with
      | accepted =>
        refine wp_mono (ih hle hnext) (fun result _ hresult => ⟨hresult.1, fun later => ?_⟩)
          fun _ _ h => h
        rw [← hresult.2 later]
        exact hcut (rows ++ later)
      | truncated reason => exact ⟨hnext, fun later => hcut (rows ++ later)⟩
    · rw [hpush]
      refine ⟨fun _ h => (by cases h), fun error herror => ?_⟩
      cases herror
      rfl

/-- The rows of a batch. -/
def rowsOf (relation : Ir.Relation) (batch : Arrow.RecordBatch) :
    Except EncodeError (List QueryRow) :=
  (List.range batch.rowCount).mapM (encodeRow batch relation)

/-- The builder ends with the cut of the rows of all batches, or there is no memory. -/
theorem wp_pushBatches (hactive : environment.Active) (hfinite : environment.Finite)
    {parts : List (List QueryRow)}
    (hvalid : ∀ batch ∈ batches, validateBatch batch relation = .ok ())
    (hparts : batches.mapM (rowsOf relation) = .ok parts)
    (hle : ∀ row ∈ parts.flatten, (encodeValue (.array row)).length ≤ maximumEncodedQueryRowBytes)
    (hready : builder.Ready limits outputRowLimit) :
    wp (pushBatches environment relation (batches.map .ok) builder)
      (fun result _ => result.2.Ready limits outputRowLimit ∧
        cutRows outputRowLimit.get limits.maximumResultBytes builder.rows parts.flatten =
          (result.2.rows, result.1))
      (fun error _ => error = .resourcesExhausted) calls := by
  replace hparts := forall₂_of_mapM_eq_ok hparts
  induction hparts generalizing builder calls with
  | nil => exact ⟨hready, rfl⟩
  | @cons batch rows batches parts hrows hparts ih =>
    obtain ⟨hbatch, hvalid⟩ := forall_mem_cons.mp hvalid
    rw [flatten_cons] at hle ⊢
    rw [map_cons, pushBatches, wp_bind, wp_ensureActive hactive, wp_bind, wp_untimed]
    refine ⟨fun opened hopened => ?_, fun _ h => by cases h⟩
    cases hopened
    rw [wp_bind, wp_untimed, hbatch]
    refine ⟨fun _ _ => ?_, fun _ h => by cases h⟩
    rw [wp_bind]
    refine wp_mono (wp_pushRows hactive hfinite hrows
      (fun row hrow => hle row (mem_append_left _ hrow)) hready)
      (fun result _ hresult => ?_) fun _ _ h => h
    obtain ⟨outcome, next⟩ := result
    obtain ⟨hnext, hcut⟩ := hresult
    cases outcome with
    | truncated reason => exact ⟨hnext, hcut parts.flatten⟩
    | accepted =>
      rw [wp_bind, wp_ensureActive hactive]
      refine wp_mono (ih hvalid (fun row hrow => hle row (mem_append_right _ hrow)) hnext)
        (fun result _ hresult => ⟨hresult.1, ?_⟩) fun _ _ h => h
      rw [← hresult.2]
      exact hcut parts.flatten

/-- A stream of valid batches with some rows, each of which is within its own limit, on a machine
where nobody stops the query and the memory is enough. -/
structure Undisturbed (environment : ResultEnvironment ε) (relation : Ir.Relation)
    (limits : QueryExecutionLimits) (outputRowLimit : QueryOutputRowLimit)
    (batches : List Arrow.RecordBatch) (rows : List QueryRow) (calls : Nat) : Prop where
  active : environment.Active
  finite : environment.Finite
  valid : ∀ batch ∈ batches, validateBatch batch relation = .ok ()
  rows_eq : (batches.mapM (rowsOf relation)).map List.flatten = .ok rows
  row_le : ∀ row ∈ rows, (encodeValue (.array row)).length ≤ maximumEncodedQueryRowBytes
  memory : ∀ after, encodeQueryResult environment relation limits outputRowLimit
    (batches.map .ok) calls ≠ .error .resourcesExhausted after

theorem wp_encodeQueryResult
    (h : Undisturbed environment relation limits outputRowLimit batches rows calls) :
    wp (encodeQueryResult environment relation limits outputRowLimit (batches.map .ok))
      (fun result _ => IsResult relation limits outputRowLimit rows result)
      (fun error _ => error = .resourcesExhausted) calls := by
  obtain ⟨parts, hparts, rfl⟩ := map_eq_ok.mp h.rows_eq
  rw [encodeQueryResult, wp_bind, wp_ensureActive h.active]
  dsimp only
  rw [wp_bind, wp_untimed]
  refine ⟨fun builder hbuilder => ?_, fun error herror => ?_⟩
  · obtain ⟨hempty, hready⟩ := ready_of_new hbuilder
    rw [wp_bind]
    refine wp_mono (wp_pushBatches h.active h.finite h.valid hparts h.row_le hready)
      (fun result _ hresult => ?_) fun _ _ h => h
    obtain ⟨completion, final⟩ := result
    obtain ⟨hfinal, hcut⟩ := hresult
    rw [hempty] at hcut
    exact ⟨rfl, hcut, rfl, hfinal.counts⟩
  · rcases bind_eq_error.mp herror with herror | ⟨_, -, herror⟩
    · exact (ensure_eq_error.mp herror).2.symm
    · cases herror

theorem exists_encodeQueryResult
    (h : Undisturbed environment relation limits outputRowLimit batches rows calls) :
    ∃ result after, encodeQueryResult environment relation limits outputRowLimit
        (batches.map .ok) calls = .ok result after ∧
      IsResult relation limits outputRowLimit rows result := by
  have hrun := wp_encodeQueryResult h
  unfold wp at hrun
  cases hresult : encodeQueryResult environment relation limits outputRowLimit (batches.map .ok)
      calls with
  | ok result after =>
    rw [hresult] at hrun
    exact ⟨result, after, rfl, hrun⟩
  | error error after =>
    rw [hresult] at hrun
    exact absurd (hrun ▸ hresult) (h.memory after)

/-- A builder always counts the bytes of its rows. Where nothing fails, a result has a beginning
of the rows within both limits, it is complete if and only if it has them all, and otherwise the
next row would exceed the limit that is named. The batches in which the rows come, and what
happens around them, do not matter. -/
theorem result_truncation_exact (relation : Ir.Relation) (limits : QueryExecutionLimits)
    (outputRowLimit : QueryOutputRowLimit) :
    (∀ (environment : ResultEnvironment ε) (builder : QueryResultBuilder),
      (QueryResultBuilder.new environment limits outputRowLimit = .ok builder → builder.Counts) ∧
      ∀ (batch : Arrow.RecordBatch) (rowIndex : Nat) (outcome : PushOutcome)
        (next : QueryResultBuilder), builder.Counts →
        builder.push environment batch relation rowIndex = .ok (outcome, next) → next.Counts) ∧
    ∀ (environment : ResultEnvironment ε) (batches : List Arrow.RecordBatch)
      (rows : List QueryRow) (calls : Nat),
      Undisturbed environment relation limits outputRowLimit batches rows calls →
      ∃ result after, encodeQueryResult environment relation limits outputRowLimit
          (batches.map .ok) calls = .ok result after ∧
        result.outputRows = result.rows.length ∧
        result.outputBytes = (encodedRows result.rows).length ∧
        IsCut outputRowLimit.get limits.maximumResultBytes rows result.rows result.completion ∧
        ∀ (environment' : ResultEnvironment ε) (batches' : List Arrow.RecordBatch) (calls' : Nat),
          Undisturbed environment' relation limits outputRowLimit batches' rows calls' →
          ∃ after', encodeQueryResult environment' relation limits outputRowLimit
            (batches'.map .ok) calls' = .ok result after' := by
  refine ⟨fun environment builder => ⟨fun hnew => (ready_of_new hnew).2.counts,
    fun batch rowIndex outcome next hcounts hpush => hcounts.push hpush⟩, ?_⟩
  intro environment batches rows calls h
  obtain ⟨result, after, hrun, hresult⟩ := exists_encodeQueryResult h
  refine ⟨result, after, hrun, hresult.outputRows_eq, hresult.outputBytes_eq, ?_, ?_⟩
  · have hbytes : (encodedRows []).length ≤ limits.maximumResultBytes := limits.le
    have hcut := isCut_cutRows rows (Nat.zero_le outputRowLimit.get) hbytes
    rwa [hresult.cut_eq, nil_append] at hcut
  · intro environment' batches' calls' h'
    obtain ⟨result', after', hrun', hresult'⟩ := exists_encodeQueryResult h'
    rw [hresult.unique hresult']
    exact ⟨after', hrun'⟩

end Runs

section Sample

attribute [local instance] JsonText.numbers FloatArithmetic.zero Chrono.unbounded
  ChronoFormat.silent SerdeJson.plain

/-- A relation with one boolean. -/
def flagRelation : Ir.Relation := ⟨[⟨[0x66], .bool, .nullable, .derived ⟨0, 0⟩⟩]⟩

/-- The boolean as an Arrow field. -/
def flagSchema : List Arrow.Field := [⟨[0x66], .boolean, true, []⟩]

theorem flags_conform : List.Forall₂ (Arrow.Field.Holds 2) flagSchema
    [⟨.boolean, [some true, none]⟩] :=
  .cons ⟨rfl, rfl, fun h => by cases h⟩ .nil

/-- Two rows of the relation. -/
def flagBatch : Arrow.RecordBatch :=
  ⟨flagSchema, [⟨.boolean, [some true, none]⟩], 2, flags_conform⟩

/-- A machine with little memory, on which nobody stops a query. -/
def ResultEnvironment.sample : ResultEnvironment Unit :=
  ⟨fun _ => .ok (), fun _ size bytes => decide (size + bytes < 100)⟩

/-- The first row is kept if one row is allowed, and it has eight bytes with its brackets. -/
theorem result_truncation_exact_flags :
    ∃ (limits : QueryExecutionLimits) (outputRowLimit : QueryOutputRowLimit),
      Undisturbed .sample flagRelation limits outputRowLimit [flagBatch] [[.bool true], [.null]] 0 ∧
      ∃ result after, encodeQueryResult .sample flagRelation limits outputRowLimit
          [.ok flagBatch] 0 = .ok result after ∧
        IsCut 1 16 [[.bool true], [.null]] result.rows result.completion ∧
        result.rows = [[.bool true]] ∧ result.outputBytes = 8 := by
  have hrun : encodeQueryResult .sample flagRelation ⟨16, by decide, by decide⟩
      ⟨1, by decide, by decide⟩ [.ok flagBatch] 0 = .ok ⟨[⟨[0x66], .bool, .nullable⟩],
        [[.bool true]], .truncated .outputRows, 1, 8⟩ 4 := rfl
  have h : Undisturbed .sample flagRelation ⟨16, by decide, by decide⟩ ⟨1, by decide, by decide⟩
      [flagBatch] [[.bool true], [.null]] 0 := {
    active := fun _ => rfl
    finite := fun _ size bytes hgrow => (of_decide_eq_true hgrow).trans (by norm_num)
    valid := by
      intro batch hbatch
      rw [mem_singleton.mp hbatch]
      rfl
    rows_eq := rfl
    row_le := by decide
    memory := by
      intro after herror
      rw [map_singleton, hrun] at herror
      cases herror }
  obtain ⟨result, after, hresult, -, -, hcut, -⟩ :=
    (result_truncation_exact (ε := Unit) flagRelation _ _).2 _ _ _ _ h
  rw [map_singleton, hrun] at hresult
  cases hresult
  exact ⟨_, _, h, _, _, hrun, hcut, rfl, rfl⟩

end Sample

end Elucid
