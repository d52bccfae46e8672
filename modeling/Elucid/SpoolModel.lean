import Elucid.BigEndian

/-!
# Values of the ingestion spool

The types the spool passes around : identities, metadata, capacities, checkpoints and
ranges, with the error type of every spool operation. A type whose constructor checks
its argument carries the check as a field, so an identity is a UUIDv7, a limit is
positive, a range is ordered and an ingestion time is one `chrono` can represent.

Two crates stay abstract. `Blake3` is a function from bytes to a digest, and `Chrono`
says which millisecond counts `DateTime::<Utc>::from_timestamp_millis` accepts.
-/

namespace Elucid

open BigEndian List

variable {α β ε : Type} {f : α → Except ε β} {condition : Prop}
variable {b : β}

/-! ## Machine arithmetic -/

/-- `u64::checked_add`. -/
def checkedAdd (a b : Nat) : Option Nat := if a + b < 2 ^ 64 then some (a + b) else none

theorem checkedAdd_of_lt {a b : Nat} (h : a + b < 2 ^ 64) : checkedAdd a b = some (a + b) :=
  if_pos h

/-- A sum that does not overflow is exact. -/
theorem checkedAdd_eq_some {a b c : Nat} (h : checkedAdd a b = some c) :
    c = a + b ∧ a + b < 2 ^ 64 := by
  unfold checkedAdd at h
  split at h
  · exact ⟨(Option.some.inj h).symm, ‹_›⟩
  · cases h

/-! ## Errors -/

/-- `SpoolError`, by its source. -/
inductive SpoolError
  | capacity (requiredBytes availableBytes : Nat)
  | batchLimit (actualBytes maximumBytes : Nat)
  | corrupt (message : String)
  | io (operation : String)
  | invariant (message : String)
  deriving DecidableEq, Repr

/-- `Option::ok_or`. -/
def okOr {α ε : Type} (x : Option α) (error : ε) : Except ε α :=
  match x with
  | some a => .ok a
  | none => .error error

@[simp] theorem okOr_some {α ε : Type} (a : α) (error : ε) :
    okOr (some a) error = .ok a := rfl

@[simp] theorem okOr_none {α ε : Type} (error : ε) :
    okOr (none : Option α) error = .error error := rfl

theorem okOr_eq_ok {x : Option α} {error : ε} {a : α} (h : okOr x error = .ok a) :
    x = some a := by
  cases x with
  | none => cases h
  | some b => exact congrArg some (Except.ok.inj h)

theorem okOr_eq_error {x : Option α} {error other : ε} :
    okOr x error = .error other ↔ x = none ∧ error = other := by
  cases x <;> simp

@[simp] theorem mapError_eq_ok {α δ ε : Type} {x : Except ε α} {f : ε → δ} {a : α} :
    x.mapError f = .ok a ↔ x = .ok a := by
  cases x <;> simp [Except.mapError]

theorem mapError_eq_error {δ : Type} {x : Except ε α} {f : ε → δ} {error : δ} :
    x.mapError f = .error error ↔ ∃ cause, x = .error cause ∧ f cause = error := by
  cases x <;> simp [Except.mapError]

theorem map_eq_ok {x : Except ε α} {f : α → β} :
    x.map f = .ok b ↔ ∃ a, x = .ok a ∧ f a = b := by
  cases x <;> simp [Except.map]

theorem map_eq_error {x : Except ε α} {f : α → β} {error : ε} :
    x.map f = .error error ↔ x = .error error := by
  cases x <;> simp [Except.map]

/-- A sequence succeeds if both parts do. -/
theorem bind_eq_ok {x : Except ε α} :
    (x >>= f) = .ok b ↔ ∃ a, x = .ok a ∧ f a = .ok b := by
  cases x with
  | error e =>
    constructor
    · intro h
      cases h
    · rintro ⟨_, h, _⟩
      cases h
  | ok a =>
    constructor
    · exact fun h => ⟨a, rfl, h⟩
    · rintro ⟨_, h, hf⟩
      cases h
      exact hf

/-- A sequence fails with the error of one part. -/
theorem bind_eq_error {x : Except ε α} {error : ε} :
    (x >>= f) = .error error ↔ x = .error error ∨ ∃ a, x = .ok a ∧ f a = .error error := by
  cases x with
  | error e =>
    constructor
    · intro h
      cases h
      exact Or.inl rfl
    · rintro (h | ⟨_, h, _⟩)
      · cases h
        rfl
      · cases h
  | ok a =>
    constructor
    · exact fun h => Or.inr ⟨a, rfl, h⟩
    · rintro (h | ⟨_, h, hf⟩)
      · cases h
      · cases h
        exact hf

@[simp] theorem ok_bind {α β ε : Type} (a : α) (f : α → Except ε β) :
    (Except.ok a >>= f) = f a := rfl

@[simp] theorem error_bind {α β ε : Type} (e : ε) (f : α → Except ε β) :
    ((Except.error e : Except ε α) >>= f) = .error e := rfl

/-- A loop that never fails is a map. -/
theorem mapM_eq_map {g : α → β} {xs : List α} (h : ∀ x ∈ xs, f x = .ok (g x)) :
    xs.mapM f = .ok (xs.map g) := by
  induction xs with
  | nil => rfl
  | cons x xs ih =>
    obtain ⟨hx, hxs⟩ := forall_mem_cons.mp h
    rw [mapM_cons, hx, ok_bind, ih hxs]
    rfl

/-- What is on the right side of two lists stands for something on the left. -/
theorem exists_of_mem_forall₂ {R : α → β → Prop} {xs : List α} {ys : List β}
    (h : List.Forall₂ R xs ys) {y : β} (hy : y ∈ ys) : ∃ x ∈ xs, R x y := by
  induction h with
  | nil => cases hy
  | @cons x y xs ys hR _ ih =>
    rcases mem_cons.mp hy with rfl | hy
    · exact ⟨x, mem_cons_self, hR⟩
    · obtain ⟨x', hx', hR⟩ := ih hy
      exact ⟨x', mem_cons_of_mem _ hx', hR⟩

/-- A loop fails in one of its turns. -/
theorem exists_of_mapM_eq_error {xs : List α} {error : ε} (h : xs.mapM f = .error error) :
    ∃ x ∈ xs, f x = .error error := by
  induction xs with
  | nil => cases h
  | cons x xs ih =>
    rw [mapM_cons] at h
    rcases bind_eq_error.mp h with h | ⟨first, -, h⟩
    · exact ⟨x, mem_cons_self, h⟩
    rcases bind_eq_error.mp h with h | ⟨rest, -, h⟩
    · obtain ⟨later, hlater, herror⟩ := ih h
      exact ⟨later, mem_cons_of_mem _ hlater, herror⟩
    · cases h

/-- The results of a loop that did not fail, in its order. -/
theorem forall₂_of_mapM_eq_ok {xs : List α} {ys : List β} (h : xs.mapM f = .ok ys) :
    List.Forall₂ (fun x y => f x = .ok y) xs ys := by
  induction xs generalizing ys with
  | nil =>
    cases h
    exact .nil
  | cons x xs ih =>
    rw [mapM_cons] at h
    obtain ⟨first, hfirst, h⟩ := bind_eq_ok.mp h
    obtain ⟨rest, hrest, h⟩ := bind_eq_ok.mp h
    cases h
    exact .cons hfirst (ih hrest)

/-- Two checks in a row succeed if both do. -/
theorem then_ok {first second : Except ε Unit} (hfirst : first = .ok ()) (hsecond : second = .ok ()) :
    (do first; second) = .ok () := by
  rw [hfirst, ok_bind, hsecond]

/-- An early return with `error` unless `condition` holds. -/
def ensure {ε : Type} (condition : Prop) [Decidable condition] (error : ε) : Except ε Unit :=
  if condition then .ok () else .error error

@[simp] theorem ensure_eq_ok {ε : Type} {condition : Prop} [Decidable condition] {error : ε}
    {u : Unit} : ensure condition error = .ok u ↔ condition := by
  unfold ensure
  split <;> simp_all

theorem ensure_eq_error [Decidable condition] {error other : ε} :
    ensure condition error = .error other ↔ ¬ condition ∧ error = other := by
  unfold ensure
  split <;> simp_all

theorem ensure_of [Decidable condition] {error : ε} (h : condition) :
    ensure condition error = .ok () := if_pos h

/-- A check made only if `condition` holds. -/
def whenever {ε : Type} (condition : Prop) [Decidable condition] (check : Except ε Unit) :
    Except ε Unit :=
  if condition then check else .ok ()

theorem whenever_ok [Decidable condition] {check : Except ε Unit} (h : condition → check = .ok ()) :
    whenever condition check = .ok () := by
  unfold whenever
  split
  · exact h ‹_›
  · rfl

/-! ## Identities -/

/-- `uuid::Uuid` : sixteen bytes. -/
structure Uuid where
  bytes : Bytes
  length_bytes : bytes.length = 16
  deriving DecidableEq

/-- Version 7 in the high half of byte 6, the RFC variant in the two high bits of byte 8. -/
def Uuid.isVersion7 (uuid : Uuid) : Bool :=
  (uuid.bytes.getD 6 0).toNat / 16 == 7 && (uuid.bytes.getD 8 0).toNat / 64 == 2

/-- `UuidV7` : a UUID with version 7 and the RFC variant. -/
structure UuidV7 where
  uuid : Uuid
  isVersion7 : uuid.isVersion7 = true
  deriving DecidableEq

/-- `UuidV7::new`. -/
def UuidV7.tryFrom (uuid : Uuid) : Option UuidV7 :=
  if h : uuid.isVersion7 = true then some ⟨uuid, h⟩ else none

@[simp] theorem UuidV7.tryFrom_uuid (id : UuidV7) : UuidV7.tryFrom id.uuid = some id :=
  dif_pos id.isVersion7

abbrev BatchId := UuidV7
abbrev SourceId := UuidV7
abbrev InputId := UuidV7
abbrev IngestionProfileRevisionId := UuidV7
abbrev SchemaId := UuidV7

/-! ## Digests -/

/-- A 32-byte digest. -/
structure Digest where
  bytes : Bytes
  length_bytes : bytes.length = 32
  deriving DecidableEq

/-- The `blake3` crate, as a function of the hashed bytes. -/
class Blake3 where
  hash : Bytes → Digest

/-- `blake3::Hasher` : the bytes absorbed so far. -/
structure Hasher where
  absorbed : Bytes

namespace Hasher

/-- `Hasher::new`. -/
def new : Hasher := ⟨[]⟩

/-- `Hasher::update`. -/
def update (hasher : Hasher) (bytes : Bytes) : Hasher := ⟨hasher.absorbed ++ bytes⟩

/-- `Hasher::finalize`. -/
def finalize [Blake3] (hasher : Hasher) : Digest := Blake3.hash hasher.absorbed

@[simp] theorem absorbed_new : Hasher.new.absorbed = [] := rfl

@[simp] theorem absorbed_update (hasher : Hasher) (bytes : Bytes) :
    (hasher.update bytes).absorbed = hasher.absorbed ++ bytes := rfl

@[simp] theorem update_update (hasher : Hasher) (a b : Bytes) :
    (hasher.update a).update b = hasher.update (a ++ b) := by
  simp [update]

end Hasher

/-! ## Ingestion time and metadata -/

/-- The `chrono` crate, on a UTC time in milliseconds : whether
`DateTime::<Utc>::from_timestamp_millis` returns a value, and the number of its `date_naive`,
which counts UTC days. Day 0 is the first of 1970. -/
class Chrono where
  fromTimestampMillis : Int → Bool
  dateNaive : Int → Int
  dateNaive_eq : ∀ milliseconds, dateNaive milliseconds = milliseconds / 86400000

/-- `IngestionTime` : an `i64` number of milliseconds that `chrono` represents. -/
structure IngestionTime [Chrono] where
  unixMilliseconds : Int
  inI64 : -2 ^ 63 ≤ unixMilliseconds ∧ unixMilliseconds < 2 ^ 63
  representable : Chrono.fromTimestampMillis unixMilliseconds = true
  deriving DecidableEq

/-- `IngestionTime::from_unix_milliseconds`, on an `i64`. -/
def IngestionTime.fromUnixMilliseconds [Chrono] (value : Int) : Option IngestionTime :=
  if h : (-2 ^ 63 ≤ value ∧ value < 2 ^ 63) ∧ Chrono.fromTimestampMillis value = true then
    some ⟨value, h.1, h.2⟩
  else none

@[simp] theorem IngestionTime.fromUnixMilliseconds_self [Chrono] (time : IngestionTime) :
    IngestionTime.fromUnixMilliseconds time.unixMilliseconds = some time :=
  dif_pos ⟨time.inI64, time.representable⟩

structure PinnedCatalogIdentities where
  sourceId : SourceId
  inputId : InputId
  profileRevisionId : IngestionProfileRevisionId
  targetSchemaId : SchemaId
  deriving DecidableEq

structure BatchMetadata [Chrono] where
  batchId : BatchId
  catalog : PinnedCatalogIdentities
  ingestionTime : IngestionTime
  deriving DecidableEq

/-! ## Capacities, checkpoints and ranges -/

/-- `AppendBodyLimit` : a `NonZeroU64`. -/
structure AppendBodyLimit where
  get : Nat
  pos : 0 < get
  lt : get < 2 ^ 64
  deriving DecidableEq

/-- `SpoolCapacity` : a `NonZeroU64`. -/
structure SpoolCapacity where
  get : Nat
  pos : 0 < get
  lt : get < 2 ^ 64
  deriving DecidableEq

/-- `SpoolCheckpoint` : a byte position of the data file. -/
structure SpoolCheckpoint where
  position : Nat
  deriving DecidableEq, Repr

/-- `SpoolCheckpoint::INITIAL`. -/
def SpoolCheckpoint.initial : SpoolCheckpoint := ⟨0⟩

/-- `SpoolBatchRange` : the non-empty byte range of one frame. -/
structure SpoolBatchRange where
  start : Nat
  stop : Nat
  start_lt_stop : start < stop
  deriving DecidableEq, Repr

/-- `SpoolBatchRange::new`. -/
def SpoolBatchRange.new (start stop : Nat) : Except SpoolError SpoolBatchRange :=
  if h : start < stop then .ok ⟨start, stop, h⟩
  else .error (.invariant "spool batch range must be non-empty and ordered")

theorem SpoolBatchRange.new_of_lt {start stop : Nat} (h : start < stop) :
    SpoolBatchRange.new start stop = .ok ⟨start, stop, h⟩ :=
  dif_pos h

structure RecoveredBatch [Chrono] where
  metadata : BatchMetadata
  body : Bytes
  bodyDigest : Digest
  range : SpoolBatchRange
  deriving DecidableEq

/-! ## Concrete values -/

/-- A UUIDv7 with last byte `n`. -/
def UuidV7.sample (n : UInt8) : UuidV7 :=
  ⟨⟨[0, 0, 0, 0, 0, 0, 0x70, 0, 0x80, 0, 0, 0, 0, 0, 0, n], rfl⟩, by simp [Uuid.isVersion7]⟩

/-- The digest of zeros. -/
def Digest.zero : Digest := ⟨List.replicate 32 0, rfl⟩

/-- A hash with one value. -/
@[reducible] def Blake3.constant : Blake3 := ⟨fun _ => .zero⟩

theorem kibibyte_pos : 0 < 1024 := by decide

theorem kibibyte_lt : 1024 < 2 ^ 64 := by decide

theorem page_pos : 0 < 4096 := by decide

theorem page_lt : 4096 < 2 ^ 64 := by decide

theorem epoch_inRange : -2 ^ 63 ≤ (0 : Int) ∧ (0 : Int) < 2 ^ 63 := by decide

/-- A clock without bounds. -/
@[reducible] def Chrono.unbounded : Chrono := ⟨fun _ => true, (· / 86400000), fun _ => rfl⟩

/-- Metadata of a batch with identity `n`, ingested at the epoch. -/
def BatchMetadata.sample (n : UInt8) : @BatchMetadata Chrono.unbounded :=
  @BatchMetadata.mk Chrono.unbounded (UuidV7.sample n)
    ⟨UuidV7.sample 1, UuidV7.sample 2, UuidV7.sample 3, UuidV7.sample 4⟩
    (@IngestionTime.mk Chrono.unbounded 0 epoch_inRange rfl)

end Elucid
