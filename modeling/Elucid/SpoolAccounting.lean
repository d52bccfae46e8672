import Elucid.FrameCodec
import Elucid.Transition

/-!
# The accounting of the spool

Every append reserves the bytes of the longest frame it may write before its body is read.
The reservation is given back on one of three paths : it is dropped unused, its append is
committed and turns what it wrote into committed bytes, or its append fails. Appends run at
the same time, next to checkpoint advances and reclamations, and the writer, the accounting
and the checkpoint have a lock each.

`SpoolInner` is the state between two critical sections, and `step` is one of them. An
append takes three : it starts, it writes its frame, it is committed or released. An advance
and a reclamation look at the failure mark before they take their locks, so a failure may
come between. Every access to a file may fail. The extent that is sent to the reader is left
out here, since no accounting reads it.

`Exact` is what the accounting promises. `accounting_exact` : it holds behind every run from
a recovered spool.
-/

namespace Elucid

open BigEndian List

/-! ## State -/

/-- A reservation whose bytes are counted : not used yet, used by an append before and
behind its write, or to be released by an append that failed. -/
inductive Reservation [Chrono]
  | held (bodyLimit : AppendBodyLimit) (reservedBytes : Nat)
  | starting (metadata : BatchMetadata) (body : Bytes) (reservedBytes : Nat)
  | written (prepared : PreparedFrame) (reservedBytes : Nat)
  | failing (reservedBytes : Nat)

/-- What a reclamation found when it reset the checkpoint. -/
structure TruncatedLog where
  liveReservations : Nat
  checkpoint : Nat
  committedBytes : Nat
  deriving DecidableEq, Repr

/-- `SpoolInner`, with the length of its data file as the file itself and its `Accounting`
unfolded. -/
structure SpoolInner [Chrono] where
  file : Bytes
  generation : Nat
  committedBytes : Nat
  reservedBytes : Nat
  checkpoint : Nat
  failed : Bool
  /-- The reservations that were made and not given back. -/
  live : List Reservation
  /-- The advances that found the spool writable and wait for their locks. -/
  advancing : Nat
  /-- The reclamations that found the spool writable and wait for their locks. -/
  reclaiming : Nat
  /-- The errors that calls have returned. -/
  errors : List SpoolError
  /-- Whether a release ever found fewer bytes than it gives back. -/
  underflowed : Bool
  /-- The reclamations that truncated the file or tried to. -/
  reclaimed : List TruncatedLog
  /-- The limits that reservations and admissions were asked for. -/
  requested : List AppendBodyLimit

/-- The access to the data file that an append fails at, with the bytes it has written. -/
inductive WriteFault
  | inspect
  | write (count : Nat)
  | synchronize
  deriving DecidableEq, Repr

/-- The access to the checkpoint file that `checkpoint::store` fails at. -/
inductive CheckpointFault
  | create
  | write
  | synchronize
  | replace
  | synchronizeDirectory
  deriving DecidableEq, Repr

/-- What `checkpoint::store` says of it. -/
def CheckpointFault.operation : CheckpointFault → String
  | .create => "create the next spool checkpoint"
  | .write => "write the next spool checkpoint"
  | .synchronize => "synchronize the next spool checkpoint"
  | .replace => "replace the spool checkpoint"
  | .synchronizeDirectory => "synchronize the spool directory"

/-- The access to the files that a reclamation fails at. -/
inductive ReclaimFault
  | checkpoint (fault : CheckpointFault)
  | truncate
  | seek
  | synchronize
  deriving DecidableEq, Repr

/-- The bytes that are in the file when a write fails, and the error. -/
def WriteFault.outcome (fault : WriteFault) (file frame : Bytes) : Bytes × SpoolError :=
  match fault with
  | .inspect => (file, .io "inspect before append")
  | .write count => (file ++ frame.take count, .io "write")
  | .synchronize => (file ++ frame, .io "synchronize")

/-- `ensure_writable`. -/
def unavailable : SpoolError :=
  .invariant "spool is unavailable until process restart and recovery"

section Model

variable [Chrono]

/-- The bytes that a reservation counts for. -/
def Reservation.reservedBytes : Reservation → Nat
  | .held _ reservedBytes => reservedBytes
  | .starting _ _ reservedBytes => reservedBytes
  | .written _ reservedBytes => reservedBytes
  | .failing reservedBytes => reservedBytes

/-- The bytes of the data file that are written and not committed. -/
def Reservation.uncommittedBytes : Reservation → Nat
  | .written prepared _ => prepared.storedBytes
  | _ => 0

/-- An append uses the reservation. -/
def Reservation.inFlight : Reservation → Bool
  | .held _ _ => false
  | _ => true

/-- A reservation is large enough for what is written with it. -/
def Reservation.Fits : Reservation → Prop
  | .held bodyLimit reservedBytes => reservedBytes = bodyLimit.get + 196
  | .starting _ body reservedBytes => storedLength body ≤ reservedBytes
  | .written prepared reservedBytes => prepared.storedBytes ≤ reservedBytes ∧ 0 < reservedBytes
  | .failing reservedBytes => 0 < reservedBytes

namespace SpoolInner

variable (capacity : SpoolCapacity) (s : SpoolInner)

/-- A call returns an error. -/
def raise (error : SpoolError) : SpoolInner := { s with errors := s.errors ++ [error] }

/-- `mark_failed`, and the error that is returned. -/
def fail (error : SpoolError) : SpoolInner := { s.raise error with failed := true }

/-- A call is asked for a limit. -/
def request (bodyLimit : AppendBodyLimit) : SpoolInner :=
  { s with requested := s.requested ++ [bodyLimit] }

/-- What `reserve` checks under the accounting lock : the bytes it reserves. -/
def reserveBytes (bodyLimit : AppendBodyLimit) : Except SpoolError (Nat × Nat) := do
  ensure (s.failed = false) unavailable
  let requiredBytes ← reservedFrameBytes bodyLimit
  let occupiedBytes ← okOr (checkedAdd s.committedBytes s.reservedBytes)
    (.invariant "spool accounting overflow")
  let availableBytes := capacity.get - occupiedBytes
  ensure (requiredBytes ≤ availableBytes) (.capacity requiredBytes availableBytes)
  let reservedBytes ← okOr (checkedAdd s.reservedBytes requiredBytes)
    (.invariant "spool reservation accounting overflow")
  return (requiredBytes, reservedBytes)

/-- `SpoolInner::reserve`. -/
def reserve (bodyLimit : AppendBodyLimit) : SpoolInner :=
  match s.reserveBytes capacity bodyLimit with
  | .error error => s.raise error
  | .ok (requiredBytes, reservedBytes) =>
    { s with reservedBytes, live := s.live ++ [.held bodyLimit requiredBytes] }

/-- `SpoolInner::usage`. -/
def usage : SpoolInner :=
  if s.failed then s.raise unavailable
  else
    match checkedAdd s.committedBytes s.reservedBytes with
    | none => s.raise (.invariant "spool usage overflow")
    | some _ => s

/-- `SpoolInner::maximum_batch_admission`. -/
def maximumBatchAdmission (bodyLimit : AppendBodyLimit) : SpoolInner :=
  if s.failed then s.raise unavailable
  else
    match reservedFrameBytes bodyLimit with
    | .error error => s.raise error
    | .ok _ =>
      match checkedAdd s.committedBytes s.reservedBytes with
      | none => s.raise (.invariant "spool accounting overflow")
      | some _ => s

/-- `SpoolInner::release_reservation`. -/
def releaseReservation (reservedBytes : Nat) : SpoolInner :=
  if s.reservedBytes < reservedBytes then
    { s with failed := true, reservedBytes := 0, underflowed := true }
  else { s with reservedBytes := s.reservedBytes - reservedBytes }

/-- Releasing the reservation at `index`. -/
def release (index reservedBytes : Nat) : SpoolInner :=
  { s.releaseReservation reservedBytes with live := s.live.eraseIdx index }

/-- Dropping the reservation at `index` unused. -/
def drop (index : Nat) : Option SpoolInner := do
  match ← s.live[index]? with
  | .held _ reservedBytes => some (s.release index reservedBytes)
  | _ => none

/-- `SpoolReservation::append` up to the blocking task. An error drops the reservation. -/
def append (index : Nat) (metadata : BatchMetadata) (body : Bytes) : Option SpoolInner := do
  match ← s.live[index]? with
  | .held bodyLimit reservedBytes =>
    if bodyLimit.get < body.length then
      some ((s.release index reservedBytes).raise (.batchLimit body.length bodyLimit.get))
    else if s.failed then some ((s.release index reservedBytes).raise unavailable)
    else some { s with live := s.live.set index (.starting metadata body reservedBytes) }
  | _ => none

/-- `SpoolInner::write_frame` : the data file behind it, and the result. -/
def writeFrame [Blake3] (metadata : BatchMetadata) (body : Bytes) (fault : Option WriteFault) :
    Bytes × Except SpoolError PreparedFrame :=
  if s.failed then (s.file, .error unavailable)
  else
    match PreparedFrame.new metadata body with
    | .error error => (s.file, .error error)
    | .ok prepared =>
      let frame := prepared.header ++ (body ++ prepared.footer)
      match fault with
      | some fault =>
        let (file, error) := fault.outcome s.file frame
        (file, .error error)
      | none =>
        (s.file ++ frame, do
          let stop ← okOr (checkedAdd s.file.length prepared.storedBytes)
            (.invariant "spool append position overflow")
          let _ ← SpoolBatchRange.new s.file.length stop
          return prepared)

/-- `SpoolInner::append_reserved` up to the accounting. -/
def write [Blake3] (index : Nat) (fault : Option WriteFault) : Option SpoolInner := do
  match ← s.live[index]? with
  | .starting metadata body reservedBytes =>
    match s.writeFrame metadata body fault with
    | (file, .ok prepared) =>
      some { s with file, live := s.live.set index (.written prepared reservedBytes) }
    | (file, .error error) =>
      some { s.fail error with file, live := s.live.set index (.failing reservedBytes) }
  | _ => none

/-- `SpoolInner::commit_reservation`, or the release behind a failed write. -/
def settle (index : Nat) : Option SpoolInner := do
  match ← s.live[index]? with
  | .written prepared reservedBytes =>
    if reservedBytes < prepared.storedBytes ∨ s.reservedBytes < reservedBytes then
      some (s.fail (.invariant "durable append does not fit its capacity reservation"))
    else
      match checkedAdd s.committedBytes prepared.storedBytes with
      | none => some (s.fail (.invariant "committed spool byte count overflow"))
      | some committedBytes =>
        some { s with
          committedBytes
          reservedBytes := s.reservedBytes - reservedBytes
          live := s.live.eraseIdx index }
  | .failing reservedBytes => some (s.release index reservedBytes)
  | _ => none

/-- `SpoolInner::advance_checkpoint` before its locks. -/
def beginAdvance : SpoolInner :=
  if s.failed then s.raise unavailable else { s with advancing := s.advancing + 1 }

/-- `SpoolInner::advance_checkpoint` under its locks, for the plan from `current` to
`target`. -/
def advanceCheckpoint (current target : Nat) (fault : Option CheckpointFault) :
    Option SpoolInner :=
  if s.advancing = 0 then none
  else
    let s := { s with advancing := s.advancing - 1 }
    if current ≠ s.checkpoint then some (s.raise (.invariant "checkpoint plan is stale"))
    else if s.committedBytes < target then
      some (s.raise (.invariant "checkpoint plan exceeds committed spool data"))
    else
      match fault with
      | some fault => some (s.fail (.io fault.operation))
      | none => some { s with checkpoint := target }

/-- `SpoolInner::reclaim_checkpointed` before its locks. -/
def beginReclaim : SpoolInner :=
  if s.failed then s.raise unavailable else { s with reclaiming := s.reclaiming + 1 }

/-- A reclamation goes on with what it found. -/
def beginTruncate : SpoolInner :=
  { s with
    reclaimed := s.reclaimed ++ [TruncatedLog.mk s.live.length s.checkpoint s.committedBytes] }

/-- The file and the accounting behind a truncation. -/
def cleared : SpoolInner := { s with checkpoint := 0, file := [], committedBytes := 0 }

/-- The reset of `reclaim_checkpointed`, behind `beginTruncate`. -/
def truncate (fault : Option ReclaimFault) : SpoolInner :=
  match fault with
  | some (.checkpoint fault) => s.fail (.io fault.operation)
  | some .truncate => { s.fail (.io "truncate checkpointed spool data") with checkpoint := 0 }
  | some .seek =>
    { s.fail (.io "reset the spool writer position") with checkpoint := 0, file := [] }
  | some .synchronize =>
    { s.fail (.io "synchronize reclaimed spool data") with checkpoint := 0, file := [] }
  | none =>
    match checkedAdd s.generation 1 with
    | none => s.cleared.fail (.invariant "spool reclamation generation overflow")
    | some generation => { s.cleared with generation }

/-- `SpoolInner::reclaim_checkpointed` under its locks. -/
def reclaimCheckpointed (fault : Option ReclaimFault) : Option SpoolInner :=
  if s.reclaiming = 0 then none
  else
    let s := { s with reclaiming := s.reclaiming - 1 }
    if s.reservedBytes ≠ 0 ∨ s.checkpoint = 0 ∨ s.checkpoint ≠ s.committedBytes then some s
    else some (s.beginTruncate.truncate fault)

/-- The steps of the tasks. -/
inductive Label
  | reserve (bodyLimit : AppendBodyLimit)
  | usage
  | maximumBatchAdmission (bodyLimit : AppendBodyLimit)
  | drop (index : Nat)
  | append (index : Nat) (metadata : BatchMetadata) (body : Bytes)
  | write (index : Nat) (fault : Option WriteFault)
  | settle (index : Nat)
  | beginAdvance
  | advanceCheckpoint (current target : Nat) (fault : Option CheckpointFault)
  | beginReclaim
  | reclaimCheckpointed (fault : Option ReclaimFault)

/-- One critical section of one task. -/
def step [Blake3] (s : SpoolInner) : Label → Option SpoolInner
  | .reserve bodyLimit => some ((s.request bodyLimit).reserve capacity bodyLimit)
  | .usage => some s.usage
  | .maximumBatchAdmission bodyLimit => some ((s.request bodyLimit).maximumBatchAdmission bodyLimit)
  | .drop index => s.drop index
  | .append index metadata body => s.append index metadata body
  | .write index fault => s.write index fault
  | .settle index => s.settle index
  | .beginAdvance => some s.beginAdvance
  | .advanceCheckpoint current target fault => s.advanceCheckpoint current target fault
  | .beginReclaim => some s.beginReclaim
  | .reclaimCheckpointed fault => s.reclaimCheckpointed fault

/-- The data file behind `recover_files`. -/
def recoveredFile (file : Bytes) (scan : FrameScan) : Bytes :=
  if 0 < scan.discardedTailBytes then file.take scan.committedBytes else file

/-- The spool behind `from_recovered`. -/
def recovered (file : Bytes) (scan : FrameScan) (checkpoint : SpoolCheckpoint) : SpoolInner where
  file := recoveredFile file scan
  generation := 0
  committedBytes := scan.committedBytes
  reservedBytes := 0
  checkpoint := checkpoint.position
  failed := false
  live := []
  advancing := 0
  reclaiming := 0
  errors := []
  underflowed := false
  reclaimed := []
  requested := []

/-! ## What the accounting promises -/

/-- The errors that say that the accounting is wrong. -/
def accountingErrors : List SpoolError :=
  [.invariant "spool accounting overflow",
    .invariant "spool reservation accounting overflow",
    .invariant "spool usage overflow",
    .invariant "batch body length exceeds u64",
    .invariant "spool frame length overflow",
    .invariant "spool frame header size mismatch",
    .invariant "spool frame footer size mismatch",
    .invariant "spool append position overflow",
    .invariant "spool batch range must be non-empty and ordered",
    .invariant "durable append does not fit its capacity reservation",
    .invariant "committed spool byte count overflow"]

/-- An error that is none of the accounting. The two other overflows need a limit whose
frame is longer than `u64`, or as many reclamations as `u64` counts. -/
structure Explains (error : SpoolError) : Prop where
  not_accounting : error ∉ accountingErrors
  oversized : error = .invariant "spool reservation size overflow" →
    ∃ limit ∈ s.requested, 2 ^ 64 ≤ limit.get + frameOverheadBytes
  exhausted : error = .invariant "spool reclamation generation overflow" →
    2 ^ 64 ≤ s.reclaimed.length

/-- The accounting is exact. -/
structure Exact : Prop where
  reserved_eq : s.reservedBytes = (s.live.map Reservation.reservedBytes).sum
  occupied_le : s.committedBytes + s.reservedBytes ≤ capacity.get
  committed_eq : s.failed = false → (∀ reservation ∈ s.live, reservation.inFlight = false) →
    s.committedBytes = s.file.length
  checkpoint_le : s.checkpoint ≤ s.committedBytes
  reclaimed : ∀ reclaimed ∈ s.reclaimed, reclaimed.liveReservations = 0 ∧
    0 < reclaimed.checkpoint ∧ reclaimed.checkpoint = reclaimed.committedBytes
  errors : ∀ error ∈ s.errors, s.Explains error
  not_underflowed : s.underflowed = false

/-! ## The invariant -/

/-- What every step keeps. -/
structure Kept : Prop where
  reserved_eq : s.reservedBytes = (s.live.map Reservation.reservedBytes).sum
  fits : ∀ reservation ∈ s.live, reservation.Fits
  occupied_le : s.committedBytes + s.reservedBytes ≤ capacity.get
  file_eq : s.failed = false →
    s.file.length = s.committedBytes + (s.live.map Reservation.uncommittedBytes).sum
  checkpoint_le : s.checkpoint ≤ s.committedBytes
  generation_le : s.generation ≤ s.reclaimed.length
  reclaimed : ∀ reclaimed ∈ s.reclaimed, reclaimed.liveReservations = 0 ∧
    0 < reclaimed.checkpoint ∧ reclaimed.checkpoint = reclaimed.committedBytes
  errors : ∀ error ∈ s.errors, s.Explains error
  not_underflowed : s.underflowed = false

end SpoolInner

end Model

/-! ## Lists of reservations -/

section Lists

variable {α : Type} {f : α → Nat} {values : List α} {index : Nat} {a b : α}

theorem sum_map_eraseIdx (h : values[index]? = some a) :
    ((values.eraseIdx index).map f).sum + f a = (values.map f).sum := by
  obtain ⟨hindex, rfl⟩ := List.getElem?_eq_some_iff.mp h
  have hperm := ((getElem_cons_eraseIdx_perm hindex).map f).sum_eq
  rw [map_cons, sum_cons] at hperm
  omega

theorem sum_map_set (h : values[index]? = some a) :
    ((values.set index b).map f).sum + f a = (values.map f).sum + f b := by
  induction values generalizing index with
  | nil => cases h
  | cons head rest ih =>
    cases index with
    | zero =>
      cases h
      simp only [set_cons_zero, map_cons, sum_cons]
      omega
    | succ index =>
      have := ih h
      simp only [set_cons_succ, map_cons, sum_cons]
      omega

end Lists

namespace SpoolInner

section Invariant

variable [Chrono] {capacity : SpoolCapacity} {s : SpoolInner}
variable {t : SpoolInner} {reservation : Reservation} {index : Nat} {limit : AppendBodyLimit}
  {error : SpoolError} {file : Bytes}
variable {checkpoint : SpoolCheckpoint} {bodyLimit : AppendBodyLimit} {metadata : BatchMetadata}
  {body : Bytes}

theorem fits_pos (h : reservation.Fits) :
    0 < reservation.reservedBytes := by
  cases reservation with
  | held bodyLimit reservedBytes => exact h.symm ▸ Nat.succ_pos _
  | starting metadata body reservedBytes =>
    have : storedLength body ≤ reservedBytes := h
    rw [storedLength_eq] at this
    exact lt_of_lt_of_le (Nat.succ_pos _) this
  | written prepared reservedBytes => exact h.2
  | failing reservedBytes => exact h

/-! ## Errors -/

/-- A reason stays one. -/
theorem Explains.mono (h : s.Explains error) (hrequested : s.requested ⊆ t.requested)
    (hreclaimed : s.reclaimed.length ≤ t.reclaimed.length) :
    t.Explains error where
  not_accounting := h.not_accounting
  oversized := fun heq => by
    obtain ⟨limit, hlimit, hlt⟩ := h.oversized heq
    exact ⟨limit, hrequested hlimit, hlt⟩
  exhausted := fun heq => (h.exhausted heq).trans hreclaimed

/-- An error that is explained may be raised. -/
theorem Kept.raise (h : s.Kept capacity) (herror : s.Explains error) :
    (s.raise error).Kept capacity :=
  { h with
    errors := by
      intro other hother
      rcases mem_append.mp hother with hother | hother
      · exact (h.errors other hother).mono (List.Subset.refl _) le_rfl
      · obtain rfl := mem_singleton.mp hother
        exact herror.mono (List.Subset.refl _) le_rfl }

theorem Kept.fail (h : s.Kept capacity) (herror : s.Explains error) :
    (s.fail error).Kept capacity :=
  { h.raise herror with
    file_eq := fun hfailed => by cases hfailed
    errors := fun other hother =>
      ((h.raise herror).errors other hother).mono (List.Subset.refl _) le_rfl }

/-- Every error but those of the accounting and the two other overflows needs no reason. -/
theorem explains_of_ne (haccounting : error ∉ accountingErrors)
    (hsize : error ≠ .invariant "spool reservation size overflow")
    (hgeneration : error ≠ .invariant "spool reclamation generation overflow") :
    s.Explains error :=
  ⟨haccounting, fun heq => absurd heq hsize, fun heq => absurd heq hgeneration⟩

theorem explains_io (operation : String) : s.Explains (.io operation) :=
  explains_of_ne (by simp [accountingErrors]) (by simp) (by simp)

theorem explains_unavailable : s.Explains unavailable :=
  explains_of_ne (by decide) (by decide) (by decide)

/-! ## Reservations -/

omit [Chrono] in
/-- A reservation is 196 bytes larger than the limit, or overflows. -/
theorem reservedFrameBytes_cases (limit : AppendBodyLimit) :
    reservedFrameBytes limit = .ok (limit.get + 196) ∨
      reservedFrameBytes limit = .error (.invariant "spool reservation size overflow") ∧
        2 ^ 64 ≤ limit.get + frameOverheadBytes := by
  unfold reservedFrameBytes
  by_cases hlt : limit.get + frameOverheadBytes < 2 ^ 64
  · rw [checkedAdd_of_lt hlt]
    exact Or.inl rfl
  · rw [checkedAdd, if_neg hlt]
    exact Or.inr ⟨rfl, by omega⟩

/-- The accounting has room for what is committed and reserved. -/
theorem Kept.checkedAdd_eq (h : s.Kept capacity) :
    checkedAdd s.committedBytes s.reservedBytes = some (s.committedBytes + s.reservedBytes) :=
  checkedAdd_of_lt (h.occupied_le.trans_lt capacity.lt)

theorem Kept.request (h : s.Kept capacity) (limit : AppendBodyLimit) :
    (s.request limit).Kept capacity :=
  { h with
    errors := fun error herror =>
      (h.errors error herror).mono (subset_append_left _ _) le_rfl }

theorem mem_requested_request (limit : AppendBodyLimit) : limit ∈ (s.request limit).requested :=
  mem_append_right _ (mem_singleton_self _)

theorem explains_oversized (hlimit : limit ∈ s.requested)
    (hlt : 2 ^ 64 ≤ limit.get + frameOverheadBytes) :
    s.Explains (.invariant "spool reservation size overflow") :=
  ⟨by decide, fun _ => ⟨limit, hlimit, hlt⟩, fun heq => absurd heq (by decide)⟩

/-- `reserve` succeeds with the bytes of a frame of the limit, or fails with an error that
the accounting is not to blame for. -/
theorem Kept.reserveBytes_cases (h : s.Kept capacity) (hlimit : limit ∈ s.requested) :
    (s.reserveBytes capacity limit = .ok (limit.get + 196, s.reservedBytes + (limit.get + 196)) ∧
        s.committedBytes + s.reservedBytes + (limit.get + 196) ≤ capacity.get) ∨
      ∃ error, s.reserveBytes capacity limit = .error error ∧ s.Explains error := by
  unfold reserveBytes
  cases hfailed : s.failed with
  | true => exact Or.inr ⟨_, rfl, explains_unavailable⟩
  | false =>
    rw [ensure_of rfl, ok_bind]
    rcases reservedFrameBytes_cases limit with hrequired | ⟨hrequired, hlt⟩
    · rw [hrequired, ok_bind, h.checkedAdd_eq, okOr_some, ok_bind]
      dsimp only
      by_cases hcapacity : limit.get + 196 ≤ capacity.get - (s.committedBytes + s.reservedBytes)
      · have hlt := capacity.lt
        rw [ensure_of hcapacity, ok_bind, checkedAdd_of_lt (by omega), okOr_some, ok_bind]
        exact Or.inl ⟨rfl, by omega⟩
      · rw [ensure, if_neg hcapacity]
        exact Or.inr ⟨_, rfl, explains_of_ne (by simp [accountingErrors]) (by simp) (by simp)⟩
    · rw [hrequired]
      exact Or.inr ⟨_, rfl, explains_oversized hlimit hlt⟩

/-- A reservation is counted as reserved. -/
theorem kept_reserve (h : s.Kept capacity) (hlimit : limit ∈ s.requested) :
    (s.reserve capacity limit).Kept capacity := by
  unfold reserve
  rcases h.reserveBytes_cases hlimit with ⟨hok, hfits⟩ | ⟨error, herror, hexplains⟩
  · rw [hok]
    refine { h with reserved_eq := ?_, fits := ?_, occupied_le := ?_, file_eq := ?_, errors := ?_ }
    · have := h.reserved_eq
      simp only [map_append, sum_append, map_singleton, sum_singleton,
        Reservation.reservedBytes]
      omega
    · intro reservation hmem
      rcases mem_append.mp hmem with hmem | hmem
      · exact h.fits reservation hmem
      · obtain rfl := mem_singleton.mp hmem
        rfl
    · dsimp only
      omega
    · intro hfailed
      have := h.file_eq hfailed
      simpa [Reservation.uncommittedBytes] using this
    · exact fun error herror => (h.errors error herror).mono (List.Subset.refl _) le_rfl
  · rw [herror]
    exact h.raise hexplains

theorem kept_usage (h : s.Kept capacity) : s.usage.Kept capacity := by
  unfold usage
  split
  · exact h.raise explains_unavailable
  · rw [h.checkedAdd_eq]
    exact h

theorem kept_maximumBatchAdmission (h : s.Kept capacity) (hlimit : limit ∈ s.requested) :
    (s.maximumBatchAdmission limit).Kept capacity := by
  unfold maximumBatchAdmission
  split
  · exact h.raise explains_unavailable
  · rcases reservedFrameBytes_cases limit with hrequired | ⟨hrequired, hlt⟩
    · rw [hrequired, h.checkedAdd_eq]
      exact h
    · rw [hrequired]
      exact h.raise (explains_oversized hlimit hlt)

/-- A live reservation is part of the reserved bytes. -/
theorem Kept.reservedBytes_le (h : s.Kept capacity) (hlive : s.live[index]? = some reservation) :
    ((s.live.eraseIdx index).map Reservation.reservedBytes).sum + reservation.reservedBytes =
      s.reservedBytes := by
  rw [sum_map_eraseIdx hlive, h.reserved_eq]

/-- Giving back a reservation that nothing was written with. -/
theorem Kept.release (h : s.Kept capacity) (hlive : s.live[index]? = some reservation)
    (hwritten : reservation.uncommittedBytes = 0) :
    (s.release index reservation.reservedBytes).Kept capacity := by
  have hreserved := h.reservedBytes_le hlive
  have hfile := sum_map_eraseIdx (f := Reservation.uncommittedBytes) hlive
  have hoccupied := h.occupied_le
  rw [SpoolInner.release, releaseReservation, if_neg (by omega)]
  refine { h with reserved_eq := ?_, fits := ?_, occupied_le := ?_, file_eq := ?_, errors := ?_ }
  · dsimp only
    omega
  · exact fun other hmem => h.fits other (mem_of_mem_eraseIdx hmem)
  · dsimp only
    omega
  · intro hfailed
    have := h.file_eq hfailed
    dsimp only
    omega
  · exact fun error herror => (h.errors error herror).mono (List.Subset.refl _) le_rfl

/-- Dropping a reservation releases it. -/
theorem kept_drop (h : s.Kept capacity) (hstep : s.drop index = some t) : t.Kept capacity := by
  obtain ⟨reservation, hlive, hstep⟩ := Option.bind_eq_some_iff.mp hstep
  cases reservation with
  | held limit reservedBytes =>
    cases hstep
    exact h.release hlive rfl
  | _ => cases hstep

/-- A reservation that is used further. -/
theorem Kept.set (h : s.Kept capacity) {next : Reservation}
    (hlive : s.live[index]? = some reservation) (hfits : next.Fits)
    (hreserved : next.reservedBytes = reservation.reservedBytes) {failed : Bool}
    (hfailed : failed = false → s.failed = false)
    (hfile : failed = false → file.length + reservation.uncommittedBytes =
      s.file.length + next.uncommittedBytes) :
    { s with file, failed, live := s.live.set index next }.Kept capacity := by
  have hsum := sum_map_set (f := Reservation.reservedBytes) (b := next) hlive
  have hwritten := sum_map_set (f := Reservation.uncommittedBytes) (b := next) hlive
  refine { h with reserved_eq := ?_, fits := ?_, file_eq := ?_, errors := ?_ }
  · have := h.reserved_eq
    dsimp only
    omega
  · intro other hmem
    rcases mem_or_eq_of_mem_set hmem with hmem | rfl
    · exact h.fits other hmem
    · exact hfits
  · intro hnot
    have := h.file_eq (hfailed hnot)
    have := hfile hnot
    dsimp only
    omega
  · exact fun error herror => (h.errors error herror).mono (List.Subset.refl _) le_rfl

/-- An append is given to its reservation. -/
theorem kept_append (h : s.Kept capacity) (hstep : s.append index metadata body = some t) :
    t.Kept capacity := by
  obtain ⟨reservation, hlive, hstep⟩ := Option.bind_eq_some_iff.mp hstep
  cases reservation with
  | held limit reservedBytes =>
    dsimp only at hstep
    split_ifs at hstep with hlong hfailed
    · cases hstep
      exact (h.release hlive rfl).raise
        (explains_of_ne (by simp [accountingErrors]) (by simp) (by simp))
    · cases hstep
      exact (h.release hlive rfl).raise explains_unavailable
    · cases hstep
      have hreserved : reservedBytes = limit.get + 196 := h.fits _ (mem_of_getElem? hlive)
      have hfits : (Reservation.starting metadata body reservedBytes).Fits := by
        rw [Reservation.Fits, storedLength_eq]
        omega
      exact h.set hlive hfits rfl id fun _ => rfl
  | _ => cases hstep

/-! ## Writes -/

theorem uncommittedBytes_le (h : reservation.Fits) :
    reservation.uncommittedBytes ≤ reservation.reservedBytes := by
  cases reservation with
  | written prepared reservedBytes => exact h.1
  | _ => exact Nat.zero_le _

/-- A working file has room for a frame that fits its reservation. -/
theorem Kept.length_file_add_le (h : s.Kept capacity) (hfailed : s.failed = false)
    (hlive : s.live[index]? = some reservation) (hunwritten : reservation.uncommittedBytes = 0) :
    s.file.length + reservation.reservedBytes ≤ s.committedBytes + s.reservedBytes := by
  have hreserved := h.reservedBytes_le hlive
  have hwritten := sum_map_eraseIdx (f := Reservation.uncommittedBytes) hlive
  have hothers : ((s.live.eraseIdx index).map Reservation.uncommittedBytes).sum ≤
      ((s.live.eraseIdx index).map Reservation.reservedBytes).sum :=
    sum_le_sum fun other hmem =>
      uncommittedBytes_le (h.fits other (mem_of_mem_eraseIdx hmem))
  have hfile := h.file_eq hfailed
  omega

/-- The write of an append that fits its reservation puts the frame into the file, or fails
with an error that the accounting is not to blame for. -/
theorem Kept.writeFrame_cases [Blake3] (h : s.Kept capacity) {reservedBytes : Nat}
    (hlive : s.live[index]? = some (.starting metadata body reservedBytes))
    (fault : Option WriteFault) :
    (∃ prepared, s.writeFrame metadata body fault =
        (s.file ++ frame metadata body, .ok prepared) ∧ s.failed = false ∧
        prepared.storedBytes = storedLength body) ∨
      ∃ file error, s.writeFrame metadata body fault = (file, .error error) ∧ s.Explains error := by
  have hfits : storedLength body ≤ reservedBytes := h.fits _ (mem_of_getElem? hlive)
  have hreserved : _ + reservedBytes = s.reservedBytes := h.reservedBytes_le hlive
  have hoccupied := h.occupied_le
  have hcapacity := capacity.lt
  unfold SpoolInner.writeFrame
  split
  · exact Or.inr ⟨_, _, rfl, explains_unavailable⟩
  · rename_i hfailed
    have hfailed : s.failed = false := by simpa using hfailed
    have hprepared := (PreparedFrame.new_eq_ok metadata body).mpr
      ⟨(by omega : storedLength body < 2 ^ 64), rfl⟩
    rw [hprepared]
    cases fault with
    | some fault => exact Or.inr ⟨_, _, rfl, by cases fault <;> exact explains_io _⟩
    | none =>
      have hroom := h.length_file_add_le hfailed hlive rfl
      have hstored := storedLength_eq body
      have hstop : checkedAdd s.file.length (storedLength body) =
          some (s.file.length + storedLength body) := by
        refine checkedAdd_of_lt ?_
        rw [Reservation.reservedBytes] at hroom
        omega
      refine Or.inl ⟨⟨frameHeader metadata body, frameFooter metadata body, body.length,
        Blake3.hash body, storedLength body⟩, ?_, hfailed, rfl⟩
      dsimp only
      rw [hstop, okOr_some, ok_bind, SpoolBatchRange.new_of_lt (by omega), ok_bind]
      rfl

/-- A write, or one that a fault has stopped. -/
theorem kept_write [Blake3] {fault : Option WriteFault} (h : s.Kept capacity)
    (hstep : s.write index fault = some t) : t.Kept capacity := by
  obtain ⟨reservation, hlive, hstep⟩ := Option.bind_eq_some_iff.mp hstep
  cases reservation with
  | starting metadata body reservedBytes =>
    have hfits : storedLength body ≤ reservedBytes := h.fits _ (mem_of_getElem? hlive)
    have hstored := storedLength_eq body
    dsimp only at hstep
    rcases h.writeFrame_cases hlive fault with
      ⟨prepared, hwrite, hfailed, hprepared⟩ | ⟨file, error, hwrite, hexplains⟩
    · rw [hwrite] at hstep
      cases hstep
      have hwritten : (Reservation.written prepared reservedBytes).Fits :=
        ⟨by omega, by omega⟩
      refine h.set hlive hwritten rfl id fun _ => ?_
      rw [length_append, length_frame]
      simp only [Reservation.uncommittedBytes]
      omega
    · rw [hwrite] at hstep
      cases hstep
      have hfailing : (Reservation.failing reservedBytes).Fits := by
        rw [Reservation.Fits]
        omega
      have hfail := h.fail hexplains
      exact hfail.set hlive hfailing rfl id fun hfailed => by cases hfailed
  | _ => cases hstep

/-- A written frame turns from reserved to committed. -/
theorem kept_settle (h : s.Kept capacity) (hstep : s.settle index = some t) : t.Kept capacity := by
  obtain ⟨reservation, hlive, hstep⟩ := Option.bind_eq_some_iff.mp hstep
  cases reservation with
  | written prepared reservedBytes =>
    have hfits : prepared.storedBytes ≤ reservedBytes :=
      (h.fits _ (mem_of_getElem? hlive)).1
    have hreserved := h.reservedBytes_le hlive
    have hwritten := sum_map_eraseIdx (f := Reservation.uncommittedBytes) hlive
    have hoccupied := h.occupied_le
    have hcapacity := capacity.lt
    simp only [Reservation.reservedBytes, Reservation.uncommittedBytes] at hreserved hwritten
    dsimp only at hstep
    rw [if_neg (by omega), checkedAdd_of_lt (by omega)] at hstep
    cases hstep
    have hcheckpoint := h.checkpoint_le
    refine { h with
      reserved_eq := ?_, fits := ?_, occupied_le := ?_, file_eq := ?_, checkpoint_le := ?_
      errors := ?_ }
    · dsimp only
      omega
    · exact fun other hmem => h.fits other (mem_of_mem_eraseIdx hmem)
    · dsimp only
      omega
    · intro hfailed
      have := h.file_eq hfailed
      dsimp only
      omega
    · dsimp only
      omega
    · exact fun error herror => (h.errors error herror).mono (List.Subset.refl _) le_rfl
  | failing reservedBytes =>
    cases hstep
    exact h.release hlive rfl
  | _ => cases hstep

/-! ## Checkpoints and reclamations -/

/-- A task passes from one part of its work to the next. -/
theorem Kept.tasks (h : s.Kept capacity) (advancing reclaiming : Nat) :
    { s with advancing, reclaiming }.Kept capacity :=
  { h with errors := fun error herror => (h.errors error herror).mono (List.Subset.refl _) le_rfl }

theorem kept_beginAdvance (h : s.Kept capacity) : s.beginAdvance.Kept capacity := by
  unfold beginAdvance
  split
  · exact h.raise explains_unavailable
  · exact h.tasks _ _

theorem kept_beginReclaim (h : s.Kept capacity) : s.beginReclaim.Kept capacity := by
  unfold beginReclaim
  split
  · exact h.raise explains_unavailable
  · exact h.tasks _ _

/-- The checkpoint moves within the committed bytes. -/
theorem kept_advanceCheckpoint {current target : Nat} {fault : Option CheckpointFault}
    (h : s.Kept capacity) (hstep : s.advanceCheckpoint current target fault = some t) :
    t.Kept capacity := by
  have h := h.tasks (s.advancing - 1) s.reclaiming
  unfold advanceCheckpoint at hstep
  dsimp only at hstep
  split_ifs at hstep with hidle hstale hbeyond
  · cases hstep
    exact h.raise (explains_of_ne (by decide) (by decide) (by decide))
  · cases hstep
    exact h.raise (explains_of_ne (by decide) (by decide) (by decide))
  · cases fault with
    | some fault =>
      cases hstep
      exact h.fail (explains_io _)
    | none =>
      cases hstep
      exact { h with
        checkpoint_le := not_lt.mp hbeyond
        errors := fun error herror =>
          (h.errors error herror).mono (List.Subset.refl _) le_rfl }

/-- Without reserved bytes there is no live reservation. -/
theorem Kept.live_eq_nil (h : s.Kept capacity) (hreserved : s.reservedBytes = 0) : s.live = [] := by
  cases hlive : s.live with
  | nil => rfl
  | cons reservation rest =>
    have hpos := fits_pos (h.fits reservation (by rw [hlive]; exact mem_cons_self))
    have hsum := h.reserved_eq
    rw [hlive, map_cons, sum_cons] at hsum
    omega

theorem Kept.beginTruncate (h : s.Kept capacity) (hlive : s.live = []) (hpos : 0 < s.checkpoint)
    (hcheckpoint : s.checkpoint = s.committedBytes) : s.beginTruncate.Kept capacity := by
  have hlength : s.reclaimed.length ≤ s.beginTruncate.reclaimed.length := by
    simp [SpoolInner.beginTruncate]
  refine { h with generation_le := ?_, reclaimed := ?_, errors := ?_ }
  · exact h.generation_le.trans hlength
  · intro reclaimed hmem
    rcases mem_append.mp hmem with hmem | hmem
    · exact h.reclaimed reclaimed hmem
    · obtain rfl := mem_singleton.mp hmem
      exact ⟨by rw [hlive]; rfl, hpos, hcheckpoint⟩
  · exact fun error herror => (h.errors error herror).mono (List.Subset.refl _) hlength

/-- A failed spool whose checkpoint is reset, whatever its file holds. -/
theorem Kept.reset (h : s.Kept capacity) (hfailed : s.failed = true) (file : Bytes) :
    { s with checkpoint := 0, file }.Kept capacity :=
  { h with
    file_eq := fun hworking => absurd (hfailed.symm.trans hworking) (by decide)
    checkpoint_le := Nat.zero_le _
    errors := fun error herror => (h.errors error herror).mono (List.Subset.refl _) le_rfl }

theorem Kept.cleared (h : s.Kept capacity) (hlive : s.live = []) : s.cleared.Kept capacity :=
  { h with
    occupied_le := (Nat.add_le_add_right (Nat.zero_le _) _).trans h.occupied_le
    file_eq := fun _ => by simp [SpoolInner.cleared, hlive]
    checkpoint_le := le_rfl
    errors := fun error herror => (h.errors error herror).mono (List.Subset.refl _) le_rfl }

/-- The reset keeps the invariant. Every reclamation before it took one generation. -/
theorem Kept.truncate (h : s.Kept capacity) (hlive : s.live = [])
    (hgeneration : s.generation < s.reclaimed.length) (fault : Option ReclaimFault) :
    (s.truncate fault).Kept capacity := by
  unfold SpoolInner.truncate
  cases fault with
  | some fault =>
    cases fault with
    | checkpoint fault => exact h.fail (explains_io _)
    | truncate | seek | synchronize => exact (h.fail (explains_io _)).reset rfl _
  | none =>
    have hcleared := h.cleared hlive
    by_cases hlt : s.generation + 1 < 2 ^ 64
    · rw [checkedAdd_of_lt hlt]
      exact { hcleared with
        generation_le := hgeneration
        errors := fun error herror =>
          (hcleared.errors error herror).mono (List.Subset.refl _) le_rfl }
    · rw [checkedAdd, if_neg hlt]
      have hexhausted : 2 ^ 64 ≤ s.reclaimed.length := by omega
      exact hcleared.fail ⟨by decide, fun heq => absurd heq (by decide), fun _ => hexhausted⟩

/-- A reclamation empties the file, or stops at a fault. -/
theorem kept_reclaimCheckpointed {fault : Option ReclaimFault} (h : s.Kept capacity)
    (hstep : s.reclaimCheckpointed fault = some t) : t.Kept capacity := by
  have h := h.tasks s.advancing (s.reclaiming - 1)
  unfold reclaimCheckpointed at hstep
  dsimp only at hstep
  split_ifs at hstep with hidle hdeferred
  · cases hstep
    exact h
  · cases hstep
    push Not at hdeferred
    obtain ⟨hreserved, hpos, hcheckpoint⟩ := hdeferred
    have hlive := h.live_eq_nil hreserved
    have hbegun := h.beginTruncate hlive (Nat.pos_of_ne_zero hpos) hcheckpoint
    refine hbegun.truncate hlive ?_ fault
    have := h.generation_le
    simp only [beginTruncate, length_append, length_singleton]
    dsimp only at this
    omega

/-! ## Runs -/

/-- Every step keeps the accounting. -/
theorem kept_step [Blake3] {label : Label} (h : s.Kept capacity)
    (hstep : s.step capacity label = some t) : t.Kept capacity := by
  cases label with
  | reserve limit =>
    cases hstep
    exact kept_reserve (h.request limit) (mem_requested_request limit)
  | usage =>
    cases hstep
    exact kept_usage h
  | maximumBatchAdmission limit =>
    cases hstep
    exact kept_maximumBatchAdmission (h.request limit) (mem_requested_request limit)
  | drop index => exact kept_drop h hstep
  | append index metadata body => exact kept_append h hstep
  | write index fault => exact kept_write h hstep
  | settle index => exact kept_settle h hstep
  | beginAdvance =>
    cases hstep
    exact kept_beginAdvance h
  | advanceCheckpoint current target fault => exact kept_advanceCheckpoint h hstep
  | beginReclaim =>
    cases hstep
    exact kept_beginReclaim h
  | reclaimCheckpointed fault => exact kept_reclaimCheckpointed h hstep

/-- The scan reads the file up to what it discards. -/
theorem scanLoop_position [Blake3] {state final : ScanState} {discarded : Nat}
    (hposition : state.position ≤ file.length)
    (h : scanLoop file checkpoint bodyLimit state = .ok (final, discarded)) :
    final.position + discarded = file.length := by
  fun_induction scanLoop file checkpoint bodyLimit state with
  | case1 state hlt error hscan => cases h
  | case2 state hlt hscan =>
    cases h
    omega
  | case3 state hlt frameEnd hscan error hcommit => cases h
  | case4 state hlt frameEnd hscan next hcommit ih =>
    obtain ⟨metadata, body, hslice, rfl, -⟩ := scanFrame_eq_some hscan
    refine ih ?_ h
    rw [ScanState.position_of_commit hcommit]
    exact add_le_of_slice hslice
  | case5 state hge =>
    cases h
    omega

/-- Recovery counts what the scan has committed. -/
theorem kept_recovered [Blake3] {scan : FrameScan}
    (hscan : scanCommittedFrames file checkpoint bodyLimit = .ok scan)
    (hcapacity : scan.committedBytes ≤ capacity.get) :
    (recovered file scan checkpoint).Kept capacity := by
  obtain ⟨⟨state, discarded⟩, hloop, hscan⟩ := bind_eq_ok.mp hscan
  obtain ⟨_, hcheckpoint, hscan⟩ := bind_eq_ok.mp hscan
  cases hscan
  have hposition := scanLoop_position (Nat.zero_le _) hloop
  have hfile : (recoveredFile file ⟨state.committedBatches, state.pendingBatches, state.position,
      discarded⟩).length = state.position := by
    unfold recoveredFile
    split_ifs with hdiscarded
    · rw [length_take]
      dsimp only
      omega
    · dsimp only at hdiscarded
      omega
  exact {
    reserved_eq := rfl
    fits := by simp [recovered]
    occupied_le := hcapacity
    file_eq := fun _ => hfile
    checkpoint_le := (ensure_eq_ok.mp hcheckpoint).1
    generation_le := le_rfl
    reclaimed := by simp [recovered]
    errors := by simp [recovered]
    not_underflowed := rfl }

/-- The accounting is exact. -/
theorem Kept.exact (h : s.Kept capacity) : s.Exact capacity where
  reserved_eq := h.reserved_eq
  occupied_le := h.occupied_le
  committed_eq := by
    intro hfailed hidle
    have hwritten : (s.live.map Reservation.uncommittedBytes).sum = 0 := by
      refine sum_eq_zero fun bytes hbytes => ?_
      obtain ⟨reservation, hmem, rfl⟩ := mem_map.mp hbytes
      have := hidle reservation hmem
      cases reservation with
      | held limit reservedBytes => rfl
      | _ => cases this
    rw [h.file_eq hfailed, hwritten, Nat.add_zero]
  checkpoint_le := h.checkpoint_le
  reclaimed := h.reclaimed
  errors := h.errors
  not_underflowed := h.not_underflowed

/-- Over every run from a recovered spool whose committed bytes are within its capacity, the
accounting is exact. -/
theorem accounting_exact [Blake3] {file : Bytes} {scan : FrameScan} {checkpoint : SpoolCheckpoint}
    {bodyLimit : AppendBodyLimit} (hscan : scanCommittedFrames file checkpoint bodyLimit = .ok scan)
    (hcapacity : scan.committedBytes ≤ capacity.get) (labels : List Label)
    (hrun : Transition.run (step capacity) (recovered file scan checkpoint) labels = some s) :
    s.Exact capacity := by
  have hkept : s.Kept capacity :=
    Transition.invariant_of_follows (fun s => Kept capacity s)
      (fun h (_ : True) hstep => kept_step h hstep) (kept_recovered hscan hcapacity) hrun
      (Transition.follows_of_forall fun _ _ _ => trivial)
  exact hkept.exact

end Invariant

/-! ## A run -/

section Sample

/-- Four kibibytes. -/
def sampleCapacity : SpoolCapacity := ⟨4096, page_pos, page_lt⟩

/-- An append that is checkpointed and reclaimed, and one that fails in its write. -/
def sampleRun : List (@Label Chrono.unbounded) :=
  letI := Chrono.unbounded
  [.reserve ⟨1024, kibibyte_pos, kibibyte_lt⟩, .append 0 (BatchMetadata.sample 5) [7],
    .write 0 none, .settle 0, .usage, .beginAdvance, .advanceCheckpoint 0 197 none, .beginReclaim,
    .reclaimCheckpointed none, .reserve ⟨1024, kibibyte_pos, kibibyte_lt⟩,
    .append 0 (BatchMetadata.sample 6) [8, 9], .write 0 (some (.write 100)), .settle 0]

theorem scan_empty :
    letI := Chrono.unbounded
    letI := Blake3.constant
    scanCommittedFrames [] .initial ⟨1024, kibibyte_pos, kibibyte_lt⟩ = .ok ⟨0, 0, 0, 0⟩ := by
  let _ := Chrono.unbounded
  let _ := Blake3.constant
  have hloop : scanLoop [] .initial ⟨1024, kibibyte_pos, kibibyte_lt⟩
      (ScanState.initial .initial) = .ok (ScanState.initial .initial, 0) := by
    rw [scanLoop, if_neg (by decide)]
  rw [scanCommittedFrames, hloop]
  rfl

theorem isSome_sampleRun :
    letI := Chrono.unbounded
    letI := Blake3.constant
    (Transition.run (step sampleCapacity) (recovered [] ⟨0, 0, 0, 0⟩ .initial) sampleRun).isSome = true := by
  decide +kernel

/-- The accounting is exact behind that run. -/
theorem accounting_exact_sampleRun :
    letI := Chrono.unbounded
    letI := Blake3.constant
    ∃ s, Transition.run (step sampleCapacity) (recovered [] ⟨0, 0, 0, 0⟩ .initial) sampleRun = some s ∧
      s.Exact sampleCapacity := by
  let _ := Chrono.unbounded
  let _ := Blake3.constant
  obtain ⟨s, hs⟩ := Option.isSome_iff_exists.mp isSome_sampleRun
  exact ⟨s, hs, accounting_exact scan_empty (Nat.zero_le _) _ hs⟩

end Sample

end SpoolInner

end Elucid
