import Elucid.CutRecovery
import Elucid.Transition

/-!
# Concurrent appends and the follower

Appends, checkpoint advances and reclamations of one process run at the same time, and
one reader follows them. An append takes effect in three steps, each under another lock
or under none : the frame is written, the bytes are accounted, and the new extent is sent
to the reader. A reclamation truncates the file and sends its extent later.

`LiveSpool` is the state between such steps, with what each generation holds and what the
reader saw as history, and `step` is one step of any of the tasks. `Safe` is what a
reader relies on : the extents it sees end at frames, never go back, cover what is
committed once the appends have returned, and every read succeeds.

Nothing orders the accounting of two written frames, or the sending of two extents, and
`Safe` fails without such an order (`not_safe_of_overtaking`). It holds in every run in
which frames are accounted in the order they were written and extents are sent in the
order they were made.
-/

namespace Elucid

open BigEndian

section Model

variable [Chrono]

/-! ## State -/

/-- What the spool is opened with. -/
structure SpoolConfig where
  capacity : SpoolCapacity
  bodyLimit : AppendBodyLimit

/-- An append whose frame is written and whose bytes are not accounted. -/
structure WrittenAppend where
  metadata : BatchMetadata
  body : Bytes
  storedBytes : Nat
  reservedBytes : Nat

/-- The task that sends an extent. -/
inductive Publisher
  | append
  | reclamation
  deriving DecidableEq, Repr

/-- An extent that is made and not sent. -/
structure Publication where
  publisher : Publisher
  extent : SpoolExtent
  deriving DecidableEq, Repr

/-- The spool between two steps of its tasks. -/
structure LiveSpool where
  file : Bytes
  generation : Nat
  committedBytes : Nat
  reservedBytes : Nat
  checkpoint : Nat
  extent : SpoolExtent
  failed : Bool
  /-- The reservations no append has used. -/
  reservations : List Nat
  /-- The written frames, in the order they were written. -/
  written : List WrittenAppend
  /-- The extents to send, in the order they were made. -/
  publications : List Publication
  follower : RecoveredBatches
  /-- The range of the read in progress. -/
  reading : Option (Nat × Nat)
  /-- The frames written in this generation. -/
  frames : List (BatchMetadata × Bytes)
  /-- The frames written in each earlier generation. -/
  pastFrames : List (List (BatchMetadata × Bytes))
  /-- The extents the follower has seen. -/
  observed : List SpoolExtent
  /-- The batches the follower has returned from this generation. -/
  returned : List RecoveredBatch
  /-- What the calls of `next_batch` have returned. -/
  results : List (Except SpoolError (Option RecoveredBatch))

namespace LiveSpool

/-! ## Steps -/

variable (config : SpoolConfig) (s : LiveSpool)

/-- `SpoolInner::reserve`. -/
def reserve : Option LiveSpool :=
  if s.failed then none
  else do
    let requiredBytes ← (reservedFrameBytes config.bodyLimit).toOption
    let occupiedBytes ← checkedAdd s.committedBytes s.reservedBytes
    if requiredBytes ≤ config.capacity.get - occupiedBytes then
      let reservedBytes ← checkedAdd s.reservedBytes requiredBytes
      some { s with reservedBytes, reservations := s.reservations ++ [requiredBytes] }
    else none

/-- `SpoolInner::release_reservation`. -/
def releaseReservation (reservedBytes : Nat) : LiveSpool :=
  if s.reservedBytes < reservedBytes then { s with failed := true, reservedBytes := 0 }
  else { s with reservedBytes := s.reservedBytes - reservedBytes }

/-- Dropping an unused reservation. -/
def release (index : Nat) : Option LiveSpool := do
  let reservedBytes ← s.reservations[index]?
  some { s.releaseReservation reservedBytes with reservations := s.reservations.eraseIdx index }

/-- `SpoolInner::append_reserved` up to the written frame, with the reservation at `index`. -/
def write [Blake3] (index : Nat) (metadata : BatchMetadata) (body : Bytes) :
    Option LiveSpool := do
  let reservedBytes ← s.reservations[index]?
  if s.failed ∨ config.bodyLimit.get < body.length then none
  else
    let s := { s with reservations := s.reservations.eraseIdx index }
    match writeFrame s.file metadata body with
    | (file, .ok (prepared, _)) =>
      some { s with
        file
        written := s.written ++ [⟨metadata, body, prepared.storedBytes, reservedBytes⟩]
        frames := s.frames ++ [(metadata, body)] }
    | (file, .error _) =>
      some ({ s with file, failed := true }.releaseReservation reservedBytes)

/-- `SpoolInner::commit_reservation` under the accounting lock, for the written frame at
`index`. -/
def commit (index : Nat) : Option LiveSpool := do
  let append ← s.written[index]?
  let s := { s with written := s.written.eraseIdx index }
  if append.reservedBytes < append.storedBytes ∨ s.reservedBytes < append.reservedBytes then
    some { s with failed := true }
  else
    match checkedAdd s.committedBytes append.storedBytes with
    | none => some { s with failed := true }
    | some committedBytes =>
      some { s with
        committedBytes
        reservedBytes := s.reservedBytes - append.reservedBytes
        publications := s.publications ++ [⟨.append, ⟨s.generation, committedBytes⟩⟩] }

/-- `send_replace` of the extent at `index`. -/
def publish (index : Nat) : Option LiveSpool := do
  let publication ← s.publications[index]?
  some { s with
    extent := publication.extent
    publications := s.publications.eraseIdx index }

/-- `SpoolInner::advance_checkpoint`. The worker plans it over batches the follower has
returned to it. -/
def advanceCheckpoint (target : Nat) : Option LiveSpool :=
  if s.failed ∨ s.committedBytes < target ∨ ∀ batch ∈ s.returned, batch.range.stop ≠ target then
    none
  else some { s with checkpoint := target }

/-- `SpoolInner::reclaim_checkpointed` under its locks. -/
def reclaimCheckpointed : Option LiveSpool :=
  if s.failed then none
  else if s.reservedBytes ≠ 0 ∨ s.checkpoint = 0 ∨ s.checkpoint ≠ s.committedBytes then some s
  else
    let s := { s with checkpoint := 0, file := [], committedBytes := 0, returned := [] }
    match checkedAdd s.generation 1 with
    | none => some { s with failed := true }
    | some generation =>
      some { s with
        generation
        publications := s.publications ++ [⟨.reclamation, ⟨generation, 0⟩⟩]
        frames := []
        pastFrames := s.pastFrames ++ [s.frames] }

/-- `next_batch` of the follower up to its read. -/
def observe : Option LiveSpool :=
  if s.reading.isSome ∨ s.follower.state ≠ .following then none
  else
    let s' := { s with observed := s.observed ++ [s.extent] }
    match s.follower.beginNext s.extent with
    | (follower, .done result) => some { s' with follower, results := s.results ++ [result] }
    | (follower, .read position stop) =>
      some { s' with follower, reading := some (position, stop) }

/-- `next_batch` of the follower from its read on. -/
def read [Blake3] : Option LiveSpool := do
  let (position, stop) ← s.reading
  let (follower, result) := s.follower.finishNext
    (readRecoveredBatch s.file position stop s.follower.bodyLimit)
  let returned := match result with
    | .ok (some batch) => s.returned ++ [batch]
    | _ => s.returned
  some { s with follower, reading := none, returned, results := s.results ++ [result] }

/-- The steps of the tasks. -/
inductive Label
  | reserve
  | release (index : Nat)
  | write (index : Nat) (metadata : BatchMetadata) (body : Bytes)
  | commit (index : Nat)
  | publish (index : Nat)
  | advanceCheckpoint (target : Nat)
  | reclaimCheckpointed
  | observe
  | read

/-- One step of one task. A call that is refused is no step. -/
def step [Blake3] (s : LiveSpool) : Label → Option LiveSpool
  | .reserve => s.reserve config
  | .release index => s.release index
  | .write index metadata body => s.write config index metadata body
  | .commit index => s.commit index
  | .publish index => s.publish index
  | .advanceCheckpoint target => s.advanceCheckpoint target
  | .reclaimCheckpointed => s.reclaimCheckpointed
  | .observe => s.observe
  | .read => s.read

/-- The spool that recovery opens over the frames it found, once they are read. -/
def initial [Blake3] (frames : List (BatchMetadata × Bytes)) (checkpoint : Nat) : LiveSpool where
  file := framesOf frames
  generation := 0
  committedBytes := (framesOf frames).length
  reservedBytes := 0
  checkpoint := checkpoint
  extent := ⟨0, (framesOf frames).length⟩
  failed := false
  reservations := []
  written := []
  publications := []
  follower := ⟨(framesOf frames).length, (framesOf frames).length, 0, config.bodyLimit, .following⟩
  reading := none
  frames := frames
  pastFrames := []
  observed := []
  returned := batchesAt 0 frames
  results := []

/-! ## What the reader relies on -/

end LiveSpool

/-- An extent before another. -/
def SpoolExtent.lt (a b : SpoolExtent) : Prop :=
  a.generation < b.generation ∨ a.generation = b.generation ∧ a.stop < b.stop

/-- An extent not behind another. -/
def SpoolExtent.le (a b : SpoolExtent) : Prop :=
  a.generation < b.generation ∨ a.generation = b.generation ∧ a.stop ≤ b.stop

namespace LiveSpool

/-- The frames written in a generation. -/
def framesAt (s : LiveSpool) (generation : Nat) : List (BatchMetadata × Bytes) :=
  if generation = s.generation then s.frames else s.pastFrames[generation]?.getD []

/-- The extent ends with a frame of its generation. -/
def IsFrameEnd [Blake3] (s : LiveSpool) (extent : SpoolExtent) : Prop :=
  ∃ front, front <+: s.framesAt extent.generation ∧ extent.stop = (framesOf front).length

/-- The bytes of this generation that the published extent covers. -/
def coveredBytes (s : LiveSpool) : Nat :=
  if s.extent.generation = s.generation then s.extent.stop else 0

/-- Every append that wrote its frame has sent its extent. -/
def AppendsReturned (s : LiveSpool) : Prop :=
  s.written = [] ∧ ∀ publication ∈ s.publications, publication.publisher = .reclamation

/-- What the reader relies on. -/
structure Safe [Blake3] (s : LiveSpool) : Prop where
  frameEnd : ∀ extent ∈ s.observed, s.IsFrameEnd extent
  forward : s.observed.Pairwise SpoolExtent.le
  covered : s.AppendsReturned → s.committedBytes ≤ s.coveredBytes
  reads : ∀ result ∈ s.results, ∃ batch, result = .ok batch

/-- Frames are accounted, and extents are sent, oldest first. -/
def InOrder (_ : LiveSpool) : Label → Prop
  | .commit index => index = 0
  | .publish index => index = 0
  | _ => True

end LiveSpool

end Model

/-! ## Overtaking -/

namespace LiveSpool

/-- A spool with room for several batches of 16 bytes. -/
def overtakenConfig : SpoolConfig :=
  ⟨⟨4096, page_pos, page_lt⟩, ⟨16, by decide, by decide⟩⟩

/-- Two appends, of which the second and shorter one is accounted and sent first, and the
follower behind them. -/
def overtaking : List (@Label Chrono.unbounded) :=
  letI := Chrono.unbounded
  [.reserve, .reserve, .write 0 (BatchMetadata.sample 5) [7], .write 0 (BatchMetadata.sample 6) [],
    .commit 1, .publish 0, .observe, .read]

/-- The follower sees an extent inside the first frame, and its read fails. -/
theorem results_overtaking :
    letI := Chrono.unbounded
    letI := Blake3.constant
    (Transition.run (step overtakenConfig) (initial overtakenConfig [] 0) overtaking).map
      (·.results) = some [.error (.corrupt "recovered spool frame exceeds its committed range")] := by
  decide +kernel

theorem not_safe_of_overtaking :
    letI := Chrono.unbounded
    letI := Blake3.constant
    ∃ s, Transition.run (step overtakenConfig) (initial overtakenConfig [] 0) overtaking = some s ∧
      ¬ s.Safe := by
  let _ := Chrono.unbounded
  let _ := Blake3.constant
  obtain ⟨s, hs, hresults⟩ := Option.map_eq_some_iff.mp results_overtaking
  refine ⟨s, hs, fun hsafe => ?_⟩
  obtain ⟨_, hread⟩ := hsafe.reads _ (hresults ▸ List.mem_singleton.mpr rfl)
  cases hread

end LiveSpool

end Elucid
