import Elucid.WorkerSessions
import Elucid.BatchCapacity

/-!
# Every occurrence is represented once

`represented_once` : if metadata is not deleted, then in every state of every run, with
crashes anywhere, the published outputs are disjoint, and each record position of a batch the
checkpoint has passed is covered by one of them. `log_settled` : what has left the recovery log
is settled, and the spool is within its capacity.

If metadata is deleted, this depends on what is deleted. `published_once` : as long as cleanup
spares the rows of published outputs whose records are in the recovery log, what was ever
published is disjoint, and a restart resumes such a record. `republishes` is a run in which
cleanup does not : the dead letters of a batch are published, expire, and are deleted with
their row while the spool and the log still have them. The process that starts next finds the
record unregistered and without bytes, rebuilds it, and publishes the occurrence again.
-/

namespace Elucid

open BigEndian Effect

theorem OutputRecoveryRecord.nodup_occurrences (record : OutputRecoveryRecord) :
    record.occurrences.Nodup := by
  have hids : (record.coverage.map (·.batchId)).Nodup := by
    have hcovers := record.covers
    cases houtput : record.output with
    | segment registration =>
      rw [houtput] at hcovers
      exact hcovers.2.1
    | deadLetter registration =>
      rw [houtput] at hcovers
      rw [show record.coverage.map (·.batchId) = [registration.batchId] from hcovers]
      exact List.nodup_singleton _
  refine List.nodup_flatMap.mpr ⟨fun coverage _ => coverage.nodup_occurrences, ?_⟩
  refine (List.pairwise_map.mp hids).imp fun hne => disjoint_occurrences.mpr fun heq => ?_
  exact absurd heq hne

section Runs

variable [Chrono] [Blake3] {deployment : Deployment}

/-- What is published is disjoint. -/
theorem Sound.disjoint_published {w : World} (h : Sound deployment w) {a b : OutputRecoveryRecord}
    (ha : a ∈ w.published) (hb : b ∈ w.published) (hne : a ≠ b) :
    a.occurrences.Disjoint b.occurrences := by
  intro occurrence hin hin'
  exact h.disjoint a (h.published_mem a ha) b (h.published_mem b hb) hne
    (fun hdead => hdead.unpublished ha) (fun hdead => hdead.unpublished hb) occurrence hin hin'

variable [SerdeJson] [ParquetFile] [SerdeDocument] [UuidCrate] [ChronoText] [FloatText] [Base64]
  [Layout]

/-- Across any number of crashes, published outputs do not overlap, and they cover what the
checkpoint has passed. -/
theorem represented_once (hnever : deployment.NeverCleans) (catalog : List Source)
    (sessions : List Session) :
    let w := deployment.runSessions catalog sessions
    (∀ objectId row, w.database.object? objectId = some row →
      ∃ record ∈ w.history, row.Matches record.output.object record.output.databaseOwner) ∧
    (∀ record ∈ w.history, record.occurrences.Nodup) ∧
    (∀ a ∈ w.history, ∀ b ∈ w.history, a ≠ b → w.state a = .ok .published →
      w.state b = .ok .published → a.occurrences.Disjoint b.occurrences) ∧
    ∀ metadata body, w.Passed metadata body → ∀ position ∈ recordPositions body,
      ∃! record, record ∈ w.history ∧ w.state record = .ok .published ∧
        (metadata.batchId, position) ∈ record.occurrences := by
  intro w
  have h : Sound deployment w := sound_runSessions hnever.keepsRetained catalog sessions
  have hpublished : ∀ record ∈ w.history, w.state record = .ok .published →
      record ∈ w.published := fun record hrecord =>
    (h.consistent record hrecord).published_of_state
  refine ⟨fun objectId row hrow => ?_, fun record _ => record.nodup_occurrences,
    fun a ha b hb hne hstate hstate' => ?_, fun metadata body hpassed position hposition => ?_⟩
  · obtain ⟨output, houtput, hmatch⟩ := h.records.objects objectId row hrow
    obtain ⟨record, hrecord, rfl⟩ := List.mem_map.mp houtput
    exact ⟨record, hrecord, hmatch⟩
  · exact h.disjoint_published (hpublished a ha hstate) (hpublished b hb hstate') hne
  · obtain ⟨record, hrecord, hcovered⟩ := h.passed metadata body hpassed position hposition
    have hmem := h.published_mem record hrecord
    refine ⟨record, ⟨hmem, (h.consistent record hmem).kept hrecord (Or.inr hnever), hcovered⟩, ?_⟩
    rintro other ⟨hother, hstate, hcovered'⟩
    by_contra hne
    exact h.disjoint_published (hpublished other hother hstate) hrecord hne hcovered' hcovered

/-- As long as cleanup spares published outputs whose records are in the log, nothing is
published twice, and a restart resumes what is published. -/
theorem published_once (hretains : deployment.KeepsRetained) (catalog : List Source)
    (sessions : List Session) :
    let w := deployment.runSessions catalog sessions
    (∀ a ∈ w.published, ∀ b ∈ w.published, a ≠ b → a.occurrences.Disjoint b.occurrences) ∧
    ∀ (session : Session) (moves : List Move) (resumable : List OutputRecoveryRecord)
      (after : World),
      let found := deployment.moves (w.restart session) moves
      deployment.resumableRecords session.rounds found.log found = .ok resumable after →
        ∀ record ∈ w.log, record ∈ w.published → record ∈ resumable := by
  intro w
  have h : Sound deployment w := sound_runSessions hretains catalog sessions
  refine ⟨fun a ha b hb hne => h.disjoint_published ha hb hne,
    fun session moves resumable after => ?_⟩
  intro found hresumable record hlog hpublished
  obtain ⟨hfound, hmoved⟩ := moves_spec (h.restart session) moves
  obtain ⟨hkept, -, hall⟩ := (keeps_resumableRecords hfound).of_ok hresumable
  refine (hall record (hmoved.extended.log ▸ hlog)).resolve_right fun hdead => ?_
  exact hdead.unpublished (hkept.2.published record (hmoved.extended.published record hpublished))

/-- What has left the log is settled and about truncated frames, and the spool is within its
capacity, with the checkpoint between two frames. -/
theorem log_settled (hretains : deployment.KeepsRetained) (catalog : List Source)
    (sessions : List Session) :
    let w := deployment.runSessions catalog sessions
    (∀ record ∈ w.history, record ∉ w.log → w.Settled record ∧ w.CoversRetired record) ∧
    w.committedBytes ≤ deployment.spool.capacity.get ∧
    ∃ front, front <+: w.frames ∧ w.checkpoint.position = framesBytes front := by
  have h := sound_runSessions hretains catalog sessions
  exact ⟨h.unlogged, h.capacity, h.boundary⟩

end Runs

/-! ## Runs on one batch -/

/-- A Parquet crate that writes one byte. -/
@[reducible] def ParquetFile.tiny [Chrono] : ParquetFile := ⟨fun _ _ _ => .ok [1], fun _ _ _ _ => true⟩

/-- A document of a dead letter. -/
def deadLetterValue : Value :=
  .object [
    (.ofString "batch_id", .string []), (.ofString "line_number", .number [0x31]),
    (.ofString "input_position", .number [0x30]),
    (.ofString "code", .string (.ofString (documentCode .parseFailed))),
    (.ofString "message", .string (.ofString DeadLetterCode.parseFailed.message)),
    (.ofString "payload_byte_count", .number [0x31]),
    (.ofString "payload_blake3", .string (List.replicate 64 0x30)),
    (.ofString "payload", .object [
      (.ofString "encoding", .string (.ofString (documentEncoding .utf8))),
      (.ofString "extent", .string (.ofString (documentExtent .complete))),
      (.ofString "content", .string [0x78])])]

/-- A reader of documents that reads each as this dead letter. -/
@[reducible] def SerdeDocument.lenient : SerdeDocument := ⟨fun _ => some deadLetterValue⟩

/-- A reader of UUIDs that rejects nothing. -/
@[reducible] def UuidCrate.lenient : UuidCrate := ⟨fun _ => some ⟨List.replicate 16 0, rfl⟩⟩

section Sample

attribute [local instance] Chrono.unbounded Blake3.constant SerdeJson.plain ChronoText.silent
  FloatText.silent Base64.empty Layout.sample ParquetFile.tiny SerdeDocument.lenient
  UuidCrate.lenient

/-- A small deployment. -/
def Deployment.sample (allows : World → Move → Bool) : Deployment where
  root := ⟨"root"⟩
  spool := ⟨⟨4096, page_pos, page_lt⟩, ⟨64, by decide, by decide⟩⟩
  scratchBytes := ⟨4096, page_pos, page_lt⟩
  eventRetentionSeconds := 1
  deadLetterRetentionSeconds := 1
  allows := allows

/-- An operation without a fault. -/
def Choice.sample (identity : Nat) (moves : List Move) : Choice where
  moves := moves
  fault := .none
  identity := UuidV7.sample (UInt8.ofNat identity)
  now := identity
  wakeup := .batch
  reserved := false

/-- A process with some moves before its first operation, which stops after `operations`
more. It draws the identities from `identity` on. -/
def Session.sample (moves : List Move) (identity operations : Nat) : Session where
  choices := fun n =>
    if n = 0 then some (Choice.sample 50 moves)
    else if n ≤ operations then some (Choice.sample (identity + n - 1) [])
    else none
  rounds := 20
  survives := fun _ bytes => some bytes

/-- Everything happens but deletions of metadata. -/
def withoutCleanup (_ : World) : Move → Bool
  | .cleanTerminalMetadata _ => false
  | _ => true

/-- A process gets a batch of one invalid line, processes it and reclaims the spool. -/
def Session.single : Session :=
  .sample [.append (BatchMetadata.sample 9) [0x78]] 100 25

theorem single_represented_once :
    let w := (Deployment.sample withoutCleanup).runSessions [Source.sample] [Session.single]
    w.frames = [] ∧ w.Passed (BatchMetadata.sample 9) [0x78] ∧ ∃! record, record ∈ w.history ∧
      w.state record = .ok .published ∧ (UuidV7.sample 9, 0) ∈ record.occurrences := by
  have hnever : (Deployment.sample withoutCleanup).NeverCleans := fun _ _ => rfl
  intro w
  have hframes : w.frames = [] := by decide +kernel
  have hpassed : w.Passed (BatchMetadata.sample 9) [0x78] := Or.inl (by decide +kernel)
  obtain ⟨-, -, -, h⟩ := represented_once hnever [Source.sample] [Session.single]
  exact ⟨hframes, hpassed, h _ _ hpassed 0 (by decide +kernel)⟩

theorem single_log_settled :
    let w := (Deployment.sample withoutCleanup).runSessions [Source.sample]
      [.sample [.append (BatchMetadata.sample 9) [0x78]] 100 26]
    ∃ record ∈ w.history, record ∉ w.log ∧ w.Settled record ∧ w.CoversRetired record := by
  intro w
  have hnever : (Deployment.sample withoutCleanup).NeverCleans := fun _ _ => rfl
  obtain ⟨record, hrecord, hlog⟩ : ∃ record ∈ w.history, record ∉ w.log := by decide +kernel
  exact ⟨record, hrecord, hlog, (log_settled hnever.keepsRetained _ _).1 record hrecord hlog⟩

/-- Deletions of metadata spare what the recovery log has. -/
def sparingCleanup (w : World) : Move → Bool
  | .cleanTerminalMetadata ids => w.log.all fun record => record.objectIdentity ∉ ids
  | _ => true

/-- The object of the first output that a process draws identities from 100 on for. -/
def firstObject : StoredObjectId := (UuidV7.sample 105).uuid

/-- The process stops before the checkpoint is advanced. -/
def Session.unfinished : Session :=
  .sample [.append (BatchMetadata.sample 9) [0x78]] 100 21

/-- Before a process starts, an output expires, and it is deleted with its row. -/
def Session.afterCleanup : Session :=
  .sample [.claim [firstObject] 1000, .deleteExact firstObject, .recordDeleted firstObject,
    .cleanTerminalMetadata [firstObject]] 150 24

theorem keepsRetained_sparingCleanup : (Deployment.sample sparingCleanup).KeepsRetained := by
  intro w ids hallows record hrecord _
  exact of_decide_eq_true (List.all_eq_true.mp hallows record hrecord)

theorem unfinished_published_once :
    let deployment := Deployment.sample sparingCleanup
    let w := deployment.runSessions [Source.sample] [Session.unfinished]
    let found := deployment.moves (w.restart Session.afterCleanup)
      [.cleanTerminalMetadata [firstObject]]
    (∃ record ∈ w.log, record ∈ w.published) ∧
      match deployment.resumableRecords 20 found.log found with
      | .ok resumable _ => ∀ record ∈ w.log, record ∈ w.published → record ∈ resumable
      | .error _ _ => False := by
  intro deployment w found
  refine ⟨by decide +kernel, ?_⟩
  have hok : (match deployment.resumableRecords 20 found.log found with
      | .ok _ _ => true
      | .error _ _ => false) = true := by decide +kernel
  have h := (published_once keepsRetained_sparingCleanup [Source.sample] [Session.unfinished]).2
    Session.afterCleanup [.cleanTerminalMetadata [firstObject]]
  cases hresumable : deployment.resumableRecords 20 found.log found with
  | ok resumable after => exact h resumable after hresumable
  | error stop after =>
    rw [hresumable] at hok
    cases hok

/-- The same occurrence is published twice, in two outputs. -/
theorem republishes :
    let w := (Deployment.sample fun _ _ => true).runSessions [Source.sample]
      [Session.unfinished, Session.afterCleanup]
    w.published.Pairwise (· ≠ ·) ∧
      w.published.flatMap (·.occurrences) = [(UuidV7.sample 9, 0), (UuidV7.sample 9, 0)] := by
  decide +kernel

end Sample

end Elucid
