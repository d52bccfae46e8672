import Elucid.EventTimeRange
import Elucid.LogReclamation

/-!
# Outputs that recovery rebuilds

An output whose bytes are lost is rebuilt from its batches, under new identities. Two things
can be in the way.

A dead letter is unique to its input and batch, also behind its deletion, and reconciliation
marks the row of the old one for deletion but does not delete it. `registerRebuilt_iff` : in
every run, where recovery rebuilds the dead letters of a batch, the new ones are registered iff
no old record of them was. `rebuilt_conflicts` is a run in which a row stops the worker.

Recovery looks whether a staged file exists, and reads it only when the output is registered.
`recoverOutputs_iff` : where the stores answer, recovery of segments ends without an error iff
each file that is there is the file that was recorded, and its row can be inserted.
`truncated_stops` is a file that was cut.
-/

namespace Elucid

open BigEndian Effect List

/-! ## Dead letters -/

section Rebuilt

variable [Chrono] {deployment : Deployment} {w : World} {inputId : InputId}
  {batchId : BatchId} {record : OutputRecoveryRecord}

/-- The rows of an input and batch are those of the records that are registered. -/
theorem Stated.exists_row_iff (h : Stated deployment w) :
    (∃ row ∈ w.database.objects.rows, row.owner = .deadLetter inputId batchId) ↔
      ∃ record ∈ w.history, record.output.databaseOwner = .deadLetter inputId batchId ∧
        w.state record ≠ .ok .unregistered := by
  constructor
  · rintro ⟨row, hrow, howner⟩
    have hfind : w.database.object? row.objectId = some row := Table.find?_of_mem hrow
    obtain ⟨output, houtput, hid, hmatch, -⟩ := h.records.objects _ _ hfind
    obtain ⟨record, hrecord, rfl⟩ := mem_map.mp houtput
    refine ⟨record, hrecord, hmatch.symm.trans howner, fun hstate => ?_⟩
    obtain ⟨-, ⟨-, hnone, -⟩ | ⟨_, -, -, hresolves⟩⟩ := Database.outputState_eq_ok.mp hstate
    · rw [hid] at hfind
      cases hnone.symm.trans hfind
    · exact hresolves.state_eq.1 rfl
  · rintro ⟨record, hrecord, howner, hne⟩
    obtain ⟨state, hstate⟩ := h.records.states _ (mem_map_of_mem hrecord)
    obtain ⟨row, hrow, hmatch, -⟩ := Database.exists_object_of_outputState hstate
      fun hunregistered => hne (hunregistered ▸ hstate)
    exact ⟨row, (Table.find?_eq_some.mp hrow).1, hmatch.2.1.trans howner⟩

variable [Blake3]

/-- Dead letters with new identities are registered iff their input and batch have no row. -/
theorem Sound.registerDeadLetter_iff (h : Sound deployment w) (hfresh : Fresh w record)
    (howner : record.output.databaseOwner = .deadLetter inputId batchId) :
    (∃ after, w.database.registerOutput record.output = .ok (.registered, after)) ↔
      ∀ row ∈ w.database.objects.rows, row.owner ≠ .deadLetter inputId batchId := by
  cases houtput : record.output with
  | segment registration =>
    rw [houtput] at howner
    cases howner
  | deadLetter registration =>
    have hfits := hfresh.fits
    rw [houtput] at howner hfits
    obtain ⟨rfl, rfl⟩ := ObjectDatabaseOwner.deadLetter.inj howner
    have hconflicts : ∀ row ∈ w.database.objects.rows, row.ConflictsWith registration.object
        (.deadLetter registration.inputId registration.batchId) ↔
          row.owner = .deadLetter registration.inputId registration.batchId := by
      intro row hrow
      obtain ⟨output, hmem, hid, -, hkey, -⟩ := h.records.objects _ _ (Table.find?_of_mem hrow)
      obtain ⟨other, hother, rfl⟩ := mem_map.mp hmem
      have hne : row.objectId ≠ registration.object.key.objectId := fun heq =>
        (hfresh.new other hother).2.1 (by
          rw [OutputRecoveryRecord.objectIdentity, OutputRecoveryRecord.objectIdentity, houtput]
          exact hid.symm.trans heq)
      have hne' : row.objectKey ≠ registration.object.key := fun heq =>
        hne (by rw [hid, ← hkey, heq])
      exact ⟨fun hconflict => (hconflict.resolve_left hne).resolve_left hne',
        fun heq => Or.inr (Or.inr heq)⟩
    rw [Database.registerOutput]
    constructor
    · rintro ⟨after, hregister⟩ row hrow heq
      rcases Database.registerDeadLetter_eq_ok hregister with ⟨hfree, -⟩ | ⟨-, houtcome, -⟩
      · exact hfree row hrow ((hconflicts row hrow).mpr heq)
      · cases houtcome
    · intro hfree
      have hnone : ¬ ∃ row ∈ w.database.objects.rows, row.ConflictsWith registration.object
          (.deadLetter registration.inputId registration.batchId) := by
        rintro ⟨row, hrow, hconflict⟩
        exact hfree row hrow ((hconflicts row hrow).mp hconflict)
      refine ⟨{ w.database with objects := w.database.objects.insert (.planned registration.object
        (.deadLetter registration.inputId registration.batchId)) },
        bind_eq_ok.mpr ⟨(), hfits, ?_⟩⟩
      dsimp only
      rw [Database.insertPlannedObject, if_neg hnone]
      rfl

/-- The records about a batch of the spool are in the log. -/
theorem Sound.mem_log (h : Sound deployment w) (hbatch : batchId ∈ batchIds w.frames)
    (hrecord : record ∈ w.history)
    (howner : record.output.databaseOwner = .deadLetter inputId batchId) : record ∈ w.log := by
  by_contra hlog
  cases houtput : record.output with
  | segment registration =>
    rw [houtput] at howner
    cases howner
  | deadLetter registration =>
    have hcovers := record.covers
    rw [houtput] at howner hcovers
    obtain ⟨-, rfl⟩ := ObjectDatabaseOwner.deadLetter.inj howner
    obtain ⟨item, hitem, hid⟩ := mem_map.mp
      (hcovers ▸ mem_singleton_self _ : registration.batchId ∈ _)
    have hretired := (h.unlogged record hrecord hlog).2 item hitem
    have hnodup := h.nodup
    rw [batchIds, World.spooled, map_append, nodup_append] at hnodup
    exact hnodup.2.2 _ (hid ▸ hretired) _ hbatch rfl

/-- The dead letters of a batch that recovery rebuilds are registered again iff no record of them
was registered before. -/
theorem registerRebuilt_iff [SerdeJson] [ParquetFile] [SerdeDocument] [UuidCrate] [ChronoText]
    [FloatText] [Base64] [Layout] (hnever : deployment.NeverCleans) (catalog : List Source)
    (sessions : List Session) (session : Session) {rounds : Nat} {worker after : Worker}
    {summary : SegmentBuildSummary} {found u v : World}
    (hfound : found = (deployment.runSessions catalog sessions).restart session)
    (hbatch : summary.metadata.batchId ∈ batchIds found.frames)
    (hrebuild : ∀ other ∈ found.log, other.output.databaseOwner =
        .deadLetter summary.metadata.catalog.inputId summary.metadata.batchId →
      ∃ t, deployment.recoveryDisposition rounds other found = .ok .rebuild t)
    (hrecover : deployment.recoverOutputs rounds found.log (deployment.newWorker found) found =
      .ok after u)
    (hstage : deployment.stagedDeadLetter worker summary u = .ok record v) :
    (∃ next, v.database.registerOutput record.output = .ok (.registered, next)) ↔
      ∀ other ∈ found.log, other.output.databaseOwner =
          .deadLetter summary.metadata.catalog.inputId summary.metadata.batchId →
        found.state other = .ok .unregistered := by
  have h : Sound deployment found :=
    hfound ▸ (sound_runSessions hnever.keepsRetained catalog sessions).restart session
  obtain ⟨hu, -⟩ := (keeps_recovered h).of_ok hrecover
  obtain ⟨hv, hstaged⟩ := (keeps_stagedDeadLetter hu.1 summary).of_ok hstage
  have hextends := hu.2.trans (hv.2.mono fun _ => False.elim)
  rw [hv.1.registerDeadLetter_iff hstaged.fresh hstaged.owner]
  have hrow := @Stated.exists_row_iff _ _ _ summary.metadata.catalog.inputId
    summary.metadata.batchId hv.1.toStated
  constructor
  · intro hfree other hother howner
    have hin := h.log_mem other hother
    refine (hextends.knows other hin).known hnever (by_contra fun hne => ?_)
    obtain ⟨row, hmem, heq⟩ := hrow.mpr ⟨other, hextends.history ▸ hin, howner, hne⟩
    exact hfree row hmem heq
  · intro hunregistered row hmem heq
    obtain ⟨other, hother, howner, hne⟩ := hrow.mp ⟨row, hmem, heq⟩
    rw [hextends.history] at hother
    have hlog := h.mem_log hbatch hother howner
    obtain ⟨t, ht⟩ := hrebuild other hlog howner
    obtain ⟨hkept, hdead⟩ := (keeps_recoveryDisposition h hlog rounds).of_ok ht
    refine hne ((hextends.knows other hother).lost ?_ (hunregistered other hlog howner))
    exact (hkept.2.dead other hother).mp (hdead rfl)

end Rebuilt

section Sample

attribute [local instance] Chrono.unbounded Blake3.constant SerdeJson.plain ChronoText.silent
  FloatText.silent Base64.empty Layout.sample ParquetFile.tiny SerdeDocument.lenient
  UuidCrate.lenient

/-- A process stops when the dead letters of its batch are registered. -/
def Session.registered : Session :=
  .sample [.append (BatchMetadata.sample 9) [0x78]] 100 13

/-- A process that finds no staged file. -/
def Session.unstaged (operations : Nat) : Session :=
  { Session.sample [] 150 operations with survives := fun _ _ => none }

/-- A process publishes the dead letters of a batch, and stops when those of the next batch are
staged and in the log. -/
def Session.twoBatches : Session :=
  .sample [.append (BatchMetadata.sample 9) [0x78], .append (BatchMetadata.sample 10) [0x78]] 100 27

/-- The dead letters of the second batch. -/
def secondSummary : SegmentBuildSummary :=
  ⟨BatchMetadata.sample 10, [.new (BatchMetadata.sample 10).batchId ⟨1, 0⟩ .parseFailed [0x78] 1], 0⟩

/-- The first dead letters have a row, and the second ones, whose bytes are lost, are registered
again. -/
theorem secondSummary_registered :
    let deployment := Deployment.sample withoutCleanup
    let found := (deployment.runSessions [Source.sample] [Session.twoBatches]).restart
      (Session.unstaged 30)
    found.log.map found.state = [.ok .published, .ok .unregistered] ∧
      ∃ after u record v next,
        deployment.recoverOutputs 20 found.log (deployment.newWorker found) found = .ok after u ∧
        deployment.stagedDeadLetter
          { after with ranges := fun _ => some ⟨0, 1, by decide⟩ } secondSummary u =
            .ok record v ∧
        v.database.registerOutput record.output = .ok (.registered, next) := by
  intro deployment found
  let owner := ObjectDatabaseOwner.deadLetter secondSummary.metadata.catalog.inputId
    secondSummary.metadata.batchId
  have hfound : found = (deployment.runSessions [Source.sample] [Session.twoBatches]).restart
    (Session.unstaged 30) := rfl
  have hstates : found.log.map found.state = [.ok .published, .ok .unregistered] := by
    decide +kernel
  have hbatch : secondSummary.metadata.batchId ∈ batchIds found.frames := by decide +kernel
  have hrebuild : ∀ other ∈ found.log, other.output.databaseOwner = owner →
      (deployment.recoveryDisposition 20 other).run' found = some .rebuild := by
    decide +kernel
  have hrun : ((do
      let after ← deployment.recoverOutputs 20 found.log (deployment.newWorker found)
      deployment.stagedDeadLetter
        { after with ranges := fun _ => some ⟨0, 1, by decide⟩ } secondSummary :
          Program OutputRecoveryRecord).run' found).isSome := by
    decide +kernel
  have hunregistered : ∀ other ∈ found.log, other.output.databaseOwner = owner →
      found.state other = .ok .unregistered := by
    decide +kernel
  clear_value found
  obtain ⟨record, hrecord⟩ := Option.isSome_iff_exists.mp hrun
  obtain ⟨v, hreturns⟩ := run'_eq_some.mp hrecord
  obtain ⟨after, u, hrecover, hstage⟩ := exists_of_bind hreturns
  obtain ⟨next, hnext⟩ := (registerRebuilt_iff (fun _ _ => rfl) _ _ _ hfound hbatch
    (fun other hother howner => run'_eq_some.mp (hrebuild other hother howner)) hrecover
    hstage).mpr hunregistered
  exact ⟨hstates, after, u, record, v, next, hrecover, hstage, hnext⟩

/-- The new dead letters are not registered, and the worker stops. -/
theorem rebuilt_conflicts :
    let deployment := Deployment.sample withoutCleanup
    let w := deployment.runSessions [Source.sample] [Session.registered]
    w.database.objects.rows.map (·.state) = [.planned] ∧
      deployment.stopOf w (Session.unstaged 13) = some (.failed (.publication (.conflict
        "dead-letter identity, owner, or immutable object metadata conflicts"))) := by
  decide +kernel

end Sample

/-! ## Transactions that succeed -/

/-- A segment is registered only if its times fit the columns. -/
theorem Database.inRange_of_registerOutput {database : Database}
    {registration : SegmentDescriptor} {result : RegistrationOutcome × Database}
    (h : database.registerOutput (.segment registration) = .ok result) :
    registration.times.InRange := by
  obtain ⟨_, -, h⟩ := bind_eq_ok.mp h
  obtain ⟨_, hin, -⟩ := bind_eq_ok.mp h
  exact ensure_eq_ok.mp hin

namespace Database.Records

variable {database : Database} {outputs : List RecoveryOutput} {registration : SegmentDescriptor}

/-- A segment without rows is registered, if its times fit the columns. -/
theorem exists_register (h : database.Records outputs) (hmem : .segment registration ∈ outputs)
    (hstate : database.outputState (.segment registration) = .ok .unregistered)
    (htimes : registration.times.InRange) :
    ∃ after, database.registerOutput (.segment registration) = .ok (.registered, after) := by
  obtain ⟨hfits, ⟨hsegment, hobject, -⟩ | ⟨_, -, -, hresolves⟩⟩ := outputState_eq_ok.mp hstate
  · have hnone : ¬ ∃ row ∈ database.objects.rows,
        row.ConflictsWith registration.object (.segment registration.segmentId) := by
      rintro ⟨row, hrow, hconflict⟩
      have hfind : database.object? row.objectId = some row := Table.find?_of_mem hrow
      rcases hconflict with hid | hkey | howner
      · rw [hid] at hfind
        cases hobject.symm.trans hfind
      · obtain ⟨output, houtput, hmatch⟩ := h.objects _ _ hfind
        have hid : row.objectId = registration.object.key.objectId := by
          rw [hmatch.1, ← hmatch.2.2.1, hkey]
        rw [hid] at hfind
        cases hobject.symm.trans hfind
      · cases hobject.symm.trans (h.object?_of_owner hmem hrow howner)
    refine ⟨⟨database.segments.insert (.prepared registration), database.objects.insert
      (.planned registration.object (.segment registration.segmentId))⟩,
      bind_eq_ok.mpr ⟨(), hfits, bind_eq_ok.mpr ⟨(), ensure_eq_ok.mpr htimes, ?_⟩⟩⟩
    change database.segment? registration.segmentId = none at hsegment
    rw [insertSegment, if_pos hsegment]
    dsimp only
    rw [insertPlannedObject, if_neg hnone]
    rfl
  · exact absurd rfl hresolves.state_eq.1

/-- The upload of a planned segment is recorded. -/
theorem exists_recordUpload (hstate : database.outputState (.segment registration) = .ok .planned) :
    ∃ after, database.recordVerifiedUpload registration.object = .ok (.recorded, after) := by
  obtain ⟨hfits, ⟨-, -, hother⟩ | ⟨object, hobject, hmatch, hresolves⟩⟩ :=
    outputState_eq_ok.mp hstate
  · cases hother
  · have hplanned := hresolves.state_eq.2.1 rfl
    obtain ⟨_, -, hvalid⟩ := bind_eq_ok.mp hfits
    obtain ⟨_, -, hvalid⟩ := bind_eq_ok.mp hvalid
    have hmatch : object.MatchesFromKey registration.object := by
      rw [StoredObject.MatchesFromKey, registration.owner_eq]
      exact hmatch
    refine ⟨database.updateObjects [object.objectId] StoredObject.recordUpload
      StoredObject.objectId_recordUpload, bind_eq_ok.mpr ⟨(), hvalid, bind_eq_ok.mpr
        ⟨object, congrArg (okOr · _) hobject, bind_eq_ok.mpr ⟨(), ensure_eq_ok.mpr hmatch, ?_⟩⟩⟩⟩
    rw [hplanned]
    rfl

/-- An uploaded segment is published. -/
theorem exists_publish (h : database.Records outputs) (hmem : .segment registration ∈ outputs)
    (hstate : database.outputState (.segment registration) = .ok .uploaded)
    (now eventRetention deadLetterRetention : Nat) :
    ∃ after, database.publishOutput now eventRetention deadLetterRetention
      (.segment registration) = .ok (.published, after) := by
  obtain ⟨hfits, ⟨-, -, hother⟩ | ⟨object, hobject, hmatch', segment, hsegment, hmatch, hresolved⟩⟩ :=
    outputState_eq_ok.mp hstate
  · cases hother
  · obtain ⟨hprepared, huploaded⟩ := resolvedIngestionState_eq_ok.mp hresolved
    have hrow : object ∈ database.objects.rows := (Table.find?_eq_some.mp hobject).1
    have howned : database.segmentObject? registration.segmentId = some object := by
      have hsome : (database.segmentObject? registration.segmentId).isSome := by
        rw [segmentObject?, find?_isSome]
        exact ⟨object, hrow, decide_eq_true hmatch'.2.1⟩
      obtain ⟨found, hfound⟩ := Option.isSome_iff_exists.mp hsome
      have howner : found.owner = .segment registration.segmentId := by
        simpa using find?_some hfound
      have := h.object?_of_owner hmem (mem_of_find?_eq_some hfound) howner
      exact hfound.trans (this.symm.trans hobject)
    refine ⟨(database.updateObjects [object.objectId] (StoredObject.publish · now none)
          fun row => row.objectId_publish now none).updateSegments [registration.segmentId]
        (StoredSegment.activate · now eventRetention)
        fun row => row.segmentId_activate now eventRetention,
      bind_eq_ok.mpr ⟨segment, congrArg (okOr · _) hsegment, bind_eq_ok.mpr ⟨object,
        congrArg (okOr · _) howned, bind_eq_ok.mpr ⟨(), ensure_eq_ok.mpr hmatch.2.2.2.1, ?_⟩⟩⟩⟩
    rw [hprepared, huploaded]
    rfl

end Database.Records

/-! ## Programs while the stores answer -/

section Calm

variable [Chrono] {deployment : Deployment} {record : OutputRecoveryRecord} {w : World}
variable {E : Stop → World → Prop} {α : Type}
variable {Q : α → World → Prop} {unavailable : IngestionProcessingError} {a : α}

/-- The stores answer, and nothing else happens. -/
def World.Calm (w : World) : Prop :=
  ∀ n, ∃ choice, w.choices.get n = some choice ∧ choice.fault = .none ∧ choice.moves = []

/-- An operation is its effect. -/
theorem World.Calm.wp_operate (h : w.Calm)
    {effect : Choice → World → Except IngestionProcessingError (α × World)}
    (heffect : ∀ choice choices, ({ w with choices } : World).Calm →
      match effect choice { w with choices } with
      | .ok (a, u) => Q a u
      | .error error => E (.failed error) { w with choices }) :
    wp (deployment.operate unavailable effect) Q E w := by
  obtain ⟨choice, hchoice, hfault, hmoves⟩ := h 0
  have htail : ({ w with choices := w.choices.tail } : World).Calm := fun n => h (n + 1)
  specialize heffect choice w.choices.tail htail
  rw [Deployment.operate, wp_bind, wp, Deployment.nextChoice,
    show w.choices.head = some choice from hchoice]
  change wp (Deployment.perform unavailable effect choice) Q E
    (deployment.moves { w with choices := w.choices.tail } choice.moves)
  have hnil : ∀ v : World, deployment.moves v [] = v := fun _ => rfl
  rw [hmoves, hnil, wp, Deployment.perform, if_neg (by simp [hfault])]
  cases heq : effect choice { w with choices := w.choices.tail } with
  | error error =>
    rw [heq] at heffect
    exact heffect
  | ok result =>
    rw [heq] at heffect
    dsimp only
    rw [if_neg (by simp [hfault])]
    exact heffect

/-- A transaction is its change of the database. -/
theorem World.Calm.wp_transact (h : w.Calm)
    {transaction : Choice → Database → Except PublicationError (α × Database)}
    (htransaction : ∀ choice choices, ({ w with choices } : World).Calm →
      match transaction choice w.database with
      | .ok (a, database) => Q a { w with choices, database }
      | .error error => E (.failed (.publication error)) { w with choices }) :
    wp (deployment.transact transaction) Q E w := by
  refine h.wp_operate fun choice choices hcalm => ?_
  specialize htransaction choice choices hcalm
  dsimp only
  cases heq : transaction choice w.database with
  | error error =>
    rw [heq] at htransaction
    exact htransaction
  | ok result =>
    rw [heq] at htransaction
    exact htransaction

theorem stagedOutputPath_congr {u v : World} (h : u.catalog = v.catalog) (output : RecoveryOutput) :
    Deployment.stagedOutputPath u output = Deployment.stagedOutputPath v output := by
  unfold Deployment.stagedOutputPath Deployment.recoveredSchema World.sourceById
  rw [h]

/-- An operation that only reads. -/
theorem World.Calm.wp_read (h : w.Calm) {effect : World → Except IngestionProcessingError α}
    (heffect : ∀ choices, effect { w with choices } = .ok a)
    (hQ : ∀ choices, ({ w with choices } : World).Calm → Q a { w with choices }) :
    wp (deployment.operate unavailable fun _ w => do return (← effect w, w)) Q E w := by
  refine h.wp_operate fun choice choices hcalm => ?_
  rw [heffect choices]
  exact hQ choices hcalm

theorem wp_raise {result : Except IngestionProcessingError α} (h : result = .ok a) (hQ : Q a w) :
    wp (Deployment.raise result) Q E w := by
  subst h
  exact hQ

/-- Without faults, the state is read. -/
theorem World.Calm.wp_outputState (h : w.Calm) {state : ObjectPublicationState}
    (hstate : w.state record = .ok state) {Q : ObjectPublicationState → World → Prop}
    (hQ : ∀ choices, ({ w with choices } : World).Calm → Q state { w with choices }) :
    wp (deployment.outputState record) Q E w := by
  refine h.wp_transact fun choice choices hcalm => ?_
  rw [show w.database.outputState record.output = .ok state from hstate]
  exact hQ choices hcalm

/-- The catalog has the schema of a segment. -/
def World.Catalogued (w : World) (record : OutputRecoveryRecord) : Prop :=
  ∀ registration, record.output = .segment registration → registration.rowCount < 2 ^ 63 ∧
    ∃ source schema, w.sourceById registration.sourceId = some source ∧
      source.schema registration.schemaId = some schema

theorem World.Catalogued.stagedOutputPath_eq {registration : SegmentDescriptor}
    (hsegment : record.output = .segment registration) (h : w.Catalogued record) :
    Deployment.stagedOutputPath w record.output = .ok record.objectIdentity := by
  obtain ⟨hrows, source, schema, hsource, hschema⟩ := h registration hsegment
  rw [OutputRecoveryRecord.objectIdentity, hsegment]
  refine bind_eq_ok.mpr ⟨schema, bind_eq_ok.mpr ⟨source, by rw [hsource]; rfl,
    bind_eq_ok.mpr ⟨schema, by rw [hschema]; rfl, ?_⟩⟩, rfl⟩
  exact bind_eq_ok.mpr ⟨(), ensure_eq_ok.mpr hrows, rfl⟩

theorem World.Catalogued.congr {u v : World} (hcatalog : u.catalog = v.catalog) :
    u.Catalogued record ↔ v.Catalogued record := by
  unfold World.Catalogued World.sourceById
  rw [hcatalog]

theorem World.Catalogued.of_stagedOutputPath {path : StoredObjectId}
    (h : Deployment.stagedOutputPath w record.output = .ok path) : w.Catalogued record := by
  intro registration hsegment
  rw [hsegment] at h
  obtain ⟨_, h, -⟩ := bind_eq_ok.mp h
  obtain ⟨source, hsource, h⟩ := bind_eq_ok.mp h
  obtain ⟨schema, hschema, h⟩ := bind_eq_ok.mp h
  obtain ⟨_, hrows, -⟩ := bind_eq_ok.mp h
  exact ⟨ensure_eq_ok.mp hrows, source, schema, okOr_eq_ok hsource, okOr_eq_ok hschema⟩

/-- A staged file is looked for, if the catalog has the schema of its segment. -/
theorem World.Calm.wp_stagedOutputExists (h : w.Calm) {registration : SegmentDescriptor}
    (hsegment : record.output = .segment registration) {Q : Bool → World → Prop}
    (hQ : w.Catalogued record → ∀ choices, ({ w with choices } : World).Calm →
      Q (w.staged record.objectIdentity).isSome { w with choices })
    (hE : ¬ w.Catalogued record → ∀ stop u, E stop u) :
    wp (deployment.stagedOutputExists record) Q E w := by
  refine h.wp_operate fun choice choices hcalm => ?_
  rw [stagedOutputPath_congr (u := { w with choices }) (v := w) rfl]
  by_cases hcatalogued : w.Catalogued record
  · rw [hcatalogued.stagedOutputPath_eq hsegment]
    exact hQ hcatalogued choices hcalm
  · cases hpath : Deployment.stagedOutputPath w record.output with
    | error error => exact hE hcatalogued _ _
    | ok path => exact absurd (World.Catalogued.of_stagedOutputPath hpath) hcatalogued

end Calm

/-! ## One segment -/

section Segment

variable [Chrono] {deployment : Deployment} {outputs : List RecoveryOutput}
  {record : OutputRecoveryRecord} {registration : SegmentDescriptor} {w₀ w : World}
  {state next : ObjectPublicationState} {rounds : Nat}
variable {E : Stop → World → Prop} {bytes : Bytes}

/-- The publication of a record has led to this state of its output. -/
structure Reaches (outputs : List RecoveryOutput) (record : OutputRecoveryRecord) (w₀ : World)
    (state : ObjectPublicationState) (w : World) : Prop where
  calm : w.Calm
  catalog : w.catalog = w₀.catalog
  staged : w.staged = w₀.staged
  rows : w.database.Records outputs
  state_eq : w.state record = .ok state
  states : ∀ output ∈ outputs, output ≠ record.output →
    w.database.outputState output = w₀.database.outputState output
  objects : ∀ key, key ≠ record.output.object.key → w.objects key = w₀.objects key
  content : ∀ content, w.objects record.output.object.key = some content →
    content.Matches record.output.object
  uploaded : state = .uploaded ∨ state = .published → w.objects record.output.object.key ≠ none

theorem Reaches.choices (h : Reaches outputs record w₀ state w)
    {choices : Stream' (Option Choice)} (hcalm : ({ w with choices } : World).Calm) :
    Reaches outputs record w₀ state { w with choices } :=
  ⟨hcalm, h.catalog, h.staged, h.rows, h.state_eq, h.states, h.objects, h.content, h.uploaded⟩

/-- A transaction about the output. -/
theorem Reaches.step (h : Reaches outputs record w₀ state w) (hmem : record.output ∈ outputs)
    {database : Database} {published : List OutputRecoveryRecord}
    (hsteps : w.database.Steps database outputs (.only record.output state next))
    (huploaded : next = .uploaded ∨ next = .published →
      w.objects record.output.object.key ≠ none) :
    Reaches outputs record w₀ next { w with database, published } where
  calm := h.calm
  catalog := h.catalog
  staged := h.staged
  rows := hsteps.records
  state_eq := by
    obtain ⟨state', hstate', hchange⟩ := hsteps.change record.output hmem state h.state_eq
    rw [StateChange.only, if_pos ⟨rfl, rfl⟩] at hchange
    exact hchange ▸ hstate'
  states output houtput hne := by
    obtain ⟨before, hbefore⟩ := h.rows.states output houtput
    obtain ⟨after, hafter, hchange⟩ := hsteps.change output houtput before hbefore
    rw [StateChange.only, if_neg fun hboth => hne hboth.1] at hchange
    rw [← h.states output houtput hne, hbefore, ← hchange]
    exact hafter
  objects := h.objects
  content := h.content
  uploaded := huploaded

theorem Reaches.wp_outputState (h : Reaches outputs record w₀ state w)
    {Q : ObjectPublicationState → World → Prop}
    (hQ : ∀ u, Reaches outputs record w₀ state u → Q state u) :
    wp (deployment.outputState record) Q E w :=
  h.calm.wp_outputState h.state_eq fun _ hcalm => hQ _ (h.choices hcalm)

/-- A recorded segment with its schema and a staged file. -/
structure Resumable (outputs : List RecoveryOutput) (record : OutputRecoveryRecord)
    (registration : SegmentDescriptor) (w : World) : Prop where
  mem : record.output ∈ outputs
  segment : record.output = .segment registration
  catalogued : w.Catalogued record
  staged : (w.staged record.objectIdentity).isSome

theorem Reaches.wp_stagedOutputExists (h : Reaches outputs record w₀ state w)
    (hr : Resumable outputs record registration w₀) {Q : Bool → World → Prop}
    (hQ : ∀ u, Reaches outputs record w₀ state u → Q true u) :
    wp (deployment.stagedOutputExists record) Q E w := by
  refine h.calm.wp_stagedOutputExists hr.segment (fun _ _ hcalm => ?_) fun hnot =>
    absurd ((World.Catalogued.congr h.catalog).mpr hr.catalogued) hnot
  have hexist : (w.staged record.objectIdentity).isSome = true := h.staged ▸ hr.staged
  rw [hexist]
  exact hQ _ (h.choices hcalm)

/-- The upload of an object that is there is recorded. -/
theorem Reaches.wp_recordVerifiedUpload (h : Reaches outputs record w₀ .planned w)
    (hr : Resumable outputs record registration w₀)
    (hobject : w.objects record.output.object.key ≠ none) (hrounds : 0 < rounds)
    {Q : Unit → World → Prop} (hQ : ∀ u, Reaches outputs record w₀ .uploaded u → Q () u) :
    wp (deployment.recordVerifiedUpload rounds record) Q E w := by
  obtain ⟨rounds, rfl⟩ := Nat.exists_eq_add_one.mpr hrounds
  have hplanned : w.database.outputState record.output = .ok .planned := h.state_eq
  obtain ⟨after, hafter⟩ :=
    Database.Records.exists_recordUpload (hr.segment ▸ hplanned)
  have hafter : w.database.recordVerifiedUpload record.output.object = .ok (.recorded, after) := by
    rw [hr.segment]
    exact hafter
  rw [Deployment.recordVerifiedUpload, wp_bind, Deployment.untilAvailable, wp_loop_succ, wp_bind,
    wp_attempt]
  refine h.calm.wp_transact fun choice choices hcalm => ?_
  rw [hafter]
  exact hQ _ ((h.choices hcalm).step hr.mem (h.rows.recordVerifiedUpload hr.mem hafter)
    fun _ => hobject)

variable [Blake3] [ParquetFile] [SerdeDocument] [UuidCrate]

/-- Staged bytes depend on the catalog and on the file. -/
theorem stagedBytes_congr {u v : World} {output : RecoveryOutput} (hcatalog : u.catalog = v.catalog)
    (hstaged : u.staged output.objectId = v.staged output.objectId) :
    deployment.stagedBytes u output = deployment.stagedBytes v output := by
  cases output with
  | segment registration =>
    change u.staged registration.object.key.objectId = _ at hstaged
    simp only [Deployment.stagedBytes, Deployment.recoveredSchema, Deployment.readStagedObject,
      World.sourceById, hcatalog, hstaged]
    rfl
  | deadLetter registration =>
    change u.staged registration.object.key.objectId = _ at hstaged
    simp only [Deployment.stagedBytes, Deployment.readStagedObject, hstaged]
    rfl

/-- The staged file of a segment is the file that was recorded. -/
def HasFile (deployment : Deployment) (w : World) (registration : SegmentDescriptor) : Prop :=
  ∃ schema bytes, Deployment.recoveredSchema w registration = .ok schema ∧
    w.staged registration.object.key.objectId = some bytes ∧
    ParquetFile.isValid registration.object.key schema registration.rowCount bytes = true ∧
    bytes.length = registration.object.expectedByteSize ∧
    Blake3.hash bytes = registration.object.digest ∧
    Deployment.parquetFormatVersion = registration.object.formatVersion ∧
    registration.object.expectedByteSize ≤ deployment.scratchBytes.get

/-- Exactly such a file is read. -/
theorem stagedBytes_eq_ok_iff :
    deployment.stagedBytes w (.segment registration) = .ok bytes ↔
      HasFile deployment w registration ∧
        w.staged registration.object.key.objectId = some bytes := by
  constructor
  · intro h
    obtain ⟨schema, hschema, h⟩ := bind_eq_ok.mp h
    obtain ⟨staged, hstaged, h⟩ := bind_eq_ok.mp h
    obtain ⟨_, hvalid, h⟩ := bind_eq_ok.mp h
    obtain ⟨_, hmetadata, h⟩ := bind_eq_ok.mp h
    obtain ⟨_, hcapacity, h⟩ := bind_eq_ok.mp (mapError_eq_ok.mp h)
    obtain ⟨read, hread, h⟩ := bind_eq_ok.mp h
    obtain ⟨_, -, h⟩ := bind_eq_ok.mp h
    obtain ⟨_, -, h⟩ := bind_eq_ok.mp h
    cases h
    obtain ⟨hlength, hdigest, hversion⟩ := ensure_eq_ok.mp hmetadata
    exact ⟨⟨schema, staged, hschema, okOr_eq_ok hstaged, ensure_eq_ok.mp hvalid, hlength, hdigest,
      hversion, ensure_eq_ok.mp hcapacity⟩, okOr_eq_ok hread⟩
  · rintro ⟨⟨schema, staged, hschema, hstaged, hvalid, hlength, hdigest, hversion, hcapacity⟩,
      hbytes⟩
    obtain rfl := Option.some.inj (hstaged.symm.trans hbytes)
    refine bind_eq_ok.mpr ⟨schema, hschema, bind_eq_ok.mpr ⟨staged, by rw [hstaged]; rfl,
      bind_eq_ok.mpr ⟨(), ensure_eq_ok.mpr hvalid, bind_eq_ok.mpr
        ⟨(), ensure_eq_ok.mpr ⟨hlength, hdigest, hversion⟩, mapError_eq_ok.mpr ?_⟩⟩⟩⟩
    exact bind_eq_ok.mpr ⟨(), ensure_eq_ok.mpr hcapacity, bind_eq_ok.mpr
      ⟨staged, by rw [hstaged]; rfl, bind_eq_ok.mpr ⟨(), ensure_eq_ok.mpr hlength,
        bind_eq_ok.mpr ⟨(), ensure_eq_ok.mpr hdigest, rfl⟩⟩⟩⟩

/-- The file is there where its bytes are read. -/
theorem hasFile_iff : HasFile deployment w registration ↔
    ∃ bytes, deployment.stagedBytes w (.segment registration) = .ok bytes := by
  constructor
  · intro h
    obtain ⟨_, bytes, -, hstaged, -⟩ := id h
    exact ⟨bytes, stagedBytes_eq_ok_iff.mpr ⟨h, hstaged⟩⟩
  · rintro ⟨bytes, hbytes⟩
    exact (stagedBytes_eq_ok_iff.mp hbytes).1

/-- The bytes that are read are those that were recorded. -/
theorem stagedBytes_eq_ok (h : deployment.stagedBytes w (.segment registration) = .ok bytes) :
    registration.object.expectedByteSize ≤ deployment.scratchBytes.get ∧
      bytes.length = registration.object.expectedByteSize ∧
      Blake3.hash bytes = registration.object.digest := by
  obtain ⟨⟨_, staged, -, hstaged, -, hlength, hdigest, -, hcapacity⟩, hbytes⟩ :=
    stagedBytes_eq_ok_iff.mp h
  obtain rfl := Option.some.inj (hstaged.symm.trans hbytes)
  exact ⟨hcapacity, hlength, hdigest⟩

/-- An unregistered segment is registered, if its times fit the columns. -/
theorem Reaches.wp_unregistered (h : Reaches outputs record w₀ .unregistered w)
    (hr : Resumable outputs record registration w₀) :
    wp (deployment.publishStep rounds record)
      (fun r u => r = .inl () ∧ (registration.times.InRange ∧ Reaches outputs record w₀ .planned u ∨
        ¬ registration.times.InRange ∧ Reaches outputs record w₀ .unregistered u))
      (fun _ _ => ¬ registration.times.InRange) w := by
  rw [Deployment.publishStep, wp_bind, wp_attempt]
  refine h.wp_outputState fun u hu => ?_
  dsimp only
  rw [wp_bind, Deployment.publishUnregistered, wp_bind]
  refine hu.wp_stagedOutputExists hr fun v hv => ?_
  rw [if_pos rfl, wp_bind, wp_attempt]
  refine hv.calm.wp_transact fun choice choices hcalm => ?_
  cases hregister : v.database.registerOutput record.output with
  | error error =>
    have htimes : ¬ registration.times.InRange := fun hin => by
      have hstate : v.database.outputState record.output = .ok .unregistered := hv.state_eq
      obtain ⟨after, hafter⟩ :=
        hv.rows.exists_register (hr.segment ▸ hr.mem) (hr.segment ▸ hstate) hin
      rw [← hr.segment, hregister] at hafter
      cases hafter
    dsimp only
    cases Stop.transient (.failed (.publication error)) with
    | none => exact htimes
    | some _ => exact ⟨rfl, Or.inr ⟨htimes, hv.choices hcalm⟩⟩
  | ok result =>
    refine ⟨rfl, Or.inl ⟨Database.inRange_of_registerOutput (hr.segment ▸ hregister), ?_⟩⟩
    exact (hv.choices hcalm).step hr.mem (hv.rows.registerOutput hr.mem hregister)
      fun hother => by rcases hother with hother | hother <;> cases hother

/-- A planned segment is uploaded, if its file can be read. -/
theorem Reaches.wp_planned (h : Reaches outputs record w₀ .planned w)
    (hr : Resumable outputs record registration w₀) (hrounds : 0 < rounds) :
    wp (deployment.publishStep rounds record)
      (fun r u => r = .inl () ∧ HasFile deployment w₀ registration ∧
        Reaches outputs record w₀ .uploaded u) (fun _ _ => ¬ HasFile deployment w₀ registration) w := by
  have hobject : record.output.object = registration.object := by
    rw [hr.segment]
    rfl
  rw [Deployment.publishStep, wp_bind, wp_attempt]
  refine h.wp_outputState fun u hu => ?_
  dsimp only
  rw [wp_bind, Deployment.publishPlanned, wp_bind]
  refine hu.wp_stagedOutputExists hr fun v hv => ?_
  rw [if_pos rfl, wp_bind]
  refine hv.calm.wp_operate fun choice choices hcalm => ?_
  rw [stagedBytes_congr (u := { v with choices }) hv.catalog (congrFun hv.staged _)]
  cases hbytes : deployment.stagedBytes w₀ record.output with
  | error error =>
    intro hfile
    obtain ⟨bytes, hread⟩ := hasFile_iff.mp hfile
    cases (hr.segment ▸ hbytes).symm.trans hread
  | ok bytes =>
  have hfile : HasFile deployment w₀ registration := hasFile_iff.mpr ⟨bytes, hr.segment ▸ hbytes⟩
  obtain ⟨hcapacity, hlength, hdigest⟩ := stagedBytes_eq_ok (hr.segment ▸ hbytes)
  rw [← hobject] at hcapacity hlength hdigest
  have hv := hv.choices hcalm
  generalize ({ v with choices } : World) = x at hv
  change wp _ _ _ x
  rw [wp_bind, wp_attempt]
  refine hv.calm.wp_operate fun choice choices hcalm => ?_
  have hx := hv.choices hcalm
  -- the object is not there, or it is the recorded one
  cases hfound : x.objects record.output.object.key with
  | none =>
    have hprobe : Deployment.probe { x with choices } record.output.object = .ok .absent := by
      unfold Deployment.probe
      rw [show ({ x with choices } : World).objects record.output.object.key = none from hfound]
    rw [ensure, if_pos hcapacity, ensure, if_pos ⟨hlength, hdigest⟩, hprobe]
    have hcreated : Reaches outputs record w₀ .planned { x with
        choices
        objects := Function.update x.objects record.output.object.key
          (some ⟨bytes, record.output.object.mediaType, record.output.object.digest⟩) } :=
      ⟨hcalm, hx.catalog, hx.staged, hx.rows, hx.state_eq, hx.states,
        fun key hne => (Function.update_of_ne hne _ _).trans (hx.objects key hne),
        fun content hcontent => by
          dsimp only at hcontent
          rw [Function.update_self] at hcontent
          obtain rfl := Option.some.inj hcontent
          exact ⟨hlength, rfl, rfl⟩,
        fun hother => by rcases hother with hother | hother <;> cases hother⟩
    refine hcreated.wp_recordVerifiedUpload hr ?_ hrounds fun y hy => ⟨rfl, hfile, hy⟩
    simp
  | some content =>
    have hprobe : Deployment.probe { x with choices } record.output.object = .ok .verified := by
      unfold Deployment.probe
      rw [show ({ x with choices } : World).objects record.output.object.key = some content
        from hfound]
      exact bind_eq_ok.mpr ⟨(), ensure_eq_ok.mpr (hx.content content hfound), rfl⟩
    rw [ensure, if_pos hcapacity, ensure, if_pos ⟨hlength, hdigest⟩, hprobe]
    refine hx.wp_recordVerifiedUpload hr ?_ hrounds fun y hy => ⟨rfl, hfile, hy⟩
    change x.objects _ ≠ none
    simp [hfound]

/-- An uploaded segment is published. -/
theorem Reaches.wp_uploaded (h : Reaches outputs record w₀ .uploaded w)
    (hr : Resumable outputs record registration w₀) :
    wp (deployment.publishStep rounds record)
      (fun r u => r = .inl () ∧ Reaches outputs record w₀ .published u) (fun _ _ => False) w := by
  rw [Deployment.publishStep, wp_bind, wp_attempt]
  refine h.wp_outputState fun u hu => ?_
  dsimp only
  rw [wp_bind, wp_attempt]
  refine hu.calm.wp_operate fun choice choices hcalm => ?_
  have hstate : u.database.outputState record.output = .ok .uploaded := hu.state_eq
  obtain ⟨after, hafter⟩ := hu.rows.exists_publish (hr.segment ▸ hr.mem) (hr.segment ▸ hstate)
    choice.now deployment.eventRetentionSeconds deployment.deadLetterRetentionSeconds
  rw [← hr.segment] at hafter
  rw [show ({ u with choices } : World).database.publishOutput _ _ _ _ = _ from hafter]
  exact ⟨rfl, (hu.choices hcalm).step hr.mem (hu.rows.publishOutput hr.mem hafter).1
    fun _ => hu.uploaded (Or.inl rfl)⟩

/-- The record is published with its bytes, and the other outputs are as before. -/
structure Finished (outputs : List RecoveryOutput) (record : OutputRecoveryRecord) (w₀ w : World) :
    Prop where
  calm : w.Calm
  catalog : w.catalog = w₀.catalog
  rows : w.database.Records outputs
  state_eq : w.state record = .ok .published
  states : ∀ output ∈ outputs, output ≠ record.output →
    w.database.outputState output = w₀.database.outputState output
  staged : ∀ id, id ≠ record.objectIdentity → w.staged id = w₀.staged id
  objects : ∀ key, key ≠ record.output.object.key → w.objects key = w₀.objects key
  content : ∃ content, w.objects record.output.object.key = some content ∧
    content.Matches record.output.object

/-- The staged file of a published segment is removed. -/
theorem Reaches.wp_published (h : Reaches outputs record w₀ .published w)
    (hr : Resumable outputs record registration w₀) :
    wp (deployment.publishStep rounds record)
      (fun r u => (∃ published, r = .inr published) ∧ Finished outputs record w₀ u)
      (fun _ _ => False) w := by
  rw [Deployment.publishStep, wp_bind, wp_attempt]
  refine h.wp_outputState fun u hu => ?_
  dsimp only
  rw [wp_bind]
  change wp (do
    deployment.removeStagedOutput record
    return Sum.inr (⟨record⟩ : PublishedOutput)) _ _ u
  rw [wp_bind]
  refine hu.calm.wp_operate fun choice choices hcalm => ?_
  rw [stagedOutputPath_congr (u := { u with choices }) hu.catalog,
    hr.catalogued.stagedOutputPath_eq hr.segment]
  obtain ⟨content, hcontent⟩ := Option.ne_none_iff_exists'.mp (hu.uploaded (Or.inr rfl))
  exact ⟨⟨_, rfl⟩, hcalm, hu.catalog, hu.rows, hu.state_eq, hu.states,
    fun id hne => (Function.update_of_ne hne _ _).trans (congrFun hu.staged id), hu.objects,
    content, hcontent, hu.content content hcontent⟩

/-- A step that leads to the next round. -/
theorem wp_publishRecord_succ {Q : PublishedOutput → World → Prop} {n : Nat} {next : World → Prop}
    (h : wp (deployment.publishStep rounds record) (fun r u => r = .inl () ∧ next u) E w)
    (hnext : ∀ u, next u →
      wp (loop .crashed (fun _ : Unit => deployment.publishStep rounds record) n ()) Q E u) :
    wp (loop .crashed (fun _ : Unit => deployment.publishStep rounds record) (n + 1) ()) Q E w := by
  rw [wp_loop_succ]
  refine wp_mono h (fun r u hr => ?_) fun _ _ he => he
  obtain ⟨rfl, hu⟩ := hr
  exact hnext u hu

/-- What publication needs of the staged file, and of a row that is not there yet. -/
def Restorable (deployment : Deployment) (w : World) (record : OutputRecoveryRecord) : Prop :=
  ∀ registration, record.output = .segment registration → HasFile deployment w registration ∧
    (w.state record = .ok .unregistered → registration.times.InRange)

omit [SerdeDocument] [UuidCrate] in
theorem restorable_iff (hsegment : record.output = .segment registration) :
    Restorable deployment w record ↔ HasFile deployment w registration ∧
      (w.state record = .ok .unregistered → registration.times.InRange) := by
  constructor
  · intro h
    exact h registration hsegment
  · intro h other hother
    obtain rfl := RecoveryOutput.segment.inj (hsegment.symm.trans hother)
    exact h

/-- A segment that can be restored is published. -/
theorem Reaches.wp_publishRecord (h : Reaches outputs record w₀ state w)
    (hr : Resumable outputs record registration w₀)
    (hstate : state = .unregistered ∨ state = .planned) (hsame : w₀.state record = .ok state)
    (hrestorable : Restorable deployment w₀ record) (hrounds : 4 ≤ rounds) :
    wp (deployment.publishRecord rounds record) (fun _ u => Finished outputs record w₀ u)
      (fun _ _ => False) w := by
  obtain ⟨hfile, htimes⟩ := (restorable_iff hr.segment).mp hrestorable
  have hpublished : ∀ n u, Reaches outputs record w₀ .published u →
      wp (loop .crashed (fun _ : Unit => deployment.publishStep rounds record) (n + 1) ())
        (fun _ u => Finished outputs record w₀ u) (fun _ _ => False) u := by
    intro n u hu
    rw [wp_loop_succ]
    refine wp_mono (hu.wp_published hr) (fun r v hv => ?_) fun _ _ he => he
    obtain ⟨⟨published, rfl⟩, hv⟩ := hv
    exact hv
  have hplanned : ∀ n u, Reaches outputs record w₀ .planned u →
      wp (loop .crashed (fun _ : Unit => deployment.publishStep rounds record) (n + 3) ())
        (fun _ u => Finished outputs record w₀ u) (fun _ _ => False) u := fun n u hu =>
    wp_publishRecord_succ (wp_mono (hu.wp_planned hr (by omega)) (fun _ _ hv => ⟨hv.1, hv.2.2⟩)
      fun _ _ hnot => hnot hfile) fun v hv =>
        wp_publishRecord_succ (hv.wp_uploaded hr) fun x hx => hpublished n x hx
  suffices hloop : ∀ m, 4 ≤ m →
      wp (loop .crashed (fun _ : Unit => deployment.publishStep rounds record) m ())
        (fun _ u => Finished outputs record w₀ u) (fun _ _ => False) w from hloop rounds hrounds
  intro m hm
  obtain ⟨n, rfl⟩ := Nat.exists_eq_add_of_le' hm
  rcases hstate with rfl | rfl
  · have hin := htimes hsame
    refine wp_publishRecord_succ (wp_mono (h.wp_unregistered hr) (fun _ u hu => ⟨hu.1, ?_⟩)
      fun _ _ hnot => hnot hin) fun u hu => hplanned n u hu
    exact (hu.2.resolve_right fun hnot => hnot.1 hin).2
  · exact hplanned (n + 1) w h

/-- A segment whose file cannot be read, or whose row cannot be inserted, is not published. -/
theorem Reaches.not_publishRecord (h : Reaches outputs record w₀ state w)
    (hr : Resumable outputs record registration w₀)
    (hstate : state = .unregistered ∨ state = .planned) (hsame : w₀.state record = .ok state)
    (hrestorable : ¬ Restorable deployment w₀ record) (hrounds : 0 < rounds) :
    wp (deployment.publishRecord rounds record) (fun _ _ => False) (fun _ _ => True) w := by
  rw [restorable_iff hr.segment, hsame] at hrestorable
  -- before every round the output is not registered, or it is planned and cannot be read
  refine wp_loop (fun _ t => Reaches outputs record w₀ .unregistered t ∧
      ¬ (HasFile deployment w₀ registration ∧ registration.times.InRange) ∨
    Reaches outputs record w₀ .planned t ∧ ¬ HasFile deployment w₀ registration) (fun _ t ht => ?_)
    (fun _ _ _ => trivial) rounds ?_
  · rcases ht with ⟨ht, hnot⟩ | ⟨ht, hnot⟩
    · refine wp_mono (ht.wp_unregistered hr) (fun r u hu => ?_) fun _ _ _ => trivial
      obtain ⟨rfl, ⟨hin, hu⟩ | ⟨-, hu⟩⟩ := hu
      · exact Or.inr ⟨hu, fun hfile => hnot ⟨hfile, hin⟩⟩
      · exact Or.inl ⟨hu, hnot⟩
    · exact wp_mono (ht.wp_planned hr hrounds) (fun _ _ hu => absurd hu.2.1 hnot)
        fun _ _ _ => trivial
  · rcases hstate with rfl | rfl
    · exact Or.inl ⟨h, fun hboth => hrestorable ⟨hboth.1, fun _ => hboth.2⟩⟩
    · exact Or.inr ⟨h, fun hfile => hrestorable ⟨hfile, fun hother => by cases hother⟩⟩

/-- A segment is published iff it can be restored. -/
theorem Reaches.wp_publishRecord_iff (h : Reaches outputs record w₀ state w)
    (hr : Resumable outputs record registration w₀)
    (hstate : state = .unregistered ∨ state = .planned) (hsame : w₀.state record = .ok state)
    (hrounds : 4 ≤ rounds) :
    wp (deployment.publishRecord rounds record)
      (fun _ u => Restorable deployment w₀ record ∧ Finished outputs record w₀ u)
      (fun _ _ => ¬ Restorable deployment w₀ record) w := by
  by_cases hrestorable : Restorable deployment w₀ record
  · exact wp_mono (h.wp_publishRecord hr hstate hsame hrestorable hrounds)
      (fun _ _ hu => ⟨hrestorable, hu⟩) fun _ _ he => he.elim
  · exact wp_mono (h.not_publishRecord hr hstate hsame hrestorable (by omega))
      (fun _ _ hfalse => hfalse.elim) fun _ _ _ => hrestorable

end Segment

/-! ## All segments -/

section Segments

variable [Chrono] {deployment : Deployment} {outputs : List RecoveryOutput}
  {record : OutputRecoveryRecord} {records : List OutputRecoveryRecord} {w : World} {rounds : Nat}
variable {worker : Worker} {u : World}

/-- Segments that recovery finds unregistered, or planned and without an object, while the
stores answer. -/
structure Durable (outputs : List RecoveryOutput) (w : World)
    (records : List OutputRecoveryRecord) : Prop where
  calm : w.Calm
  rows : w.database.Records outputs
  mem : ∀ record ∈ records, record.output ∈ outputs
  segment : ∀ record ∈ records, ∃ registration, record.output = .segment registration
  state : ∀ record ∈ records,
    w.state record = .ok .unregistered ∧ (∀ content,
        w.objects record.output.object.key = some content → content.Matches record.output.object) ∨
      w.state record = .ok .planned ∧ w.objects record.output.object.key = none
  distinct : records.Pairwise fun a b => a.objectIdentity ≠ b.objectIdentity
  disjoint : records.Pairwise fun a b => (w.staged a.objectIdentity).isSome →
    (w.staged b.objectIdentity).isSome → a.occurrences.Disjoint b.occurrences

theorem Durable.choices (h : Durable outputs w records)
    {choices : Stream' (Option Choice)} (hcalm : ({ w with choices } : World).Calm) :
    Durable outputs { w with choices } records :=
  ⟨hcalm, h.rows, h.mem, h.segment, h.state, h.distinct, h.disjoint⟩

/-- Some of the segments. -/
theorem Durable.sublist (h : Durable outputs w records)
    {some : List OutputRecoveryRecord} (hsublist : some.Sublist records) :
    Durable outputs w some :=
  ⟨h.calm, h.rows, fun record hrecord => h.mem record (hsublist.subset hrecord),
    fun record hrecord => h.segment record (hsublist.subset hrecord),
    fun record hrecord => h.state record (hsublist.subset hrecord),
    h.distinct.sublist hsublist, h.disjoint.sublist hsublist⟩

/-- Records of a run, between any two of its operations. -/
theorem Sound.durable [Blake3] (h : Sound deployment w) (hcalm : w.Calm)
    (hrecords : ∀ record ∈ records, record ∈ w.history) (hnodup : records.Nodup)
    (hsegment : ∀ record ∈ records, ∃ registration, record.output = .segment registration)
    (hstate : ∀ record ∈ records,
      w.state record = .ok .unregistered ∧ (∀ content,
          w.objects record.output.object.key = some content →
            content.Matches record.output.object) ∨
        w.state record = .ok .planned ∧ w.objects record.output.object.key = none) :
    Durable w.outputs w records := by
  have halive : ∀ record, (w.staged record.objectIdentity).isSome → ¬ w.Dead record :=
    fun record hsome hdead => by simp [hdead.unstaged] at hsome
  refine ⟨hcalm, h.records, fun record hrecord => mem_map_of_mem (hrecords record hrecord),
    hsegment, hstate, ?_, ?_⟩
  · exact hnodup.imp_of_mem fun ha hb hne heq =>
      hne (h.identity_inj _ (hrecords _ ha) _ (hrecords _ hb) heq)
  · exact hnodup.imp_of_mem fun ha hb hne hstaged hstaged' =>
      h.disjoint _ (hrecords _ ha) _ (hrecords _ hb) hne (halive _ hstaged) (halive _ hstaged')

/-- An operation that succeeds is not tried again. -/
theorem wp_untilAvailable {α : Type} {operation : Program α} {Q : α → World → Prop}
    {E : Stop → World → Prop} (hrounds : 0 < rounds)
    (h : wp operation Q (fun stop u => Stop.transient stop = none ∧ E stop u) w) :
    wp (Deployment.untilAvailable rounds operation) Q E w := by
  obtain ⟨rounds, rfl⟩ := Nat.exists_eq_add_one.mpr hrounds
  rw [Deployment.untilAvailable, wp_loop_succ, wp_bind, wp_attempt]
  refine wp_mono h (fun a u ha => ha) fun stop u hstop => ?_
  rw [hstop.1]
  exact hstop.2

/-- A record is resumed iff its file is there, and one without its schema stops recovery. -/
theorem Durable.wp_recoveryDisposition (h : Durable outputs w records)
    (hrecord : record ∈ records) (hrounds : 0 < rounds) :
    wp (deployment.recoveryDisposition rounds record)
      (fun disposition u => w.Catalogued record ∧ disposition =
          (if (w.staged record.objectIdentity).isSome then .resume else .rebuild) ∧
        ∃ choices, u = { w with choices } ∧ u.Calm) (fun _ _ => ¬ w.Catalogued record) w := by
  obtain ⟨registration, hsegment⟩ := h.segment record hrecord
  rw [Deployment.recoveryDisposition, wp_bind, Deployment.recoveryObservation, wp_bind]
  refine wp_untilAvailable hrounds ?_
  rcases h.state record hrecord with ⟨hstate, -⟩ | ⟨hstate, habsent⟩
  · refine h.calm.wp_outputState hstate fun choices hcalm => ?_
    rw [wp_bind]
    refine hcalm.wp_stagedOutputExists hsegment (fun hcatalogued choices hcalm => ?_)
      fun hnot _ _ => hnot
    dsimp only
    cases (w.staged record.objectIdentity).isSome <;>
      exact ⟨hcatalogued, rfl, choices, rfl, hcalm⟩
  · refine h.calm.wp_outputState hstate fun choices hcalm => ?_
    rw [wp_bind]
    refine hcalm.wp_stagedOutputExists hsegment (fun hcatalogued choices hcalm => ?_)
      fun hnot _ _ => hnot
    dsimp only
    cases hstaged : (w.staged record.objectIdentity).isSome with
    | true => exact ⟨hcatalogued, rfl, choices, rfl, hcalm⟩
    | false =>
      rw [wp_pure, wp_bind]
      refine wp_raise (a := OutputRecoveryAction.verifyExactObject) rfl ?_
      rw [wp_bind]
      refine wp_untilAvailable hrounds ?_
      refine hcalm.wp_read (a := .absent) (fun choices => ?_) fun choices hcalm => ?_
      · unfold Deployment.probe
        rw [show ({ w with choices } : World).objects record.output.object.key = none from habsent]
      · exact ⟨hcatalogued, rfl, choices, rfl, hcalm⟩

/-- The records whose files are there. -/
def World.stagedRecords (w : World) (records : List OutputRecoveryRecord) :
    List OutputRecoveryRecord :=
  records.filter fun record => (w.staged record.objectIdentity).isSome

/-- The records with their files are to be resumed, if the catalog has all schemas. -/
theorem Durable.wp_resumableRecords (h : Durable outputs w records) (hrounds : 0 < rounds) :
    wp (deployment.resumableRecords rounds records)
      (fun resumable u => (∀ record ∈ records, w.Catalogued record) ∧
        resumable = w.stagedRecords records ∧ ∃ choices, u = { w with choices } ∧ u.Calm)
      (fun _ _ => ¬ ∀ record ∈ records, w.Catalogued record) w := by
  refine wp_mono (wp_foldlM (fun resumable rest t => (∃ done, records = done ++ rest ∧
        (∀ record ∈ done, w.Catalogued record) ∧ resumable = w.stagedRecords done) ∧
          ∃ choices, t = { w with choices } ∧ t.Calm) (fun resumable record rest t ht => ?_)
      ⟨⟨[], rfl, by simp, rfl⟩, w.choices, rfl, h.calm⟩)
    (fun resumable u hu => ?_) fun _ _ he => he
  · obtain ⟨⟨done, hdone, hbefore, rfl⟩, choices, rfl, hcalm⟩ := ht
    have hrecord : record ∈ records := by simp [hdone]
    rw [wp_bind]
    refine wp_mono ((h.choices hcalm).wp_recoveryDisposition hrecord hrounds)
      (fun disposition u hu => ?_) fun _ _ hnot hall => hnot (hall record hrecord)
    obtain ⟨hcatalogued, rfl, choices, rfl, hcalm⟩ := hu
    have hstep : ∀ resumable, resumable = w.stagedRecords (done ++ [record]) →
        (∃ done, records = done ++ rest ∧ (∀ record ∈ done, w.Catalogued record) ∧
          resumable = w.stagedRecords done) ∧
          ∃ after, ({ w with choices } : World) = { w with choices := after } ∧
            ({ w with choices } : World).Calm := fun resumable heq =>
      ⟨⟨done ++ [record], by simp [hdone], forall_mem_append.mpr
        ⟨hbefore, forall_mem_singleton.mpr hcatalogued⟩, heq⟩, choices, rfl, hcalm⟩
    dsimp only
    split_ifs with hstaged
    · exact hstep _ (by simp [World.stagedRecords, hstaged])
    · exact hstep _ (by simp [World.stagedRecords, hstaged])
  · obtain ⟨⟨done, hdone, hall, rfl⟩, hsame⟩ := hu
    rw [append_nil] at hdone
    subst hdone
    exact ⟨hall, rfl, hsame⟩

/-- A record that is to be published. -/
theorem Durable.reaches (h : Durable outputs w records) (hrecord : record ∈ records) :
    ∃ state, (state = .unregistered ∨ state = .planned) ∧ w.state record = .ok state ∧
      Reaches outputs record w state w := by
  have hreaches : ∀ state, w.state record = .ok state → state ≠ .uploaded → state ≠ .published →
      (∀ content, w.objects record.output.object.key = some content →
        content.Matches record.output.object) → Reaches outputs record w state w :=
    fun state hstate hupload hpublish hcontent => ⟨h.calm, rfl, rfl, h.rows, hstate,
      fun _ _ _ => rfl, fun _ _ => rfl, hcontent, fun hother => (hother.elim hupload hpublish).elim⟩
  rcases h.state record hrecord with ⟨hstate, hcontent⟩ | ⟨hstate, habsent⟩
  · exact ⟨_, Or.inl rfl, hstate, hreaches _ hstate (by simp) (by simp) hcontent⟩
  · exact ⟨_, Or.inr rfl, hstate, hreaches _ hstate (by simp) (by simp) (by simp [habsent])⟩

/-- Where a record is finished, the others are as before. -/
theorem Durable.finished (h : Durable outputs w (record :: records))
    (hfinished : Finished outputs record w u) : Durable outputs u records ∧
      ∀ other ∈ records, u.state other = w.state other ∧
        u.staged other.objectIdentity = w.staged other.objectIdentity ∧
        u.objects other.output.object.key = w.objects other.output.object.key := by
  have hother : ∀ other ∈ records, u.state other = w.state other ∧
      u.staged other.objectIdentity = w.staged other.objectIdentity ∧
      u.objects other.output.object.key = w.objects other.output.object.key := by
    intro other hmem
    have hne := rel_of_pairwise_cons h.distinct hmem
    refine ⟨hfinished.states _ (h.mem other (mem_cons_of_mem _ hmem)) fun heq => ?_,
      hfinished.staged _ hne.symm, hfinished.objects _ fun heq => ?_⟩
    · exact hne (congrArg RecoveryOutput.objectId heq).symm
    · exact hne (congrArg ManagedObjectKey.objectId heq).symm
  refine ⟨⟨hfinished.calm, hfinished.rows,
    fun other hmem => h.mem other (mem_cons_of_mem _ hmem),
    fun other hmem => h.segment other (mem_cons_of_mem _ hmem),
    fun other hmem => ?_, (pairwise_cons.mp h.distinct).2,
    (pairwise_cons.mp h.disjoint).2.imp_of_mem fun {a b} ha hb hdisjoint => ?_⟩, hother⟩
  · obtain ⟨hstate, -, hobjects⟩ := hother other hmem
    rw [hstate, hobjects]
    exact h.state other (mem_cons_of_mem _ hmem)
  · rwa [(hother a ha).2.1, (hother b hb).2.1]

/-- Every record is referenced, as a segment. -/
theorem Durable.length_referenced (h : Durable outputs w records) :
    (Deployment.referencedSegments records).length = records.length ∧
      Deployment.referencedDeadLetters records = [] := by
  induction records with
  | nil => exact ⟨rfl, rfl⟩
  | cons record rest ih =>
    obtain ⟨registration, hsegment⟩ := h.segment record mem_cons_self
    obtain ⟨hlength, hnone⟩ := ih (h.sublist (sublist_cons_self _ _))
    constructor
    · rw [Deployment.referencedSegments, filterMap_cons, hsegment]
      simpa [Deployment.referencedSegments] using hlength
    · rw [Deployment.referencedDeadLetters, filterMap_cons, hsegment]
      exact hnone

/-- Reconciliation leaves what is resumed alone, if that is not too much. -/
theorem Durable.wp_reconcile (h : Durable outputs w records) (hrounds : 0 < rounds) :
    wp (Deployment.untilAvailable rounds (deployment.reconcile
        (Deployment.referencedSegments records) (Deployment.referencedDeadLetters records)))
      (fun _ u => records.length ≤ maximumReconciliationReferences ∧ Durable outputs u records ∧
        u.catalog = w.catalog ∧ u.staged = w.staged ∧
        ∀ record ∈ records, u.state record = w.state record)
      (fun _ _ => ¬ records.length ≤ maximumReconciliationReferences) w := by
  obtain ⟨hreferenced, hnone⟩ := h.length_referenced
  refine wp_untilAvailable hrounds (h.calm.wp_transact fun choice choices hcalm => ?_)
  cases hreconcile : w.database.reconcileUnreferencedOutputs
      (Deployment.referencedSegments records) (Deployment.referencedDeadLetters records)
      choice.now Deployment.orphanGraceSeconds Deployment.reconciliationItems with
  | error error =>
    unfold Database.reconcileUnreferencedOutputs at hreconcile
    rcases bind_eq_error.mp hreconcile with hmany | ⟨_, -, hreconcile⟩
    · obtain ⟨hnot, rfl⟩ := ensure_eq_error.mp hmany
      exact ⟨rfl, fun hlength => hnot ⟨hreferenced ▸ hlength, by simp [hnone]⟩⟩
    · cases hreconcile
  | ok result =>
    obtain ⟨selected, after⟩ := result
    obtain ⟨_, hfew, -⟩ := bind_eq_ok.mp hreconcile
    have hsteps := h.rows.reconcileUnreferencedOutputs hreconcile
    have hstates : ∀ record ∈ records,
        after.outputState record.output = w.database.outputState record.output := by
      intro record hrecord
      obtain ⟨state, hstate⟩ := h.rows.states record.output (h.mem record hrecord)
      obtain ⟨state', hstate', hchange⟩ :=
        hsteps.change record.output (h.mem record hrecord) state hstate
      rw [hstate, hstate', hchange.resolve_right fun hother =>
        hother.1 (isReferenced_of_mem hrecord)]
    refine ⟨hreferenced ▸ (ensure_eq_ok.mp hfew).1, ⟨hcalm, hsteps.records, h.mem, h.segment,
      fun record hrecord => ?_, h.distinct, h.disjoint⟩, rfl, rfl, hstates⟩
    have hstate : ({ w with choices, database := after } : World).state record =
        w.state record := hstates record hrecord
    rw [hstate]
    exact h.state record hrecord

variable [Blake3] [ParquetFile] [SerdeDocument] [UuidCrate]

/-- Only the schema, the file and the state matter. -/
theorem Restorable.congr (hcatalog : u.catalog = w.catalog)
    (hstaged : u.staged record.objectIdentity = w.staged record.objectIdentity)
    (hstate : u.state record = w.state record) :
    Restorable deployment u record ↔ Restorable deployment w record := by
  refine forall_congr' fun registration => forall_congr' fun hsegment => ?_
  rw [hasFile_iff, hasFile_iff, ← hsegment, stagedBytes_congr hcatalog hstaged, hstate]

/-- All records with their files are published, or one cannot be restored. -/
theorem Durable.wp_resumeRecords (h : Durable outputs w records)
    (hcatalogued : ∀ record ∈ records, w.Catalogued record)
    (hstaged : ∀ record ∈ records, (w.staged record.objectIdentity).isSome)
    (hknown : ∀ record ∈ records, ∀ occurrence ∈ record.occurrences,
      occurrence ∉ worker.recoveredCoverage) (hrounds : 4 ≤ rounds) :
    wp (deployment.resumeRecords rounds worker records)
      (fun _ u => (∀ record ∈ records, Restorable deployment w record) ∧
        (∀ output ∈ outputs, (∀ record ∈ records, output ≠ record.output) →
          u.database.outputState output = w.database.outputState output) ∧
        (∀ key, (∀ record ∈ records, key ≠ record.output.object.key) →
          u.objects key = w.objects key) ∧
        ∀ record ∈ records, u.state record = .ok .published ∧
          ∃ content, u.objects record.output.object.key = some content ∧
            content.Matches record.output.object)
      (fun _ _ => ¬ ∀ record ∈ records, Restorable deployment w record) w := by
  induction records generalizing w worker with
  | nil => exact ⟨by simp, fun _ _ _ => rfl, fun _ _ => rfl, by simp⟩
  | cons record rest ih =>
    rw [Deployment.resumeRecords, foldlM_cons, wp_bind, wp_bind]
    obtain ⟨state, hcases, hstate, hreaches⟩ := h.reaches mem_cons_self
    obtain ⟨registration, hsegment⟩ := h.segment record mem_cons_self
    have hr : Resumable outputs record registration w := ⟨h.mem record mem_cons_self, hsegment,
      hcatalogued record mem_cons_self, hstaged record mem_cons_self⟩
    refine wp_mono (hreaches.wp_publishRecord_iff hr hcases hstate hrounds)
      (fun published u hu => ?_) fun _ _ hnot hall => hnot (hall record mem_cons_self)
    obtain ⟨hfirst, hu⟩ := hu
    obtain ⟨hrest, hsame⟩ := h.finished hu
    obtain ⟨coverage, hcoverage⟩ := exists_rememberOccurrences record.nodup_occurrences
      (hknown record mem_cons_self)
    have hmem := mem_rememberOccurrences hcoverage
    have hrestorable : (∀ other ∈ rest, Restorable deployment u other) ↔
        ∀ other ∈ record :: rest, Restorable deployment w other := by
      rw [forall_mem_cons]
      exact (forall₂_congr fun other hother => Restorable.congr hu.catalog
        (hsame other hother).2.1 (hsame other hother).1).trans (and_iff_right hfirst).symm
    rw [show rememberCoverage worker.recoveredCoverage record = .ok coverage from hcoverage]
    change wp (deployment.resumeRecords rounds { worker with
      recoveredCoverage := coverage, published := worker.published ++ [published] } rest) _ _ u
    refine wp_mono (ih hrest (fun other hother => ?_) (fun other hother => ?_)
      (fun other hother occurrence hoccurrence hin => ?_)) (fun after v hv => ?_)
      fun _ _ hnot hall => hnot (hrestorable.mpr hall)
    · exact (World.Catalogued.congr hu.catalog).mpr
        (hcatalogued other (mem_cons_of_mem _ hother))
    · rw [(hsame other hother).2.1]
      exact hstaged other (mem_cons_of_mem _ hother)
    · rcases (hmem occurrence).mp hin with hin | hin
      · exact hknown other (mem_cons_of_mem _ hother) occurrence hoccurrence hin
      · exact rel_of_pairwise_cons h.disjoint hother (hstaged record mem_cons_self)
          (hstaged other (mem_cons_of_mem _ hother)) hin hoccurrence
    · obtain ⟨hothers, hstates, hobjects, hpublished⟩ := hv
      have hne : ∀ other ∈ rest, record.objectIdentity ≠ other.objectIdentity :=
        fun other hother => rel_of_pairwise_cons h.distinct hother
      refine ⟨hrestorable.mp hothers, fun output houtput hnone => ?_, fun key hnone => ?_,
        fun other hother => ?_⟩
      · rw [hstates output houtput fun other hother => hnone other (mem_cons_of_mem _ hother)]
        exact hu.states output houtput (hnone record mem_cons_self)
      · rw [hobjects key fun other hother => hnone other (mem_cons_of_mem _ hother)]
        exact hu.objects key (hnone record mem_cons_self)
      · rcases mem_cons.mp hother with rfl | hother
        · obtain ⟨content, hcontent, hmatch⟩ := hu.content
          refine ⟨(hstates _ hr.mem fun next hnext heq =>
            hne next hnext (congrArg RecoveryOutput.objectId heq)).trans hu.state_eq, content,
            (hobjects _ fun next hnext heq => ?_).trans hcontent, hmatch⟩
          exact hne next hnext (congrArg ManagedObjectKey.objectId heq)
        · exact hpublished other hother

/-- How recovery leaves a record : it is classified as one to rebuild, or it is published with
its bytes. -/
def Settles (deployment : Deployment) (rounds : Nat) (w u : World) (record : OutputRecoveryRecord) :
    Prop :=
  (∃ after, deployment.recoveryDisposition rounds record w = .ok .rebuild after) ∨
    u.state record = .ok .published ∧
      ∃ content, u.objects record.output.object.key = some content ∧
        content.Matches record.output.object

/-- Recovery settles all records, or what it needs of them is missing. -/
theorem Durable.wp_recoverOutputs (h : Durable outputs w records)
    (hworker : worker.recoveredCoverage = []) (hrounds : 4 ≤ rounds) :
    let Recovers := (∀ record ∈ records, w.Catalogued record) ∧
      (w.stagedRecords records).length ≤ maximumReconciliationReferences ∧
      ∀ record ∈ w.stagedRecords records, Restorable deployment w record
    wp (deployment.recoverOutputs rounds records worker)
      (fun _ u => Recovers ∧ ∀ record ∈ records, Settles deployment rounds w u record)
      (fun _ _ => ¬ Recovers) w := by
  have hpositive : 0 < rounds := by omega
  rw [Deployment.recoverOutputs, wp_bind]
  refine wp_mono (h.wp_resumableRecords hpositive) (fun resumable t ht => ?_)
    fun _ _ hnot hall => hnot hall.1
  obtain ⟨hcatalogued, rfl, choices, rfl, hcalm⟩ := ht
  rw [wp_bind]
  have hresumable := (h.choices hcalm).sublist
    (filter_sublist : (w.stagedRecords records).Sublist records)
  refine wp_mono (hresumable.wp_reconcile hpositive) (fun _ v hv => ?_)
    fun _ _ hnot hall => hnot hall.2.1
  obtain ⟨hlength, hv, hcatalog, hsame, hstates⟩ := hv
  have hrestorable : (∀ record ∈ w.stagedRecords records, Restorable deployment v record) ↔
      ∀ record ∈ w.stagedRecords records, Restorable deployment w record :=
    forall₂_congr fun record hrecord =>
      Restorable.congr hcatalog (congrFun hsame _) (hstates record hrecord)
  refine wp_mono (hv.wp_resumeRecords (fun record hrecord => ?_) (fun record hrecord => ?_)
    (by simp [hworker]) hrounds) (fun _ u hu => ⟨⟨hcatalogued, hlength, hrestorable.mp hu.1⟩,
      fun record hrecord => ?_⟩) fun _ _ hnot hall => hnot (hrestorable.mpr hall.2.2)
  · exact (World.Catalogued.congr hcatalog).mpr
      (hcatalogued record (mem_filter.mp hrecord).1)
  · rw [hsame]
    exact (mem_filter.mp hrecord).2
  · by_cases hfile : (w.staged record.objectIdentity).isSome
    · exact Or.inr (hu.2.2.2 record (mem_filter.mpr ⟨hrecord, hfile⟩))
    · obtain ⟨disposition, after, hok, rfl, -⟩ :=
        (exists_iff_of_wp (h.wp_recoveryDisposition hrecord hpositive)).mpr
          (hcatalogued record hrecord)
      rw [if_neg hfile] at hok
      exact Or.inl ⟨after, hok⟩

/-- Recovery of segments ends, and each is rebuilt or published, iff the catalog has their
schemas, and those with a file can be published and are not too many. -/
theorem recoverOutputs_iff {worker : Worker} (h : Durable outputs w records)
    (hworker : worker.recoveredCoverage = []) (hrounds : 4 ≤ rounds) :
    (∃ after u, deployment.recoverOutputs rounds records worker w = .ok after u ∧
        ∀ record ∈ records, Settles deployment rounds w u record) ↔
      (∀ record ∈ records, w.Catalogued record) ∧
        (w.stagedRecords records).length ≤ maximumReconciliationReferences ∧
        ∀ record ∈ w.stagedRecords records, Restorable deployment w record :=
  exists_iff_of_wp (h.wp_recoverOutputs hworker hrounds)

end Segments

/-! ## A file that was cut -/

section Cut

/-- Files of one byte, which are valid as they were written. -/
@[reducible] def ParquetFile.exact [Chrono] : ParquetFile :=
  ⟨fun _ _ _ => .ok [1], fun _ _ _ bytes => bytes == [1]⟩

attribute [local instance] Chrono.unbounded Blake3.constant SerdeJson.plain ChronoText.silent
  FloatText.silent Base64.empty Layout.sample ParquetFile.exact SerdeDocument.lenient
  UuidCrate.lenient

/-- A process gets a batch of one record, and its segment expires. It stops when the segment
is staged and in the log. -/
def Session.recorded : Session where
  choices := fun n =>
    if n ≤ 12 then some { Choice.sample (100 + n)
        (if n = 0 then [.append (BatchMetadata.sample 9) (timeBody "0")] else []) with
      wakeup := if n ≤ 4 then .batch else .segmentExpiration
      now := n * 10 ^ 12 }
    else none
  rounds := 20
  survives := fun _ bytes => some bytes

/-- A process behind a crash, while the stores answer. -/
def Session.answered (survives : StoredObjectId → Bytes → Option Bytes) : Session where
  choices := fun n => some (Choice.sample (150 + n) [])
  rounds := 20
  survives := survives

/-- With the file as it was written, the segment is published. -/
theorem recorded_recoverOutputs_iff :
    let deployment := Deployment.sample withoutCleanup
    let found := (deployment.runSessions [Source.sample] [Session.recorded]).restart
      (.answered fun _ bytes => some bytes)
    found.log.length = 1 ∧ ∃ after u,
      deployment.recoverOutputs 20 found.log (deployment.newWorker found) found = .ok after u ∧
        ∀ record ∈ found.log, Settles deployment 20 found u record := by
  intro deployment found
  have hnever : deployment.NeverCleans := fun _ _ => rfl
  have hsound : Sound deployment found :=
    (sound_runSessions hnever.keepsRetained [Source.sample] [Session.recorded]).restart _
  have hdurable : Durable found.outputs found found.log := by
    refine hsound.durable (fun n => ⟨_, rfl, rfl, rfl⟩) hsound.log_mem (by decide +kernel)
      (fun record hrecord => ?_) (fun record hrecord => Or.inl ⟨?_, ?_⟩)
    · have hkind : ∀ record ∈ found.log, record.output.segmentIds ≠ [] := by decide +kernel
      cases houtput : record.output with
      | segment registration => exact ⟨registration, rfl⟩
      | deadLetter registration => exact absurd (by rw [houtput]; rfl) (hkind record hrecord)
    · revert record
      decide +kernel
    · have hnone : ∀ record ∈ found.log, found.objects record.output.object.key = none := by
        decide +kernel
      simp [hnone record hrecord]
  have hpath : ∀ record ∈ found.log,
      Deployment.stagedOutputPath found record.output = .ok record.objectIdentity := by
    decide +kernel
  refine ⟨by decide +kernel, (recoverOutputs_iff hdurable rfl (by decide)).mpr
    ⟨fun record hrecord => .of_stagedOutputPath (hpath record hrecord), by decide +kernel,
      fun record hrecord => ?_⟩⟩
  have hrecord := (mem_filter.mp hrecord).1
  obtain ⟨registration, hsegment⟩ := hdurable.segment record hrecord
  have hbytes : ∀ record ∈ found.log, deployment.stagedBytes found record.output = .ok [1] := by
    decide +kernel
  have htimes : ∀ record ∈ found.log,
      (found.database.registerOutput record.output).toOption.isSome := by
    decide +kernel
  refine (restorable_iff hsegment).mpr
    ⟨hasFile_iff.mpr ⟨[1], hsegment ▸ hbytes record hrecord⟩, fun _ => ?_⟩
  specialize htimes record hrecord
  cases hregister : found.database.registerOutput record.output with
  | error error =>
    rw [hregister] at htimes
    cases htimes
  | ok result => exact Database.inRange_of_registerOutput (hsegment ▸ hregister)

/-- A crash leaves a strict part of the file, and the next process stops. -/
theorem truncated_stops :
    let deployment := Deployment.sample withoutCleanup
    let w := deployment.runSessions [Source.sample] [Session.recorded]
    let session := Session.answered fun _ bytes => some bytes.dropLast
    w.log.map (fun record => w.staged record.objectIdentity) = [some [1]] ∧
      (w.restart session).log.map (fun record =>
        (w.restart session).staged record.objectIdentity) = [some []] ∧
      deployment.stopOf w session = some (.failed (.storage .parquetInvalid)) := by
  decide +kernel

end Cut

end Elucid
