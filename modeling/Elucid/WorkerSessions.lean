import Elucid.WorkerLoop

/-!
# Sessions

Recovery settles every record : a record that is not resumed is dead, and one that is resumed
is published (`keeps_recoverOutputs`). A session therefore goes from a sound world to a sound
one, wherever it ends (`Sound.session`), and so does any sequence of sessions
(`sound_runSessions`).
-/

namespace Elucid

open BigEndian Effect List

/-- A record is among what its list refers to. -/
theorem isReferenced_of_mem {records : List OutputRecoveryRecord} {record : OutputRecoveryRecord}
    (h : record ∈ records) : record.output.IsReferenced (Deployment.referencedSegments records)
      (Deployment.referencedDeadLetters records) := by
  cases houtput : record.output with
  | segment registration => exact mem_filterMap.mpr ⟨record, h, by rw [houtput]⟩
  | deadLetter registration => exact mem_filterMap.mpr ⟨record, h, by rw [houtput]⟩

variable [Chrono] [Blake3] {deployment : Deployment} {w : World} {worker : Worker} {rounds : Nat}

/-! ## Where a process starts -/

/-- The empty stores are sound. -/
theorem sound_initial (hretains : deployment.KeepsRetained) (catalog : List Source) :
    Sound deployment (.initial catalog) where
  toFramed := framed_initial deployment catalog
  retains := hretains
  records := ⟨by simp [World.outputs, World.initial], by simp [World.outputs, World.initial],
    fun _ _ h => (by cases h), fun _ _ h => (by cases h), by simp [World.outputs, World.initial]⟩
  consistent := by simp [World.initial]
  identity_inj := by simp [World.initial]
  drawn := by simp [World.initial]
  published_mem := by simp [World.initial]
  log_mem := by simp [World.initial]
  ranges := by simp [World.initial]
  unlogged := by simp [World.initial]
  disjoint := by simp [World.initial]
  passed := by simp [World.Passed, World.initial, World.batches]

/-- What a crash leaves is sound. -/
theorem Sound.restart (h : Sound deployment w) (session : Session) :
    Sound deployment (w.restart session) := by
  have hunstaged : ∀ objectId, w.staged objectId = none →
      (w.restart session).staged objectId = none := fun objectId hnone => by
    simp [World.restart, hnone]
  have hdead : ∀ record, w.Dead record → (w.restart session).Dead record :=
    fun record hdead => ⟨hdead.unpublished, hunstaged _ hdead.unstaged, hdead.state⟩
  refine { h with
    records := h.records
    consistent := fun record hrecord => ?_
    unlogged := fun record hrecord hlog => ?_
    disjoint := fun a ha b hb hne hnot hnot' => ?_ }
  · have hconsistent := h.consistent record hrecord
    exact { hconsistent with
      unstaged_of_abandoned := fun hstate => hunstaged _ (hconsistent.unstaged_of_abandoned hstate) }
  · exact (h.unlogged record hrecord hlog).imp_left (Or.imp_right (hdead record))
  · exact h.disjoint a ha b hb hne (mt (hdead a) hnot) (mt (hdead b) hnot')

/-! ## Recovery -/

/-- A record of the log that is not resumed is dead. -/
theorem keeps_resumableRecords (h : Sound deployment w) :
    Keeps (Kept deployment (· ∈ w.log)) (deployment.resumableRecords rounds w.log)
      (fun resumable u => (∀ record ∈ resumable, record ∈ w.log) ∧
        ∀ record ∈ w.log, record ∈ resumable ∨ u.Dead record) w := by
  refine (Keeps.foldlM (fun resumable rest t => (∀ record ∈ resumable, record ∈ w.log) ∧
    (∀ record ∈ rest, record ∈ w.log) ∧
      ∀ record ∈ w.log, record ∈ resumable ∨ record ∈ rest ∨ t.Dead record)
    (fun resumable record rest t ht hI => ?_) h.kept_self
    ⟨by simp, fun _ => id, fun record hrecord => Or.inr (Or.inl hrecord)⟩).mono
    fun resumable u _ hI => ⟨hI.1, fun record hrecord => ?_⟩
  · obtain ⟨hresumable, hrest, hall⟩ := hI
    have hlog : record ∈ w.log := hrest record mem_cons_self
    refine ((keeps_recoveryDisposition ht.1 (ht.2.log ▸ hlog) rounds).weaken
      fun u hu => hu.mono fun other heq => heq ▸ hlog).bind fun disposition u hu hdead => ?_
    have hdead' : ∀ other ∈ w.log, t.Dead other → u.Dead other := fun other hother =>
      (hu.2.dead other (ht.1.log_mem other (ht.2.log ▸ hother))).mpr
    have hrest' : ∀ other ∈ rest, other ∈ w.log :=
      fun other hother => hrest other (mem_cons_of_mem _ hother)
    cases disposition with
    | resume =>
      refine .pure hu.1.kept_self ⟨fun other hother => ?_, hrest', fun other hother => ?_⟩
      · rcases mem_append.mp hother with hother | hother
        · exact hresumable other hother
        · exact mem_singleton.mp hother ▸ hlog
      · rcases hall other hother with hin | hin | hdead
        · exact Or.inl (mem_append_left _ hin)
        · rcases mem_cons.mp hin with rfl | hin
          · exact Or.inl (mem_append_right _ mem_cons_self)
          · exact Or.inr (Or.inl hin)
        · exact Or.inr (Or.inr (hdead' other hother hdead))
    | rebuild =>
      refine .pure hu.1.kept_self ⟨hresumable, hrest', fun other hother => ?_⟩
      rcases hall other hother with hin | hin | hdead''
      · exact Or.inl hin
      · rcases mem_cons.mp hin with rfl | hin
        · exact Or.inr (Or.inr (hdead.2 rfl))
        · exact Or.inr (Or.inl hin)
      · exact Or.inr (Or.inr (hdead' other hother hdead''))
  · exact (hI.2.2 record hrecord).imp_right fun hother => hother.resolve_left (by simp)

variable [ParquetFile] [SerdeDocument] [UuidCrate]

/-- What recovery has put into the memory. -/
structure Resumed (w : World) (before worker : Worker) (resumable : List OutputRecoveryRecord) :
    Prop where
  reader : worker.reader = before.reader
  builders : worker.builders = before.builders
  pending : worker.pending = before.pending
  published : ∀ output ∈ worker.published, output ∈ before.published ∨ output.record ∈ w.published
  covered : ∀ record ∈ resumable, record ∈ w.published ∧
    ∀ occurrence ∈ record.occurrences, occurrence ∈ worker.recoveredCoverage

/-- Resumed records are published and remembered. -/
theorem keeps_resumeRecords (h : Sound deployment w)
    {resumable : List OutputRecoveryRecord} (hlog : ∀ record ∈ resumable, record ∈ w.log) :
    Keeps (Kept deployment (· ∈ w.log)) (deployment.resumeRecords rounds worker resumable)
      (fun after u => Resumed u worker after resumable) w := by
  refine (Keeps.foldlM (fun after rest t => ∃ done, resumable = done ++ rest ∧
    Resumed t worker after done) (fun after record rest t ht hI => ?_) h.kept_self
    ⟨[], rfl, rfl, rfl, rfl, fun _ => Or.inl, by simp⟩).mono fun after u _ hI => ?_
  · obtain ⟨done, hdone, hresumed⟩ := hI
    have hrecord : record ∈ w.log := hlog record (by simp [hdone])
    refine ((keeps_publishRecord ht.1 (ht.2.log ▸ hrecord) rounds).weaken
      fun u hu => hu.mono fun other heq => heq ▸ hrecord).bind fun published u hu hpost => ?_
    obtain ⟨-, heq, hpublished⟩ := hpost
    refine (keeps_raise hu.1.kept_self _).bind fun coverage v hv hcoverage => ?_
    obtain ⟨hcoverage, rfl⟩ := hcoverage
    have hmem := mem_rememberOccurrences hcoverage
    refine .pure hv.1.kept_self ⟨done ++ [record], by simp [hdone], hresumed.reader,
      hresumed.builders, hresumed.pending, fun output houtput => ?_, fun other hother => ?_⟩
    · rcases mem_append.mp houtput with houtput | houtput
      · exact (hresumed.published output houtput).imp_right (hu.2.published _)
      · exact Or.inr (mem_singleton.mp houtput ▸ heq ▸ hpublished)
    · rcases mem_append.mp hother with hother | hother
      · obtain ⟨hin, hcovered⟩ := hresumed.covered other hother
        exact ⟨hu.2.published other hin, fun occurrence hoccurrence =>
          (hmem occurrence).mpr (Or.inl (hcovered occurrence hoccurrence))⟩
      · rw [mem_singleton.mp hother]
        exact ⟨hpublished, fun occurrence hoccurrence =>
          (hmem occurrence).mpr (Or.inr hoccurrence)⟩
  · obtain ⟨done, hdone, hresumed⟩ := hI
    rw [append_nil] at hdone
    exact hdone ▸ hresumed

/-- Behind recovery a record of the log is published and remembered, or it is dead. -/
theorem keeps_recovered (h : Sound deployment w) :
    Keeps (Kept deployment (· ∈ w.log)) (deployment.recoverOutputs rounds w.log worker)
      (fun after u => ∃ resumable, Resumed u worker after resumable ∧
        ∀ record ∈ w.log, record ∈ resumable ∨ u.Dead record) w := by
  refine (keeps_resumableRecords h).bind fun resumable t ht hresumable => ?_
  obtain ⟨hlog, hall⟩ := hresumable
  have hsettled : ∀ u, Kept deployment (fun _ => False) t u → ∀ record ∈ u.history,
      ¬ record.output.IsReferenced (Deployment.referencedSegments resumable)
        (Deployment.referencedDeadLetters resumable) → u.Settled record := by
    intro u hu record hrecord hunreferenced
    by_cases hin : record ∈ u.log
    · refine Or.inr ((hu.2.dead record (hu.2.history ▸ hrecord)).mpr ?_)
      refine (hall record (ht.2.log ▸ hu.2.log ▸ hin)).resolve_left fun hresumable => ?_
      exact hunreferenced (isReferenced_of_mem hresumable)
    · exact (hu.1.unlogged record hrecord hin).1
  refine ((keeps_untilAvailable (fun _ ht => ht.1.kept_self) ht.1.kept_self
    (P := fun _ _ => True) (fun u hu => keeps_reconcile hu.1 (hsettled u hu))
    rounds).weaken fun _ hu => hu.mono fun _ => False.elim).bind fun _ u hu _ => ?_
  have hsame : u.log = w.log := hu.2.log.trans ht.2.log
  have hlog' : ∀ record ∈ resumable, record ∈ u.log := fun record hrecord =>
    hsame ▸ hlog record hrecord
  refine ((keeps_resumeRecords hu.1 hlog').weaken fun v hv => ?_).mono
    fun after v _ hv => ⟨resumable, hv.2, fun record hrecord => ?_⟩
  · exact hv.mono fun record hrecord => hsame ▸ hrecord
  · have hin : record ∈ t.history := ht.1.log_mem record (ht.2.log ▸ hrecord)
    refine (hall record hrecord).imp_right fun hdead => ?_
    rw [hv.1.2.dead record (hu.2.history ▸ hin), hu.2.dead record hin]
    exact hdead

/-- Behind recovery every record is settled, and what is published of a batch that is to be read
is remembered. -/
theorem keeps_recoverOutputs (h : Sound deployment w) (hreads : Reads deployment w worker.reader)
    (hbuilders : worker.builders = .new deployment.scratchBytes) (hpending : worker.pending = [])
    (hpublished : worker.published = []) :
    Keeps (Sounds deployment) (deployment.recoverOutputs rounds w.log worker)
      (fun after u => Working deployment u after []) w := by
  refine ((keeps_recovered h).weaken fun _ hv => hv.1).mono fun after v _ hv => ?_
  obtain ⟨hkept, resumable, hresumed, hcases⟩ := hv
  rw [← hkept.2.log] at hcases
  have hrows : after.builders.occurrences = [] := by
    rw [hresumed.builders, hbuilders]
    rfl
  refine ⟨hkept.1, fun record hrecord => ?_,
    hresumed.reader ▸ hreads.of_grows hkept.2.grows, ?_, by simp [hrows], by simp [hrows],
    fun batch hbatch _ record hrecord occurrence hcovered hid => ?_, ?_, fun output houtput => ?_⟩
  · by_cases hin : record ∈ v.log
    · exact (hcases record hin).imp (fun hmem => (hresumed.covered record hmem).1) id
    · exact (hkept.1.unlogged record hrecord hin).1
  · rw [hresumed.builders, hbuilders]
    exact SegmentBuilders.wellFormed_new _
  · -- a published record about a batch of the spool is in the log, and was resumed
    have hmem := hkept.1.published_mem record hrecord
    by_cases hin : record ∈ v.log
    · rcases hcases record hin with hresumable | hdead
      · exact (hresumed.covered record hresumable).2 occurrence hcovered
      · exact absurd hrecord hdead.unpublished
    · obtain ⟨item, hitem, hoccurrence⟩ := mem_flatMap.mp hcovered
      obtain ⟨_, -, rfl⟩ := mem_map.mp hoccurrence
      have := (hkept.1.unlogged record hmem hin).2 item hitem
      rw [show item.batchId = batch.metadata.batchId from hid] at this
      exact absurd this (hkept.1.not_retired hbatch)
  · simp [hresumed.pending, hpending]
  · refine (hresumed.published output houtput).resolve_left ?_
    simp [hpublished]

/-! ## Sessions -/

variable [SerdeJson] [ChronoText] [FloatText] [Base64] [Layout]

/-- A process that starts leaves a sound world, wherever it stops. -/
theorem keeps_start (h : Sound deployment w) (hgeneration : w.generation = 0) :
    Keeps (Sounds deployment) (deployment.start rounds) (fun _ _ => True) w := by
  refine Keeps.bind (P := fun seen t => seen = w ∧ t = w) ⟨h, rfl, rfl⟩ fun seen t _ hsame => ?_
  obtain ⟨rfl, rfl⟩ := hsame
  have hreads : Reads deployment t (deployment.newWorker t).reader := by
    obtain ⟨front, hfront, hposition⟩ := h.boundary
    refine ⟨rfl, Nat.zero_le _, ⟨front, hfront, ?_⟩, fun _ => ⟨hgeneration.symm, h.checkpoint_le,
      t.frames, prefix_rfl, rfl⟩⟩
    exact (if_pos hgeneration.symm).trans hposition
  have hopen : Keeps (Still deployment) deployment.openLog (fun records u => records = u.log) t := by
    refine keeps_operate h (fun _ _ => id) fun choice u hsound hmoved _ _ heffect => ?_
    cases heffect
    exact ⟨hsound.still_self, rfl⟩
  refine (hopen.weaken fun _ hu => hu.1).bind fun records u _ hu => ?_
  obtain ⟨hstill, rfl⟩ := hu
  have hgrows := hstill.2.extended.grows
  refine (keeps_recoverOutputs hstill.1 (hreads.of_grows hgrows) rfl rfl rfl).bind
    fun worker v _ hv => ?_
  exact Working.loopRules.keeps_runLoop hv

/-- A whole process leaves a sound world. -/
theorem Sound.session (h : Sound deployment w)
    (session : Session) : Sound deployment (deployment.session w session) := by
  have hkeeps : Keeps (Sounds deployment) (deployment.start session.rounds) (fun _ _ => True)
      (w.restart session) := keeps_start (h.restart session) rfl
  rw [Keeps, wp] at hkeeps
  rw [Deployment.session]
  cases hrun : deployment.start session.rounds (w.restart session) with
  | ok result after => exact result.elim
  | error stop after =>
    rw [hrun] at hkeeps
    exact hkeeps

/-- What holds between any two operations holds in every state of every run. -/
theorem sound_runSessions (hretains : deployment.KeepsRetained) (catalog : List Source)
    (sessions : List Session) : Sound deployment (deployment.runSessions catalog sessions) := by
  unfold Deployment.runSessions
  have hinitial : Sound deployment (.initial catalog) := sound_initial hretains catalog
  generalize World.initial catalog = start at hinitial
  induction sessions generalizing start with
  | nil => exact hinitial
  | cons session rest ih => exact ih _ (hinitial.session session)

end Elucid
