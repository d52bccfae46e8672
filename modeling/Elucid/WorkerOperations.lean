import Elucid.WorldInvariant

/-!
# The operations of the worker

Each operation on the stores keeps the world sound, with the moves that come before it and
with any fault (`keeps_operate`), as long as it is asked for at the right time : an output is
registered while its bytes are staged, its object is created and its upload is recorded while
it is not dead, and reconciliation comes when every record that it may abandon is settled.

From these follow the two programs about one record. `keeps_recoveryDisposition` says that a
record is rebuilt only if it is dead, and `keeps_publishRecord` that a record is published
when `publish_record` returns.
-/

namespace Elucid

open BigEndian Effect List

variable [Chrono] {deployment : Deployment} {S : OutputRecoveryRecord → Prop}
  {w w' : World} {record : OutputRecoveryRecord}
variable {G : World → World → Prop} {unavailable : IngestionProcessingError} {after : Database}
  {α : Type}
variable {effect : Choice → World → Except IngestionProcessingError (α × World)}
  {P : α → World → Prop} {first second : ObjectPublicationState}

/-! ## One operation -/

/-- An effect happens as a whole or not at all, and may be lost to the caller. -/
theorem keeps_perform (h : G w w) {choice : Choice}
    (heffect : ∀ a u, effect choice w = .ok (a, u) → G w u ∧ P a u) :
    Keeps G (Deployment.perform unavailable effect choice) P w := by
  rw [Keeps, wp, Deployment.perform]
  by_cases hbefore : choice.fault = .before
  · rw [if_pos hbefore]
    exact h
  · rw [if_neg hbefore]
    cases heq : effect choice w with
    | error error => exact h
    | ok result =>
      obtain ⟨hkept, hP⟩ := heffect _ _ heq
      dsimp only
      split_ifs
      · exact hkept
      · exact ⟨hkept, hP⟩

/-- An operation may be tried again where its specification still holds. -/
theorem keeps_untilAvailable [IsTrans World G] (hG : ∀ t, G w t → G t t) (h : G w w)
    {operation : Program α} (hoperation : ∀ t, G w t → Keeps G operation P t) (rounds : Nat) :
    Keeps G (Deployment.untilAvailable rounds operation) P w := by
  refine Keeps.loop (fun _ _ => True) (fun _ t ht _ => ?_) rounds h trivial
  refine (hoperation t ht).attempt.bind fun r u hu hP => ?_
  have hself : G u u := hG u (IsTrans.trans _ _ _ ht hu)
  cases r with
  | ok a => exact .pure hself (hP a rfl)
  | error _ => exact .pure hself trivial

/-- A result of a pure step. -/
theorem keeps_raise (h : G w w) (x : Except IngestionProcessingError α) :
    Keeps G (Deployment.raise x) (fun a u => x = .ok a ∧ u = w) w := by
  cases x with
  | ok a => exact ⟨h, rfl, rfl⟩
  | error error => exact h

/-- A staged file has the identity of its object. -/
theorem stagedOutputPath_eq_ok {output : RecoveryOutput} {path : StoredObjectId}
    (h : Deployment.stagedOutputPath w output = .ok path) : path = output.object.key.objectId := by
  cases output with
  | segment registration =>
    obtain ⟨_, -, h⟩ := bind_eq_ok.mp h
    exact (Except.ok.inj h).symm
  | deadLetter registration => exact (Except.ok.inj h).symm

variable [Blake3]

theorem Sound.moved_choices (h : Sound deployment w) (choices : Stream' (Option Choice)) :
    Sound deployment { w with choices } ∧ Moved deployment w { w with choices } := by
  have hkept : Kept deployment (fun _ => False) w { w with choices } :=
    h.kept_unnoticed ⟨rfl, rfl, rfl, rfl, rfl, fun _ => id, rfl⟩ rfl rfl rfl fun _ _ => rfl
  exact ⟨hkept.1, hkept.2, rfl, fun _ _ _ hstate _ _ => hstate⟩

/-- Nothing has happened but moves. -/
def Still (deployment : Deployment) (w w' : World) : Prop := Sound deployment w' ∧ Moved deployment w w'

instance : IsTrans World (Still deployment) where
  trans _ _ _ h h' := ⟨h'.1, h.2.trans h'.2⟩

theorem Sound.still_self (h : Sound deployment w) : Still deployment w w :=
  ⟨h, .refl _ w, rfl, fun _ _ _ hstate _ _ => hstate⟩

theorem Still.kept (h : Still deployment w w') : Kept deployment S w w' :=
  ⟨h.1, h.2.extended.mono fun _ => False.elim⟩

theorem keeps_nextChoice (h : Sound deployment w) :
    Keeps (Still deployment) Deployment.nextChoice (fun _ u => ∃ choices, u = { w with choices })
      w := by
  rw [Keeps, wp, Deployment.nextChoice]
  cases w.choices.head with
  | none => exact h.still_self
  | some choice => exact ⟨h.moved_choices w.choices.tail, _, rfl⟩

/-- The moves of the others keep what the worker relies on. -/
theorem keeps_moves (h : Sound deployment w) (moves : List Move) :
    Keeps (Still deployment) (modify (deployment.moves · moves) : Program PUnit)
      (fun _ _ => True) w :=
  ⟨moves_spec h moves, trivial⟩

/-- Only the effect of an operation is to be looked at, in any world the moves can lead to. -/
theorem keeps_operate (h : Sound deployment w)
    [IsTrans World G] (hG : ∀ s t, Still deployment s t → G s t)
    (heffect : ∀ choice t, Sound deployment t → Moved deployment w t → ∀ a u,
      effect choice t = .ok (a, u) → G t u ∧ P a u) :
    Keeps G (deployment.operate unavailable effect) P w := by
  refine ((keeps_nextChoice h).weaken fun t => hG w t).bind fun choice t _ ht => ?_
  refine ((keeps_moves ht.1.1 choice.moves).weaken fun u => hG t u).bind
    fun _ u _ hu => ?_
  exact keeps_perform (hG u u hu.1.1.still_self)
    (heffect choice u hu.1.1 (ht.1.2.trans hu.1.2))

/-! ## Operations that read -/

/-- An operation that reads. -/
theorem keeps_read (h : Sound deployment w) {f : World → Except IngestionProcessingError α} :
    Keeps (Still deployment)
      (deployment.operate unavailable fun _ w => do return (← f w, w))
      (fun a u => f u = .ok a) w := by
  refine keeps_operate h (fun _ _ => id) fun choice t hsound hmoved a u heffect => ?_
  obtain ⟨b, hb, heq⟩ := bind_eq_ok.mp heffect
  cases heq
  exact ⟨hsound.still_self, hb⟩

/-- The state that is read is the state of the record. -/
theorem keeps_outputState (h : Sound deployment w) (record : OutputRecoveryRecord) :
    Keeps (Still deployment) (deployment.outputState record)
      (fun state u => u.state record = .ok state) w := by
  refine keeps_operate h (fun _ _ => id) fun choice t hsound hmoved state u heffect => ?_
  obtain ⟨⟨_, _⟩, htransaction, heq⟩ := bind_eq_ok.mp heffect
  cases heq
  obtain ⟨_, hstate, heq⟩ := bind_eq_ok.mp (mapError_eq_ok.mp htransaction)
  cases heq
  exact ⟨hsound.still_self, hstate⟩

/-- So is what is read of the staged file. -/
theorem keeps_stagedOutputExists (h : Sound deployment w) (record : OutputRecoveryRecord) :
    Keeps (Still deployment) (deployment.stagedOutputExists record)
      (fun exist u => exist = (u.staged record.objectIdentity).isSome) w := by
  refine keeps_operate h (fun _ _ => id) fun choice t hsound hmoved exist u heffect => ?_
  obtain ⟨path, hpath, heq⟩ := bind_eq_ok.mp heffect
  cases heq
  rw [stagedOutputPath_eq_ok hpath]
  exact ⟨hsound.still_self, rfl⟩

/-- And of the object. -/
theorem keeps_verify (h : Sound deployment w) (descriptor : ObjectDescriptor) :
    Keeps (Still deployment) (deployment.verify descriptor)
      (fun outcome u => outcome = .absent ↔ u.objects descriptor.key = none) w := by
  refine (keeps_read h).mono fun outcome u _ hprobe => ?_
  rw [Deployment.probe] at hprobe
  split at hprobe
  · next hnone => simp [hnone, (Except.ok.inj hprobe).symm]
  · next content hsome =>
    obtain ⟨_, -, heq⟩ := bind_eq_ok.mp hprobe
    simp [hsome, (Except.ok.inj heq).symm]

/-! ## Operations on one record -/

/-- Different records have different outputs. -/
theorem Sound.ne_output (h : Sound deployment w) (hrecord : record ∈ w.history)
    {other : OutputRecoveryRecord} (hother : other ∈ w.history) (hne : other ≠ record) :
    other.objectIdentity ≠ record.objectIdentity ∧ other.output ≠ record.output ∧
      other.output.object.key ≠ record.output.object.key := by
  have hidentity : other.objectIdentity ≠ record.objectIdentity :=
    fun heq => hne (h.identity_inj other hother record hrecord heq)
  refine ⟨hidentity, fun heq => hidentity ?_, fun heq => hidentity ?_⟩
  · rw [OutputRecoveryRecord.objectIdentity, heq, OutputRecoveryRecord.objectIdentity]
  · rw [OutputRecoveryRecord.objectIdentity, heq, OutputRecoveryRecord.objectIdentity]

/-- A transaction about one output moves its state, and no other one. -/
theorem Sound.only (h : Sound deployment w) (hrecord : record ∈ w.history)
    (hsteps : w.database.Steps after w.outputs (.only record.output first second)) :
    (∀ other ∈ w.history, other ≠ record → after.outputState other.output = w.state other) ∧
      (after.outputState record.output = w.state record ∨
        w.state record = .ok first ∧ after.outputState record.output = .ok second) := by
  have hstep : ∀ other ∈ w.history, ∃ state state', w.state other = .ok state ∧
      after.outputState other.output = .ok state' ∧
        StateChange.only record.output first second other.output state state' := by
    intro other hother
    have hmem : other.output ∈ w.outputs := mem_map_of_mem hother
    obtain ⟨state, hstate⟩ := h.records.states _ hmem
    obtain ⟨state', hstate', hchange⟩ := hsteps.change _ hmem state hstate
    exact ⟨state, state', hstate, hstate', hchange⟩
  constructor
  · intro other hother hne
    obtain ⟨state, state', hstate, hstate', hchange⟩ := hstep other hother
    rw [StateChange.only, if_neg fun heq => (h.ne_output hrecord hother hne).2.1 heq.1] at hchange
    rw [hstate', hstate, hchange]
  · obtain ⟨state, state', hstate, hstate', hchange⟩ := hstep record hrecord
    rw [StateChange.only] at hchange
    split_ifs at hchange with hfirst
    · exact Or.inr ⟨hfirst.2 ▸ hstate, hchange ▸ hstate'⟩
    · exact Or.inl (by rw [hstate', hstate, hchange])

/-- A step on one record. -/
theorem Sound.kept_at (h : Sound deployment w) (hrecord : record ∈ w.history)
    (hsame : SameSpool w w') (hrecords : w'.database.Records w.outputs)
    (hothers : ∀ other ∈ w.history, other ≠ record → w.Agrees w' other)
    (hpublished : ∀ other, other ∈ w'.published ↔ other ∈ w.published ∨
      other = record ∧ record ∈ w'.published)
    (hconsistent : w'.Consistent deployment record) (hdead : w'.Dead record ↔ w.Dead record)
    (hknows : w.Knows deployment w' record) : Kept deployment (· = record) w w' := by
  refine h.kept hsame hrecords (fun other hother => (hpublished other).mpr (Or.inl hother))
    (fun other hother => ((hpublished other).mp hother).imp_right And.left)
    (fun _ heq => heq ▸ hrecord) fun other hother => ?_
  by_cases heq : other = record
  · exact heq ▸ ⟨hconsistent, hdead, hknows⟩
  · have hagrees := hothers other hother heq
    exact ⟨hagrees.consistent hsame.log (h.consistent other hother), hagrees.dead,
      .of_state hagrees.state⟩

/-- A transaction before publication, on a record that is not dead. -/
theorem Sound.kept_transact (h : Sound deployment w) (hrecord : record ∈ w.history)
    (hsteps : w.database.Steps after w.outputs (.only record.output first second))
    (hsecond : second = .planned ∧ (w.staged record.objectIdentity).isSome ∨ second = .uploaded)
    (hfirst : w.state record = .ok first → record ∉ w.published ∧ ¬ w.Dead record) :
    Kept deployment (· = record) w { w with database := after } := by
  obtain ⟨hothers, hcases⟩ := h.only hrecord hsteps
  have hconsistent := h.consistent record hrecord
  refine h.kept_at hrecord ⟨rfl, rfl, rfl, rfl, rfl, fun _ => id, rfl⟩ hsteps.records
    (fun other hother hne => ⟨Iff.rfl, rfl, hothers other hother hne, rfl⟩)
    (fun other => ⟨Or.inl, fun h => h.elim id fun heq => heq.1 ▸ heq.2⟩) ?_ ?_ ?_
  · rcases hcases with hsame | ⟨hbefore, hafter⟩
    · exact World.Agrees.consistent (w := w) ⟨Iff.rfl, rfl, hsame, rfl⟩ rfl hconsistent
    · have hafter : World.state { w with database := after } record = .ok second := hafter
      have hunpublished := (hfirst hbefore).1
      refine ⟨fun hpublished => absurd hpublished hunpublished,
        fun hpublished => absurd hpublished hunpublished, fun hstate => ?_, fun hstate => ?_⟩
      all_goals
        obtain rfl := Except.ok.inj (hafter.symm.trans hstate)
        simp at hsecond
  · rcases hcases with hsame | ⟨hbefore, hafter⟩
    · exact World.Agrees.dead (w := w) ⟨Iff.rfl, rfl, hsame, rfl⟩
    · refine iff_of_false (fun hdead => ?_) (hfirst hbefore).2
      rcases hsecond with ⟨-, hstaged⟩ | rfl
      · simp [show w.staged record.objectIdentity = none from hdead.unstaged] at hstaged
      · have hafter : World.state { w with database := after } record = .ok .uploaded := hafter
        simpa [hafter] using hdead.state
  · rcases hcases with hsame | ⟨hbefore, hafter⟩
    · exact .of_state hsame
    · refine ⟨fun hdead => absurd hdead (hfirst hbefore).2, fun _ hstate => ?_⟩
      obtain rfl := Except.ok.inj (hafter.symm.trans hstate)
      simp at hsecond

/-- A logged output with a staged file is registered. -/
theorem keeps_registerOutput (h : Sound deployment w)
    (hlog : record ∈ w.log) (hstaged : (w.staged record.objectIdentity).isSome) :
    Keeps (Kept deployment (· = record)) (deployment.registerOutput record) (fun _ _ => True) w := by
  refine keeps_operate h (fun _ _ => Still.kept) fun choice t hsound hmoved _ u heffect => ⟨?_, trivial⟩
  obtain ⟨⟨_, after⟩, htransaction, heq⟩ := bind_eq_ok.mp heffect
  cases heq
  have hlog' : record ∈ t.log := hmoved.extended.log ▸ hlog
  have hrecord := hsound.log_mem record hlog'
  have hstaged' : (t.staged record.objectIdentity).isSome := hmoved.staged ▸ hstaged
  refine hsound.kept_transact hrecord (hsound.records.registerOutput
    (mem_map_of_mem hrecord) (mapError_eq_ok.mp htransaction)) (Or.inl ⟨rfl, hstaged'⟩)
    fun hstate => ⟨fun hpublished => ?_, fun hdead => ?_⟩
  · -- a record in the log that is published has rows
    have := (hsound.consistent record hrecord).kept hpublished (Or.inl hlog')
    simp [hstate] at this
  · simp [hdead.unstaged] at hstaged'

theorem keeps_recordUpload (h : Sound deployment w)
    (hrecord : record ∈ w.history) (hdead : ¬ w.Dead record) :
    Keeps (Kept deployment (· = record)) (deployment.recordUpload record) (fun _ _ => True) w := by
  refine keeps_operate h (fun _ _ => Still.kept) fun choice t hsound hmoved _ u heffect => ⟨?_, trivial⟩
  obtain ⟨⟨_, after⟩, htransaction, heq⟩ := bind_eq_ok.mp heffect
  cases heq
  have hrecord' : record ∈ t.history := hmoved.extended.history ▸ hrecord
  refine hsound.kept_transact hrecord' (hsound.records.recordVerifiedUpload
    (mem_map_of_mem hrecord') (mapError_eq_ok.mp htransaction)) (Or.inr rfl)
    fun hstate => ⟨fun hpublished => ?_, mt (hmoved.extended.dead record hrecord).mp hdead⟩
  have := (hsound.consistent record hrecord').published_states hpublished
  simp [hstate] at this

theorem Sound.kept_publish (h : Sound deployment w) (hrecord : record ∈ w.history)
    (hsteps : w.database.Steps after w.outputs (.only record.output .uploaded .published))
    (hafter : after.outputState record.output = .ok .published) :
    Kept deployment (· = record) w
      { w with database := after, published := w.published.insert record } := by
  obtain ⟨hothers, hcases⟩ := h.only hrecord hsteps
  have hconsistent := h.consistent record hrecord
  refine h.kept_at hrecord ⟨rfl, rfl, rfl, rfl, rfl, fun _ => id, rfl⟩ hsteps.records
    (fun other hother hne => ⟨?_, rfl, hothers other hother hne, rfl⟩) (fun other => ?_) ?_ ?_ ?_
  · exact mem_insert_iff.trans (or_iff_right hne)
  · rw [mem_insert_iff, or_comm]
    exact or_congr_right ⟨fun heq => ⟨heq, mem_insert_self⟩, And.left⟩
  · refine ⟨fun _ _ => hafter, fun _ => Or.inl hafter, fun _ => mem_insert_self,
      fun hstate => ?_⟩
    exact absurd (hafter.symm.trans hstate) (by simp)
  · refine iff_of_false (fun hdead => hdead.unpublished mem_insert_self) fun hdead => ?_
    rcases hcases with hsame | ⟨hbefore, -⟩
    · exact hdead.unpublished (hconsistent.published_of_state (hsame.symm.trans hafter))
    · simpa [hbefore] using hdead.state
  · rcases hcases with hsame | ⟨hbefore, -⟩
    · exact .of_state hsame
    · refine ⟨fun _ hstate => ?_, fun _ hstate => absurd (hafter.symm.trans hstate) (by simp)⟩
      exact absurd (hbefore.symm.trans hstate) (by simp)

/-- An uploaded output is published. -/
theorem keeps_publishOutput (h : Sound deployment w) (hrecord : record ∈ w.history) :
    Keeps (Kept deployment (· = record)) (deployment.publishOutput record) (fun _ _ => True) w := by
  refine keeps_operate h (fun _ _ => Still.kept) fun choice t hsound hmoved _ u heffect => ⟨?_, trivial⟩
  obtain ⟨⟨_, after⟩, htransaction, heq⟩ := bind_eq_ok.mp heffect
  cases heq
  have hrecord' : record ∈ t.history := hmoved.extended.history ▸ hrecord
  obtain ⟨hsteps, hafter⟩ := hsound.records.publishOutput (mem_map_of_mem hrecord')
    (mapError_eq_ok.mp htransaction)
  exact hsound.kept_publish hrecord' hsteps hafter

/-- A staged file is uploaded. -/
theorem keeps_upload (h : Sound deployment w) (hrecord : record ∈ w.history)
    (hstaged : (w.staged record.objectIdentity).isSome) (bytes : Bytes) :
    Keeps (Kept deployment (· = record)) (deployment.upload record.output.object bytes)
      (fun _ _ => True) w := by
  refine keeps_operate h (fun _ _ => Still.kept) fun choice t hsound hmoved _ u heffect => ⟨?_, trivial⟩
  have hrecord' : record ∈ t.history := hmoved.extended.history ▸ hrecord
  obtain ⟨_, -, heffect⟩ := bind_eq_ok.mp heffect
  obtain ⟨_, -, heffect⟩ := bind_eq_ok.mp heffect
  obtain ⟨outcome, -, heffect⟩ := bind_eq_ok.mp heffect
  cases outcome with
  | verified =>
    cases heffect
    exact hsound.kept_self
  | absent =>
    cases heffect
    refine hsound.kept_at hrecord' ⟨rfl, rfl, rfl, rfl, rfl, fun _ => id, rfl⟩
      hsound.records (fun other hother hne => ⟨Iff.rfl, rfl, rfl, ?_⟩)
      (fun other => ⟨Or.inl, fun h => h.elim id fun heq => heq.1 ▸ heq.2⟩)
      { hsound.consistent record hrecord' with } ?_ (.of_state rfl)
    · exact Function.update_of_ne (hsound.ne_output hrecord' hother hne).2.2 _ _
    · have hstays : ∀ v : World, v.staged = t.staged → ¬ v.Dead record := by
        intro v hv hdead
        simp [← hmoved.staged, ← hv, hdead.unstaged] at hstaged
      exact iff_of_false (hstays _ rfl) (hstays t rfl)

/-- The staged file of a published output is removed. -/
theorem keeps_removeStagedOutput (h : Sound deployment w) (hpublished : record ∈ w.published) :
    Keeps (Kept deployment (· = record)) (deployment.removeStagedOutput record)
      (fun _ u => record ∈ u.published) w := by
  refine keeps_operate h (fun _ _ => Still.kept) fun choice t hsound hmoved _ u heffect => ?_
  obtain ⟨path, hpath, heq⟩ := bind_eq_ok.mp heffect
  cases heq
  have hpublished' := hmoved.extended.published record hpublished
  have hrecord := hsound.published_mem record hpublished'
  have hconsistent := hsound.consistent record hrecord
  rw [stagedOutputPath_eq_ok hpath]
  refine ⟨hsound.kept_at hrecord ⟨rfl, rfl, rfl, rfl, rfl, fun _ => id, rfl⟩ hsound.records
    (fun other hother hne => ⟨Iff.rfl, ?_, rfl, rfl⟩)
    (fun other => ⟨Or.inl, fun h => h.elim id fun heq => heq.1 ▸ heq.2⟩)
    { hconsistent with unstaged_of_abandoned := fun _ => Function.update_self .. }
    (iff_of_false (fun hdead => hdead.unpublished hpublished')
      fun hdead => hdead.unpublished hpublished') (.of_state rfl), hpublished'⟩
  exact Function.update_of_ne (hsound.ne_output hrecord hother hne).1 _ _

/-! ## Reconciliation -/

theorem Sound.kept_reconcile (h : Sound deployment w) {referenced : RecoveryOutput → Prop}
    (hsteps : w.database.Steps after w.outputs (.abandon referenced))
    (hsettled : ∀ record ∈ w.history, ¬ referenced record.output → w.Settled record) :
    Kept deployment (fun _ => False) w { w with database := after } := by
  refine h.kept ⟨rfl, rfl, rfl, rfl, rfl, fun _ => id, rfl⟩ hsteps.records (fun _ => id)
    (fun _ => Or.inl) (fun _ => False.elim) fun record hrecord => ?_
  have hconsistent := h.consistent record hrecord
  have hmem : record.output ∈ w.outputs := mem_map_of_mem hrecord
  obtain ⟨state, hstate⟩ := h.records.states _ hmem
  obtain ⟨state', hstate', hchange⟩ := hsteps.change _ hmem state hstate
  rcases hchange with rfl | ⟨hunreferenced, hunpublished, rfl⟩
  · have hagrees : w.Agrees { w with database := after } record :=
      ⟨Iff.rfl, rfl, hstate'.trans hstate.symm, rfl⟩
    exact ⟨hagrees.consistent rfl hconsistent, hagrees.dead, .of_state hagrees.state⟩
  · have hbefore : w.state record = .ok state := hstate
    have hafter : World.state { w with database := after } record = .ok .abandoned := hstate'
    have hdead : w.Dead record := by
      refine (hsettled record hrecord hunreferenced).resolve_left fun hpublished => ?_
      have := hconsistent.published_states hpublished
      rcases hunpublished with rfl | rfl <;> simp [hbefore] at this
    refine ⟨⟨fun hpublished => absurd hpublished hdead.unpublished,
      fun hpublished => absurd hpublished hdead.unpublished, fun hstate => ?_,
      fun _ => hdead.unstaged⟩, iff_of_true ⟨hdead.unpublished, hdead.unstaged, ?_⟩ hdead,
      fun _ hstate => ?_, fun _ hstate => ?_⟩
    · simp [hafter] at hstate
    · exact Or.inr (Or.inl hafter)
    · obtain rfl := Except.ok.inj (hbefore.symm.trans hstate)
      simp at hunpublished
    · simp [hafter] at hstate

/-- Outputs that are not referenced are abandoned, if they are settled. -/
theorem keeps_reconcile (h : Sound deployment w)
    {segments : List SegmentId} {deadLetters : List StoredObjectId}
    (hsettled : ∀ record ∈ w.history, ¬ record.output.IsReferenced segments deadLetters →
      w.Settled record) :
    Keeps (Kept deployment fun _ => False) (deployment.reconcile segments deadLetters)
      (fun _ _ => True) w := by
  refine keeps_operate h (fun _ _ => Still.kept) fun choice t hsound hmoved _ u heffect => ⟨?_, trivial⟩
  obtain ⟨⟨_, after⟩, htransaction, heq⟩ := bind_eq_ok.mp heffect
  cases heq
  refine hsound.kept_reconcile (hsound.records.reconcileUnreferencedOutputs
    (mapError_eq_ok.mp htransaction)) fun record hrecord hunreferenced => ?_
  rw [hmoved.extended.history] at hrecord
  exact (hsettled record hrecord hunreferenced).imp (hmoved.extended.published record)
    (hmoved.extended.dead record hrecord).mpr

/-! ## The disposition of a record -/

theorem keeps_recordVerifiedUpload (h : Sound deployment w)
    (hrecord : record ∈ w.history) (hdead : ¬ w.Dead record) (rounds : Nat) :
    Keeps (Kept deployment (· = record)) (deployment.recordVerifiedUpload rounds record)
      (fun _ _ => True) w := by
  refine (keeps_untilAvailable (fun _ ht => ht.1.kept_self) h.kept_self
    (P := fun _ _ => True) (fun t ht => ?_) rounds).bind
    fun _ u hu _ => .pure hu.1.kept_self trivial
  exact keeps_recordUpload ht.1 (ht.2.history ▸ hrecord)
    (mt (ht.2.dead record hrecord).mp hdead)

/-- What an observation says about a record. -/
def World.Observed (w : World) (record : OutputRecoveryRecord) :
    OutputRecoveryObservation → Prop
  | .unregistered .missing | .planned .missingAbsent | .abandoned => w.Dead record
  | .planned .missingUnverified => record ∉ w.published ∧
      w.staged record.objectIdentity = none ∧ w.state record = .ok .planned
  | _ => True

/-- What recovery observes of a logged record. -/
theorem keeps_recoveryObservation (h : Sound deployment w) (hlog : record ∈ w.log) (rounds : Nat) :
    Keeps (Still deployment) (deployment.recoveryObservation rounds record)
      (fun observation u => u.Observed record observation) w := by
  refine (keeps_untilAvailable (fun _ ht => ht.1.still_self) h.still_self
    (fun t ht => keeps_outputState ht.1 record) rounds).bind fun state t ht hstate => ?_
  have hlog' : record ∈ t.log := ht.2.extended.log ▸ hlog
  have hrecord := ht.1.log_mem record hlog'
  have hconsistent := ht.1.consistent record hrecord
  -- a record of the log that is published is seen so
  have hunpublished : state ≠ .published → record ∉ t.published := by
    intro hne hpublished
    have := hconsistent.kept hpublished (Or.inl hlog')
    rw [hstate, Except.ok.injEq] at this
    exact hne this
  have hstill : ∀ u, Still deployment t u → state ≠ .published → state ≠ .abandoned →
      record ∉ u.published ∧ u.state record = .ok state := by
    intro u hu hpublished habandoned
    refine ⟨fun hmem => hunpublished hpublished ?_,
      hu.2.state record hrecord _ hstate hpublished habandoned⟩
    exact (hu.2.extended.published_only record hmem).resolve_right id
  cases state with
  | unregistered =>
    refine (keeps_stagedOutputExists ht.1 record).bind fun exist u hu hexist => ?_
    refine .pure hu.1.still_self ?_
    obtain ⟨hnot, hstate'⟩ := hstill u hu (by simp) (by simp)
    cases exist with
    | true => trivial
    | false => exact ⟨hnot, by simpa using hexist, Or.inl hstate'⟩
  | planned =>
    refine (keeps_stagedOutputExists ht.1 record).bind fun exist u hu hexist => ?_
    refine .pure hu.1.still_self ?_
    obtain ⟨hnot, hstate'⟩ := hstill u hu (by simp) (by simp)
    cases exist with
    | true => trivial
    | false => exact ⟨hnot, by simpa using hexist, hstate'⟩
  | uploaded => exact .pure ht.1.still_self trivial
  | published => exact .pure ht.1.still_self trivial
  | abandoned =>
    exact .pure ht.1.still_self ⟨hunpublished (by simp), hconsistent.unstaged_of_abandoned hstate,
      Or.inr (Or.inl hstate)⟩

/-- A record is rebuilt only if it is dead. -/
theorem keeps_recoveryDisposition (h : Sound deployment w) (hlog : record ∈ w.log) (rounds : Nat) :
    Keeps (Kept deployment (· = record)) (deployment.recoveryDisposition rounds record)
      (fun disposition u => disposition = .rebuild → u.Dead record) w := by
  refine ((keeps_recoveryObservation h hlog rounds).weaken fun _ => Still.kept).bind
    fun observation t ht hobserved => ?_
  obtain ⟨-, hobserved⟩ := hobserved
  rw [recoveryAction_available]
  refine (keeps_raise ht.1.kept_self _).bind fun action u hu haction => ?_
  obtain ⟨haction, rfl⟩ := haction
  obtain rfl := Except.ok.inj haction
  have hresume : Keeps (Kept deployment (· = record)) (pure .resume : Program RecoveryDisposition)
      (fun disposition u => disposition = .rebuild → u.Dead record) u :=
    .pure hu.1.kept_self (by simp)
  have hrebuild : u.Dead record →
      Keeps (Kept deployment (· = record)) (pure .rebuild : Program RecoveryDisposition)
        (fun disposition u => disposition = .rebuild → u.Dead record) u :=
    fun hdead => .pure hu.1.kept_self fun _ => hdead
  cases observation with
  | unregistered bytes =>
    cases bytes with
    | available => exact hresume
    | missing => exact hrebuild hobserved
  | uploaded => exact hresume
  | published => exact hresume
  | abandoned => exact hrebuild hobserved
  | planned bytes =>
    cases bytes with
    | available => exact hresume
    | missingVerified => exact .throw hu.1.kept_self
    | missingAbsent => exact hrebuild hobserved
    | missingUnverified =>
      obtain ⟨hunpublished, hunstaged, hstate⟩ := hobserved
      have hrecord : record ∈ u.history := hu.1.log_mem record (ht.2.log ▸ hlog)
      refine ((keeps_untilAvailable (fun _ ht => ht.1.still_self) hu.1.still_self
        (fun v hv => keeps_verify hv.1 _) rounds).weaken fun _ => Still.kept).bind
        fun outcome v hv houtcome => ?_
      obtain ⟨hstill, houtcome⟩ := houtcome
      have hstate' := hstill.2.state record hrecord _ hstate (by simp) (by simp)
      have hrecord' : record ∈ v.history := hv.2.history ▸ hrecord
      cases outcome with
      | verified =>
        have hdead : ¬ v.Dead record := fun hdead => by
          have := hdead.state
          simp_all
        refine (keeps_raise hv.1.kept_self _).bind fun _ x hx hraise => ?_
        obtain ⟨-, rfl⟩ := hraise
        refine (keeps_recordVerifiedUpload hx.1 hrecord' hdead rounds).bind
          fun _ y hy _ => ?_
        exact .pure hy.1.kept_self (by simp)
      | absent =>
        refine (keeps_raise hv.1.kept_self _).bind fun _ x hx hraise => ?_
        obtain ⟨-, rfl⟩ := hraise
        refine .pure hx.1.kept_self fun _ => ⟨fun hpublished => hunpublished ?_, ?_,
          Or.inr (Or.inr ⟨hstate', houtcome.mp rfl⟩)⟩
        · exact (hstill.2.extended.published_only record hpublished).resolve_right id
        · rw [hstill.2.staged]
          exact hunstaged

/-! ## Publication of a record -/

section Publish

/-- A record without a row. -/
theorem keeps_publishUnregistered (h : Sound deployment w) (hlog : record ∈ w.log) :
    Keeps (Kept deployment (· = record)) (deployment.publishUnregistered record)
      (fun _ _ => True) w := by
  refine ((keeps_stagedOutputExists h record).weaken fun _ => Still.kept).bind
    fun exist t ht hexist => ?_
  cases exist with
  | false => exact .throw ht.1.kept_self
  | true =>
    refine (keeps_registerOutput ht.1 (ht.2.log ▸ hlog) hexist.2.symm).attempt.bind
      fun _ u hu _ => .pure hu.1.kept_self trivial

variable [ParquetFile] [SerdeDocument] [UuidCrate]

/-- A record with a row and no known object. -/
theorem keeps_publishPlanned (h : Sound deployment w)
    (hlog : record ∈ w.log) (hplanned : w.state record = .ok .planned) (rounds : Nat) :
    Keeps (Kept deployment (· = record)) (deployment.publishPlanned rounds record)
      (fun _ _ => True) w := by
  refine ((keeps_stagedOutputExists h record).weaken fun _ => Still.kept).bind
    fun exist t ht hexist => ?_
  have hrecord : record ∈ t.history := ht.1.log_mem record (ht.2.log ▸ hlog)
  cases exist with
  | true =>
    have hdead : ¬ t.Dead record := fun hdead => by
      simp [hdead.unstaged] at hexist
    refine ((keeps_read ht.1).weaken fun _ => Still.kept).bind fun bytes u hu hread => ?_
    have hrecord' : record ∈ u.history := hu.2.history ▸ hrecord
    refine (keeps_upload hu.1 hrecord' (hread.1.2.staged ▸ hexist.2.symm)
      bytes).attempt.bind fun result v hv _ => ?_
    cases result with
    | error _ => exact .pure hv.1.kept_self trivial
    | ok _ =>
      refine keeps_recordVerifiedUpload hv.1 (hv.2.history ▸ hrecord') ?_ rounds
      rwa [hv.2.dead record hrecord', hu.2.dead record hrecord]
  | false =>
    have hplanned' : t.state record = .ok .planned :=
      hexist.1.2.state record (h.log_mem record hlog) _ hplanned (by simp) (by simp)
    refine ((keeps_verify ht.1 _).attempt.weaken fun _ => Still.kept).bind
      fun result u hu hresult => ?_
    cases result with
    | error _ => exact .pure hu.1.kept_self trivial
    | ok outcome =>
      cases outcome with
      | absent => exact .throw hu.1.kept_self
      | verified =>
        have hpresent := hresult.2 _ rfl
        have hstate : u.state record = .ok .planned :=
          hresult.1.2.state record hrecord _ hplanned' (by simp) (by simp)
        refine keeps_recordVerifiedUpload hu.1 (hu.2.history ▸ hrecord)
          (fun hdead => ?_) rounds
        have := hdead.state
        simp_all

/-- A record is published when `publish_record` returns. -/
theorem keeps_publishRecord (h : Sound deployment w) (hlog : record ∈ w.log) (rounds : Nat) :
    Keeps (Kept deployment (· = record)) (deployment.publishRecord rounds record)
      (fun published u => published.record = record ∧ record ∈ u.published) w := by
  refine Keeps.loop (fun _ _ => True) (fun _ t ht _ => ?_) rounds h.kept_self trivial
  refine ((keeps_outputState ht.1 record).attempt.weaken fun _ => Still.kept).bind
    fun result u hu hresult => ?_
  have hlog' : record ∈ u.log := hu.2.log ▸ ht.2.log ▸ hlog
  have hrecord := hu.1.log_mem record hlog'
  cases result with
  | error _ => exact .pure hu.1.kept_self trivial
  | ok state =>
    have hstate := hresult.2 _ rfl
    cases state with
    | unregistered =>
      exact (keeps_publishUnregistered hu.1 hlog').bind
        fun _ v hv _ => .pure hv.1.kept_self trivial
    | planned =>
      exact (keeps_publishPlanned hu.1 hlog' hstate rounds).bind
        fun _ v hv _ => .pure hv.1.kept_self trivial
    | uploaded =>
      exact (keeps_publishOutput hu.1 hrecord).attempt.bind
        fun _ v hv _ => .pure hv.1.kept_self trivial
    | published =>
      have hpublished := (hu.1.consistent record hrecord).published_of_state hstate
      refine (keeps_raise hu.1.kept_self _).bind fun published v hv hraise => ?_
      obtain ⟨hresolve, rfl⟩ := hraise
      refine (keeps_removeStagedOutput hv.1 hpublished).bind fun _ x hx hmem => ?_
      obtain ⟨_, -, hresolve⟩ := bind_eq_ok.mp (mapError_eq_ok.mp hresolve)
      cases hresolve
      exact .pure hx.1.kept_self ⟨rfl, hmem⟩
    | abandoned => exact .throw hu.1.kept_self

end Publish

end Elucid
