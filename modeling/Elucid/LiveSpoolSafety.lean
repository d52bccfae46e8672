import Elucid.LiveSpool

/-!
# Appends in order are safe for the follower

In a run that accounts frames and sends extents oldest first, the written frames are those
accounted and then those that wait, and the extents to send lead from the sent one up to
the accounting (`Announced`). So every extent the follower can see ends at a frame, and
the follower is never past it (`Followed`). `Working` is kept by every step
(`working_or_halted_step`), and `safe_of_inOrder` is what the follower gets.

A spool that has used up its generation numbers fails in the middle of a reclamation. It
is `Halted` from then on.
-/

namespace Elucid

open BigEndian List

/-! ## Extents -/

theorem SpoolExtent.le_of_lt {a b : SpoolExtent} (h : a.lt b) : a.le b := by
  unfold SpoolExtent.lt at h
  unfold SpoolExtent.le
  omega

theorem SpoolExtent.le_refl (a : SpoolExtent) : a.le a := Or.inr ⟨rfl, Nat.le_refl _⟩

/-- Extents are ordered by generation, then by end. -/
theorem SpoolExtent.le_trans {a b c : SpoolExtent} (hab : a.le b) (hbc : b.le c) : a.le c := by
  unfold SpoolExtent.le at *
  omega

/-- A chain of extents leads up to its last one. -/
theorem le_getLastD_of_isChain {first extent : SpoolExtent} {rest : List SpoolExtent}
    (h : (first :: rest).IsChain SpoolExtent.lt) (hmem : extent ∈ first :: rest) :
    extent.le (rest.getLastD first) := by
  induction rest generalizing first extent with
  | nil =>
    obtain rfl := mem_singleton.mp hmem
    exact extent.le_refl
  | cons next rest ih =>
    rw [isChain_cons_cons] at h
    rw [getLastD_cons]
    rcases mem_cons.mp hmem with rfl | hmem
    · exact SpoolExtent.le_trans (SpoolExtent.le_of_lt h.1) (ih h.2 mem_cons_self)
    · exact ih h.2 hmem

theorem isChain_append_singleton {extent next : SpoolExtent} {rest : List SpoolExtent}
    (h : (extent :: rest).IsChain SpoolExtent.lt) (hnext : (rest.getLastD extent).lt next) :
    (extent :: (rest ++ [next])).IsChain SpoolExtent.lt := by
  induction rest generalizing extent with
  | nil => simpa using hnext
  | cons first rest ih =>
    rw [isChain_cons_cons] at h
    rw [getLastD_cons] at hnext
    rw [cons_append, isChain_cons_cons]
    exact ⟨h.1, ih h.2 hnext⟩

namespace LiveSpool

/-- What is erased was part of the sum. -/
theorem sum_eraseIdx {values : List Nat} {index value : Nat} (h : values[index]? = some value) :
    value + (values.eraseIdx index).sum = values.sum := by
  obtain ⟨hindex, rfl⟩ := List.getElem?_eq_some_iff.mp h
  rw [← sum_cons]
  exact (getElem_cons_eraseIdx_perm hindex).sum_eq

/-- A reservation is for the largest frame. -/
theorem reservedFrameBytes_eq_ok {limit : AppendBodyLimit} {requiredBytes : Nat}
    (h : (reservedFrameBytes limit).toOption = some requiredBytes) :
    requiredBytes = limit.get + 196 := by
  unfold reservedFrameBytes checkedAdd at h
  split at h
  · simpa [okOr, Except.toOption, frameOverheadBytes, headerBytes, footerBytes] using h.symm
  · cases h

section Invariant

variable [Chrono]

/-! ## The invariant -/

/-- The accounting agrees with the file. -/
structure Accounted [Blake3] (config : SpoolConfig) (s : LiveSpool) : Prop where
  notFailed : s.failed = false
  file_eq : s.file = framesOf s.frames
  frames_eq : ∃ done, s.frames = done ++ s.written.map (fun append => (append.metadata, append.body)) ∧
    s.committedBytes = (framesOf done).length
  stored : ∀ append ∈ s.written, append.storedBytes = storedLength append.body ∧
    append.storedBytes ≤ append.reservedBytes
  limits : ∀ batch ∈ s.frames, batch.2.length ≤ config.bodyLimit.get
  reservations : ∀ reservedBytes ∈ s.reservations, reservedBytes = config.bodyLimit.get + 196
  reserved_eq : s.reservedBytes =
    s.reservations.sum + (s.written.map fun append => append.reservedBytes).sum
  fits : s.committedBytes + s.reservedBytes < 2 ^ 64
  past : s.pastFrames.length = s.generation

/-- The extents to send lead from the sent one to the accounting. -/
structure Announced [Blake3] (s : LiveSpool) : Prop where
  chain : (s.extent :: s.publications.map (·.extent)).IsChain SpoolExtent.lt
  last : (s.publications.map (·.extent)).getLastD s.extent = ⟨s.generation, s.committedBytes⟩
  ends : ∀ extent ∈ s.extent :: s.publications.map (·.extent), s.IsFrameEnd extent
  current : ∀ publication ∈ s.publications, publication.extent.generation = s.generation
  reclamations : ∀ publication ∈ s.publications, publication.publisher = .reclamation →
    publication.extent.stop = 0

/-- What the follower has seen and returned. -/
structure Seen [Blake3] (s : LiveSpool) : Prop where
  observed : ∀ extent ∈ s.observed, s.IsFrameEnd extent ∧ extent.le s.extent
  forward : s.observed.Pairwise SpoolExtent.le
  reads : ∀ result ∈ s.results, ∃ batch, result = .ok batch

/-- The follower is at a frame it has not passed, and has returned what is checkpointed. -/
structure Followed [Blake3] (config : SpoolConfig) (s : LiveSpool) : Prop where
  following : s.follower.state = .following
  limit : s.follower.bodyLimit = config.bodyLimit
  generation_le : s.follower.generation ≤ s.extent.generation
  le_generation : s.generation ≤ s.follower.generation + 1
  position_le : s.follower.generation = s.extent.generation → s.follower.position ≤ s.extent.stop
  frameEnd : s.IsFrameEnd ⟨s.follower.generation, s.follower.position⟩
  caughtUp : s.follower.generation < s.generation → s.reading = none ∧
    (s.extent.generation = s.follower.generation → s.extent.stop = s.follower.position)
  reading : ∀ position stop, s.reading = some (position, stop) →
    position = s.follower.position ∧ s.follower.generation = s.generation ∧ position < stop ∧
      s.extent.generation = s.generation ∧ stop ≤ s.extent.stop ∧
      s.IsFrameEnd ⟨s.generation, stop⟩
  checkpoint : s.checkpoint ≠ 0 →
    s.follower.generation = s.generation ∧ s.checkpoint ≤ s.follower.position
  returned : ∀ batch ∈ s.returned,
    s.follower.generation = s.generation ∧ batch.range.stop ≤ s.follower.position

/-- A spool that works, in a run in order. -/
structure Working [Blake3] (config : SpoolConfig) (s : LiveSpool) : Prop where
  accounted : s.Accounted config
  announced : s.Announced
  followed : s.Followed config
  seen : s.Seen

/-- A spool whose generation number is used up : nothing is left to do or to read. -/
structure Halted [Blake3] (s : LiveSpool) : Prop where
  failed : s.failed = true
  written : s.written = []
  publications : s.publications = []
  reservations : s.reservations = []
  reading : s.reading = none
  committedBytes : s.committedBytes = 0
  following : s.follower.state = .following
  generation_eq : s.follower.generation = s.extent.generation
  position_eq : s.follower.position = s.extent.stop
  frameEnd : s.IsFrameEnd s.extent
  seen : s.Seen

/-! ## Frame ends -/

section Ends

variable [Blake3] {config : SpoolConfig} {s t : LiveSpool} {extent : SpoolExtent}

/-- Frame ends stay frame ends while the generation only grows. -/
theorem IsFrameEnd.of_prefix (h : s.IsFrameEnd extent) (hgeneration : t.generation = s.generation)
    (hpast : t.pastFrames = s.pastFrames) (hframes : s.frames <+: t.frames) :
    t.IsFrameEnd extent := by
  obtain ⟨front, hfront, hstop⟩ := h
  refine ⟨front, ?_, hstop⟩
  unfold framesAt at *
  rw [hgeneration, hpast]
  by_cases heq : extent.generation = s.generation
  · rw [if_pos heq] at hfront ⊢
    exact hfront.trans hframes
  · rwa [if_neg heq] at hfront ⊢

/-- Frame ends stay frame ends behind a reclamation. -/
theorem IsFrameEnd.of_reclaimed (h : s.IsFrameEnd extent) (hle : extent.generation ≤ s.generation)
    (hpast : s.pastFrames.length = s.generation) (hgeneration : t.generation = s.generation + 1)
    (hpast' : t.pastFrames = s.pastFrames ++ [s.frames]) : t.IsFrameEnd extent := by
  obtain ⟨front, hfront, hstop⟩ := h
  refine ⟨front, ?_, hstop⟩
  unfold framesAt at *
  rw [hgeneration, hpast', if_neg (by omega)]
  rcases Nat.lt_or_eq_of_le hle with hlt | heq
  · rw [if_neg (by omega)] at hfront
    rwa [getElem?_append_left (by omega)]
  · rw [if_pos heq] at hfront
    rw [heq, ← hpast, getElem?_concat_length]
    exact hfront

/-- The start of a generation is a frame end. -/
theorem isFrameEnd_zero (generation : Nat) : s.IsFrameEnd ⟨generation, 0⟩ :=
  ⟨[], nil_prefix, rfl⟩

/-- Two frame ends of this generation, in order, have whole frames between them. -/
theorem exists_frames_between {position stop : Nat} (h : position < stop)
    (hposition : s.IsFrameEnd ⟨s.generation, position⟩) (hstop : s.IsFrameEnd ⟨s.generation, stop⟩) :
    ∃ front metadata body back, s.frames = front ++ (metadata, body) :: back ∧
      position = (framesOf front).length ∧ position + storedLength body ≤ stop := by
  obtain ⟨front, hfront, rfl⟩ := hposition
  obtain ⟨upTo, hupTo, rfl⟩ := hstop
  simp only [framesAt, if_true] at hfront hupTo h
  -- of two beginnings of one list the shorter one is a beginning of the longer one
  rcases prefix_or_prefix_of_prefix hfront hupTo with ⟨between, rfl⟩ | ⟨between, rfl⟩
  · obtain ⟨back, hback⟩ := hupTo
    cases between with
    | nil => simp at h
    | cons head rest =>
      obtain ⟨metadata, body⟩ := head
      refine ⟨front, metadata, body, rest ++ back, ?_, rfl, ?_⟩
      · rw [← hback, append_assoc, cons_append]
      · rw [framesOf_append, length_append, length_framesOf_cons]
        omega
  · rw [framesOf_append, length_append] at h
    omega

end Ends

/-! ## Accounting -/

section Accounting

variable [Blake3] {config : SpoolConfig} {s : LiveSpool}

/-- Written frames fit into their reservations. -/
theorem length_framesOf_written_le {written : List WrittenAppend}
    (h : ∀ append ∈ written, append.storedBytes = storedLength append.body ∧
      append.storedBytes ≤ append.reservedBytes) :
    (framesOf (written.map fun append => (append.metadata, append.body))).length ≤
      (written.map fun append => append.reservedBytes).sum := by
  induction written with
  | nil => simp
  | cons append rest ih =>
    obtain ⟨hfirst, hrest⟩ := forall_mem_cons.mp h
    have := ih hrest
    rw [map_cons, length_framesOf_cons, map_cons, sum_cons]
    omega

/-- The file has room for every reservation that is left. -/
theorem Accounted.length_file_le (h : s.Accounted config) :
    s.file.length + s.reservations.sum ≤ s.committedBytes + s.reservedBytes := by
  obtain ⟨done, hframes, hcommitted⟩ := h.frames_eq
  have := length_framesOf_written_le h.stored
  rw [h.file_eq, hframes, framesOf_append, length_append, hcommitted, h.reserved_eq]
  omega

theorem Accounted.length_file_lt (h : s.Accounted config) : s.file.length < 2 ^ 64 := by
  have := h.length_file_le
  have := h.fits
  omega

/-- A reservation covers a frame within the body limit. -/
theorem Accounted.reservation_eq (h : s.Accounted config) {index reservedBytes : Nat}
    (hreservation : s.reservations[index]? = some reservedBytes) :
    reservedBytes = config.bodyLimit.get + 196 :=
  h.reservations _ (mem_of_getElem? hreservation)

end Accounting

/-! ## Appends -/

section Appends

variable {config : SpoolConfig} {s t : LiveSpool}
variable {index : Nat} {metadata : BatchMetadata} {body : Bytes}

/-- A reservation is taken where the largest frame fits. -/
theorem reserve_eq_some (h : s.reserve config = some t) :
    s.committedBytes + s.reservedBytes + (config.bodyLimit.get + 196) ≤ config.capacity.get ∧
      t = { s with
        reservedBytes := s.reservedBytes + (config.bodyLimit.get + 196)
        reservations := s.reservations ++ [config.bodyLimit.get + 196] } := by
  unfold reserve at h
  split at h
  · cases h
  · obtain ⟨requiredBytes, hrequired, h⟩ := Option.bind_eq_some_iff.mp h
    obtain ⟨occupiedBytes, hoccupied, h⟩ := Option.bind_eq_some_iff.mp h
    obtain rfl := reservedFrameBytes_eq_ok hrequired
    obtain ⟨rfl, -⟩ := checkedAdd_eq_some hoccupied
    split at h
    · obtain ⟨reservedBytes, hreserved, h⟩ := Option.bind_eq_some_iff.mp h
      obtain ⟨rfl, -⟩ := checkedAdd_eq_some hreserved
      obtain rfl := Option.some.inj h
      exact ⟨by omega, rfl⟩
    · cases h

/-- The oldest extent is sent. -/
theorem publish_eq_some (hstep : s.publish 0 = some t) :
    ∃ publication rest, s.publications = publication :: rest ∧
      t = { s with extent := publication.extent, publications := rest } := by
  obtain ⟨publication, hpublication, hstep⟩ := Option.bind_eq_some_iff.mp hstep
  cases hcons : s.publications with
  | nil => simp [hcons] at hpublication
  | cons first rest =>
    obtain rfl : first = publication := by simpa [hcons] using hpublication
    rw [hcons] at hstep
    exact ⟨first, rest, rfl, (Option.some.inj hstep).symm⟩

variable [Blake3]

/-- A reservation changes no frame. -/
theorem working_reserve (h : s.Working config) (hstep : s.reserve config = some t) :
    t.Working config := by
  obtain ⟨hcapacity, rfl⟩ := reserve_eq_some hstep
  have haccounted := h.accounted
  refine ⟨{ haccounted with
    reservations := ?_
    reserved_eq := ?_
    fits := ?_ }, { h.announced with }, { h.followed with }, { h.seen with }⟩
  · exact forall_mem_append.mpr
      ⟨haccounted.reservations, forall_mem_singleton.mpr rfl⟩
  · have := haccounted.reserved_eq
    dsimp only
    rw [sum_append, sum_singleton]
    omega
  · have := config.capacity.lt
    dsimp only
    omega

/-- A reservation is part of the reserved bytes. -/
theorem Accounted.reservation_le (h : s.Accounted config) {reservedBytes : Nat}
    (hreservation : s.reservations[index]? = some reservedBytes) :
    reservedBytes + (s.reservations.eraseIdx index).sum +
      (s.written.map fun append => append.reservedBytes).sum = s.reservedBytes := by
  rw [sum_eraseIdx hreservation, h.reserved_eq]

theorem working_release (h : s.Working config) (hstep : s.release index = some t) :
    t.Working config := by
  have haccounted := h.accounted
  obtain ⟨reservedBytes, hreservation, hstep⟩ := Option.bind_eq_some_iff.mp hstep
  have hreserved := haccounted.reservation_le hreservation
  have hfits := haccounted.fits
  rw [releaseReservation, if_neg (by omega)] at hstep
  obtain rfl := Option.some.inj hstep
  refine ⟨{ haccounted with
    reservations := ?_
    reserved_eq := ?_
    fits := ?_ }, { h.announced with }, { h.followed with }, { h.seen with }⟩
  · intro other hmem
    exact haccounted.reservations _ (mem_of_mem_eraseIdx hmem)
  · dsimp only
    omega
  · dsimp only
    omega

/-- A reserved append within the limit writes its frame. -/
theorem write_eq_some (h : s.Accounted config) (hstep : s.write config index metadata body = some t) :
    ∃ reservedBytes, s.reservations[index]? = some reservedBytes ∧
      body.length ≤ config.bodyLimit.get ∧
      t = { s with
        file := s.file ++ frame metadata body
        reservations := s.reservations.eraseIdx index
        written := s.written ++ [⟨metadata, body, storedLength body, reservedBytes⟩]
        frames := s.frames ++ [(metadata, body)] } := by
  obtain ⟨reservedBytes, hreservation, hstep⟩ := Option.bind_eq_some_iff.mp hstep
  split at hstep
  · cases hstep
  · rename_i hguard
    obtain ⟨-, hlimit⟩ := not_or.mp hguard
    have hsum := sum_eraseIdx hreservation
    have hreserved := h.reservation_eq hreservation
    have hfile := h.length_file_le
    have hfits := h.fits
    have hstored := storedLength_eq body
    dsimp only at hstep
    -- the reservation leaves room for the frame, so its end does not overflow
    rw [writeFrame_eq _ _ body (by omega), checkedAdd_of_lt (by omega), okOr_some, ok_bind,
      SpoolBatchRange.new_of_lt (by omega), ok_bind] at hstep
    exact ⟨reservedBytes, hreservation, by omega, (Option.some.inj hstep).symm⟩

/-- A frame is written behind the others. -/
theorem working_write (h : s.Working config) (hstep : s.write config index metadata body = some t) :
    t.Working config := by
  have haccounted := h.accounted
  have hannounced := h.announced
  have hfollowed := h.followed
  obtain ⟨reservedBytes, hreservation, hlimit, rfl⟩ := write_eq_some haccounted hstep
  have hsum := sum_eraseIdx hreservation
  have hends : ∀ {extent}, s.IsFrameEnd extent → IsFrameEnd { s with
      file := s.file ++ frame metadata body
      reservations := s.reservations.eraseIdx index
      written := s.written ++ [⟨metadata, body, storedLength body, reservedBytes⟩]
      frames := s.frames ++ [(metadata, body)] } extent :=
    fun hend => hend.of_prefix rfl rfl (prefix_append ..)
  refine ⟨{ haccounted with
    file_eq := ?_
    frames_eq := ?_
    stored := ?_
    limits := ?_
    reservations := ?_
    reserved_eq := ?_ }, { hannounced with ends := fun extent hmem => hends (hannounced.ends _ hmem) },
    { hfollowed with
      frameEnd := hends hfollowed.frameEnd
      reading := ?_ }, { h.seen with observed := ?_ }⟩
  · dsimp only
    rw [haccounted.file_eq, framesOf_append, framesOf_cons]
    simp [framesOf]
  · obtain ⟨done, hframes, hcommitted⟩ := haccounted.frames_eq
    refine ⟨done, ?_, hcommitted⟩
    dsimp only
    rw [hframes, map_append, append_assoc]
    rfl
  · have hreserved := haccounted.reservation_eq hreservation
    have hstored := storedLength_eq body
    exact forall_mem_append.mpr
      ⟨haccounted.stored, forall_mem_singleton.mpr ⟨rfl, by dsimp only; omega⟩⟩
  · exact forall_mem_append.mpr ⟨haccounted.limits, forall_mem_singleton.mpr hlimit⟩
  · intro other hmem
    exact haccounted.reservations _ (mem_of_mem_eraseIdx hmem)
  · have := haccounted.reserved_eq
    dsimp only
    rw [map_append, sum_append, map_singleton, sum_singleton]
    dsimp only
    omega
  · intro position stop hreading
    obtain ⟨hposition, hgeneration, hlt, hextent, hle, hend⟩ := hfollowed.reading _ _ hreading
    exact ⟨hposition, hgeneration, hlt, hextent, hle, hends hend⟩
  · intro extent hmem
    obtain ⟨hend, hle⟩ := h.seen.observed _ hmem
    exact ⟨hends hend, hle⟩

/-- The oldest written frame is accounted. -/
theorem commit_eq_some (h : s.Accounted config) (hstep : s.commit 0 = some t) :
    ∃ append rest, s.written = append :: rest ∧
      t = { s with
        committedBytes := s.committedBytes + append.storedBytes
        reservedBytes := s.reservedBytes - append.reservedBytes
        written := rest
        publications :=
          s.publications ++ [⟨.append, ⟨s.generation, s.committedBytes + append.storedBytes⟩⟩] } := by
  obtain ⟨append, hwritten, hstep⟩ := Option.bind_eq_some_iff.mp hstep
  cases hcons : s.written with
  | nil => simp [hcons] at hwritten
  | cons first rest =>
    obtain rfl : first = append := by simpa [hcons] using hwritten
    have hstored := (h.stored first (hcons ▸ mem_cons_self)).2
    have hreserved := h.reserved_eq
    have hfits := h.fits
    rw [hcons, map_cons, sum_cons] at hreserved
    dsimp only at hstep
    rw [if_neg (by omega), checkedAdd_of_lt (by omega), hcons] at hstep
    exact ⟨first, rest, rfl, (Option.some.inj hstep).symm⟩

/-- The frame that was written first is committed first. -/
theorem working_commit (h : s.Working config) (hstep : s.commit 0 = some t) :
    t.Working config := by
  have haccounted := h.accounted
  have hannounced := h.announced
  obtain ⟨append, rest, hwritten, rfl⟩ := commit_eq_some haccounted hstep
  obtain ⟨done, hframes, hcommitted⟩ := haccounted.frames_eq
  obtain ⟨⟨hstored, hle⟩, hrest⟩ := forall_mem_cons.mp (hwritten ▸ haccounted.stored)
  have hreserved := haccounted.reserved_eq
  have hfits := haccounted.fits
  have hpositive := storedLength_eq append.body
  rw [hwritten, map_cons] at hframes
  rw [hwritten, map_cons, sum_cons] at hreserved
  -- the accounted frames are now followed by the oldest one that waited
  have hdone : s.committedBytes + append.storedBytes =
      (framesOf (done ++ [(append.metadata, append.body)])).length := by
    rw [framesOf_append, length_append, length_framesOf_cons, hcommitted, hstored]
    rfl
  refine ⟨{ haccounted with
    frames_eq := ⟨done ++ [(append.metadata, append.body)], ?_, hdone⟩
    stored := hrest
    reserved_eq := ?_
    fits := ?_ }, ⟨?_, ?_, ?_, ?_, ?_⟩, { h.followed with }, { h.seen with }⟩
  · dsimp only
    rw [hframes, append_assoc, singleton_append]
  · dsimp only
    omega
  · dsimp only
    omega
  · dsimp only
    rw [map_append]
    refine isChain_append_singleton hannounced.chain ?_
    rw [hannounced.last]
    exact Or.inr ⟨rfl, by dsimp only; omega⟩
  · dsimp only
    rw [map_append, map_singleton, getLastD_concat]
  · dsimp only
    rw [map_append, ← cons_append]
    refine forall_mem_append.mpr
      ⟨hannounced.ends, forall_mem_singleton.mpr ⟨_, ?_, hdone⟩⟩
    simp [framesAt, hframes]
  · exact forall_mem_append.mpr ⟨hannounced.current, forall_mem_singleton.mpr rfl⟩
  · exact forall_mem_append.mpr
      ⟨hannounced.reclamations, forall_mem_singleton.mpr fun hpublisher => by cases hpublisher⟩

/-- The extents are sent in their order. -/
theorem working_publish (h : s.Working config) (hstep : s.publish 0 = some t) :
    t.Working config := by
  have hannounced := h.announced
  have hfollowed := h.followed
  obtain ⟨publication, rest, hpublications, rfl⟩ := publish_eq_some hstep
  have hchain := hannounced.chain
  have hlast := hannounced.last
  have hends := hannounced.ends
  rw [hpublications, map_cons] at hchain hlast hends
  rw [isChain_cons_cons] at hchain
  obtain ⟨hlt, hchain⟩ := hchain
  have hle := SpoolExtent.le_of_lt hlt
  have hcurrent := hannounced.current publication (hpublications ▸ mem_cons_self)
  have hgeneration := hfollowed.generation_le
  refine ⟨{ h.accounted with }, ⟨hchain, ?_, fun extent hmem => hends _ (mem_cons_of_mem _ hmem),
      fun other hmem => hannounced.current _ (hpublications ▸ mem_cons_of_mem _ hmem),
      fun other hmem => hannounced.reclamations _ (hpublications ▸ mem_cons_of_mem _ hmem)⟩,
    { hfollowed with
      generation_le := ?_
      position_le := ?_
      caughtUp := ?_
      reading := ?_ }, { h.seen with observed := ?_ }⟩
  · rwa [getLastD_cons] at hlast
  · unfold SpoolExtent.le at hle
    dsimp only
    omega
  · intro heq
    have hposition := hfollowed.position_le
    unfold SpoolExtent.le at hle
    dsimp only at heq ⊢
    omega
  · intro hbehind
    refine ⟨(hfollowed.caughtUp hbehind).1, fun heq => ?_⟩
    dsimp only at heq hbehind
    omega
  · intro position stop hreading
    obtain ⟨hposition, hsame, hstop, hextent, hstople, hend⟩ := hfollowed.reading _ _ hreading
    refine ⟨hposition, hsame, hstop, hcurrent, ?_, hend⟩
    unfold SpoolExtent.le at hle
    dsimp only
    omega
  · intro extent hmem
    obtain ⟨hend, hbefore⟩ := h.seen.observed _ hmem
    exact ⟨hend, SpoolExtent.le_trans hbefore hle⟩

end Appends

/-! ## Checkpoints and reclamation -/

section Reclamation

variable [Blake3] {config : SpoolConfig} {s t : LiveSpool}

/-- The sent extent does not go past the accounting. -/
theorem Announced.extent_le (h : s.Announced) :
    s.extent.le ⟨s.generation, s.committedBytes⟩ := by
  rw [← h.last]
  exact le_getLastD_of_isChain h.chain mem_cons_self

/-- Nothing is left to send once the sent extent covers the accounting. -/
theorem Announced.publications_eq_nil (h : s.Announced)
    (hextent : s.extent = ⟨s.generation, s.committedBytes⟩) : s.publications = [] := by
  have hchain := h.chain
  have hlast := h.last
  cases hcons : s.publications with
  | nil => rfl
  | cons publication rest =>
    rw [hcons, map_cons] at hchain hlast
    rw [isChain_cons_cons] at hchain
    rw [getLastD_cons] at hlast
    have hle := le_getLastD_of_isChain hchain.2 mem_cons_self
    have hlt := hchain.1
    rw [hlast] at hle
    rw [hextent] at hlt
    unfold SpoolExtent.le at hle
    unfold SpoolExtent.lt at hlt
    omega

/-- The checkpoint moves within the committed frames. -/
theorem working_advanceCheckpoint {target : Nat} (h : s.Working config)
    (hstep : s.advanceCheckpoint target = some t) : t.Working config := by
  unfold advanceCheckpoint at hstep
  split at hstep
  · cases hstep
  · rename_i hguard
    obtain rfl := Option.some.inj hstep
    refine ⟨{ h.accounted with }, { h.announced with },
      { h.followed with checkpoint := fun _ => ?_ }, { h.seen with }⟩
    simp only [not_or, not_forall] at hguard
    obtain ⟨-, -, batch, hmem, hstop⟩ := hguard
    have hreturned := h.followed.returned batch hmem
    rw [not_ne_iff.mp hstop] at hreturned
    exact hreturned

/-- Without reserved bytes no append is in progress. -/
theorem Accounted.idle (h : s.Accounted config) (hreserved : s.reservedBytes = 0) :
    s.reservations = [] ∧ s.written = [] := by
  have hsum := h.reserved_eq
  constructor
  · refine eq_nil_iff_forall_not_mem.mpr fun reservedBytes hmem => ?_
    have := h.reservations _ hmem
    have := le_sum_of_mem hmem
    omega
  · refine eq_nil_iff_forall_not_mem.mpr fun append hmem => ?_
    obtain ⟨hstored, hle⟩ := h.stored _ hmem
    have := storedLength_eq append.body
    have := le_sum_of_mem (mem_map_of_mem hmem (f := fun append => append.reservedBytes))
    omega

/-- A checkpoint at the accounting was returned by the follower, so it has seen all. -/
theorem Working.seen_all (h : s.Working config) (hcheckpoint : s.checkpoint ≠ 0)
    (heq : s.checkpoint = s.committedBytes) :
    s.extent = ⟨s.generation, s.committedBytes⟩ ∧ s.follower.generation = s.generation ∧
      s.follower.position = s.committedBytes ∧ s.reading = none := by
  obtain ⟨hsame, hposition⟩ := h.followed.checkpoint hcheckpoint
  have hgeneration := h.followed.generation_le
  have hle := h.announced.extent_le
  have hbefore := h.followed.position_le
  unfold SpoolExtent.le at hle
  dsimp only at hle
  have hextent : s.extent.generation = s.generation ∧ s.extent.stop = s.committedBytes := by omega
  refine ⟨by rw [← hextent.1, ← hextent.2], hsame, by omega, ?_⟩
  cases hreading : s.reading with
  | none => rfl
  | some range =>
    obtain ⟨hfirst, -, hlt, -, hstop, -⟩ := h.followed.reading range.1 range.2 hreading
    omega

/-- A reclamation that happens leaves nothing of its generation to send or to read. -/
theorem working_or_halted_reclaimCheckpointed (h : s.Working config)
    (hstep : s.reclaimCheckpointed = some t) : t.Working config ∨ t.Halted := by
  have haccounted := h.accounted
  have hfollowed := h.followed
  unfold reclaimCheckpointed at hstep
  split at hstep
  · cases hstep
  split at hstep
  · obtain rfl := Option.some.inj hstep
    exact Or.inl h
  rename_i hguard
  simp only [not_or, not_ne_iff] at hguard
  obtain ⟨hreserved, hcheckpoint, hall⟩ := hguard
  obtain ⟨hreservations, hwritten⟩ := haccounted.idle hreserved
  obtain ⟨hextent, hsame, hposition, hreading⟩ := h.seen_all hcheckpoint hall
  have hpublications := h.announced.publications_eq_nil hextent
  have hpast := haccounted.past
  dsimp only at hstep
  split at hstep
  · obtain rfl := Option.some.inj hstep
    refine Or.inr ⟨rfl, hwritten, hpublications, hreservations, hreading, rfl, hfollowed.following,
      ?_, ?_, h.announced.ends _ mem_cons_self, { h.seen with }⟩
    · rw [hextent, hsame]
    · rw [hextent, hposition]
  · rename_i generation hgeneration
    obtain ⟨rfl, -⟩ := checkedAdd_eq_some hgeneration
    obtain rfl := Option.some.inj hstep
    refine Or.inl ⟨{ haccounted with
      file_eq := rfl
      frames_eq := ⟨[], ?_, rfl⟩
      limits := ?_
      fits := ?_
      past := ?_ }, ⟨?_, ?_, ?_, ?_, ?_⟩, { hfollowed with
      le_generation := ?_
      frameEnd := ?_
      caughtUp := ?_
      reading := ?_
      checkpoint := ?_
      returned := ?_ }, { h.seen with observed := ?_ }⟩
    · rw [hwritten]
      rfl
    · intro batch hmem
      cases hmem
    · dsimp only
      omega
    · dsimp only
      rw [length_append, hpast]
      rfl
    · dsimp only
      rw [hpublications, hextent]
      refine isChain_pair.mpr (Or.inl ?_)
      exact Nat.lt_succ_self _
    · dsimp only
      rw [map_append, map_singleton, getLastD_concat]
    · intro extent hmem
      rw [hpublications] at hmem
      rcases mem_cons.mp hmem with rfl | hmem
      · exact (h.announced.ends _ mem_cons_self).of_reclaimed (by rw [hextent]) hpast rfl rfl
      · obtain rfl := mem_singleton.mp hmem
        exact isFrameEnd_zero _
    · intro publication hmem
      rw [hpublications] at hmem
      obtain rfl := mem_singleton.mp hmem
      rfl
    · intro publication hmem _
      rw [hpublications] at hmem
      obtain rfl := mem_singleton.mp hmem
      rfl
    · dsimp only
      omega
    · exact hfollowed.frameEnd.of_reclaimed (Nat.le_of_eq hsame) hpast rfl rfl
    · intro _
      refine ⟨hreading, fun _ => ?_⟩
      rw [hextent, hposition]
    · intro position stop hsome
      rw [hreading] at hsome
      cases hsome
    · intro hne
      exact absurd rfl hne
    · intro batch hmem
      cases hmem
    · intro extent hmem
      obtain ⟨hend, hle⟩ := h.seen.observed _ hmem
      refine ⟨hend.of_reclaimed ?_ hpast rfl rfl, hle⟩
      rw [hextent] at hle
      unfold SpoolExtent.le at hle
      dsimp only at hle
      omega

end Reclamation

/-! ## The follower -/

section Follower

variable {config : SpoolConfig} {s t : LiveSpool}

/-- The follower once it has seen the generation of the sent extent. -/
def arrived (s : LiveSpool) : RecoveredBatches :=
  if s.extent.generation ≠ s.follower.generation then
    { s.follower with generation := s.extent.generation, position := 0 }
  else s.follower

theorem arrived_of_eq (h : s.extent.generation = s.follower.generation) :
    s.arrived = s.follower :=
  if_neg (not_not_intro h)

@[simp] theorem generation_arrived : s.arrived.generation = s.extent.generation := by
  unfold arrived
  split
  · rfl
  · exact (not_ne_iff.mp ‹_›).symm

variable [Blake3]

theorem Followed.following_arrived (h : s.Followed config) : s.arrived.state = .following := by
  unfold arrived
  split <;> exact h.following

theorem Followed.limit_arrived (h : s.Followed config) :
    s.arrived.bodyLimit = config.bodyLimit := by
  unfold arrived
  split <;> exact h.limit

theorem Followed.position_arrived_le (h : s.Followed config) :
    s.arrived.position ≤ s.extent.stop := by
  unfold arrived
  split
  · exact Nat.zero_le _
  · exact h.position_le (not_ne_iff.mp ‹_›).symm

/-- The follower is at the end of a frame. -/
theorem Followed.isFrameEnd_arrived (h : s.Followed config) :
    s.IsFrameEnd ⟨s.extent.generation, s.arrived.position⟩ := by
  by_cases heq : s.extent.generation = s.follower.generation
  · rw [arrived_of_eq heq, heq]
    exact h.frameEnd
  · rw [arrived, if_pos heq]
    exact isFrameEnd_zero _

/-- The follower has read the generation it stays in while another one is there. -/
theorem Followed.position_arrived_eq (h : s.Followed config)
    (hbehind : s.extent.generation < s.generation) : s.arrived.position = s.extent.stop := by
  have hle := h.generation_le
  have hnear := h.le_generation
  have heq : s.extent.generation = s.follower.generation := by omega
  rw [arrived_of_eq heq]
  exact ((h.caughtUp (by omega)).2 heq).symm

/-- The follower may read to the end of the sent extent. -/
theorem Followed.readableEnd_eq (h : s.Followed config) :
    s.follower.readableEnd s.extent = (s.arrived, .ok s.extent.stop) := by
  have hle := Nat.not_lt.mpr h.position_arrived_le
  have hfollowing := h.following
  unfold arrived at *
  unfold RecoveredBatches.readableEnd
  generalize s.follower = follower at *
  obtain ⟨position, recoveredEnd, generation, bodyLimit, state⟩ := follower
  cases hfollowing
  exact if_neg hle

/-- A call of `next_batch` up to its read : the follower is at the end of the extent, or it
is before it. -/
theorem observe_eq_some (h : s.Followed config) (hstep : s.observe = some t) :
    s.reading = none ∧
      (s.arrived.position = s.extent.stop ∧
          t = { s with
            follower := s.arrived
            observed := s.observed ++ [s.extent]
            results := s.results ++ [.ok none] } ∨
        s.arrived.position < s.extent.stop ∧
          t = { s with
            follower := s.arrived
            observed := s.observed ++ [s.extent]
            reading := some (s.arrived.position, s.extent.stop) }) := by
  have hle := h.position_arrived_le
  have hfollowing := h.following_arrived
  unfold observe at hstep
  split at hstep
  · cases hstep
  rename_i hguard
  refine ⟨by simpa using (not_or.mp hguard).1, ?_⟩
  rw [RecoveredBatches.beginNext, h.following, h.readableEnd_eq] at hstep
  by_cases heq : s.arrived.position = s.extent.stop
  · simp only [heq, if_true, hfollowing, reduceCtorEq, if_false] at hstep
    exact Or.inl ⟨heq, (Option.some.inj hstep).symm⟩
  · simp only [heq, if_false] at hstep
    exact Or.inr ⟨by omega, (Option.some.inj hstep).symm⟩

/-- What the follower has seen once it sees the sent extent. -/
theorem Seen.observed_extent (h : s.Seen) (hend : s.IsFrameEnd s.extent) :
    ∀ extent ∈ s.observed ++ [s.extent], s.IsFrameEnd extent ∧ extent.le s.extent :=
  forall_mem_append.mpr
    ⟨h.observed, forall_mem_singleton.mpr ⟨hend, SpoolExtent.le_refl _⟩⟩

theorem Seen.forward_extent (h : s.Seen) :
    (s.observed ++ [s.extent]).Pairwise SpoolExtent.le :=
  pairwise_append.mpr ⟨h.forward, pairwise_singleton .., fun extent hmem =>
    forall_mem_singleton.mpr (h.observed extent hmem).2⟩

theorem Seen.reads_ok (h : s.Seen) (batch : Option RecoveredBatch) :
    ∀ result ∈ s.results ++ [.ok batch], ∃ batch, result = .ok batch :=
  forall_mem_append.mpr ⟨h.reads, forall_mem_singleton.mpr ⟨batch, rfl⟩⟩

/-- The follower that has arrived has returned what is checkpointed. -/
theorem Followed.arrived_of_returned (h : s.Followed config) {position : Nat}
    (hextent : s.extent.generation ≤ s.generation)
    (hposition : s.follower.generation = s.generation ∧ position ≤ s.follower.position) :
    s.arrived.generation = s.generation ∧ position ≤ s.arrived.position := by
  have hle := h.generation_le
  have heq : s.extent.generation = s.follower.generation := by omega
  rw [arrived_of_eq heq]
  exact hposition

/-- The follower behind a look at the sent extent. -/
theorem Followed.observe (h : s.Followed config) {observed : List SpoolExtent}
    {results : List (Except SpoolError (Option RecoveredBatch))} {reading : Option (Nat × Nat)}
    (hextent : s.extent.generation ≤ s.generation)
    (hcaughtUp : s.extent.generation < s.generation →
      reading = none ∧ s.extent.stop = s.arrived.position)
    (hreading : ∀ position stop, reading = some (position, stop) →
      position = s.arrived.position ∧ s.arrived.generation = s.generation ∧ position < stop ∧
        s.extent.generation = s.generation ∧ stop ≤ s.extent.stop ∧
        s.IsFrameEnd ⟨s.generation, stop⟩) :
    Followed config { s with follower := s.arrived, observed, results, reading } where
  following := h.following_arrived
  limit := h.limit_arrived
  generation_le := Nat.le_of_eq generation_arrived
  le_generation := by
    have := h.generation_le
    have := h.le_generation
    rw [generation_arrived]
    dsimp only
    omega
  position_le _ := h.position_arrived_le
  frameEnd := by
    rw [generation_arrived]
    exact h.isFrameEnd_arrived
  caughtUp hbehind := by
    rw [generation_arrived] at hbehind
    exact (hcaughtUp hbehind).imp_right fun heq _ => heq
  reading := hreading
  checkpoint hne := h.arrived_of_returned hextent (h.checkpoint hne)
  returned batch hmem := h.arrived_of_returned hextent (h.returned _ hmem)

theorem working_observe (h : s.Working config) (hstep : s.observe = some t) :
    t.Working config := by
  have hend := h.announced.ends _ mem_cons_self
  have hseen := h.seen.observed_extent hend
  have hforward := h.seen.forward_extent
  have hextent : s.extent.generation ≤ s.generation := by
    have := h.announced.extent_le
    unfold SpoolExtent.le at this
    dsimp only at this
    omega
  obtain ⟨hreading, ⟨heq, rfl⟩ | ⟨hlt, rfl⟩⟩ := observe_eq_some h.followed hstep
  · exact ⟨{ h.accounted with }, { h.announced with },
      h.followed.observe hextent (fun _ => ⟨hreading, heq.symm⟩) (by simp [hreading]),
      ⟨hseen, hforward, h.seen.reads_ok none⟩⟩
  · -- there is something to read, so the extent is one of this generation
    have hsame : s.extent.generation = s.generation := by
      by_contra hne
      have := h.followed.position_arrived_eq (by omega)
      omega
    refine ⟨{ h.accounted with }, { h.announced with }, h.followed.observe hextent
      (fun hbehind => absurd hsame (Nat.ne_of_lt hbehind)) ?_, ⟨hseen, hforward, h.seen.reads⟩⟩
    intro position stop hsome
    cases hsome
    exact ⟨rfl, generation_arrived.trans hsame, hlt, hsame, Nat.le_refl _, hsame ▸ hend⟩

/-- The read finds a whole frame. -/
theorem read_eq_some (h : s.Working config) (hstep : s.read = some t) :
    ∃ stop front metadata body back,
      s.reading = some (s.follower.position, stop) ∧
      s.frames = front ++ (metadata, body) :: back ∧
      s.follower.position = (framesOf front).length ∧
      s.follower.position + storedLength body ≤ stop ∧
      t = { s with
        follower := { s.follower with position := s.follower.position + storedLength body }
        reading := none
        returned := s.returned ++ [batchAt s.follower.position metadata body]
        results := s.results ++ [.ok (some (batchAt s.follower.position metadata body))] } := by
  have hfile := h.accounted.length_file_lt
  obtain ⟨⟨position, stop⟩, hreading, hstep⟩ := Option.bind_eq_some_iff.mp hstep
  obtain ⟨rfl, hsame, hlt, -, -, hend⟩ := h.followed.reading _ _ hreading
  obtain ⟨front, metadata, body, back, hframes, hposition, hle⟩ :=
    exists_frames_between hlt (hsame ▸ h.followed.frameEnd) hend
  have hlimit : body.length ≤ config.bodyLimit.get :=
    h.accounted.limits (metadata, body) (hframes ▸ mem_append_right _ mem_cons_self)
  rw [h.accounted.file_eq, hframes, framesOf_append, framesOf_cons, length_append,
    length_append, length_frame] at hfile
  have hread : readRecoveredBatch s.file s.follower.position stop s.follower.bodyLimit =
      .ok (batchAt s.follower.position metadata body,
        s.follower.position + storedLength body) := by
    rw [hposition] at hle ⊢
    rw [h.accounted.file_eq, hframes, framesOf_append, framesOf_cons, h.followed.limit]
    exact readRecoveredBatch_whole (by omega) hlimit hle
  refine ⟨stop, front, metadata, body, back, hreading, hframes, hposition, hle, ?_⟩
  dsimp only at hstep
  rw [hread] at hstep
  exact (Option.some.inj hstep).symm

/-- A read gives the next batch. -/
theorem working_read (h : s.Working config) (hstep : s.read = some t) : t.Working config := by
  have hfollowed := h.followed
  obtain ⟨stop, front, metadata, body, back, hreading, hframes, hposition, hle, rfl⟩ :=
    read_eq_some h hstep
  obtain ⟨-, hsame, -, hextent, hstop, -⟩ := hfollowed.reading _ _ hreading
  refine ⟨{ h.accounted with }, { h.announced with }, { hfollowed with
    position_le := ?_
    frameEnd := ?_
    caughtUp := ?_
    reading := ?_
    checkpoint := ?_
    returned := ?_ }, { h.seen with reads := h.seen.reads_ok _ }⟩
  · intro _
    dsimp only
    omega
  · refine ⟨front ++ [(metadata, body)], ?_, ?_⟩
    · simp [framesAt, hsame, hframes]
    · dsimp only
      rw [framesOf_append, length_append, length_framesOf_cons, hposition]
      rfl
  · intro hbehind
    dsimp only at hbehind
    omega
  · intro first last hsome
    cases hsome
  · intro hne
    have := (hfollowed.checkpoint hne).2
    refine ⟨hsame, ?_⟩
    dsimp only
    omega
  · refine forall_mem_append.mpr ⟨fun batch hmem => ?_,
      forall_mem_singleton.mpr ⟨hsame, Nat.le_refl _⟩⟩
    have := (hfollowed.returned _ hmem).2
    exact ⟨hsame, by dsimp only; omega⟩

end Follower

/-! ## Runs -/

section Runs

variable [Blake3] {config : SpoolConfig} {s t : LiveSpool} {label : Label}

/-- A halted spool only answers its follower. -/
theorem halted_step (h : s.Halted) (hstep : s.step config label = some t) : t.Halted := by
  cases label with
  | reserve => simp [step, reserve, h.failed] at hstep
  | release index => simp [step, release, h.reservations] at hstep
  | write index metadata body => simp [step, write, h.reservations] at hstep
  | commit index => simp [step, commit, h.written] at hstep
  | publish index => simp [step, publish, h.publications] at hstep
  | advanceCheckpoint target => simp [step, advanceCheckpoint, h.failed] at hstep
  | reclaimCheckpointed => simp [step, reclaimCheckpointed, h.failed] at hstep
  | read => simp [step, read, h.reading] at hstep
  | observe =>
    have hnext : s.follower.beginNext s.extent = (s.follower, .done (.ok none)) := by
      simp [RecoveredBatches.beginNext, RecoveredBatches.readableEnd, h.following,
        h.generation_eq, h.position_eq]
    simp only [step, observe, h.reading, h.following, hnext, Option.isSome_none,
      Bool.false_eq_true, ne_eq, not_true_eq_false, or_self, if_false, Option.some.injEq] at hstep
    subst hstep
    exact { h with
      reading := rfl
      seen := ⟨h.seen.observed_extent h.frameEnd, h.seen.forward_extent, h.seen.reads_ok none⟩ }

/-- Every step in order keeps the invariant. -/
theorem working_or_halted_step (h : s.Working config ∨ s.Halted) (horder : s.InOrder label)
    (hstep : s.step config label = some t) : t.Working config ∨ t.Halted := by
  rcases h with h | h
  · cases label with
    | reserve => exact Or.inl (working_reserve h hstep)
    | release index => exact Or.inl (working_release h hstep)
    | write index metadata body => exact Or.inl (working_write h hstep)
    | commit index =>
      obtain rfl : index = 0 := horder
      exact Or.inl (working_commit h hstep)
    | publish index =>
      obtain rfl : index = 0 := horder
      exact Or.inl (working_publish h hstep)
    | advanceCheckpoint target => exact Or.inl (working_advanceCheckpoint h hstep)
    | reclaimCheckpointed => exact working_or_halted_reclaimCheckpointed h hstep
    | observe => exact Or.inl (working_observe h hstep)
    | read => exact Or.inl (working_read h hstep)
  · exact Or.inr (halted_step h hstep)

/-- The spool that recovery opens works. -/
theorem working_initial {frames : List (BatchMetadata × Bytes)} {checkpoint : Nat}
    (hlimit : ∀ batch ∈ frames, batch.2.length ≤ config.bodyLimit.get)
    (hlt : (framesOf frames).length < 2 ^ 64) (hcheckpoint : checkpoint ≤ (framesOf frames).length) :
    (initial config frames checkpoint).Working config where
  accounted :=
    { notFailed := rfl
      file_eq := rfl
      frames_eq := ⟨frames, (append_nil _).symm, rfl⟩
      stored := by intro append hmem; cases hmem
      limits := hlimit
      reservations := by intro reservedBytes hmem; cases hmem
      reserved_eq := rfl
      fits := hlt
      past := rfl }
  announced :=
    { chain := isChain_singleton _
      last := rfl
      ends := by
        intro extent hmem
        obtain rfl := mem_singleton.mp hmem
        exact ⟨frames, prefix_rfl, rfl⟩
      current := by intro publication hmem; cases hmem
      reclamations := by intro publication hmem; cases hmem }
  followed :=
    { following := rfl
      limit := rfl
      generation_le := Nat.le_refl _
      le_generation := Nat.zero_le _
      position_le := fun _ => Nat.le_refl _
      frameEnd := ⟨frames, prefix_rfl, rfl⟩
      caughtUp := fun hbehind => absurd hbehind (Nat.lt_irrefl _)
      reading := by intro position stop hsome; cases hsome
      checkpoint := fun _ => ⟨rfl, hcheckpoint⟩
      returned := fun batch hmem => ⟨rfl, by
        have := stop_le_of_mem_batchesAt hmem
        rwa [Nat.zero_add] at this⟩ }
  seen :=
    { observed := by intro extent hmem; cases hmem
      forward := List.Pairwise.nil
      reads := by intro result hmem; cases hmem }

/-- A spool that works and whose appends have returned has sent what it accounted. -/
theorem Announced.covered (h : s.Announced) (hreturned : s.AppendsReturned) :
    s.committedBytes ≤ s.coveredBytes := by
  obtain ⟨-, hreclamations⟩ := hreturned
  have hlast := h.last
  rcases eq_nil_or_concat s.publications with hnil | ⟨front, publication, hconcat⟩
  · rw [hnil] at hlast
    have hextent : s.extent = ⟨s.generation, s.committedBytes⟩ := hlast
    simp [coveredBytes, hextent]
  · -- the last extent is that of a reclamation, behind which nothing is accounted
    rw [concat_eq_append] at hconcat
    have hmem : publication ∈ s.publications := hconcat ▸ mem_append_right _ mem_cons_self
    have hstop := h.reclamations _ hmem (hreclamations _ hmem)
    rw [hconcat, map_append, map_singleton, getLastD_concat] at hlast
    rw [hlast] at hstop
    dsimp only at hstop
    omega

/-- A spool that works is safe. -/
theorem Working.safe (h : s.Working config) : s.Safe where
  frameEnd extent hmem := (h.seen.observed extent hmem).1
  forward := h.seen.forward
  covered := h.announced.covered
  reads := h.seen.reads

/-- So is one that has stopped. -/
theorem Halted.safe (h : s.Halted) : s.Safe where
  frameEnd extent hmem := (h.seen.observed extent hmem).1
  forward := h.seen.forward
  covered _ := h.committedBytes ▸ Nat.zero_le _
  reads := h.seen.reads

/-- Behind every run that accounts frames and sends extents oldest first, from any spool
that recovery opens, the follower has what it relies on. -/
theorem safe_of_inOrder {frames : List (BatchMetadata × Bytes)} {checkpoint : Nat}
    {labels : List Label} (hlimit : ∀ batch ∈ frames, batch.2.length ≤ config.bodyLimit.get)
    (hlt : (framesOf frames).length < 2 ^ 64) (hcheckpoint : checkpoint ≤ (framesOf frames).length)
    (hrun : Transition.run (step config) (initial config frames checkpoint) labels = some s)
    (horder : Transition.Follows (step config) InOrder (initial config frames checkpoint) labels) :
    s.Safe := by
  have hinvariant : s.Working config ∨ s.Halted :=
    Transition.invariant_of_follows (fun s => s.Working config ∨ s.Halted)
      working_or_halted_step (Or.inl (working_initial hlimit hlt hcheckpoint)) hrun horder
  rcases hinvariant with h | h
  · exact h.safe
  · exact h.safe

end Runs

end Invariant

/-- The two appends of `overtaking`, in order. -/
def inTurn : List (@Label Chrono.unbounded) :=
  letI := Chrono.unbounded
  [.reserve, .reserve, .write 0 (BatchMetadata.sample 5) [7], .write 0 (BatchMetadata.sample 6) [],
    .commit 0, .commit 0, .publish 0, .observe, .read, .publish 0, .observe, .read,
    .advanceCheckpoint 393, .reclaimCheckpointed, .observe]

theorem isSome_inTurn :
    letI := Chrono.unbounded
    letI := Blake3.constant
    (Transition.run (step overtakenConfig) (initial overtakenConfig [] 0) inTurn).isSome := by
  decide +kernel

theorem safe_of_inOrder_inTurn :
    letI := Chrono.unbounded
    letI := Blake3.constant
    ∃ s, Transition.run (step overtakenConfig) (initial overtakenConfig [] 0) inTurn = some s ∧
      s.Safe := by
  let _ := Chrono.unbounded
  let _ := Blake3.constant
  obtain ⟨s, hs⟩ := Option.isSome_iff_exists.mp isSome_inTurn
  refine ⟨s, hs, safe_of_inOrder ?_ ?_ (Nat.zero_le _) hs (Transition.follows_of_forall ?_)⟩
  · intro batch hmem
    cases hmem
  · decide
  · intro s label hmem
    simp only [inTurn, mem_cons, not_mem_nil, or_false] at hmem
    rcases hmem with rfl | rfl | rfl | rfl | rfl | rfl | rfl | rfl | rfl | rfl | rfl | rfl | rfl |
      rfl | rfl <;> simp only [InOrder]

end LiveSpool

end Elucid
