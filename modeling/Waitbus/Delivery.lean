import Waitbus.DaemonSteps

/-! The order and the completeness of what a subscriber is handed. Rows reach it from the bounded
replay, from the pre-ack buffer and live; the watermark and the snapshot keep the three apart. -/

namespace Waitbus.Delivery
open Python FrameCodec EventStore RowFrame TxQueue Runs OrderedLog Daemon

/-- The seqs of the event frames among `blobs`; control frames have none. -/
def seqs (blobs : List Blob) : List Nat :=
  blobs.filterMap fun blob => blob.row.map (·.seq)

@[simp] theorem seqs_append (a b : List Blob) : seqs (a ++ b) = seqs a ++ seqs b :=
  List.filterMap_append

/-- The frame of `row` is among `blobs`. -/
def Holds (R : Runtime) (blobs : List Blob) (row : Row) : Prop :=
  ∃ blob ∈ blobs, blob.row = some row ∧ rowBlob R row = .ok blob.bytes

theorem Holds.mono {R : Runtime} {blobs blobs' : List Blob} {row : Row}
    (h : Holds R blobs row) (hs : blobs ⊆ blobs') : Holds R blobs' row := by
  obtain ⟨blob, hblob, hrow⟩ := h
  exact ⟨blob, hs hblob, hrow⟩

section Loops

variable {R : Runtime}

theorem drainBuffer_spec (blobs : List Blob) (sub : Subscriber) :
    SameEnvelope sub (drainBuffer blobs sub).2 ∧ ∃ kept, kept.Sublist blobs ∧
      (drainBuffer blobs sub).2.handed = sub.handed ++ kept ∧
      ((drainBuffer blobs sub).1 = true → kept = blobs) := by
  induction blobs generalizing sub with
  | nil => exact ⟨.refl sub, [], List.Sublist.refl _, by simp [drainBuffer], fun _ => rfl⟩
  | cons blob rest ih =>
    have hstep := enqueue_enqueued sub blob true
    simp only [drainBuffer]
    rcases hstep.outcome with ⟨hhanded, -⟩ | ⟨hhanded, -, -, hlag, -⟩
    · split
      · exact ⟨hstep.envelope, [blob], by simp, hhanded, fun h => (by cases h)⟩
      · obtain ⟨henv, kept, hsub, hkept, hall⟩ := ih (sub.enqueue blob true).2
        refine ⟨hstep.envelope.trans henv, blob :: kept, hsub.cons_cons _, ?_,
          fun h => by rw [hall h]⟩
        rw [hkept, hhanded, List.append_assoc, List.singleton_append]
    · rw [if_pos (le_of_eq hlag.symm)]
      exact ⟨hstep.envelope, [], by simp, by simp [hhanded], fun h => (by cases h)⟩

theorem replayRows_spec (rows : List Row) (sub : Subscriber) :
    SameEnvelope sub (replayRows R rows sub).2 ∧ ∃ kept : List Blob,
      (replayRows R rows sub).2.handed = sub.handed ++ kept ∧
      (seqs kept).Sublist (rows.map (·.seq)) ∧
      (∀ sub', replayRows R rows sub = (.alive, sub') → ∀ row ∈ rows,
        sub.matches row.owner row.repo row.eventType → Holds R kept row) := by
  induction rows generalizing sub with
  | nil => exact ⟨.refl sub, [], by simp [replayRows], by simp [seqs], by simp⟩
  | cons row rest ih =>
    simp only [replayRows]
    split
    · rename_i hno
      obtain ⟨henv, kept, hkept, hseqs, halive⟩ := ih sub
      refine ⟨henv, kept, hkept, hseqs.trans (List.sublist_cons_self _ _), fun sub' h r hr hm => ?_⟩
      rcases List.mem_cons.mp hr with rfl | hr
      · simp [hm] at hno
      · exact halive sub' h r hr hm
    · split
      · exact ⟨.refl sub, [], by simp, by simp [seqs], fun _ h => (by cases h)⟩
      · rename_i bytes hblob
        have hstep := enqueue_enqueued sub ⟨bytes, some row⟩ true
        rcases hstep.outcome with ⟨hhanded, -⟩ | ⟨hhanded, -, -, hlag, -⟩
        · split
          · exact ⟨hstep.envelope, [⟨bytes, some row⟩], hhanded, by simp [seqs],
              fun _ h => (by cases h)⟩
          · obtain ⟨henv, kept, hkept, hseqs, halive⟩ := ih (sub.enqueue ⟨bytes, some row⟩ true).2
            refine ⟨hstep.envelope.trans henv, ⟨bytes, some row⟩ :: kept, ?_, ?_, ?_⟩
            · rw [hkept, hhanded, List.append_assoc, List.singleton_append]
            · simpa [seqs] using hseqs
            · intro sub' h r hr hm
              rcases List.mem_cons.mp hr with rfl | hr
              · exact ⟨_, List.mem_cons_self, rfl, hblob⟩
              · rw [← hstep.envelope.matches_eq] at hm
                exact (halive sub' h r hr hm).mono (List.subset_cons_self _ _)
        · rw [if_pos (le_of_eq hlag.symm)]
          exact ⟨hstep.envelope, [], by simp [hhanded], by simp [seqs], fun _ h => (by cases h)⟩

theorem offer_cases (row : Row) (blob : Blob) (sub : Subscriber) :
    (((sub.matches row.owner row.repo row.eventType = false ∨
        ∃ w, sub.replayWatermark = some w ∧ row.seq ≤ w)) ∧
      offer row blob sub = (false, sub)) ∨
    (sub.matches row.owner row.repo row.eventType = true ∧
      (∀ w, sub.replayWatermark = some w → w < row.seq) ∧
      ((∃ buffer, sub.preAckBuffer = some buffer ∧
        ((buffer.length ≥ preAckBufferFrames ∨
            sub.preAckBufferedBytes + blob.bytes.length > preAckBufferBytes) ∧
          offer row blob sub = (true, { sub with replayWatermark := none }) ∨
        offer row blob sub = (false, { sub with
          replayWatermark := none, preAckBuffer := some (buffer ++ [blob])
          preAckBufferedBytes := sub.preAckBufferedBytes + blob.bytes.length }))) ∨
      (sub.preAckBuffer = none ∧
        offer row blob sub =
          (decide (({ sub with replayWatermark := none }.enqueue blob true).2.lagCount ≥ lagLimit),
            ({ sub with replayWatermark := none }.enqueue blob true).2)))) := by
  simp only [offer]
  split
  · rename_i hno
    exact .inl ⟨.inl (by simpa using hno), rfl⟩
  rename_i hmatch
  have hmatch : sub.matches row.owner row.repo row.eventType = true := by simpa using hmatch
  split
  · rename_i hwm
    refine .inl ⟨.inr ?_, rfl⟩
    cases hw : sub.replayWatermark with
    | none => simp [hw] at hwm
    | some w => exact ⟨w, rfl, by simpa [hw] using hwm⟩
  rename_i hwm
  have hwm : ∀ w, sub.replayWatermark = some w → w < row.seq := by
    intro w hw
    simpa [hw] using hwm
  refine .inr ⟨hmatch, hwm, ?_⟩
  split
  · rename_i buffer hbuffer
    refine .inl ⟨buffer, hbuffer, ?_⟩
    split
    · rename_i hfull
      exact .inl ⟨hfull, rfl⟩
    · exact .inr rfl
  · rename_i hbuffer
    exact .inr ⟨hbuffer, rfl⟩

theorem offer_frame (row : Row) (blob : Blob) (sub : Subscriber) :
    (offer row blob sub).2.matches = sub.matches ∧
      sub.handed ⊆ (offer row blob sub).2.handed ∧
      sub.preAckBuffer.getD [] ⊆ (offer row blob sub).2.preAckBuffer.getD [] ∧
      (sub.preAckBuffer = none → (offer row blob sub).2.preAckBuffer = none) := by
  rcases offer_cases row blob sub with
    ⟨-, heq⟩ | ⟨-, -, ⟨buffered, hbuffer, ⟨-, heq⟩ | heq⟩ | ⟨hbuffer, heq⟩⟩ <;> rw [heq]
  · exact ⟨rfl, List.Subset.refl _, List.Subset.refl _, id⟩
  · exact ⟨rfl, List.Subset.refl _, List.Subset.refl _, id⟩
  · refine ⟨rfl, List.Subset.refl _, ?_, fun h => absurd (hbuffer.symm.trans h) (by simp)⟩
    rw [hbuffer]
    exact List.subset_append_left _ _
  · have hstep := enqueue_enqueued { sub with replayWatermark := none } blob true
    refine ⟨hstep.envelope.matches_eq, ?_, ?_, fun _ => hstep.envelope.preAckBuffer.trans hbuffer⟩
    · rcases hstep.outcome with ⟨hhanded, -⟩ | ⟨hhanded, -⟩ <;> rw [hhanded]
      · exact List.subset_append_left _ _
      · exact List.Subset.refl _
    · rw [hstep.envelope.preAckBuffer]
      exact List.Subset.refl _

theorem offer_takes {row : Row} {blob : Blob} {sub : Subscriber}
    (hkeep : (offer row blob sub).1 = false)
    (hmatch : sub.matches row.owner row.repo row.eventType = true)
    (hw : ∀ w, sub.replayWatermark = some w → w < row.seq) :
    blob ∈ (offer row blob sub).2.handed ++ (offer row blob sub).2.preAckBuffer.getD [] := by
  rcases offer_cases row blob sub with
    ⟨hno | ⟨w, hwm, hle⟩, -⟩ | ⟨-, -, ⟨buffered, hbuffer, ⟨-, heq⟩ | heq⟩ | ⟨hbuffer, heq⟩⟩
  · rw [hno] at hmatch
    cases hmatch
  · exact absurd (hw w hwm) (not_lt.mpr hle)
  · rw [heq] at hkeep
    cases hkeep
  · rw [heq]
    simp
  · rw [heq] at hkeep ⊢
    have hstep := enqueue_enqueued { sub with replayWatermark := none } blob true
    rcases hstep.outcome with ⟨hhanded, -⟩ | ⟨-, -, -, hlag, -⟩
    · simp [hhanded]
    · simp [hlag] at hkeep

end Loops

section Ordered

def Awaiting : Task → Prop
  | .ackPending _ _ | .ackDone => True
  | _ => False

def buffer (c : Conn) : List Blob :=
  c.sub.preAckBuffer.getD []

/-- What keeps the rows handed to one connection in order: the buffer is above the snapshot that
bounds the replay, and everything so far is below whatever the cursor and the watermark let
through next. -/
structure Ordered (cursor : Nat) (c : Conn) : Prop where
  sorted : (seqs c.sub.handed ++ seqs (buffer c)).Pairwise (· < ·)
  aboveSnapshot : ∀ s ∈ seqs (buffer c), ∀ u ∈ c.untilSeq, u < s
  bounded : ∀ s ∈ seqs c.sub.handed ++ seqs (buffer c),
    s ≤ cursor ∨ ∃ w ∈ c.sub.replayWatermark, s ≤ w
  watermark : ∀ w ∈ c.sub.replayWatermark, c.untilSeq = some w
  cleared : c.sub.replayWatermark = none → ∀ u ∈ c.untilSeq, u ≤ cursor
  awaiting : Awaiting c.task → seqs c.sub.handed = [] ∧ c.sub.preAckBuffer ≠ none
  snapshot : Awaiting c.task ∨ c.task = .served → c.since.isSome → c.untilSeq.isSome

/-- A step of a connection that hands it no event frame and takes it no further. -/
structure SameEvents (c c' : Conn) : Prop where
  handed : ∃ control, c'.sub.handed = c.sub.handed ++ control ∧ seqs control = []
  matches_eq : c'.sub.matches = c.sub.matches
  preAckBuffer : c'.sub.preAckBuffer = c.sub.preAckBuffer
  replayWatermark : c'.sub.replayWatermark = c.sub.replayWatermark
  untilSeq : c'.untilSeq = c.untilSeq
  since : c'.since = c.since
  joinedAt : c'.joinedAt = c.joinedAt
  caughtUpAt : c'.caughtUpAt = c.caughtUpAt
  awaiting : Awaiting c'.task → Awaiting c.task
  served : c'.task = .served ↔ c.task = .served
  registered : c'.registered = true → c.registered = true

variable {R : Runtime} {c c' : Conn} {cursor : Nat}

theorem SameEvents.seqs_handed (h : SameEvents c c') :
    seqs c'.sub.handed = seqs c.sub.handed := by
  obtain ⟨control, hhanded, hcontrol⟩ := h.handed
  rw [hhanded, seqs_append, hcontrol, List.append_nil]

theorem SameEvents.buffer_eq (h : SameEvents c c') : buffer c' = buffer c := by
  rw [buffer, buffer, h.preAckBuffer]

theorem Ordered.same (h : Ordered cursor c) (hs : SameEvents c c') : Ordered cursor c' where
  sorted := by
    rw [hs.seqs_handed, hs.buffer_eq]
    exact h.sorted
  aboveSnapshot := by
    rw [hs.buffer_eq, hs.untilSeq]
    exact h.aboveSnapshot
  bounded := by
    rw [hs.seqs_handed, hs.buffer_eq, hs.replayWatermark]
    exact h.bounded
  watermark := by
    rw [hs.replayWatermark, hs.untilSeq]
    exact h.watermark
  cleared := by
    rw [hs.replayWatermark, hs.untilSeq]
    exact h.cleared
  awaiting ha := by
    rw [hs.seqs_handed, hs.preAckBuffer]
    exact h.awaiting (hs.awaiting ha)
  snapshot ha := by
    rw [hs.since, hs.untilSeq]
    exact h.snapshot (ha.imp hs.awaiting hs.served.mp)

theorem sameEvents_sock (c : Conn) (sock : Sock) (task : Task)
    (ha : Awaiting task → Awaiting c.task) (hsv : task = .served ↔ c.task = .served) :
    SameEvents c { c with sub := { c.sub with sock }, task } :=
  ⟨⟨[], by simp, rfl⟩, rfl, rfl, rfl, rfl, rfl, rfl, rfl, ha, hsv, id⟩

theorem evict_same (reason : CloseReason) (c : Conn) : SameEvents c (c.evict R reason) := by
  obtain ⟨sock, draining, heq, -⟩ := close_eq c.sub (terminalRejectFrame R reason)
  rw [Conn.evict, heq]
  exact ⟨⟨[], by simp, rfl⟩, rfl, rfl, rfl, rfl, rfl, rfl, rfl, id, Iff.rfl, fun h => (by cases h)⟩

theorem SameEvents.refl (c : Conn) : SameEvents c c :=
  ⟨⟨[], by simp, rfl⟩, rfl, rfl, rfl, rfl, rfl, rfl, rfl, id, Iff.rfl, id⟩

theorem settle_same (close : Option CloseReason) (c : Conn) : SameEvents c (c.settle R close) := by
  cases close with
  | none => exact .refl c
  | some reason =>
    simp only [Conn.settle]
    split
    · exact evict_same reason c
    · exact .refl c

theorem SameEvents.trans {c'' : Conn} (h : SameEvents c c') (h' : SameEvents c' c'') :
    SameEvents c c'' := by
  obtain ⟨control, hhanded, hcontrol⟩ := h.handed
  obtain ⟨control', hhanded', hcontrol'⟩ := h'.handed
  refine ⟨⟨control ++ control', by rw [hhanded', hhanded, List.append_assoc], ?_⟩,
    h'.matches_eq.trans h.matches_eq, h'.preAckBuffer.trans h.preAckBuffer,
    h'.replayWatermark.trans h.replayWatermark, h'.untilSeq.trans h.untilSeq,
    h'.since.trans h.since, h'.joinedAt.trans h.joinedAt, h'.caughtUpAt.trans h.caughtUpAt,
    fun ha => h.awaiting (h'.awaiting ha),
    h'.served.trans h.served, fun hr => h.registered (h'.registered hr)⟩
  rw [seqs_append, hcontrol, hcontrol', List.append_nil]

theorem beat_same (bytes : Bytes) (c : Conn) :
    SameEvents c (c.sendEach R .heartbeatLag (beat ⟨bytes, none⟩)) := by
  have hstep := enqueue_enqueued c.sub ⟨bytes, none⟩ false
  have hsent : SameEvents c { c with sub := (beat ⟨bytes, none⟩ c.sub).2 } := by
    refine ⟨?_, hstep.envelope.matches_eq, hstep.envelope.preAckBuffer,
      hstep.envelope.replayWatermark, rfl, rfl, rfl, rfl, id, Iff.rfl, id⟩
    rcases hstep.outcome with ⟨hhanded, -⟩ | ⟨hhanded, -⟩
    · exact ⟨[⟨bytes, none⟩], hhanded, rfl⟩
    · exact ⟨[], by simpa [beat] using hhanded, rfl⟩
  simp only [Conn.sendEach]
  split
  · split
    · exact hsent.trans (evict_same _ _)
    · exact hsent
  · exact .refl c

theorem ackSend_same (h : c.ackSend = some c') : SameEvents c c' := by
  obtain ⟨started, rest, sent, left, htask, hattempt⟩ := ackSend_cases h
  rw [hattempt.frame]
  refine sameEvents_sock c _ _ (fun _ => by rw [htask]; exact trivial) ?_
  rcases hattempt.outcome with ⟨htask', -⟩ | ⟨htask', -⟩ | ⟨htask', -⟩ <;> simp [htask, htask']

theorem ackTimeout_same (h : c.ackTimeout = some c') : SameEvents c c' := by
  obtain ⟨⟨started, rest, htask⟩, rfl⟩ := ackTimeout_cases h
  exact sameEvents_sock c _ _ (fun h => h.elim) (by simp [htask])

theorem cancel_same (c : Conn) : SameEvents c c.cancel := by
  unfold Conn.cancel
  split <;> rename_i htask
  · exact sameEvents_sock c _ _ (fun h => h.elim) (by simp [htask])
  · exact sameEvents_sock c c.sub.sock _ (fun h => h.elim) (by simp [htask])
  · exact sameEvents_sock c c.sub.sock _ (fun h => h.elim) (by simp [htask])
  · exact .refl c

theorem writable_same (h : c.writable = some c') : SameEvents c c' := by
  obtain ⟨-, rfl⟩ := writable_cases h
  have hstep := drain_drained c.sub
  exact ⟨⟨[], by simpa using hstep.handed, rfl⟩, hstep.envelope.matches_eq,
    hstep.envelope.preAckBuffer, hstep.envelope.replayWatermark, rfl, rfl, rfl,
    rfl, id, Iff.rfl, id⟩

theorem Ordered.skip (h : Ordered cursor c) {next : Nat} (hle : cursor ≤ next) :
    Ordered next c where
  sorted := h.sorted
  aboveSnapshot := h.aboveSnapshot
  bounded s hs := (h.bounded s hs).imp (fun hs => hs.trans hle) id
  watermark := h.watermark
  cleared hw u hu := (h.cleared hw u hu).trans hle
  awaiting := h.awaiting
  snapshot := h.snapshot

theorem Ordered.below (h : Ordered cursor c) {seq : Nat} (hnext : cursor < seq)
    (hw : ∀ w, c.sub.replayWatermark = some w → w < seq) :
    (∀ s ∈ seqs c.sub.handed ++ seqs (buffer c), s < seq) ∧ ∀ u ∈ c.untilSeq, u < seq := by
  constructor
  · intro s hs
    rcases h.bounded s hs with hle | ⟨w, hwm, hle⟩
    · exact lt_of_le_of_lt hle hnext
    · exact lt_of_le_of_lt hle (hw w hwm)
  · intro u hu
    cases hwm : c.sub.replayWatermark with
    | none => exact lt_of_le_of_lt (h.cleared hwm u hu) hnext
    | some w =>
      have hwu : c.untilSeq = some w := h.watermark w hwm
      rw [Option.mem_def, hwu, Option.some.injEq] at hu
      exact hu ▸ hw w hwm

theorem Ordered.take {seq : Nat} (h : Ordered cursor c) (hnext : cursor < seq)
    (hw : ∀ w, c.sub.replayWatermark = some w → w < seq)
    (hwm : c'.sub.replayWatermark = none) (huntil : c'.untilSeq = c.untilSeq)
    (hsince : c'.since = c.since) (htask : c'.task = c.task)
    (hbuf : Awaiting c.task → c'.sub.preAckBuffer ≠ none)
    (hseqs : (seqs c'.sub.handed = seqs c.sub.handed ∧
        (seqs (buffer c') = seqs (buffer c) ∨ seqs (buffer c') = seqs (buffer c) ++ [seq])) ∨
      (seqs c'.sub.handed = seqs c.sub.handed ++ [seq] ∧ seqs (buffer c) = [] ∧
        seqs (buffer c') = [] ∧ ¬Awaiting c.task)) :
    Ordered seq c' := by
  obtain ⟨hbelow, huntilBelow⟩ := h.below hnext hw
  have hall : seqs c'.sub.handed ++ seqs (buffer c') = seqs c.sub.handed ++ seqs (buffer c) ∨
      seqs c'.sub.handed ++ seqs (buffer c') =
        seqs c.sub.handed ++ seqs (buffer c) ++ [seq] := by
    rcases hseqs with ⟨hh, hb | hb⟩ | ⟨hh, hb, hb', -⟩
    · exact .inl (by rw [hh, hb])
    · exact .inr (by rw [hh, hb, List.append_assoc])
    · exact .inr (by rw [hh, hb, hb', List.append_nil, List.append_nil])
  refine ⟨?_, ?_, ?_, ?_, ?_, ?_, ?_⟩
  · rcases hall with hall | hall <;> rw [hall]
    · exact h.sorted
    · exact List.pairwise_append.mpr ⟨h.sorted, List.pairwise_singleton _ _, fun a ha b hb =>
        List.mem_singleton.mp hb ▸ hbelow a ha⟩
  · intro s hs u hu
    rw [huntil] at hu
    rcases hseqs with ⟨-, hb | hb⟩ | ⟨-, -, hb, -⟩ <;> rw [hb] at hs
    · exact h.aboveSnapshot s hs u hu
    · rcases List.mem_append.mp hs with hs | hs
      · exact h.aboveSnapshot s hs u hu
      · exact List.mem_singleton.mp hs ▸ huntilBelow u hu
    · cases hs
  · intro s hs
    left
    rcases hall with hall | hall <;> rw [hall] at hs
    · exact le_of_lt (hbelow s hs)
    · rcases List.mem_append.mp hs with hs | hs
      · exact le_of_lt (hbelow s hs)
      · exact le_of_eq (List.mem_singleton.mp hs)
  · intro w hw'
    rw [hwm] at hw'
    cases hw'
  · intro _ u hu
    rw [huntil] at hu
    exact le_of_lt (huntilBelow u hu)
  · intro ha
    rw [htask] at ha
    rcases hseqs with ⟨hh, -⟩ | ⟨-, -, -, hno⟩
    · exact ⟨hh.trans (h.awaiting ha).1, hbuf ha⟩
    · exact absurd ha hno
  · rw [htask, hsince, huntil]
    exact h.snapshot

theorem Ordered.turn (h : Ordered cursor c) {row : Row} (hnext : cursor < row.seq)
    (bytes : Bytes) :
    Ordered row.seq (c.sendEach R .lagLimitExceeded (offer row ⟨bytes, some row⟩)) := by
  simp only [Conn.sendEach]
  split
  swap
  · exact h.skip (le_of_lt hnext)
  suffices hsent : Ordered row.seq { c with sub := (offer row ⟨bytes, some row⟩ c.sub).2 } by
    split
    · exact hsent.same (evict_same _ _)
    · exact hsent
  rcases offer_cases row ⟨bytes, some row⟩ c.sub with
    ⟨-, heq⟩ | ⟨-, hw, ⟨buffered, hbuffer, ⟨-, heq⟩ | heq⟩ | ⟨hbuffer, heq⟩⟩ <;> rw [heq]
  · exact h.skip (le_of_lt hnext)
  · exact h.take hnext hw rfl rfl rfl rfl (fun ha => (h.awaiting ha).2) (.inl ⟨rfl, .inl rfl⟩)
  · refine h.take hnext hw rfl rfl rfl rfl (fun _ hno => (by cases hno)) (.inl ⟨rfl, .inr ?_⟩)
    simp [buffer, hbuffer, seqs]
  · have hstep := enqueue_enqueued { c.sub with replayWatermark := none } ⟨bytes, some row⟩ true
    have hno : ¬Awaiting c.task := fun ha => (h.awaiting ha).2 hbuffer
    have hempty : ∀ sub : Subscriber, sub.preAckBuffer = none →
        seqs (buffer { c with sub }) = [] := fun sub hsub => by simp [buffer, hsub, seqs]
    refine h.take hnext hw hstep.envelope.replayWatermark rfl rfl rfl (fun ha => absurd ha hno) ?_
    rcases hstep.outcome with ⟨hhanded, -⟩ | ⟨hhanded, -⟩
    · refine .inr ⟨?_, hempty c.sub hbuffer,
        hempty _ (hstep.envelope.preAckBuffer.trans hbuffer), hno⟩
      simp only [hhanded, seqs_append]
      rfl
    · refine .inl ⟨by rw [hhanded], .inl ?_⟩
      rw [hempty _ (hstep.envelope.preAckBuffer.trans hbuffer), hempty c.sub hbuffer]

theorem Ordered.replay (h : Ordered cursor c) (ha : Awaiting c.task) {store : Store}
    {since limit : Nat} {outcome : Replayed} {sub : Subscriber}
    (heq : replayRows R (store.iterEventsAbove since c.untilSeq limit) c.sub = (outcome, sub))
    {u : Nat} (huntil : c.untilSeq = some u) {task : Task} (hna : ¬Awaiting task)
    (hns : task ≠ .served) : Ordered cursor { c with sub, task } := by
  obtain ⟨henv, kept, hkept, hsub, -⟩ :=
    replayRows_spec (R := R) (store.iterEventsAbove since c.untilSeq limit) c.sub
  rw [heq] at henv hkept
  have hbuf : buffer { c with sub, task } = buffer c := by rw [buffer, henv.preAckBuffer, buffer]
  have hseqs : seqs sub.handed = seqs kept := by
    rw [hkept, seqs_append, (h.awaiting ha).1, List.nil_append]
  have hinc : (seqs kept).Pairwise (· < ·) := by
    have hrows : Increasing Row.seq (store.iterEventsAbove since c.untilSeq limit) :=
      store.fanOutable_increasing.sublist
        ((List.take_sublist _ _).trans (List.filter_sublist.trans List.filter_sublist))
    exact List.Pairwise.sublist hsub (List.pairwise_map.mpr hrows)
  have hle : ∀ s ∈ seqs kept, s ≤ u := by
    intro s hs
    obtain ⟨row, hrow, rfl⟩ := List.mem_map.mp (hsub.subset hs)
    exact (Store.mem_iterEventsAbove hrow).2.2 u huntil
  have hsorted := List.pairwise_append.mp h.sorted
  refine ⟨?_, ?_, ?_, ?_, ?_, fun ha' => absurd ha' hna, fun ha' => ?_⟩
  · rw [hseqs, hbuf]
    refine List.pairwise_append.mpr ⟨hinc, hsorted.2.1, fun a ha b hb => ?_⟩
    exact lt_of_le_of_lt (hle a ha) (h.aboveSnapshot b hb u huntil)
  · rw [hbuf]
    exact h.aboveSnapshot
  · intro s hs
    rw [hseqs, hbuf] at hs
    rw [henv.replayWatermark]
    rcases List.mem_append.mp hs with hs | hs
    · cases hw : c.sub.replayWatermark with
      | none => exact .inl ((hle s hs).trans (h.cleared hw u huntil))
      | some w =>
        have := h.watermark w hw
        rw [huntil, Option.some.injEq] at this
        exact .inr ⟨w, rfl, this ▸ hle s hs⟩
    · exact h.bounded s (List.mem_append_right _ hs)
  · rw [henv.replayWatermark]
    exact h.watermark
  · rw [henv.replayWatermark]
    exact h.cleared
  · exact (ha'.elim hna hns).elim

/-- The end of a handshake hands over a part of what was held back, and all of it if it serves. -/
theorem drainPreAck_spec (c : Conn) : ∃ sub kept,
    SameEnvelope { c.sub with preAckBuffer := none, preAckBufferedBytes := 0 } sub ∧
    kept.Sublist (buffer c) ∧ sub.handed = c.sub.handed ++ kept ∧
    ((kept = buffer c ∧ c.drainPreAck = ({ c with sub, task := .served }, none)) ∨
      c.drainPreAck = ({ c with sub, task := .bailed }, some .lagLimitExceeded)) := by
  obtain ⟨henv, kept, hsub, hkept, hfull⟩ := drainBuffer_spec (buffer c)
    { c.sub with preAckBuffer := none, preAckBufferedBytes := 0 }
  obtain ⟨sub, ⟨hdrain, heq⟩ | ⟨hdrain, heq⟩⟩ := drainPreAck_cases c <;>
    rw [buffer, hdrain] at henv hkept hfull
  · exact ⟨sub, kept, henv, hsub, hkept, .inl ⟨hfull rfl, heq⟩⟩
  · exact ⟨sub, kept, henv, hsub, hkept, .inr heq⟩

theorem Ordered.drain (h : Ordered cursor { c with task := .bailed })
    (hsnap : c.since.isSome → c.untilSeq.isSome) : Ordered cursor c.drainPreAck.1 := by
  obtain ⟨sub, kept, henv, hsub, hkept, hcases⟩ := drainPreAck_spec c
  have hwm : sub.replayWatermark = c.sub.replayWatermark := henv.replayWatermark
  have hseqs : ∀ task, ¬Awaiting task → Ordered cursor { c with sub, task } := by
    intro task hna
    have hbuf : buffer { c with sub, task } = [] := by rw [buffer, henv.preAckBuffer]; rfl
    have hpart : (seqs c.sub.handed ++ seqs kept).Sublist
        (seqs c.sub.handed ++ seqs (buffer c)) :=
      List.Sublist.append (List.Sublist.refl _) (hsub.filterMap _)
    refine ⟨?_, ?_, ?_, ?_, ?_, fun ha => absurd ha hna, fun _ => hsnap⟩
    · rw [hbuf, hkept, seqs_append]
      simpa [seqs] using h.sorted.sublist hpart
    · rw [hbuf]
      intro s hs
      cases hs
    · rw [hbuf, hkept, seqs_append, hwm]
      intro s hs
      refine h.bounded s (hpart.subset ?_)
      simpa [seqs] using hs
    · rw [hwm]
      exact h.watermark
    · rw [hwm]
      exact h.cleared
  rcases hcases with ⟨-, heq⟩ | heq <;> rw [heq]
  · exact hseqs .served id
  · exact hseqs .bailed id

theorem Ordered.resume (h : Ordered cursor c) {store : Store} {fault : Bool}
    {r : Conn × Option CloseReason} (hr : c.resume R store fault = some r) :
    Ordered cursor r.1 := by
  have hbail : ∀ task, ¬Awaiting task → task ≠ .served → Ordered cursor { c with task } :=
    fun task hna hns => ⟨h.sorted, h.aboveSnapshot, h.bounded, h.watermark, h.cleared,
      fun ha => absurd ha hna, fun ha => (ha.elim hna hns).elim⟩
  have hwindow : ∀ {since}, c.task = .ackDone → c.since = some since →
      Awaiting c.task ∧ ∃ u, c.untilSeq = some u := fun htask hsince =>
    have ha : Awaiting c.task := by rw [htask]; exact trivial
    ⟨ha, Option.isSome_iff_exists.mp (h.snapshot (.inl ha) (by simp [hsince]))⟩
  cases resume_cases hr with
  | ackFailed | faulted => exact hbail _ id (by simp)
  | live _ hsince =>
    exact (hbail _ id (by simp)).drain (fun hs => by simp [hsince] at hs)
  | replayed htask hsince heq =>
    obtain ⟨ha, u, hu⟩ := hwindow htask hsince
    exact (h.replay ha heq hu id (by simp)).drain (c := { c with sub := _ })
      (fun _ => by rw [hu]; rfl)
  | lagged htask hsince heq =>
    obtain ⟨ha, u, hu⟩ := hwindow htask hsince
    exact h.replay ha heq hu id (by simp)
  | raised htask hsince heq hend =>
    obtain ⟨ha, u, hu⟩ := hwindow htask hsince
    rcases hend with ⟨rfl, -⟩ | ⟨rfl, -⟩ <;> exact h.replay ha heq hu id (by simp)

theorem Ordered.join {hub : Hub} {env : Envelope} {fault : Bool} :
    Ordered hub.cursor (hub.register R env fault) := by
  have hseqs : seqs ([] : List Blob) = [] := rfl
  simp only [Hub.register]
  split
  · refine ⟨?_, ?_, ?_, ?_, ?_, fun ha => ha.elim, fun ha => ?_⟩ <;>
      simp_all [buffer, Envelope.subscriber, seqs, Awaiting]
  · split <;> refine ⟨?_, ?_, ?_, ?_, ?_, ?_, ?_⟩ <;>
      simp_all [buffer, Envelope.subscriber, seqs, Awaiting]

theorem ordered_invariant :
    ConnInvariant R (fun _ _ => True) (fun _ cursor c => Ordered cursor c) where
  grows _ _ _ _ h := h
  pass _ _ hwf _ hQ := pass_of_turn (Q := fun _ cursor c => Ordered cursor c)
    (fun _ hnext _ _ h => h.turn hnext.lt.1 _) _ _ hwf hQ
  beat _ _ _ _ h := h.same (beat_same _ _)
  join _ _ _ := .join
  ackSend _ _ _ hsend h := h.same (ackSend_same hsend)
  ackTimeout _ _ _ hsend h := h.same (ackTimeout_same hsend)
  resume _ _ _ hr h := (h.resume hr).same (settle_same _ _)
  writable _ _ _ hsend h := h.same (writable_same hsend)
  cancel h := h.same (cancel_same _)
  shut h := h.same (settle_same _ _)

/-- Whatever the order of commits, passes, handshakes, heartbeats and drains, the rows a
connection is handed come in strictly increasing order, each at most once. -/
theorem handed_increasing {hub : Hub} (h : Reachable (hubSystem R) hub) :
    ∀ c ∈ hub.conns, (seqs c.sub.handed).Pairwise (· < ·) :=
  fun c hc => (List.pairwise_append.mp (ordered_invariant.reach h c hc).sorted).1

end Ordered

section Complete

variable {R : Runtime} {c c' : Conn} {cursor : Nat} {store : Store}

def wants (c : Conn) (row : Row) : Prop :=
  c.sub.matches row.owner row.repo row.eventType = true

/-- The seq above which rows reach a connection through the buffer or live. -/
def base (c : Conn) : Nat :=
  c.untilSeq.getD c.joinedAt

def OnCourse (task : Task) : Prop :=
  Awaiting task ∨ task = .served

/-- What keeps the rows wanted by a connection of the map complete: those above the base have been
buffered or handed over as far as the cursor has come, and once it is served those of the
snapshot's window have been replayed. -/
structure Complete (R : Runtime) (store : Store) (cursor : Nat) (c : Conn) : Prop where
  untilSeq_le : ∀ u ∈ c.untilSeq, u ≤ store.lastSeq
  cursor_le : cursor ≤ store.lastSeq
  live : c.registered = true → OnCourse c.task → ∀ row ∈ store.fanOutable, wants c row →
    base c < row.seq → row.seq ≤ cursor → Holds R (c.sub.handed ++ buffer c) row
  replayed : c.registered = true → c.task = .served → ∀ id ∈ c.since, ∀ u ∈ c.untilSeq,
    ∀ row ∈ store.fanOutable, wants c row → store.seqForEventId id.val < row.seq →
    row.seq ≤ u → Holds R c.sub.handed row
  drained : c.task = .served → c.sub.preAckBuffer = none

/-- Every row that the replay of this connection owes it has fewer than `REPLAY_LIMIT` others
between `since` and itself. -/
def ReplayCovers (store : Store) (c : Conn) : Prop :=
  ∀ id ∈ c.since, ∀ row ∈ store.fanOutable, wants c row →
    store.seqForEventId id.val < row.seq → (∀ u ∈ c.untilSeq, row.seq ≤ u) →
    ((above Row.seq (store.seqForEventId id.val) store.fanOutable).filter
      (·.seq < row.seq)).length < replayLimit

/-- No handshake goes on to a replay that `REPLAY_LIMIT` cuts short. -/
def ReplaysCover (hub : Hub) : Label → Prop
  | .resume i _ => ∀ c ∈ hub.conns[i]?, c.task = .ackDone → ReplayCovers hub.store c
  | _ => True

instance (c : Conn) (row : Row) : Decidable (wants c row) :=
  inferInstanceAs (Decidable (_ = true))

instance (store : Store) (c : Conn) : Decidable (ReplayCovers store c) :=
  inferInstanceAs (Decidable (∀ id ∈ c.since, ∀ row ∈ store.fanOutable, _))

instance (hub : Hub) : ∀ label, Decidable (ReplaysCover hub label)
  | .resume _ _ => inferInstanceAs (Decidable (∀ c ∈ _, _))
  | .commit _ | .broadcastPass _ | .heartbeat _ _ | .subscribe _ _ | .ackSend _
  | .ackTimeout _ | .writable _ | .cancelHandshakes | .shutdown _ => isTrue trivial

theorem Complete.same (h : Complete R store cursor c) (hs : SameEvents c c') :
    Complete R store cursor c' := by
  obtain ⟨control, hhanded, -⟩ := hs.handed
  have hwants : ∀ row, wants c' row → wants c row := fun row hw => by
    rwa [wants, hs.matches_eq] at hw
  have hbase : base c' = base c := by rw [base, base, hs.untilSeq, hs.joinedAt]
  refine ⟨by rw [hs.untilSeq]; exact h.untilSeq_le, h.cursor_le, ?_, ?_, ?_⟩
  · intro hreg htask row hrow hw hlt hle
    rw [hbase] at hlt
    refine (h.live (hs.registered hreg) (htask.imp hs.awaiting hs.served.mp) row hrow
      (hwants row hw) hlt hle).mono ?_
    rw [hhanded, hs.buffer_eq]
    intro blob hblob
    rcases List.mem_append.mp hblob with hblob | hblob
    · exact List.mem_append_left _ (List.mem_append_left _ hblob)
    · exact List.mem_append_right _ hblob
  · intro hreg htask id hid u hu row hrow hw hlt hle
    rw [hs.since] at hid
    rw [hs.untilSeq] at hu
    refine (h.replayed (hs.registered hreg) (hs.served.mp htask) id hid u hu row hrow
      (hwants row hw) hlt hle).mono ?_
    rw [hhanded]
    exact List.subset_append_left _ _
  · intro htask
    rw [hs.preAckBuffer]
    exact h.drained (hs.served.mp htask)

theorem Complete.grows {t : Store} (h : Complete R store cursor c) (hg : store.Grows t) :
    Complete R t cursor c := by
  have hlast := hg.lastSeq_le
  refine ⟨fun u hu => (h.untilSeq_le u hu).trans hlast, h.cursor_le.trans hlast, ?_, ?_,
    h.drained⟩
  · intro hreg htask row hrow hw hlt hle
    rcases hg.mem_fanOutable hrow with hrow | hnew
    · exact h.live hreg htask row hrow hw hlt hle
    · exact absurd (hle.trans h.cursor_le) (not_le.mpr hnew)
  · intro hreg htask id hid u hu row hrow hw hlt hle
    rcases hg.mem_fanOutable hrow with hrow | hnew
    · exact h.replayed hreg htask id hid u hu row hrow hw
        (lt_of_le_of_lt (hg.seqForEventId_le id.val) hlt) hle
    · exact absurd (hle.trans (h.untilSeq_le u hu)) (not_le.mpr hnew)

theorem Complete.advance {hub : Hub} {row : Row} (h : Complete R hub.store hub.cursor c)
    (hnext : hub.Next row) (huntil : c'.untilSeq = c.untilSeq) (hsince : c'.since = c.since)
    (hjoined : c'.joinedAt = c.joinedAt) (htask : c'.task = c.task)
    (hmatch : c'.sub.matches = c.sub.matches)
    (hreg : c'.registered = true → c.registered = true)
    (hhanded : c.sub.handed ⊆ c'.sub.handed)
    (hall : c.sub.handed ++ buffer c ⊆ c'.sub.handed ++ buffer c')
    (hdrained : c.task = .served → c'.sub.preAckBuffer = none)
    (hrow : c'.registered = true → OnCourse c.task → wants c row → base c < row.seq →
      Holds R (c'.sub.handed ++ buffer c') row) :
    Complete R hub.store row.seq c' := by
  have hwants : ∀ r, wants c' r → wants c r := fun r hw => by rwa [wants, hmatch] at hw
  have hbase : base c' = base c := by rw [base, base, huntil, hjoined]
  refine ⟨by rw [huntil]; exact h.untilSeq_le, Store.seq_le_lastSeq hnext.lt.2, ?_, ?_, ?_⟩
  · intro hr ht r hmem hw hlt hle
    rw [hbase] at hlt
    rw [htask] at ht
    rcases hnext.seq_le hmem hle with hle | rfl
    · exact (h.live (hreg hr) ht r hmem (hwants r hw) hlt hle).mono hall
    · exact hrow hr ht (hwants r hw) hlt
  · intro hr ht id hid u hu r hmem hw hlt hle
    rw [htask] at ht
    rw [hsince] at hid
    rw [huntil] at hu
    exact (h.replayed (hreg hr) ht id hid u hu r hmem (hwants r hw) hlt hle).mono hhanded
  · rw [htask]
    exact hdrained

theorem Complete.turn {hub : Hub} {row : Row} {bytes : Bytes}
    (h : Complete R hub.store hub.cursor c) (ho : Ordered hub.cursor c) (hnext : hub.Next row)
    (hblob : rowBlob R row = .ok bytes) :
    Complete R hub.store row.seq
      (c.sendEach R .lagLimitExceeded (offer row ⟨bytes, some row⟩)) := by
  simp only [Conn.sendEach]
  split
  swap
  · rename_i hreg
    exact h.advance hnext rfl rfl rfl rfl rfl id (List.Subset.refl _) (List.Subset.refl _)
      h.drained fun hr => absurd hr hreg
  obtain ⟨hmatch, hhanded, hbuf, hnone⟩ := offer_frame row ⟨bytes, some row⟩ c.sub
  have hall : c.sub.handed ++ buffer c ⊆ (offer row ⟨bytes, some row⟩ c.sub).2.handed ++
      (offer row ⟨bytes, some row⟩ c.sub).2.preAckBuffer.getD [] := by
    intro blob hblob
    rcases List.mem_append.mp hblob with hblob | hblob
    · exact List.mem_append_left _ (hhanded hblob)
    · exact List.mem_append_right _ (hbuf hblob)
  have hsent : ((offer row ⟨bytes, some row⟩ c.sub).1 = false ∨ ¬c.registered = true) →
      Complete R hub.store row.seq { c with sub := (offer row ⟨bytes, some row⟩ c.sub).2 } := by
    intro hkeep
    refine h.advance hnext rfl rfl rfl rfl hmatch id hhanded hall
      (fun ht => hnone (h.drained ht)) fun hr _ hw hlt => ?_
    refine ⟨_, offer_takes (hkeep.resolve_right fun hno => hno hr) hw fun w hwm => ?_, rfl, hblob⟩
    rw [base, ho.watermark w hwm] at hlt
    exact hlt
  split
  · -- A marked subscriber leaves the map, and the rest of the invariant is not about its rows.
    obtain ⟨sock, draining, heq, -⟩ := close_eq (offer row ⟨bytes, some row⟩ c.sub).2
      (terminalRejectFrame R .lagLimitExceeded)
    rw [Conn.evict, heq]
    exact h.advance hnext rfl rfl rfl rfl hmatch (fun hr => (by cases hr)) hhanded hall
      (fun ht => hnone (h.drained ht)) fun hr => (by cases hr)
  · rename_i hkeep
    exact hsent (.inl (by simpa using hkeep))

theorem Complete.drain
    (huntil : ∀ u ∈ c.untilSeq, u ≤ store.lastSeq) (hcursor : cursor ≤ store.lastSeq)
    (hlive : c.registered = true → ∀ row ∈ store.fanOutable, wants c row → base c < row.seq →
      row.seq ≤ cursor → Holds R (c.sub.handed ++ buffer c) row)
    (hreplayed : c.registered = true → ∀ id ∈ c.since, ∀ u ∈ c.untilSeq,
      ∀ row ∈ store.fanOutable, wants c row → store.seqForEventId id.val < row.seq →
      row.seq ≤ u → Holds R c.sub.handed row) :
    Complete R store cursor c.drainPreAck.1 := by
  obtain ⟨sub, kept, henv, hsub, hkept, ⟨hfull, heq⟩ | heq⟩ := drainPreAck_spec c <;> rw [heq]
  · have hmatch : sub.matches = c.sub.matches := henv.matches_eq
    rw [hfull] at hkept
    refine ⟨huntil, hcursor, fun hreg _ row hrow hw hlt hle => ?_,
      fun hreg _ id hid u hu row hrow hw hlt hle => ?_, fun _ => henv.preAckBuffer⟩
    · rw [wants, hmatch] at hw
      refine (hlive hreg row hrow hw hlt hle).mono ?_
      rw [hkept]
      exact List.subset_append_left _ _
    · rw [wants, hmatch] at hw
      refine (hreplayed hreg id hid u hu row hrow hw hlt hle).mono ?_
      rw [hkept]
      exact List.subset_append_left _ _
  · exact ⟨huntil, hcursor, fun _ ht => absurd ht (by simp [OnCourse, Awaiting]),
      fun _ ht => (nomatch ht), fun ht => (nomatch ht)⟩

theorem Complete.bail (h : Complete R store cursor c) {sub : Subscriber} {task : Task}
    (hoff : ¬OnCourse task) : Complete R store cursor { c with sub, task } :=
  ⟨h.untilSeq_le, h.cursor_le, fun _ ht => absurd ht hoff,
    fun _ ht => absurd (.inr ht) hoff, fun ht => absurd (.inr ht) hoff⟩

theorem Complete.resume (h : Complete R store cursor c) {fault : Bool}
    {r : Conn × Option CloseReason} (hcovers : c.task = .ackDone → ReplayCovers store c)
    (hr : c.resume R store fault = some r) : Complete R store cursor r.1 := by
  have hoff : ∀ task, task ≠ .served → ¬Awaiting task → ¬OnCourse task :=
    fun task hns hna ht => ht.elim hna hns
  have hawait : c.task = .ackDone → OnCourse c.task := fun htask => by
    rw [htask]
    exact .inl trivial
  cases resume_cases hr with
  | ackFailed | faulted | lagged => exact h.bail (hoff _ (by simp) id)
  | live htask hsince =>
    exact Complete.drain h.untilSeq_le h.cursor_le (fun hreg => h.live hreg (hawait htask))
      fun _ id hid => by rw [hsince] at hid; cases hid
  | @replayed since sub htask hsince heq =>
    obtain ⟨henv, kept, hkept, -, halive⟩ := replayRows_spec (R := R)
      (store.iterEventsAbove (store.seqForEventId since.val) c.untilSeq replayLimit) c.sub
    rw [heq] at henv hkept
    have hmatch : sub.matches = c.sub.matches := henv.matches_eq
    refine Complete.drain (c := { c with sub }) h.untilSeq_le h.cursor_le ?_ ?_
    · intro hreg row hrow hw hlt hle
      rw [wants, hmatch] at hw
      refine (h.live hreg (hawait htask) row hrow hw hlt hle).mono ?_
      rw [buffer, buffer, henv.preAckBuffer, hkept, List.append_assoc]
      intro blob hblob
      simp only [List.mem_append] at hblob ⊢
      tauto
    · intro hreg id hid u hu row hrow hw hlt hle
      rw [wants, hmatch] at hw
      obtain rfl : since = id := Option.some.inj (hsince.symm.trans hid)
      have huntil : ∀ u' ∈ c.untilSeq, row.seq ≤ u' := fun u' hu' =>
        Option.some.inj (hu.symm.trans hu') ▸ hle
      have hwindow := Store.iterEventsAbove_reaches hrow hlt huntil
        (hcovers htask since hsince row hrow hw hlt huntil)
      refine (halive sub heq row hwindow hw).mono ?_
      rw [hkept]
      exact List.subset_append_right _ _
  | raised _ _ _ hend =>
    rcases hend with ⟨rfl, -⟩ | ⟨rfl, -⟩ <;> exact h.bail (hoff _ (by simp) id)

theorem Complete.join {hub : Hub} (hwf : hub.WF) (env : Envelope) (fault : Bool) :
    Complete R hub.store hub.cursor (hub.register R env fault) := by
  have hfar : ∀ row ∈ hub.store.fanOutable, hub.store.currentMaxSnapshot.1 < row.seq → False :=
    fun row hrow hlt => absurd (Store.seq_le_snapshot hrow) (not_le.mpr hlt)
  have hsnap := hub.store.snapshot_le_lastSeq
  simp only [Hub.register]
  split
  · exact ⟨fun _ hu => (by cases hu), hwf.cursor_le,
      fun _ ht => absurd ht (by simp [OnCourse, Awaiting]), fun _ ht => (by cases ht),
      fun ht => (by cases ht)⟩
  · have huntil : ∀ u ∈ (if env.since.isSome then some hub.store.currentMaxSnapshot.1 else none),
        u ≤ hub.store.lastSeq := by
      intro u hu
      split at hu
      · exact Option.some.inj hu ▸ hsnap
      · cases hu
    split
    · refine ⟨huntil, hwf.cursor_le, fun _ _ row hrow _ hlt hle => ?_, fun _ ht => (by cases ht),
        fun ht => (by cases ht)⟩
      by_cases hsince : env.since.isSome
      · exact (hfar row hrow (by simpa [base, hsince] using hlt)).elim
      · exact absurd hle (not_le.mpr (by simpa [base, hsince] using hlt))
    · exact ⟨huntil, hwf.cursor_le, fun _ ht => absurd ht (by simp [OnCourse, Awaiting]),
        fun _ ht => (by cases ht), fun ht => (by cases ht)⟩

theorem complete_invariant : ConnInvariant R ReplaysCover fun store cursor c =>
    Ordered cursor c ∧ Complete R store cursor c where
  grows _ _ hall _ h := ⟨h.1, h.2.grows (insertAll_grows hall)⟩
  pass _ _ hwf _ hQ := pass_of_turn
    (Q := fun store cursor c => Ordered cursor c ∧ Complete R store cursor c)
    (fun _ hnext hblob _ h => ⟨h.1.turn hnext.lt.1 _, h.2.turn h.1 hnext hblob⟩) _ _ hwf hQ
  beat _ _ _ _ h := ⟨h.1.same (beat_same _ _), h.2.same (beat_same _ _)⟩
  join hwf _ _ := ⟨.join, .join hwf _ _⟩
  ackSend _ _ _ hsend h := ⟨h.1.same (ackSend_same hsend), h.2.same (ackSend_same hsend)⟩
  ackTimeout _ _ _ hsend h :=
    ⟨h.1.same (ackTimeout_same hsend), h.2.same (ackTimeout_same hsend)⟩
  resume _ hok hc hr h := ⟨(h.1.resume hr).same (settle_same _ _),
    (h.2.resume (hok _ hc) hr).same (settle_same _ _)⟩
  writable _ _ _ hsend h := ⟨h.1.same (writable_same hsend), h.2.same (writable_same hsend)⟩
  cancel h := ⟨h.1.same (cancel_same _), h.2.same (cancel_same _)⟩
  shut h := ⟨h.1.same (settle_same _ _), h.2.same (settle_same _ _)⟩

/-- The three sources of rows tile the seqs above `since` as far as the cursor, in every run whose
replays are not cut short. -/
theorem replay_complete {hub : Hub} (h : Reach (hubSystem R) ReplaysCover hub) {id : Ulid}
    (hc : c ∈ hub.conns) (hreg : c.registered = true) (hserved : c.task = .served)
    (hsince : c.since = some id) : ∀ row ∈ hub.store.fanOutable, wants c row →
      hub.store.seqForEventId id.val < row.seq → row.seq ≤ hub.cursor →
      Holds R c.sub.handed row := by
  obtain ⟨hordered, hcomplete⟩ := complete_invariant.reach h c hc
  obtain ⟨u, hu⟩ := Option.isSome_iff_exists.mp
    (hordered.snapshot (.inr hserved) (by simp [hsince]))
  intro row hrow hw hlt hle
  rcases le_or_gt row.seq u with hin | habove
  · exact hcomplete.replayed hreg hserved id hsince u hu row hrow hw hlt hin
  · have hheld := hcomplete.live hreg (.inr hserved) row hrow hw (by rwa [base, hu]) hle
    rwa [buffer, hcomplete.drained hserved, Option.getD_none, List.append_nil] at hheld

/-- A replay of row 1, after a pass that has buffered row 2 while the ack was half sent. -/
def shortRun : List Label :=
  [.subscribe (sampleEnvelope 3 [.short 5, .whole] (some (ulidAt 9))) false, .ackSend 0,
    .commit [(sampleEvent 2, ulidAt 2)], .broadcastPass false, .ackSend 0, .resume 0 false]

theorem shortRun_ends : ∃ hub : Hub, Reach (hubSystem .reference) ReplaysCover hub ∧
    hub.store.seqForEventId (ulidAt 9).val = 0 ∧ hub.cursor = 2 ∧ ∃ c ∈ hub.conns,
      c.registered = true ∧ c.task = .served ∧ c.since = some (ulidAt 9) ∧
        seqs c.sub.handed = [1, 2] := by
  have hstart : Reach (hubSystem .reference) ReplaysCover (Hub.seeded (sampleStore 1)) :=
    .start (seeded_init _ _)
  obtain ⟨hub, hrun, hends⟩ : ∃ hub ∈ (hubSystem .reference).exec
      (Hub.seeded (sampleStore 1)) shortRun, hub.store.seqForEventId (ulidAt 9).val = 0 ∧
        hub.cursor = 2 ∧ ∃ c ∈ hub.conns, c.registered = true ∧ c.task = .served ∧
          c.since = some (ulidAt 9) ∧ seqs c.sub.handed = [1, 2] := by decide +kernel
  exact ⟨hub, hstart.exec hrun (by decide +kernel), hends⟩

theorem handed_increasing_run : ∃ hub : Hub, hub.conns ≠ [] ∧
    ∀ c ∈ hub.conns, (seqs c.sub.handed).Pairwise (· < ·) := by
  obtain ⟨hub, hreach, -, -, c, hc, -⟩ := shortRun_ends
  exact ⟨hub, List.ne_nil_of_mem hc, handed_increasing hreach.reachable⟩

theorem replay_complete_run : ∃ (hub : Hub) (c : Conn), seqs c.sub.handed = [1, 2] ∧
    hub.cursor = 2 ∧ ∀ row ∈ hub.store.fanOutable, wants c row → 0 < row.seq →
      row.seq ≤ hub.cursor → Holds .reference c.sub.handed row := by
  obtain ⟨hub, hreach, hzero, hcursor, c, hc, hreg, hserved, hsince, hseqs⟩ := shortRun_ends
  have hcomplete := replay_complete hreach hc hreg hserved hsince
  rw [hzero] at hcomplete
  exact ⟨hub, c, hseqs, hcursor, hcomplete⟩

theorem nsReceivedAtMin_int64 : -2 ^ 63 ≤ nsReceivedAtMin ∧ nsReceivedAtMin < 2 ^ 63 := by decide

/-- Of 502 rows only the last is of a type that the subscriber asks for. -/
def busyRow (n : Nat) : Row where
  seq := n
  deliveryId := String.ofList (List.replicate n 'd')
  source := "github"
  eventType := if n = 502 then "agent_message" else "push"
  owner := "local"
  repo := "agents"
  runId := none
  workflowName := none
  headBranch := none
  headSha := none
  status := none
  conclusion := none
  receivedAt := ⟨nsReceivedAtMin, nsReceivedAtMin_int64⟩
  payloadJson := "{}"
  ingestMethod := "api"
  jobId := none
  jobName := none
  parentRunId := none
  alertName := none
  alertSeverity := none
  alertFingerprint := none
  msgTo := none
  msgFrom := none
  msgCorrelationId := none
  msgReplyTo := none
  msgThread := none
  msgBody := none
  eventId := some (ulidAt n)

def busyStore : Store where
  rows := (List.range' 1 502).map busyRow
  lastSeq := 502
  increasing := List.pairwise_map.mpr List.pairwise_lt_range'
  bounded := by
    intro row hrow
    obtain ⟨n, hn, rfl⟩ := List.mem_map.mp hrow
    have := List.mem_range'_1.mp hn
    exact ⟨this.1, by have := this.2; simp only [busyRow]; omega⟩
  deliveryIds := by
    rw [List.map_map]
    refine List.Nodup.map (fun m n h => ?_) List.nodup_range'
    have := congrArg String.length h
    simpa [busyRow] using this
  eventIds := by
    have hids : (·.eventId) ∘ busyRow = some ∘ ulidAt := rfl
    rw [List.filterMap_map, hids, List.filterMap_eq_map]
    refine List.Nodup.map_on (fun m hm n hn h => ?_) List.nodup_range'
    have hm := (List.mem_range'_1.mp hm).2
    have hn := (List.mem_range'_1.mp hn).2
    exact ulidAt_inj (by omega) (by omega) h



/-- The replay stops before row 502, and the watermark keeps the live loop from handing it over:
the handshake ends without it, with the cursor already there. -/
theorem replay_gap : ∃ hub c id row, Reachable (hubSystem .reference) hub ∧ c ∈ hub.conns ∧
    c.registered = true ∧ c.task = .served ∧ c.since = some id ∧ row ∈ hub.store.fanOutable ∧
    wants c row ∧ hub.store.seqForEventId id.val < row.seq ∧ row.seq ≤ hub.cursor ∧
    ¬Holds .reference c.sub.handed row := by
  have hstart : Reachable (hubSystem .reference) (Hub.seeded busyStore) :=
    .start (seeded_init _ _)
  obtain ⟨hub, hrun, c, hc, hreg, hserved, id, hid, row, hrow, hwants, hlt, hle, hno⟩ :
      ∃ hub ∈ (hubSystem .reference).exec (Hub.seeded busyStore)
        [.subscribe (sampleEnvelope 3 [] (some (ulidAt 1))) false, .ackSend 0, .resume 0 false],
      ∃ c ∈ hub.conns, c.registered = true ∧ c.task = .served ∧ ∃ id ∈ c.since,
      ∃ row ∈ hub.store.fanOutable, wants c row ∧ hub.store.seqForEventId id.val < row.seq ∧
        row.seq ≤ hub.cursor ∧ ∀ blob ∈ c.sub.handed, blob.row.map (·.seq) ≠ some row.seq := by
    decide +kernel
  refine ⟨hub, c, id, row, hstart.exec hrun, hc, hreg, hserved, hid, hrow, hwants, hlt, hle, ?_⟩
  rintro ⟨blob, hblob, hheld, -⟩
  exact hno blob hblob (by rw [hheld]; rfl)

end Complete

end Waitbus.Delivery
