import Waitbus.Delivery

/-! Replay and live frames told apart by event id. The daemon splits them by seq, at the snapshot
of the subscribe, and publishes the event id of that snapshot as `caught_up_at`; a consumer is to
tell them apart by comparing ids. The two splits agree as far as ids follow seqs across the
snapshot. -/

namespace Waitbus.Classify
open Python FrameCodec EventStore RowFrame TxQueue Runs OrderedLog Daemon Delivery

/-- The event id of the frame is on the side of `caught_up_at` that its source puts it on: the
replay reads no row above `untilSeq`, and the live loop hands over only rows above it. -/
def Sided (c : Conn) (row : Row) : Prop :=
  ∀ u ∈ c.untilSeq, ∀ id ∈ row.eventId,
    (row.seq ≤ u → ∃ k ∈ c.caughtUpAt, id.val ≤ k) ∧ (u < row.seq → ∀ k ∈ c.caughtUpAt, k < id.val)

def Classified (c : Conn) : Prop :=
  ∀ blob ∈ c.sub.handed, ∀ row ∈ blob.row, Sided c row

/-- No row that the replay of a new subscriber can reach has a greater id than the newest row. -/
def NewestLeads (store : Store) (env : Envelope) : Prop :=
  ∀ since ∈ env.since, ∀ row ∈ store.fanOutable,
    (env.subscriber none).matches row.owner row.repo row.eventType = true →
    store.seqForEventId since.val < row.seq →
    ∀ id ∈ row.eventId, ∃ k ∈ store.currentMaxSnapshot.2, id.val ≤ k

/-- The rows that a commit adds have greater ids than the snapshots of those who will get them. -/
def CommitLeads (hub : Hub) (batch : List (EventInsert × Ulid)) : Prop :=
  match hub.store.insertAll batch with
  | .error _ => True
  | .ok (_, store) => ∀ row ∈ store.fanOutable, hub.store.lastSeq < row.seq →
    ∀ c ∈ hub.conns, c.registered = true → wants c row →
      ∀ k ∈ c.caughtUpAt, ∀ id ∈ row.eventId, k < id.val

def IdsFollow (hub : Hub) : Label → Prop
  | .commit batch => CommitLeads hub batch
  | .subscribe env fault => fault = false → NewestLeads hub.store env
  | _ => True

instance (c : Conn) (row : Row) : Decidable (Sided c row) :=
  inferInstanceAs (Decidable (∀ u ∈ c.untilSeq, ∀ id ∈ row.eventId, _ ∧ _))

instance (c : Conn) : Decidable (Classified c) :=
  inferInstanceAs (Decidable (∀ blob ∈ c.sub.handed, ∀ row ∈ blob.row, _))

instance (store : Store) (env : Envelope) : Decidable (NewestLeads store env) :=
  inferInstanceAs (Decidable (∀ since ∈ env.since, ∀ row ∈ store.fanOutable, _))

instance (hub : Hub) (batch : List (EventInsert × Ulid)) : Decidable (CommitLeads hub batch) := by
  unfold CommitLeads
  exact match hub.store.insertAll batch with
  | .error _ => isTrue trivial
  | .ok (_, store) => inferInstanceAs (Decidable (∀ row ∈ store.fanOutable, _))

instance (hub : Hub) : ∀ label, Decidable (IdsFollow hub label)
  | .commit batch => inferInstanceAs (Decidable (CommitLeads hub batch))
  | .subscribe env _ => inferInstanceAs (Decidable (_ = false → NewestLeads hub.store env))
  | .broadcastPass _ | .heartbeat _ _ | .ackSend _ | .ackTimeout _ | .resume _ _ | .writable _
  | .cancelHandshakes | .shutdown _ => isTrue trivial

/-- What keeps the frames of one connection classified: those still to be replayed have ids up to
its snapshot's, those still to be handed over live have greater ones. -/
structure Split (store : Store) (c : Conn) : Prop where
  untilSeq_le : ∀ u ∈ c.untilSeq, u ≤ store.lastSeq
  classified : ∀ blob ∈ c.sub.handed ++ buffer c, ∀ row ∈ blob.row, Sided c row
  window : Awaiting c.task → ∀ since ∈ c.since, ∀ u ∈ c.untilSeq, ∀ row ∈ store.fanOutable,
    wants c row → store.seqForEventId since.val < row.seq → row.seq ≤ u →
    ∀ id ∈ row.eventId, ∃ k ∈ c.caughtUpAt, id.val ≤ k
  later : c.registered = true → ∀ u ∈ c.untilSeq, ∀ row ∈ store.fanOutable, wants c row →
    u < row.seq → ∀ k ∈ c.caughtUpAt, ∀ id ∈ row.eventId, k < id.val

section Steps

variable {R : Runtime} {store : Store} {c c' : Conn}

theorem Sided.congr {row : Row} (h : Sided c row) (huntil : c'.untilSeq = c.untilSeq)
    (hcaught : c'.caughtUpAt = c.caughtUpAt) : Sided c' row := by
  rw [Sided, huntil, hcaught]
  exact h

theorem row_none_of_seqs {blobs : List Blob} (h : seqs blobs = []) {blob : Blob}
    (hblob : blob ∈ blobs) : blob.row = none := by
  have hnone := List.filterMap_eq_nil_iff.mp h blob hblob
  simpa using hnone

theorem Split.same (h : Split store c) (hs : SameEvents c c') : Split store c' := by
  obtain ⟨control, hhanded, hcontrol⟩ := hs.handed
  have hwants : ∀ row, wants c' row → wants c row := fun row hw => by
    rwa [wants, hs.matches_eq] at hw
  refine ⟨by rw [hs.untilSeq]; exact h.untilSeq_le, fun blob hblob row hrow => ?_, ?_, ?_⟩
  · rw [hhanded, hs.buffer_eq, List.append_assoc, List.mem_append, List.mem_append] at hblob
    have hold : blob ∈ c.sub.handed ++ buffer c := by
      rcases hblob with hblob | hblob | hblob
      · exact List.mem_append_left _ hblob
      · rw [row_none_of_seqs hcontrol hblob] at hrow
        cases hrow
      · exact List.mem_append_right _ hblob
    exact (h.classified blob hold row hrow).congr hs.untilSeq hs.caughtUpAt
  · rw [hs.since, hs.untilSeq, hs.caughtUpAt]
    exact fun ha since hsince u hu row hrow hw =>
      h.window (hs.awaiting ha) since hsince u hu row hrow (hwants row hw)
  · rw [hs.untilSeq, hs.caughtUpAt]
    exact fun hreg u hu row hrow hw => h.later (hs.registered hreg) u hu row hrow (hwants row hw)

theorem Split.grows {hub : Hub} {batch : List (EventInsert × Ulid)} {count : Nat}
    (h : Split hub.store c) (hleads : CommitLeads hub batch)
    (hall : hub.store.insertAll batch = .ok (count, store)) (hc : c ∈ hub.conns) :
    Split store c := by
  have hg := insertAll_grows hall
  rw [CommitLeads, hall] at hleads
  refine ⟨fun u hu => (h.untilSeq_le u hu).trans hg.lastSeq_le, h.classified, ?_, ?_⟩
  · intro ha since hsince u hu row hrow hw hlt hle
    rcases hg.mem_fanOutable hrow with hold | hnew
    · exact h.window ha since hsince u hu row hold hw
        (lt_of_le_of_lt (hg.seqForEventId_le since.val) hlt) hle
    · have := h.untilSeq_le u hu
      omega
  · intro hreg u hu row hrow hw hlt
    rcases hg.mem_fanOutable hrow with hold | hnew
    · exact h.later hreg u hu row hold hw hlt
    · exact hleads row hrow hnew c hc hreg hw

/-- The live loop hands over or buffers only a row it was given, and only one that matches. -/
theorem mem_offer {row : Row} {bytes : Bytes} {sub : Subscriber} {blob : Blob}
    (h : blob ∈ (offer row ⟨bytes, some row⟩ sub).2.handed ++
      (offer row ⟨bytes, some row⟩ sub).2.preAckBuffer.getD []) :
    blob ∈ sub.handed ++ sub.preAckBuffer.getD [] ∨ (blob.row = some row ∧
      sub.matches row.owner row.repo row.eventType = true ∧
      ∀ w, sub.replayWatermark = some w → w < row.seq) := by
  rcases offer_cases row ⟨bytes, some row⟩ sub with
    ⟨-, heq⟩ | ⟨hmatch, hw, ⟨buffered, hbuffer, ⟨-, heq⟩ | heq⟩ | ⟨-, heq⟩⟩ <;> rw [heq] at h
  · exact .inl h
  · exact .inl h
  · simp only [Option.getD_some, List.mem_append, List.mem_singleton] at h
    rw [hbuffer, List.mem_append]
    rcases h with h | h | rfl
    · exact .inl (.inl h)
    · exact .inl (.inr h)
    · exact .inr ⟨rfl, hmatch, hw⟩
  · have hstep := enqueue_enqueued { sub with replayWatermark := none } ⟨bytes, some row⟩ true
    rw [hstep.envelope.preAckBuffer] at h
    rcases hstep.outcome with ⟨hhanded, -⟩ | ⟨hhanded, -⟩ <;> rw [hhanded] at h
    · simp only [List.mem_append, List.mem_singleton] at h
      rw [List.mem_append]
      rcases h with (h | rfl) | h
      · exact .inl (.inl h)
      · exact .inr ⟨rfl, hmatch, hw⟩
      · exact .inl (.inr h)
    · exact .inl h

theorem Split.turn {hub : Hub} {row : Row} {bytes : Bytes} (h : Split hub.store c)
    (ho : Ordered hub.cursor c) (hnext : hub.Next row) :
    Split hub.store (c.sendEach R .lagLimitExceeded (offer row ⟨bytes, some row⟩)) := by
  simp only [Conn.sendEach]
  split
  swap
  · exact h
  rename_i hreg
  have hmatch := (offer_frame row ⟨bytes, some row⟩ c.sub).1
  have hsent : Split hub.store { c with sub := (offer row ⟨bytes, some row⟩ c.sub).2 } := by
    refine ⟨h.untilSeq_le, fun blob hblob r hr => ?_, ?_, ?_⟩
    · rcases mem_offer hblob with hold | ⟨hrow, hw, hwm⟩
      · exact h.classified blob hold r hr
      · obtain rfl : row = r := Option.some.inj (hrow.symm.trans hr)
        intro u hu id hid
        have habove := (ho.below hnext.lt.1 hwm).2 u hu
        exact ⟨fun hle => absurd habove (not_lt.mpr hle),
          fun _ k hk => h.later hreg u hu row hnext.lt.2 hw habove k hk id hid⟩
    · intro ha since hsince u hu r hr hw
      rw [wants, hmatch] at hw
      exact h.window ha since hsince u hu r hr hw
    · intro hr u hu r hrow hw
      rw [wants, hmatch] at hw
      exact h.later hr u hu r hrow hw
  split
  · exact hsent.same (evict_same _ _)
  · exact hsent

theorem mem_replayRows (rows : List Row) (sub : Subscriber) {blob : Blob}
    (h : blob ∈ (replayRows R rows sub).2.handed) :
    blob ∈ sub.handed ∨ ∃ row ∈ rows, blob.row = some row ∧
      sub.matches row.owner row.repo row.eventType = true := by
  induction rows generalizing sub with
  | nil => exact .inl h
  | cons row rest ih =>
    simp only [replayRows] at h
    split at h
    · rcases ih sub h with hold | ⟨r, hr, hrow⟩
      · exact .inl hold
      · exact .inr ⟨r, List.mem_cons_of_mem _ hr, hrow⟩
    rename_i hmatch
    split at h
    · exact .inl h
    · rename_i bytes hblob
      have hstep := enqueue_enqueued sub ⟨bytes, some row⟩ true
      have hone : ∀ b ∈ (sub.enqueue ⟨bytes, some row⟩ true).2.handed,
          b ∈ sub.handed ∨ b = ⟨bytes, some row⟩ := by
        intro b hb
        rcases hstep.outcome with ⟨hhanded, -⟩ | ⟨hhanded, -⟩ <;> rw [hhanded] at hb
        · simpa using hb
        · exact .inl hb
      have hfirst : ∀ b ∈ (sub.enqueue ⟨bytes, some row⟩ true).2.handed, b ∈ sub.handed ∨
          ∃ r ∈ row :: rest, b.row = some r ∧
            sub.matches r.owner r.repo r.eventType = true := by
        intro b hb
        rcases hone b hb with hold | rfl
        · exact .inl hold
        · exact .inr ⟨row, List.mem_cons_self, rfl, by simpa using hmatch⟩
      split at h
      · exact hfirst blob h
      · rcases ih _ h with hold | ⟨r, hr, hrow⟩
        · exact hfirst blob hold
        · rw [hstep.envelope.matches_eq] at hrow
          exact .inr ⟨r, List.mem_cons_of_mem _ hr, hrow⟩

theorem mem_drainPreAck {blob : Blob}
    (h : blob ∈ c.drainPreAck.1.sub.handed ++ buffer c.drainPreAck.1) :
    blob ∈ c.sub.handed ++ buffer c := by
  obtain ⟨sub, kept, henv, hsub, hkept, hcases⟩ := drainPreAck_spec c
  have hdrained : c.drainPreAck.1.sub = sub := by
    rcases hcases with ⟨-, heq⟩ | heq <;> rw [heq]
  have hnone : sub.preAckBuffer = none := henv.preAckBuffer
  rw [buffer, hdrained, hnone, Option.getD_none, List.append_nil, hkept, List.mem_append] at h
  exact List.mem_append.mpr (h.imp_right fun hmem => hsub.subset hmem)

theorem Split.drainPreAck (h : Split store c) : Split store c.drainPreAck.1 := by
  have hclassified : ∀ blob ∈ c.drainPreAck.1.sub.handed ++ buffer c.drainPreAck.1,
      ∀ row, blob.row = some row → Sided c row :=
    fun blob hblob => h.classified blob (mem_drainPreAck hblob)
  obtain ⟨sub, kept, henv, -, -, hcases⟩ := drainPreAck_spec c
  have hmatch : sub.matches = c.sub.matches := henv.matches_eq
  rcases hcases with ⟨-, heq⟩ | heq <;> rw [heq] at hclassified ⊢
  all_goals
    refine ⟨h.untilSeq_le, hclassified, (fun h => by cases h), fun hreg u hu row hrow hw => ?_⟩
    rw [wants, hmatch] at hw
    exact h.later hreg u hu row hrow hw

theorem Split.quit (h : Split store c) {task : Task} (ha : ¬Awaiting task) :
    Split store { c with task } :=
  ⟨h.untilSeq_le, h.classified, fun hno => absurd hno ha, h.later⟩

theorem Split.resume (h : Split store c) {fault : Bool} {r : Conn × Option CloseReason}
    (hr : c.resume R store fault = some r) : Split store r.1 := by
  have hreplayed : ∀ {since outcome sub} task, c.task = .ackDone → c.since = some since →
      replayRows R (store.iterEventsAbove (store.seqForEventId since.val) c.untilSeq replayLimit)
        c.sub = (outcome, sub) → Split store { c with sub, task } := by
    intro since outcome sub task htask hsince heq
    have ha : Awaiting c.task := by rw [htask]; exact trivial
    have henv := (replayRows_spec (R := R)
      (store.iterEventsAbove (store.seqForEventId since.val) c.untilSeq replayLimit) c.sub).1
    rw [heq] at henv
    refine ⟨h.untilSeq_le, fun blob hblob row hrow => ?_, ?_, ?_⟩
    · rw [buffer, henv.preAckBuffer, List.mem_append] at hblob
      have hold : ∀ b ∈ c.sub.handed ++ buffer c, b.row = some row → Sided c row :=
        fun b hb hbrow => h.classified b hb row hbrow
      rcases hblob with hblob | hblob
      · have hsent : blob ∈ (replayRows R (store.iterEventsAbove
            (store.seqForEventId since.val) c.untilSeq replayLimit) c.sub).2.handed := by rwa [heq]
        rcases mem_replayRows _ _ hsent with hblob | ⟨row', hwindow, hrow', hw⟩
        · exact hold blob (List.mem_append_left _ hblob) hrow
        · obtain rfl : row' = row := Option.some.inj (hrow'.symm.trans hrow)
          obtain ⟨hmem, hlt, hle⟩ := Store.mem_iterEventsAbove hwindow
          exact fun u hu id hid => ⟨fun _ => h.window ha since hsince u hu row' hmem hw hlt
            (hle u hu) id hid, fun hgt => absurd (hle u hu) (not_le.mpr hgt)⟩
      · exact hold blob (List.mem_append_right _ hblob) hrow
    · intro _ since' hsince' u hu row hrow hw
      rw [wants, henv.matches_eq] at hw
      exact h.window ha since' hsince' u hu row hrow hw
    · intro hreg u hu row hrow hw
      rw [wants, henv.matches_eq] at hw
      exact h.later hreg u hu row hrow hw
  cases resume_cases hr with
  | ackFailed | faulted => exact h.quit id
  | live => exact h.drainPreAck
  | replayed htask hsince heq => exact (hreplayed c.task htask hsince heq).drainPreAck
  | lagged htask hsince heq | raised htask hsince heq => exact hreplayed _ htask hsince heq

theorem Split.join {hub : Hub} {env : Envelope} {fault : Bool}
    (hleads : fault = false → NewestLeads hub.store env) :
    Split hub.store (hub.register R env fault) := by
  have hfar : ∀ row ∈ hub.store.fanOutable, ¬hub.store.currentMaxSnapshot.1 < row.seq :=
    fun row hrow => not_lt.mpr (Store.seq_le_snapshot hrow)
  simp only [Hub.register]
  split
  · exact ⟨(by simp), fun blob hblob => absurd hblob List.not_mem_nil, (by simp), (by simp)⟩
  · rename_i hfault
    have hsnap : ∀ u ∈ (if env.since.isSome then some hub.store.currentMaxSnapshot.1 else none),
        env.since.isSome = true ∧ u = hub.store.currentMaxSnapshot.1 := by
      intro u hu
      split at hu
      · rename_i hsince
        exact ⟨hsince, (Option.some.inj hu).symm⟩
      · cases hu
    have hkeep : ∀ (ack : Bytes) (task : Task), Split hub.store {
          fd := env.fd
          sub := env.subscriber
            (if env.since.isSome then some hub.store.currentMaxSnapshot.1 else none)
          registered := true, since := env.since
          untilSeq := if env.since.isSome then some hub.store.currentMaxSnapshot.1 else none
          caughtUpAt := if env.since.isSome then hub.store.currentMaxSnapshot.2 else none
          ack, task, joinedAt := hub.cursor } := by
      intro ack task
      refine ⟨fun u hu => (hsnap u hu).2 ▸ hub.store.snapshot_le_lastSeq,
        fun blob hblob => absurd hblob List.not_mem_nil, ?_, ?_⟩
      · intro _ since hsince u hu row hrow hw hlt _ id hid
        obtain ⟨hsome, -⟩ := hsnap u hu
        simp only [hsome, Bool.true_and, Bool.not_eq_true] at hfault
        simp only [hsome, if_true]
        exact hleads hfault since hsince row hrow hw hlt id hid
      · intro _ u hu row hrow _ hlt
        exact absurd hlt ((hsnap u hu).2 ▸ hfar row hrow)
    split
    · exact hkeep _ _
    · exact hkeep _ _

end Steps

section Runs

variable {R : Runtime} {hub : Hub} {c : Conn}

theorem split_invariant : ConnInvariant R IdsFollow fun store cursor c =>
    Ordered cursor c ∧ Split store c where
  grows _ hok hall hc h := ⟨h.1, h.2.grows hok hall hc⟩
  pass _ _ hwf _ hQ := pass_of_turn (Q := fun store cursor c => Ordered cursor c ∧ Split store c)
    (fun _ hnext _ _ h => ⟨h.1.turn hnext.lt.1 _, h.2.turn h.1 hnext⟩) _ _ hwf hQ
  beat _ _ _ _ h := ⟨h.1.same (beat_same _ _), h.2.same (beat_same _ _)⟩
  join _ hok _ := ⟨.join, .join hok⟩
  ackSend _ _ _ hsend h := ⟨h.1.same (ackSend_same hsend), h.2.same (ackSend_same hsend)⟩
  ackTimeout _ _ _ hsend h :=
    ⟨h.1.same (ackTimeout_same hsend), h.2.same (ackTimeout_same hsend)⟩
  resume _ _ _ hr h :=
    ⟨(h.1.resume hr).same (settle_same _ _), (h.2.resume hr).same (settle_same _ _)⟩
  writable _ _ _ hsend h := ⟨h.1.same (writable_same hsend), h.2.same (writable_same hsend)⟩
  cancel h := ⟨h.1.same (cancel_same _), h.2.same (cancel_same _)⟩
  shut h := ⟨h.1.same (settle_same _ _), h.2.same (settle_same _ _)⟩

/-- The seqs tell the sources apart: the replay's rows are at the snapshot or below it, those of
the buffer and of the live loop above. -/
def SourcesSplit (hub : Hub) (c : Conn) : Prop :=
  ∀ u ∈ c.untilSeq,
    (∀ since ∈ c.since, ∀ row ∈ hub.store.iterEventsAbove
      (hub.store.seqForEventId since.val) c.untilSeq replayLimit, row.seq ≤ u) ∧
    (∀ blob ∈ buffer c, ∀ row ∈ blob.row, u < row.seq) ∧
    ∀ row blob, hub.Next row → offer row blob c.sub ≠ (false, c.sub) → u < row.seq

theorem sources_split (h : Reachable (hubSystem R) hub) (hc : c ∈ hub.conns) :
    SourcesSplit hub c := by
  have ho := ordered_invariant.reach h c hc
  refine fun u hu => ⟨fun since _ row hrow => (Store.mem_iterEventsAbove hrow).2.2 u hu,
    fun blob hblob row hrow => ?_, fun row blob hnext htaken => ?_⟩
  · refine ho.aboveSnapshot row.seq (List.mem_filterMap.mpr ⟨blob, hblob, ?_⟩) u hu
    rw [show blob.row = some row from hrow]
    rfl
  · rcases offer_cases row blob c.sub with ⟨-, heq⟩ | ⟨-, hw, -⟩
    · exact absurd heq htaken
    · exact (ho.below hnext.lt.1 hw).2 u hu

/-- In every run in which ids follow seqs across the snapshots, `caught_up_at` tells replayed
frames from live ones. -/
theorem caught_up_classifies (h : Reach (hubSystem R) IdsFollow hub) :
    ∀ c ∈ hub.conns, Classified c ∧ SourcesSplit hub c :=
  fun c hc => ⟨fun blob hblob => (split_invariant.reach h c hc).2.classified blob
    (List.mem_append_left _ hblob), sources_split h.reachable hc⟩

/-- Row 2 is replayed from row 1 on; row 3 is live. -/
theorem caught_up_classifies_run : ∃ hub : Hub,
    (∃ c ∈ hub.conns, c.untilSeq = some 2 ∧ seqs c.sub.handed = [2, 3]) ∧
    ∀ c ∈ hub.conns, Classified c ∧ SourcesSplit hub c := by
  let labels : List Label := [
    .subscribe (sampleEnvelope 3 [] (some (ulidAt 1))) false, .ackSend 0,
    .commit [(sampleEvent 3, ulidAt 3)], .resume 0 false, .broadcastPass false]
  obtain ⟨hub, hrun, hends⟩ : ∃ hub ∈ (hubSystem .reference).exec
      (Hub.seeded (sampleStore 2)) labels, ∃ c ∈ hub.conns, c.untilSeq = some 2 ∧
        seqs c.sub.handed = [2, 3] := by decide +kernel
  have hstart : Reach (hubSystem .reference) IdsFollow (Hub.seeded (sampleStore 2)) :=
    .start (seeded_init _ _)
  exact ⟨hub, hends, caught_up_classifies (hstart.exec hrun (by decide +kernel))⟩

def skewedStore : Store :=
  (Store.empty.insertAll [(sampleEvent 1, ulidAt 3), (sampleEvent 2, ulidAt 9),
    (sampleEvent 3, ulidAt 5)]).toOption.elim .empty (·.2)

/-- Row 2 is replayed with an id above `caught_up_at`, row 4 is live with one below. -/
theorem caught_up_misleads : ∃ hub c u k, Reachable (hubSystem .reference) hub ∧
    c ∈ hub.conns ∧ c.untilSeq = some u ∧ c.caughtUpAt = some k ∧
    (∃ blob ∈ c.sub.handed, ∃ row ∈ blob.row, row.seq ≤ u ∧ ∃ id ∈ row.eventId, k < id.val) ∧
    (∃ blob ∈ c.sub.handed, ∃ row ∈ blob.row, u < row.seq ∧ ∃ id ∈ row.eventId, id.val < k) ∧
    ¬Classified c := by
  let labels : List Label := [
    .subscribe (sampleEnvelope 3 [] (some (ulidAt 3))) false, .ackSend 0,
    .commit [(sampleEvent 4, ulidAt 4)], .resume 0 false, .broadcastPass false]
  obtain ⟨hub, hrun, c, hc, huntil, hcaught, hreplayed, hlive, hno⟩ :
      ∃ hub ∈ (hubSystem .reference).exec (Hub.seeded skewedStore) labels, ∃ c ∈ hub.conns,
      c.untilSeq = some 3 ∧ c.caughtUpAt = some (ulidAt 5).val ∧
      (∃ blob ∈ c.sub.handed, ∃ row ∈ blob.row, row.seq ≤ 3 ∧
        ∃ id ∈ row.eventId, (ulidAt 5).val < id.val) ∧
      (∃ blob ∈ c.sub.handed, ∃ row ∈ blob.row, 3 < row.seq ∧
        ∃ id ∈ row.eventId, id.val < (ulidAt 5).val) ∧ ¬Classified c := by decide +kernel
  have hstart : Reachable (hubSystem .reference) (Hub.seeded skewedStore) :=
    .start (seeded_init _ _)
  exact ⟨hub, c, 3, (ulidAt 5).val, hstart.exec hrun, hc, huntil, hcaught, hreplayed, hlive, hno⟩

end Runs

end Waitbus.Classify
