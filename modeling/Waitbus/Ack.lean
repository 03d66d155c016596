import Waitbus.Delivery

/-! Whether the ack is the first thing on a connection's wire. It is written by a path of its own
while the connection is already in the map: the live loop is kept off the wire by the pre-ack
buffer, but the heartbeat is not, nor is the reject frame of an overflow of that buffer. -/

namespace Waitbus.Ack
open Python FrameCodec EventStore RowFrame TxQueue Runs Daemon Delivery

def Acked (c : Conn) : Prop :=
  c.ack ≠ [] ∧ c.ack <+: c.sub.sock.wire

instance (c : Conn) : Decidable (Acked c) :=
  inferInstanceAs (Decidable (_ ∧ _))

/-- The live loop would hand this row to the connection, or buffer it. -/
def passes (c : Conn) (row : Row) : Bool :=
  c.sub.matches row.owner row.repo row.eventType && !c.sub.replayWatermark.any (row.seq ≤ ·)

/-- The pre-ack buffer has a place for every one of `rows` that is to go there. -/
def Room (rows : List Row) (c : Conn) : Prop :=
  (buffer c).length + (rows.filter (passes c)).length ≤ preAckBufferFrames

/-- No heartbeat falls, and no pass overflows the buffer of a connection, before its ack is
written. -/
def QuietUntilAcked (hub : Hub) : Label → Prop
  | .heartbeat _ _ => ∀ c ∈ hub.conns, c.registered = true → Acked c
  | .broadcastPass fault | .shutdown fault =>
    fault = false → ∀ c ∈ hub.conns, c.registered = true → ¬Acked c → Room hub.swept c
  | _ => True

instance (rows : List Row) (c : Conn) : Decidable (Room rows c) :=
  inferInstanceAs (Decidable (_ ≤ _))

instance (hub : Hub) : ∀ label, Decidable (QuietUntilAcked hub label)
  | .heartbeat _ _ => inferInstanceAs (Decidable (∀ c ∈ hub.conns, _))
  | .broadcastPass _ | .shutdown _ =>
    inferInstanceAs (Decidable (_ = false → ∀ c ∈ hub.conns, _))
  | .commit _ | .subscribe _ _ | .ackSend _ | .ackTimeout _ | .resume _ _ | .writable _
  | .cancelHandshakes => isTrue trivial

structure AckFirst (R : Runtime) (c : Conn) : Prop where
  wire : c.sub.sock.wire <+: c.ack ∨ Acked c
  encoded : c.ack ≠ [] → ∃ frame, encodeStructFrame R (.subscribeAck frame) = .ok c.ack
  pending : ∀ started rest, c.task = .ackPending started rest →
    c.sub.sock.wire ++ rest = c.ack ∧ rest ≠ []
  done : c.task = .ackDone ∨ c.task = .served → Acked c
  quiet : ¬Acked c → c.sub.preAckBuffer ≠ none ∧ c.sub.txQueue = []
  bytes : c.sub.preAckBufferedBytes ≤ (buffer c).length * (maxFrameBytes + lengthPrefixBytes)

section Steps

variable {R : Runtime} {c c' : Conn}

theorem Acked.grows (h : Acked c) (hack : c'.ack = c.ack)
    (hwire : c.sub.sock.wire <+: c'.sub.sock.wire) : Acked c' := by
  rw [Acked, hack]
  exact ⟨h.1, h.2.trans hwire⟩

theorem not_acked_of_rest {rest : Bytes} (hall : c.sub.sock.wire ++ rest = c.ack)
    (hne : rest ≠ []) : ¬Acked c := by
  intro ha
  have hle := ha.2.length_le
  have hpos := List.length_pos_iff.mpr hne
  rw [← hall, List.length_append] at hle
  omega

theorem AckFirst.not_acked (h : AckFirst R c) {started : Bool} {rest : Bytes}
    (htask : c.task = .ackPending started rest) : ¬Acked c :=
  not_acked_of_rest (h.pending started rest htask).1 (h.pending started rest htask).2

theorem AckFirst.after (h : AckFirst R c) (ha : Acked c) (hack : c'.ack = c.ack)
    (hwire : c.sub.sock.wire <+: c'.sub.sock.wire)
    (htask : ∀ started rest, c'.task ≠ .ackPending started rest)
    (hbytes : c'.sub.preAckBufferedBytes ≤
      (buffer c').length * (maxFrameBytes + lengthPrefixBytes)) : AckFirst R c' := by
  have ha' := ha.grows hack hwire
  refine ⟨.inr ha', ?_, fun s r ht => absurd ht (htask s r), fun _ => ha',
    fun hno => absurd ha' hno, hbytes⟩
  rw [hack]
  exact h.encoded

theorem AckFirst.before (h : AckFirst R c) (hno : ¬Acked c) (hack : c'.ack = c.ack)
    (hwire : c'.sub.sock.wire = c.sub.sock.wire)
    (htask : c'.task = c.task ∨ c'.task = .ackFailed ∨ c'.task = .bailed ∨ c'.task = .cancelled)
    (hbuffer : c'.sub.preAckBuffer ≠ none) (hqueue : c'.sub.txQueue = [])
    (hbytes : c'.sub.preAckBufferedBytes ≤
      (buffer c').length * (maxFrameBytes + lengthPrefixBytes)) : AckFirst R c' := by
  have hno' : ¬Acked c' := by
    rw [Acked, hack, hwire]
    exact hno
  refine ⟨?_, ?_, fun s r ht => ?_, fun hd => ?_, fun _ => ⟨hbuffer, hqueue⟩, hbytes⟩
  · rw [hack, hwire]
    exact .inl (h.wire.resolve_right hno)
  · rw [hack]
    exact h.encoded
  · rcases htask with htask | htask | htask | htask <;> rw [htask] at ht
    · rw [hack, hwire]
      exact h.pending s r ht
    all_goals cases ht
  · rcases htask with htask | htask | htask | htask <;> rw [htask] at hd
    · exact absurd (h.done hd) hno
    all_goals exact absurd hd (by simp)

theorem evict_wire (reason : CloseReason) (c : Conn) :
    c.sub.sock.wire <+: (c.evict R reason).sub.sock.wire ∧
      (terminalRejectFrame R reason = none →
        (c.evict R reason).sub.sock.wire = c.sub.sock.wire) := by
  obtain ⟨sock, draining, heq, -, tip, hwire, htip⟩ :=
    close_eq c.sub (terminalRejectFrame R reason)
  rw [Conn.evict, heq]
  refine ⟨⟨tip, hwire.symm⟩, fun hnone => ?_⟩
  rcases htip with rfl | ⟨-, frame, hframe, -⟩
  · simpa using hwire
  · rw [hnone] at hframe
    cases hframe

theorem evict_envelope (reason : CloseReason) (c : Conn) :
    SameEnvelope c.sub (c.evict R reason).sub ∧ (c.evict R reason).sub.txQueue = [] := by
  obtain ⟨sock, draining, heq, -⟩ := close_eq c.sub (terminalRejectFrame R reason)
  rw [Conn.evict, heq]
  exact ⟨⟨rfl, rfl, rfl, rfl, rfl⟩, rfl⟩

theorem AckFirst.evict (h : AckFirst R c) (reason : CloseReason)
    (hreject : ¬Acked c → terminalRejectFrame R reason = none) :
    AckFirst R (c.evict R reason) := by
  obtain ⟨hgrows, hsame⟩ := evict_wire (R := R) reason c
  obtain ⟨henv, hqueue⟩ := evict_envelope (R := R) reason c
  have hbuf : buffer (c.evict R reason) = buffer c := by rw [buffer, henv.preAckBuffer, buffer]
  have hbytes : (c.evict R reason).sub.preAckBufferedBytes ≤
      (buffer (c.evict R reason)).length * (maxFrameBytes + lengthPrefixBytes) := by
    rw [hbuf, henv.preAckBufferedBytes]
    exact h.bytes
  by_cases ha : Acked c
  · exact h.after ha rfl hgrows (fun s r ht => h.not_acked (c := c) ht ha) hbytes
  · refine h.before ha rfl (hsame (hreject ha)) (.inl rfl) ?_ hqueue hbytes
    rw [henv.preAckBuffer]
    exact (h.quiet ha).1

theorem AckFirst.settle (h : AckFirst R c) (close : Option CloseReason)
    (hreject : ¬Acked c → ∀ reason ∈ close, terminalRejectFrame R reason = none) :
    AckFirst R (c.settle R close) := by
  cases close with
  | none => exact h
  | some reason =>
    simp only [Conn.settle]
    split
    · exact h.evict reason fun hno => hreject hno reason rfl
    · exact h

theorem offer_wire (row : Row) (blob : Blob) (sub : Subscriber) :
    sub.sock.wire <+: (offer row blob sub).2.sock.wire := by
  rcases offer_cases row blob sub with
    ⟨-, heq⟩ | ⟨-, -, ⟨buffered, -, ⟨-, heq⟩ | heq⟩ | ⟨-, heq⟩⟩ <;> rw [heq]
  exact (enqueue_enqueued { sub with replayWatermark := none } blob true).wire

theorem offer_bytes (row : Row) (blob : Blob) {sub : Subscriber} {most : Nat}
    (hblob : blob.bytes.length ≤ most)
    (h : sub.preAckBufferedBytes ≤ (sub.preAckBuffer.getD []).length * most) :
    (offer row blob sub).2.preAckBufferedBytes ≤
      ((offer row blob sub).2.preAckBuffer.getD []).length * most := by
  rcases offer_cases row blob sub with
    ⟨-, heq⟩ | ⟨-, -, ⟨buffered, hbuffer, ⟨-, heq⟩ | heq⟩ | ⟨-, heq⟩⟩ <;> rw [heq]
  · exact h
  · exact h
  · rw [hbuffer, Option.getD_some] at h
    simp only [Option.getD_some, List.length_append, List.length_singleton, Nat.add_mul,
      Nat.one_mul]
    exact Nat.add_le_add h hblob
  · have henv := (enqueue_enqueued { sub with replayWatermark := none } blob true).envelope
    rw [henv.preAckBuffer, henv.preAckBufferedBytes]
    exact h

theorem passes_of_match {row : Row}
    (hmatch : c.sub.matches row.owner row.repo row.eventType = true)
    (hw : ∀ w, c.sub.replayWatermark = some w → w < row.seq) : passes c row = true := by
  rw [passes, hmatch]
  cases hwm : c.sub.replayWatermark with
  | none => rfl
  | some w => simpa using hw w hwm

theorem filter_passes_cleared {rows : List Row} (hmatch : c'.sub.matches = c.sub.matches)
    (hnone : c'.sub.replayWatermark = none)
    (hw : ∀ row ∈ rows, ∀ w, c.sub.replayWatermark = some w → w < row.seq) :
    rows.filter (passes c') = rows.filter (passes c) := by
  refine List.filter_congr fun row hrow => ?_
  cases hm : c.sub.matches row.owner row.repo row.eventType with
  | false => rw [passes, passes, hmatch, hm, Bool.false_and, Bool.false_and]
  | true =>
    rw [passes_of_match hm (hw row hrow)]
    exact passes_of_match (hmatch ▸ hm) fun w hwm => by simp [hnone] at hwm

theorem sendEach_kept {reason : CloseReason} {send : Subscriber → Bool × Subscriber}
    (hreg : c.registered = true) (hkeep : (send c.sub).1 = false) :
    c.sendEach R reason send = { c with sub := (send c.sub).2 } := by
  simp only [Conn.sendEach, hreg, hkeep, if_true, Bool.false_eq_true, if_false]

/-- A connection with room for the next row of a sweep buffers it, and has room for the others. -/
theorem AckFirst.turn_before (h : AckFirst R c) (hno : ¬Acked c) (hreg : c.registered = true)
    {row : Row} {rest : List Row} {bytes : Bytes} (hblob : rowBlob R row = .ok bytes)
    (hinc : ∀ r ∈ rest, row.seq < r.seq) (hroom : Room (row :: rest) c) :
    AckFirst R (c.sendEach R .lagLimitExceeded (offer row ⟨bytes, some row⟩)) ∧
      Room rest (c.sendEach R .lagLimitExceeded (offer row ⟨bytes, some row⟩)) := by
  have hsize : bytes.length ≤ maxFrameBytes + lengthPrefixBytes := by
    have := (rowBlob_length hblob).2
    omega
  obtain ⟨hbuffered, hqueue⟩ := h.quiet hno
  rcases offer_cases row ⟨bytes, some row⟩ c.sub with
    ⟨-, heq⟩ | ⟨hmatch, hw, ⟨buffered, hbuffer, ⟨hfull, -⟩ | heq⟩ | ⟨hnone, -⟩⟩
  · rw [sendEach_kept hreg (by rw [heq]), heq]
    refine ⟨h, le_trans ?_ hroom⟩
    exact Nat.add_le_add_left ((List.sublist_cons_self row rest).filter _).length_le _
  · exfalso
    have hb := h.bytes
    rw [Room, List.filter_cons_of_pos (passes_of_match hmatch hw), List.length_cons] at hroom
    simp only [buffer, hbuffer, Option.getD_some, preAckBufferBytes, preAckBufferFrames,
      lagLimit, maxFrameBytes, lengthPrefixBytes] at hroom hb hfull hsize
    omega
  · have hbytes := offer_bytes row ⟨bytes, some row⟩ hsize h.bytes
    have hrest : rest.filter (passes { c with sub := (offer row ⟨bytes, some row⟩ c.sub).2 }) =
        rest.filter (passes c) :=
      filter_passes_cleared (by rw [heq]; rfl) (by rw [heq])
        fun r hr w hwm => (hw w hwm).trans (hinc r hr)
    rw [sendEach_kept hreg (by rw [heq]), heq]
    rw [heq] at hbytes hrest
    refine ⟨h.before hno rfl rfl (.inl rfl) (by simp) hqueue hbytes, ?_⟩
    rw [Room, List.filter_cons_of_pos (passes_of_match hmatch hw), List.length_cons] at hroom
    rw [Room, hrest]
    simp only [buffer, hbuffer, Option.getD_some, List.length_append,
      List.length_singleton] at hroom ⊢
    omega
  · exact absurd hnone hbuffered

theorem AckFirst.turn (h : AckFirst R c) {row : Row} {rest : List Row} {bytes : Bytes}
    (hblob : rowBlob R row = .ok bytes) (hinc : ∀ r ∈ rest, row.seq < r.seq)
    (hroom : c.registered = true → ¬Acked c → Room (row :: rest) c) :
    let c' := c.sendEach R .lagLimitExceeded (offer row ⟨bytes, some row⟩)
    AckFirst R c' ∧ (c'.registered = true → ¬Acked c' → Room rest c') := by
  intro c'
  by_cases hreg : c.registered = true
  swap
  · have hsame : c' = c := by simp only [c', Conn.sendEach, if_neg hreg]
    rw [hsame]
    exact ⟨h, fun hr => absurd hr hreg⟩
  by_cases ha : Acked c
  swap
  · obtain ⟨hfirst, hrest⟩ := h.turn_before ha hreg hblob hinc (hroom hreg ha)
    exact ⟨hfirst, fun _ _ => hrest⟩
  have hsize : bytes.length ≤ maxFrameBytes + lengthPrefixBytes := by
    have := (rowBlob_length hblob).2
    omega
  have hsent : AckFirst R { c with sub := (offer row ⟨bytes, some row⟩ c.sub).2 } :=
    h.after ha rfl (offer_wire row ⟨bytes, some row⟩ c.sub)
      (fun s r ht => h.not_acked (c := c) ht ha)
      (offer_bytes row ⟨bytes, some row⟩ hsize h.bytes)
  have hacked : Acked { c with sub := (offer row ⟨bytes, some row⟩ c.sub).2 } :=
    ha.grows rfl (offer_wire row ⟨bytes, some row⟩ c.sub)
  simp only [c', Conn.sendEach, if_pos hreg]
  split
  · exact ⟨hsent.evict _ fun hno => absurd hacked hno, fun hr => (by cases hr)⟩
  · exact ⟨hsent, fun _ hno => absurd hacked hno⟩

theorem AckFirst.beat (h : AckFirst R c) (bytes : Bytes) (hacked : c.registered = true → Acked c) :
    AckFirst R (c.sendEach R .heartbeatLag (beat ⟨bytes, none⟩)) := by
  have hstep := enqueue_enqueued c.sub ⟨bytes, none⟩ false
  simp only [Conn.sendEach]
  split
  swap
  · exact h
  rename_i hreg
  have ha := hacked hreg
  have hacked' : Acked { c with sub := (Daemon.beat ⟨bytes, none⟩ c.sub).2 } :=
    ha.grows rfl hstep.wire
  have hsent : AckFirst R { c with sub := (Daemon.beat ⟨bytes, none⟩ c.sub).2 } := by
    refine h.after ha rfl hstep.wire (fun s r ht => h.not_acked (c := c) ht ha) ?_
    simp only [Daemon.beat, buffer, hstep.envelope.preAckBuffer,
      hstep.envelope.preAckBufferedBytes]
    exact h.bytes
  split
  · exact hsent.evict _ fun hno => absurd hacked' hno
  · exact hsent

theorem AckFirst.ackSend (h : AckFirst R c) (hsend : c.ackSend = some c') : AckFirst R c' := by
  obtain ⟨started, rest, sent, left, htask, hattempt⟩ := ackSend_cases hsend
  have hno := h.not_acked htask
  obtain ⟨hall, hrest⟩ := h.pending started rest htask
  have hpart : c'.sub.sock.wire ++ left = c.ack := by
    rw [hattempt.wire, List.append_assoc, hattempt.split, hall]
  rw [hattempt.frame]
  rcases hattempt.outcome with ⟨htask', -⟩ | ⟨htask', hleft⟩ | ⟨htask', rfl, -⟩ <;> rw [htask']
  -- Short of the end of the ack: the handshake has failed, or the write goes on later.
  · exact ⟨.inl ⟨left, hpart⟩, h.encoded, nofun, nofun, fun _ => h.quiet hno, h.bytes⟩
  · refine ⟨.inl ⟨left, hpart⟩, h.encoded, fun s r hr => ?_, nofun, fun _ => h.quiet hno, h.bytes⟩
    cases hr
    exact ⟨hpart, hleft hrest⟩
  · rw [List.append_nil] at hpart
    have hne : c.ack ≠ [] := by
      rw [← hall]
      exact List.append_ne_nil_of_right_ne_nil _ hrest
    have ha : Acked { c with sub := { c.sub with sock := c'.sub.sock }, task := .ackDone } :=
      ⟨hne, hpart ▸ List.prefix_refl _⟩
    exact ⟨.inr ha, h.encoded, nofun, fun _ => ha, fun hno' => absurd ha hno', h.bytes⟩

theorem AckFirst.ackAbort (h : AckFirst R c) {started : Bool} {rest : Bytes}
    (htask : c.task = .ackPending started rest) {task : Task}
    (ht : task = .ackFailed ∨ task = .cancelled) : AckFirst R (c.ackAbort task) := by
  have hno := h.not_acked htask
  refine h.before hno rfl (dropAckWriter_keeps _).2.1 ?_ (h.quiet hno).1 (h.quiet hno).2 h.bytes
  exact ht.elim (fun ht => .inr (.inl ht)) fun ht => .inr (.inr (.inr ht))

theorem AckFirst.cancel (h : AckFirst R c) : AckFirst R c.cancel := by
  unfold Conn.cancel
  split
  · rename_i htask
    exact h.ackAbort htask (.inr rfl)
  · rename_i htask
    exact h.after (h.done (.inl htask)) rfl (List.prefix_refl _) nofun h.bytes
  · by_cases ha : Acked c
    · exact h.after ha rfl (List.prefix_refl _) nofun h.bytes
    · exact h.before ha rfl rfl (.inr (.inr (.inr rfl))) (h.quiet ha).1 (h.quiet ha).2 h.bytes
  · exact h

theorem replayRows_wire (rows : List Row) (sub : Subscriber) :
    sub.sock.wire <+: (replayRows R rows sub).2.sock.wire := by
  induction rows generalizing sub with
  | nil => exact List.prefix_refl _
  | cons row rest ih =>
    simp only [replayRows]
    split
    · exact ih sub
    · split
      · exact List.prefix_refl _
      · rename_i bytes hblob
        have hstep := (enqueue_enqueued sub ⟨bytes, some row⟩ true).wire
        split
        · exact hstep
        · exact hstep.trans (ih _)

theorem drainBuffer_wire (blobs : List Blob) (sub : Subscriber) :
    sub.sock.wire <+: (drainBuffer blobs sub).2.sock.wire := by
  induction blobs generalizing sub with
  | nil => exact List.prefix_refl _
  | cons blob rest ih =>
    simp only [drainBuffer]
    have hstep := (enqueue_enqueued sub blob true).wire
    split
    · exact hstep
    · exact hstep.trans (ih _)

theorem AckFirst.drainPreAck (h : AckFirst R c) (ha : Acked c) :
    AckFirst R c.drainPreAck.1 ∧ Acked c.drainPreAck.1 := by
  have hwire := drainBuffer_wire (c.sub.preAckBuffer.getD [])
    { c.sub with preAckBuffer := none, preAckBufferedBytes := 0 }
  obtain ⟨henv, -⟩ := drainBuffer_spec (c.sub.preAckBuffer.getD [])
    { c.sub with preAckBuffer := none, preAckBufferedBytes := 0 }
  have hzero : ∀ n, (0 : Nat) ≤ n := Nat.zero_le
  obtain ⟨sub, ⟨hdrain, heq⟩ | ⟨hdrain, heq⟩⟩ := drainPreAck_cases c <;>
    rw [hdrain] at hwire henv <;> rw [heq] <;>
    exact ⟨h.after ha rfl hwire nofun (henv.preAckBufferedBytes ▸ hzero _), ha.grows rfl hwire⟩

theorem AckFirst.resume (h : AckFirst R c) {store : Store} {fault : Bool}
    {r : Conn × Option CloseReason} (hr : c.resume R store fault = some r) :
    AckFirst R (r.1.settle R r.2) := by
  have hacked : ∀ (c' : Conn) close, Acked c' → AckFirst R c' → AckFirst R (c'.settle R close) :=
    fun c' close ha hfirst => hfirst.settle close fun hno => absurd ha hno
  have hquit : ∀ close, Acked c → AckFirst R (Conn.settle R { c with task := .bailed } close) :=
    fun close ha => hacked _ _ (ha.grows rfl (List.prefix_refl _))
      (h.after ha rfl (List.prefix_refl _) (by simp) h.bytes)
  have hdrained : ∀ c' : Conn, AckFirst R c' → Acked c' →
      AckFirst R (c'.drainPreAck.1.settle R c'.drainPreAck.2) := fun c' hfirst ha =>
    hacked _ _ (hfirst.drainPreAck ha).2 (hfirst.drainPreAck ha).1
  have hreplayed : ∀ {rows outcome sub} task, c.task = .ackDone →
      replayRows R rows c.sub = (outcome, sub) → (∀ s r, task ≠ .ackPending s r) →
      AckFirst R { c with sub, task } ∧ Acked { c with sub, task } := by
    intro rows outcome sub task htask heq hoff
    have ha := h.done (.inl htask)
    have hwire := replayRows_wire (R := R) rows c.sub
    obtain ⟨henv, -⟩ := replayRows_spec (R := R) rows c.sub
    rw [heq] at hwire henv
    refine ⟨h.after ha rfl hwire hoff ?_, ha.grows rfl hwire⟩
    rw [buffer, henv.preAckBuffer, henv.preAckBufferedBytes]
    exact h.bytes
  cases resume_cases hr with
  | ackFailed =>
    by_cases ha : Acked c
    · exact hquit _ ha
    · have hbail : AckFirst R { c with task := .bailed } :=
        h.before ha rfl rfl (.inr (.inr (.inl rfl))) (h.quiet ha).1 (h.quiet ha).2 h.bytes
      refine hbail.settle _ fun _ close hclose => ?_
      cases hclose
      rfl
  | live htask => exact hdrained c h (h.done (.inl htask))
  | faulted htask => exact hquit _ (h.done (.inl htask))
  | replayed htask _ heq =>
    obtain ⟨hfirst, ha⟩ := hreplayed c.task htask heq
      fun s r ht => by rw [htask] at ht; cases ht
    exact hdrained { c with sub := _ } hfirst ha
  | lagged htask _ heq =>
    obtain ⟨hfirst, ha⟩ := hreplayed .bailed htask heq (by simp)
    exact hacked _ _ ha hfirst
  | @raised _ _ _ task _ htask _ heq hend =>
    have hoff : ∀ s r, task ≠ .ackPending s r := by
      rcases hend with ⟨rfl, -⟩ | ⟨rfl, -⟩ <;> exact (by simp)
    obtain ⟨hfirst, ha⟩ := hreplayed task htask heq hoff
    exact hacked _ _ ha hfirst

theorem AckFirst.writable (h : AckFirst R c) (hsend : c.writable = some c') : AckFirst R c' := by
  obtain ⟨-, rfl⟩ := writable_cases hsend
  have hstep := drain_drained c.sub
  have hbytes : c.sub.drain.preAckBufferedBytes ≤
      (buffer { c with sub := c.sub.drain }).length * (maxFrameBytes + lengthPrefixBytes) := by
    rw [buffer, hstep.envelope.preAckBuffer, hstep.envelope.preAckBufferedBytes]
    exact h.bytes
  by_cases ha : Acked c
  · exact h.after ha rfl hstep.wire (fun s r ht => h.not_acked (c := c) ht ha) hbytes
  · -- Nothing is queued before the ack, so a flush has nothing to write.
    obtain ⟨hbuffered, hqueue⟩ := h.quiet ha
    obtain ⟨sock, draining, heq, hwire, -⟩ :=
      stopDraining_eq { c.sub with txQueue := [], lagCount := 0 }
    have hdrain : c.sub.drain = { c.sub with txQueue := [], lagCount := 0, sock, draining } := by
      rw [Subscriber.drain, hqueue, drainQueue, heq]
    rw [hdrain] at hbytes ⊢
    exact h.before ha rfl hwire (.inl rfl) hbuffered rfl hbytes

theorem AckFirst.join {hub : Hub} {env : Envelope} {fault : Bool} (hfresh : env.Fresh) :
    AckFirst R (hub.register R env fault) := by
  have hbytes : ∀ n : Nat, 0 ≤ n := Nat.zero_le
  have hrejected : ∀ c : Conn, c.sub.sock.wire = [] → c.ack = [] → (∃ exc, c.task = .raised exc) →
      c.sub.preAckBuffer ≠ none → c.sub.txQueue = [] → c.sub.preAckBufferedBytes = 0 →
      AckFirst R c := by
    rintro c hwire hack ⟨exc, htask⟩ hbuf hqueue hzero
    have hno : ¬Acked c := fun ha => ha.1 hack
    refine ⟨.inl (hwire ▸ List.nil_prefix), fun hne => absurd hack hne, fun s r ht => ?_,
      fun hd => ?_, fun _ => ⟨hbuf, hqueue⟩, hzero ▸ hbytes _⟩
    · rw [htask] at ht
      cases ht
    · rw [htask] at hd
      exact absurd hd (by simp)
  simp only [Hub.register]
  split
  · exact hrejected _ hfresh.wire rfl ⟨_, rfl⟩ (fun h => by cases h) rfl rfl
  · split
    · rename_i ack henc
      have hne : ack ≠ [] := fun hnil => by
        have := (encodeStructFrame_length henc).1
        simp [hnil, lengthPrefixBytes] at this
      have hall : env.sock.wire ++ ack = ack := by rw [hfresh.wire, List.nil_append]
      refine ⟨.inl ⟨ack, hall⟩, fun _ => ⟨_, henc⟩, fun s r ht => ?_, fun hd => ?_,
        fun _ => ⟨(fun h => by cases h), rfl⟩, hbytes _⟩
      · cases ht
        exact ⟨hall, hne⟩
      · exact absurd hd (by simp)
    · exact hrejected _ hfresh.wire rfl ⟨_, rfl⟩ (fun h => by cases h) rfl rfl

end Steps

section Runs

variable {R : Runtime} {hub : Hub}

theorem ackFirst_pass {stopping fault : Bool} (hwf : hub.WF)
    (hok : fault = false → ∀ c ∈ hub.conns, c.registered = true → ¬Acked c → Room hub.swept c)
    (h : ∀ c ∈ hub.conns, AckFirst R c) :
    ∀ c ∈ ({ hub with stopping }.broadcastPass R fault).2.conns, AckFirst R c := by
  cases fault with
  | true => exact h
  | false =>
    have hwf' : Hub.WF { hub with stopping } := ⟨hwf.openEntries, hwf.fds, hwf.cursor_le⟩
    have hinc : OrderedLog.Increasing Row.seq hub.swept :=
      hub.store.fanOutable_increasing.above.sublist
        (iterEventsAbove_first hub.store hub.cursor sweepLimit).sublist
    obtain ⟨-, left, ⟨-, hP⟩, -⟩ := broadcastPass_induction (R := R)
      (P := fun rows hub => OrderedLog.Increasing Row.seq rows ∧ ∀ c ∈ hub.conns,
        AckFirst R c ∧ (c.registered = true → ¬Acked c → Room rows c))
      (fun hub row rest bytes hwf _ hblob ⟨hinc, hP⟩ => by
        obtain ⟨hrow, hrest⟩ := List.pairwise_cons.mp hinc
        obtain ⟨count, heq⟩ := advance_eq (R := R) hwf row bytes
        refine ⟨hrest, fun c hc => ?_⟩
        rw [heq] at hc
        obtain ⟨d, hd, rfl⟩ := List.mem_map.mp hc
        obtain ⟨hfirst, hroom⟩ := hP d hd
        exact hfirst.turn hblob hrow hroom)
      hwf' false ⟨hinc, fun c hc => ⟨h c hc, hok rfl c hc⟩⟩
    exact fun c hc => (hP c hc).1

theorem ackFirst_invariant : ConnInvariant R QuietUntilAcked fun _ _ c => AckFirst R c where
  grows _ _ _ _ h := h
  pass _ _ hwf hok h := ackFirst_pass hwf (hok.elim id id) h
  beat _ hok _ hc h := h.beat _ (hok _ hc)
  join _ _ hfresh := .join hfresh
  ackSend _ _ _ hsend h := h.ackSend hsend
  ackTimeout _ _ _ hsend h := by
    obtain ⟨⟨started, rest, htask⟩, rfl⟩ := ackTimeout_cases hsend
    exact h.ackAbort htask (.inl rfl)
  resume _ _ _ hr h := h.resume hr
  writable _ _ _ hsend h := h.writable hsend
  cancel h := h.cancel
  shut h := h.settle _ fun _ reason hreason => by
    cases hreason
    rfl

/-- In every run that stays quiet until the acks are written, the bytes on a wire are a part of
its ack, or the whole ack comes first; and a handshake that goes on has written all of it. -/
theorem ack_first (h : Reach (hubSystem R) QuietUntilAcked hub) : ∀ c ∈ hub.conns,
    (c.sub.sock.wire <+: c.ack ∨ Acked c) ∧
      (c.task = .ackDone ∨ c.task = .served → Acked c) ∧
      (c.ack ≠ [] → ∃ frame, encodeStructFrame R (.subscribeAck frame) = .ok c.ack) :=
  fun c hc =>
    have hfirst := ackFirst_invariant.reach h c hc
    ⟨hfirst.wire, hfirst.done, hfirst.encoded⟩

theorem ack_first_run : ∃ hub : Hub, (∃ c ∈ hub.conns, c.task = .served ∧
      c.ack.length < c.sub.sock.wire.length) ∧ ∀ c ∈ hub.conns,
    (c.sub.sock.wire <+: c.ack ∨ Acked c) ∧
      (c.task = .ackDone ∨ c.task = .served → Acked c) ∧
      (c.ack ≠ [] → ∃ frame, encodeStructFrame .reference (.subscribeAck frame) = .ok c.ack) := by
  let labels : List Label := [.subscribe (sampleEnvelope 3 [.short 5] none) false, .ackSend 0,
    .broadcastPass false, .ackSend 0, .heartbeat ⟨1, by decide⟩ ⟨1, by decide⟩, .resume 0 false]
  obtain ⟨hub, hrun, hlong⟩ : ∃ hub ∈ (hubSystem .reference).exec (Hub.seeded .empty) labels,
      ∃ c ∈ hub.conns, c.task = .served ∧ c.ack.length < c.sub.sock.wire.length := by
    decide +kernel
  have hstart : Reach (hubSystem .reference) QuietUntilAcked (Hub.seeded .empty) :=
    .start (seeded_init _ _)
  exact ⟨hub, hlong, ack_first (hstart.exec hrun (by decide +kernel))⟩

/-- The heartbeat goes out behind the first five bytes of the ack. -/
theorem ack_interleaved : ∃ hub, Reachable (hubSystem .reference) hub ∧ ∃ c ∈ hub.conns,
    (∃ started, c.task = .ackPending started (c.ack.drop 5)) ∧ ¬c.sub.sock.wire <+: c.ack ∧
      ¬Acked c := by
  let labels : List Label := [.subscribe (sampleEnvelope 3 [.short 5] none) false, .ackSend 0,
    .heartbeat ⟨1, by decide⟩ ⟨1, by decide⟩]
  obtain ⟨hub, hrun, c, hc, htask, hwire⟩ :
      ∃ hub ∈ (hubSystem .reference).exec (Hub.seeded .empty) labels, ∃ c ∈ hub.conns,
        c.task = .ackPending true (c.ack.drop 5) ∧ ¬c.sub.sock.wire <+: c.ack ∧ ¬Acked c := by
    decide +kernel
  have hstart : Reachable (hubSystem .reference) (Hub.seeded .empty) := .start (seeded_init _ _)
  exact ⟨hub, hstart.exec hrun, c, hc, ⟨true, htask⟩, hwire⟩

end Runs

end Waitbus.Ack
