import Waitbus.Ack

/-! The counters of the daemon against what they count: the gauge against the map, the frames
delivered against the bytes the kernel took, the queues against the lag counts. -/

namespace Waitbus.Accounting
open Python FrameCodec FrameStream EventStore RowFrame TxQueue Runs OrderedLog Daemon Delivery
open Ack

/-- A frame that was handed to a subscriber, and how many of its bytes the kernel has taken. -/
structure Mark where
  blob : Blob
  taken : Nat

def Mark.entry (m : Mark) : Entry UInt8 × Bool :=
  (⟨m.blob.bytes, m.taken⟩, m.blob.row.isSome)

def Mark.delivered (m : Mark) : Bool :=
  m.blob.row.isSome && m.taken = m.blob.bytes.length

def written (marks : List Mark) : Bytes :=
  (marks.map fun m => m.blob.bytes.take m.taken).flatten

/-- The marks account for every frame that was handed over: those at the end that are still
queued have bytes to go, and only the first of these is begun. -/
structure Books (sub : Subscriber) (marks : List Mark) : Prop where
  frames : marks.map (·.blob) = sub.handed
  queue : ∃ out waiting, marks = out ++ waiting ∧ sub.txQueue = waiting.map Mark.entry ∧
    (∀ m ∈ waiting, m.taken < m.blob.bytes.length) ∧ ∀ m ∈ waiting.tail, m.taken = 0
  delivered : sub.delivered = marks.countP Mark.delivered

/-- A step of the transmit queue: what goes out continues the frames, and the queue stays within
the lag count. -/
structure Sends (sub sub' : Subscriber) : Prop where
  books : ∀ marks, Books sub marks → ∃ marks' sent, Books sub' marks' ∧
    sub'.sock.wire = sub.sock.wire ++ sent ∧ written marks' = written marks ++ sent
  lag : sub.txQueue.length ≤ sub.lagCount → sub'.txQueue.length ≤ sub'.lagCount

section Steps

variable {sub sub' : Subscriber} {marks : List Mark}

theorem Sends.refl (sub : Subscriber) : Sends sub sub :=
  ⟨fun marks h => ⟨marks, [], h, by simp, by simp⟩, id⟩

theorem Sends.trans {a b c : Subscriber} (h : Sends a b) (h' : Sends b c) : Sends a c := by
  refine ⟨fun marks hm => ?_, fun hl => h'.lag (h.lag hl)⟩
  obtain ⟨marks₁, sent₁, hm₁, hwire₁, hwritten₁⟩ := h.books marks hm
  obtain ⟨marks₂, sent₂, hm₂, hwire₂, hwritten₂⟩ := h'.books marks₁ hm₁
  refine ⟨marks₂, sent₁ ++ sent₂, hm₂, ?_, ?_⟩
  · rw [hwire₂, hwire₁, List.append_assoc]
  · rw [hwritten₂, hwritten₁, List.append_assoc]

theorem Sends.same (hwire : sub'.sock.wire = sub.sock.wire) (hqueue : sub'.txQueue = sub.txQueue)
    (hhanded : sub'.handed = sub.handed) (hdelivered : sub'.delivered = sub.delivered)
    (hlag : sub.lagCount ≤ sub'.lagCount) : Sends sub sub' := by
  refine ⟨fun marks hm => ⟨marks, [], ?_, by simp [hwire], by simp⟩, fun h => ?_⟩
  · exact ⟨by rw [hm.frames, hhanded], by rw [hqueue]; exact hm.queue,
      by rw [hdelivered, hm.delivered]⟩
  · rw [hqueue]
    exact h.trans hlag

theorem startDraining_sends (sub : Subscriber) : Sends sub sub.startDraining := by
  obtain ⟨sock, draining, heq, hwire, -⟩ := startDraining_eq sub
  rw [heq]
  exact .same hwire rfl rfl rfl (le_refl _)

theorem stopDraining_sends (sub : Subscriber) : Sends sub sub.stopDraining := by
  obtain ⟨sock, draining, heq, hwire, -⟩ := stopDraining_eq sub
  rw [heq]
  exact .same hwire rfl rfl rfl (le_refl _)

theorem written_append (a b : List Mark) : written (a ++ b) = written a ++ written b := by
  simp [written]

theorem written_unsent (h : ∀ m ∈ marks, m.taken = 0) : written marks = [] := by
  rw [written, List.flatten_eq_nil_iff]
  intro bytes hbytes
  obtain ⟨m, hm, rfl⟩ := List.mem_map.mp hbytes
  rw [h m hm, List.take_zero]

theorem Books.send (h : Books sub marks) {blob : Blob} {n : Nat}
    (hn : n < blob.bytes.length) {sock : Sock} (hwire : sock.wire = sub.sock.wire ++
      blob.bytes.take n) {lagCount : Nat} {counts : Bool} (hcounts : counts = blob.row.isSome) :
    ∃ marks' sent, Books { sub with
        sock, txQueue := [(⟨blob.bytes, n⟩, counts)], handed := sub.handed ++ [blob], lagCount }
        marks' ∧ sock.wire = sub.sock.wire ++ sent ∧ written marks' = written marks ++ sent := by
  refine ⟨marks ++ [⟨blob, n⟩], blob.bytes.take n, ⟨?_, ?_, ?_⟩, hwire, ?_⟩
  · simp [h.frames]
  · refine ⟨marks, [⟨blob, n⟩], rfl, by simp [Mark.entry, hcounts], by simpa using hn, by simp⟩
  · have hno : Mark.delivered ⟨blob, n⟩ = false := by
      simp only [Mark.delivered, Bool.and_eq_false_imp, decide_eq_false_iff_not]
      omega
    simp [h.delivered, hno]
  · rw [written_append]
    simp [written]

theorem enqueue_sends (sub : Subscriber) (blob : Blob) {counts : Bool} (hblob : blob.bytes ≠ [])
    (hcounts : counts = blob.row.isSome) : Sends sub (sub.enqueue blob counts).2 := by
  have hpos : 0 < blob.bytes.length := List.length_pos_iff.mpr hblob
  unfold Subscriber.enqueue
  split
  · refine Sends.trans ⟨fun marks h => ?_, fun hl => ?_⟩ (startDraining_sends _)
    · obtain ⟨out, waiting, rfl, hqueue, hleft, hbegun⟩ := h.queue
      have hno : Mark.delivered ⟨blob, 0⟩ = false := by
        simp only [Mark.delivered, Bool.and_eq_false_imp, decide_eq_false_iff_not]
        omega
      refine ⟨out ++ waiting ++ [⟨blob, 0⟩], [], ⟨by simp [← h.frames], ?_, ?_⟩, by simp, ?_⟩
      · refine ⟨out, waiting ++ [⟨blob, 0⟩], by simp, ?_, ?_, ?_⟩
        · simp [hqueue, Mark.entry, hcounts, Entry.ofFrame]
        · intro m hm
          rcases List.mem_append.mp hm with hm | hm
          · exact hleft m hm
          · rw [List.mem_singleton.mp hm]
            exact hpos
        · intro m hm
          have hm : m ∈ waiting.tail ∨ m = ⟨blob, 0⟩ := by
            cases waiting with
            | nil => simp at hm
            | cons w rest => simpa using hm
          rcases hm with hm | rfl
          · exact hbegun m hm
          · rfl
      · rw [List.countP_append, ← h.delivered]
        simp [hno]
      · rw [written_append]
        simp [written]
    · simp only [List.length_append, List.length_singleton]
      omega
  rename_i hempty
  have htx : sub.txQueue = [] := by simpa using hempty
  split
  · rename_i sock hsend
    refine Sends.trans ⟨fun marks h => ?_, fun _ => ?_⟩ (startDraining_sends _)
    · exact h.send hpos (by simpa using (send_blocked hsend).1) hcounts
    · simp
  · rename_i sock hsend
    obtain ⟨hwire, -⟩ := send_failed hsend
    refine ⟨fun marks h => ⟨marks, [], ⟨h.frames, h.queue, h.delivered⟩, ?_, by simp⟩, fun _ => ?_⟩
    · simp [hwire]
    · simp [htx]
  · rename_i n sock hsend
    obtain ⟨hn, hwire, -⟩ := send_accepted hsend
    split
    · rename_i hall
      refine ⟨fun marks h => ?_, fun _ => by simp [htx]⟩
      have hfull : blob.bytes.take n = blob.bytes := by rw [hall, List.take_length]
      refine ⟨marks ++ [⟨blob, blob.bytes.length⟩], blob.bytes, ⟨by simp [h.frames], ?_, ?_⟩,
        ?_, ?_⟩
      · exact ⟨marks ++ [⟨blob, blob.bytes.length⟩], [], by simp, by simp [htx], by simp, by simp⟩
      · simp only [List.countP_append, ← h.delivered]
        cases hrow : blob.row <;> simp [Mark.delivered, hrow, hcounts]
      · rw [hwire, hfull]
      · rw [written_append]
        simp [written]
    · rename_i hpart
      refine Sends.trans ⟨fun marks h => ?_, fun _ => ?_⟩ (startDraining_sends _)
      · exact h.send (by omega) hwire hcounts
      · simp

private theorem drainQueue_sends (queue : List (Entry UInt8 × Bool)) :
    ∀ sub : Subscriber, sub.txQueue = queue → Sends sub (drainQueue queue sub) := by
  induction queue with
  | nil =>
    intro sub hq
    rw [drainQueue]
    have hreset : Sends sub { sub with txQueue := [], lagCount := 0 } := by
      refine ⟨fun marks h => ⟨marks, [], ⟨h.frames, ?_, h.delivered⟩, by simp, by simp⟩,
        fun _ => Nat.zero_le _⟩
      obtain ⟨out, waiting, hsplit, hqueue, hleft, hbegun⟩ := h.queue
      exact ⟨out, waiting, hsplit, hq ▸ hqueue, hleft, hbegun⟩
    exact hreset.trans (stopDraining_sends _)
  | cons head rest ih =>
    intro sub hq
    obtain ⟨head, counts⟩ := head
    rw [drainQueue]
    split
    · rename_i sock hsend
      exact .same (send_blocked hsend).1 hq.symm rfl rfl (le_refl _)
    · rename_i sock hsend
      refine Sends.trans ⟨fun marks h => ?_, fun _ => Nat.zero_le _⟩ (stopDraining_sends _)
      refine ⟨marks, [], ⟨h.frames, ⟨marks, [], by simp⟩, h.delivered⟩, ?_, by simp⟩
      simp [(send_failed hsend).1]
    · rename_i n sock hsend
      obtain ⟨hn, hwire, -⟩ := send_accepted hsend
      -- The first waiting frame takes the bytes; those behind it are not begun.
      have hhead : ∀ marks, Books sub marks → ∃ out m behind, marks = out ++ m :: behind ∧
          head = ⟨m.blob.bytes, m.taken⟩ ∧ counts = m.blob.row.isSome ∧
          rest = behind.map Mark.entry ∧ m.taken < m.blob.bytes.length ∧
          (∀ b ∈ behind, b.taken < b.blob.bytes.length) ∧ ∀ b ∈ behind, b.taken = 0 := by
        intro marks h
        obtain ⟨out, waiting, hsplit, hqueue, hleft, hbegun⟩ := h.queue
        cases waiting with
        | nil => rw [hq] at hqueue; cases hqueue
        | cons m behind =>
          rw [hq, List.map_cons, Mark.entry] at hqueue
          simp only [List.cons.injEq, Prod.mk.injEq] at hqueue
          exact ⟨out, m, behind, hsplit, hqueue.1.1, hqueue.1.2, hqueue.2,
            hleft m List.mem_cons_self, fun b hb => hleft b (List.mem_cons_of_mem _ hb), hbegun⟩
      have hgrows : ∀ (out : List Mark) (m : Mark) (behind : List Mark) (k : Nat),
          (∀ b ∈ behind, b.taken = 0) → written (out ++ ⟨m.blob, m.taken + k⟩ :: behind) =
            written (out ++ m :: behind) ++ (m.blob.bytes.drop m.taken).take k := by
        intro out m behind k hbehind
        rw [written_append, written_append, ← List.singleton_append, written_append,
          ← List.singleton_append (l := behind), written_append, written_unsent hbehind]
        simp [written, List.take_add]
      split
      · rename_i hpart
        refine ⟨fun marks h => ?_, fun hl => by simpa [hq] using hl⟩
        obtain ⟨out, m, behind, rfl, rfl, rfl, hrest, hm, hleft, hbehind⟩ := hhead marks h
        simp only [Entry.rest, List.length_drop] at hpart hn hwire
        refine ⟨out ++ ⟨m.blob, m.taken + n⟩ :: behind, _, ⟨?_, ?_, ?_⟩, hwire,
          hgrows out m behind n hbehind⟩
        · simpa using h.frames
        · refine ⟨out, ⟨m.blob, m.taken + n⟩ :: behind, rfl, by simp [Mark.entry, hrest], ?_,
            hbehind⟩
          intro b hb
          rcases List.mem_cons.mp hb with rfl | hb
          · simp only
            omega
          · exact hleft b hb
        · have hno : Mark.delivered m = false := by
            simp only [Mark.delivered, Bool.and_eq_false_imp, decide_eq_false_iff_not]
            omega
          have hno' : Mark.delivered ⟨m.blob, m.taken + n⟩ = false := by
            simp only [Mark.delivered, Bool.and_eq_false_imp, decide_eq_false_iff_not]
            omega
          simp [h.delivered, List.countP_append, hno, hno']
      · rename_i hwhole
        refine Sends.trans ?_ (ih _ rfl)
        refine ⟨fun marks h => ?_, fun hl => ?_⟩
        · obtain ⟨out, m, behind, rfl, rfl, rfl, hrest, hm, hleft, hbehind⟩ := hhead marks h
          simp only [Entry.rest, List.length_drop] at hwhole hn hwire
          refine ⟨out ++ ⟨m.blob, m.taken + n⟩ :: behind, _, ⟨?_, ?_, ?_⟩, hwire,
            hgrows out m behind n hbehind⟩
          · simpa using h.frames
          · exact ⟨out ++ [⟨m.blob, m.taken + n⟩], behind, by simp, hrest, hleft,
              fun b hb => hbehind b (List.mem_of_mem_tail hb)⟩
          · have hno : Mark.delivered m = false := by
              simp only [Mark.delivered, Bool.and_eq_false_imp, decide_eq_false_iff_not]
              omega
            have hfull : m.taken + n = m.blob.bytes.length := by omega
            simp only [h.delivered, List.countP_append, List.countP_cons, hno]
            cases hrow : m.blob.row <;> simp [Mark.delivered, hrow, hfull]
            omega
        · rw [hq] at hl
          simp only [List.length_cons] at hl ⊢
          omega

theorem drain_sends (sub : Subscriber) : Sends sub sub.drain :=
  drainQueue_sends sub.txQueue sub rfl

private theorem drainQueue_length (queue : List (Entry UInt8 × Bool)) :
    ∀ sub : Subscriber, (drainQueue queue sub).txQueue.length ≤ queue.length := by
  have hstop : ∀ sub : Subscriber, sub.stopDraining.txQueue = sub.txQueue := fun sub => by
    obtain ⟨sock, draining, heq, -⟩ := stopDraining_eq sub
    rw [heq]
  induction queue with
  | nil =>
    intro sub
    rw [drainQueue, hstop]
  | cons head rest ih =>
    intro sub
    rw [drainQueue]
    split
    · exact le_refl _
    · rw [hstop]
      exact Nat.zero_le _
    · split
      · exact le_refl _
      · exact (ih _).trans (Nat.le_succ _)

theorem drain_length (sub : Subscriber) : sub.drain.txQueue.length ≤ sub.txQueue.length :=
  drainQueue_length sub.txQueue sub

end Steps

section Loops

variable {R : Runtime}

def IsEvent (blob : Blob) : Prop :=
  blob.bytes ≠ [] ∧ blob.row.isSome = true

theorem rowBlob_isEvent {row : Row} {bytes : Bytes} (h : rowBlob R row = .ok bytes) :
    IsEvent ⟨bytes, some row⟩ := by
  refine ⟨fun hnil => ?_, rfl⟩
  have hlen := (rowBlob_length h).1
  rw [show bytes = [] from hnil] at hlen
  simp [lengthPrefixBytes] at hlen

def Below (sub : Subscriber) : Prop :=
  sub.txQueue.length < lagLimit

theorem below_of_lag {sub' : Subscriber} (h : Sends sub sub')
    (hlag : sub.txQueue.length ≤ sub.lagCount) (hkeep : ¬sub'.lagCount ≥ lagLimit) : Below sub' :=
  lt_of_le_of_lt (h.lag hlag) (not_le.mp hkeep)

theorem drainBuffer_sends (blobs : List Blob) (sub : Subscriber)
    (h : ∀ blob ∈ blobs, IsEvent blob) :
    Sends sub (drainBuffer blobs sub).2 ∧ (sub.txQueue.length ≤ sub.lagCount → Below sub →
      (drainBuffer blobs sub).1 = true → Below (drainBuffer blobs sub).2) := by
  induction blobs generalizing sub with
  | nil => exact ⟨.refl sub, fun _ hb _ => hb⟩
  | cons blob rest ih =>
    obtain ⟨hne, hrow⟩ := h blob List.mem_cons_self
    have hstep := enqueue_sends sub blob hne hrow.symm
    simp only [drainBuffer]
    split
    · exact ⟨hstep, fun _ _ hno => (by cases hno)⟩
    · rename_i hkeep
      obtain ⟨hrest, hbelow⟩ := ih (sub.enqueue blob true).2
        fun b hb => h b (List.mem_cons_of_mem _ hb)
      exact ⟨hstep.trans hrest, fun hlag _ => hbelow (hstep.lag hlag)
        (below_of_lag hstep hlag hkeep)⟩

theorem replayRows_sends (rows : List Row) (sub : Subscriber) :
    Sends sub (replayRows R rows sub).2 ∧ (sub.txQueue.length ≤ sub.lagCount → Below sub →
      (∀ sub', replayRows R rows sub ≠ (.lagged, sub')) → Below (replayRows R rows sub).2) := by
  induction rows generalizing sub with
  | nil => exact ⟨.refl sub, fun _ hb _ => hb⟩
  | cons row rest ih =>
    simp only [replayRows]
    split
    · exact ih sub
    split
    · exact ⟨.refl sub, fun _ hb _ => hb⟩
    · rename_i bytes hblob
      have hstep := enqueue_sends sub ⟨bytes, some row⟩ (rowBlob_isEvent hblob).1 rfl
      split
      · exact ⟨hstep, fun _ _ hno => absurd rfl (hno _)⟩
      · rename_i hkeep
        obtain ⟨hrest, hbelow⟩ := ih (sub.enqueue ⟨bytes, some row⟩ true).2
        exact ⟨hstep.trans hrest, fun hlag _ => hbelow (hstep.lag hlag)
          (below_of_lag hstep hlag hkeep)⟩

theorem offer_sends (row : Row) (sub : Subscriber) {blob : Blob} (hblob : IsEvent blob) :
    Sends sub (offer row blob sub).2 ∧
      ((∀ b ∈ sub.preAckBuffer.getD [], IsEvent b) →
        ∀ b ∈ (offer row blob sub).2.preAckBuffer.getD [], IsEvent b) ∧
      (sub.txQueue.length ≤ sub.lagCount → Below sub → (offer row blob sub).1 = false →
        Below (offer row blob sub).2) := by
  rcases offer_cases row blob sub with
    ⟨-, heq⟩ | ⟨-, -, ⟨buffered, hbuffer, ⟨-, heq⟩ | heq⟩ | ⟨-, heq⟩⟩ <;> rw [heq]
  · exact ⟨.refl sub, id, fun _ hb _ => hb⟩
  · exact ⟨.same rfl rfl rfl rfl (le_refl _), id, fun _ hb _ => hb⟩
  · refine ⟨.same rfl rfl rfl rfl (le_refl _), fun h b hb => ?_, fun _ hb _ => hb⟩
    rw [hbuffer] at h
    rcases List.mem_append.mp hb with hb | hb
    · exact h b hb
    · rw [List.mem_singleton.mp hb]
      exact hblob
  · have hclear : Sends sub { sub with replayWatermark := none } :=
      .same rfl rfl rfl rfl (le_refl _)
    have hstep := enqueue_sends { sub with replayWatermark := none } blob hblob.1 hblob.2.symm
    have henv := (enqueue_enqueued { sub with replayWatermark := none } blob true).envelope
    refine ⟨hclear.trans hstep, fun h => ?_, fun hlag _ hkeep => ?_⟩
    · rw [henv.preAckBuffer]
      exact h
    · exact below_of_lag hstep hlag (by simpa using hkeep)

end Loops

section Connections

variable {R : Runtime} {c c' : Conn}

/-- The bytes on a connection's wire are those of its ack, those of the frames it was handed and,
once it is closed, those of a reject frame. -/
structure Accounts (R : Runtime) (c : Conn) (marks : List Mark) : Prop where
  books : Books c.sub marks
  wire : ∃ acked tip, acked <+: c.ack ∧ Merge (acked ++ tip) (written marks) c.sub.sock.wire ∧
    (tip = [] ∨ c.registered = false ∧ c.sub.sock.closed = true ∧
      ∃ reason, ∃ frame ∈ terminalRejectFrame R reason, tip <+: frame) ∧
    ∀ started rest, c.task = .ackPending started rest → acked ++ rest = c.ack

structure Accounted (R : Runtime) (c : Conn) : Prop where
  accounts : ∃ marks, Accounts R c marks
  lag : c.sub.txQueue.length ≤ c.sub.lagCount
  below : c.registered = true → Below c.sub
  buffered : ∀ blob ∈ buffer c, IsEvent blob

theorem Accounted.sends (h : Accounted R c) {sub : Subscriber} (task : Task)
    (hsends : Sends c.sub sub) (hclosed : sub.sock.closed = c.sub.sock.closed)
    (hbelow : c.registered = true → Below sub)
    (hbuffered : ∀ blob ∈ sub.preAckBuffer.getD [], IsEvent blob)
    (htask : ∀ started rest, task = .ackPending started rest →
      c.task = .ackPending started rest) : Accounted R { c with sub, task } := by
  obtain ⟨marks, hbooks, acked, tip, hacked, hmerge, htip, hpending⟩ := h.accounts
  obtain ⟨marks', sent, hbooks', hwire, hwritten⟩ := hsends.books marks hbooks
  refine ⟨⟨marks', hbooks', acked, tip, hacked, ?_, ?_, fun s r ht => hpending s r (htask s r ht)⟩,
    hsends.lag h.lag, hbelow, hbuffered⟩
  · simp only [hwire, hwritten]
    exact hmerge.right sent
  · rw [hclosed]
    exact htip

theorem Accounted.evict (h : Accounted R c)
    (hopen : c.registered = true ∨ c.sub.sock.closed = false) (reason : CloseReason) :
    Accounted R (c.evict R reason) := by
  obtain ⟨marks, hbooks, acked, tip, hacked, hmerge, htip, hpending⟩ := h.accounts
  obtain ⟨sock, draining, heq, hclosed, tip', hwire, htip'⟩ :=
    close_eq c.sub (terminalRejectFrame R reason)
  have hnone : tip = [] := htip.resolve_right fun hno => by
    rw [hno.1, hno.2.1] at hopen
    exact hopen.elim (by simp) (by simp)
  subst hnone
  rw [Conn.evict, heq]
  refine ⟨⟨marks, ⟨hbooks.frames, ⟨marks, [], by simp⟩, hbooks.delivered⟩, acked, tip', hacked,
    ?_, ?_, hpending⟩, Nat.zero_le _, fun hreg => (by cases hreg), h.buffered⟩
  · simp only [hwire]
    rw [List.append_nil] at hmerge
    exact hmerge.left tip'
  · rcases htip' with htip' | ⟨-, frame, hframe, hpre⟩
    · exact .inl htip'
    · exact .inr ⟨rfl, hclosed, reason, frame, hframe, hpre⟩

/-- Whether the queue is below the limit is forgotten at the close, as it is for a map entry. -/
theorem Accounted.leave (h : Accounted R c) : Accounted R { c with registered := false } :=
  ⟨h.accounts.imp fun _ ⟨hbooks, acked, tip, hacked, hmerge, htip, hpending⟩ =>
    ⟨hbooks, acked, tip, hacked, hmerge, htip.imp id fun hno => ⟨rfl, hno.2⟩, hpending⟩,
    h.lag, fun hreg => (nomatch hreg), h.buffered⟩

theorem Accounted.close (h : Accounted R { c with registered := false })
    (hopen : c.registered = !c.sub.sock.closed) (reason : CloseReason) :
    Accounted R (c.settle R (some reason)) := by
  simp only [Conn.settle]
  split
  · rename_i hreg
    exact h.evict (.inr (by simpa [hreg] using hopen)) reason
  · rename_i hreg
    have hsame : c = { c with registered := false } := by
      rw [← show c.registered = false by simpa using hreg]
    rw [hsame]
    exact h

theorem Accounted.sendEach (h : Accounted R c) (hopen : c.registered = !c.sub.sock.closed)
    {reason : CloseReason} {send : Subscriber → Bool × Subscriber}
    (hsends : Sends c.sub (send c.sub).2)
    (hclosed : (send c.sub).2.sock.closed = c.sub.sock.closed)
    (hbelow : c.sub.txQueue.length ≤ c.sub.lagCount → Below c.sub → (send c.sub).1 = false →
      Below (send c.sub).2)
    (hbuffered : ∀ blob ∈ (send c.sub).2.preAckBuffer.getD [], IsEvent blob) :
    Accounted R (c.sendEach R reason send) := by
  simp only [Conn.sendEach]
  split
  swap
  · exact h
  rename_i hreg
  split
  · have hsent := h.leave.sends c.task hsends hclosed (fun hr => (by cases hr)) hbuffered
      fun _ _ ht => ht
    exact hsent.evict (.inr (by rw [hclosed]; simpa [hreg] using hopen)) reason
  · rename_i hkeep
    exact h.sends _ hsends hclosed (fun hr => hbelow h.lag (h.below hr) (by simpa using hkeep))
      hbuffered fun _ _ ht => ht

theorem Accounted.turn (h : Accounted R c) (hopen : c.registered = !c.sub.sock.closed) {row : Row}
    {bytes : Bytes} (hblob : rowBlob R row = .ok bytes) :
    Accounted R (c.sendEach R .lagLimitExceeded (offer row ⟨bytes, some row⟩)) := by
  obtain ⟨hsends, hbuffered, hbelow⟩ := offer_sends row c.sub (rowBlob_isEvent hblob)
  exact h.sendEach hopen hsends (offer_closed _ _ _) hbelow (hbuffered h.buffered)

theorem Accounted.beat (h : Accounted R c) (hopen : c.registered = !c.sub.sock.closed)
    {frame : HeartbeatFrame} {bytes : Bytes}
    (hbytes : encodeStructFrame R (.daemonHeartbeat frame) = .ok bytes) :
    Accounted R (c.sendEach R .heartbeatLag (beat ⟨bytes, none⟩)) := by
  have hne : bytes ≠ [] := by
    rintro rfl
    have hlen := (encodeStructFrame_length hbytes).1
    simp [lengthPrefixBytes] at hlen
  have hsends := enqueue_sends c.sub ⟨bytes, none⟩ hne rfl
  have henv := (enqueue_enqueued c.sub ⟨bytes, none⟩ false).envelope
  refine h.sendEach hopen hsends (beat_closed _ _) (fun hlag _ hkeep => ?_) ?_
  · exact below_of_lag hsends hlag (by simpa [Daemon.beat] using hkeep)
  · rw [show (Daemon.beat ⟨bytes, none⟩ c.sub).2.preAckBuffer = c.sub.preAckBuffer from
      henv.preAckBuffer]
    exact h.buffered

theorem Accounted.ackSend (h : Accounted R c) (hsend : c.ackSend = some c') : Accounted R c' := by
  obtain ⟨started, rest, sent, left, htask, hattempt⟩ := ackSend_cases hsend
  obtain ⟨marks, hbooks, acked, tip, hacked, hmerge, htip, hpending⟩ := h.accounts
  have hrest := hpending started rest htask
  have htip' : sent = [] ∨ tip = [] := by
    rcases htip with htip | ⟨-, hclosed, -⟩
    · exact .inr htip
    · exact .inl (hattempt.idle hclosed)
  rw [hattempt.frame]
  refine ⟨⟨marks, ⟨hbooks.frames, hbooks.queue, hbooks.delivered⟩, acked ++ sent, tip, ?_, ?_, ?_,
    fun s r ht => ?_⟩, h.lag, h.below, h.buffered⟩
  · rw [← hrest, ← hattempt.split]
    exact ⟨left, by rw [List.append_assoc]⟩
  · simp only [hattempt.wire]
    rcases htip' with rfl | rfl
    · simpa using hmerge
    · simpa using hmerge.left sent
  · rw [hattempt.closed]
    exact htip
  · rw [List.append_assoc]
    rcases hattempt.outcome with ⟨htask', -⟩ | ⟨htask', -⟩ | ⟨htask', -⟩ <;>
      simp only [htask'] at ht <;> cases ht
    rw [hattempt.split, hrest]

theorem Accounted.quit (h : Accounted R c) {sock : Sock} {task : Task}
    (hwire : sock.wire = c.sub.sock.wire) (hclosed : sock.closed = c.sub.sock.closed)
    (htask : ∀ started rest, task ≠ .ackPending started rest) :
    Accounted R { c with sub := { c.sub with sock }, task } :=
  h.sends _ (.same hwire rfl rfl rfl (le_refl _)) hclosed h.below h.buffered
    fun s r ht => absurd ht (htask s r)

theorem Accounted.ackAbort (h : Accounted R c) {task : Task}
    (htask : ∀ started rest, task ≠ .ackPending started rest) : Accounted R (c.ackAbort task) :=
  have hkeeps := dropAckWriter_keeps c.sub.sock
  h.quit hkeeps.2.1 hkeeps.1 htask

theorem Accounted.cancel (h : Accounted R c) : Accounted R c.cancel := by
  have hquit : (∀ started rest, Task.cancelled ≠ .ackPending started rest) →
      Accounted R { c with task := .cancelled } := h.quit rfl rfl
  unfold Conn.cancel
  split
  · exact h.ackAbort nofun
  · exact hquit nofun
  · exact hquit nofun
  · exact h

theorem Accounted.drainPreAck (h : Accounted R c) (hopen : c.registered = !c.sub.sock.closed) :
    Accounted R (c.drainPreAck.1.settle R c.drainPreAck.2) := by
  let emptied : Subscriber := { c.sub with preAckBuffer := none, preAckBufferedBytes := 0 }
  have hemptied : Sends c.sub emptied := .same rfl rfl rfl rfl (le_refl _)
  obtain ⟨hdrain, hbelow⟩ := drainBuffer_sends (buffer c) emptied h.buffered
  obtain ⟨henv, -⟩ := drainBuffer_spec (buffer c) emptied
  have hclosed : (drainBuffer (buffer c) emptied).2.sock.closed = c.sub.sock.closed :=
    drainBuffer_closed _ _
  have hnone : ∀ blob ∈ (drainBuffer (buffer c) emptied).2.preAckBuffer.getD [], IsEvent blob := by
    rw [henv.preAckBuffer]
    exact fun blob hblob => absurd hblob List.not_mem_nil
  have hsends := hemptied.trans hdrain
  obtain ⟨sub, ⟨hdrain, heq⟩ | ⟨hdrain, heq⟩⟩ := drainPreAck_cases c <;>
    rw [buffer, hdrain] at hsends hclosed hnone hbelow <;> rw [heq]
  · exact h.sends _ hsends hclosed (fun hr => hbelow h.lag (h.below hr) rfl) hnone (by simp)
  · refine Accounted.close ?_ (by rw [hclosed]; exact hopen) _
    exact h.leave.sends _ hsends hclosed (fun hr => (by cases hr)) hnone (by simp)

theorem Accounted.resume (h : Accounted R c) (hopen : c.registered = !c.sub.sock.closed)
    {store : Store} {fault : Bool} {r : Conn × Option CloseReason}
    (hr : c.resume R store fault = some r) : Accounted R (r.1.settle R r.2) := by
  have hbail : ∀ task, (∀ started rest, task ≠ .ackPending started rest) →
      Accounted R { c with task } := fun task htask => h.quit rfl rfl htask
  have hreplayed : ∀ {rows outcome sub}, replayRows R rows c.sub = (outcome, sub) →
      Sends c.sub sub ∧ sub.sock.closed = c.sub.sock.closed ∧
        (∀ blob ∈ sub.preAckBuffer.getD [], IsEvent blob) ∧
        (c.sub.txQueue.length ≤ c.sub.lagCount → Below c.sub → outcome ≠ .lagged → Below sub) := by
    intro rows outcome sub heq
    obtain ⟨hsends, hbelow⟩ := replayRows_sends (R := R) rows c.sub
    obtain ⟨henv, -⟩ := replayRows_spec (R := R) rows c.sub
    have hclosed := replayRows_closed (R := R) rows c.sub
    have hbuffered := h.buffered
    rw [buffer, ← henv.preAckBuffer] at hbuffered
    rw [heq] at hsends hclosed hbuffered hbelow
    exact ⟨hsends, hclosed, hbuffered, fun hlag hb hgo =>
      hbelow hlag hb fun sub' h => hgo (congrArg Prod.fst h)⟩
  cases resume_cases hr with
  | ackFailed | faulted => exact (hbail .bailed (by simp)).leave.close hopen _
  | live => exact h.drainPreAck hopen
  | replayed _ _ heq =>
    obtain ⟨hsends, hclosed, hbuffered, hbelow⟩ := hreplayed heq
    refine Accounted.drainPreAck ?_ (by rw [hclosed]; exact hopen)
    exact h.sends c.task hsends hclosed
      (fun hr => hbelow h.lag (h.below hr) (by simp)) hbuffered fun _ _ ht => ht
  | lagged _ _ heq =>
    obtain ⟨hsends, hclosed, hbuffered, -⟩ := hreplayed heq
    refine Accounted.close ?_ (by rw [hclosed]; exact hopen) _
    exact h.leave.sends _ hsends hclosed (fun hr => (by cases hr)) hbuffered (by simp)
  | raised _ _ heq hend =>
    obtain ⟨hsends, hclosed, hbuffered, hbelow⟩ := hreplayed heq
    rcases hend with ⟨rfl, rfl⟩ | ⟨rfl, rfl⟩
    · refine Accounted.close ?_ (by rw [hclosed]; exact hopen) _
      exact h.leave.sends _ hsends hclosed (fun hr => (by cases hr)) hbuffered (by simp)
    · exact h.sends _ hsends hclosed (fun hr => hbelow h.lag (h.below hr) (by simp)) hbuffered
        (by simp)

theorem Accounted.writable (h : Accounted R c) (hsend : c.writable = some c') :
    Accounted R c' := by
  obtain ⟨-, rfl⟩ := writable_cases hsend
  have hstep := drain_drained c.sub
  refine h.sends c.task (drain_sends c.sub) hstep.closed (fun hr => ?_) ?_
    fun _ _ ht => ht
  · exact lt_of_le_of_lt (drain_length c.sub) (h.below hr)
  · rw [hstep.envelope.preAckBuffer]
    exact h.buffered

theorem Accounted.join {hub : Hub} {env : Envelope} {fault : Bool} (hfresh : env.Fresh) :
    Accounted R (hub.register R env fault) := by
  have hbooks : ∀ watermark, Books (env.subscriber watermark) [] := fun _ =>
    ⟨rfl, ⟨[], [], rfl, rfl, by simp, by simp⟩, rfl⟩
  have hmerge : Merge ([] ++ []) (written []) env.sock.wire := by
    rw [hfresh.wire]
    exact .nil
  have hbelow : 0 < lagLimit := by decide
  have hbuffered : ∀ blob ∈ ([] : List Blob), IsEvent blob := fun _ hb =>
    absurd hb List.not_mem_nil
  simp only [Hub.register]
  split
  · exact ⟨⟨[], hbooks _, [], [], List.nil_prefix, hmerge, .inl rfl, (by simp)⟩, le_refl _,
      fun _ => hbelow, hbuffered⟩
  · split
    · refine ⟨⟨[], hbooks _, [], [], List.nil_prefix, hmerge, .inl rfl, fun s r ht => ?_⟩,
        le_refl _, fun _ => hbelow, hbuffered⟩
      cases ht
      rfl
    · exact ⟨⟨[], hbooks _, [], [], List.nil_prefix, hmerge, .inl rfl, (by simp)⟩, le_refl _,
        fun _ => hbelow, hbuffered⟩

theorem accounted_invariant : ConnInvariant R (fun _ _ => True) fun _ _ c => Accounted R c where
  grows _ _ _ _ h := h
  pass _ _ hwf _ hQ := pass_of_turn (Q := fun _ _ c => Accounted R c)
    (fun hwf _ hblob hc h => h.turn (hwf.openEntries _ hc) hblob) _ _ hwf hQ
  beat hwf _ hbytes hc h := h.beat (hwf.openEntries _ hc) hbytes
  join _ _ hfresh := .join hfresh
  ackSend _ _ _ hsend h := h.ackSend hsend
  ackTimeout _ _ _ hsend h := by
    obtain ⟨-, rfl⟩ := ackTimeout_cases hsend
    exact h.ackAbort nofun
  resume hwf _ hc hr h := h.resume (hwf.openEntries _ (List.mem_of_getElem? hc)) hr
  writable _ _ _ hsend h := h.writable hsend
  cancel h := h.cancel
  shut h := by
    simp only [Conn.settle]
    split
    · rename_i hreg
      exact h.evict (.inl hreg) _
    · exact h

end Connections

section Gauge

variable {R : Runtime} {hub hub' : Hub}

/-- The gauge shows the size of the map, whose entries differ in their descriptors. -/
structure Counted (hub : Hub) : Prop where
  fds : hub.conns.Pairwise fun a b => a.registered → b.registered → a.fd ≠ b.fd
  count : hub.subscriberCount = hub.conns.countP (·.registered)

private theorem fds_map {conns : List Conn} {f : Conn → Conn}
    (h : conns.Pairwise fun a b => a.registered → b.registered → a.fd ≠ b.fd)
    (hf : ∀ c, (f c).fd = c.fd ∧ ((f c).registered = true → c.registered = true)) :
    (conns.map f).Pairwise fun a b => a.registered → b.registered → a.fd ≠ b.fd :=
  List.pairwise_map.mpr <| h.imp fun {a b} hne hra hrb => by
    rw [(hf a).1, (hf b).1]
    exact hne ((hf a).2 hra) ((hf b).2 hrb)

private theorem countP_closed {conns : List Conn} (reason : CloseReason) {fd : Option Nat}
    (hfds : conns.Pairwise fun a b => a.registered → b.registered → a.fd ≠ b.fd)
    (hany : conns.any (fun c => c.registered && fd = some c.fd) = true) :
    (conns.map fun c => if c.registered && fd = some c.fd then c.evict R reason
      else c).countP (·.registered) + 1 = conns.countP (·.registered) := by
  induction conns with
  | nil => cases hany
  | cons c rest ih =>
    obtain ⟨hc, hrest⟩ := List.pairwise_cons.mp hfds
    rw [List.map_cons, List.countP_cons, List.countP_cons]
    by_cases hentry : (c.registered && fd = some c.fd) = true
    · obtain ⟨hreg, hfd⟩ : c.registered = true ∧ fd = some c.fd := by simpa using hentry
      have hsame : rest.map (fun c => if c.registered && fd = some c.fd then c.evict R reason
          else c) = rest := by
        conv_rhs => rw [← List.map_id rest]
        refine List.map_congr_left fun d hd => ?_
        have hno : ¬(d.registered && fd = some d.fd) = true := by
          intro h
          obtain ⟨hrd, hfd'⟩ : d.registered = true ∧ fd = some d.fd := by simpa using h
          exact hc d hd hreg hrd (Option.some.inj (hfd.symm.trans hfd'))
        rw [if_neg hno, id]
      rw [hsame, if_pos hentry, if_pos hreg, if_neg (by simp [Conn.evict])]
    · rw [List.any_cons, Bool.or_eq_true] at hany
      rw [if_neg hentry, ← ih hrest (hany.resolve_left hentry)]
      omega

theorem Counted.closeSubscriber (h : Counted hub) (reason : CloseReason) (fd : Option Nat) :
    Counted (hub.closeSubscriber R reason fd) := by
  simp only [Hub.closeSubscriber]
  split
  · rename_i hany
    refine ⟨fds_map h.fds fun c => ?_, ?_⟩
    · split
      · exact ⟨rfl, fun h => by cases h⟩
      · exact ⟨rfl, id⟩
    · have hcount := countP_closed (R := R) reason h.fds hany
      have := h.count
      simp only
      omega
  · exact h

theorem Counted.closeAll (h : Counted hub) (reason : CloseReason) (fds : List Nat) :
    Counted (hub.closeAll R reason fds) := by
  induction fds generalizing hub with
  | nil => exact h
  | cons fd rest ih => exact ih (h.closeSubscriber reason (some fd))

theorem Counted.sendToAll (h : Counted hub) (reason : CloseReason)
    (send : Subscriber → Bool × Subscriber) : Counted (hub.sendToAll R reason send) := by
  refine Counted.closeAll ⟨fds_map h.fds fun c => ?_, ?_⟩ reason _
  · by_cases hreg : c.registered = true <;> simp [hreg]
  · simp only [h.count, List.countP_map]
    congr 1
    refine List.countP_congr fun c _ => ?_
    simp only [Function.comp_apply]
    split <;> rfl

theorem Counted.sweep (h : Counted hub) (rows : List Row) : Counted (hub.sweep R rows).2 := by
  induction rows generalizing hub with
  | nil => exact h
  | cons row rest ih =>
    simp only [Hub.sweep]
    split
    · exact h
    · rename_i bytes hblob
      have hturn : Counted (hub.fanOut R row bytes) := h.sendToAll _ _
      exact ih ⟨hturn.fds, hturn.count⟩

theorem Counted.broadcastPass (h : Counted hub) (fault : Bool) :
    Counted (hub.broadcastPass R fault).2 := by
  unfold Hub.broadcastPass
  split
  · exact h
  · exact h.sweep _

theorem Counted.act (h : Counted hub) {i : Nat} {act : Conn → Option (Conn × Option CloseReason)}
    (hsame : ∀ c r, act c = some r → SameEntry c r.1) (hact : hub.act R i act = some hub') :
    Counted hub' := by
  simp only [Hub.act, Option.bind_eq_bind, Option.bind_eq_some_iff] at hact
  obtain ⟨c, hc, ⟨c', close⟩, hr, hact⟩ := hact
  obtain ⟨hfd, hreg, -⟩ := hsame c _ hr
  have hset : Counted (hub.set i c') := by
    have hkeys : (hub.conns.set i c').map (fun c => (c.registered, c.fd)) =
        hub.conns.map fun c => (c.registered, c.fd) := by
      obtain ⟨hi, hci⟩ := List.getElem?_eq_some_iff.mp hc
      have hi' : i < (hub.conns.map fun c => (c.registered, c.fd)).length := by simpa using hi
      have hkey : (c'.registered, c'.fd) = (hub.conns.map fun c => (c.registered, c.fd))[i] := by
        rw [List.getElem_map, hci, ← hreg, ← hfd]
      rw [List.map_set, hkey, List.set_getElem_self]
    refine ⟨?_, ?_⟩
    · have hpair := List.pairwise_map (f := fun c : Conn => (c.registered, c.fd))
        (R := fun a b : Bool × Nat => a.1 = true → b.1 = true → a.2 ≠ b.2) (l := hub.conns.set i c')
      rw [hkeys, List.pairwise_map] at hpair
      exact hpair.mp h.fds
    · have hcount := List.countP_map (p := Prod.fst) (f := fun c : Conn => (c.registered, c.fd))
        (l := hub.conns.set i c')
      rw [hkeys, List.countP_map] at hcount
      exact h.count.trans (congrArg Nat.cast hcount)
  cases close with
  | none => exact Option.some.inj hact ▸ hset
  | some reason => exact Option.some.inj hact ▸ hset.closeSubscriber _ _

theorem Counted.step (h : Counted hub) (hwf : hub.WF) {label : Label}
    (hstep : hub.step R label = some hub') : Counted hub' := by
  have hwf' := step_wf hwf hstep
  cases label with
  | commit batch =>
    simp only [Hub.step] at hstep
    split at hstep <;> rw [← Option.some.inj hstep] <;> exact ⟨h.fds, h.count⟩
  | broadcastPass fault =>
    simp only [Hub.step] at hstep
    split at hstep
    · cases hstep
    · exact Option.some.inj hstep ▸ h.broadcastPass fault
  | heartbeat ts uptimeSec =>
    simp only [Hub.step, Hub.heartbeat] at hstep
    split at hstep
    · cases hstep
    · rw [← Option.some.inj hstep]
      split
      · exact h
      · exact h.sendToAll _ _
  | subscribe env fault =>
    refine ⟨hwf'.fds, ?_⟩
    have hreg := (register_entry (R := R) hub env fault).2.1
    simp only [Hub.step, Hub.subscribe] at hstep
    split at hstep
    · cases hstep
    · rw [← Option.some.inj hstep]
      simp [h.count, hreg]
  | ackSend i => exact h.act (mapped_entry fun _ _ => ackSend_entry) hstep
  | ackTimeout i => exact h.act (mapped_entry fun _ _ => ackTimeout_entry) hstep
  | resume i fault => exact h.act (fun _ _ => resume_entry) hstep
  | writable i => exact h.act (mapped_entry fun _ _ => writable_entry) hstep
  | cancelHandshakes =>
    refine ⟨hwf'.fds, ?_⟩
    rw [← Option.some.inj hstep]
    simp only [h.count, List.countP_map]
    congr 1
    exact List.countP_congr fun c _ => by simp [(cancel_entry c).registered]
  | shutdown fault =>
    rw [← Option.some.inj hstep]
    unfold Hub.shutdown
    split
    · exact h
    · have hstop : Counted { hub with stopping := true } := ⟨h.fds, h.count⟩
      exact (hstop.broadcastPass fault).closeAll _ _

theorem reachable_counted (h : Reachable (hubSystem R) hub) : Counted hub := by
  refine h.invariant (I := Counted) (fun hub hinit => ?_) fun s a t hr hcounted _ hstep =>
    hcounted.step (reach_wf hr) hstep
  obtain ⟨-, hconns, hcount, -⟩ := hinit
  exact ⟨by simp [hconns], by simp [hconns, hcount]⟩

end Gauge

section Totals

variable {R : Runtime} {hub : Hub}

/-- `waitbus_broadcast_events_delivered_total`, over every connection there ever was. -/
def deliveredTotal (hub : Hub) : Nat :=
  (hub.conns.map (·.sub.delivered)).sum

/-- The gauge, the delivered frames and the queues, in every reachable state. -/
theorem subscriber_accounting (h : Reachable (hubSystem R) hub) :
    hub.subscriberCount = hub.conns.countP (·.registered) ∧
    (∃ ledgers : List (List Mark), List.Forall₂ (Accounts R) hub.conns ledgers ∧
      deliveredTotal hub = (ledgers.map (List.countP Mark.delivered)).sum) ∧
    ∀ c ∈ hub.conns, c.registered = true →
      c.sub.txQueue.length ≤ c.sub.lagCount ∧ c.sub.txQueue.length < lagLimit := by
  have haccounted := accounted_invariant.reach h
  refine ⟨(reachable_counted h).count, ?_, fun c hc hreg =>
    ⟨(haccounted c hc).lag, (haccounted c hc).below hreg⟩⟩
  unfold deliveredTotal
  generalize hub.conns = conns at haccounted
  induction conns with
  | nil => exact ⟨[], .nil, rfl⟩
  | cons c rest ih =>
    obtain ⟨marks, hmarks⟩ := (haccounted c List.mem_cons_self).accounts
    obtain ⟨ledgers, hledgers, hsum⟩ := ih fun d hd => haccounted d (List.mem_cons_of_mem _ hd)
    exact ⟨marks :: ledgers, .cons hmarks hledgers, by
      simp only [List.map_cons, List.sum_cons, hsum, hmarks.books.delivered]⟩

/-- Two event frames, a whole one and one cut after five bytes, and a heartbeat behind it. -/
theorem subscriber_accounting_run : ∃ hub : Hub,
    (deliveredTotal hub = 1 ∧ ∃ c ∈ hub.conns, c.sub.txQueue.length = 2) ∧
    hub.subscriberCount = hub.conns.countP (·.registered) ∧
    (∃ ledgers : List (List Mark), List.Forall₂ (Accounts .reference) hub.conns ledgers ∧
      deliveredTotal hub = (ledgers.map (List.countP Mark.delivered)).sum) ∧
    ∀ c ∈ hub.conns, c.registered = true →
      c.sub.txQueue.length ≤ c.sub.lagCount ∧ c.sub.txQueue.length < lagLimit := by
  let labels : List Label := [
    .subscribe (sampleEnvelope 3 [.whole, .whole, .short 5] none) false, .ackSend 0,
    .resume 0 false,
    .commit [(sampleEvent 1, ulidAt 1)], .broadcastPass false,
    .commit [(sampleEvent 2, ulidAt 2)], .broadcastPass false,
    .heartbeat ⟨1, by decide⟩ ⟨1, by decide⟩]
  obtain ⟨hub, hrun, hends⟩ : ∃ hub ∈ (hubSystem .reference).exec (Hub.seeded .empty) labels,
      deliveredTotal hub = 1 ∧ ∃ c ∈ hub.conns, c.sub.txQueue.length = 2 := by decide +kernel
  have hstart : Reachable (hubSystem .reference) (Hub.seeded .empty) := .start (seeded_init _ _)
  exact ⟨hub, hends, subscriber_accounting (hstart.exec hrun)⟩

end Totals

end Waitbus.Accounting
