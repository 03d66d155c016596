import Waitbus.Ack

/-! Where a handshake leaves its connection. Every caught failure closes it; an exception that no
clause of `_read_subscribe` names leaves it in the map, buffering rows for nobody. -/

namespace Waitbus.Handshake
open Python FrameCodec EventStore RowFrame TxQueue Runs Daemon Delivery Ack

/-- `_read_subscribe` has returned or raised; a cancelled task belongs to the teardown. -/
def finished : Task → Bool
  | .served | .bailed | .raised _ => true
  | _ => false

/-- The bounded replay query of this connection has been handed over, as far as it matches. -/
def Replayed (R : Runtime) (store : Store) (c : Conn) : Prop :=
  ∀ id ∈ c.since, ∃ u, c.untilSeq = some u ∧
    ∀ row ∈ store.iterEventsAbove (store.seqForEventId id.val) (some u) replayLimit,
      wants c row → Holds R c.sub.handed row

/-- The two ends of a handshake: a subscriber in the map, past its ack and its replay and with no
buffer before it, or no entry, no callback and a closed socket. -/
def Settled (R : Runtime) (store : Store) (c : Conn) : Prop :=
  (c.registered = true ∧ c.task = .served ∧ c.ack.Sublist c.sub.sock.wire ∧
    c.sub.preAckBuffer = none ∧ Replayed R store c) ∨
  (c.registered = false ∧ c.sub.sock.closed = true ∧ c.sub.sock.writer = none)

def handshakeOf (hub : Hub) : Label → Option Nat
  | .subscribe _ _ => some hub.conns.length
  | .ackSend i | .ackTimeout i | .resume i _ => some i
  | _ => none

/-- No database fault meets the snapshot, and no row that a replay sends is without a frame. -/
def HandshakeSafe (R : Runtime) (hub : Hub) : Label → Prop
  | .subscribe env fault => env.since.isSome = true → fault = false
  | .resume i _ => ∀ c ∈ hub.conns[i]?, c.task = .ackDone → ∀ id ∈ c.since,
      ∀ row ∈ hub.store.iterEventsAbove (hub.store.seqForEventId id.val) c.untilSeq replayLimit,
        wants c row → PayloadPrints R row ∧ StubFits row
  | _ => True

instance (R : Runtime) (hub : Hub) : ∀ label, Decidable (HandshakeSafe R hub label)
  | .subscribe _ _ => inferInstanceAs (Decidable (_ = true → _ = false))
  | .resume _ _ => inferInstanceAs (Decidable (∀ c ∈ _, _))
  | .commit _ | .broadcastPass _ | .heartbeat _ _ | .ackSend _ | .ackTimeout _ | .writable _
  | .cancelHandshakes | .shutdown _ => isTrue trivial

structure Settling (R : Runtime) (store : Store) (c : Conn) : Prop where
  ends : finished c.task = true → c.registered = true → c.task = .served
  armed : c.sub.Armed
  ackWriter : c.sub.sock.writer = some .ack → ∃ rest, c.task = .ackPending true rest
  pending : ∀ started rest, c.task = .ackPending started rest →
    ∃ sent, sent ++ rest = c.ack ∧ sent.Sublist c.sub.sock.wire
  acked : c.task = .ackDone ∨ c.task = .served → c.ack.Sublist c.sub.sock.wire
  drained : c.task = .served → c.sub.preAckBuffer = none
  untilSeq : ∀ u ∈ c.untilSeq, u ≤ store.lastSeq
  replayed : c.task = .served → ∀ id ∈ c.since, ∀ u ∈ c.untilSeq,
    ∀ row ∈ store.iterEventsAbove (store.seqForEventId id.val) (some u) replayLimit,
      wants c row → c.registered = true → Holds R c.sub.handed row

section Onward

variable {R : Runtime} {store : Store} {c c' : Conn}

/-- A step that leaves the handshake where it is and takes nothing back from its connection. -/
structure Onward (c c' : Conn) : Prop where
  arms : Arms c.sub c'.sub
  wire : c.sub.sock.wire <+: c'.sub.sock.wire
  handed : c.sub.handed ⊆ c'.sub.handed
  matches_eq : c'.sub.matches = c.sub.matches
  preAckBuffer : c.sub.preAckBuffer = none → c'.sub.preAckBuffer = none
  ack : c'.ack = c.ack
  task : c'.task = c.task
  since : c'.since = c.since
  untilSeq : c'.untilSeq = c.untilSeq
  registered : c'.registered = true → c.registered = true

theorem Onward.refl (c : Conn) : Onward c c :=
  ⟨.refl _, List.prefix_refl _, List.Subset.refl _, rfl, id, rfl, rfl, rfl, rfl, id⟩

theorem Onward.trans {c'' : Conn} (h : Onward c c') (h' : Onward c' c'') : Onward c c'' :=
  ⟨h.arms.trans h'.arms, h.wire.trans h'.wire, List.Subset.trans h.handed h'.handed,
    h'.matches_eq.trans h.matches_eq, fun hn => h'.preAckBuffer (h.preAckBuffer hn),
    h'.ack.trans h.ack, h'.task.trans h.task, h'.since.trans h.since,
    h'.untilSeq.trans h.untilSeq, fun hr => h.registered (h'.registered hr)⟩

theorem Settling.onward (h : Settling R store c) (hs : Onward c c') : Settling R store c' where
  ends ho hr := by
    rw [hs.task] at ho ⊢
    exact h.ends ho (hs.registered hr)
  armed := hs.arms.armed h.armed
  ackWriter hw := by
    rw [hs.task]
    exact h.ackWriter (hs.arms.ack hw)
  pending s r ht := by
    rw [hs.task] at ht
    obtain ⟨sent, hsent, hsub⟩ := h.pending s r ht
    exact ⟨sent, hs.ack ▸ hsent, hsub.trans hs.wire.sublist⟩
  acked ht := by
    rw [hs.task] at ht
    rw [hs.ack]
    exact (h.acked ht).trans hs.wire.sublist
  drained ht := by
    rw [hs.task] at ht
    exact hs.preAckBuffer (h.drained ht)
  untilSeq := by
    rw [hs.untilSeq]
    exact h.untilSeq
  replayed ht id hid u hu row hrow hw hr := by
    rw [hs.task] at ht
    rw [hs.since] at hid
    rw [hs.untilSeq] at hu
    rw [wants, hs.matches_eq] at hw
    exact (h.replayed ht id hid u hu row hrow hw (hs.registered hr)).mono hs.handed

theorem enqueue_onward (c : Conn) (blob : Blob) (counts : Bool) :
    Onward c { c with sub := (c.sub.enqueue blob counts).2 } := by
  have hstep := enqueue_enqueued c.sub blob counts
  refine ⟨enqueue_arms _ _ _, hstep.wire, ?_, hstep.envelope.matches_eq,
    fun hn => hstep.envelope.preAckBuffer.trans hn, rfl, rfl, rfl, rfl, id⟩
  rcases hstep.outcome with ⟨hhanded, -⟩ | ⟨hhanded, -⟩ <;> simp only [hhanded]
  · exact List.subset_append_left _ _
  · exact List.Subset.refl _

theorem evict_onward (reason : CloseReason) (c : Conn) : Onward c (c.evict R reason) := by
  obtain ⟨henv, -⟩ := evict_envelope (R := R) reason c
  refine ⟨close_arms _ _, (evict_wire reason c).1, ?_, henv.matches_eq,
    fun hn => henv.preAckBuffer.trans hn, rfl, rfl, rfl, rfl, fun hr => nomatch hr⟩
  have hhanded : (c.evict R reason).sub.handed = c.sub.handed := (close_closed _ _).2
  rw [hhanded]
  exact List.Subset.refl _

theorem settle_onward (close : Option CloseReason) (c : Conn) :
    Onward c (c.settle R close) := by
  cases close with
  | none => exact .refl c
  | some reason =>
    simp only [Conn.settle]
    split
    · exact evict_onward reason c
    · exact .refl c

theorem sendEach_onward {reason : CloseReason} {send : Subscriber → Bool × Subscriber}
    (h : Onward c { c with sub := (send c.sub).2 }) : Onward c (c.sendEach R reason send) := by
  simp only [Conn.sendEach]
  split
  · split
    · exact h.trans (evict_onward _ _)
    · exact h
  · exact .refl c

theorem offer_onward (row : Row) (blob : Blob) (c : Conn) :
    Onward c { c with sub := (offer row blob c.sub).2 } := by
  have harms : Arms c.sub (offer row blob c.sub).2 := by
    rcases offer_cases row blob c.sub with
      ⟨-, heq⟩ | ⟨-, -, ⟨buffered, -, ⟨-, heq⟩ | heq⟩ | ⟨-, heq⟩⟩ <;> rw [heq]
    · exact .refl _
    · exact .same rfl rfl rfl
    · exact .same rfl rfl rfl
    · refine Arms.trans ?_ (enqueue_arms _ _ _)
      exact .same rfl rfl rfl
  obtain ⟨hmatch, hhanded, -, hnone⟩ := offer_frame row blob c.sub
  exact ⟨harms, offer_wire row blob c.sub, hhanded, hmatch, hnone, rfl, rfl, rfl, rfl, id⟩

theorem writable_onward (h : c.writable = some c') : Onward c c' := by
  obtain ⟨-, rfl⟩ := writable_cases h
  have hstep := drain_drained c.sub
  exact ⟨drain_arms _, hstep.wire, hstep.handed ▸ List.Subset.refl _, hstep.envelope.matches_eq,
    fun hn => hstep.envelope.preAckBuffer.trans hn, rfl, rfl, rfl, rfl, id⟩

end Onward

section Steps

variable {R : Runtime} {store : Store} {c c' : Conn}

theorem Settling.off (h : Settling R store c) {sock : Sock} {task : Task}
    (hwriter : sock.writer = some .drain → c.sub.sock.writer = some .drain)
    (hnoack : sock.writer ≠ some .ack) (hclosed : sock.closed = c.sub.sock.closed)
    (hfinished : finished task = false) (hpending : ∀ s r, task ≠ .ackPending s r)
    (hacked : task = .ackDone → c.ack.Sublist sock.wire) :
    Settling R store { c with sub := { c.sub with sock }, task } where
  ends ho := by
    rw [hfinished] at ho
    cases ho
  armed hw := by
    have harmed := h.armed (hwriter hw)
    exact ⟨harmed.1, hclosed.trans harmed.2⟩
  ackWriter hw := absurd hw hnoack
  pending s r ht := absurd ht (hpending s r)
  acked ht := ht.elim hacked fun hs => by
    rw [show task = .served from hs] at hfinished
    cases hfinished
  drained ht := by
    rw [show task = .served from ht] at hfinished
    cases hfinished
  untilSeq := h.untilSeq
  replayed ht := by
    rw [show task = .served from ht] at hfinished
    cases hfinished

theorem Settling.ackAbort (h : Settling R store c) {task : Task}
    (ht : task = .ackFailed ∨ task = .cancelled) : Settling R store (c.ackAbort task) := by
  obtain ⟨hclosed, -, hnoack, hdrain⟩ := dropAckWriter_keeps c.sub.sock
  refine h.off hdrain hnoack hclosed ?_ ?_ ?_ <;> rcases ht with rfl | rfl
  all_goals first | rfl | nofun

theorem Settling.cancel (h : Settling R store c) : Settling R store c.cancel := by
  unfold Conn.cancel
  have hoff : (∀ rest, c.task ≠ .ackPending true rest) →
      Settling R store { c with task := .cancelled } := fun hno =>
    have hnoack : c.sub.sock.writer ≠ some .ack := fun hw => (h.ackWriter hw).elim hno
    h.off id hnoack rfl rfl nofun nofun
  split <;> rename_i htask
  · exact h.ackAbort (.inr rfl)
  · exact hoff fun rest ht => by rw [htask] at ht; cases ht
  · exact hoff fun rest ht => by rw [htask] at ht; cases ht
  · exact h

theorem Settling.ackTimeout (h : Settling R store c) (hsend : c.ackTimeout = some c') :
    Settling R store c' := by
  obtain ⟨-, rfl⟩ := ackTimeout_cases hsend
  exact h.ackAbort (.inl rfl)

theorem Settling.await (h : Settling R store c) {started : Bool} {rest : Bytes}
    (htask : c.task = .ackPending started rest) {sock : Sock} {left : Bytes}
    (hwriter : sock.writer = some .drain → c.sub.sock.writer = some .drain)
    (hclosed : sock.closed = c.sub.sock.closed) {sent : Bytes}
    (hwire : sock.wire = c.sub.sock.wire ++ sent) (hsplit : sent ++ left = rest) :
    Settling R store { c with sub := { c.sub with sock }, task := .ackPending true left } where
  ends ho := nomatch ho
  armed hw := by
    have harmed := h.armed (hwriter hw)
    exact ⟨harmed.1, hclosed.trans harmed.2⟩
  ackWriter _ := ⟨left, rfl⟩
  pending s r ht := by
    cases ht
    obtain ⟨before, hbefore, hsub⟩ := h.pending started rest htask
    refine ⟨before ++ sent, by rw [List.append_assoc, hsplit, hbefore], ?_⟩
    simp only [hwire]
    exact hsub.append (List.Sublist.refl _)
  acked ht := ht.elim nofun nofun
  drained ht := nomatch ht
  untilSeq := h.untilSeq
  replayed ht := nomatch ht

theorem Settling.ackSend (h : Settling R store c) (hsend : c.ackSend = some c') :
    Settling R store c' := by
  obtain ⟨started, rest, sent, left, htask, hattempt⟩ := ackSend_cases hsend
  obtain ⟨before, hbefore, hsub⟩ := h.pending started rest htask
  rw [hattempt.frame]
  rcases hattempt.outcome with ⟨htask', -, hnoack⟩ | ⟨htask', -⟩ | ⟨htask', rfl, hnoack⟩ <;>
    rw [htask']
  · refine h.off hattempt.writer (fun hw => ?_) hattempt.closed rfl nofun nofun
    -- A callback of the ack is there only when it is the one that runs.
    obtain ⟨hfirst, hwriter⟩ := hnoack hw
    obtain ⟨r, hr⟩ := h.ackWriter hwriter
    rw [htask, hfirst] at hr
    cases hr
  · exact h.await htask hattempt.writer hattempt.closed hattempt.wire hattempt.split
  · refine h.off hattempt.writer hnoack hattempt.closed rfl nofun fun _ => ?_
    have hsent := hattempt.split
    rw [List.append_nil] at hsent
    rw [hattempt.wire, ← hbefore, hsent]
    exact hsub.append (List.Sublist.refl _)

theorem drainBuffer_arms (blobs : List Blob) (sub : Subscriber) :
    Arms sub (drainBuffer blobs sub).2 := by
  induction blobs generalizing sub with
  | nil => exact .refl sub
  | cons blob rest ih =>
    simp only [drainBuffer]
    split
    · exact enqueue_arms _ _ _
    · exact (enqueue_arms _ _ _).trans (ih _)

theorem replayRows_arms (rows : List Row) (sub : Subscriber) :
    Arms sub (replayRows R rows sub).2 := by
  induction rows generalizing sub with
  | nil => exact .refl sub
  | cons row rest ih =>
    simp only [replayRows]
    split
    · exact ih sub
    · split
      · exact .refl sub
      · split
        · exact enqueue_arms _ _ _
        · exact (enqueue_arms _ _ _).trans (ih _)

theorem replayRows_not_raised {rows : List Row} (sub : Subscriber)
    (h : ∀ row ∈ rows, sub.matches row.owner row.repo row.eventType = true →
      ∃ blob, rowBlob R row = .ok blob) (exc : PyExc) (sub' : Subscriber) :
    replayRows R rows sub ≠ (.raised exc, sub') := by
  induction rows generalizing sub with
  | nil =>
    intro h
    cases h
  | cons row rest ih =>
    have hrest := fun r hr => h r (List.mem_cons_of_mem _ hr)
    simp only [replayRows]
    split
    · exact ih _ hrest
    · rename_i hmatch
      obtain ⟨blob, hblob⟩ := h row List.mem_cons_self (by simpa using hmatch)
      have henv := (enqueue_enqueued sub ⟨blob, some row⟩ true).envelope
      rw [hblob]
      simp only
      split
      · simp
      · exact ih _ fun r hr hm => hrest r hr (henv.matches_eq ▸ hm)

theorem Settling.closed (h : Settling R store c)
    (hoff : ∀ rest, c.task ≠ .ackPending true rest) {sub : Subscriber} (harms : Arms c.sub sub)
    (reason : CloseReason) :
    Settling R store (({ c with sub, task := .bailed } : Conn).settle R (some reason)) := by
  have hsettled := settle_onward (R := R) (some reason) { c with sub, task := .bailed }
  have htask : (({ c with sub, task := .bailed } : Conn).settle R (some reason)).task = .bailed :=
    hsettled.task
  refine ⟨fun _ hr => ?_, (harms.trans hsettled.arms).armed h.armed, fun hw => ?_,
    fun s r ht => ?_, fun ht => ?_, fun ht => ?_, ?_, fun ht => ?_⟩
  · simp only [Conn.settle] at hr
    split at hr
    · cases hr
    · rename_i hno
      exact absurd hr hno
  · obtain ⟨rest, hrest⟩ := h.ackWriter ((harms.trans hsettled.arms).ack hw)
    exact absurd hrest (hoff rest)
  · rw [htask] at ht
    cases ht
  · rw [htask] at ht
    exact absurd ht (by simp)
  · rw [htask] at ht
    cases ht
  · rw [hsettled.untilSeq]
    exact h.untilSeq
  · rw [htask] at ht
    cases ht

theorem Settling.drainPreAck (h : Settling R store c) (hdone : c.task = .ackDone)
    (hreplayed : ∀ id ∈ c.since, ∀ u ∈ c.untilSeq,
      ∀ row ∈ store.iterEventsAbove (store.seqForEventId id.val) (some u) replayLimit,
        wants c row → Holds R c.sub.handed row) :
    Settling R store (c.drainPreAck.1.settle R c.drainPreAck.2) := by
  have hoff : ∀ rest, c.task ≠ .ackPending true rest := fun rest ht => by
    rw [hdone] at ht
    cases ht
  have hwire := drainBuffer_wire (c.sub.preAckBuffer.getD [])
    { c.sub with preAckBuffer := none, preAckBufferedBytes := 0 }
  have hdrain := drainBuffer_arms (c.sub.preAckBuffer.getD [])
    { c.sub with preAckBuffer := none, preAckBufferedBytes := 0 }
  obtain ⟨henv, kept, -, hkept, -⟩ := drainBuffer_spec (c.sub.preAckBuffer.getD [])
    { c.sub with preAckBuffer := none, preAckBufferedBytes := 0 }
  have hcleared : Arms c.sub { c.sub with preAckBuffer := none, preAckBufferedBytes := 0 } :=
    .same rfl rfl rfl
  obtain ⟨sub, ⟨heq, hend⟩ | ⟨heq, hend⟩⟩ := drainPreAck_cases c <;>
    rw [heq] at hwire hdrain henv hkept <;> rw [hend]
  · have harms : Arms c.sub sub := hcleared.trans hdrain
    have hmatch : sub.matches = c.sub.matches := henv.matches_eq
    have hhanded : sub.handed = c.sub.handed ++ kept := hkept
    refine ⟨fun _ _ => rfl, harms.armed h.armed, fun hw => ?_, nofun, fun _ => ?_, fun _ => ?_,
      h.untilSeq, fun _ id hid u hu row hrow hw _ => ?_⟩
    · obtain ⟨rest, hrest⟩ := h.ackWriter (harms.ack hw)
      exact absurd hrest (hoff rest)
    · exact (h.acked (.inl hdone)).trans hwire.sublist
    · exact henv.preAckBuffer
    · have hw : sub.matches row.owner row.repo row.eventType = true := hw
      rw [hmatch] at hw
      refine (hreplayed id hid u hu row hrow hw).mono ?_
      exact hhanded ▸ List.subset_append_left _ _
  · exact h.closed hoff (hcleared.trans hdrain) _

theorem Settling.resume (h : Settling R store c) {fault : Bool} {r : Conn × Option CloseReason}
    (hsafe : c.task = .ackDone → ∀ id ∈ c.since,
      ∀ row ∈ store.iterEventsAbove (store.seqForEventId id.val) c.untilSeq replayLimit,
        wants c row → PayloadPrints R row ∧ StubFits row)
    (hr : c.resume R store fault = some r) : Settling R store (r.1.settle R r.2) := by
  have hoff : ∀ {task}, c.task = task → (∀ rest, task ≠ .ackPending true rest) →
      ∀ rest, c.task ≠ .ackPending true rest := fun htask hno rest ht => hno rest (htask ▸ ht)
  cases resume_cases hr with
  | ackFailed htask | faulted htask => exact h.closed (hoff htask nofun) (.refl _) _
  | live htask hsince =>
    exact h.drainPreAck htask fun id hid => by rw [hsince] at hid; cases hid
  | @replayed since sub htask hsince heq =>
    have harms := replayRows_arms (R := R)
      (store.iterEventsAbove (store.seqForEventId since.val) c.untilSeq replayLimit) c.sub
    have hwire := replayRows_wire (R := R)
      (store.iterEventsAbove (store.seqForEventId since.val) c.untilSeq replayLimit) c.sub
    obtain ⟨henv, kept, hkept, -, halive⟩ := replayRows_spec (R := R)
      (store.iterEventsAbove (store.seqForEventId since.val) c.untilSeq replayLimit) c.sub
    rw [heq] at harms hwire henv hkept
    have honward : Onward c { c with sub } :=
      ⟨harms, hwire, hkept ▸ List.subset_append_left _ _, henv.matches_eq,
        fun hn => henv.preAckBuffer.trans hn, rfl, rfl, rfl, rfl, id⟩
    refine (h.onward honward).drainPreAck htask fun id hid u hu row hrow hw => ?_
    obtain rfl : since = id := Option.some.inj (hsince.symm.trans hid)
    rw [wants, honward.matches_eq] at hw
    rw [← show c.untilSeq = some u from hu] at hrow
    refine (halive sub heq row hrow hw).mono ?_
    rw [hkept]
    exact List.subset_append_right _ _
  | @lagged since _ htask _ heq =>
    have harms := replayRows_arms (R := R)
      (store.iterEventsAbove (store.seqForEventId since.val) c.untilSeq replayLimit) c.sub
    rw [heq] at harms
    exact h.closed (hoff htask nofun) harms _
  | @raised since _ _ _ _ htask hsince heq =>
    exact absurd heq (replayRows_not_raised (R := R) c.sub
      (fun row hrow hm => (rowBlob_ok_iff (Option.eq_some_of_isSome
        (Store.mem_fanOutable.mp (Store.mem_iterEventsAbove hrow).1).2)).mpr
          (hsafe htask since hsince row hrow hm)) _ _)

theorem register_awaits (hub : Hub) {env : Envelope} {fault : Bool}
    (h : env.since.isSome = true → fault = false) : ∃ ack, ack ≠ [] ∧
      hub.register R env fault = {
        fd := env.fd
        sub := env.subscriber
          (if env.since.isSome then some hub.store.currentMaxSnapshot.1 else none)
        registered := true, since := env.since
        untilSeq := if env.since.isSome then some hub.store.currentMaxSnapshot.1 else none
        caughtUpAt := if env.since.isSome then hub.store.currentMaxSnapshot.2 else none
        ack, task := .ackPending false ack, joinedAt := hub.cursor } := by
  have hid : ∀ id, (if env.since.isSome then hub.store.currentMaxSnapshot.2 else none) = some id →
      id.length ≤ 26 := by
    intro id hid
    split at hid
    · exact hub.store.snapshot_id_length id hid
    · cases hid
  obtain ⟨ack, hack⟩ := subscribeAck_encodes R
    ⟨frameProtoVersion, if env.since.isSome then hub.store.currentMaxSnapshot.2 else none,
      hub.heartbeatSec, ⟨maxFrameBytes, by decide⟩⟩ hid
  have hno : ¬(env.since.isSome && fault) = true := by
    intro hboth
    obtain ⟨hsince, hfault⟩ := Bool.and_eq_true_iff.mp hboth
    rw [h hsince] at hfault
    cases hfault
  refine ⟨ack, fun hnil => ?_, ?_⟩
  · have := (encodeStructFrame_length hack).1
    simp [hnil, lengthPrefixBytes] at this
  · simp only [Hub.register, if_neg hno, hack]

theorem Settling.join {hub : Hub} {env : Envelope} {fault : Bool} (hfresh : env.Fresh)
    (h : env.since.isSome = true → fault = false) :
    Settling R hub.store (hub.register R env fault) := by
  obtain ⟨ack, -, heq⟩ := register_awaits (R := R) hub h
  have hnone : ∀ w, env.sock.writer ≠ some w := fun w hw => by
    rw [hfresh.writer] at hw
    cases hw
  rw [heq]
  refine ⟨nofun, fun hw => absurd hw (hnone _), fun hw => absurd hw (hnone _), fun s r ht => ?_,
    nofun, nofun, fun u hu => ?_, nofun⟩
  · cases ht
    exact ⟨[], rfl, List.nil_sublist _⟩
  · simp only [Option.mem_def] at hu
    split at hu
    · exact Option.some.inj hu ▸ hub.store.snapshot_le_lastSeq
    · cases hu

end Steps

section Runs

variable {R : Runtime} {hub : Hub}

theorem settling_invariant :
    ConnInvariant R (HandshakeSafe R) fun store _ c => Settling R store c where
  grows _ _ hall _ h := by
    have hg := insertAll_grows hall
    have hlast := hg.lastSeq_le
    refine ⟨h.ends, h.armed, h.ackWriter, h.pending, h.acked, h.drained,
      fun u hu => (h.untilSeq u hu).trans hlast, fun ht id hid u hu row hrow => ?_⟩
    exact h.replayed ht id hid u hu row (hg.window_subset (h.untilSeq u hu) hrow)
  pass _ _ hwf _ hQ := pass_of_turn (Q := fun store _ c => Settling R store c)
    (fun _ _ _ _ h => h.onward (sendEach_onward (offer_onward _ _ _))) _ _ hwf hQ
  beat _ _ _ _ h := h.onward (sendEach_onward (enqueue_onward _ _ _))
  join _ hok hfresh := .join hfresh hok
  ackSend _ _ _ hsend h := h.ackSend hsend
  ackTimeout _ _ _ hsend h := h.ackTimeout hsend
  resume _ hok hc hr h := h.resume (hok _ hc) hr
  writable _ _ _ hsend h := h.onward (writable_onward hsend)
  cancel h := h.cancel
  shut h := h.onward (settle_onward _ _)

theorem handshake_frame (hwf : hub.WF) {label : Label} {hub' : Hub} {i : Nat}
    (hi : handshakeOf hub label = some i) (hstep : hub.step R label = some hub') :
    ∀ j, j ≠ i → hub'.conns[j]? = hub.conns[j]? := by
  have hact : ∀ {act : Conn → Option (Conn × Option CloseReason)}, (∀ c r, act c = some r →
      SameEntry c r.1) → hub.act R i act = some hub' → ∀ j, j ≠ i →
        hub'.conns[j]? = hub.conns[j]? := by
    intro act hsame hact j hj
    obtain ⟨c, r, count, -, -, rfl⟩ := act_eq hwf hsame hact
    exact List.getElem?_set_ne hj.symm
  cases label with
  | subscribe env fault =>
    cases hi
    obtain ⟨-, -, count, rfl⟩ := subscribe_eq hstep
    intro j hj
    rw [List.getElem?_append]
    split
    · rfl
    · rename_i hge
      rw [List.getElem?_eq_none (by simp only [List.length_singleton]; omega),
        List.getElem?_eq_none (by omega)]
  | ackSend k =>
    cases hi
    exact hact (mapped_entry fun _ _ => ackSend_entry) hstep
  | ackTimeout k =>
    cases hi
    exact hact (mapped_entry fun _ _ => ackTimeout_entry) hstep
  | resume k fault =>
    cases hi
    exact hact (fun _ _ => resume_entry) hstep
  | commit batch => cases hi
  | broadcastPass fault => cases hi
  | heartbeat ts uptimeSec => cases hi
  | writable k => cases hi
  | cancelHandshakes => cases hi
  | shutdown fault => cases hi

/-- In every run without those faults a handshake that is over has one of its two ends, and no
step of it has touched another connection. -/
theorem handshake_settled (h : Reach (hubSystem R) (HandshakeSafe R) hub) :
    (∀ c ∈ hub.conns, finished c.task = true → Settled R hub.store c) ∧
      ∀ label hub' i, handshakeOf hub label = some i → hub.step R label = some hub' →
        ∀ j, j ≠ i → hub'.conns[j]? = hub.conns[j]? := by
  refine ⟨fun c hc hfinished => ?_, fun _ _ _ hi hstep => handshake_frame (reach_wf h) hi hstep⟩
  have hsettling := settling_invariant.reach h c hc
  have hordered := ordered_invariant.reach h.reachable c hc
  have hopen := (reach_wf h).openEntries c hc
  cases hreg : c.registered with
  | true =>
    have hserved := hsettling.ends hfinished hreg
    refine .inl ⟨hreg, hserved, hsettling.acked (.inr hserved), hsettling.drained hserved,
      fun id hid => ?_⟩
    obtain ⟨u, hu⟩ := Option.isSome_iff_exists.mp
      (hordered.snapshot (.inr hserved) (Option.isSome_of_mem hid))
    exact ⟨u, hu, fun row hrow hw => hsettling.replayed hserved id hid u hu row hrow hw hreg⟩
  | false =>
    rw [hreg] at hopen
    have hclosed : c.sub.sock.closed = true := by simpa using hopen.symm
    refine .inr ⟨hreg, hclosed, ?_⟩
    cases hwriter : c.sub.sock.writer with
    | none => rfl
    | some writer =>
      cases writer with
      | ack =>
        obtain ⟨rest, hrest⟩ := hsettling.ackWriter hwriter
        rw [hrest] at hfinished
        cases hfinished
      | drain =>
        have harmed := (hsettling.armed hwriter).2
        rw [hclosed] at harmed
        cases harmed

theorem handshake_settled_run : ∃ hub : Hub,
    (∃ c ∈ hub.conns, finished c.task = true ∧ seqs c.sub.handed = [1, 2]) ∧
    (∀ c ∈ hub.conns, finished c.task = true → Settled .reference hub.store c) ∧
      ∀ label hub' i, handshakeOf hub label = some i → hub.step .reference label = some hub' →
        ∀ j, j ≠ i → hub'.conns[j]? = hub.conns[j]? := by
  obtain ⟨hub, hrun, hends⟩ : ∃ hub ∈ (hubSystem .reference).exec
      (Hub.seeded (sampleStore 1)) shortRun, ∃ c ∈ hub.conns, finished c.task = true ∧
        seqs c.sub.handed = [1, 2] := by decide +kernel
  have hstart : Reach (hubSystem .reference) (HandshakeSafe .reference)
      (Hub.seeded (sampleStore 1)) := .start (seeded_init _ _)
  exact ⟨hub, hends, handshake_settled (hstart.exec hrun (by decide +kernel))⟩

/-- The task has died of the fault, and its connection is still in the map with its buffer. -/
theorem handshake_zombie : ∃ hub, Reachable (hubSystem .reference) hub ∧ ∃ c ∈ hub.conns,
    finished c.task = true ∧ ¬Settled .reference hub.store c ∧
      c.sub.preAckBuffer.isSome = true := by
  have hstart : Reachable (hubSystem .reference) (Hub.seeded .empty) := .start (seeded_init _ _)
  let labels : List Label := [.subscribe (sampleEnvelope 3 [] (some (ulidAt 1))) true]
  obtain ⟨hub, hrun, c, hc, hfinished, hreg, hserved, hbuffer⟩ :
      ∃ hub ∈ (hubSystem .reference).exec (Hub.seeded .empty) labels, ∃ c ∈ hub.conns,
        finished c.task = true ∧ c.registered = true ∧ c.task ≠ .served ∧
          c.sub.preAckBuffer.isSome = true := by decide +kernel
  refine ⟨hub, hstart.exec hrun, c, hc, hfinished, ?_, hbuffer⟩
  rintro (⟨-, hdone, -⟩ | ⟨hgone, -⟩)
  · exact hserved hdone
  · rw [hreg] at hgone
    cases hgone

end Runs

end Waitbus.Handshake
