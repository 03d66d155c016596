import Waitbus.EventStore
import Waitbus.FrameStream

/-! One connected consumer: its socket with a non-blocking kernel behind it, and the transmit
queue in front of it. The kernel's answers to the sends to come, and whether the event loop takes
the next writers, are part of the state, so every sequence of them is some state. -/

namespace Waitbus.TxQueue
open Python FrameCodec EventStore FrameStream

def lagLimit : Nat := 10

def preAckBufferFrames : Nat := lagLimit

def preAckBufferBytes : Nat := lagLimit * (maxFrameBytes + lengthPrefixBytes)

/-- The kernel's answer to one `send`: all of the view, its first `n` bytes, EAGAIN, an OSError. -/
inductive Answer where
  | whole
  | short (n : Nat)
  | again
  | error
  deriving DecidableEq

/-- The callback registered with the loop for a writable socket. -/
inductive Writer where
  | ack
  | drain
  deriving DecidableEq

/-- The answer takes a view of `size` bytes whole. -/
def Answer.takes (size : Nat) : Answer → Bool
  | .whole => true
  | .short n => size ≤ n
  | .again | .error => false

structure Sock where
  closed : Bool
  wire : Bytes
  answers : List Answer
  armFaults : List Bool
  writer : Option Writer

inductive Sent where
  | accepted (n : Nat)
  | blockingIOError
  | osError
  deriving DecidableEq

def Sock.nextAnswer (sock : Sock) : Answer :=
  sock.answers.head?.getD .whole

def Sock.send (sock : Sock) (view : Bytes) : Sent × Sock :=
  if sock.closed then (.osError, sock)
  else
    let next := { sock with answers := sock.answers.tail }
    match sock.nextAnswer with
    | .whole => (.accepted view.length, { next with wire := sock.wire ++ view })
    | .short n => (.accepted (min n view.length), { next with wire := sock.wire ++ view.take n })
    | .again => (.blockingIOError, next)
    | .error => (.osError, next)

/-- A wire frame, and the row it is the frame of; the row is history that no code reads. -/
structure Blob where
  bytes : Bytes
  row : Option Row

structure Subscriber where
  sock : Sock
  filters : List String
  eventTypes : List String
  lagCount : Nat
  replayWatermark : Option Nat
  preAckBuffer : Option (List Blob)
  preAckBufferedBytes : Nat
  txQueue : List (Entry UInt8 × Bool)
  draining : Bool
  /-- Its share of `waitbus_broadcast_events_delivered_total`. -/
  delivered : Nat
  /-- History: the frames that reached the wire or the queue, in order. -/
  handed : List Blob

/-- The last test is `f.endswith("/*") and f[:-2] == owner`. -/
def Subscriber.matches (sub : Subscriber) (owner repo eventType : String) : Bool :=
  sub.eventTypes.contains eventType &&
    sub.filters.any fun f => f = "*" || f = owner ++ "/" ++ repo || f = owner ++ "/*"

def Subscriber.startDraining (sub : Subscriber) : Subscriber :=
  if sub.draining || sub.sock.closed then sub
  else
    let sock := { sub.sock with armFaults := sub.sock.armFaults.tail }
    if sub.sock.armFaults.head?.getD false then { sub with sock }
    else { sub with sock := { sock with writer := some .drain }, draining := true }

def Subscriber.stopDraining (sub : Subscriber) : Subscriber :=
  if !sub.draining then sub
  else
    let writer := if sub.sock.closed then sub.sock.writer else none
    { sub with sock := { sub.sock with writer }, draining := false }

def Subscriber.enqueue (sub : Subscriber) (blob : Blob) (countsAsDelivered : Bool) :
    Bool × Subscriber :=
  let handed := sub.handed ++ [blob]
  if sub.txQueue ≠ [] then
    let txQueue := sub.txQueue ++ [(.ofFrame blob.bytes, countsAsDelivered)]
    (false, { sub with txQueue, handed, lagCount := sub.lagCount + 1 }.startDraining)
  else match sub.sock.send blob.bytes with
    | (.blockingIOError, sock) =>
      let txQueue := [(.ofFrame blob.bytes, countsAsDelivered)]
      (false, { sub with sock, txQueue, handed, lagCount := sub.lagCount + 1 }.startDraining)
    | (.osError, sock) => (false, { sub with sock, lagCount := lagLimit })
    | (.accepted n, sock) =>
      if n = blob.bytes.length then
        let delivered := sub.delivered + countsAsDelivered.toNat
        (true, { sub with sock, handed, delivered, lagCount := 0 })
      else
        let txQueue := [(⟨blob.bytes, n⟩, countsAsDelivered)]
        (false, { sub with sock, txQueue, handed, lagCount := sub.lagCount + 1 }.startDraining)

/-- The loop of `_drain`, over what is left of the queue. -/
def drainQueue : List (Entry UInt8 × Bool) → Subscriber → Subscriber
  | [], sub => { sub with txQueue := [], lagCount := 0 }.stopDraining
  | (head, countsAsDelivered) :: rest, sub =>
    match sub.sock.send head.rest with
    | (.blockingIOError, sock) => { sub with sock, txQueue := (head, countsAsDelivered) :: rest }
    | (.osError, sock) => { sub with sock, txQueue := [], lagCount := lagLimit }.stopDraining
    | (.accepted n, sock) =>
      if n < head.rest.length then
        { sub with sock, txQueue := (⟨head.frame, head.sent + n⟩, countsAsDelivered) :: rest }
      else
        let delivered := sub.delivered + countsAsDelivered.toNat
        drainQueue rest { sub with sock, delivered, txQueue := rest }

def Subscriber.drain (sub : Subscriber) : Subscriber :=
  drainQueue sub.txQueue sub

/-- The reasons `_close_subscriber` is called with. -/
inductive CloseReason where
  | lagLimitExceeded
  | heartbeatLag
  | replayLagLimitExceeded
  | subscribeAckSendFailed
  | replayDbError
  | shutdown
  deriving DecidableEq

def subscribeRejectLagLimit : SubscribeRejectedFrame where
  reason := "lag_limit_exceeded"
  remediation := "The daemon dropped consecutive sends to this subscriber; either drain the " ++
    "receive buffer faster, raise the subscriber's send buffer, or reconnect."
  supported := none

/-- `_TERMINAL_REJECT_FRAMES.get(reason)`. -/
def terminalRejectFrame (R : Runtime) : CloseReason → Option Bytes
  | .lagLimitExceeded | .heartbeatLag | .replayLagLimitExceeded =>
    (encodeStructFrame R (.subscribeRejected subscribeRejectLagLimit)).toOption
  | .subscribeAckSendFailed | .replayDbError | .shutdown => none

/-- `_close_subscriber` past the map: the reject frame of the reason, if it has one, goes out only
with nothing queued before it. -/
def Subscriber.close (sub : Subscriber) (reject : Option Bytes) : Subscriber :=
  let sub := sub.stopDraining
  let sock := match reject with
    | some frame => if sub.txQueue = [] then (sub.sock.send frame).2 else sub.sock
    | none => sub.sock
  { sub with sock := { sock with closed := true }, txQueue := [] }

def Subscriber.queue (sub : Subscriber) : List (Entry UInt8) :=
  sub.txQueue.map (·.1)

section Frame

/-- The part of a subscriber that sends do not touch. -/
structure SameEnvelope (sub sub' : Subscriber) : Prop where
  filters : sub'.filters = sub.filters
  eventTypes : sub'.eventTypes = sub.eventTypes
  replayWatermark : sub'.replayWatermark = sub.replayWatermark
  preAckBuffer : sub'.preAckBuffer = sub.preAckBuffer
  preAckBufferedBytes : sub'.preAckBufferedBytes = sub.preAckBufferedBytes

theorem SameEnvelope.refl (sub : Subscriber) : SameEnvelope sub sub :=
  ⟨rfl, rfl, rfl, rfl, rfl⟩

theorem SameEnvelope.trans {a b c : Subscriber} (h : SameEnvelope a b) (h' : SameEnvelope b c) :
    SameEnvelope a c :=
  ⟨h'.1.trans h.1, h'.2.trans h.2, h'.3.trans h.3, h'.4.trans h.4, h'.5.trans h.5⟩

theorem SameEnvelope.matches_eq {a b : Subscriber} (h : SameEnvelope a b) :
    b.matches = a.matches := by
  funext owner repo eventType
  rw [Subscriber.matches, Subscriber.matches, h.filters, h.eventTypes]

theorem startDraining_eq (sub : Subscriber) : ∃ sock draining,
    sub.startDraining = { sub with sock, draining } ∧ sock.wire = sub.sock.wire ∧
      sock.closed = sub.sock.closed ∧ sock.answers = sub.sock.answers := by
  unfold Subscriber.startDraining
  split
  · exact ⟨sub.sock, sub.draining, rfl, rfl, rfl, rfl⟩
  split
  · exact ⟨_, sub.draining, rfl, rfl, rfl, rfl⟩
  · exact ⟨_, _, rfl, rfl, rfl, rfl⟩

theorem stopDraining_eq (sub : Subscriber) : ∃ sock draining,
    sub.stopDraining = { sub with sock, draining } ∧ sock.wire = sub.sock.wire ∧
      sock.closed = sub.sock.closed ∧ sock.answers = sub.sock.answers := by
  unfold Subscriber.stopDraining
  split
  · exact ⟨sub.sock, sub.draining, rfl, rfl, rfl, rfl⟩
  · exact ⟨_, _, rfl, rfl, rfl, rfl⟩

end Frame

section Send

variable {sock sock' : Sock} {view : Bytes}

theorem send_blocked (h : sock.send view = (.blockingIOError, sock')) :
    sock'.wire = sock.wire ∧ sock'.closed = sock.closed ∧ sock.closed = false := by
  unfold Sock.send at h
  split at h
  · cases h
  · rename_i hopen
    split at h <;> cases h
    exact ⟨rfl, rfl, by simpa using hopen⟩

theorem send_failed (h : sock.send view = (.osError, sock')) :
    sock'.wire = sock.wire ∧ sock'.closed = sock.closed ∧
      (sock.closed = true ∨ sock.nextAnswer = .error) := by
  unfold Sock.send at h
  split at h
  · rename_i hclosed
    cases h
    exact ⟨rfl, rfl, .inl hclosed⟩
  · split at h <;> cases h
    rename_i herr
    exact ⟨rfl, rfl, .inr herr⟩

theorem send_accepted {n : Nat} (h : sock.send view = (.accepted n, sock')) :
    n ≤ view.length ∧ sock'.wire = sock.wire ++ view.take n ∧ sock'.closed = sock.closed ∧
      sock.closed = false := by
  unfold Sock.send at h
  split at h
  · cases h
  rename_i hopen
  have hopen : sock.closed = false := by simpa using hopen
  split at h <;> cases h
  · exact ⟨le_refl _, by rw [List.take_length], rfl, hopen⟩
  · rename_i k hshort
    refine ⟨Nat.min_le_right _ _, ?_, rfl, hopen⟩
    rw [← List.take_eq_take_min]

theorem send_closed (h : sock.closed = true) : sock.send view = (.osError, sock) := by
  rw [Sock.send, if_pos h]

end Send

section Enqueue

variable {sub : Subscriber} {blob : Blob} {counts : Bool}

/-- All that one `enqueue` does: the frame joins the stream, or it is lost whole and the lag count
trips. -/
structure Enqueued (sub : Subscriber) (blob : Blob) (sub' : Subscriber) : Prop where
  envelope : SameEnvelope sub sub'
  closed : sub'.sock.closed = sub.sock.closed
  wire : sub.sock.wire <+: sub'.sock.wire
  outcome :
    (sub'.handed = sub.handed ++ [blob] ∧ ∀ kept, Tiled kept sub.sock.wire sub.queue →
      Tiled (kept ++ [blob.bytes]) sub'.sock.wire sub'.queue) ∨
    (sub'.handed = sub.handed ∧ sub'.sock.wire = sub.sock.wire ∧ sub'.queue = sub.queue ∧
      sub'.lagCount = lagLimit ∧ (sub.sock.closed = true ∨ sub.sock.nextAnswer = .error))

private theorem enqueued_behind {sub₀ : Subscriber} (henv : SameEnvelope sub sub₀)
    (hclosed : sub₀.sock.closed = sub.sock.closed) (hgrows : sub.sock.wire <+: sub₀.sock.wire)
    (hhanded : sub₀.handed = sub.handed ++ [blob])
    (htiled : ∀ kept, Tiled kept sub.sock.wire sub.queue →
      Tiled (kept ++ [blob.bytes]) sub₀.sock.wire sub₀.queue) :
    Enqueued sub blob sub₀.startDraining := by
  obtain ⟨sock, draining, heq, hwire, hcl, -⟩ := startDraining_eq sub₀
  rw [heq]
  refine ⟨⟨henv.1, henv.2, henv.3, henv.4, henv.5⟩, hcl.trans hclosed, hwire ▸ hgrows,
    .inl ⟨hhanded, ?_⟩⟩
  intro kept h
  exact hwire ▸ htiled kept h

theorem enqueue_enqueued (sub : Subscriber) (blob : Blob) (counts : Bool) :
    Enqueued sub blob (sub.enqueue blob counts).2 := by
  unfold Subscriber.enqueue
  split
  · refine enqueued_behind ⟨rfl, rfl, rfl, rfl, rfl⟩ rfl (List.prefix_refl _) rfl fun kept h => ?_
    simpa [Subscriber.queue] using h.push blob.bytes
  rename_i hempty
  have htx : sub.txQueue = [] := by simpa using hempty
  have hqueue : sub.queue = [] := by rw [Subscriber.queue, htx, List.map_nil]
  split
  · rename_i sock hsend
    obtain ⟨hwire, hclosed, -⟩ := send_blocked hsend
    refine enqueued_behind ⟨rfl, rfl, rfl, rfl, rfl⟩ hclosed (hwire ▸ List.prefix_refl _) rfl
      fun kept h => ?_
    have := h.push blob.bytes
    rw [hqueue] at this
    simpa [Subscriber.queue, hwire] using this
  · rename_i sock hsend
    obtain ⟨hwire, hclosed, herr⟩ := send_failed hsend
    exact ⟨⟨rfl, rfl, rfl, rfl, rfl⟩, hclosed, hwire ▸ List.prefix_refl _,
      .inr ⟨rfl, hwire, rfl, rfl, herr⟩⟩
  · rename_i n sock hsend
    obtain ⟨-, hwire, hclosed, -⟩ := send_accepted hsend
    split
    · rename_i hall
      refine ⟨⟨rfl, rfl, rfl, rfl, rfl⟩, hclosed, hwire ▸ List.prefix_append _ _,
        .inl ⟨rfl, fun kept h => ?_⟩⟩
      rw [hqueue] at h
      have := h.sendWhole blob.bytes
      simpa [Subscriber.queue, htx, hwire, hall] using this
    · refine enqueued_behind ⟨rfl, rfl, rfl, rfl, rfl⟩ hclosed (hwire ▸ List.prefix_append _ _)
        rfl fun kept h => ?_
      rw [hqueue] at h
      have := h.send blob.bytes n
      simpa [Subscriber.queue, hwire] using this

theorem enqueue_whole (sub : Subscriber) (blob : Blob) (counts : Bool)
    (hqueue : sub.txQueue = []) (hopen : sub.sock.closed = false)
    (htakes : sub.sock.nextAnswer.takes blob.bytes.length = true) :
    ∃ delivered, sub.enqueue blob counts = (true, { sub with
      sock := { sub.sock with
        answers := sub.sock.answers.tail, wire := sub.sock.wire ++ blob.bytes }
      handed := sub.handed ++ [blob], delivered, lagCount := 0 }) := by
  have hsend : sub.sock.send blob.bytes = (.accepted blob.bytes.length, { sub.sock with
      answers := sub.sock.answers.tail, wire := sub.sock.wire ++ blob.bytes }) := by
    simp only [Sock.send, hopen, Bool.false_eq_true, if_false]
    cases hnext : sub.sock.nextAnswer with
    | whole => rfl
    | short n =>
      have hle : blob.bytes.length ≤ n := by simpa [hnext, Answer.takes] using htakes
      simp only [Nat.min_eq_right hle, List.take_of_length_le hle]
    | again | error => simp [hnext, Answer.takes] at htakes
  refine ⟨sub.delivered + counts.toNat, ?_⟩
  rw [Subscriber.enqueue, if_neg (by simp [hqueue]), hsend]
  simp only [if_true]

end Enqueue

section Drain

/-- The kernel is about to fail a send whose frame is partly written. -/
def Subscriber.Tears (sub : Subscriber) : Prop :=
  headSent sub.queue ≠ [] ∧ (sub.sock.closed = true ∨ sub.sock.nextAnswer = .error)

/-- All that one `_drain` does to the stream: it goes on with the queue, or it drops it; what is
dropped leaves the stream whole unless the first send tears its frame. -/
structure Drained (sub sub' : Subscriber) : Prop where
  envelope : SameEnvelope sub sub'
  closed : sub'.sock.closed = sub.sock.closed
  wire : sub.sock.wire <+: sub'.sock.wire
  handed : sub'.handed = sub.handed
  stream : ∀ kept, Tiled kept sub.sock.wire sub.queue →
    Tiled kept sub'.sock.wire sub'.queue ∨
    (sub'.queue = [] ∧ sub'.lagCount = lagLimit ∧
      (¬sub.Tears → ∃ done, done <+: kept ∧ Tiled done sub'.sock.wire []))

private theorem drainQueue_drained (queue : List (Entry UInt8 × Bool)) :
    ∀ sub : Subscriber, sub.txQueue = queue → Drained sub (drainQueue queue sub) := by
  induction queue with
  | nil =>
    intro sub hq
    obtain ⟨sock, draining, heq, hwire, hcl, -⟩ :=
      stopDraining_eq { sub with txQueue := [], lagCount := 0 }
    rw [drainQueue, heq]
    refine ⟨⟨rfl, rfl, rfl, rfl, rfl⟩, hcl, hwire ▸ List.prefix_refl _, rfl,
      fun kept h => .inl ?_⟩
    rw [Subscriber.queue, hq] at h
    exact hwire ▸ h
  | cons head rest ih =>
    intro sub hq
    obtain ⟨head, counts⟩ := head
    have hqueue : sub.queue = head :: rest.map (·.1) := by rw [Subscriber.queue, hq, List.map_cons]
    rw [drainQueue]
    split
    · rename_i sock hsend
      obtain ⟨hwire, hcl, -⟩ := send_blocked hsend
      refine ⟨⟨rfl, rfl, rfl, rfl, rfl⟩, hcl, hwire ▸ List.prefix_refl _, rfl,
        fun kept h => .inl ?_⟩
      rw [hqueue] at h
      simpa [Subscriber.queue, hwire] using h
    · rename_i sock hsend
      obtain ⟨hwire, hcl, herr⟩ := send_failed hsend
      obtain ⟨sock', draining, heq, hwire', hcl', -⟩ :=
        stopDraining_eq { sub with sock, txQueue := [], lagCount := lagLimit }
      rw [heq]
      refine ⟨⟨rfl, rfl, rfl, rfl, rfl⟩, hcl'.trans hcl, ?_, rfl,
        fun kept h => .inr ⟨rfl, rfl, ?_⟩⟩
      · rw [hwire', hwire]
      intro hno
      have hhead : headSent sub.queue = [] := by
        by_contra hne
        exact hno ⟨hne, herr⟩
      obtain ⟨done, hdone, htiled⟩ := h.discard hhead
      exact ⟨done, hdone, by rw [hwire', hwire]; exact htiled⟩
    · rename_i n sock hsend
      obtain ⟨hn, hwire, hcl, -⟩ := send_accepted hsend
      split
      · refine ⟨⟨rfl, rfl, rfl, rfl, rfl⟩, hcl, hwire ▸ List.prefix_append _ _, rfl,
          fun kept h => .inl ?_⟩
        rw [hqueue] at h
        simpa [Subscriber.queue, hwire] using h.advance n
      · rename_i hall
        have hfull : head.rest.take n = head.rest := List.take_of_length_le (by omega)
        have hrest := ih { sub with
          sock, delivered := sub.delivered + counts.toNat, txQueue := rest } rfl
        refine ⟨⟨hrest.envelope.1, hrest.envelope.2, hrest.envelope.3, hrest.envelope.4,
          hrest.envelope.5⟩, hrest.closed.trans hcl,
          (hwire ▸ List.prefix_append _ _ : sub.sock.wire <+: sock.wire).trans hrest.wire,
          hrest.handed, fun kept h => ?_⟩
        rw [hqueue] at h
        have hstep : Tiled kept sock.wire (rest.map (·.1)) := by
          rw [hwire, hfull]
          exact h.finish
        have hunsent : headSent (rest.map (·.1)) = [] := by
          cases rest with
          | nil => rfl
          | cons next rest => simp [headSent, h.unsent next.1 (by simp)]
        rcases hrest.stream kept hstep with htiled | ⟨hempty, hlag, hdone⟩
        · exact .inl htiled
        · exact .inr ⟨hempty, hlag, fun _ => hdone fun htear => htear.1 hunsent⟩

theorem drain_drained (sub : Subscriber) : Drained sub sub.drain :=
  drainQueue_drained sub.txQueue sub rfl

end Drain

section Close

variable {sub : Subscriber} {reject : Option Bytes}

theorem close_eq (sub : Subscriber) (reject : Option Bytes) : ∃ sock draining,
    sub.close reject = { sub with sock, draining, txQueue := [] } ∧ sock.closed = true ∧
      ∃ tip, sock.wire = sub.sock.wire ++ tip ∧
        (tip = [] ∨ sub.txQueue = [] ∧ ∃ frame ∈ reject, tip <+: frame) := by
  obtain ⟨sock, draining, heq, hwire, hcl, -⟩ := stopDraining_eq sub
  unfold Subscriber.close
  rw [heq]
  cases reject with
  | none => exact ⟨_, draining, rfl, rfl, [], by simpa using hwire, .inl rfl⟩
  | some frame =>
    by_cases hq : sub.txQueue = []
    · simp only [hq, if_true]
      refine ⟨_, draining, rfl, rfl, ?_⟩
      cases hsend : sock.send frame with
      | mk sent sock' =>
        cases sent with
        | accepted n =>
          obtain ⟨-, hsent, -⟩ := send_accepted hsend
          exact ⟨frame.take n, by rw [hsent, hwire],
            .inr ⟨trivial, frame, rfl, List.take_prefix _ _⟩⟩
        | blockingIOError =>
          obtain ⟨hsent, -⟩ := send_blocked hsend
          exact ⟨[], by simpa [hsent] using hwire, .inl rfl⟩
        | osError =>
          obtain ⟨hsent, -⟩ := send_failed hsend
          exact ⟨[], by simpa [hsent] using hwire, .inl rfl⟩
    · simp only [hq, if_false]
      exact ⟨_, draining, rfl, rfl, [], by simpa using hwire, .inl rfl⟩

theorem close_closed (sub : Subscriber) (reject : Option Bytes) :
    (sub.close reject).sock.closed = true ∧ (sub.close reject).handed = sub.handed := by
  obtain ⟨sock, draining, heq, hcl, -⟩ := close_eq sub reject
  rw [heq]
  exact ⟨hcl, rfl⟩

end Close

section Writer

/-- The drain callback is registered only while the subscriber drains, on an open socket. -/
def Subscriber.Armed (sub : Subscriber) : Prop :=
  sub.sock.writer = some .drain → sub.draining = true ∧ sub.sock.closed = false

/-- What a step of the transmit queue does to the registered callbacks. -/
structure Arms (sub sub' : Subscriber) : Prop where
  armed : sub.Armed → sub'.Armed
  ack : sub'.sock.writer = some .ack → sub.sock.writer = some .ack

theorem Arms.refl (sub : Subscriber) : Arms sub sub :=
  ⟨id, id⟩

theorem Arms.trans {a b c : Subscriber} (h : Arms a b) (h' : Arms b c) : Arms a c :=
  ⟨fun ha => h'.armed (h.armed ha), fun hc => h.ack (h'.ack hc)⟩

theorem Sock.send_writer (sock : Sock) (view : Bytes) :
    (sock.send view).2.writer = sock.writer ∧ (sock.send view).2.closed = sock.closed := by
  unfold Sock.send
  split
  · exact ⟨rfl, rfl⟩
  · split <;> exact ⟨rfl, rfl⟩

theorem Arms.same {sub sub' : Subscriber} (hwriter : sub'.sock.writer = sub.sock.writer)
    (hclosed : sub'.sock.closed = sub.sock.closed) (hdraining : sub'.draining = sub.draining) :
    Arms sub sub' := by
  refine ⟨fun h => ?_, fun h => by rwa [hwriter] at h⟩
  rw [Subscriber.Armed, hwriter, hclosed, hdraining]
  exact h

theorem Arms.sent {sub sub' : Subscriber} {view : Bytes} {sent : Sent} {sock : Sock}
    (h : sub.sock.send view = (sent, sock)) (hsock : sub'.sock = sock)
    (hdraining : sub'.draining = sub.draining) : Arms sub sub' := by
  have hkeep := sub.sock.send_writer view
  rw [h] at hkeep
  exact .same (hsock ▸ hkeep.1) (hsock ▸ hkeep.2) hdraining

theorem startDraining_arms (sub : Subscriber) : Arms sub sub.startDraining := by
  unfold Subscriber.startDraining
  split
  · exact .refl sub
  · rename_i hidle
    split
    · exact .same rfl rfl rfl
    · refine ⟨fun _ _ => ⟨rfl, ?_⟩, fun h => nomatch h⟩
      have hopen : ¬sub.draining = true ∧ ¬sub.sock.closed = true := by simpa using hidle
      simpa using hopen.2

theorem stopDraining_arms (sub : Subscriber) : Arms sub sub.stopDraining ∧
    (sub.Armed → sub.stopDraining.sock.writer ≠ some .drain) := by
  unfold Subscriber.stopDraining
  split
  · rename_i hidle
    refine ⟨.refl sub, fun h hwriter => ?_⟩
    have hdraining := (h hwriter).1
    simp [hdraining] at hidle
  · cases hclosed : sub.sock.closed with
    | false => exact ⟨⟨fun _ h => (nomatch h), fun h => (nomatch h)⟩, fun _ h => nomatch h⟩
    | true =>
      have hnone : sub.Armed → sub.sock.writer ≠ some .drain := fun h hwriter => by
        have hopen := (h hwriter).2
        rw [hclosed] at hopen
        cases hopen
      exact ⟨⟨fun h hwriter => absurd hwriter (hnone h), id⟩, hnone⟩

theorem enqueue_arms (sub : Subscriber) (blob : Blob) (counts : Bool) :
    Arms sub (sub.enqueue blob counts).2 := by
  simp only [Subscriber.enqueue]
  split
  · refine Arms.trans ?_ (startDraining_arms _)
    exact .same rfl rfl rfl
  · split <;> rename_i hsend
    · refine Arms.trans ?_ (startDraining_arms _)
      exact .sent hsend rfl rfl
    · exact .sent hsend rfl rfl
    · split
      · exact .sent hsend rfl rfl
      · refine Arms.trans ?_ (startDraining_arms _)
        exact .sent hsend rfl rfl

private theorem drainQueue_arms (queue : List (Entry UInt8 × Bool)) :
    ∀ sub : Subscriber, Arms sub (drainQueue queue sub) := by
  induction queue with
  | nil =>
    intro sub
    rw [drainQueue]
    refine Arms.trans ?_ (stopDraining_arms _).1
    exact .same rfl rfl rfl
  | cons head rest ih =>
    intro sub
    simp only [drainQueue]
    split <;> rename_i hsend
    · exact .sent hsend rfl rfl
    · refine Arms.trans ?_ (stopDraining_arms _).1
      exact .sent hsend rfl rfl
    · split
      · exact .sent hsend rfl rfl
      · refine Arms.trans ?_ (ih _)
        exact .sent hsend rfl rfl

theorem drain_arms (sub : Subscriber) : Arms sub sub.drain :=
  drainQueue_arms sub.txQueue sub

theorem close_arms (sub : Subscriber) (reject : Option Bytes) : Arms sub (sub.close reject) := by
  obtain ⟨hstop, hnone⟩ := stopDraining_arms sub
  have hwriter : (sub.close reject).sock.writer = sub.stopDraining.sock.writer := by
    unfold Subscriber.close
    cases reject with
    | none => rfl
    | some frame =>
      simp only
      split
      · exact (Sock.send_writer _ _).1
      · rfl
  refine ⟨fun h hw => ?_, fun hw => hstop.ack (hwriter ▸ hw)⟩
  rw [hwriter] at hw
  exact absurd hw (hnone h)

end Writer

end Waitbus.TxQueue
