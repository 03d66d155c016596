import Waitbus.Runs
import Waitbus.RowFrame
import Waitbus.TxQueue

/-! The broadcast daemon between two wake-ups of its event loop. A step is one commit by a
producer or one callback run to its next suspension; the handshake of a subscriber is cut where
it awaits the write of its ack. Database faults are part of the label that meets them. -/

namespace Waitbus.Daemon
open Python FrameCodec EventStore RowFrame TxQueue Runs

def sweepLimit : Nat := 500

def replayLimit : Nat := 500

/-- Where a `_read_subscribe` task is: at the await of its ack (and how much of the ack is left),
past it but not yet resumed, or over. `bailed` is an early `return`, `served` the end of it. -/
inductive Task where
  | ackPending (started : Bool) (rest : Bytes)
  | ackDone
  | ackFailed
  | served
  | bailed
  | raised (exc : PyExc)
  | cancelled
  deriving DecidableEq

/-- A connection that was registered, its place in the subscriber map, and the locals of its
handshake. `joinedAt` is history: the cursor at its registration. -/
structure Conn where
  fd : Nat
  sub : Subscriber
  registered : Bool
  since : Option Ulid
  untilSeq : Option Nat
  caughtUpAt : Option String
  ack : Bytes
  task : Task
  joinedAt : Nat

/-- `conns` keeps every connection ever registered, in the insertion order of the map. -/
structure Hub where
  store : Store
  cursor : Nat
  conns : List Conn
  subscriberCount : Int
  heartbeatSec : SqlInt
  stopping : Bool

/-- `sock.fileno()`, which is negative once the socket is closed. -/
def Conn.fileno (c : Conn) : Option Nat :=
  if c.sub.sock.closed then none else some c.fd

section Closing

def Conn.evict (R : Runtime) (reason : CloseReason) (c : Conn) : Conn :=
  { c with registered := false, sub := c.sub.close (terminalRejectFrame R reason) }

def Hub.closeSubscriber (R : Runtime) (reason : CloseReason) (hub : Hub) (fd : Option Nat) :
    Hub :=
  let entry (c : Conn) : Bool := c.registered && fd = some c.fd
  if hub.conns.any entry then
    { hub with
      conns := hub.conns.map fun c => if entry c then c.evict R reason else c
      subscriberCount := hub.subscriberCount - 1 }
  else hub

def Hub.closeAll (R : Runtime) (reason : CloseReason) (fds : List Nat) (hub : Hub) : Hub :=
  fds.foldl (fun hub fd => hub.closeSubscriber R reason (some fd)) hub

/-- A loop over the subscriber map that sends to each entry and afterwards closes, under one
reason, those the send has marked. -/
def Hub.sendToAll (R : Runtime) (reason : CloseReason) (send : Subscriber → Bool × Subscriber)
    (hub : Hub) : Hub :=
  let sent (c : Conn) : Bool × Conn :=
    if c.registered then ((send c.sub).1, { c with sub := (send c.sub).2 }) else (false, c)
  let toDrop := (hub.conns.filter fun c => (sent c).1).map (·.fd)
  { hub with conns := hub.conns.map fun c => (sent c).2 }.closeAll R reason toDrop

end Closing

section Broadcast

/-- One turn of the loop of `_fan_out`; true marks the subscriber for closing. -/
def offer (row : Row) (blob : Blob) (sub : Subscriber) : Bool × Subscriber :=
  if !sub.matches row.owner row.repo row.eventType then (false, sub)
  else if sub.replayWatermark.any (row.seq ≤ ·) then (false, sub)
  else
    let sub := { sub with replayWatermark := none }
    match sub.preAckBuffer with
    | some buffer =>
      if buffer.length ≥ preAckBufferFrames ∨
          sub.preAckBufferedBytes + blob.bytes.length > preAckBufferBytes then (true, sub)
      else
        let preAckBufferedBytes := sub.preAckBufferedBytes + blob.bytes.length
        (false, { sub with preAckBuffer := some (buffer ++ [blob]), preAckBufferedBytes })
    | none =>
      let sub := (sub.enqueue blob true).2
      (sub.lagCount ≥ lagLimit, sub)

def Hub.fanOut (R : Runtime) (row : Row) (bytes : Bytes) (hub : Hub) : Hub :=
  hub.sendToAll R .lagLimitExceeded (offer row ⟨bytes, some row⟩)

/-- The loop of `_broadcast_pass`, with the exception that ends it early, if one does. -/
def Hub.sweep (R : Runtime) : List Row → Hub → Option PyExc × Hub
  | [], hub => (none, hub)
  | row :: rest, hub =>
    match rowBlob R row with
    | .error exc => (some exc, hub)
    | .ok bytes => Hub.sweep R rest { hub.fanOut R row bytes with cursor := row.seq }

def Hub.broadcastPass (R : Runtime) (fault : Bool) (hub : Hub) : Option PyExc × Hub :=
  if fault then (some .sqliteError, hub)
  else hub.sweep R (hub.store.iterEventsAbove hub.cursor none sweepLimit)

/-- One turn of the loop of `_heartbeat_loop`. -/
def beat (blob : Blob) (sub : Subscriber) : Bool × Subscriber :=
  let sub := (sub.enqueue blob false).2
  (sub.lagCount ≥ lagLimit, sub)

def Hub.heartbeat (R : Runtime) (ts uptimeSec : SqlInt) (hub : Hub) : Hub :=
  match encodeStructFrame R (.daemonHeartbeat ⟨ts, uptimeSec⟩) with
  | .error _ => hub
  | .ok bytes => hub.sendToAll R .heartbeatLag (beat ⟨bytes, none⟩)

end Broadcast

section Handshake

/-- A validated subscribe envelope on an accepted socket. -/
structure Envelope where
  fd : Nat
  sock : Sock
  filters : List String
  eventTypes : List String
  since : Option Ulid

def Envelope.subscriber (env : Envelope) (replayWatermark : Option Nat) : Subscriber where
  sock := env.sock
  filters := env.filters
  eventTypes := env.eventTypes
  lagCount := 0
  replayWatermark := replayWatermark
  preAckBuffer := some []
  preAckBufferedBytes := 0
  txQueue := []
  draining := false
  delivered := 0
  handed := []

/-- `_read_subscribe` from the registration to the await of the ack. A fault while the snapshot
is taken is caught nowhere, and the entry stays in the map. -/
def Hub.register (R : Runtime) (env : Envelope) (fault : Bool) (hub : Hub) : Conn :=
  let conn : Conn := {
    fd := env.fd, sub := env.subscriber none, registered := true, since := env.since
    untilSeq := none, caughtUpAt := none, ack := [], task := .raised .sqliteError
    joinedAt := hub.cursor }
  if env.since.isSome && fault then conn
  else
    let snapshot := hub.store.currentMaxSnapshot
    let untilSeq := if env.since.isSome then some snapshot.1 else none
    let caughtUpAt := if env.since.isSome then snapshot.2 else none
    let conn := { conn with sub := env.subscriber untilSeq, untilSeq, caughtUpAt }
    let frame := ⟨frameProtoVersion, caughtUpAt, hub.heartbeatSec, ⟨maxFrameBytes, by decide⟩⟩
    match encodeStructFrame R (.subscribeAck frame) with
    | .ok ack => { conn with ack, task := .ackPending false ack }
    | .error exc => { conn with task := .raised exc }

def Hub.subscribe (R : Runtime) (env : Envelope) (fault : Bool) (hub : Hub) : Option Hub :=
  if hub.stopping ∨ env.sock.closed ∨ env.sock.wire ≠ [] ∨ env.sock.writer.isSome ∨
      some env.fd ∈ hub.conns.map (·.fileno) then none
  else some { hub with
    conns := hub.conns ++ [hub.register R env fault]
    subscriberCount := hub.subscriberCount + 1 }

/-- What the completion, the failure or the cancellation of the ack's write does to its writer. -/
def Sock.dropAckWriter (sock : Sock) : Sock :=
  if sock.writer = some .ack then { sock with writer := none } else sock

/-- One attempt of `loop.sock_sendall`: the first runs by itself, the others as the writer. What
is left unsent arms the writer, in the place of any other. -/
def Conn.ackSend (c : Conn) : Option Conn :=
  match c.task with
  | .ackPending started rest =>
    if started && c.sub.sock.writer ≠ some .ack then none
    else
      let put (sock : Sock) (task : Task) : Option Conn :=
        some { c with sub := { c.sub with sock }, task }
      let wait (sock : Sock) (left : Bytes) : Option Conn :=
        if started then put sock (.ackPending true left)
        else if sock.armFaults.head?.getD false then
          put { sock with armFaults := sock.armFaults.tail } .ackFailed
        else
          put { sock with armFaults := sock.armFaults.tail, writer := some .ack }
            (.ackPending true left)
      match c.sub.sock.send rest with
      | (.osError, sock) => put (Sock.dropAckWriter sock) .ackFailed
      | (.blockingIOError, sock) => wait sock rest
      | (.accepted n, sock) =>
        if n = rest.length then put (Sock.dropAckWriter sock) .ackDone
        else wait sock (rest.drop n)
  | _ => none

/-- The await of the ack ends without it: the two-second timeout, or a cancellation. -/
def Conn.ackAbort (task : Task) (c : Conn) : Conn :=
  { c with sub := { c.sub with sock := Sock.dropAckWriter c.sub.sock }, task }

def Conn.ackTimeout (c : Conn) : Option Conn :=
  match c.task with
  | .ackPending _ _ => some (c.ackAbort .ackFailed)
  | _ => none

def Conn.cancel (c : Conn) : Conn :=
  match c.task with
  | .ackPending _ _ => c.ackAbort .cancelled
  | .ackDone | .ackFailed => { c with task := .cancelled }
  | _ => c

inductive Replayed where
  | alive
  | lagged
  | raised (exc : PyExc)

/-- The loop of `_replay`, up to the close of a lagging subscriber. -/
def replayRows (R : Runtime) : List Row → Subscriber → Replayed × Subscriber
  | [], sub => (.alive, sub)
  | row :: rest, sub =>
    if !sub.matches row.owner row.repo row.eventType then replayRows R rest sub
    else match rowBlob R row with
      | .error exc => (.raised exc, sub)
      | .ok bytes =>
        let sub := (sub.enqueue ⟨bytes, some row⟩ true).2
        if sub.lagCount ≥ lagLimit then (.lagged, sub) else replayRows R rest sub

/-- The loop that drains the pre-ack buffer; false when the subscriber lags. -/
def drainBuffer : List Blob → Subscriber → Bool × Subscriber
  | [], sub => (true, sub)
  | blob :: rest, sub =>
    let sub := (sub.enqueue blob true).2
    if sub.lagCount ≥ lagLimit then (false, sub) else drainBuffer rest sub

/-- The end of `_read_subscribe`, with the reason of the close it makes last, if it makes one. -/
def Conn.drainPreAck (c : Conn) : Conn × Option CloseReason :=
  let buffered := c.sub.preAckBuffer.getD []
  match drainBuffer buffered { c.sub with preAckBuffer := none, preAckBufferedBytes := 0 } with
  | (true, sub) => ({ c with sub, task := .served }, none)
  | (false, sub) => ({ c with sub, task := .bailed }, some .lagLimitExceeded)

/-- `_read_subscribe` once its await of the ack returns or raises. -/
def Conn.resume (R : Runtime) (store : Store) (fault : Bool) (c : Conn) :
    Option (Conn × Option CloseReason) :=
  match c.task with
  | .ackFailed => some ({ c with task := .bailed }, some .subscribeAckSendFailed)
  | .ackDone =>
    match c.since with
    | none => some c.drainPreAck
    | some since =>
      if fault then some ({ c with task := .bailed }, some .replayDbError)
      else
        let sinceSeq := store.seqForEventId since.val
        match replayRows R (store.iterEventsAbove sinceSeq c.untilSeq replayLimit) c.sub with
        | (.alive, sub) => some { c with sub }.drainPreAck
        | (.lagged, sub) => some ({ c with sub, task := .bailed }, some .replayLagLimitExceeded)
        | (.raised .sqliteError, sub) =>
          some ({ c with sub, task := .bailed }, some .replayDbError)
        | (.raised exc, sub) => some ({ c with sub, task := .raised exc }, none)
  | _ => none

/-- The loop's writability callback, when it is the subscriber's. -/
def Conn.writable (c : Conn) : Option Conn :=
  if c.sub.sock.writer = some .drain then some { c with sub := c.sub.drain } else none

end Handshake

inductive Label where
  | commit (batch : List (EventInsert × Ulid))
  | broadcastPass (fault : Bool)
  | heartbeat (ts uptimeSec : SqlInt)
  | subscribe (env : Envelope) (fault : Bool)
  | ackSend (i : Nat)
  | ackTimeout (i : Nat)
  | resume (i : Nat) (fault : Bool)
  | writable (i : Nat)
  | cancelHandshakes
  | shutdown (fault : Bool)

def Hub.set (hub : Hub) (i : Nat) (c : Conn) : Hub :=
  { hub with conns := hub.conns.set i c }

def Hub.act (R : Runtime) (hub : Hub) (i : Nat) (act : Conn → Option (Conn × Option CloseReason)) :
    Option Hub := do
  let c ← hub.conns[i]?
  let (c, close) ← act c
  return match close with
    | none => hub.set i c
    | some reason => (hub.set i c).closeSubscriber R reason c.fileno

/-- `_shutdown`: a last pass whose exceptions are suppressed, then a close of every entry. -/
def Hub.shutdown (R : Runtime) (fault : Bool) (hub : Hub) : Hub :=
  if hub.stopping then hub
  else
    let hub := ({ hub with stopping := true }.broadcastPass R fault).2
    hub.closeAll R .shutdown ((hub.conns.filter (·.registered)).map (·.fd))

def Hub.step (R : Runtime) (hub : Hub) : Label → Option Hub
  | .commit batch =>
    match hub.store.insertAll batch with
    | .ok (_, store) => some { hub with store }
    | .error _ => some hub
  | .broadcastPass fault =>
    if hub.stopping then none else some (hub.broadcastPass R fault).2
  | .heartbeat ts uptimeSec =>
    if hub.stopping then none else some (hub.heartbeat R ts uptimeSec)
  | .subscribe env fault => hub.subscribe R env fault
  | .ackSend i => hub.act R i fun c => c.ackSend.map (·, none)
  | .ackTimeout i => hub.act R i fun c => c.ackTimeout.map (·, none)
  | .resume i fault => hub.act R i fun c => c.resume R hub.store fault
  | .writable i => hub.act R i fun c => c.writable.map (·, none)
  | .cancelHandshakes => some { hub with conns := hub.conns.map Conn.cancel }
  | .shutdown fault => some (hub.shutdown R fault)

/-- The daemon from `_seed_cursor` on. -/
def hubSystem (R : Runtime) : System Hub Label where
  init hub := hub.cursor = hub.store.maxSeq ∧ hub.conns = [] ∧ hub.subscriberCount = 0 ∧
    hub.stopping = false
  step := Hub.step R

section Samples

/-- The daemon right after `_seed_cursor`. -/
def Hub.seeded (store : Store) : Hub where
  store := store
  cursor := store.maxSeq
  conns := []
  subscriberCount := 0
  heartbeatSec := ⟨30, by decide⟩
  stopping := false

theorem seeded_init (R : Runtime) (store : Store) : (hubSystem R).init (Hub.seeded store) :=
  ⟨rfl, rfl, rfl, rfl⟩

def sampleEnvelope (fd : Nat) (answers : List Answer) (since : Option Ulid) : Envelope where
  fd := fd
  sock := ⟨false, [], answers, [], none⟩
  filters := ["local/agents"]
  eventTypes := ["agent_message"]
  since := since

end Samples

end Waitbus.Daemon
