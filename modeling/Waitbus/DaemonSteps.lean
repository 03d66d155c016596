import Waitbus.Daemon

/-! What one step of the daemon does to one connection. The loops over the subscriber map treat
every entry alike and on its own, because the descriptors of open sockets differ; an invariant of
connections is then a handful of facts about single connections. -/

namespace Waitbus.Daemon
open Python FrameCodec EventStore RowFrame TxQueue Runs OrderedLog

structure Hub.WF (hub : Hub) : Prop where
  openEntries : ∀ c ∈ hub.conns, c.registered = !c.sub.sock.closed
  fds : hub.conns.Pairwise fun a b => a.registered → b.registered → a.fd ≠ b.fd
  cursor_le : hub.cursor ≤ hub.store.lastSeq

/-- An entry of the map sends, and is closed when the send has marked it. -/
def Conn.sendEach (R : Runtime) (reason : CloseReason) (send : Subscriber → Bool × Subscriber)
    (c : Conn) : Conn :=
  if c.registered then
    let c' := { c with sub := (send c.sub).2 }
    if (send c.sub).1 then c'.evict R reason else c'
  else c

/-- The close that a handshake ends with, when the connection is still in the map. -/
def Conn.settle (R : Runtime) (c : Conn) : Option CloseReason → Conn
  | none => c
  | some reason => if c.registered then c.evict R reason else c

section Closing

variable {R : Runtime} {reason : CloseReason} {hub : Hub}

theorem closeSubscriber_eq (hub : Hub) (reason : CloseReason) (fd : Option Nat) : ∃ count,
    hub.closeSubscriber R reason fd = { hub with
      conns := hub.conns.map fun c => if c.registered && fd = some c.fd then c.evict R reason else c
      subscriberCount := count } := by
  simp only [Hub.closeSubscriber]
  split
  · exact ⟨_, rfl⟩
  · rename_i hnone
    refine ⟨hub.subscriberCount, ?_⟩
    have hid : hub.conns.map (fun c =>
        if c.registered && fd = some c.fd then c.evict R reason else c) = hub.conns := by
      conv_rhs => rw [← List.map_id hub.conns]
      refine List.map_congr_left fun c hc => ?_
      have hno : ¬(c.registered && fd = some c.fd) = true := fun h =>
        hnone (List.any_eq_true.mpr ⟨c, hc, h⟩)
      rw [if_neg hno, id]
    rw [hid]

theorem closeAll_eq (hub : Hub) (reason : CloseReason) (fds : List Nat) : ∃ count,
    hub.closeAll R reason fds = { hub with
      conns := hub.conns.map fun c =>
        if c.registered && fds.contains c.fd then c.evict R reason else c
      subscriberCount := count } := by
  induction fds generalizing hub with
  | nil => exact ⟨hub.subscriberCount, by simp [Hub.closeAll]⟩
  | cons fd rest ih =>
    obtain ⟨count, heq⟩ := closeSubscriber_eq (R := R) hub reason (some fd)
    obtain ⟨count', heq'⟩ := ih (hub.closeSubscriber R reason (some fd))
    refine ⟨count', ?_⟩
    rw [Hub.closeAll, List.foldl_cons, ← Hub.closeAll, heq', heq]
    simp only [List.map_map]
    congr 1
    refine List.map_congr_left fun c _ => ?_
    simp only [Function.comp_apply, Option.some.injEq, List.contains_cons]
    cases hreg : c.registered
    · simp [hreg]
    · by_cases hfd : fd = c.fd
      · simp [hfd, Conn.evict]
      · have hfd' : ¬c.fd = fd := fun h => hfd h.symm
        simp [hfd, hfd', hreg]

theorem Hub.WF.eq_of_fd (h : hub.WF) {a b : Conn} (ha : a ∈ hub.conns) (hb : b ∈ hub.conns)
    (hra : a.registered = true) (hrb : b.registered = true) (hfd : a.fd = b.fd) : a = b := by
  have : Std.Symm fun a b : Conn => a.registered → b.registered → a.fd ≠ b.fd :=
    ⟨fun a b hab hb ha heq => hab ha hb heq.symm⟩
  by_contra hne
  exact h.fds.forall ha hb hne hra hrb hfd

theorem sendToAll_eq (h : hub.WF) (reason : CloseReason) (send : Subscriber → Bool × Subscriber) :
    ∃ count,
    hub.sendToAll R reason send = { hub with
      conns := hub.conns.map (Conn.sendEach R reason send), subscriberCount := count } := by
  unfold Hub.sendToAll
  obtain ⟨count, heq⟩ := closeAll_eq (R := R)
    { hub with conns := hub.conns.map fun c =>
      (if c.registered then ((send c.sub).1, { c with sub := (send c.sub).2 })
        else (false, c)).2 }
    reason ((hub.conns.filter fun c => (if c.registered then
      ((send c.sub).1, { c with sub := (send c.sub).2 }) else (false, c)).1).map (·.fd))
  refine ⟨count, heq.trans ?_⟩
  simp only [List.map_map]
  congr 1
  refine List.map_congr_left fun c hc => ?_
  simp only [Function.comp_apply, Conn.sendEach]
  cases hreg : c.registered
  · simp [hreg]
  · simp only [if_true, Bool.true_and]
    congr 1
    rw [List.contains_iff_mem, eq_iff_iff, List.mem_map]
    constructor
    · rintro ⟨d, hd, hfd⟩
      obtain ⟨hd, hmark⟩ := List.mem_filter.mp hd
      cases hrd : d.registered
      · simp [hrd] at hmark
      · rw [h.eq_of_fd hc hd hreg hrd hfd.symm]
        simpa [hrd] using hmark
    · intro hmark
      exact ⟨c, List.mem_filter.mpr ⟨hc, by simpa [hreg] using hmark⟩, rfl⟩

end Closing

section Entries

/-- The connection stands in the map as before. -/
structure SameEntry (c c' : Conn) : Prop where
  fd : c'.fd = c.fd
  registered : c'.registered = c.registered
  closed : c'.sub.sock.closed = c.sub.sock.closed

variable {R : Runtime} {reason : CloseReason} {hub : Hub} {c c' : Conn}

theorem evict_entry (reason : CloseReason) (c : Conn) : (c.evict R reason).fd = c.fd ∧
    (c.evict R reason).registered = false ∧ (c.evict R reason).sub.sock.closed = true :=
  ⟨rfl, rfl, (close_closed _ _).1⟩

theorem fileno_registered (h : c.registered = !c.sub.sock.closed) :
    c.fileno = if c.registered then some c.fd else none := by
  rw [Conn.fileno, h]
  cases c.sub.sock.closed <;> rfl

private theorem Hub.WF.other_fd (h : hub.WF) {i j : Nat} {a b : Conn} (ha : hub.conns[i]? = some a)
    (hb : hub.conns[j]? = some b) (hij : i ≠ j) (hra : a.registered = true)
    (hrb : b.registered = true) : a.fd ≠ b.fd := by
  obtain ⟨hi, hai⟩ := List.getElem?_eq_some_iff.mp ha
  obtain ⟨hj, hbj⟩ := List.getElem?_eq_some_iff.mp hb
  have hpair := List.pairwise_iff_getElem.mp h.fds
  rcases Nat.lt_or_gt_of_ne hij with hlt | hlt
  · have := hpair i j hi hj hlt
    rw [hai, hbj] at this
    exact this hra hrb
  · have := hpair j i hj hi hlt
    rw [hai, hbj] at this
    exact fun heq => this hrb hra heq.symm

theorem act_eq {i : Nat} {act : Conn → Option (Conn × Option CloseReason)} {hub' : Hub}
    (h : hub.WF) (hsame : ∀ c r, act c = some r → SameEntry c r.1)
    (hact : hub.act R i act = some hub') : ∃ c r count, hub.conns[i]? = some c ∧ act c = some r ∧
      hub' = { hub with
        conns := hub.conns.set i (r.1.settle R r.2), subscriberCount := count } := by
  simp only [Hub.act, Option.bind_eq_bind, Option.bind_eq_some_iff] at hact
  obtain ⟨c, hc, ⟨c', close⟩, hr, hact⟩ := hact
  obtain ⟨hfd, hreg, hcl⟩ := hsame c _ hr
  have hmem : c ∈ hub.conns := List.mem_of_getElem? hc
  have hopen : c'.registered = !c'.sub.sock.closed := by
    rw [hreg, hcl, h.openEntries c hmem]
  cases close with
  | none => exact ⟨c, _, _, hc, hr, (Option.some.inj hact).symm⟩
  | some reason =>
    obtain ⟨count, heq⟩ := closeSubscriber_eq (R := R) (hub.set i c') reason
      c'.fileno
    refine ⟨c, _, count, hc, hr, ?_⟩
    refine (Option.some.inj hact).symm.trans (heq.trans ?_)
    simp only [Hub.set, Conn.settle]
    congr 1
    have hlt : i < hub.conns.length := (List.getElem?_eq_some_iff.mp hc).1
    apply List.ext_getElem?
    intro j
    rw [List.getElem?_map, List.getElem?_set, List.getElem?_set, fileno_registered hopen]
    by_cases hij : i = j
    · subst hij
      simp only [if_true, hlt, Option.map_some]
      cases hc' : c'.registered <;> simp
    · simp only [hij, if_false]
      cases hd : hub.conns[j]? with
      | none => rfl
      | some d =>
        cases hc' : c'.registered
        · simp
        · have hne : d.registered = true → c'.fd ≠ d.fd := fun hrd => by
            rw [hfd]
            exact h.other_fd hc hd hij (hreg ▸ hc') hrd
          cases hrd : d.registered
          · simp [hrd]
          · simp [hrd, hne hrd]

/-- The connection stands in the map as before or has left it, closed. -/
structure EntryAfter (c c' : Conn) : Prop where
  fd : c'.fd = c.fd
  stays : c'.registered = true → c.registered = true
  openEntry : c'.registered = !c'.sub.sock.closed

theorem SameEntry.after (h : SameEntry c c') (hopen : c.registered = !c.sub.sock.closed) :
    EntryAfter c c' :=
  ⟨h.fd, fun hreg => h.registered ▸ hreg, by rw [h.registered, h.closed, hopen]⟩

theorem evict_after (reason : CloseReason) (c : Conn) : EntryAfter c (c.evict R reason) := by
  obtain ⟨hfd, hreg, hcl⟩ := evict_entry (R := R) reason c
  refine ⟨hfd, fun h => ?_, by rw [hreg, hcl]; rfl⟩
  rw [hreg] at h
  cases h

theorem settle_after (h : c.registered = !c.sub.sock.closed) (close : Option CloseReason) :
    EntryAfter c (c.settle R close) := by
  cases close with
  | none => exact ⟨rfl, id, h⟩
  | some reason =>
    simp only [Conn.settle]
    split
    · exact evict_after _ c
    · exact ⟨rfl, id, h⟩

theorem offer_closed (row : Row) (blob : Blob) (sub : Subscriber) :
    (offer row blob sub).2.sock.closed = sub.sock.closed := by
  simp only [offer]
  split
  · rfl
  split
  · rfl
  split
  · split <;> rfl
  · exact (enqueue_enqueued _ blob true).closed

theorem beat_closed (blob : Blob) (sub : Subscriber) :
    (beat blob sub).2.sock.closed = sub.sock.closed :=
  (enqueue_enqueued sub blob false).closed

theorem sendEach_after {send : Subscriber → Bool × Subscriber}
    (hsend : ∀ sub, (send sub).2.sock.closed = sub.sock.closed)
    (h : c.registered = !c.sub.sock.closed) : EntryAfter c (c.sendEach R reason send) := by
  simp only [Conn.sendEach]
  split
  · rename_i hreg
    have hsent : SameEntry c { c with sub := (send c.sub).2 } := ⟨rfl, rfl, hsend c.sub⟩
    split
    · obtain ⟨hfd, hstays, hopen⟩ :=
        evict_after (R := R) reason { c with sub := (send c.sub).2 }
      exact ⟨hfd, fun _ => hreg, hopen⟩
    · exact hsent.after h
  · exact ⟨rfl, id, h⟩

theorem dropAckWriter_keeps (sock : Sock) : (Sock.dropAckWriter sock).closed = sock.closed ∧
    (Sock.dropAckWriter sock).wire = sock.wire ∧ (Sock.dropAckWriter sock).writer ≠ some .ack ∧
    ((Sock.dropAckWriter sock).writer = some .drain → sock.writer = some .drain) := by
  unfold Sock.dropAckWriter
  split
  · exact ⟨rfl, rfl, nofun, nofun⟩
  · rename_i hno
    exact ⟨rfl, rfl, hno, id⟩

/-- All that one attempt to write the ack does: some of it goes out, and the rest waits for the
callback unless the handshake has failed. -/
structure AckAttempt (c c' : Conn) (started : Bool) (rest sent left : Bytes) : Prop where
  frame : c' = { c with sub := { c.sub with sock := c'.sub.sock }, task := c'.task }
  closed : c'.sub.sock.closed = c.sub.sock.closed
  wire : c'.sub.sock.wire = c.sub.sock.wire ++ sent
  split : sent ++ left = rest
  idle : c.sub.sock.closed = true → sent = []
  writer : c'.sub.sock.writer = some .drain → c.sub.sock.writer = some .drain
  outcome :
    (c'.task = .ackFailed ∧ (rest ≠ [] → left ≠ []) ∧
      (c'.sub.sock.writer = some .ack → started = false ∧ c.sub.sock.writer = some .ack)) ∨
    (c'.task = .ackPending true left ∧ (rest ≠ [] → left ≠ [])) ∨
    (c'.task = .ackDone ∧ left = [] ∧ c'.sub.sock.writer ≠ some .ack)

theorem ackSend_cases (h : c.ackSend = some c') : ∃ started rest sent left,
    c.task = .ackPending started rest ∧ AckAttempt c c' started rest sent left := by
  simp only [Conn.ackSend] at h
  split at h
  swap
  · cases h
  rename_i started rest htask
  refine ⟨started, rest, ?_⟩
  -- What the attempt leaves unsent waits for the callback, unless it cannot be armed.
  have hwait : ∀ (sock : Sock) (sent left : Bytes), sock.writer = c.sub.sock.writer →
      sock.closed = c.sub.sock.closed → sock.wire = c.sub.sock.wire ++ sent →
      sent ++ left = rest → (c.sub.sock.closed = true → sent = []) → (rest ≠ [] → left ≠ []) →
      ∀ r, (if started = true then
          some ({ c with sub := { c.sub with sock }, task := .ackPending true left } : Conn)
        else if sock.armFaults.head?.getD false = true then
          some { c with
            sub := { c.sub with sock := { sock with armFaults := sock.armFaults.tail } }
            task := .ackFailed }
        else some { c with
          sub := { c.sub with
            sock := { sock with armFaults := sock.armFaults.tail, writer := some .ack } }
          task := .ackPending true left }) = some r →
      AckAttempt c r started rest sent left := by
    intro sock sent left hwriter hclosed hwire hsplit hidle hleft r hr
    split at hr
    · rw [← Option.some.inj hr]
      exact ⟨rfl, hclosed, hwire, hsplit, hidle, fun hw => hwriter ▸ hw, .inr (.inl ⟨rfl, hleft⟩)⟩
    · rename_i hstarted
      split at hr <;> rw [← Option.some.inj hr]
      · exact ⟨rfl, hclosed, hwire, hsplit, hidle, fun hw => hwriter ▸ hw,
          .inl ⟨rfl, hleft, fun hw => ⟨by simpa using hstarted, hwriter ▸ hw⟩⟩⟩
      · exact ⟨rfl, hclosed, hwire, hsplit, hidle, nofun, .inr (.inl ⟨rfl, hleft⟩)⟩
  split at h
  · cases h
  have hkeep := c.sub.sock.send_writer rest
  split at h <;> rename_i hsend <;> rw [hsend] at hkeep
  · rename_i sock
    obtain ⟨hclosed, hwire, hnoack, hdrain⟩ := dropAckWriter_keeps sock
    rw [← Option.some.inj h]
    refine ⟨[], rest, htask, rfl, hclosed.trans hkeep.2, ?_, rfl, fun _ => rfl,
      fun hw => hkeep.1 ▸ hdrain hw, .inl ⟨rfl, id, fun hw => absurd hw hnoack⟩⟩
    rw [List.append_nil]
    exact hwire.trans (send_failed hsend).1
  · exact ⟨[], rest, htask, hwait _ [] rest hkeep.1 hkeep.2
      (by simpa using (send_blocked hsend).1) rfl (fun _ => rfl) id _ h⟩
  · rename_i n sock
    obtain ⟨hle, hsent, -, hopen⟩ := send_accepted hsend
    refine ⟨rest.take n, rest.drop n, htask, ?_⟩
    have hsplit := List.take_append_drop n rest
    have hidle : c.sub.sock.closed = true → rest.take n = [] := fun hclosed => by
      rw [hopen] at hclosed
      cases hclosed
    split at h
    · rename_i hn
      obtain ⟨hclosed, hwire, hnoack, hdrain⟩ := dropAckWriter_keeps sock
      rw [← Option.some.inj h]
      exact ⟨rfl, hclosed.trans hkeep.2, hwire.trans hsent, hsplit, hidle,
        fun hw => hkeep.1 ▸ hdrain hw, .inr (.inr ⟨rfl, by rw [hn, List.drop_length], hnoack⟩)⟩
    · refine hwait _ _ _ hkeep.1 hkeep.2 hsent hsplit hidle (fun _ hnil => ?_) _ h
      have := List.drop_eq_nil_iff.mp hnil
      omega

theorem ackSend_entry (h : c.ackSend = some c') : SameEntry c c' := by
  obtain ⟨started, rest, sent, left, -, hattempt⟩ := ackSend_cases h
  rw [hattempt.frame]
  exact ⟨rfl, rfl, hattempt.closed⟩

theorem ackAbort_entry (task : Task) (c : Conn) : SameEntry c (c.ackAbort task) :=
  ⟨rfl, rfl, (dropAckWriter_keeps _).1⟩

theorem ackTimeout_cases (h : c.ackTimeout = some c') :
    (∃ started rest, c.task = .ackPending started rest) ∧ c' = c.ackAbort .ackFailed := by
  simp only [Conn.ackTimeout] at h
  split at h
  · rename_i started rest htask
    exact ⟨⟨started, rest, htask⟩, (Option.some.inj h).symm⟩
  · cases h

theorem ackTimeout_entry (h : c.ackTimeout = some c') : SameEntry c c' := by
  obtain ⟨-, rfl⟩ := ackTimeout_cases h
  exact ackAbort_entry _ c

theorem cancel_entry (c : Conn) : SameEntry c c.cancel := by
  unfold Conn.cancel
  split
  · exact ackAbort_entry _ c
  all_goals exact ⟨rfl, rfl, rfl⟩

theorem writable_cases (h : c.writable = some c') :
    c.sub.sock.writer = some .drain ∧ c' = { c with sub := c.sub.drain } := by
  simp only [Conn.writable] at h
  split at h
  · rename_i hwriter
    exact ⟨hwriter, (Option.some.inj h).symm⟩
  · cases h

theorem writable_entry (h : c.writable = some c') : SameEntry c c' := by
  obtain ⟨-, rfl⟩ := writable_cases h
  exact ⟨rfl, rfl, (drain_drained c.sub).closed⟩

theorem drainBuffer_closed (blobs : List Blob) (sub : Subscriber) :
    (drainBuffer blobs sub).2.sock.closed = sub.sock.closed := by
  induction blobs generalizing sub with
  | nil => rfl
  | cons blob rest ih =>
    have hclosed := (enqueue_enqueued sub blob true).closed
    simp only [drainBuffer]
    split
    · exact hclosed
    · exact (ih _).trans hclosed

theorem replayRows_closed (rows : List Row) (sub : Subscriber) :
    (replayRows R rows sub).2.sock.closed = sub.sock.closed := by
  induction rows generalizing sub with
  | nil => rfl
  | cons row rest ih =>
    simp only [replayRows]
    split
    · exact ih sub
    split
    · rfl
    · rename_i bytes _
      have hclosed := (enqueue_enqueued sub ⟨bytes, some row⟩ true).closed
      split
      · exact hclosed
      · exact (ih _).trans hclosed

theorem drainPreAck_cases (c : Conn) : ∃ sub,
    (drainBuffer (c.sub.preAckBuffer.getD [])
        { c.sub with preAckBuffer := none, preAckBufferedBytes := 0 } = (true, sub) ∧
      c.drainPreAck = ({ c with sub, task := .served }, none)) ∨
    (drainBuffer (c.sub.preAckBuffer.getD [])
        { c.sub with preAckBuffer := none, preAckBufferedBytes := 0 } = (false, sub) ∧
      c.drainPreAck = ({ c with sub, task := .bailed }, some .lagLimitExceeded)) := by
  simp only [Conn.drainPreAck]
  split
  · rename_i sub heq
    exact ⟨sub, .inl ⟨heq, rfl⟩⟩
  · rename_i sub heq
    exact ⟨sub, .inr ⟨heq, rfl⟩⟩

theorem drainPreAck_entry (c : Conn) : SameEntry c c.drainPreAck.1 := by
  have hclosed := drainBuffer_closed (c.sub.preAckBuffer.getD [])
    { c.sub with preAckBuffer := none, preAckBufferedBytes := 0 }
  obtain ⟨sub, ⟨hdrain, heq⟩ | ⟨hdrain, heq⟩⟩ := drainPreAck_cases c <;>
    rw [hdrain] at hclosed <;> rw [heq] <;> exact ⟨rfl, rfl, hclosed⟩

/-- All that a handshake does once its await of the ack is over: the replay, when it asks for one,
comes before the buffer. -/
inductive Resumes (R : Runtime) (store : Store) (fault : Bool) (c : Conn) :
    Conn × Option CloseReason → Prop
  | ackFailed : c.task = .ackFailed →
    Resumes R store fault c ({ c with task := .bailed }, some .subscribeAckSendFailed)
  | live : c.task = .ackDone → c.since = none → Resumes R store fault c c.drainPreAck
  | faulted {since : Ulid} : c.task = .ackDone → c.since = some since → fault = true →
    Resumes R store fault c ({ c with task := .bailed }, some .replayDbError)
  | replayed {since : Ulid} {sub : Subscriber} : c.task = .ackDone → c.since = some since →
    replayRows R (store.iterEventsAbove (store.seqForEventId since.val) c.untilSeq replayLimit)
      c.sub = (.alive, sub) → Resumes R store fault c { c with sub }.drainPreAck
  | lagged {since : Ulid} {sub : Subscriber} : c.task = .ackDone → c.since = some since →
    replayRows R (store.iterEventsAbove (store.seqForEventId since.val) c.untilSeq replayLimit)
      c.sub = (.lagged, sub) →
    Resumes R store fault c ({ c with sub, task := .bailed }, some .replayLagLimitExceeded)
  | raised {since : Ulid} {sub : Subscriber} {exc : PyExc} {task : Task}
      {close : Option CloseReason} : c.task = .ackDone → c.since = some since →
    replayRows R (store.iterEventsAbove (store.seqForEventId since.val) c.untilSeq replayLimit)
      c.sub = (.raised exc, sub) →
    (task = .bailed ∧ close = some .replayDbError) ∨ (task = .raised exc ∧ close = none) →
    Resumes R store fault c ({ c with sub, task }, close)

theorem resume_cases {store : Store} {fault : Bool} {r : Conn × Option CloseReason}
    (h : c.resume R store fault = some r) : Resumes R store fault c r := by
  simp only [Conn.resume] at h
  split at h
  · rename_i htask
    rw [← Option.some.inj h]
    exact .ackFailed htask
  · rename_i htask
    split at h
    · rename_i hsince
      rw [← Option.some.inj h]
      exact .live htask hsince
    · rename_i since hsince
      split at h
      · rename_i hfault
        rw [← Option.some.inj h]
        exact .faulted htask hsince hfault
      · split at h <;> rename_i heq <;> rw [← Option.some.inj h]
        · exact .replayed htask hsince heq
        · exact .lagged htask hsince heq
        · exact .raised htask hsince heq (.inl ⟨rfl, rfl⟩)
        · exact .raised htask hsince heq (.inr ⟨rfl, rfl⟩)
  · cases h

theorem resume_entry {store : Store} {fault : Bool} {r : Conn × Option CloseReason}
    (h : c.resume R store fault = some r) : SameEntry c r.1 := by
  have hreplay : ∀ {rows outcome sub}, replayRows R rows c.sub = (outcome, sub) →
      sub.sock.closed = c.sub.sock.closed := fun {rows _ _} heq =>
    congrArg (·.2.sock.closed) heq ▸ replayRows_closed rows c.sub
  cases resume_cases h with
  | ackFailed | faulted => exact ⟨rfl, rfl, rfl⟩
  | live => exact drainPreAck_entry c
  | replayed _ _ heq =>
    obtain ⟨hfd, hreg, hclosed⟩ := drainPreAck_entry { c with sub := _ }
    exact ⟨hfd, hreg, hclosed.trans (hreplay heq)⟩
  | lagged _ _ heq | raised _ _ heq => exact ⟨rfl, rfl, hreplay heq⟩

end Entries

section Steps

variable {R : Runtime} {hub hub' : Hub}

/-- The next row a sweep takes: the first above the cursor of those that have an event id. -/
def Hub.Next (hub : Hub) (row : Row) : Prop :=
  ∃ rest, above Row.seq hub.cursor hub.store.fanOutable = row :: rest

theorem Hub.Next.lt {row : Row} (h : hub.Next row) :
    hub.cursor < row.seq ∧ row ∈ hub.store.fanOutable := by
  obtain ⟨rest, hrest⟩ := h
  have hmem : row ∈ above Row.seq hub.cursor hub.store.fanOutable := by
    rw [hrest]
    exact List.mem_cons_self
  exact (mem_above.mp hmem).symm

theorem Hub.Next.seq_le {row r : Row} (h : hub.Next row) (hr : r ∈ hub.store.fanOutable)
    (hle : r.seq ≤ row.seq) : r.seq ≤ hub.cursor ∨ r = row := by
  obtain ⟨rest, hrest⟩ := h
  exact (above_cons hub.store.fanOutable_increasing hrest).2.2 r hr hle

def Hub.advance (R : Runtime) (row : Row) (bytes : Bytes) (hub : Hub) : Hub :=
  { hub.fanOut R row bytes with cursor := row.seq }

theorem advance_eq (h : hub.WF) (row : Row) (bytes : Bytes) : ∃ count,
    hub.advance R row bytes = { hub with
      cursor := row.seq
      conns := hub.conns.map (Conn.sendEach R .lagLimitExceeded (offer row ⟨bytes, some row⟩))
      subscriberCount := count } := by
  obtain ⟨count, heq⟩ := sendToAll_eq (R := R) h .lagLimitExceeded
    (offer row ⟨bytes, some row⟩)
  exact ⟨count, by rw [Hub.advance, Hub.fanOut, heq]⟩

theorem wf_map (h : hub.WF) {f : Conn → Conn} {cursor : Nat} (count : Int)
    (hf : ∀ c ∈ hub.conns, EntryAfter c (f c)) (hcursor : cursor ≤ hub.store.lastSeq) :
    Hub.WF { hub with conns := hub.conns.map f, cursor, subscriberCount := count } := by
  refine ⟨fun c hc => ?_, ?_, hcursor⟩
  · obtain ⟨d, hd, rfl⟩ := List.mem_map.mp hc
    exact (hf d hd).openEntry
  · refine List.pairwise_map.mpr (h.fds.imp_of_mem fun ha hb hne hra hrb => ?_)
    rw [(hf _ ha).fd, (hf _ hb).fd]
    exact hne ((hf _ ha).stays hra) ((hf _ hb).stays hrb)

theorem advance_wf (h : hub.WF) {row : Row} (hnext : hub.Next row) (bytes : Bytes) :
    (hub.advance R row bytes).WF := by
  obtain ⟨count, heq⟩ := advance_eq (R := R) h row bytes
  rw [heq]
  exact wf_map h _ (fun c hc => sendEach_after (offer_closed row _) (h.openEntries c hc))
    (Store.seq_le_lastSeq hnext.lt.2)

def Hub.swept (hub : Hub) : List Row :=
  hub.store.iterEventsAbove hub.cursor none sweepLimit

/-- Where a sweep ends: at the end of its rows, or at one that cannot be serialized. -/
def Stopped (R : Runtime) (left : List Row) : Option PyExc → Prop
  | none => left = []
  | some exc => ∃ row rest, left = row :: rest ∧ rowBlob R row = .error exc

/-- What every turn of the sweep preserves, the sweep preserves, over the rows still to come. -/
theorem sweep_induction {P : List Row → Hub → Prop}
    (turn : ∀ hub row rest bytes, hub.WF → hub.Next row → rowBlob R row = .ok bytes →
      P (row :: rest) hub → P rest (hub.advance R row bytes))
    {rows : List Row} (h : hub.WF)
    (hrows : rows <+: above Row.seq hub.cursor hub.store.fanOutable) (hP : P rows hub) :
    (hub.sweep R rows).2.WF ∧ ∃ left, P left (hub.sweep R rows).2 ∧
      Stopped R left (hub.sweep R rows).1 := by
  induction rows generalizing hub with
  | nil => exact ⟨h, [], hP, rfl⟩
  | cons row rest ih =>
    obtain ⟨more, hmore⟩ := hrows
    have hnext : hub.Next row := ⟨rest ++ more, hmore.symm⟩
    rw [Hub.sweep]
    cases hblob : rowBlob R row with
    | error exc => exact ⟨h, row :: rest, hP, row, rest, rfl, hblob⟩
    | ok bytes =>
      have habove := (above_cons hub.store.fanOutable_increasing hmore.symm).1
      obtain ⟨count, heq⟩ := advance_eq (R := R) h row bytes
      have hrest : rest <+: above Row.seq (hub.advance R row bytes).cursor
          (hub.advance R row bytes).store.fanOutable := by
        rw [heq]
        exact ⟨more, habove.symm⟩
      exact ih (advance_wf h hnext bytes) hrest (turn hub row rest bytes h hnext hblob hP)

theorem iterEventsAbove_open (store : Store) (cursor limit : Nat) :
    store.iterEventsAbove cursor none limit =
      (above Row.seq cursor store.fanOutable).take limit := by
  have hall : (above Row.seq cursor store.fanOutable).filter
      (fun row => (none : Option Nat).all (row.seq ≤ ·)) =
        above Row.seq cursor store.fanOutable :=
    List.filter_eq_self.mpr fun _ _ => rfl
  rw [Store.iterEventsAbove, hall]

theorem iterEventsAbove_first (store : Store) (cursor limit : Nat) :
    store.iterEventsAbove cursor none limit <+: above Row.seq cursor store.fanOutable := by
  rw [iterEventsAbove_open]
  exact List.take_prefix _ _

theorem broadcastPass_induction {P : List Row → Hub → Prop}
    (turn : ∀ hub row rest bytes, hub.WF → hub.Next row → rowBlob R row = .ok bytes →
      P (row :: rest) hub → P rest (hub.advance R row bytes))
    (h : hub.WF) (fault : Bool)
    (hP : P hub.swept hub) :
    (hub.broadcastPass R fault).2.WF ∧ ∃ left, P left (hub.broadcastPass R fault).2 ∧
      (fault = false → Stopped R left (hub.broadcastPass R fault).1) := by
  cases fault with
  | true => exact ⟨h, _, hP, nofun⟩
  | false =>
    obtain ⟨hwf, left, hleft, hstop⟩ :=
      sweep_induction turn h (iterEventsAbove_first hub.store hub.cursor sweepLimit) hP
    exact ⟨hwf, left, hleft, fun _ => hstop⟩

theorem broadcastPass_frame (h : hub.WF) (fault : Bool) :
    (hub.broadcastPass R fault).2.store = hub.store ∧
      (hub.broadcastPass R fault).2.stopping = hub.stopping ∧
      hub.cursor ≤ (hub.broadcastPass R fault).2.cursor := by
  obtain ⟨-, -, hP, -⟩ := broadcastPass_induction (R := R)
    (P := fun _ hub₁ => hub₁.store = hub.store ∧ hub₁.stopping = hub.stopping ∧
      hub.cursor ≤ hub₁.cursor)
    (fun hub₁ row rest bytes hwf hnext _ ⟨hstore, hstop, hle⟩ => by
      obtain ⟨count, heq⟩ := advance_eq (R := R) hwf row bytes
      rw [heq]
      exact ⟨hstore, hstop, hle.trans (le_of_lt hnext.lt.1)⟩)
    h fault ⟨rfl, rfl, le_refl _⟩
  exact hP

theorem heartbeat_eq (h : hub.WF) (ts uptimeSec : SqlInt) : ∃ bytes count,
    encodeStructFrame R (.daemonHeartbeat ⟨ts, uptimeSec⟩) = .ok bytes ∧
    hub.heartbeat R ts uptimeSec = { hub with
      conns := hub.conns.map (Conn.sendEach R .heartbeatLag (beat ⟨bytes, none⟩))
      subscriberCount := count } := by
  obtain ⟨bytes, hbytes⟩ := heartbeat_encodes R ⟨ts, uptimeSec⟩
  obtain ⟨count, heq⟩ := sendToAll_eq (R := R) h .heartbeatLag (beat ⟨bytes, none⟩)
  exact ⟨bytes, count, hbytes, by rw [Hub.heartbeat, hbytes]; exact heq⟩

theorem closeEverybody_eq (hub : Hub) (reason : CloseReason) : ∃ count,
    hub.closeAll R reason ((hub.conns.filter (·.registered)).map (·.fd)) = { hub with
      conns := hub.conns.map fun c => c.settle R (some reason)
      subscriberCount := count } := by
  obtain ⟨count, heq⟩ := closeAll_eq (R := R) hub reason
    ((hub.conns.filter (·.registered)).map (·.fd))
  refine ⟨count, heq.trans ?_⟩
  congr 1
  refine List.map_congr_left fun c hc => ?_
  simp only [Conn.settle]
  cases hreg : c.registered
  · simp
  · have hmem : ((hub.conns.filter (·.registered)).map (·.fd)).contains c.fd = true := by
      rw [List.contains_iff_mem]
      exact List.mem_map.mpr ⟨c, List.mem_filter.mpr ⟨hc, hreg⟩, rfl⟩
    rw [hmem]
    rfl

/-- What the guard of a subscribe step says of its socket. -/
structure Envelope.Fresh (env : Envelope) : Prop where
  open_ : env.sock.closed = false
  wire : env.sock.wire = []
  writer : env.sock.writer = none

theorem subscribe_eq {env : Envelope} {fault : Bool} (h : hub.subscribe R env fault = some hub') :
    env.Fresh ∧ some env.fd ∉ hub.conns.map (·.fileno) ∧ ∃ count,
      hub' = { hub with
        conns := hub.conns ++ [hub.register R env fault], subscriberCount := count } := by
  unfold Hub.subscribe at h
  split at h
  · cases h
  · rename_i hguard
    simp only [not_or] at hguard
    obtain ⟨-, hopen, hwire, hwriter, hfd⟩ := hguard
    refine ⟨⟨by simpa using hopen, by simpa using hwire, by simpa using hwriter⟩, hfd, _,
      (Option.some.inj h).symm⟩

theorem register_entry (hub : Hub) (env : Envelope) (fault : Bool) :
    (hub.register R env fault).fd = env.fd ∧ (hub.register R env fault).registered = true ∧
      (hub.register R env fault).sub.sock = env.sock := by
  simp only [Hub.register]
  split
  · exact ⟨rfl, rfl, rfl⟩
  · split <;> exact ⟨rfl, rfl, rfl⟩

end Steps

section Invariants

variable {R : Runtime} {hub hub' : Hub}

theorem wf_set {i : Nat} {c c' : Conn} {count : Int} (h : hub.WF) (hc : hub.conns[i]? = some c)
    (hafter : EntryAfter c c') :
    Hub.WF { hub with conns := hub.conns.set i c', subscriberCount := count } := by
  refine ⟨fun d hd => ?_, ?_, h.cursor_le⟩
  · rcases List.mem_or_eq_of_mem_set hd with hd | rfl
    · exact h.openEntries d hd
    · exact hafter.openEntry
  · obtain ⟨hi, hci⟩ := List.getElem?_eq_some_iff.mp hc
    rw [List.pairwise_iff_getElem]
    intro j k hj hk hjk hrj hrk
    rw [List.length_set] at hj hk
    have hpair := List.pairwise_iff_getElem.mp h.fds j k hj hk hjk
    rw [List.getElem_set] at hrj hrk ⊢
    rw [List.getElem_set]
    split at hrj <;> split at hrk <;> rename_i hij hik
    · omega
    · subst hij
      rw [if_pos rfl, if_neg hik, hafter.fd]
      rw [hci] at hpair
      exact hpair (hafter.stays hrj) hrk
    · subst hik
      rw [if_neg hij, if_pos rfl, hafter.fd]
      rw [hci] at hpair
      exact hpair hrj (hafter.stays hrk)
    · rw [if_neg hij, if_neg hik]
      exact hpair hrj hrk

theorem act_wf {i : Nat} {act : Conn → Option (Conn × Option CloseReason)} (h : hub.WF)
    (hsame : ∀ c r, act c = some r → SameEntry c r.1) (hact : hub.act R i act = some hub') :
    hub'.WF := by
  obtain ⟨c, r, count, hc, hr, rfl⟩ := act_eq h hsame hact
  have hafter := (hsame c r hr).after (h.openEntries c (List.mem_of_getElem? hc))
  have hsettle := settle_after (R := R) hafter.openEntry r.2
  exact wf_set h hc ⟨hsettle.fd.trans hafter.fd, fun hreg => hafter.stays (hsettle.stays hreg),
    hsettle.openEntry⟩

theorem mapped_entry {f : Conn → Option Conn} (hf : ∀ c c', f c = some c' → SameEntry c c') :
    ∀ c (r : Conn × Option CloseReason), (f c).map (·, none) = some r → SameEntry c r.1 := by
  intro c r h
  obtain ⟨c', hc', rfl⟩ := Option.map_eq_some_iff.mp h
  exact hf c c' hc'

theorem shutdown_eq (hub : Hub) (fault : Bool) (hstop : hub.stopping = false) : ∃ count,
    hub.shutdown R fault = { ({ hub with stopping := true }.broadcastPass R fault).2 with
      conns := ({ hub with stopping := true }.broadcastPass R fault).2.conns.map fun c : Conn =>
        c.settle R (some .shutdown)
      subscriberCount := count } := by
  obtain ⟨count, heq⟩ := closeEverybody_eq (R := R)
    ({ hub with stopping := true }.broadcastPass R fault).2 .shutdown
  exact ⟨count, by simp [Hub.shutdown, hstop, heq]⟩

theorem broadcastPass_wf (h : hub.WF) (fault : Bool) : (hub.broadcastPass R fault).2.WF :=
  (broadcastPass_induction (P := fun _ _ => True) (fun _ _ _ _ _ _ _ _ => trivial) h fault
    trivial).1

theorem step_wf {label : Label} (h : hub.WF) (hstep : hub.step R label = some hub') :
    hub'.WF := by
  cases label with
  | commit batch =>
    simp only [Hub.step] at hstep
    split at hstep
    · rename_i result count store hall
      rw [← Option.some.inj hstep]
      obtain ⟨new, -, hlast, -⟩ := insertAll_grows hall
      exact ⟨h.openEntries, h.fds, h.cursor_le.trans hlast⟩
    · rw [← Option.some.inj hstep]
      exact h
  | broadcastPass fault =>
    simp only [Hub.step] at hstep
    split at hstep
    · cases hstep
    · rw [← Option.some.inj hstep]
      exact broadcastPass_wf h fault
  | heartbeat ts uptimeSec =>
    simp only [Hub.step] at hstep
    split at hstep
    · cases hstep
    · obtain ⟨bytes, count, -, heq⟩ := heartbeat_eq (R := R) h ts uptimeSec
      rw [← Option.some.inj hstep, heq]
      exact wf_map h _ (fun c hc => sendEach_after (beat_closed _) (h.openEntries c hc)) h.cursor_le
  | subscribe env fault =>
    obtain ⟨hfresh, hfd, count, rfl⟩ := subscribe_eq hstep
    obtain ⟨hrfd, hreg, hsock⟩ := register_entry (R := R) hub env fault
    refine ⟨fun c hc => ?_, ?_, h.cursor_le⟩
    · rcases List.mem_append.mp hc with hc | hc
      · exact h.openEntries c hc
      · rw [List.mem_singleton.mp hc, hreg, hsock, hfresh.open_]
        rfl
    · refine List.pairwise_append.mpr ⟨h.fds, List.pairwise_singleton _ _, fun a ha b hb => ?_⟩
      intro hra _ hne
      rw [List.mem_singleton.mp hb, hrfd] at hne
      refine hfd (List.mem_map.mpr ⟨a, ha, ?_⟩)
      rw [fileno_registered (h.openEntries a ha), hra, if_pos rfl, hne]
  | ackSend i => exact act_wf h (mapped_entry fun _ _ => ackSend_entry) hstep
  | ackTimeout i => exact act_wf h (mapped_entry fun _ _ => ackTimeout_entry) hstep
  | resume i fault => exact act_wf h (fun _ _ => resume_entry) hstep
  | writable i => exact act_wf h (mapped_entry fun _ _ => writable_entry) hstep
  | cancelHandshakes =>
    rw [← Option.some.inj hstep]
    exact wf_map h hub.subscriberCount
      (fun c hc => (cancel_entry c).after (h.openEntries c hc)) h.cursor_le
  | shutdown fault =>
    rw [← Option.some.inj hstep]
    by_cases hstop : hub.stopping = true
    · simp only [Hub.shutdown, hstop, if_true]
      exact h
    · obtain ⟨count, heq⟩ := shutdown_eq (R := R) hub fault (by simpa using hstop)
      have hwf : Hub.WF { hub with stopping := true } := ⟨h.openEntries, h.fds, h.cursor_le⟩
      have hpass := broadcastPass_wf (R := R) hwf fault
      rw [heq]
      exact wf_map hpass _ (fun c hc => settle_after (hpass.openEntries c hc) _) hpass.cursor_le

theorem reach_wf {ok : Hub → Label → Prop} (h : Reach (hubSystem R) ok hub) : hub.WF := by
  refine h.invariant (I := Hub.WF) (fun hub hinit => ?_) fun s a t _ hwf _ hstep =>
    step_wf hwf hstep
  obtain ⟨hcursor, hconns, -⟩ := hinit
  exact ⟨by simp [hconns], by simp [hconns], hcursor ▸ hub.store.maxSeq_le_lastSeq⟩

/-- A property of one connection against the table and the cursor that every step of the daemon
preserves, under a condition `ok` on the steps. Steps of single connections are given the socket's
side of the map's invariant. -/
structure ConnInvariant (R : Runtime) (ok : Hub → Label → Prop)
    (Q : Store → Nat → Conn → Prop) : Prop where
  grows : ∀ {hub batch count store c}, hub.WF → ok hub (.commit batch) →
    hub.store.insertAll batch = .ok (count, store) → c ∈ hub.conns →
    Q hub.store hub.cursor c → Q store hub.cursor c
  pass : ∀ {hub} stopping {fault}, hub.WF →
    ok hub (.broadcastPass fault) ∨ ok hub (.shutdown fault) →
    (∀ c ∈ hub.conns, Q hub.store hub.cursor c) →
    let hub' := ({ hub with stopping }.broadcastPass R fault).2
    ∀ c ∈ hub'.conns, Q hub'.store hub'.cursor c
  beat : ∀ {hub ts uptimeSec bytes c}, hub.WF → ok hub (.heartbeat ts uptimeSec) →
    encodeStructFrame R (.daemonHeartbeat ⟨ts, uptimeSec⟩) = .ok bytes → c ∈ hub.conns →
    Q hub.store hub.cursor c →
    Q hub.store hub.cursor (c.sendEach R .heartbeatLag (beat ⟨bytes, none⟩))
  join : ∀ {hub env fault}, hub.WF → ok hub (.subscribe env fault) → env.Fresh →
    Q hub.store hub.cursor (hub.register R env fault)
  ackSend : ∀ {hub i c c'}, hub.WF → ok hub (.ackSend i) → hub.conns[i]? = some c →
    c.ackSend = some c' → Q hub.store hub.cursor c → Q hub.store hub.cursor c'
  ackTimeout : ∀ {hub i c c'}, hub.WF → ok hub (.ackTimeout i) → hub.conns[i]? = some c →
    c.ackTimeout = some c' → Q hub.store hub.cursor c → Q hub.store hub.cursor c'
  resume : ∀ {hub i fault c r}, hub.WF → ok hub (.resume i fault) → hub.conns[i]? = some c →
    c.resume R hub.store fault = some r → Q hub.store hub.cursor c →
    Q hub.store hub.cursor (r.1.settle R r.2)
  writable : ∀ {hub i c c'}, hub.WF → ok hub (.writable i) → hub.conns[i]? = some c →
    c.writable = some c' → Q hub.store hub.cursor c → Q hub.store hub.cursor c'
  cancel : ∀ {s cursor c}, Q s cursor c → Q s cursor c.cancel
  shut : ∀ {s cursor c}, Q s cursor c → Q s cursor (c.settle R (some .shutdown))

variable {ok : Hub → Label → Prop} {Q : Store → Nat → Conn → Prop}

private theorem act_conns {i : Nat} {act : Conn → Option (Conn × Option CloseReason)}
    (h : hub.WF) (hsame : ∀ c r, act c = some r → SameEntry c r.1)
    (hact : hub.act R i act = some hub') (hQ : ∀ c ∈ hub.conns, Q hub.store hub.cursor c)
    (hstep : ∀ c r, hub.conns[i]? = some c → act c = some r → Q hub.store hub.cursor c →
      Q hub.store hub.cursor (r.1.settle R r.2)) :
    ∀ c ∈ hub'.conns, Q hub'.store hub'.cursor c := by
  obtain ⟨c, r, count, hc, hr, rfl⟩ := act_eq h hsame hact
  intro d hd
  rcases List.mem_or_eq_of_mem_set hd with hd | rfl
  · exact hQ d hd
  · exact hstep c r hc hr (hQ c (List.mem_of_getElem? hc))

private theorem mapped_settle {f : Conn → Option Conn} {c : Conn}
    {r : Conn × Option CloseReason} (h : (f c).map (·, none) = some r) :
    f c = some (r.1.settle R r.2) := by
  obtain ⟨c', hc', rfl⟩ := Option.map_eq_some_iff.mp h
  exact hc'

theorem ConnInvariant.step (h : ConnInvariant R ok Q) {label : Label} (hwf : hub.WF)
    (hok : ok hub label) (hstep : hub.step R label = some hub')
    (hQ : ∀ c ∈ hub.conns, Q hub.store hub.cursor c) :
    ∀ c ∈ hub'.conns, Q hub'.store hub'.cursor c := by
  cases label with
  | commit batch =>
    simp only [Hub.step] at hstep
    split at hstep
    · rename_i result count store hall
      rw [← Option.some.inj hstep]
      have hgrown : ∀ c ∈ hub.conns, Q store hub.cursor c := fun c hc =>
        h.grows hwf hok hall hc (hQ c hc)
      exact hgrown
    · rw [← Option.some.inj hstep]
      exact hQ
  | broadcastPass fault =>
    simp only [Hub.step] at hstep
    split at hstep
    · cases hstep
    · rw [← Option.some.inj hstep]
      exact h.pass hub.stopping hwf (.inl hok) hQ
  | heartbeat ts uptimeSec =>
    simp only [Hub.step] at hstep
    split at hstep
    · cases hstep
    · obtain ⟨bytes, count, hbytes, heq⟩ := heartbeat_eq (R := R) hwf ts uptimeSec
      rw [← Option.some.inj hstep, heq]
      intro c hc
      obtain ⟨d, hd, rfl⟩ := List.mem_map.mp hc
      have hbeat := h.beat hwf hok hbytes hd (hQ d hd)
      exact hbeat
  | subscribe env fault =>
    obtain ⟨hfresh, -, count, rfl⟩ := subscribe_eq hstep
    intro c hc
    rcases List.mem_append.mp hc with hc | hc
    · exact hQ c hc
    · rw [List.mem_singleton.mp hc]
      have hjoin := h.join hwf hok hfresh
      exact hjoin
  | ackSend i =>
    exact act_conns hwf (mapped_entry fun _ _ => ackSend_entry) hstep hQ fun c r hc hr =>
      h.ackSend hwf hok hc (mapped_settle hr)
  | ackTimeout i =>
    exact act_conns hwf (mapped_entry fun _ _ => ackTimeout_entry) hstep hQ fun c r hc hr =>
      h.ackTimeout hwf hok hc (mapped_settle hr)
  | resume i fault =>
    exact act_conns hwf (fun _ _ => resume_entry) hstep hQ fun c r hc hr =>
      h.resume hwf hok hc hr
  | writable i =>
    exact act_conns hwf (mapped_entry fun _ _ => writable_entry) hstep hQ fun c r hc hr =>
      h.writable hwf hok hc (mapped_settle hr)
  | cancelHandshakes =>
    rw [← Option.some.inj hstep]
    intro c hc
    obtain ⟨d, hd, rfl⟩ := List.mem_map.mp hc
    exact h.cancel (hQ d hd)
  | shutdown fault =>
    rw [← Option.some.inj hstep]
    by_cases hstop : hub.stopping = true
    · simp only [Hub.shutdown, hstop, if_true]
      exact hQ
    · obtain ⟨count, heq⟩ := shutdown_eq (R := R) hub fault (by simpa using hstop)
      rw [heq]
      intro c hc
      obtain ⟨d, hd, rfl⟩ := List.mem_map.mp hc
      exact h.shut (h.pass true hwf (.inr hok) hQ d hd)

theorem ConnInvariant.reach (h : ConnInvariant R ok Q) (hr : Reach (hubSystem R) ok hub) :
    ∀ c ∈ hub.conns, Q hub.store hub.cursor c := by
  refine hr.invariant (I := fun hub => ∀ c ∈ hub.conns, Q hub.store hub.cursor c) ?_ ?_
  · intro hub hinit c hc
    rw [hinit.2.1] at hc
    cases hc
  · intro hub label hub' hreach hQ hok hstep
    exact h.step (reach_wf hreach) hok hstep hQ

theorem pass_of_turn
    (turn : ∀ {hub : Hub} {row bytes c}, hub.WF → hub.Next row → rowBlob R row = .ok bytes →
      c ∈ hub.conns → Q hub.store hub.cursor c →
      Q hub.store row.seq (c.sendEach R .lagLimitExceeded (offer row ⟨bytes, some row⟩)))
    (stopping fault : Bool) (hwf : hub.WF) (hQ : ∀ c ∈ hub.conns, Q hub.store hub.cursor c) :
    let hub' := ({ hub with stopping }.broadcastPass R fault).2
    ∀ c ∈ hub'.conns, Q hub'.store hub'.cursor c := by
  have hwf' : Hub.WF { hub with stopping } := ⟨hwf.openEntries, hwf.fds, hwf.cursor_le⟩
  obtain ⟨-, -, hP, -⟩ := broadcastPass_induction (R := R)
    (P := fun _ hub => ∀ c ∈ hub.conns, Q hub.store hub.cursor c)
    (fun hub row rest bytes hwf hnext hblob hQ => by
      obtain ⟨count, heq⟩ := advance_eq (R := R) hwf row bytes
      rw [heq]
      intro c hc
      obtain ⟨d, hd, rfl⟩ := List.mem_map.mp hc
      have hturn := turn hwf hnext hblob hd (hQ d hd)
      exact hturn)
    hwf' fault hQ
  exact hP

end Invariants

end Waitbus.Daemon
