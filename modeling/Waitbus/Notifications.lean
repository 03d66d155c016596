import Mathlib
import Waitbus.Python
import Waitbus.Runs

/-! The notifications of the model's sessions. What the stream task has for a session before its
handshake is queued, with room for the latest only; the handler of the handshake lets the stream
task through and then sends the queue, one await for each entry. -/

namespace Waitbus.Notifications
open Python Runs

/-- `_QueuedEmit`, and what is sent without being queued. -/
inductive Emit where
  | resourceUpdated (uri frameId : PyStr)
  | claudeChannel (content : PyStr) (metadata : List (PyStr × PyStr))
  deriving DecidableEq

/-- What a client receives; `truncated` is the marker of an overflow. -/
inductive Notice where
  | note (emit : Emit)
  | truncated
  deriving DecidableEq

def Notice.emit? : Notice → Option Emit
  | .note emit => some emit
  | .truncated => none

def pendingQueueMax : Nat := 1000

/-- `deque(maxlen=_PENDING_QUEUE_MAX)`. -/
structure Pending where
  entries : List Emit
  bounded : entries.length ≤ pendingQueueMax

def Pending.empty : Pending :=
  ⟨[], Nat.zero_le _⟩

def Pending.full (q : Pending) : Bool :=
  pendingQueueMax ≤ q.entries.length

def Pending.append (q : Pending) (emit : Emit) : Pending where
  entries := (if q.full then q.entries.tail else q.entries) ++ [emit]
  bounded := by
    have hbound := q.bounded
    unfold Pending.full pendingQueueMax at *
    split
    · simp only [List.length_append, List.length_tail, List.length_singleton]
      omega
    · rename_i hroom
      simp only [decide_eq_true_eq] at hroom
      simp only [List.length_append, List.length_singleton]
      omega

def Pending.next (sendable : Emit → Bool) (q : Pending) : Option (Emit × Pending) :=
  match h : q.entries.dropWhile (!sendable ·) with
  | [] => none
  | emit :: rest => some (emit, ⟨rest, by
      have hle := (List.dropWhile_suffix (l := q.entries) (!sendable ·)).length_le
      have hbound := q.bounded
      rw [h, List.length_cons] at hle
      omega⟩)

/-- A session with what it was sent. `negotiated` is whether its client knows the channel extension;
`flushing` that the handshake's handler awaits a send; `emitted` and `evicted` are history: what the
stream task has had for the session, and how many of it the queue dropped. -/
structure Mailbox where
  negotiated : Bool
  initialized : Bool
  pending : Pending
  pendingOverflowed : Bool
  flushing : Bool
  received : List Notice
  emitted : List Emit
  evicted : Nat

def Mailbox.fresh (negotiated : Bool) : Mailbox :=
  ⟨negotiated, false, .empty, false, false, [], [], 0⟩

def Mailbox.sendable (m : Mailbox) : Emit → Bool
  | .resourceUpdated .. => true
  | .claudeChannel .. => m.negotiated

/-- `_queue_pending` and `_queue_pending_channel`. -/
def Mailbox.queuePending (m : Mailbox) (emit : Emit) : Mailbox :=
  { m with
    pendingOverflowed := m.pendingOverflowed || m.pending.full
    pending := m.pending.append emit
    evicted := m.evicted + m.pending.full.toNat }

/-- `_emit_frame` and `_ping_session_uri`, for one notification of the session. -/
def Mailbox.emit (m : Mailbox) (emit : Emit) : Mailbox :=
  let m := { m with emitted := m.emitted ++ [emit] }
  if ¬m.initialized then m.queuePending emit
  else if m.sendable emit then { m with received := m.received ++ [.note emit] }
  else m

/-- `_flush_pending` up to its next await, or to its end. -/
def Mailbox.flushPending (m : Mailbox) : Mailbox :=
  match m.pending.next m.sendable with
  | some (emit, rest) =>
    { m with pending := rest, received := m.received ++ [.note emit], flushing := true }
  | none =>
    if m.pendingOverflowed && m.negotiated then
      { m with
        pending := .empty, pendingOverflowed := false
        received := m.received ++ [.truncated], flushing := false }
    else { m with pending := .empty, flushing := false }

inductive Act where
  /-- The stream task's next notification for a session. -/
  | emit (session : Nat) (emit : Emit)
  /-- `notifications/initialized` arrives. -/
  | initialized (session : Nat)
  /-- The flush goes on after an await. -/
  | flush (session : Nat)

def step (s : Nat → Mailbox) : Act → Option (Nat → Mailbox)
  | .emit i emit => some (Function.update s i ((s i).emit emit))
  | .initialized i =>
    if (s i).flushing then none
    else some (Function.update s i { s i with initialized := true }.flushPending)
  | .flush i =>
    if (s i).flushing then some (Function.update s i (s i).flushPending) else none

def sessions : System (Nat → Mailbox) Act where
  init s := ∀ i, ∃ negotiated, s i = .fresh negotiated
  step := step

/-- The stream task sends nothing while the queue still holds something to be sent. -/
def Settled (s : Nat → Mailbox) : Act → Prop
  | .emit i emit => (s i).initialized = true → (s i).sendable emit = true →
      ∀ e ∈ (s i).pending.entries, (s i).sendable e = false
  | _ => True

instance (s : Nat → Mailbox) : ∀ act, Decidable (Settled s act)
  | .emit i emit => inferInstanceAs (Decidable ((s i).initialized = true →
      (s i).sendable emit = true → ∀ e ∈ (s i).pending.entries, (s i).sendable e = false))
  | .initialized _ | .flush _ => isTrue trivial

def Mailbox.served (m : Mailbox) : List Emit :=
  m.received.filterMap Notice.emit? ++ m.pending.entries.filter m.sendable

/-- What it should be sent in the end: all but what the queue dropped. -/
def Mailbox.owed (m : Mailbox) : List Emit :=
  (m.emitted.drop m.evicted).filter m.sendable

/-- The overflow flag stands for an eviction that the client has not been told of. -/
def Mailbox.Flagged (m : Mailbox) : Prop :=
  (m.pendingOverflowed = true → 0 < m.evicted) ∧
    (0 < m.evicted → m.pendingOverflowed = true ∨ .truncated ∈ m.received) ∧
    (.truncated ∈ m.received → 0 < m.evicted)

section Steps

variable {m : Mailbox} {e : Emit} {q : Pending}

theorem append_entries (q : Pending) (e : Emit) :
    (q.append e).entries = q.entries.drop q.full.toNat ++ [e] := by
  simp only [Pending.append]
  cases q.full
  · rfl
  · simp

theorem next_eq_some {sendable : Emit → Bool} {rest : Pending}
    (h : q.next sendable = some (e, rest)) :
    q.entries.filter sendable = e :: rest.entries.filter sendable := by
  unfold Pending.next at h
  split at h
  · cases h
  · rename_i e' rest' hdrop
    cases h
    have hhead : sendable e = true := by
      have hne : q.entries.dropWhile (!sendable ·) ≠ [] := by simp [hdrop]
      have hfalse := List.head_dropWhile_not (!sendable ·) hne
      simpa [hdrop] using hfalse
    have hskipped : (q.entries.takeWhile (!sendable ·)).filter sendable = [] :=
      List.filter_eq_nil_iff.mpr fun x hx => by
        have := List.mem_takeWhile_imp hx
        simpa using this
    have hall : q.entries = q.entries.takeWhile (!sendable ·) ++ e :: rest' := by
      rw [← hdrop, List.takeWhile_append_dropWhile]
    calc q.entries.filter sendable
        = (q.entries.takeWhile (!sendable ·) ++ e :: rest').filter sendable := congrArg _ hall
      _ = e :: rest'.filter sendable := by
          rw [List.filter_append, hskipped, List.nil_append, List.filter_cons_of_pos hhead]

theorem next_eq_none {sendable : Emit → Bool} (h : q.next sendable = none) :
    q.entries.filter sendable = [] := by
  unfold Pending.next at h
  split at h
  · rename_i hdrop
    refine List.filter_eq_nil_iff.mpr fun x hx => ?_
    have := List.dropWhile_eq_nil_iff.mp hdrop x hx
    simpa using this
  · cases h

theorem flushPending_cases (m : Mailbox) :
    (∃ e rest, m.pending.entries.filter m.sendable = e :: rest.entries.filter m.sendable ∧
      m.flushPending = { m with
        pending := rest, received := m.received ++ [.note e], flushing := true }) ∨
    m.pending.entries.filter m.sendable = [] ∧
      (m.pendingOverflowed = true ∧ m.flushPending = { m with
          pending := .empty, pendingOverflowed := false
          received := m.received ++ [.truncated], flushing := false } ∨
        m.flushPending = { m with pending := .empty, flushing := false }) := by
  unfold Mailbox.flushPending
  cases hnext : m.pending.next m.sendable with
  | some result =>
    obtain ⟨e, rest⟩ := result
    exact .inl ⟨e, rest, next_eq_some hnext, rfl⟩
  | none =>
    refine .inr ⟨next_eq_none hnext, ?_⟩
    simp only
    split
    · rename_i hmarker
      exact .inl ⟨(Bool.and_eq_true_iff.mp hmarker).1, rfl⟩
    · exact .inr rfl

theorem flushPending_served (m : Mailbox) : m.flushPending.served = m.served ∧
    m.flushPending.owed = m.owed := by
  rcases flushPending_cases m with ⟨e, rest, hqueue, heq⟩ | ⟨hnil, ⟨-, heq⟩ | heq⟩ <;>
    rw [heq] <;> refine ⟨?_, rfl⟩ <;> unfold Mailbox.served
  · rw [hqueue, List.filterMap_append, List.append_assoc]
    rfl
  · rw [hnil, List.filterMap_append]
    simp [Notice.emit?, Pending.empty]
  · rw [hnil]
    simp [Pending.empty]

theorem flushPending_flagged (h : m.Flagged) : m.flushPending.Flagged := by
  obtain ⟨hset, hevicted, hmarker⟩ := h
  rcases flushPending_cases m with ⟨e, rest, -, heq⟩ | ⟨-, ⟨hflag, heq⟩ | heq⟩ <;> rw [heq]
  · exact ⟨hset, fun h => (hevicted h).imp_right (List.mem_append_left _),
      fun h => hmarker (by simpa using h)⟩
  · exact ⟨nofun, fun _ => .inr (by simp), fun _ => hset hflag⟩
  · exact ⟨hset, hevicted, hmarker⟩

end Steps

section Invariant

variable {m : Mailbox} {e : Emit} {s : Nat → Mailbox}

/-- Before the handshake all that was emitted is queued, but for what was evicted; at any time
nothing is lost and nothing is sent twice. -/
structure Mailbox.Sound (m : Mailbox) : Prop where
  queued : m.initialized = false → m.received = [] ∧ m.pending.entries = m.emitted.drop m.evicted
  flushes : m.flushing = true → m.initialized = true
  evicted : m.evicted ≤ m.emitted.length
  kept : m.served.Perm m.owed
  flagged : m.Flagged

theorem sound_fresh (negotiated : Bool) : (Mailbox.fresh negotiated).Sound :=
  ⟨fun _ => ⟨rfl, rfl⟩, nofun, le_refl 0, List.Perm.refl _, nofun, nofun, nofun⟩

theorem emit_queued (h : m.Sound) (hinit : m.initialized = false) (e : Emit) :
    (m.emit e).Sound ∧ (m.emit e).served = (m.emit e).owed := by
  obtain ⟨hreceived, hpending⟩ := h.queued hinit
  have heq : m.emit e = { m with
      emitted := m.emitted ++ [e]
      pendingOverflowed := m.pendingOverflowed || m.pending.full
      pending := m.pending.append e
      evicted := m.evicted + m.pending.full.toNat } := by
    rw [Mailbox.emit]
    simp only [hinit, Bool.false_eq_true, not_false_eq_true, if_true]
    rfl
  have hle : m.evicted + m.pending.full.toNat ≤ m.emitted.length := by
    have hlen := congrArg List.length hpending
    have hbound := h.evicted
    rw [List.length_drop] at hlen
    cases hfull : m.pending.full
    · exact hbound
    · rw [Pending.full, decide_eq_true_eq, pendingQueueMax] at hfull
      simp only [Bool.toNat_true]
      omega
  have hnew : (m.pending.append e).entries =
      (m.emitted ++ [e]).drop (m.evicted + m.pending.full.toNat) := by
    rw [append_entries, hpending, List.drop_drop, List.drop_append_of_le_length hle]
  have hserved : (m.emit e).served = (m.emit e).owed := by
    rw [heq, Mailbox.served, Mailbox.owed, hnew, hreceived]
    rfl
  refine ⟨⟨fun _ => ?_, ?_, ?_, hserved ▸ List.Perm.refl _, ?_⟩, hserved⟩
  · rw [heq]
    exact ⟨hreceived, hnew⟩
  · rw [heq]
    exact h.flushes
  · rw [heq, List.length_append]
    exact hle.trans (Nat.le_add_right _ _)
  · obtain ⟨hset, hevicted, -⟩ := h.flagged
    rw [heq]
    refine ⟨fun hflag => ?_, fun hpos => .inl ?_, fun hmarker => ?_⟩
    · cases hfull : m.pending.full
      · exact Nat.lt_of_lt_of_le (hset (by simpa [hfull] using hflag)) (Nat.le_add_right _ _)
      · exact Nat.succ_pos _
    · cases hfull : m.pending.full
      · have hpos : 0 < m.evicted := by simpa [hfull] using hpos
        have := (hevicted hpos).resolve_right (by simp [hreceived])
        simp [this]
      · simp
    · rw [show ({ m with emitted := m.emitted ++ [e] } : Mailbox).received = [] from hreceived]
        at hmarker
      cases hmarker

theorem emit_direct (h : m.Sound) (hinit : m.initialized = true) (e : Emit) :
    (m.emit e).Sound ∧ (m.emit e).owed = m.owed ++ [e].filter m.sendable ∧
      (m.emit e).served = m.received.filterMap Notice.emit? ++ [e].filter m.sendable ++
        m.pending.entries.filter m.sendable := by
  have heq : m.emit e = { m with
      emitted := m.emitted ++ [e]
      received := m.received ++ ([e].filter m.sendable).map .note } := by
    rw [Mailbox.emit]
    simp only [hinit, not_true_eq_false, if_false]
    change (if m.sendable e = true then _ else _) = _
    cases hsend : m.sendable e <;> simp [hsend]
  have howed : (m.emit e).owed = m.owed ++ [e].filter m.sendable := by
    rw [heq, Mailbox.owed, Mailbox.owed]
    simp only
    rw [List.drop_append_of_le_length h.evicted, List.filter_append]
    rfl
  have hserved : (m.emit e).served = m.received.filterMap Notice.emit? ++
      [e].filter m.sendable ++ m.pending.entries.filter m.sendable := by
    rw [heq, Mailbox.served]
    simp only [List.filterMap_append, List.filterMap_map]
    congr 2
    exact List.filterMap_some
  refine ⟨⟨fun hno => ?_, ?_, ?_, ?_, ?_⟩, howed, hserved⟩
  · rw [heq] at hno
    rw [hinit] at hno
    cases hno
  · rw [heq]
    exact h.flushes
  · rw [heq, List.length_append]
    exact h.evicted.trans (Nat.le_add_right _ _)
  · rw [howed, hserved]
    have hmove : (m.received.filterMap Notice.emit? ++ [e].filter m.sendable ++
        m.pending.entries.filter m.sendable).Perm (m.served ++ [e].filter m.sendable) := by
      rw [Mailbox.served, List.append_assoc, List.append_assoc]
      exact List.perm_append_comm.append_left _
    exact hmove.trans (h.kept.append_right _)
  · obtain ⟨hset, hevicted, hmarker⟩ := h.flagged
    rw [heq]
    refine ⟨hset, fun hpos => (hevicted hpos).imp_right (List.mem_append_left _), fun hmem => ?_⟩
    exact hmarker (by simpa using hmem)

theorem flush_sound (h : m.Sound) (hinit : m.initialized = true) : m.flushPending.Sound := by
  obtain ⟨hserved, howed⟩ := flushPending_served m
  have hkeeps : m.flushPending.initialized = true ∧ m.flushPending.emitted = m.emitted ∧
      m.flushPending.evicted = m.evicted := by
    rcases flushPending_cases m with ⟨e, rest, -, heq⟩ | ⟨-, ⟨-, heq⟩ | heq⟩ <;> rw [heq] <;>
      exact ⟨hinit, rfl, rfl⟩
  refine ⟨fun hno => ?_, fun _ => hkeeps.1, ?_, hserved ▸ howed ▸ h.kept,
    flushPending_flagged h.flagged⟩
  · rw [hkeeps.1] at hno
    cases hno
  · rw [hkeeps.2.1, hkeeps.2.2]
    exact h.evicted

theorem initialized_sound (h : m.Sound) : ({ m with initialized := true } : Mailbox).Sound :=
  ⟨nofun, fun _ => rfl, h.evicted, h.kept, h.flagged⟩

theorem sound_update (h : ∀ i, (s i).Sound) {i : Nat} {t : Mailbox} (ht : t.Sound) :
    ∀ j, (Function.update s i t j).Sound := by
  intro j
  rw [Function.update_apply]
  split
  · exact ht
  · exact h j

theorem emit_sound (h : m.Sound) (e : Emit) : (m.emit e).Sound := by
  cases hinit : m.initialized
  · exact (emit_queued h hinit e).1
  · exact (emit_direct h hinit e).1

theorem sessions_sound (h : Reachable sessions s) : ∀ i, (s i).Sound := by
  refine h.invariant (I := fun s => ∀ i, (s i).Sound) (fun s hs i => ?_)
    fun s act t _ hsound _ hstep => ?_
  · obtain ⟨negotiated, heq⟩ := hs i
    rw [heq]
    exact sound_fresh negotiated
  · cases act with
    | emit i e =>
      rw [← Option.some.inj hstep]
      exact sound_update hsound (emit_sound (hsound i) e)
    | initialized i =>
      simp only [sessions, step] at hstep
      split at hstep
      · cases hstep
      · rw [← Option.some.inj hstep]
        exact sound_update hsound (flush_sound (initialized_sound (hsound i)) rfl)
    | flush i =>
      simp only [sessions, step] at hstep
      split at hstep
      · rename_i hflushing
        rw [← Option.some.inj hstep]
        exact sound_update hsound (flush_sound (hsound i) ((hsound i).flushes hflushing))
      · cases hstep

theorem emit_in_order (h : m.Sound) (horder : m.served = m.owed) (e : Emit)
    (hsettled : m.initialized = true → m.sendable e = true →
      ∀ x ∈ m.pending.entries, m.sendable x = false) : (m.emit e).served = (m.emit e).owed := by
  cases hinit : m.initialized
  · exact (emit_queued h hinit e).2
  · obtain ⟨-, howed, hserved⟩ := emit_direct h hinit e
    rw [howed, hserved, ← horder, Mailbox.served]
    cases hsend : m.sendable e
    · simp [hsend]
    · have hnil : m.pending.entries.filter m.sendable = [] :=
        List.filter_eq_nil_iff.mpr fun x hx => by simp [hsettled hinit hsend x hx]
      rw [hnil, List.append_nil, List.append_nil]

theorem order_update (h : ∀ i, (s i).served = (s i).owed) {i : Nat} {t : Mailbox}
    (ht : t.served = t.owed) :
    ∀ j, (Function.update s i t j).served = (Function.update s i t j).owed := by
  intro j
  rw [Function.update_apply]
  split
  · exact ht
  · exact h j

/-- Every session is sent its notifications in the order of the broadcasts as long as none is sent
past its queue; in any case each is sent once, none is lost but those that the queue dropped, and
the flag tells of these. -/
theorem notifications_in_order (s : Nat → Mailbox) :
    (Reach sessions Settled s → ∀ i, (s i).served = (s i).owed) ∧
      (Reachable sessions s → ∀ i, (s i).served.Perm (s i).owed ∧ (s i).Flagged) := by
  refine ⟨fun h => ?_, fun h i => ⟨(sessions_sound h i).kept, (sessions_sound h i).flagged⟩⟩
  refine h.invariant (I := fun s => ∀ i, (s i).served = (s i).owed) (fun s hs i => ?_)
    fun s act t hreach horder hok hstep => ?_
  · obtain ⟨negotiated, heq⟩ := hs i
    rw [heq]
    rfl
  · have hflush : ∀ m : Mailbox, m.served = m.owed →
        m.flushPending.served = m.flushPending.owed := fun m hm => by
      obtain ⟨hserved, howed⟩ := flushPending_served m
      rw [hserved, howed, hm]
    cases act with
    | emit i e =>
      rw [← Option.some.inj hstep]
      exact order_update horder
        (emit_in_order (sessions_sound hreach.reachable i) (horder i) e hok)
    | initialized i =>
      simp only [sessions, step] at hstep
      split at hstep
      · cases hstep
      · rw [← Option.some.inj hstep]
        exact order_update horder (hflush _ (horder i))
    | flush i =>
      simp only [sessions, step] at hstep
      split at hstep
      · rw [← Option.some.inj hstep]
        exact order_update horder (hflush _ (horder i))
      · cases hstep

end Invariant

section Samples

def ping (n : Nat) : Emit :=
  .resourceUpdated (ofText "waitbus://current") [.scalar (Char.ofNat n)]

def freshSessions : Nat → Mailbox := fun _ => .fresh false

theorem freshSessions_init : sessions.init freshSessions :=
  fun _ => ⟨false, rfl⟩

/-- Two notifications are queued and sent, a third one is sent at once. -/
theorem notifications_in_order_run : ∃ s : Nat → Mailbox,
    (s 0).received = [.note (ping 1), .note (ping 2), .note (ping 3)] ∧
      (∀ i, (s i).served = (s i).owed) ∧ ∀ i, (s i).served.Perm (s i).owed ∧ (s i).Flagged := by
  obtain ⟨s, hrun, hreceived⟩ : ∃ s ∈ sessions.exec freshSessions
      [.emit 0 (ping 1), .emit 0 (ping 2), .initialized 0, .flush 0, .flush 0, .emit 0 (ping 3)],
      (s 0).received = [.note (ping 1), .note (ping 2), .note (ping 3)] := by
    decide +kernel
  have hstart : Reach sessions Settled freshSessions := .start freshSessions_init
  have hreach := hstart.exec hrun (by decide +kernel)
  exact ⟨s, hreceived, (notifications_in_order s).1 hreach,
    (notifications_in_order s).2 hreach.reachable⟩

/-- A notification that arrives while the first of the queue is being sent overtakes the second. -/
theorem live_overtakes_queued : ∃ s, Reachable sessions s ∧
    (s 0).received = [.note (ping 1), .note (ping 3), .note (ping 2)] ∧
    (s 0).emitted = [ping 1, ping 2, ping 3] ∧ (s 0).served ≠ (s 0).owed := by
  obtain ⟨s, hrun, hreceived⟩ : ∃ s ∈ sessions.exec freshSessions
      [.emit 0 (ping 1), .emit 0 (ping 2), .initialized 0, .emit 0 (ping 3), .flush 0],
      (s 0).received = [.note (ping 1), .note (ping 3), .note (ping 2)] ∧
      (s 0).emitted = [ping 1, ping 2, ping 3] ∧ (s 0).served ≠ (s 0).owed := by
    decide +kernel
  exact ⟨s, Reachable.exec (.start freshSessions_init) hrun, hreceived⟩

end Samples

end Waitbus.Notifications
