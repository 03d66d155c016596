import Waitbus.FrameCodec
import Waitbus.OrderedLog

/-! The events table. A `Store` carries what the schema enforces: `seq` is an increasing key that
is never reused, and both the delivery id and the non-null event id are unique. -/

namespace Waitbus.EventStore
open Python FrameCodec OrderedLog

def alphabet : List Char :=
  "0123456789ABCDEFGHJKMNPQRSTVWXYZ".toList

abbrev Ulid := { s : String // s.length = 26 ∧ ∀ c ∈ s.toList, c ∈ alphabet }

instance lawfulBEqUlid : LawfulBEq Ulid := inferInstance

structure EventInsert where
  deliveryId : String
  source : String
  eventType : String
  owner : String
  repo : String
  receivedAt : Int
  payloadJson : String
  ingestMethod : String
  runId : Option Int := none
  workflowName : Option String := none
  headBranch : Option String := none
  headSha : Option String := none
  status : Option String := none
  conclusion : Option String := none
  jobId : Option Int := none
  jobName : Option String := none
  parentRunId : Option Int := none
  alertName : Option String := none
  alertSeverity : Option String := none
  alertFingerprint : Option String := none
  msgTo : Option String := none
  msgFrom : Option String := none
  msgCorrelationId : Option String := none
  msgReplyTo : Option String := none
  msgThread : Option String := none
  msgBody : Option String := none

structure Row where
  seq : Nat
  deliveryId : String
  source : String
  eventType : String
  owner : String
  repo : String
  runId : Option SqlInt
  workflowName : Option String
  headBranch : Option String
  headSha : Option String
  status : Option String
  conclusion : Option String
  receivedAt : SqlInt
  payloadJson : String
  ingestMethod : String
  jobId : Option SqlInt
  jobName : Option String
  parentRunId : Option SqlInt
  alertName : Option String
  alertSeverity : Option String
  alertFingerprint : Option String
  msgTo : Option String
  msgFrom : Option String
  msgCorrelationId : Option String
  msgReplyTo : Option String
  msgThread : Option String
  msgBody : Option String
  eventId : Option Ulid

def sqlText (s : Option String) : SqlValue :=
  (s.map .text).getD .null

def sqlInteger (n : Option SqlInt) : SqlValue :=
  (n.map .integer).getD .null

/-- The row's cells under `EVENT_COLUMNS`, in that order. -/
def Row.columns (row : Row) : List (String × SqlValue) :=
  [("delivery_id", .text row.deliveryId), ("source", .text row.source),
    ("event_type", .text row.eventType), ("owner", .text row.owner), ("repo", .text row.repo),
    ("run_id", sqlInteger row.runId), ("workflow_name", sqlText row.workflowName),
    ("head_branch", sqlText row.headBranch), ("head_sha", sqlText row.headSha),
    ("status", sqlText row.status), ("conclusion", sqlText row.conclusion),
    ("received_at", .integer row.receivedAt), ("payload_json", .text row.payloadJson),
    ("ingest_method", .text row.ingestMethod), ("job_id", sqlInteger row.jobId),
    ("job_name", sqlText row.jobName), ("parent_run_id", sqlInteger row.parentRunId),
    ("alert_name", sqlText row.alertName), ("alert_severity", sqlText row.alertSeverity),
    ("alert_fingerprint", sqlText row.alertFingerprint), ("msg_to", sqlText row.msgTo),
    ("msg_from", sqlText row.msgFrom), ("msg_correlation_id", sqlText row.msgCorrelationId),
    ("msg_reply_to", sqlText row.msgReplyTo), ("msg_thread", sqlText row.msgThread),
    ("msg_body", sqlText row.msgBody), ("event_id", sqlText (row.eventId.map (·.val)))]

structure Store where
  rows : List Row
  lastSeq : Nat
  increasing : Increasing Row.seq rows
  bounded : ∀ row ∈ rows, 0 < row.seq ∧ row.seq ≤ lastSeq
  deliveryIds : (rows.map (·.deliveryId)).Nodup
  eventIds : (rows.filterMap (·.eventId)).Nodup

def Store.empty : Store :=
  ⟨[], 0, List.Pairwise.nil, by simp, List.nodup_nil, List.nodup_nil⟩

def nsReceivedAtMin : Int := 1000000000000000

def toSqlInt (n : Int) : Except PyExc SqlInt :=
  if h : -2 ^ 63 ≤ n ∧ n < 2 ^ 63 then .ok ⟨n, h⟩ else .error .overflowError

def toSqlInt? (n : Option Int) : Except PyExc (Option SqlInt) :=
  match n with
  | none => .ok none
  | some n => (toSqlInt n).map some

/-- The values tuple of the INSERT; the table assigns `seq`. -/
def EventInsert.row (event : EventInsert) (eventId : Ulid) : Except PyExc Row := do
  let runId ← toSqlInt? event.runId
  let receivedAt ← toSqlInt event.receivedAt
  let jobId ← toSqlInt? event.jobId
  let parentRunId ← toSqlInt? event.parentRunId
  return { event with seq := 0, runId, receivedAt, jobId, parentRunId, eventId := some eventId }

/-- `INSERT OR IGNORE`: no row is added when a unique index already has one of its ids. -/
def Store.insertOrIgnore (store : Store) (row : Row) : Bool × Store :=
  if h : row.deliveryId ∉ store.rows.map (·.deliveryId) ∧
      ∀ id ∈ row.eventId, id ∉ store.rows.filterMap (·.eventId) then
    (true, {
      rows := store.rows ++ [{ row with seq := store.lastSeq + 1 }]
      lastSeq := store.lastSeq + 1
      increasing := store.increasing.concat fun r hr => by
        have := (store.bounded r hr).2
        exact Nat.lt_succ_of_le this
      bounded := fun r hr => by
        rcases List.mem_append.mp hr with hr | hr
        · have := store.bounded r hr
          omega
        · rw [List.mem_singleton.mp hr]
          exact ⟨Nat.succ_pos _, le_refl _⟩
      deliveryIds := by
        rw [List.map_append]
        exact store.deliveryIds.append (List.nodup_singleton _) (by simpa using h.1)
      eventIds := by
        rw [List.filterMap_append]
        cases hid : row.eventId with
        | none => simpa [hid] using store.eventIds
        | some id =>
          simp only [List.filterMap_cons, List.filterMap_nil]
          exact store.eventIds.append (List.nodup_singleton _) (by simpa using h.2 id hid) })
  else (false, store)

/-- `insert_event(..., commit=False)`; `eventId` is what `_ulid.new()` returned. -/
def Store.insertEvent (store : Store) (event : EventInsert) (eventId : Ulid) :
    Except PyExc (Bool × Store) :=
  if event.receivedAt ≤ 0 then .error .valueError
  else if event.receivedAt < nsReceivedAtMin then .error .valueError
  else do
    let row ← event.row eventId
    return store.insertOrIgnore row

/-- The transaction of `emit_batch`: the count of rows inserted and the table it commits. -/
def Store.insertAll (store : Store) :
    List (EventInsert × Ulid) → Except PyExc (Nat × Store)
  | [] => .ok (0, store)
  | (event, eventId) :: rest => do
    let (inserted, store) ← store.insertEvent event eventId
    let (count, store) ← store.insertAll rest
    return (inserted.toNat + count, store)

/-- `COALESCE(MAX(seq), 0)`. -/
def Store.maxSeq (store : Store) : Nat :=
  (store.rows.getLast?.map (·.seq)).getD 0

/-- The rows that have an event id: only these are ever replayed or fanned out. -/
def Store.fanOutable (store : Store) : List Row :=
  store.rows.filter (·.eventId.isSome)

def Store.iterEventsAbove (store : Store) (sinceSeq : Nat) (untilSeq : Option Nat)
    (limit : Nat) : List Row :=
  ((above Row.seq sinceSeq store.fanOutable).filter fun row =>
    untilSeq.all (row.seq ≤ ·)).take limit

def Store.seqForEventId (store : Store) (eventId : String) : Nat :=
  if eventId = "" then 0
  else ((store.rows.find? fun row => row.eventId.map (·.val) = some eventId).map (·.seq)).getD 0

/-- `_current_max_snapshot`: the last row that has an event id, and that id. -/
def Store.currentMaxSnapshot (store : Store) : Nat × Option String :=
  match store.fanOutable.getLast? with
  | none => (0, none)
  | some row => (row.seq, row.eventId.map (·.val))

section Growth

/-- What commits do to the table: rows are only added, each under a seq not used before. -/
def Store.Grows (s t : Store) : Prop :=
  ∃ new, t.rows = s.rows ++ new ∧ s.lastSeq ≤ t.lastSeq ∧ ∀ row ∈ new, s.lastSeq < row.seq

theorem Store.Grows.refl (s : Store) : s.Grows s :=
  ⟨[], by simp, le_refl _, by simp⟩

theorem Store.Grows.trans {s t u : Store} (h : s.Grows t) (h' : t.Grows u) : s.Grows u := by
  obtain ⟨new, hrows, hlast, hnew⟩ := h
  obtain ⟨new', hrows', hlast', hnew'⟩ := h'
  refine ⟨new ++ new', by rw [hrows', hrows, List.append_assoc], hlast.trans hlast', ?_⟩
  intro row hrow
  rcases List.mem_append.mp hrow with hrow | hrow
  · exact hnew row hrow
  · exact lt_of_le_of_lt hlast (hnew' row hrow)

theorem insertOrIgnore_grows (s : Store) (row : Row) : s.Grows (s.insertOrIgnore row).2 := by
  unfold Store.insertOrIgnore
  split
  · exact ⟨_, rfl, Nat.le_succ _, by simp⟩
  · exact .refl s

theorem insertEvent_ok {s t : Store} {event : EventInsert} {eventId : Ulid} {inserted : Bool}
    (h : s.insertEvent event eventId = .ok (inserted, t)) :
    ∃ row, event.row eventId = .ok row ∧ s.insertOrIgnore row = (inserted, t) := by
  unfold Store.insertEvent at h
  split at h
  · cases h
  split at h
  · cases h
  cases hrow : event.row eventId with
  | error e =>
    rw [hrow] at h
    cases h
  | ok row =>
    rw [hrow] at h
    exact ⟨row, rfl, Except.ok.inj h⟩

theorem insertEvent_grows {s t : Store} {event : EventInsert} {eventId : Ulid} {inserted : Bool}
    (h : s.insertEvent event eventId = .ok (inserted, t)) : s.Grows t := by
  obtain ⟨row, -, hstore⟩ := insertEvent_ok h
  have hgrows := insertOrIgnore_grows s row
  rwa [hstore] at hgrows

theorem insertEvent_ignored {s t : Store} {event : EventInsert} {eventId : Ulid}
    (inserted : Bool) (h : s.insertEvent event eventId = .ok (inserted, t))
    (hno : inserted = false) : t = s := by
  obtain ⟨row, -, hstore⟩ := insertEvent_ok h
  unfold Store.insertOrIgnore at hstore
  split at hstore
  · rw [hno] at hstore
    cases hstore
  · exact (congrArg Prod.snd hstore).symm

theorem insertAll_cons {s t : Store} {event : EventInsert} {eventId : Ulid} {count : Nat}
    {rest : List (EventInsert × Ulid)}
    (h : s.insertAll ((event, eventId) :: rest) = .ok (count, t)) :
    ∃ inserted u count', s.insertEvent event eventId = .ok (inserted, u) ∧
      u.insertAll rest = .ok (count', t) ∧ count = inserted.toNat + count' := by
  rw [Store.insertAll] at h
  cases hinsert : s.insertEvent event eventId with
  | error e =>
    rw [hinsert] at h
    cases h
  | ok result =>
    obtain ⟨inserted, u⟩ := result
    rw [hinsert] at h
    cases hall : u.insertAll rest with
    | error e =>
      simp only [bind, Except.bind, hall] at h
      cases h
    | ok result =>
      obtain ⟨count', t'⟩ := result
      simp only [bind, Except.bind, hall, pure, Except.pure, Except.ok.injEq,
        Prod.mk.injEq] at h
      obtain ⟨rfl, rfl⟩ := h
      exact ⟨inserted, u, count', rfl, hall, rfl⟩

theorem insertAll_grows {batch : List (EventInsert × Ulid)} {s t : Store} {count : Nat}
    (h : s.insertAll batch = .ok (count, t)) : s.Grows t := by
  induction batch generalizing s count with
  | nil =>
    cases h
    exact Store.Grows.refl _
  | cons head rest ih =>
    obtain ⟨inserted, u, count', hinsert, hall, -⟩ := insertAll_cons h
    exact (insertEvent_grows hinsert).trans (ih hall)

theorem insertAll_none {batch : List (EventInsert × Ulid)} {s t : Store}
    (h : s.insertAll batch = .ok (0, t)) : t = s := by
  induction batch generalizing s with
  | nil =>
    cases h
    rfl
  | cons head rest ih =>
    obtain ⟨inserted, u, count', hinsert, hall, hcount⟩ := insertAll_cons h
    obtain ⟨hinserted, rfl⟩ := Nat.add_eq_zero_iff.mp hcount.symm
    rw [ih hall]
    exact insertEvent_ignored inserted hinsert (by simpa using hinserted)

theorem Store.Grows.lastSeq_le {s t : Store} (h : s.Grows t) : s.lastSeq ≤ t.lastSeq := by
  obtain ⟨-, -, hle, -⟩ := h
  exact hle

theorem Store.Grows.mem_fanOutable {s t : Store} (h : s.Grows t) {row : Row} :
    row ∈ t.fanOutable → row ∈ s.fanOutable ∨ s.lastSeq < row.seq := by
  obtain ⟨new, hrows, -, hnew⟩ := h
  simp only [Store.fanOutable, hrows, List.filter_append, List.mem_append, List.mem_filter]
  rintro (hs | ⟨hn, -⟩)
  · exact .inl hs
  · exact .inr (hnew row hn)

theorem Store.Grows.fanOutable_subset {s t : Store} (h : s.Grows t) {row : Row}
    (hrow : row ∈ s.fanOutable) : row ∈ t.fanOutable := by
  obtain ⟨new, hrows, -, -⟩ := h
  simp only [Store.fanOutable, hrows, List.filter_append, List.mem_append] at hrow ⊢
  exact .inl hrow

theorem Store.Grows.seqForEventId_le {s t : Store} (h : s.Grows t) (eventId : String) :
    s.seqForEventId eventId ≤ t.seqForEventId eventId := by
  obtain ⟨new, hrows, -, -⟩ := h
  unfold Store.seqForEventId
  split
  · exact le_refl 0
  rw [hrows, List.find?_append]
  cases s.rows.find? fun row => row.eventId.map (·.val) = some eventId with
  | none => exact Nat.zero_le _
  | some row => exact le_refl _

end Growth

section Inserts

variable {store t : Store} {event : EventInsert} {eventId : Ulid} {inserted : Bool} {row : Row}

theorem toSqlInt?_some {n : Int} {r : Option SqlInt} (h : toSqlInt? (some n) = .ok r) :
    ∃ k : SqlInt, r = some k ∧ k.val = n := by
  rw [toSqlInt?, toSqlInt] at h
  split at h
  · exact ⟨_, (Except.ok.inj h).symm, rfl⟩
  · cases h

theorem event_row (h : event.row eventId = .ok row) : ∃ runId receivedAt jobId parentRunId,
    toSqlInt? event.runId = .ok runId ∧ toSqlInt event.receivedAt = .ok receivedAt ∧
      toSqlInt? event.jobId = .ok jobId ∧ toSqlInt? event.parentRunId = .ok parentRunId ∧
      row = { event with
        seq := 0, runId, receivedAt, jobId, parentRunId, eventId := some eventId } := by
  unfold EventInsert.row at h
  cases hrun : toSqlInt? event.runId with
  | error e => simp [hrun, bind, Except.bind] at h
  | ok runId =>
    cases hreceived : toSqlInt event.receivedAt with
    | error e => simp [hrun, hreceived, bind, Except.bind] at h
    | ok receivedAt =>
      cases hjob : toSqlInt? event.jobId with
      | error e => simp [hrun, hreceived, hjob, bind, Except.bind] at h
      | ok jobId =>
        cases hparent : toSqlInt? event.parentRunId with
        | error e => simp [hrun, hreceived, hjob, hparent, bind, Except.bind] at h
        | ok parentRunId =>
          simp only [hrun, hreceived, hjob, hparent, bind, Except.bind, pure, Except.pure] at h
          exact ⟨runId, receivedAt, jobId, parentRunId, rfl, rfl, rfl, rfl, (Except.ok.inj h).symm⟩

theorem toSqlInt_val {n : Int} {k : SqlInt} (h : toSqlInt n = .ok k) : k.val = n := by
  rw [toSqlInt] at h
  split at h
  · rw [← Except.ok.inj h]
  · cases h

theorem row_receivedAt (h : event.row eventId = .ok row) :
    row.receivedAt.val = event.receivedAt := by
  obtain ⟨runId, receivedAt, jobId, parentRunId, -, hreceived, -, -, rfl⟩ := event_row h
  exact toSqlInt_val hreceived

theorem insertOrIgnore_rows (row : Row) (hid : ∀ id ∈ row.eventId,
    id ∉ store.rows.filterMap (·.eventId)) : (store.insertOrIgnore row).2.rows =
      if row.deliveryId ∈ store.rows.map (·.deliveryId) then store.rows
      else store.rows ++ [{ row with seq := store.lastSeq + 1 }] := by
  unfold Store.insertOrIgnore
  split
  · rename_i hnew
    rw [if_neg hnew.1]
  · rename_i hold
    have hknown : row.deliveryId ∈ store.rows.map (·.deliveryId) := by
      by_contra hno
      exact hold ⟨hno, hid⟩
    rw [if_pos hknown]

theorem insertEvent_rows (h : store.insertEvent event eventId = .ok (inserted, t))
    (hid : eventId ∉ store.rows.filterMap (·.eventId)) :
    ∃ row, event.row eventId = .ok row ∧ row.eventId = some eventId ∧
      row.deliveryId = event.deliveryId ∧
      t.rows = if row.deliveryId ∈ store.rows.map (·.deliveryId) then store.rows
        else store.rows ++ [{ row with seq := store.lastSeq + 1 }] := by
  obtain ⟨row, hrow, hstore⟩ := insertEvent_ok h
  obtain ⟨hevent, hdelivery⟩ :
      row.eventId = some eventId ∧ row.deliveryId = event.deliveryId := by
    obtain ⟨runId, receivedAt, jobId, parentRunId, -, -, -, -, rfl⟩ := event_row hrow
    exact ⟨rfl, rfl⟩
  have hfresh : ∀ id ∈ row.eventId, id ∉ store.rows.filterMap (·.eventId) := by
    simpa [hevent] using hid
  have hrows := insertOrIgnore_rows row hfresh
  rw [hstore] at hrows
  exact ⟨row, hrow, hevent, hdelivery, hrows⟩

theorem insertEvent_length (h : store.insertEvent event eventId = .ok (inserted, t)) :
    t.rows.length = store.rows.length + inserted.toNat := by
  obtain ⟨row, -, hstore⟩ := insertEvent_ok h
  unfold Store.insertOrIgnore at hstore
  split at hstore
  all_goals
    obtain ⟨rfl, rfl⟩ := Prod.mk.inj hstore
    simp

theorem insertEvent_known (h : store.insertEvent event eventId = .ok (inserted, t))
    (hknown : event.deliveryId ∈ store.rows.map (·.deliveryId)) : inserted = false := by
  obtain ⟨row, hrow, hstore⟩ := insertEvent_ok h
  obtain ⟨runId, receivedAt, jobId, parentRunId, -, -, -, -, rfl⟩ := event_row hrow
  rw [Store.insertOrIgnore, dif_neg fun hnew => hnew.1 hknown] at hstore
  exact (congrArg Prod.fst hstore).symm

theorem insertAll_new {batch : List (EventInsert × Ulid)} {count : Nat}
    (h : store.insertAll batch = .ok (count, t)) :
    ∃ new, t.rows = store.rows ++ new ∧ new.length = count ∧
      ∀ row ∈ new, ∃ entry ∈ batch, ∃ stored, entry.1.row entry.2 = .ok stored ∧
        row = { stored with seq := row.seq } := by
  induction batch generalizing store count with
  | nil =>
    cases h
    exact ⟨[], (List.append_nil _).symm, rfl, fun row hrow => absurd hrow List.not_mem_nil⟩
  | cons head rest ih =>
    obtain ⟨inserted, u, count', hinsert, hall, rfl⟩ := insertAll_cons h
    obtain ⟨new, hrows, rfl, hnew⟩ := ih hall
    have hrest : ∀ row ∈ new, ∃ entry ∈ head :: rest, ∃ stored,
        entry.1.row entry.2 = .ok stored ∧ row = { stored with seq := row.seq } :=
      fun row hrow => (hnew row hrow).imp fun _ ⟨hentry, h⟩ => ⟨List.mem_cons_of_mem _ hentry, h⟩
    obtain ⟨stored, hstored, hstore⟩ := insertEvent_ok hinsert
    unfold Store.insertOrIgnore at hstore
    split at hstore
    · obtain ⟨rfl, rfl⟩ := Prod.mk.inj hstore
      refine ⟨{ stored with seq := store.lastSeq + 1 } :: new, by simp [hrows], ?_, ?_⟩
      · rw [List.length_cons, Bool.toNat_true, Nat.add_comm]
      · intro row hrow
        rcases List.mem_cons.mp hrow with rfl | hrow
        · exact ⟨head, List.mem_cons_self, stored, hstored, rfl⟩
        · exact hrest row hrow
    · obtain ⟨rfl, rfl⟩ := Prod.mk.inj hstore
      exact ⟨new, hrows, by rw [Bool.toNat_false, Nat.zero_add], hrest⟩

end Inserts

section Reads

theorem Store.fanOutable_increasing (s : Store) : Increasing Row.seq s.fanOutable :=
  s.increasing.sublist List.filter_sublist

theorem Store.mem_fanOutable {s : Store} {row : Row} :
    row ∈ s.fanOutable ↔ row ∈ s.rows ∧ row.eventId.isSome := by
  simp [Store.fanOutable]

theorem Store.seq_le_lastSeq {s : Store} {row : Row} (h : row ∈ s.fanOutable) :
    row.seq ≤ s.lastSeq :=
  (s.bounded row (Store.mem_fanOutable.mp h).1).2

theorem seq_le_getLast {log : List Row} (h : Increasing Row.seq log) {row last : Row}
    (hrow : row ∈ log) (hlast : log.getLast? = some last) : row.seq ≤ last.seq := by
  obtain ⟨init, rfl⟩ := List.getLast?_eq_some_iff.mp hlast
  rcases List.mem_append.mp hrow with hrow | hrow
  · exact le_of_lt ((increasing_append.mp h).2.2 row hrow last (List.mem_singleton_self _))
  · rw [List.mem_singleton.mp hrow]

theorem Store.maxSeq_le_lastSeq (s : Store) : s.maxSeq ≤ s.lastSeq := by
  unfold Store.maxSeq
  cases hlast : s.rows.getLast? with
  | none => exact Nat.zero_le _
  | some last => exact (s.bounded last (List.mem_of_getLast? hlast)).2

theorem Store.seq_le_snapshot {s : Store} {row : Row} (h : row ∈ s.fanOutable) :
    row.seq ≤ s.currentMaxSnapshot.1 := by
  unfold Store.currentMaxSnapshot
  cases hlast : s.fanOutable.getLast? with
  | none =>
    rw [List.getLast?_eq_none_iff.mp hlast] at h
    cases h
  | some last => exact seq_le_getLast s.fanOutable_increasing h hlast

theorem Store.snapshot_le_lastSeq (s : Store) : s.currentMaxSnapshot.1 ≤ s.lastSeq := by
  unfold Store.currentMaxSnapshot
  cases hlast : s.fanOutable.getLast? with
  | none => exact Nat.zero_le _
  | some last => exact Store.seq_le_lastSeq (List.mem_of_getLast? hlast)

theorem Store.mem_iterEventsAbove {s : Store} {row : Row} {since limit : Nat}
    {untilSeq : Option Nat} (h : row ∈ s.iterEventsAbove since untilSeq limit) :
    row ∈ s.fanOutable ∧ since < row.seq ∧ ∀ u ∈ untilSeq, row.seq ≤ u := by
  have hmem := List.mem_of_mem_take h
  simp only [List.mem_filter, mem_above] at hmem
  refine ⟨hmem.1.1, hmem.1.2, ?_⟩
  simpa [Option.all_eq_true] using hmem.2

/-- A row that fewer than `limit` others precede above `since` is within the query's bound. -/
theorem Store.iterEventsAbove_reaches {s : Store} {row : Row} {since limit : Nat}
    {untilSeq : Option Nat} (h : row ∈ s.fanOutable) (hlt : since < row.seq)
    (huntil : ∀ u ∈ untilSeq, row.seq ≤ u)
    (hn : ((above Row.seq since s.fanOutable).filter (·.seq < row.seq)).length < limit) :
    row ∈ s.iterEventsAbove since untilSeq limit := by
  have habove : Increasing Row.seq (above Row.seq since s.fanOutable) :=
    s.fanOutable_increasing.above
  refine (habove.sublist List.filter_sublist).mem_take ?_ (lt_of_le_of_lt ?_ hn)
  · simpa [mem_above, h, hlt, Option.all_eq_true] using huntil
  · exact (List.filter_sublist.filter _).length_le

end Reads

section Windows

variable {s t : Store}

theorem Store.Grows.seqForEventId_eq (h : s.Grows t) (eventId : String) :
    t.seqForEventId eventId = s.seqForEventId eventId ∨
      s.lastSeq < t.seqForEventId eventId := by
  obtain ⟨new, hrows, -, hnew⟩ := h
  unfold Store.seqForEventId
  split
  · exact .inl rfl
  rw [hrows, List.find?_append]
  cases s.rows.find? fun row => row.eventId.map (·.val) = some eventId with
  | some row => exact .inl rfl
  | none =>
    cases hfind : new.find? fun row => row.eventId.map (·.val) = some eventId with
    | none => exact .inl rfl
    | some row => exact .inr (hnew row (List.mem_of_find?_eq_some hfind))

theorem Store.Grows.window_subset (h : s.Grows t) {u limit : Nat} (hu : u ≤ s.lastSeq)
    {eventId : String} {row : Row}
    (hrow : row ∈ t.iterEventsAbove (t.seqForEventId eventId) (some u) limit) :
    row ∈ s.iterEventsAbove (s.seqForEventId eventId) (some u) limit := by
  rcases h.seqForEventId_eq eventId with hsame | habove
  · obtain ⟨new, hrows, -, hnew⟩ := h
    have hnone : ((above Row.seq (s.seqForEventId eventId) (new.filter (·.eventId.isSome))).filter
        fun row => (some u).all (row.seq ≤ ·)) = [] := by
      refine List.filter_eq_nil_iff.mpr fun r hr hle => ?_
      have hlast := hnew r (List.mem_filter.mp (mem_above.mp hr).1).1
      have hle : r.seq ≤ u := by simpa using hle
      omega
    rw [hsame] at hrow
    rw [Store.iterEventsAbove, Store.fanOutable, hrows, List.filter_append, above,
      List.filter_append, List.filter_append] at hrow
    rw [above] at hnone
    rwa [hnone, List.append_nil] at hrow
  · obtain ⟨-, hlt, hle⟩ := Store.mem_iterEventsAbove hrow
    have := hle u rfl
    omega

theorem Store.snapshot_id_length (s : Store) :
    ∀ id, s.currentMaxSnapshot.2 = some id → id.length ≤ 26 := by
  intro id hid
  unfold Store.currentMaxSnapshot at hid
  split at hid
  · cases hid
  · obtain ⟨ulid, -, rfl⟩ := Option.map_eq_some_iff.mp hid
    exact le_of_eq ulid.property.1

end Windows

section Samples

def digit (n : Nat) : Char :=
  alphabet.get ⟨n % 32, (Nat.mod_lt n (by decide)).trans_le (by decide)⟩

/-- The id with `n` in its two last digits and zeros before them. -/
def ulidAt (n : Nat) : Ulid :=
  ⟨String.ofList (List.replicate 24 '0' ++ [digit (n / 32), digit n]), by
    have hmem : ∀ k, digit k ∈ alphabet := fun k => List.get_mem _ _
    have hzero : '0' ∈ alphabet := by decide
    refine ⟨by rw [String.length_ofList]; rfl, fun c hc => ?_⟩
    simp only [String.toList_ofList, List.mem_append, List.mem_replicate, List.mem_cons,
      List.not_mem_nil, or_false] at hc
    rcases hc with ⟨-, rfl⟩ | rfl | rfl
    exacts [hzero, hmem _, hmem _]⟩

theorem ulidAt_inj {m n : Nat} (hm : m < 1024) (hn : n < 1024) (h : ulidAt m = ulidAt n) :
    m = n := by
  have hdigit : ∀ a b : Nat, digit a = digit b → a % 32 = b % 32 := fun a b hab =>
    Fin.val_eq_of_eq ((List.Nodup.get_inj_iff (by decide)).mp hab)
  have hlist := List.append_cancel_left (String.ofList_injective (congrArg Subtype.val h))
  simp only [List.cons.injEq, and_true] at hlist
  have hhigh := hdigit _ _ hlist.1
  have hlow := hdigit _ _ hlist.2
  omega

def sampleEvent (n : Nat) : EventInsert where
  deliveryId := String.ofList (List.replicate n 'd')
  source := "agent"
  eventType := "agent_message"
  owner := "local"
  repo := "agents"
  receivedAt := nsReceivedAtMin
  payloadJson := "{}"
  ingestMethod := "api"

def sampleStore (n : Nat) : Store :=
  let batch := (List.range' 1 n).map fun k => (sampleEvent k, ulidAt k)
  (Store.empty.insertAll batch).toOption.elim .empty (·.2)

end Samples

end Waitbus.EventStore
