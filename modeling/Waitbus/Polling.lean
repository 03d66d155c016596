import Mathlib
import Waitbus.Dedup
import Waitbus.EventStore
import Waitbus.Runs

/-! The fallback poller. A run or a job that a poll reports becomes a row unless a row was stored
for it in that status and conclusion before, so that the polls' rows are the sightings of a first
time. -/

namespace Waitbus.Polling
open Python FrameCodec EventStore Runs Compaction Dedup

/-- One object of a poll's `workflow_runs` or `jobs`; `payload` is what `json.dumps` makes of it
together with the repository. -/
structure Item where
  id : Option Int
  name : Option String
  headBranch : Option String
  headSha : Option String
  status : Option String
  conclusion : Option String
  payload : String

inductive Kind where
  | run
  | job
  deriving DecidableEq

structure Subject where
  kind : Kind
  id : Int
  deriving DecidableEq

/-- What a poll reports of a run or a job. -/
structure Sighting where
  subject : Subject
  status : Option String
  conclusion : Option String
  deriving DecidableEq

/-- `str` of a field of the API's. -/
def text (s : Option String) : String :=
  s.getD "None"

def Kind.tag : Kind → String
  | .run => ""
  | .job => "job:"

def delivery (x : Sighting) : String :=
  "etag:" ++ x.subject.kind.tag ++ toString x.subject.id ++ ":" ++ text x.status ++ ":" ++
    text x.conclusion

def runEvent (owner repo : String) (receivedAt : Int) (run : Item) (runId : Int) : EventInsert where
  deliveryId := delivery ⟨⟨.run, runId⟩, run.status, run.conclusion⟩
  source := "github"
  eventType := "workflow_run"
  owner := owner
  repo := repo
  receivedAt := receivedAt
  payloadJson := run.payload
  ingestMethod := "etag_poll"
  runId := some runId
  workflowName := run.name
  headBranch := run.headBranch
  headSha := run.headSha
  status := run.status
  conclusion := run.conclusion

def jobEvent (owner repo : String) (runId receivedAt : Int) (job : Item) (jobId : Int) :
    EventInsert where
  deliveryId := delivery ⟨⟨.job, jobId⟩, job.status, job.conclusion⟩
  source := "github"
  eventType := "workflow_job"
  owner := owner
  repo := repo
  receivedAt := receivedAt
  payloadJson := job.payload
  ingestMethod := "etag_poll"
  headBranch := job.headBranch
  headSha := job.headSha
  status := job.status
  conclusion := job.conclusion
  jobId := some jobId
  jobName := job.name
  parentRunId := some runId

def stallKey (jobId : Int) : String :=
  "etag:stall:" ++ toString jobId

/-- A row that `emit_stall_synthetic_events` writes for a job it found in the table. -/
structure Stall where
  owner : String
  repo : String
  jobId : Int
  jobName : Option String
  parentRunId : Option Int
  headBranch : Option String
  headSha : Option String
  payload : String

def stallEvent (receivedAt : Int) (stall : Stall) : EventInsert where
  deliveryId := stallKey stall.jobId
  source := "github"
  eventType := "workflow_job"
  owner := stall.owner
  repo := stall.repo
  receivedAt := receivedAt
  payloadJson := stall.payload
  ingestMethod := "etag_poll"
  headBranch := stall.headBranch
  headSha := stall.headSha
  status := some "stalled"
  conclusion := some "in_progress"
  jobId := some stall.jobId
  jobName := stall.jobName
  parentRunId := stall.parentRunId

/-- The inserts of a poll: an object without an id is passed over. -/
def batchOf (event : Item → Int → EventInsert) (items : List (Item × Ulid)) :
    List (EventInsert × Ulid) :=
  items.filterMap fun item => item.1.id.map fun id => (event item.1 id, item.2)

def upsertRuns (store : Store) (owner repo : String) (receivedAt : Int)
    (runs : List (Item × Ulid)) : Except PyExc (Nat × Store) :=
  store.insertAll (batchOf (runEvent owner repo receivedAt) runs)

def upsertJobs (store : Store) (owner repo : String) (runId receivedAt : Int)
    (jobs : List (Item × Ulid)) : Except PyExc (Nat × Store) :=
  store.insertAll (batchOf (jobEvent owner repo runId receivedAt) jobs)

/-- The one transaction of `emit_stall_synthetic_events`, whichever jobs it found. -/
def emitStalls (store : Store) (receivedAt : Int) (stalls : List (Stall × Ulid)) :
    Except PyExc (Nat × Store) :=
  store.insertAll (stalls.map fun stall => (stallEvent receivedAt stall.1, stall.2))

def sightings (kind : Kind) (items : List (Item × Ulid)) : List Sighting :=
  items.filterMap fun item => item.1.id.map fun id =>
    ⟨⟨kind, id⟩, item.1.status, item.1.conclusion⟩

/-- The table, and all that the polls have reported so far. -/
structure Poller where
  store : Store
  polled : List Sighting

inductive Act where
  | runs (owner repo : String) (receivedAt : Int) (runs : List (Item × Ulid))
  | jobs (owner repo : String) (runId receivedAt : Int) (jobs : List (Item × Ulid))
  | stalls (receivedAt : Int) (stalls : List (Stall × Ulid))

/-- `_ulid.new` returns no id that the table has. -/
def NewIds (store : Store) (ids : List Ulid) : Prop :=
  (store.rows.filterMap (·.eventId) ++ ids).Nodup

instance (store : Store) (ids : List Ulid) : Decidable (NewIds store ids) :=
  inferInstanceAs (Decidable (List.Nodup _))

/-- A transaction that raises is rolled back, and no poll of the run. -/
def Poller.commit (p : Poller) (ids : List Ulid) (result : Except PyExc (Nat × Store))
    (seen : List Sighting) : Option Poller :=
  if NewIds p.store ids then
    match result with
    | .ok (_, store) => some { store, polled := p.polled ++ seen }
    | .error _ => none
  else none

def Poller.step (p : Poller) : Act → Option Poller
  | .runs owner repo receivedAt runs =>
    p.commit (runs.map (·.2)) (upsertRuns p.store owner repo receivedAt runs) (sightings .run runs)
  | .jobs owner repo runId receivedAt jobs =>
    p.commit (jobs.map (·.2)) (upsertJobs p.store owner repo runId receivedAt jobs)
      (sightings .job jobs)
  | .stalls receivedAt stalls =>
    p.commit (stalls.map (·.2)) (emitStalls p.store receivedAt stalls) []

def polling : System Poller Act where
  init p := p.polled = [] ∧ ∀ row ∈ p.store.rows, ∀ x, row.deliveryId ≠ delivery x
  step := Poller.step

/-- The run or the job that a row is of; a synthetic stall row is of none. -/
def subjectOf (row : Row) : Option Subject :=
  if row.eventType = "workflow_run" then row.runId.map fun id => ⟨.run, id.val⟩
  else if row.eventType = "workflow_job" then
    match row.jobId with
    | none => none
    | some id => if row.deliveryId = stallKey id.val then none else some ⟨.job, id.val⟩
  else none

def sightingOf (row : Row) : Option Sighting :=
  (subjectOf row).map fun subject => ⟨subject, row.status, row.conclusion⟩

def lastSeen (subject : Subject) (polled : List Sighting) : Option Sighting :=
  newest (some ·.subject) subject polled

/-- The row of the largest seq for the run or the job is in the status and the conclusion. -/
def Shows (store : Store) (x : Sighting) : Prop :=
  ∃ row ∈ newest subjectOf x.subject store.rows,
    row.status = x.status ∧ row.conclusion = x.conclusion

/-- Of the run's or the job's sightings the last one that was no repetition was of this status and
conclusion. -/
def LastNew (polled : List Sighting) (x : Sighting) : Prop :=
  ∃ y ∈ lastSeen x.subject (firsts delivery polled),
    y.status = x.status ∧ y.conclusion = x.conclusion

section Keys

variable {x y : Sighting} {m n : Int}

theorem decimal_toList (n : Int) : (toString n).toList =
    if 0 ≤ n then Nat.toDigits 10 n.toNat else '-' :: Nat.toDigits 10 (-n).toNat := by
  rw [Int.toString_eq_repr, Int.repr_eq_if]
  split
  · exact Nat.toList_repr
  · rw [String.toList_append, Nat.toList_repr]
    rfl

theorem isDigit_of_mem_decimal {c : Char} (h : c ∈ (toString n).toList) :
    c.isDigit = true ∨ c = '-' := by
  have hdigits : ∀ k : Nat, c ∈ Nat.toDigits 10 k → c.isDigit = true := fun k hk =>
    Nat.isDigit_of_mem_toDigits (by decide) (by decide) hk
  rw [decimal_toList] at h
  split at h
  · exact .inl (hdigits _ h)
  · rcases List.mem_cons.mp h with rfl | h
    · exact .inr rfl
    · exact .inl (hdigits _ h)

theorem decimal_inj (h : (toString m).toList = (toString n).toList) : m = n := by
  have hdigits : ∀ a b : Nat, Nat.toDigits 10 a = Nat.toDigits 10 b → a = b := fun a b hab => by
    rw [← Nat.ofDigitChars_ten_toDigits (n := a), hab, Nat.ofDigitChars_ten_toDigits]
  have hsign : ∀ a b : Nat, Nat.toDigits 10 a ≠ '-' :: Nat.toDigits 10 b := fun a b hab => by
    have hmem : '-' ∈ Nat.toDigits 10 a := hab ▸ List.mem_cons_self
    have hdigit := Nat.isDigit_of_mem_toDigits (by decide) (by decide) hmem
    exact absurd hdigit (by decide)
  rw [decimal_toList, decimal_toList] at h
  split at h <;> split at h
  · have := hdigits _ _ h
    omega
  · exact absurd h (hsign _ _)
  · exact absurd h.symm (hsign _ _)
  · have := hdigits _ _ (List.cons.inj h).2
    omega

theorem decimal_ne_letter (c : Char) {rest rest' : List Char} (hdigit : c.isDigit = false)
    (hminus : c ≠ '-') : (toString n).toList ++ rest ≠ c :: rest' := by
  intro h
  cases hn : (toString n).toList with
  | nil =>
    rw [decimal_toList] at hn
    split at hn
    · exact Nat.toDigits_ne_nil hn
    · cases hn
  | cons d ds =>
    rw [hn, List.cons_append] at h
    have hd := isDigit_of_mem_decimal (hn ▸ List.mem_cons_self : d ∈ (toString n).toList)
    rw [(List.cons.inj h).1, hdigit] at hd
    exact hd.elim (nomatch ·) hminus

theorem takeWhile_decimal (n : Int) (rest : List Char) :
    ((toString n).toList ++ ':' :: rest).takeWhile (· ≠ ':') = (toString n).toList := by
  have hcolon : ∀ c ∈ (toString n).toList, decide (c ≠ ':') = true := by
    rintro c hc
    rcases isDigit_of_mem_decimal hc with hdigit | rfl
    · refine decide_eq_true ?_
      rintro rfl
      cases hdigit
    · rfl
  rw [List.takeWhile_append_of_pos hcolon, List.takeWhile_cons_of_neg (by simp), List.append_nil]

theorem delivery_run (id : Int) (status conclusion : Option String) :
    ∃ rest, (delivery ⟨⟨.run, id⟩, status, conclusion⟩).toList =
      "etag:".toList ++ ((toString id).toList ++ ':' :: rest) := by
  refine ⟨(text status).toList ++ ':' :: (text conclusion).toList, ?_⟩
  simp [delivery, Kind.tag, String.toList_append]

theorem delivery_job (id : Int) (status conclusion : Option String) :
    ∃ rest, (delivery ⟨⟨.job, id⟩, status, conclusion⟩).toList =
      "etag:".toList ++ 'j' :: 'o' :: 'b' :: ':' :: ((toString id).toList ++ ':' :: rest) := by
  refine ⟨(text status).toList ++ ':' :: (text conclusion).toList, ?_⟩
  simp [delivery, Kind.tag, String.toList_append]

theorem delivery_subject (h : delivery x = delivery y) : x.subject = y.subject := by
  obtain ⟨⟨kind, id⟩, status, conclusion⟩ := x
  obtain ⟨⟨kind', id'⟩, status', conclusion'⟩ := y
  have hids : ∀ a b, (toString id).toList ++ ':' :: a = (toString id').toList ++ ':' :: b →
      id = id' := fun a b hab => by
    have hdigits := congrArg (List.takeWhile (· ≠ ':')) hab
    rw [takeWhile_decimal, takeWhile_decimal] at hdigits
    exact decimal_inj hdigits
  have hlist := congrArg String.toList h
  cases kind with
  | run =>
    obtain ⟨rest, hx⟩ := delivery_run id status conclusion
    rw [hx] at hlist
    cases kind' with
    | run =>
      obtain ⟨rest', hy⟩ := delivery_run id' status' conclusion'
      rw [hy] at hlist
      rw [hids _ _ (List.append_cancel_left hlist)]
    | job =>
      obtain ⟨rest', hy⟩ := delivery_job id' status' conclusion'
      rw [hy] at hlist
      exact absurd (List.append_cancel_left hlist) (decimal_ne_letter 'j' rfl (by decide))
  | job =>
    obtain ⟨rest, hx⟩ := delivery_job id status conclusion
    rw [hx] at hlist
    cases kind' with
    | run =>
      obtain ⟨rest', hy⟩ := delivery_run id' status' conclusion'
      rw [hy] at hlist
      exact absurd (List.append_cancel_left hlist).symm (decimal_ne_letter 'j' rfl (by decide))
    | job =>
      obtain ⟨rest', hy⟩ := delivery_job id' status' conclusion'
      rw [hy] at hlist
      have htail := List.append_cancel_left hlist
      simp only [List.cons.injEq, true_and] at htail
      rw [hids _ _ htail]

theorem stallKey_ne_delivery (jobId : Int) (x : Sighting) : stallKey jobId ≠ delivery x := by
  intro h
  obtain ⟨⟨kind, id⟩, status, conclusion⟩ := x
  have hstall : "etag:stall:".toList = "etag:".toList ++ 's' :: "tall:".toList := by decide
  have hlist := congrArg String.toList h
  rw [stallKey, String.toList_append, hstall, List.append_assoc] at hlist
  cases kind with
  | run =>
    obtain ⟨rest, hx⟩ := delivery_run id status conclusion
    rw [hx] at hlist
    exact absurd (List.append_cancel_left hlist).symm (decimal_ne_letter 's' rfl (by decide))
  | job =>
    obtain ⟨rest, hx⟩ := delivery_job id status conclusion
    rw [hx] at hlist
    have hhead := (List.cons.inj (List.append_cancel_left hlist)).1
    exact absurd hhead (by decide)

end Keys

section Tracking

/-- What a poll inserts is a row for the sighting, under the sighting's delivery id. -/
structure Writes (event : EventInsert) (x : Option Sighting) : Prop where
  key : ∀ y ∈ x, event.deliveryId = delivery y
  foreign : x = none → ∀ y, event.deliveryId ≠ delivery y
  row : ∀ eventId row seq, event.row eventId = .ok row → sightingOf { row with seq } = x

/-- The rows behind those of the start show what the polls have reported, but for repetitions. -/
structure Tracks (old : List Row) (store : Store) (polled : List Sighting) : Prop where
  keys : ∀ x, delivery x ∈ store.rows.map (·.deliveryId) ↔ delivery x ∈ polled.map delivery
  rows : ∃ new, store.rows = old ++ new ∧ new.filterMap sightingOf = firsts delivery polled

variable {old : List Row} {store t : Store} {polled : List Sighting} {p : Poller}

theorem runEvent_writes (owner repo : String) (receivedAt : Int) (run : Item) (id : Int) :
    Writes (runEvent owner repo receivedAt run id)
      (some ⟨⟨.run, id⟩, run.status, run.conclusion⟩) := by
  refine ⟨fun y hy => by rw [← Option.some.inj hy]; rfl, nofun, fun eventId row seq hrow => ?_⟩
  obtain ⟨runId, receivedAt, jobId, parentRunId, hrun, -, -, -, rfl⟩ := event_row hrow
  obtain ⟨k, rfl, rfl⟩ := toSqlInt?_some hrun
  rfl

theorem jobEvent_writes (owner repo : String) (runId receivedAt : Int) (job : Item) (id : Int) :
    Writes (jobEvent owner repo runId receivedAt job id)
      (some ⟨⟨.job, id⟩, job.status, job.conclusion⟩) := by
  refine ⟨fun y hy => by rw [← Option.some.inj hy]; rfl, nofun, fun eventId row seq hrow => ?_⟩
  obtain ⟨runId, receivedAt, jobId, parentRunId, -, -, hjob, -, rfl⟩ := event_row hrow
  obtain ⟨k, rfl, rfl⟩ := toSqlInt?_some hjob
  have hkey := (stallKey_ne_delivery k.val ⟨⟨.job, k.val⟩, job.status, job.conclusion⟩).symm
  simp [sightingOf, subjectOf, jobEvent, hkey]

theorem stallEvent_writes (receivedAt : Int) (stall : Stall) :
    Writes (stallEvent receivedAt stall) none := by
  refine ⟨nofun, fun _ => stallKey_ne_delivery stall.jobId, fun eventId row seq hrow => ?_⟩
  obtain ⟨runId, receivedAt, jobId, parentRunId, -, -, hjob, -, rfl⟩ := event_row hrow
  obtain ⟨k, rfl, hk⟩ := toSqlInt?_some hjob
  simp [sightingOf, subjectOf, stallEvent, hk]

theorem Tracks.insert (h : Tracks old store polled) {event : EventInsert} {eventId : Ulid}
    {inserted : Bool} (hinsert : store.insertEvent event eventId = .ok (inserted, t))
    (hid : eventId ∉ store.rows.filterMap (·.eventId)) {x : Option Sighting}
    (hwrites : Writes event x) : Tracks old t (polled ++ x.toList) := by
  obtain ⟨hkeys, new, hrows, hnew⟩ := h
  obtain ⟨row, hrow, -, hrowKey, ht⟩ := insertEvent_rows hinsert hid
  have hview := hwrites.row eventId row (store.lastSeq + 1) hrow
  cases x with
  | none =>
    have hforeign := hwrites.foreign rfl
    rw [Option.toList_none, List.append_nil]
    split at ht
    · exact ⟨by rwa [ht], new, by rw [ht, hrows], hnew⟩
    · refine ⟨fun y => ?_, new ++ [{ row with seq := store.lastSeq + 1 }], ?_, ?_⟩
      · rw [ht, List.map_append, List.mem_append, hkeys]
        simp [hrowKey, (hforeign y).symm]
      · rw [ht, hrows, List.append_assoc]
      · rw [List.filterMap_append, hnew, List.filterMap_cons_none hview]
        simp
  | some x =>
    have hkey := hwrites.key x rfl
    rw [Option.toList_some]
    split at ht
    · rename_i hknown
      rw [hrowKey, hkey, hkeys] at hknown
      refine ⟨fun y => ?_, new, by rw [ht, hrows], by rw [hnew, firsts_concat_known hknown]⟩
      rw [ht, hkeys, List.map_append, List.mem_append]
      refine ⟨.inl, fun hy => hy.elim id fun hy => ?_⟩
      rwa [List.mem_singleton.mp hy]
    · rename_i hfresh
      rw [hrowKey, hkey, hkeys] at hfresh
      refine ⟨fun y => ?_, new ++ [{ row with seq := store.lastSeq + 1 }], ?_, ?_⟩
      · rw [ht, List.map_append, List.map_append, List.mem_append, List.mem_append, hkeys]
        simp [hrowKey, hkey]
      · rw [ht, hrows, List.append_assoc]
      · rw [List.filterMap_append, hnew, List.filterMap_cons_some hview, firsts_concat_new hfresh]
        rfl

/-- The ids of a transaction are new to the table, and the rest of them still are after an
insert. -/
theorem NewIds.tail {entry : EventInsert × Ulid} {batch : List (EventInsert × Ulid)}
    {inserted : Bool} (h : NewIds store ((entry :: batch).map (·.2)))
    (hinsert : store.insertEvent entry.1 entry.2 = .ok (inserted, t)) :
    entry.2 ∉ store.rows.filterMap (·.eventId) ∧ NewIds t (batch.map (·.2)) := by
  rw [NewIds, List.map_cons] at h
  have hid : entry.2 ∉ store.rows.filterMap (·.eventId) := fun hmem =>
    (List.nodup_append.mp h).2.2 _ hmem _ List.mem_cons_self rfl
  refine ⟨hid, ?_⟩
  obtain ⟨row, -, hrow, -, hrows⟩ := insertEvent_rows hinsert hid
  rw [NewIds, hrows]
  split
  · exact h.sublist ((List.sublist_cons_self _ _).append_left _)
  · simpa [List.filterMap_append, hrow] using h

theorem insertAll_keys {batch : List (EventInsert × Ulid)} {count : Nat}
    (hall : store.insertAll batch = .ok (count, t)) (hids : NewIds store (batch.map (·.2))) :
    store.rows.map (·.deliveryId) ⊆ t.rows.map (·.deliveryId) ∧
      ∀ entry ∈ batch, entry.1.deliveryId ∈ t.rows.map (·.deliveryId) := by
  induction batch generalizing store count with
  | nil =>
    cases hall
    exact ⟨List.Subset.refl _, fun entry hentry => absurd hentry List.not_mem_nil⟩
  | cons head rest ih =>
    obtain ⟨inserted, u, count', hinsert, hrest, -⟩ := insertAll_cons hall
    obtain ⟨hid, hnew⟩ := hids.tail hinsert
    obtain ⟨row, -, -, hkey, hrows⟩ := insertEvent_rows hinsert hid
    obtain ⟨hkept, hstored⟩ := ih hrest hnew
    have hu : store.rows.map (·.deliveryId) ⊆ u.rows.map (·.deliveryId) ∧
        head.1.deliveryId ∈ u.rows.map (·.deliveryId) := by
      rw [hrows, ← hkey]
      split
      · rename_i hknown
        exact ⟨List.Subset.refl _, hknown⟩
      · rw [List.map_append]
        exact ⟨List.subset_append_left _ _, List.mem_append_right _ List.mem_cons_self⟩
    refine ⟨List.Subset.trans hu.1 hkept, fun entry hentry => ?_⟩
    rcases List.mem_cons.mp hentry with rfl | hentry
    · exact hkept hu.2
    · exact hstored entry hentry

theorem Tracks.insertAll (h : Tracks old store polled) {batch : List (EventInsert × Ulid)}
    {xs : List (Option Sighting)} {count : Nat} (hall : store.insertAll batch = .ok (count, t))
    (hids : NewIds store (batch.map (·.2)))
    (hwrites : List.Forall₂ (fun entry x => Writes entry.1 x) batch xs) :
    Tracks old t (polled ++ xs.reduceOption) := by
  induction hwrites generalizing store polled count with
  | nil =>
    cases hall
    simpa using h
  | @cons entry x batch xs hentry _ ih =>
    obtain ⟨inserted, u, count', hinsert, hrest, -⟩ := insertAll_cons hall
    obtain ⟨hid, hnew⟩ := hids.tail hinsert
    have hall := ih (h.insert hinsert hid hentry) hrest hnew
    cases x <;> simpa [List.reduceOption_cons_of_none, List.reduceOption_cons_of_some] using hall

theorem reduceOption_some (xs : List Sighting) : (xs.map some).reduceOption = xs := by
  simp [List.reduceOption]

theorem reduceOption_none (n : Nat) :
    (List.replicate n (none : Option Sighting)).reduceOption = [] := by
  simp [List.reduceOption_replicate_none]

theorem batchOf_writes {event : Item → Int → EventInsert} {kind : Kind}
    (hevent : ∀ item id, Writes (event item id) (some ⟨⟨kind, id⟩, item.status, item.conclusion⟩))
    (items : List (Item × Ulid)) :
    List.Forall₂ (fun entry x => Writes entry.1 x) (batchOf event items)
      ((sightings kind items).map some) := by
  induction items with
  | nil => exact .nil
  | cons item rest ih =>
    rw [batchOf, sightings, List.filterMap_cons, List.filterMap_cons]
    cases item.1.id with
    | none => exact ih
    | some id => exact .cons (hevent item.1 id) ih

theorem batchOf_ids (event : Item → Int → EventInsert) (items : List (Item × Ulid)) :
    ((batchOf event items).map (·.2)).Sublist (items.map (·.2)) := by
  induction items with
  | nil => exact List.Sublist.refl _
  | cons item rest ih =>
    rw [batchOf, List.filterMap_cons]
    cases item.1.id with
    | none => exact ih.cons _
    | some id => exact ih.cons_cons _

theorem Tracks.poll (h : Tracks old store polled) {event : Item → Int → EventInsert} {kind : Kind}
    (hevent : ∀ item id, Writes (event item id) (some ⟨⟨kind, id⟩, item.status, item.conclusion⟩))
    {items : List (Item × Ulid)} (hids : NewIds store (items.map (·.2))) {count : Nat}
    (hall : store.insertAll (batchOf event items) = .ok (count, t)) :
    Tracks old t (polled ++ sightings kind items) := by
  have hids : NewIds store ((batchOf event items).map (·.2)) :=
    hids.sublist ((batchOf_ids event items).append_left _)
  have hall := h.insertAll hall hids (batchOf_writes hevent items)
  rwa [reduceOption_some] at hall

theorem Tracks.stall (h : Tracks old store polled) {receivedAt : Int}
    {stalls : List (Stall × Ulid)} (hids : NewIds store (stalls.map (·.2))) {count : Nat}
    (hall : emitStalls store receivedAt stalls = .ok (count, t)) :
    Tracks old t (polled ++ []) := by
  have hwrites : List.Forall₂ (fun (entry : EventInsert × Ulid) x => Writes entry.1 x)
      (stalls.map fun stall => (stallEvent receivedAt stall.1, stall.2))
      (List.replicate stalls.length none) := by
    clear hids hall
    induction stalls with
    | nil => exact .nil
    | cons stall rest ih => exact .cons (stallEvent_writes receivedAt stall.1) ih
  have hall := h.insertAll hall (by simpa [Function.comp_def] using hids) hwrites
  rwa [reduceOption_none] at hall

theorem tracked (h : Reachable polling p) : ∃ old, Tracks old p.store p.polled := by
  refine h.invariant (I := fun q => ∃ old, Tracks old q.store q.polled)
    (fun q hq => ⟨q.store.rows, ?_⟩) fun q act r _ ⟨old, hold⟩ _ hstep => ⟨old, ?_⟩
  · obtain ⟨hnil, hforeign⟩ := hq
    refine ⟨fun x => ?_, [], by simp, by rw [hnil]; rfl⟩
    rw [hnil]
    refine ⟨fun hx => ?_, nofun⟩
    obtain ⟨row, hrow, hkey⟩ := List.mem_map.mp hx
    exact absurd hkey (hforeign row hrow x)
  · have hcommit : ∀ ids result seen, q.commit ids result seen = some r → NewIds q.store ids ∧
        ∃ count, result = .ok (count, r.store) ∧ r.polled = q.polled ++ seen := by
      intro ids result seen hr
      unfold Poller.commit at hr
      split at hr
      · rename_i hids
        split at hr
        · rw [← Option.some.inj hr]
          exact ⟨hids, _, rfl, rfl⟩
        · cases hr
      · cases hr
    cases act with
    | runs owner repo receivedAt runs =>
      obtain ⟨hids, count, hall, hpolled⟩ := hcommit _ _ _ hstep
      rw [hpolled]
      exact hold.poll (runEvent_writes owner repo receivedAt) hids hall
    | jobs owner repo runId receivedAt jobs =>
      obtain ⟨hids, count, hall, hpolled⟩ := hcommit _ _ _ hstep
      rw [hpolled]
      exact hold.poll (jobEvent_writes owner repo runId receivedAt) hids hall
    | stalls receivedAt stalls =>
      obtain ⟨hids, count, hall, hpolled⟩ := hcommit _ _ _ hstep
      rw [hpolled]
      exact hold.stall hids hall

theorem subject_sighting {row : Row} {x : Sighting} (h : sightingOf row = some x) :
    subjectOf row = some x.subject ∧ x.status = row.status ∧ x.conclusion = row.conclusion := by
  obtain ⟨subject, hsubject, rfl⟩ := Option.map_eq_some_iff.mp h
  exact ⟨hsubject, rfl, rfl⟩

/-- The newest row of a run or a job that the polls have reported is its last new sighting. -/
theorem Tracks.newest (h : Tracks old store polled) {x : Sighting} (hx : x ∈ polled) :
    (Compaction.newest subjectOf x.subject store.rows).bind sightingOf =
      lastSeen x.subject (firsts delivery polled) := by
  obtain ⟨-, new, hrows, hnew⟩ := h
  have hview : (Compaction.newest subjectOf x.subject new).bind sightingOf =
      Compaction.newest (fun y : Sighting => some y.subject) x.subject (new.filterMap sightingOf) :=
    newest_view new (fun row y hy => (subject_sighting hy).1)
      fun row hrow => Option.map_eq_none_iff.mp hrow
  have hsome : Compaction.newest subjectOf x.subject new ≠ none := by
    -- A first sighting under the delivery id of `x` is a row of the run or job of `x`.
    have hkey : delivery x ∈ (firsts delivery polled).map delivery :=
      mem_keys_firsts.mpr (List.mem_map_of_mem hx)
    obtain ⟨y, hy, heq⟩ := List.mem_map.mp hkey
    rw [← hnew] at hy
    obtain ⟨row, hrow, hsight⟩ := List.mem_filterMap.mp hy
    intro hnone
    refine newest_eq_none.mp hnone row hrow ?_
    rw [(subject_sighting hsight).1, delivery_subject heq]
  rw [hrows, newest_append]
  cases hnewest : Compaction.newest subjectOf x.subject new with
  | none => exact absurd hnewest hsome
  | some row =>
    rw [Option.some_or, ← hnewest, hview, hnew]
    rfl

/-- The newest row of a run or a job shows what the polls last reported of it exactly when its last
sighting that was no repetition is of the same status and conclusion. -/
theorem polled_state_shown (h : Reachable polling p) {subject : Subject} {x : Sighting}
    (hx : lastSeen subject p.polled = some x) : Shows p.store x ↔ LastNew p.polled x := by
  obtain ⟨old, htracks⟩ := tracked h
  have hnewest := htracks.newest (mem_of_newest hx).1
  rw [Shows, LastNew, ← hnewest]
  constructor
  · rintro ⟨row, hrow, hstatus, hconclusion⟩
    have hsubject := (mem_of_newest hrow).2
    refine ⟨⟨x.subject, row.status, row.conclusion⟩, ?_, hstatus, hconclusion⟩
    rw [show Compaction.newest subjectOf x.subject p.store.rows = some row from hrow,
      Option.bind_some, sightingOf, hsubject]
    rfl
  · rintro ⟨y, hy, hstatus, hconclusion⟩
    obtain ⟨row, hrow, hsight⟩ := Option.bind_eq_some_iff.mp hy
    obtain ⟨-, hstatus', hconclusion'⟩ := subject_sighting hsight
    exact ⟨row, hrow, hstatus'.symm.trans hstatus, hconclusion'.symm.trans hconclusion⟩

end Tracking

section Samples

instance (store : Store) (x : Sighting) : Decidable (Shows store x) :=
  inferInstanceAs (Decidable (∃ row ∈ newest subjectOf x.subject store.rows,
    row.status = x.status ∧ row.conclusion = x.conclusion))

def sampleItem (status : String) (conclusion : Option String) : Item :=
  ⟨some 7, some "ci", some "main", some "abc", some status, conclusion, "{}"⟩

def samplePoll (n : Nat) (status : String) (conclusion : Option String) : Act :=
  .runs "owner" "repo" (nsReceivedAtMin + n) [(sampleItem status conclusion, ulidAt n)]

theorem samplePoller_init : polling.init ⟨.empty, []⟩ :=
  ⟨rfl, fun _ hrow => absurd hrow List.not_mem_nil⟩

/-- A run of CI that is polled until it has failed. -/
theorem polled_state_shown_run : ∃ (p : Poller) (x : Sighting), x.conclusion = some "failure" ∧
    Shows p.store x ∧ (Shows p.store x ↔ LastNew p.polled x) := by
  obtain ⟨p, hrun, x, hx, hconclusion, hshows⟩ : ∃ p ∈ polling.exec ⟨.empty, []⟩
      [samplePoll 1 "queued" none, samplePoll 2 "in_progress" none,
        samplePoll 3 "completed" (some "failure")],
      ∃ x ∈ lastSeen ⟨.run, 7⟩ p.polled, x.conclusion = some "failure" ∧ Shows p.store x := by
    decide +kernel
  have hreach : Reachable polling p := Reachable.exec (.start samplePoller_init) hrun
  exact ⟨p, x, hconclusion, hshows, polled_state_shown hreach hx⟩

/-- A run of CI that has failed is started again: the newest row still shows the failure. -/
theorem rerun_hidden : ∃ p, Reachable polling p ∧ ∃ x ∈ lastSeen ⟨.run, 7⟩ p.polled,
    x.status = some "queued" ∧ ¬Shows p.store x := by
  obtain ⟨p, hrun, hhidden⟩ : ∃ p ∈ polling.exec ⟨.empty, []⟩
      [samplePoll 1 "queued" none, samplePoll 2 "completed" (some "failure"),
        samplePoll 3 "queued" none],
      ∃ x ∈ lastSeen ⟨.run, 7⟩ p.polled, x.status = some "queued" ∧ ¬Shows p.store x := by
    decide +kernel
  exact ⟨p, Reachable.exec (.start samplePoller_init) hrun, hhidden⟩

end Samples

end Waitbus.Polling
