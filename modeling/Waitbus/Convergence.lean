import Waitbus.PollCycle

/-! What polls alone bring of a run whose jobs go on while it is polled. The jobs of a run are asked
for as long as the table has the run as unfinished, so that the last states of its jobs are stored
where an answer has shown them before one shows the run completed. -/

namespace Waitbus.Convergence
open Python FrameCodec EventStore Dedup Runs McpReads Polling PollCycle

section Model

/-- The state of a run or a job; a status is a word. -/
structure Progress where
  status : Option String
  conclusion : Option String
  word : ':' ∉ (text status).toList
  deriving DecidableEq

def Progress.completed (p : Progress) : Bool :=
  p.status = some "completed"

abbrev Api := Subject → Option Progress

/-- The poller of one repository and the API, with the sightings of the answers that were stored,
and the stall rows of jobs that the API had completed by then. -/
structure World where
  poller : PollCycle.Poller
  api : Api
  seen : List Sighting
  late : List Row

inductive Act where
  | advance (subject : Subject) (progress : Progress)
  | poll (act : PollCycle.Act)

def Current (api : Api) (x : Sighting) : Prop :=
  ∃ p ∈ api x.subject, p.status = x.status ∧ p.conclusion = x.conclusion

instance (api : Api) (x : Sighting) : Decidable (Current api x) :=
  inferInstanceAs (Decidable (∃ p ∈ api x.subject, _ ∧ _))

def shown : PollCycle.Act → List Sighting
  | .runs reply _ _ => if reply.status = 200 then sightings .run reply.items else []
  | .jobs reply _ => if reply.status = 200 then sightings .job reply.items else []
  | _ => []

def runIdsOf : Phase → List Int
  | .jobs _ _ runIds _ => runIds
  | _ => []

/-- The poller has one repository, its answers show what the API is at and the jobs of the run that
was asked for, and nothing else writes to the table. -/
def Allowed (runOf : Int → Int) (repo : Repo) (w : World) (act : PollCycle.Act) : Prop :=
  (∀ x ∈ shown act, Current w.api x ∧
    (x.subject.kind = .job → some (runOf x.subject.id) = (runIdsOf w.poller.phase).head?)) ∧
  match act with
  | .begin watched => watched = [repo]
  | .others _ => False
  | _ => True

instance (runOf : Int → Int) (repo : Repo) (w : World) :
    ∀ act, Decidable (Allowed runOf repo w act)
  | .begin _ => inferInstanceAs (Decidable (_ ∧ _ = _))
  | .others _ => isFalse And.right
  | .runs _ _ _ | .jobs _ _ | .stalls _ _ _ | .save | .cut | .abort =>
    inferInstanceAs (Decidable (_ ∧ True))

/-- The stall rows that a step has added of jobs that the API has completed. -/
def lateRows (api : Api) (before after : Store) : List Row :=
  after.rows.filter fun row => row.deliveryId ∉ keysOf before ∧ ∃ id ∈ row.jobId,
    row.deliveryId = stallKey id.val ∧ ∃ p ∈ api ⟨.job, id.val⟩, p.completed = true

def running : Phase → Bool
  | .idle => false
  | _ => true

def World.step (H : Host) (S : Stalling) (runOf : Int → Int) (repo : Repo) (w : World) :
    Act → Option World
  | .advance subject progress =>
    if ∃ p ∈ w.api subject, p.completed = true then none
    else some { w with api := Function.update w.api subject (some progress) }
  | .poll act =>
    if Allowed runOf repo w act then
      (w.poller.step H S act).map fun poller => { w with
        poller
        seen := w.seen ++ (if running poller.phase then shown act else [])
        late := w.late ++ lateRows w.api w.poller.store poller.store }
    else none

def watching (H : Host) (S : Stalling) (runOf : Int → Int) (repo : Repo) : System World Act where
  init w := (∀ row ∈ w.poller.store.rows, (row.owner ≠ repo.1 ∨ row.repo ≠ repo.2) ∧
      ∀ x, row.deliveryId ≠ delivery x) ∧
    w.poller.phase = .idle ∧ w.seen = [] ∧ w.late = []
  step := World.step H S runOf repo

def unfinished : List (Option String) :=
  [some "in_progress", some "queued"]

def Finished (seen : List Sighting) (subject : Subject) : Prop :=
  ∃ x ∈ seen, x.subject = subject ∧ x.status = some "completed"

/-- Of a run that an answer has shown completed each job that was stored unfinished is stored as it
ended, and no stall row was written for a job that the API had completed. -/
structure Converges (repo : Repo) (w : World) : Prop where
  final : ∀ runId, Finished w.seen ⟨.run, runId⟩ → ∀ e ∈ jobsOf w.poller.store repo,
    e.parentRunId.map (·.val) = some runId → e.status ∈ unfinished → ∀ id ∈ e.jobId,
    ∃ f ∈ jobsOf w.poller.store repo, f.jobId = some id ∧ ∃ p ∈ w.api ⟨.job, id.val⟩,
      p.completed = true ∧ f.status = p.status ∧ f.conclusion = p.conclusion
  inTime : w.late = []

/-- The clock has moved on since the last row, a run is shown completed only after each of its jobs
that was shown unfinished, and so is a job by the time the stalled ones are looked for. -/
def CaughtUp (runOf : Int → Int) (w : World) : Act → Prop
  | .poll (.runs reply receivedAt _) =>
    (∀ row ∈ w.poller.store.rows, row.receivedAt.val < receivedAt) ∧
    ∀ run ∈ shown (.runs reply receivedAt 0), run.status = some "completed" → ∀ x ∈ w.seen,
      x.subject.kind = .job → runOf x.subject.id = run.subject.id → x.status ∈ unfinished →
        Finished w.seen x.subject
  | .poll (.jobs _ receivedAt) => ∀ row ∈ w.poller.store.rows, row.receivedAt.val < receivedAt
  | .poll (.stalls _ _ _) => ∀ x ∈ w.seen, x.subject.kind = .job → x.status ∈ unfinished →
      (∃ p ∈ w.api x.subject, p.completed = true) → Finished w.seen x.subject
  | _ => True

end Model

section Rows

variable {H : Host} {runOf : Int → Int} {repo : Repo} {old new : List Row} {store t : Store}
  {seen more : List Sighting} {api : Api} {x y : Sighting}

/-- A row that the poller wrote of the repository. -/
structure Polled (runOf : Int → Int) (repo : Repo) (row : Row) : Prop where
  owner : row.owner = repo.1
  repo : row.repo = repo.2
  stalled : sightingOf row = none → row.status = some "stalled"
  parent : ∀ x ∈ sightingOf row, x.subject.kind = .job →
    row.parentRunId.map (·.val) = some (runOf x.subject.id)

/-- The rows of the repository are those of the sightings, each that shows an end received after
those that do not. -/
structure Follows (runOf : Int → Int) (repo : Repo) (old new : List Row) (store : Store)
    (seen : List Sighting) (api : Api) : Prop where
  table : store.rows = old ++ new
  tracks : Tracks old store seen
  apart : ∀ row ∈ old, row.owner ≠ repo.1 ∨ row.repo ≠ repo.2
  polled : ∀ row ∈ new, Polled runOf repo row
  current : ∀ x ∈ seen, x.status = some "completed" → Current api x
  words : ∀ x ∈ seen, ':' ∉ (text x.status).toList
  ordered : ∀ e ∈ new, ∀ f ∈ new, ∀ x ∈ sightingOf e, ∀ y ∈ sightingOf f,
    x.subject = y.subject → x.status ∈ unfinished → y.status = some "completed" →
      e.receivedAt.val < f.receivedAt.val

theorem not_completed (h : x.status ∈ unfinished) : x.status ≠ some "completed" := by
  intro hcompleted
  rw [hcompleted] at h
  exact absurd h (by decide)

theorem current_status (hx : Current api x) (hy : Current api y) (h : x.subject = y.subject) :
    x.status = y.status := by
  obtain ⟨p, hp, hstatus, -⟩ := hx
  obtain ⟨q, hq, hstatus', -⟩ := hy
  rw [h, Option.mem_def.mp hq] at hp
  obtain rfl := Option.some.inj hp
  exact hstatus.symm.trans hstatus'

theorem Current.word (h : Current api x) : ':' ∉ (text x.status).toList := by
  obtain ⟨p, -, hstatus, -⟩ := h
  exact hstatus ▸ p.word

theorem completed_of_delivery (hx : ':' ∉ (text x.status).toList)
    (hy : ':' ∉ (text y.status).toList) (h : delivery x = delivery y)
    (hcompleted : x.status = some "completed") : y.status = some "completed" := by
  have hsubject := delivery_subject h
  have hcolon : ∀ z : Sighting, ':' ∉ (text z.status).toList →
      ∀ tail, ((text z.status).toList ++ ':' :: tail).takeWhile (· ≠ ':') =
        (text z.status).toList := by
    intro z hz tail
    have hpos : ∀ c ∈ (text z.status).toList, decide (c ≠ ':') = true := by
      intro c hc
      refine decide_eq_true ?_
      rintro rfl
      exact hz hc
    rw [List.takeWhile_append_of_pos hpos, List.takeWhile_cons_of_neg (by simp), List.append_nil]
  have hlist := congrArg String.toList h
  simp only [delivery, hsubject, String.toList_append, List.append_assoc] at hlist
  have htail := List.append_cancel_left (List.append_cancel_left (List.append_cancel_left
    (List.append_cancel_left hlist)))
  have htext := congrArg (List.takeWhile (· ≠ ':')) htail
  change List.takeWhile _ ((text x.status).toList ++ ':' :: _) =
    List.takeWhile _ ((text y.status).toList ++ ':' :: _) at htext
  rw [hcolon x hx, hcolon y hy, hcompleted] at htext
  cases hstatus : y.status with
  | none =>
    rw [hstatus] at htext
    exact absurd htext (by decide)
  | some status =>
    rw [hstatus] at htext
    exact congrArg some (String.toList_injective (htext : "completed".toList = status.toList)).symm

theorem Follows.new_of_repo (h : Follows runOf repo old new store seen api) {row : Row}
    (hrow : row ∈ store.rows) (howner : row.owner = repo.1) (hrepo : row.repo = repo.2) :
    row ∈ new := by
  rw [h.table] at hrow
  refine (List.mem_append.mp hrow).resolve_left fun hold => ?_
  exact (h.apart row hold).elim (absurd howner) (absurd hrepo)

theorem Follows.sightings_new (h : Follows runOf repo old new store seen api) :
    new.filterMap sightingOf = firsts delivery seen := by
  obtain ⟨new', hrows, hfirsts⟩ := h.tracks.rows
  rwa [List.append_cancel_left (h.table.symm.trans hrows)]

theorem Follows.mem_seen (h : Follows runOf repo old new store seen api) {row : Row}
    (hrow : row ∈ new) (hx : sightingOf row = some x) : x ∈ seen := by
  have hmem := List.mem_filterMap.mpr ⟨row, hrow, hx⟩
  rw [h.sightings_new] at hmem
  exact firsts_subset hmem

theorem Follows.stored (h : Follows runOf repo old new store seen api) {subject : Subject}
    (hfinished : Finished seen subject) : ∃ f ∈ new, ∃ y, sightingOf f = some y ∧
      y.subject = subject ∧ y.status = some "completed" := by
  obtain ⟨x, hx, rfl, hcompleted⟩ := hfinished
  have hkey := mem_keys_firsts.mpr (List.mem_map_of_mem (f := delivery) hx)
  rw [← h.sightings_new] at hkey
  obtain ⟨y, hy, hdelivery⟩ := List.mem_map.mp hkey
  obtain ⟨f, hf, hsight⟩ := List.mem_filterMap.mp hy
  exact ⟨f, hf, y, hsight, delivery_subject hdelivery, completed_of_delivery (h.words x hx)
    (h.words y (h.mem_seen hf hsight)) hdelivery.symm hcompleted⟩

theorem sightingOf_run {row : Row} (hsight : sightingOf row = some x)
    (hkind : x.subject.kind = .run) : row.eventType = "workflow_run" ∧
      row.runId.map (·.val) = some x.subject.id := by
  obtain ⟨hsubject, -, -⟩ := subject_sighting hsight
  rw [subjectOf] at hsubject
  split at hsubject
  · rename_i htype
    obtain ⟨id, hid, heq⟩ := Option.map_eq_some_iff.mp hsubject
    rw [hid, ← heq]
    exact ⟨htype, rfl⟩
  · split at hsubject
    · split at hsubject
      · cases hsubject
      · split at hsubject
        · cases hsubject
        · rw [← Option.some.inj hsubject] at hkind
          cases hkind
    · cases hsubject

theorem sightingOf_job {row : Row} (hsight : sightingOf row = some x)
    (hkind : x.subject.kind = .job) : row.eventType = "workflow_job" ∧
      row.jobId.map (·.val) = some x.subject.id := by
  obtain ⟨hsubject, -, -⟩ := subject_sighting hsight
  rw [subjectOf] at hsubject
  split at hsubject
  · obtain ⟨id, -, heq⟩ := Option.map_eq_some_iff.mp hsubject
    rw [← heq] at hkind
    cases hkind
  · split at hsubject
    · rename_i htype
      split at hsubject
      · cases hsubject
      · rename_i id hid
        split at hsubject
        · cases hsubject
        · rw [hid, ← Option.some.inj hsubject]
          exact ⟨htype, rfl⟩
    · cases hsubject

theorem Follows.not_asked (h : Follows runOf repo old new store seen api) {now runId : Int}
    (hasked : runId ∈ inProgressRunIds H store repo now) : ¬Finished seen ⟨.run, runId⟩ := by
  intro hfinished
  obtain ⟨f, hf, y, hsightF, hsubjectF, hcompleted⟩ := h.stored hfinished
  obtain ⟨e, he, hrunId⟩ := List.mem_filterMap.mp hasked
  obtain ⟨he, hstatus⟩ := List.mem_filter.mp he
  have hperm := H.sort_perm newestFirst (runsOf store repo (now - recencyWindowNs))
  have hsorted := sort_newestFirst H (runsOf store repo (now - recencyWindowNs))
  obtain ⟨hrow, hread⟩ := List.mem_filter.mp (hperm.mem_iff.mp (firsts_subset he))
  obtain ⟨htype, howner, hrepo, -, hcutoff⟩ := of_decide_eq_true hread
  have hnew := h.new_of_repo hrow howner hrepo
  have hsight : sightingOf e = some ⟨⟨.run, runId⟩, e.status, e.conclusion⟩ := by
    rw [sightingOf, subjectOf, if_pos htype]
    obtain ⟨id, hid, rfl⟩ := Option.map_eq_some_iff.mp hrunId
    rw [hid]
    rfl
  have hlt := h.ordered e hnew f hf _ hsight y hsightF hsubjectF.symm
    (of_decide_eq_true hstatus) hcompleted
  obtain ⟨htypeF, hrunF⟩ := sightingOf_run hsightF (by rw [hsubjectF])
  have hsame : f.runId = e.runId := by
    obtain ⟨idF, hidF, hvalF⟩ := Option.map_eq_some_iff.mp hrunF
    obtain ⟨idE, hidE, hvalE⟩ := Option.map_eq_some_iff.mp hrunId
    rw [hidF, hidE, Subtype.ext (hvalF.trans ((congrArg Subject.id hsubjectF).trans hvalE.symm))]
  have hfRead : f ∈ runsOf store repo (now - recencyWindowNs) := by
    refine List.mem_filter.mpr ⟨h.table ▸ List.mem_append_right _ hf, decide_eq_true
      ⟨htypeF, (h.polled f hf).owner, (h.polled f hf).repo, ?_, hcutoff.trans hlt⟩⟩
    obtain ⟨id, hid, -⟩ := Option.map_eq_some_iff.mp hrunF
    rw [hid]
    rfl
  rcases firsts_before hsorted he (hperm.mem_iff.mpr hfRead) hsame with rfl | hbefore
  · exact absurd hlt (lt_irrefl _)
  · exact absurd hlt hbefore.not_gt

theorem mem_sightings {kind : Kind} {items : List (Item × Ulid)} (h : x ∈ sightings kind items) :
    x.subject.kind = kind := by
  obtain ⟨item, -, hsome⟩ := List.mem_filterMap.mp h
  obtain ⟨id, -, rfl⟩ := Option.map_eq_some_iff.mp hsome
  rfl

/-- What an event of the poller's is stored as. -/
structure Reports (runOf : Int → Int) (repo : Repo) (receivedAt : Int) (event : EventInsert)
    (x : Sighting) : Prop where
  writes : Writes event (some x)
  owner : event.owner = repo.1
  repo : event.repo = repo.2
  time : event.receivedAt = receivedAt
  parent : x.subject.kind = .job → event.parentRunId = some (runOf x.subject.id)

theorem Reports.polled {event : EventInsert} {receivedAt : Int}
    (h : Reports runOf repo receivedAt event x) {eventId : Ulid} {stored row : Row}
    (hstored : event.row eventId = .ok stored) (hrow : row = { stored with seq := row.seq }) :
    Polled runOf repo row ∧ sightingOf row = some x ∧ row.receivedAt.val = receivedAt := by
  have hsight : sightingOf row = some x := by
    rw [hrow]
    exact h.writes.row eventId stored row.seq hstored
  have hsame : row.receivedAt = stored.receivedAt := by rw [hrow]
  have htime : row.receivedAt.val = receivedAt := by
    rw [hsame, ← h.time]
    exact row_receivedAt hstored
  refine ⟨⟨?_, ?_, fun hnone => ?_, fun y hy hkind => ?_⟩, hsight, htime⟩
  · obtain ⟨_, _, _, _, -, -, -, -, rfl⟩ := event_row hstored
    rw [hrow]
    exact h.owner
  · obtain ⟨_, _, _, _, -, -, -, -, rfl⟩ := event_row hstored
    rw [hrow]
    exact h.repo
  · rw [hsight] at hnone
    nomatch hnone
  · obtain rfl := Option.some.inj (hsight.symm.trans hy)
    obtain ⟨_, _, _, _, -, -, -, hparent, rfl⟩ := event_row hstored
    rw [h.parent hkind] at hparent
    obtain ⟨k, rfl, hk⟩ := toSqlInt?_some hparent
    rw [hrow]
    exact congrArg some hk

theorem Follows.batch (h : Follows runOf repo old new store seen api) {kind : Kind}
    {event : Item → Int → EventInsert} {items : List (Item × Ulid)} {receivedAt : Int}
    {count : Nat} (hall : store.insertAll (batchOf event items) = .ok (count, t))
    (hids : NewIds store (items.map (·.2)))
    (hwrites : ∀ item id, Writes (event item id) (some ⟨⟨kind, id⟩, item.status, item.conclusion⟩))
    (hreports : ∀ item ∈ items, ∀ id ∈ item.1.id, Reports runOf repo receivedAt (event item.1 id)
      ⟨⟨kind, id⟩, item.1.status, item.1.conclusion⟩)
    (hclock : ∀ row ∈ store.rows, row.receivedAt.val < receivedAt)
    (hcurrent : ∀ x ∈ sightings kind items, Current api x) :
    ∃ more, t.rows = store.rows ++ more ∧ (∀ row ∈ more, ∃ x, row.deliveryId = delivery x) ∧
      Follows runOf repo old (new ++ more) t (seen ++ sightings kind items) api := by
  obtain ⟨more, hrows, -, hmore⟩ := insertAll_new hall
  have hkeys : ∀ row ∈ more, ∃ x, row.deliveryId = delivery x := by
    intro row hrow
    obtain ⟨entry, hentry, stored, hstored, heq⟩ := hmore row hrow
    obtain ⟨item, hitem, hsome⟩ := List.mem_filterMap.mp hentry
    obtain ⟨id, hid, rfl⟩ := Option.map_eq_some_iff.mp hsome
    obtain ⟨_, _, _, _, -, -, -, -, rfl⟩ := event_row hstored
    rw [heq]
    exact ⟨_, (hwrites item.1 id).key _ rfl⟩
  have hadded : ∀ row ∈ more, Polled runOf repo row ∧ row.receivedAt.val = receivedAt ∧
      ∃ x ∈ sightings kind items, sightingOf row = some x := by
    intro row hrow
    obtain ⟨entry, hentry, stored, hstored, heq⟩ := hmore row hrow
    obtain ⟨item, hitem, hsome⟩ := List.mem_filterMap.mp hentry
    obtain ⟨id, hid, rfl⟩ := Option.map_eq_some_iff.mp hsome
    obtain ⟨hpolled, hsight, htime⟩ := (hreports item hitem id hid).polled hstored heq
    exact ⟨hpolled, htime, _, List.mem_filterMap.mpr ⟨item, hitem, by rw [hid]; rfl⟩, hsight⟩
  refine ⟨more, hrows, hkeys, ?_, h.tracks.poll hwrites hids hall, h.apart, ?_, ?_, ?_, ?_⟩
  · rw [hrows, h.table, List.append_assoc]
  · intro row hrow
    exact (List.mem_append.mp hrow).elim (h.polled row) fun hrow => (hadded row hrow).1
  · intro x hx hcompleted
    exact (List.mem_append.mp hx).elim (h.current x · hcompleted) (hcurrent x)
  · intro x hx
    exact (List.mem_append.mp hx).elim (h.words x) fun hx => (hcurrent x hx).word
  · intro e he f hf x hx y hy hsubject hunfinished hcompleted
    have hcurrentY : Current api y := by
      rcases List.mem_append.mp hf with hf | hf
      · exact h.current y (h.mem_seen hf hy) hcompleted
      · obtain ⟨-, -, z, hz, hsight⟩ := hadded f hf
        obtain rfl := Option.some.inj (hsight.symm.trans hy)
        exact hcurrent z hz
    rcases List.mem_append.mp he with he | he
    · rcases List.mem_append.mp hf with hf | hf
      · exact h.ordered e he f hf x hx y hy hsubject hunfinished hcompleted
      · rw [(hadded f hf).2.1]
        exact hclock e (h.table ▸ List.mem_append_right _ he)
    · -- What is shown now is not unfinished where the API has it completed.
      obtain ⟨-, -, z, hz, hsight⟩ := hadded e he
      obtain rfl := Option.some.inj (hsight.symm.trans hx)
      have hstatus := current_status (hcurrent z hz) hcurrentY hsubject
      exact absurd (hstatus.trans hcompleted) (not_completed hunfinished)

theorem Follows.stall (h : Follows runOf repo old new store seen api) {nowNs : Int}
    {stalls : List (Stall × Ulid)} {count : Nat}
    (hall : emitStalls store nowNs stalls = .ok (count, t))
    (hids : NewIds store (stalls.map (·.2)))
    (hrepo : ∀ stall ∈ stalls, stall.1.owner = repo.1 ∧ stall.1.repo = repo.2) :
    ∃ more, t.rows = store.rows ++ more ∧
      (∀ row ∈ more, ∃ stall ∈ stalls, row.jobId.map (·.val) = some stall.1.jobId) ∧
      Follows runOf repo old (new ++ more) t seen api := by
  obtain ⟨more, hrows, -, hmore⟩ := insertAll_new hall
  have hjobs : ∀ row ∈ more, ∃ stall ∈ stalls, row.jobId.map (·.val) = some stall.1.jobId := by
    intro row hrow
    obtain ⟨entry, hentry, stored, hstored, heq⟩ := hmore row hrow
    obtain ⟨stall, hstall, rfl⟩ := List.mem_map.mp hentry
    obtain ⟨_, _, _, _, -, -, hjob, -, rfl⟩ := event_row hstored
    obtain ⟨k, rfl, hk⟩ := toSqlInt?_some hjob
    rw [heq]
    exact ⟨stall, hstall, congrArg some hk⟩
  have hadded : ∀ row ∈ more, Polled runOf repo row ∧ sightingOf row = none := by
    intro row hrow
    obtain ⟨entry, hentry, stored, hstored, heq⟩ := hmore row hrow
    obtain ⟨stall, hstall, rfl⟩ := List.mem_map.mp hentry
    have hsight : sightingOf row = none := by
      rw [heq]
      exact (stallEvent_writes nowNs stall.1).row _ _ _ hstored
    obtain ⟨_, _, _, _, -, -, -, -, rfl⟩ := event_row hstored
    refine ⟨⟨?_, ?_, fun _ => ?_, fun x hx => ?_⟩, hsight⟩
    · rw [heq]
      exact (hrepo stall hstall).1
    · rw [heq]
      exact (hrepo stall hstall).2
    · rw [heq]
      rfl
    · rw [hsight] at hx
      nomatch hx
  have hkept : ∀ row ∈ new ++ more, ∀ x ∈ sightingOf row, row ∈ new := by
    intro row hrow x hx
    refine (List.mem_append.mp hrow).resolve_right fun hrow => ?_
    rw [(hadded row hrow).2] at hx
    nomatch hx
  refine ⟨more, hrows, hjobs, ?_, ?_, h.apart, ?_, h.current, h.words, ?_⟩
  · rw [hrows, h.table, List.append_assoc]
  · have htracks := h.tracks.stall hids hall
    rwa [List.append_nil] at htracks
  · intro row hrow
    exact (List.mem_append.mp hrow).elim (h.polled row) fun hrow => (hadded row hrow).1
  · intro e he f hf x hx y hy
    exact h.ordered e (hkept e he x hx) f (hkept f hf y hy) x hx y hy

theorem Follows.advance (h : Follows runOf repo old new store seen api) {subject : Subject}
    (hopen : ¬∃ p ∈ api subject, p.completed = true) (progress : Progress) :
    Follows runOf repo old new store seen (Function.update api subject (some progress)) := by
  refine ⟨h.table, h.tracks, h.apart, h.polled, fun x hx hcompleted => ?_, h.words, h.ordered⟩
  obtain ⟨p, hp, hstatus, hconclusion⟩ := h.current x hx hcompleted
  have hne : x.subject ≠ subject := by
    rintro rfl
    exact hopen ⟨p, hp, decide_eq_true (hstatus.trans hcompleted)⟩
  refine ⟨p, ?_, hstatus, hconclusion⟩
  rwa [Function.update_of_ne hne]

theorem mem_filterMapM {α β : Type} {f : α → Except PyExc (Option β)} {xs : List α} {ys : List β}
    (h : xs.filterMapM f = .ok ys) {y : β} (hy : y ∈ ys) : ∃ x ∈ xs, f x = .ok (some y) := by
  induction xs generalizing ys with
  | nil =>
    cases h
    nomatch hy
  | cons x rest ih =>
    rw [List.filterMapM_cons] at h
    cases hx : f x with
    | error exc =>
      rw [hx] at h
      nomatch h
    | ok found =>
      cases hrest : rest.filterMapM f with
      | error exc =>
        simp only [hx, hrest, bind, Except.bind] at h
        cases found <;> nomatch h
      | ok others =>
        simp only [hx, hrest, bind, Except.bind, pure, Except.pure] at h
        cases found with
        | none =>
          obtain rfl := Except.ok.inj h
          obtain ⟨z, hz, hfz⟩ := ih hrest hy
          exact ⟨z, List.mem_cons_of_mem _ hz, hfz⟩
        | some first =>
          obtain rfl := Except.ok.inj h
          rcases List.mem_cons.mp hy with rfl | hy
          · exact ⟨x, List.mem_cons_self, hx⟩
          · obtain ⟨z, hz, hfz⟩ := ih hrest hy
            exact ⟨z, List.mem_cons_of_mem _ hz, hfz⟩

theorem stallOf_some {S : Stalling} {nowS : Int} {row : Row} {stall : Stall}
    (h : stallOf S repo nowS row = .ok (some stall)) : stall.owner = repo.1 ∧
      stall.repo = repo.2 ∧ row.jobId.map (·.val) = some stall.jobId := by
  rw [stallOf] at h
  cases hstarted : startedAt S row with
  | error exc =>
    rw [hstarted] at h
    nomatch h
  | ok started =>
    rw [hstarted] at h
    cases started with
    | none => nomatch h
    | some started =>
      cases hjob : row.jobId with
      | none =>
        rw [hjob] at h
        nomatch h
      | some jobId =>
        rw [hjob] at h
        simp only [bind, Except.bind, pure, Except.pure] at h
        split at h
        · nomatch h
        · obtain rfl := Option.some.inj (Except.ok.inj h)
          exact ⟨rfl, rfl, rfl⟩

theorem sighting_of_job {row : Row} {id : SqlInt} (htype : row.eventType = "workflow_job")
    (hid : row.jobId = some id) (hkey : row.deliveryId ≠ stallKey id.val) :
    sightingOf row = some ⟨⟨.job, id.val⟩, row.status, row.conclusion⟩ := by
  have hrun : row.eventType ≠ "workflow_run" := by
    rw [htype]
    decide
  rw [sightingOf, subjectOf, if_neg hrun, if_pos htype, hid]
  dsimp only
  rw [if_neg hkey]
  rfl

theorem Follows.not_stalled (h : Follows runOf repo old new store seen api) {nowNs : Int} {e : Row}
    (he : e ∈ stallCandidates H store repo nowNs) {id : SqlInt} (hid : e.jobId = some id)
    (hfresh : stallKey id.val ∉ keysOf store) :
    (∃ x ∈ seen, x.subject = ⟨.job, id.val⟩ ∧ x.status ∈ unfinished) ∧
      ¬Finished seen ⟨.job, id.val⟩ := by
  obtain ⟨hjob, hread⟩ := List.mem_filter.mp ((H.sort_perm _ _).mem_iff.mp he)
  obtain ⟨hstatus, hlatest⟩ := of_decide_eq_true hread
  obtain ⟨hrow, htype, howner, hrepo⟩ : e ∈ store.rows ∧ e.eventType = "workflow_job" ∧
      e.owner = repo.1 ∧ e.repo = repo.2 :=
    (List.mem_filter.mp hjob).imp_right fun hof => of_decide_eq_true hof
  have hnew := h.new_of_repo hrow howner hrepo
  have hsight := sighting_of_job htype hid fun hkey =>
    hfresh (hkey ▸ List.mem_map_of_mem (f := (·.deliveryId)) hrow)
  refine ⟨⟨_, h.mem_seen hnew hsight, rfl, hstatus⟩, fun hfinished => ?_⟩
  obtain ⟨f, hf, y, hsightF, hsubject, hcompleted⟩ := h.stored hfinished
  have hlt := h.ordered e hnew f hf _ hsight y hsightF hsubject.symm hstatus hcompleted
  obtain ⟨htypeF, hidF⟩ := sightingOf_job hsightF (by rw [hsubject])
  have hsame : f.jobId = e.jobId := by
    obtain ⟨k, hk, hval⟩ := Option.map_eq_some_iff.mp hidF
    rw [hk, hid, Subtype.ext (hval.trans (congrArg Subject.id hsubject))]
  -- The row of the end is in the window with the candidate, and later.
  rw [latestOfJob, Bool.and_eq_true, List.any_eq_true, List.all_eq_true] at hlatest
  obtain ⟨⟨r, hr, htime⟩, hall⟩ := hlatest
  obtain ⟨-, hwindow⟩ := List.mem_filter.mp hr
  obtain ⟨-, -, hcutoff⟩ := of_decide_eq_true hwindow
  rw [of_decide_eq_true htime] at hcutoff
  have hrecent : f ∈ (jobsOf store repo).filter fun row => row.jobId.isSome ∧
      row.jobId = e.jobId ∧ nowNs - recencyWindowNs < row.receivedAt.val := by
    refine List.mem_filter.mpr ⟨List.mem_filter.mpr ⟨h.table ▸ List.mem_append_right _ hf,
      decide_eq_true ⟨htypeF, (h.polled f hf).owner, (h.polled f hf).repo⟩⟩,
      decide_eq_true ⟨?_, hsame, hcutoff.trans hlt⟩⟩
    rw [hsame, hid]
    rfl
  exact absurd hlt (of_decide_eq_true (hall f hrecent)).not_gt

end Rows

section Runs

variable {H : Host} {S : Stalling} {runOf : Int → Int} {repo : Repo} {old : List Row}
  {w v : World}

def reposOf : Phase → List Repo
  | .idle => []
  | .repos _ left => left
  | .jobs _ repo _ left => repo :: left

/-- The table follows the API, and of a run shown completed every job was shown so. -/
structure Sound (runOf : Int → Int) (repo : Repo) (old : List Row) (w : World) : Prop where
  follows : ∃ new, Follows runOf repo old new w.poller.store w.seen w.api
  asked : ∀ runId ∈ runIdsOf w.poller.phase, ¬Finished w.seen ⟨.run, runId⟩
  alone : ∀ r ∈ reposOf w.poller.phase, r = repo
  ended : ∀ x ∈ w.seen, x.subject.kind = .job → x.status ∈ unfinished →
    Finished w.seen ⟨.run, runOf x.subject.id⟩ → Finished w.seen x.subject
  inTime : w.late = []

theorem finished_append {a b : List Sighting} {subject : Subject} :
    Finished (a ++ b) subject ↔ Finished a subject ∨ Finished b subject := by
  simp only [Finished, List.mem_append, or_and_right, exists_or]

theorem not_finished_of_kind {kind : Kind} {items : List (Item × Ulid)} {subject : Subject}
    (h : subject.kind ≠ kind) : ¬Finished (sightings kind items) subject := by
  rintro ⟨x, hx, rfl, -⟩
  exact h (mem_sightings hx)

theorem lateRows_of_added {api : Api} {before after : Store} {more : List Row}
    (hrows : after.rows = before.rows ++ more)
    (hmore : ∀ row ∈ more, row.deliveryId ∉ keysOf before → ∀ id ∈ row.jobId,
      row.deliveryId = stallKey id.val → ¬∃ p ∈ api ⟨.job, id.val⟩, p.completed = true) :
    lateRows api before after = [] := by
  refine List.filter_eq_nil_iff.mpr fun row hrow hlate => ?_
  obtain ⟨hnew, id, hid, hkey, hcompleted⟩ := of_decide_eq_true hlate
  rw [hrows] at hrow
  rcases List.mem_append.mp hrow with hrow | hrow
  · exact hnew (List.mem_map_of_mem hrow)
  · exact hmore row hrow hnew id hid hkey hcompleted

theorem lateRows_self {api : Api} {store : Store} : lateRows api store store = [] := by
  have hnone : store.rows = store.rows ++ [] := (List.append_nil _).symm
  exact lateRows_of_added hnone fun _ hrow => absurd hrow List.not_mem_nil

theorem Sound.same (h : Sound runOf repo old w) {poller : PollCycle.Poller}
    (hstore : poller.store = w.poller.store)
    (hasked : ∀ runId ∈ runIdsOf poller.phase, ¬Finished w.seen ⟨.run, runId⟩)
    (halone : ∀ r ∈ reposOf poller.phase, r = repo) :
    Sound runOf repo old { w with
      poller, late := w.late ++ lateRows w.api w.poller.store poller.store } := by
  refine ⟨?_, hasked, halone, h.ended, ?_⟩
  · rw [hstore]
    exact h.follows
  · rw [hstore, lateRows_self, List.append_nil]
    exact h.inTime

theorem Sound.idle (h : Sound runOf repo old w) {poller : PollCycle.Poller}
    (hstore : poller.store = w.poller.store) (hphase : poller.phase = .idle)
    {sights : List Sighting} : Sound runOf repo old { w with
      poller
      seen := w.seen ++ (if running poller.phase then sights else [])
      late := w.late ++ lateRows w.api w.poller.store poller.store } := by
  rw [hphase, running, if_neg Bool.false_ne_true, List.append_nil]
  refine h.same hstore ?_ ?_ <;> rw [hphase] <;> exact fun _ hmem => absurd hmem List.not_mem_nil

theorem Sound.answered (h : Sound runOf repo old w) {kind : Kind}
    {event : Item → Int → EventInsert} {items : List (Item × Ulid)} {receivedAt : Int}
    {count : Nat} {poller : PollCycle.Poller}
    (hall : w.poller.store.insertAll (batchOf event items) = .ok (count, poller.store))
    (hids : NewIds w.poller.store (items.map (·.2)))
    (hreports : ∀ item ∈ items, ∀ id ∈ item.1.id, Reports runOf repo receivedAt (event item.1 id)
      ⟨⟨kind, id⟩, item.1.status, item.1.conclusion⟩)
    (hwrites : ∀ item id, Writes (event item id) (some ⟨⟨kind, id⟩, item.status, item.conclusion⟩))
    (hclock : ∀ row ∈ w.poller.store.rows, row.receivedAt.val < receivedAt)
    (hcurrent : ∀ x ∈ sightings kind items, Current w.api x)
    (hasked : ∀ new,
      Follows runOf repo old new poller.store (w.seen ++ sightings kind items) w.api →
      ∀ runId ∈ runIdsOf poller.phase, ¬Finished (w.seen ++ sightings kind items) ⟨.run, runId⟩)
    (halone : ∀ r ∈ reposOf poller.phase, r = repo)
    (hended : ∀ x ∈ w.seen ++ sightings kind items, x.subject.kind = .job →
      x.status ∈ unfinished → Finished (w.seen ++ sightings kind items)
        ⟨.run, runOf x.subject.id⟩ → Finished w.seen x.subject) :
    Sound runOf repo old { w with
      poller
      seen := w.seen ++ sightings kind items
      late := w.late ++ lateRows w.api w.poller.store poller.store } := by
  obtain ⟨new, hfollows⟩ := h.follows
  obtain ⟨more, hrows, hkeys, hnext⟩ :=
    hfollows.batch hall hids hwrites hreports hclock hcurrent
  refine ⟨⟨_, hnext⟩, hasked _ hnext, halone, fun x hx hkind hunfinished hrun =>
    finished_append.mpr (.inl (hended x hx hkind hunfinished hrun)), ?_⟩
  rw [lateRows_of_added hrows, List.append_nil]
  · exact h.inTime
  · intro row hrow _ id _ hkey
    obtain ⟨x, hx⟩ := hkeys row hrow
    exact absurd (hkey.symm.trans hx) (stallKey_ne_delivery _ _)

theorem Sound.runs (h : Sound runOf repo old w) {reply : Reply} {receivedAt now : Int}
    (hallowed : Allowed runOf repo w (.runs reply receivedAt now))
    (hcaught : CaughtUp runOf w (.poll (.runs reply receivedAt now))) {poller : PollCycle.Poller}
    (hstep : Steps H S w.poller (.runs reply receivedAt now) poller) :
    Sound runOf repo old { w with
      poller
      seen := w.seen ++
        (if running poller.phase then shown (.runs reply receivedAt now) else [])
      late := w.late ++ lateRows w.api w.poller.store poller.store } := by
  cases hstep with
  | @runs _ _ _ etags current left _ hphase hanswer =>
    have hleft : ∀ r ∈ current :: left, r = repo := by
      have halone := h.alone
      rwa [hphase] at halone
    obtain rfl := hleft current List.mem_cons_self
    cases hanswer with
    | aside hstatus =>
      rw [shown, if_neg hstatus, ite_self, List.append_nil]
      obtain ⟨new, hfollows⟩ := h.follows
      exact h.same rfl (fun runId hmem => hfollows.not_asked hmem) hleft
    | failed => refine h.idle ?_ ?_ <;> rfl
    | @stored count store kept hstatus hids hupsert =>
      have hshown : shown (.runs reply receivedAt now) = sightings .run reply.items :=
        if_pos hstatus
      have hcurrent : ∀ x ∈ sightings .run reply.items, Current w.api x := fun x hx =>
        (hallowed.1 x (hshown ▸ hx)).1
      have hrunning : running (.jobs kept current (inProgressRunIds H store current now) left) =
          true := rfl
      rw [hshown, if_pos hrunning]
      refine h.answered hupsert hids (fun item hitem id hid =>
        ⟨runEvent_writes _ _ _ _ _, rfl, rfl, rfl, nofun⟩)
        (fun item id => runEvent_writes _ _ _ _ _) hcaught.1 hcurrent
        (fun new hfollows runId hmem => hfollows.not_asked hmem) hleft ?_
      intro x hx hkind hunfinished hrun
      have hold : x ∈ w.seen := (List.mem_append.mp hx).resolve_right fun hx => by
        rw [mem_sightings hx] at hkind
        nomatch hkind
      rcases finished_append.mp hrun with hrun | ⟨run, hrun, hsubject, hcompleted⟩
      · exact h.ended x hold hkind hunfinished hrun
      · exact hcaught.2 run (hshown ▸ hrun) hcompleted x hold hkind
          (congrArg Subject.id hsubject).symm hunfinished

theorem Sound.jobs (h : Sound runOf repo old w) {reply : Reply} {receivedAt : Int}
    (hallowed : Allowed runOf repo w (.jobs reply receivedAt))
    (hcaught : CaughtUp runOf w (.poll (.jobs reply receivedAt))) {poller : PollCycle.Poller}
    (hstep : Steps H S w.poller (.jobs reply receivedAt) poller) :
    Sound runOf repo old { w with
      poller
      seen := w.seen ++ (if running poller.phase then shown (.jobs reply receivedAt) else [])
      late := w.late ++ lateRows w.api w.poller.store poller.store } := by
  cases hstep with
  | @jobs _ _ etags current runId rest left _ hphase hanswer =>
    have hleft : ∀ r ∈ current :: left, r = repo := by
      have halone := h.alone
      rwa [hphase] at halone
    obtain rfl := hleft current List.mem_cons_self
    have hqueue : ∀ q ∈ runId :: rest, ¬Finished w.seen ⟨.run, q⟩ := by
      have hasked := h.asked
      rwa [hphase] at hasked
    cases hanswer with
    | aside hstatus =>
      rw [shown, if_neg hstatus, ite_self, List.append_nil]
      exact h.same rfl (fun q hq => hqueue q (List.mem_cons_of_mem _ hq)) hleft
    | failed => refine h.idle ?_ ?_ <;> rfl
    | @stored count store kept hstatus hids hupsert =>
      have hshown : shown (.jobs reply receivedAt) = sightings .job reply.items := if_pos hstatus
      have hrunning : running (.jobs kept current rest left) = true := rfl
      have hallowed : ∀ x ∈ sightings .job reply.items, Current w.api x ∧
          runOf x.subject.id = runId := by
        intro x hx
        obtain ⟨hcurrent, hrun⟩ := hallowed.1 x (hshown ▸ hx)
        have hhead := hrun (mem_sightings hx)
        rw [hphase] at hhead
        exact ⟨hcurrent, Option.some.inj hhead⟩
      have hrun : ∀ q, Finished (w.seen ++ sightings .job reply.items) ⟨.run, q⟩ →
          Finished w.seen ⟨.run, q⟩ := fun q hq =>
        (finished_append.mp hq).resolve_right (not_finished_of_kind nofun)
      rw [hshown, if_pos hrunning]
      refine h.answered hupsert hids (fun item hitem id hid => ?_)
        (fun item id => jobEvent_writes _ _ _ _ _ _) hcaught (fun x hx => (hallowed x hx).1)
        (fun new hfollows q hq hfinished => hqueue q (List.mem_cons_of_mem _ hq) (hrun q hfinished))
        hleft ?_
      · have hmem : (⟨⟨.job, id⟩, item.1.status, item.1.conclusion⟩ : Sighting) ∈
            sightings .job reply.items :=
          List.mem_filterMap.mpr ⟨item, hitem, by rw [hid]; rfl⟩
        exact ⟨jobEvent_writes _ _ _ _ _ _, rfl, rfl, rfl,
          fun _ => congrArg some (hallowed _ hmem).2.symm⟩
      · intro x hx hkind hunfinished hfinished
        rcases List.mem_append.mp hx with hx | hx
        · exact h.ended x hx hkind hunfinished (hrun _ hfinished)
        · rw [(hallowed x hx).2] at hfinished
          exact absurd (hrun _ hfinished) (hqueue runId List.mem_cons_self)

theorem Sound.stalls (h : Sound runOf repo old w) {nowS nowNs : Int} {ids : List Ulid}
    (hcaught : CaughtUp runOf w (.poll (.stalls nowS nowNs ids))) {poller : PollCycle.Poller}
    (hstep : Steps H S w.poller (.stalls nowS nowNs ids) poller) :
    Sound runOf repo old { w with
      poller
      seen := w.seen ++ (if running poller.phase then shown (.stalls nowS nowNs ids) else [])
      late := w.late ++ lateRows w.api w.poller.store poller.store } := by
  cases hstep with
  | raised => refine h.idle ?_ ?_ <;> rfl
  | @stalls _ _ _ etags current left found count store hphase hfound hlength hids hall =>
    have hleft : ∀ r ∈ current :: left, r = repo := by
      have halone := h.alone
      rwa [hphase] at halone
    obtain rfl := hleft current List.mem_cons_self
    have hstall : ∀ stall ∈ found.zip ids, stall.1.owner = current.1 ∧
        stall.1.repo = current.2 ∧ ∃ e ∈ stallCandidates H w.poller.store current nowNs,
          e.jobId.map (·.val) = some stall.1.jobId := by
      intro stall hstall
      obtain ⟨e, he, hof⟩ := mem_filterMapM hfound (List.of_mem_zip hstall).1
      obtain ⟨howner, hrepo, hjob⟩ := stallOf_some hof
      exact ⟨howner, hrepo, e, he, hjob⟩
    have hids' : NewIds w.poller.store ((found.zip ids).map (·.2)) := by
      rwa [show (found.zip ids).map (·.2) = ids from List.map_snd_zip hlength.le]
    obtain ⟨new, hfollows⟩ := h.follows
    obtain ⟨more, hrows, hjobs, hnext⟩ := hfollows.stall hall hids'
      fun stall hmem => ⟨(hstall stall hmem).1, (hstall stall hmem).2.1⟩
    rw [show shown (.stalls nowS nowNs ids) = [] from rfl, ite_self, List.append_nil]
    refine ⟨⟨_, hnext⟩, fun _ hmem => absurd hmem List.not_mem_nil,
      fun r hr => hleft r (List.mem_cons_of_mem _ hr), h.ended, ?_⟩
    rw [lateRows_of_added hrows, List.append_nil]
    · exact h.inTime
    · intro row hrow hnew id hid hkey hcompleted
      obtain ⟨stall, hmem, hjob⟩ := hjobs row hrow
      obtain ⟨-, -, e, he, hcandidate⟩ := hstall stall hmem
      have hsame : e.jobId = some id := by
        obtain ⟨k, hk, hval⟩ := Option.map_eq_some_iff.mp hcandidate
        rw [Option.mem_def.mp hid] at hjob
        rw [hk, Subtype.ext (hval.trans (Option.some.inj hjob).symm)]
      obtain ⟨⟨x, hx, hsubject, hunfinished⟩, hopen⟩ :=
        hfollows.not_stalled he hsame (hkey ▸ hnew)
      refine hopen (hsubject ▸ hcaught x hx (by rw [hsubject]) hunfinished ?_)
      rwa [hsubject]

theorem Sound.step (h : Sound runOf repo old w) {a : Act} (hcaught : CaughtUp runOf w a)
    (hstep : w.step H S runOf repo a = some v) : Sound runOf repo old v := by
  cases a with
  | advance subject progress =>
    obtain ⟨hopen, hv⟩ := Option.ite_none_left_eq_some.mp hstep
    obtain rfl := Option.some.inj hv
    obtain ⟨new, hfollows⟩ := h.follows
    exact ⟨⟨new, hfollows.advance hopen progress⟩, h.asked, h.alone, h.ended, h.inTime⟩
  | poll act =>
    obtain ⟨hallowed, hstep⟩ := Option.ite_none_right_eq_some.mp hstep
    obtain ⟨poller, hpoll, rfl⟩ := Option.map_eq_some_iff.mp hstep
    have hsteps := step_cases hpoll
    cases act with
    | begin watched =>
      cases hsteps with
      | begin =>
        rw [show shown (.begin watched) = [] from rfl, ite_self, List.append_nil]
        refine h.same rfl (fun _ hmem => absurd hmem List.not_mem_nil) fun r hr => ?_
        rw [reposOf, hallowed.2] at hr
        exact List.mem_singleton.mp hr
    | runs reply receivedAt now => exact h.runs hallowed hcaught hsteps
    | jobs reply receivedAt => exact h.jobs hallowed hcaught hsteps
    | stalls nowS nowNs ids => exact h.stalls hcaught hsteps
    | save | cut | abort =>
      cases hsteps
      refine h.idle ?_ ?_ <;> rfl
    | others store => exact hallowed.2.elim

theorem Sound.start (h : (watching H S runOf repo).init w) :
    Sound runOf repo w.poller.store.rows w := by
  obtain ⟨hrows, hphase, hseen, hlate⟩ := h
  refine ⟨⟨[], (List.append_nil _).symm, ⟨fun x => ?_, [], by simp, by rw [hseen]; rfl⟩,
    fun row hrow => (hrows row hrow).1, ?_, ?_, ?_, ?_⟩, ?_, ?_, ?_, hlate⟩
  · rw [hseen]
    refine ⟨fun hx => ?_, nofun⟩
    obtain ⟨row, hrow, hkey⟩ := List.mem_map.mp hx
    exact absurd hkey ((hrows row hrow).2 x)
  · exact fun row hrow => absurd hrow List.not_mem_nil
  · rw [hseen]
    exact fun x hx => absurd hx List.not_mem_nil
  · rw [hseen]
    exact fun x hx => absurd hx List.not_mem_nil
  · exact fun e he => absurd he List.not_mem_nil
  · rw [hphase]
    exact fun _ hmem => absurd hmem List.not_mem_nil
  · rw [hphase]
    exact fun _ hmem => absurd hmem List.not_mem_nil
  · rw [hseen]
    exact fun x hx => absurd hx List.not_mem_nil

theorem Sound.converges (h : Sound runOf repo old w) : Converges repo w := by
  obtain ⟨new, hfollows⟩ := h.follows
  refine ⟨fun runId hrun e he hparent hstatus id hid => ?_, h.inTime⟩
  obtain ⟨hrow, hread⟩ := List.mem_filter.mp he
  obtain ⟨htype, howner, hrepo⟩ := of_decide_eq_true hread
  have hnew := hfollows.new_of_repo hrow howner hrepo
  have hsight : sightingOf e = some ⟨⟨.job, id.val⟩, e.status, e.conclusion⟩ := by
    refine sighting_of_job htype hid fun hkey => ?_
    have hnone : sightingOf e = none := by
      have hnotRun : e.eventType ≠ "workflow_run" := by
        rw [htype]
        decide
      rw [sightingOf, subjectOf, if_neg hnotRun, if_pos htype, Option.mem_def.mp hid]
      dsimp only
      rw [if_pos hkey]
      rfl
    rw [(hfollows.polled e hnew).stalled hnone] at hstatus
    exact absurd hstatus (by decide)
  have hrunOf : runOf id.val = runId :=
    Option.some.inj (((hfollows.polled e hnew).parent _ hsight rfl).symm.trans hparent)
  have hfinished : Finished w.seen ⟨.job, id.val⟩ :=
    h.ended _ (hfollows.mem_seen hnew hsight) rfl hstatus (hrunOf ▸ hrun)
  obtain ⟨f, hf, y, hsightF, hsubject, hcompleted⟩ := hfollows.stored hfinished
  obtain ⟨p, hp, hpStatus, hpConclusion⟩ :=
    hfollows.current y (hfollows.mem_seen hf hsightF) hcompleted
  obtain ⟨htypeF, hidF⟩ := sightingOf_job hsightF (by rw [hsubject])
  obtain ⟨-, hstatusF, hconclusionF⟩ := subject_sighting hsightF
  have hmem : f ∈ jobsOf w.poller.store repo := List.mem_filter.mpr
    ⟨hfollows.table ▸ List.mem_append_right _ hf,
      decide_eq_true ⟨htypeF, (hfollows.polled f hf).owner, (hfollows.polled f hf).repo⟩⟩
  refine ⟨f, hmem, ?_, p, hsubject ▸ hp, decide_eq_true (hpStatus.trans hcompleted),
    (hpStatus.trans hstatusF).symm, (hpConclusion.trans hconclusionF).symm⟩
  obtain ⟨k, hk, hval⟩ := Option.map_eq_some_iff.mp hidF
  rw [hk, Subtype.ext (hval.trans (congrArg Subject.id hsubject))]

/-- While the poller is shown each end in time, the jobs of a run that is over are stored as they
ended, and no job that is over is written down as stalled. -/
theorem jobs_converge (h : Reach (watching H S runOf repo) (CaughtUp runOf) w) :
    Converges repo w := by
  have hsound : ∃ old, Sound runOf repo old w :=
    h.invariant (I := fun w => ∃ old, Sound runOf repo old w)
      (fun w hw => ⟨w.poller.store.rows, Sound.start hw⟩)
      fun w a v _ ⟨old, hw⟩ hcaught hstep => ⟨old, hw.step hcaught hstep⟩
  obtain ⟨old, hsound⟩ := hsound
  exact hsound.converges

end Runs

section Samples

instance (seen : List Sighting) (subject : Subject) : Decidable (Finished seen subject) :=
  inferInstanceAs (Decidable (∃ x ∈ seen, _ ∧ _))

instance (runOf : Int → Int) (w : World) : ∀ a, Decidable (CaughtUp runOf w a)
  | .poll (.runs _ _ _) => inferInstanceAs (Decidable (_ ∧ _))
  | .poll (.jobs _ _) => inferInstanceAs (Decidable (∀ row ∈ w.poller.store.rows, _))
  | .poll (.stalls _ _ _) => inferInstanceAs (Decidable (∀ x ∈ w.seen, _ → _ → _ → _))
  | .poll (.begin _) | .poll .save | .poll .cut | .poll .abort | .poll (.others _) | .advance _ _ =>
    isTrue trivial

def inProgress : Progress :=
  ⟨some "in_progress", none, by decide⟩

def succeeded : Progress :=
  ⟨some "completed", some "success", by decide⟩

def sampleRepo : Repo := ("owner", "repo")

def sampleWorld : World :=
  ⟨sampleStart, fun subject =>
    if subject = ⟨.run, 7⟩ ∨ subject = ⟨.job, 70⟩ then some inProgress else none, [], []⟩

def tick (n : Nat) : Int :=
  nsReceivedAtMin + n

def askRuns (n : Nat) (status : String) (conclusion : Option String) : Act :=
  .poll (.runs ⟨200, none, [(sampleItem status conclusion, ulidAt n)]⟩ (tick n) (tick n))

def askJobs (n : Nat) (status : String) (conclusion : Option String) : Act :=
  .poll (.jobs ⟨200, none, [({ sampleItem status conclusion with id := some 70 }, ulidAt n)]⟩
    (tick n))

def firstCycle : List Act :=
  [.poll (.begin [sampleRepo]), askRuns 1 "in_progress" none, askJobs 2 "in_progress" none,
    .poll (.stalls 0 (tick 3) []), .poll .save]

def endsInTurn : List Act :=
  firstCycle ++ [.advance ⟨.job, 70⟩ succeeded, .poll (.begin [sampleRepo]),
    askRuns 4 "in_progress" none, askJobs 5 "completed" (some "success"),
    .poll (.stalls 0 (tick 6) []), .poll .save, .advance ⟨.run, 7⟩ succeeded,
    .poll (.begin [sampleRepo]), askRuns 7 "completed" (some "success")]

theorem jobs_converge_run : ∃ w : World, Finished w.seen ⟨.run, 7⟩ ∧
    Converges sampleRepo w := by
  obtain ⟨w, hrun, hfinished⟩ : ∃ w ∈ (watching Host.reference Stalling.reference (fun _ => 7)
      sampleRepo).exec sampleWorld endsInTurn, Finished w.seen ⟨.run, 7⟩ := by
    decide +kernel
  have hstart : Reach (watching Host.reference Stalling.reference (fun _ => 7) sampleRepo)
      (CaughtUp fun _ => 7) sampleWorld :=
    .start ⟨fun row hrow => absurd hrow List.not_mem_nil, rfl, rfl, rfl⟩
  exact ⟨w, hfinished, jobs_converge (hstart.exec hrun (by decide +kernel))⟩

def endsTogether : List Act :=
  firstCycle ++ [.advance ⟨.job, 70⟩ succeeded, .advance ⟨.run, 7⟩ succeeded,
    .poll (.begin [sampleRepo]), askRuns 4 "completed" (some "success")]

/-- The end of the job is never asked for. -/
theorem job_end_missed : ∃ w, Reachable (watching Host.reference Stalling.reference (fun _ => 7)
    sampleRepo) w ∧ ¬Converges sampleRepo w := by
  obtain ⟨w, hrun, hfinished, hlost⟩ : ∃ w ∈ (watching Host.reference Stalling.reference
      (fun _ => 7) sampleRepo).exec sampleWorld endsTogether, Finished w.seen ⟨.run, 7⟩ ∧
      ∃ e ∈ jobsOf w.poller.store sampleRepo, (e.parentRunId.map (·.val) = some 7 ∧
        e.status ∈ unfinished) ∧ ∃ id ∈ e.jobId, ∀ f ∈ jobsOf w.poller.store sampleRepo,
          f.status ≠ some "completed" := by
    decide +kernel
  obtain ⟨e, he, ⟨hparent, hstatus⟩, id, hid, hnone⟩ := hlost
  refine ⟨w, Reachable.exec (.start ⟨fun row hrow => absurd hrow List.not_mem_nil, rfl, rfl, rfl⟩)
    hrun, fun h => ?_⟩
  obtain ⟨f, hf, -, p, -, hcompleted, hstatusF, -⟩ :=
    h.final 7 hfinished e he hparent hstatus id hid
  exact hnone f hf (hstatusF.trans (of_decide_eq_true hcompleted))

end Samples

end Waitbus.Convergence
