import Waitbus.McpReads
import Waitbus.Polling

/-! A cycle of the fallback poller over its repositories: the runs of each, the jobs of the runs
that the table has as unfinished, and the stalled jobs. The etags of the answers are kept in memory
until the last repository is done, and the rows of an answer are committed before its etag is
kept. -/

namespace Waitbus.PollCycle
open Python Json FrameCodec EventStore Summary Dedup Runs McpReads Polling

section Requests

abbrev Repo := String × String

inductive Resource where
  | runs (repo : Repo)
  | jobs (repo : Repo) (runId : Int)
  deriving DecidableEq

def Resource.key : Resource → String
  | .runs (owner, repo) => owner ++ "/" ++ repo
  | .jobs (owner, repo) runId => owner ++ "/" ++ repo ++ "/jobs/" ++ toString runId

/-- What `fetch_runs` or `fetch_jobs` returns; `items` is empty unless the status is 200. -/
structure Reply where
  status : Int
  etag : Option String
  items : List (Item × Ulid)

abbrev Etags := List (String × String)

/-- `state[key] = etag`. -/
def setEtag (etags : Etags) (key etag : String) : Etags :=
  if etags.any (·.1 = key) then etags.map fun entry => if entry.1 = key then (key, etag) else entry
  else etags ++ [(key, etag)]

/-- `etag_state.json`; a write that was cut short leaves a text that is no JSON. -/
inductive File where
  | missing
  | corrupt
  | holds (etags : Etags)

def loadEtagState : File → Etags
  | .holds etags => etags
  | _ => []

def Resource.kind : Resource → Kind
  | .runs _ => .run
  | .jobs _ _ => .job

/-- `upsert_runs` or `upsert_jobs`. -/
def upsert (store : Store) (receivedAt : Int) (items : List (Item × Ulid)) :
    Resource → Except PyExc (Nat × Store)
  | .runs (owner, repo) => upsertRuns store owner repo receivedAt items
  | .jobs (owner, repo) runId => upsertJobs store owner repo runId receivedAt items

end Requests

section Reads

/-- `_RECENCY_WINDOW_SEC`, in nanoseconds. -/
def recencyWindowNs : Int := 86400 * 1000000000

def runsOf (store : Store) (repo : Repo) (cutoffNs : Int) : List Row :=
  store.rows.filter fun row => row.eventType = "workflow_run" ∧ row.owner = repo.1 ∧
    row.repo = repo.2 ∧ row.runId.isSome ∧ cutoffNs < row.receivedAt.val

/-- The runs whose last status is not final, by the time of receipt. -/
def inProgressRunIds (H : Host) (store : Store) (repo : Repo) (now : Int) : List Int :=
  let seen := firsts (·.runId) (H.sort newestFirst (runsOf store repo (now - recencyWindowNs)))
  (seen.filter fun row => row.status ∈ [some "in_progress", some "queued"]).filterMap fun row =>
    row.runId.map (·.val)

/-- What the stall detection takes from outside: the runtime, `datetime.fromisoformat` to epoch
seconds, the text of the payload, and the threshold. -/
structure Stalling where
  decodeDepth : Nat
  fromIso : PyStr → Option Int
  body : Row → Int → PyStr → String
  thresholdMin : Int

def jobsOf (store : Store) (repo : Repo) : List Row :=
  store.rows.filter fun row =>
    row.eventType = "workflow_job" ∧ row.owner = repo.1 ∧ row.repo = repo.2

/-- The row is at the latest time of receipt of its job within the window. -/
def latestOfJob (store : Store) (repo : Repo) (cutoffNs : Int) (e : Row) : Bool :=
  let recent := (jobsOf store repo).filter fun row =>
    row.jobId.isSome ∧ row.jobId = e.jobId ∧ cutoffNs < row.receivedAt.val
  recent.any (·.receivedAt.val = e.receivedAt.val) &&
    recent.all (·.receivedAt.val ≤ e.receivedAt.val)

/-- The rows that the SELECT of the stall detection returns, in whatever order. -/
def stallCandidates (H : Host) (store : Store) (repo : Repo) (nowNs : Int) : List Row :=
  H.sort (fun _ _ => true) <| (jobsOf store repo).filter fun e =>
    e.status ∈ [some "in_progress", some "queued"] ∧
      latestOfJob store repo (nowNs - recencyWindowNs) e

/-- `started_at` of the job in a payload, with its epoch seconds; nothing where there is none. -/
def startedAt (S : Stalling) (row : Row) : Except PyExc (Option (PyStr × Int)) :=
  let payload := if row.payloadJson = "" then .ok (.obj []) else loads S.decodeDepth row.payloadJson
  match payload with
  | .error .jsonDecodeError => .ok none
  | .error exc => .error exc
  | .ok payload => do
    let job := getOr (← asDict payload) "workflow_job" (.obj [])
    match lookup "started_at" (← asDict job) with
    | some (.str iso) =>
      return if iso = [] then none else (S.fromIso iso).map fun started => (iso, started)
    | _ => return none

/-- The synthetic row of a job that has taken longer than the threshold. -/
def stallOf (S : Stalling) (repo : Repo) (nowS : Int) (row : Row) :
    Except PyExc (Option Stall) := do
  match ← startedAt S row, row.jobId with
  | some (iso, started), some jobId =>
    if nowS - started < S.thresholdMin * 60 then return none
    else return some {
      owner := repo.1
      repo := repo.2
      jobId := jobId.val
      jobName := row.jobName
      parentRunId := row.parentRunId.map (·.val)
      headBranch := row.headBranch
      headSha := row.headSha
      payload := S.body row (nowS - started) iso }
  | _, _ => return none

def stallsOf (H : Host) (S : Stalling) (store : Store) (repo : Repo) (nowS nowNs : Int) :
    Except PyExc (List Stall) :=
  (stallCandidates H store repo nowNs).filterMapM (stallOf S repo nowS)

end Reads

section Machine

/-- Where a cycle is: not running, before the next repository, or in the loop over the live runs of
one, which the stall detection follows. -/
inductive Phase where
  | idle
  | repos (etags : Etags) (left : List Repo)
  | jobs (etags : Etags) (repo : Repo) (runIds : List Int) (left : List Repo)

/-- A request with the etag it was sent with, and the answer. -/
structure Exchange where
  resource : Resource
  sent : Option String
  reply : Reply

/-- The poller, with the requests it has made and the delivery ids that were ever committed. -/
structure Poller where
  store : Store
  file : File
  phase : Phase
  exchanges : List Exchange
  ever : List String

inductive Act where
  | begin (watched : List Repo)
  | runs (reply : Reply) (receivedAt now : Int)
  | jobs (reply : Reply) (receivedAt : Int)
  | stalls (nowS nowNs : Int) (ids : List Ulid)
  | save
  | cut
  | abort
  | others (store : Store)

def keysOf (store : Store) : List String :=
  store.rows.map (·.deliveryId)

/-- An answer with status 200 is stored, and its etag kept where it has one. -/
def Poller.answer (p : Poller) (resource : Resource) (etags : Etags) (reply : Reply)
    (receivedAt : Int) (next : Store → Etags → Phase) : Option Poller :=
  let exchanges := p.exchanges ++ [⟨resource, etags.lookup resource.key, reply⟩]
  if reply.status = 200 then
    if NewIds p.store (reply.items.map (·.2)) then
      match upsert p.store receivedAt reply.items resource with
      | .ok (_, store) =>
        let etags := match reply.etag with
          | some etag => if etag = "" then etags else setEtag etags resource.key etag
          | none => etags
        some { p with
          store, exchanges
          phase := next store etags
          ever := p.ever ++ keysOf store }
      -- The transaction is rolled back and the exception ends the cycle.
      | .error _ => some { p with exchanges, phase := .idle }
    else none
  else some { p with exchanges, phase := next p.store etags }

def Poller.step (H : Host) (S : Stalling) (p : Poller) : Act → Option Poller
  | .begin watched =>
    match p.phase with
    | .idle =>
      if watched = [] then none else some { p with phase := .repos (loadEtagState p.file) watched }
    | _ => none
  | .runs reply receivedAt now =>
    match p.phase with
    | .repos etags (repo :: left) => p.answer (.runs repo) etags reply receivedAt fun store etags =>
        .jobs etags repo (inProgressRunIds H store repo now) left
    | _ => none
  | .jobs reply receivedAt =>
    match p.phase with
    | .jobs etags repo (runId :: rest) left =>
      p.answer (.jobs repo runId) etags reply receivedAt fun _ etags => .jobs etags repo rest left
    | _ => none
  | .stalls nowS nowNs ids =>
    match p.phase with
    | .jobs etags repo [] left =>
      match stallsOf H S p.store repo nowS nowNs with
      | .error _ => some { p with phase := .idle }
      | .ok found =>
        if ids.length = found.length ∧ NewIds p.store ids then
          match emitStalls p.store nowNs (found.zip ids) with
          | .ok (_, store) => some { p with
              store
              phase := .repos etags left
              ever := p.ever ++ keysOf store }
          | .error _ => some { p with phase := .idle }
        else none
    | _ => none
  | .save =>
    match p.phase with
    | .repos etags [] => some { p with file := .holds etags, phase := .idle }
    | _ => none
  -- `write_text` raises after it has begun to write.
  | .cut =>
    match p.phase with
    | .repos _ [] => some { p with file := .corrupt, phase := .idle }
    | _ => none
  -- An exception anywhere, or the end of the process.
  | .abort => some { p with phase := .idle }
  | .others store => some { p with store, ever := p.ever ++ keysOf store }

def cycling (H : Host) (S : Stalling) : System Poller Act where
  init p := loadEtagState p.file = [] ∧ p.phase = .idle ∧ p.exchanges = []
  step := Poller.step H S

/-- The delivery ids of the rows that the answer's body stands for. -/
def Exchange.deliveries (x : Exchange) : List String :=
  (sightings x.resource.kind x.reply.items).map delivery

/-- The etag is that of an answer all of whose rows have been committed. -/
def Poller.Backed (p : Poller) (key etag : String) : Prop :=
  ∃ x ∈ p.exchanges, x.reply.status = 200 ∧ x.resource.key = key ∧ x.reply.etag = some etag ∧
    ∀ id ∈ x.deliveries, id ∈ p.ever

/-- No etag that is kept is ahead of the table, nor has any been that a 304 was the answer to. -/
structure NeverAhead (p : Poller) : Prop where
  persisted : ∀ entry ∈ loadEtagState p.file, p.Backed entry.1 entry.2
  notModified : ∀ x ∈ p.exchanges, x.reply.status = 304 → ∀ etag ∈ x.sent,
    p.Backed x.resource.key etag

end Machine

section Steps

variable {H : Host} {S : Stalling} {p q : Poller}

/-- All that an answer can do to the poller. -/
inductive Answered (p : Poller) (resource : Resource) (etags : Etags) (reply : Reply)
    (receivedAt : Int) (next : Store → Etags → Phase) : Poller → Prop
  | aside : reply.status ≠ 200 → Answered p resource etags reply receivedAt next { p with
      exchanges := p.exchanges ++ [⟨resource, etags.lookup resource.key, reply⟩]
      phase := next p.store etags }
  | failed : Answered p resource etags reply receivedAt next { p with
      exchanges := p.exchanges ++ [⟨resource, etags.lookup resource.key, reply⟩]
      phase := .idle }
  | stored {count : Nat} {store : Store} {kept : Etags} : reply.status = 200 →
      NewIds p.store (reply.items.map (·.2)) →
      upsert p.store receivedAt reply.items resource = .ok (count, store) →
      (kept = etags ∨ ∃ etag, reply.etag = some etag ∧ kept = setEtag etags resource.key etag) →
    Answered p resource etags reply receivedAt next { p with
      store
      exchanges := p.exchanges ++ [⟨resource, etags.lookup resource.key, reply⟩]
      phase := next store kept
      ever := p.ever ++ keysOf store }

theorem answer_cases {resource : Resource} {etags : Etags} {reply : Reply} {receivedAt : Int}
    {next : Store → Etags → Phase} (h : p.answer resource etags reply receivedAt next = some q) :
    Answered p resource etags reply receivedAt next q := by
  rw [Poller.answer] at h
  split at h
  · rename_i hstatus
    split at h
    · rename_i hids
      split at h
      · rename_i count store hupsert
        obtain rfl := Option.some.inj h
        refine .stored hstatus hids hupsert ?_
        split
        · rename_i etag hetag
          split
          · exact .inl rfl
          · exact .inr ⟨etag, hetag, rfl⟩
        · exact .inl rfl
      · obtain rfl := Option.some.inj h
        exact .failed
    · nomatch h
  · rename_i hstatus
    obtain rfl := Option.some.inj h
    exact .aside hstatus

/-- All that one step of the poller does, by the phase it is taken in. -/
inductive Steps (H : Host) (S : Stalling) (p : Poller) : Act → Poller → Prop
  | begin {watched : List Repo} : p.phase = .idle → watched ≠ [] →
    Steps H S p (.begin watched) { p with phase := .repos (loadEtagState p.file) watched }
  | runs {reply : Reply} {receivedAt now : Int} {etags : Etags} {repo : Repo} {left : List Repo}
      {q : Poller} : p.phase = .repos etags (repo :: left) →
      Answered p (.runs repo) etags reply receivedAt
        (fun store etags => .jobs etags repo (inProgressRunIds H store repo now) left) q →
    Steps H S p (.runs reply receivedAt now) q
  | jobs {reply : Reply} {receivedAt : Int} {etags : Etags} {repo : Repo} {runId : Int}
      {rest : List Int} {left : List Repo} {q : Poller} :
      p.phase = .jobs etags repo (runId :: rest) left →
      Answered p (.jobs repo runId) etags reply receivedAt
        (fun _ etags => .jobs etags repo rest left) q →
    Steps H S p (.jobs reply receivedAt) q
  | stalls {nowS nowNs : Int} {ids : List Ulid} {etags : Etags} {repo : Repo} {left : List Repo}
      {found : List Stall} {count : Nat} {store : Store} : p.phase = .jobs etags repo [] left →
      stallsOf H S p.store repo nowS nowNs = .ok found → ids.length = found.length →
      NewIds p.store ids → emitStalls p.store nowNs (found.zip ids) = .ok (count, store) →
    Steps H S p (.stalls nowS nowNs ids) { p with
      store, phase := .repos etags left, ever := p.ever ++ keysOf store }
  | raised {nowS nowNs : Int} {ids : List Ulid} {etags : Etags} {repo : Repo} {left : List Repo} :
      p.phase = .jobs etags repo [] left →
    Steps H S p (.stalls nowS nowNs ids) { p with phase := .idle }
  | save {etags : Etags} : p.phase = .repos etags [] →
    Steps H S p .save { p with file := .holds etags, phase := .idle }
  | cut {etags : Etags} : p.phase = .repos etags [] →
    Steps H S p .cut { p with file := .corrupt, phase := .idle }
  | abort : Steps H S p .abort { p with phase := .idle }
  | others (store : Store) :
    Steps H S p (.others store) { p with store, ever := p.ever ++ keysOf store }

theorem step_cases {a : Act} (h : p.step H S a = some q) : Steps H S p a q := by
  cases a with
  | begin watched =>
    rw [Poller.step] at h
    split at h
    · rename_i hphase
      obtain ⟨hsome, hq⟩ := Option.ite_none_left_eq_some.mp h
      exact Option.some.inj hq ▸ .begin hphase hsome
    · nomatch h
  | runs reply receivedAt now =>
    rw [Poller.step] at h
    split at h
    · rename_i hphase
      exact .runs hphase (answer_cases h)
    · nomatch h
  | jobs reply receivedAt =>
    rw [Poller.step] at h
    split at h
    · rename_i hphase
      exact .jobs hphase (answer_cases h)
    · nomatch h
  | stalls nowS nowNs ids =>
    rw [Poller.step] at h
    split at h
    · rename_i hphase
      split at h
      · exact Option.some.inj h ▸ .raised hphase
      · rename_i found hfound
        obtain ⟨⟨hlength, hids⟩, h⟩ := Option.ite_none_right_eq_some.mp h
        split at h
        · rename_i hall
          exact Option.some.inj h ▸ .stalls hphase hfound hlength hids hall
        · exact Option.some.inj h ▸ .raised hphase
    · nomatch h
  | save =>
    rw [Poller.step] at h
    split at h
    · rename_i hphase
      exact Option.some.inj h ▸ .save hphase
    · nomatch h
  | cut =>
    rw [Poller.step] at h
    split at h
    · rename_i hphase
      exact Option.some.inj h ▸ .cut hphase
    · nomatch h
  | abort => exact Option.some.inj h ▸ .abort
  | others store => exact Option.some.inj h ▸ .others store

end Steps

section Etags

variable {H : Host} {S : Stalling} {p q : Poller}

theorem mem_setEtag {etags : Etags} {key etag : String} {entry : String × String}
    (h : entry ∈ setEtag etags key etag) : entry = (key, etag) ∨ entry ∈ etags := by
  rw [setEtag] at h
  split at h
  · obtain ⟨old, hold, rfl⟩ := List.mem_map.mp h
    split
    · exact .inl rfl
    · exact .inr hold
  · exact (List.mem_append.mp h).symm.imp_left List.mem_singleton.mp

theorem upsert_stored {store t : Store} {receivedAt : Int} {items : List (Item × Ulid)}
    {resource : Resource} {count : Nat}
    (h : upsert store receivedAt items resource = .ok (count, t))
    (hids : NewIds store (items.map (·.2))) : ∀ id ∈ (sightings resource.kind items).map delivery,
      id ∈ keysOf t := by
  have hbatch : ∀ (event : Item → Int → EventInsert) (kind : Kind),
      (∀ item id, (event item id).deliveryId =
        delivery ⟨⟨kind, id⟩, item.status, item.conclusion⟩) →
      store.insertAll (batchOf event items) = .ok (count, t) →
      ∀ id ∈ (sightings kind items).map delivery, id ∈ keysOf t := by
    intro event kind hevent hall key hkey
    have hnew : NewIds store ((batchOf event items).map (·.2)) :=
      hids.sublist ((batchOf_ids event items).append_left _)
    obtain ⟨x, hx, rfl⟩ := List.mem_map.mp hkey
    obtain ⟨item, hitem, hsome⟩ := List.mem_filterMap.mp hx
    obtain ⟨id, hid, rfl⟩ := Option.map_eq_some_iff.mp hsome
    have hentry : (event item.1 id, item.2) ∈ batchOf event items :=
      List.mem_filterMap.mpr ⟨item, hitem, by rw [hid]; rfl⟩
    rw [← hevent]
    exact (insertAll_keys hall hnew).2 _ hentry
  cases resource with
  | runs repo => exact hbatch _ .run (fun _ _ => rfl) h
  | jobs repo runId => exact hbatch _ .job (fun _ _ => rfl) h

def Phase.etags : Phase → Etags
  | .idle => []
  | .repos etags _ | .jobs etags _ _ _ => etags

/-- The etags in memory are not ahead of the table either. -/
structure Behind (p : Poller) : Prop extends NeverAhead p where
  memory : ∀ entry ∈ p.phase.etags, p.Backed entry.1 entry.2

theorem Poller.Backed.mono {key etag : String} (h : p.Backed key etag)
    (hexchanges : p.exchanges ⊆ q.exchanges) (hever : p.ever ⊆ q.ever) : q.Backed key etag := by
  obtain ⟨x, hx, hstatus, hkey, hetag, hstored⟩ := h
  exact ⟨x, hexchanges hx, hstatus, hkey, hetag, fun id hid => hever (hstored id hid)⟩

theorem Behind.quiet (h : Behind p) (hexchanges : q.exchanges = p.exchanges)
    (hever : p.ever ⊆ q.ever)
    (hfile : loadEtagState q.file ⊆ loadEtagState p.file ++ p.phase.etags)
    (hphase : q.phase.etags ⊆ loadEtagState p.file ++ p.phase.etags) : Behind q := by
  have hsubset : p.exchanges ⊆ q.exchanges := hexchanges ▸ List.Subset.refl _
  have hback : ∀ entry ∈ loadEtagState p.file ++ p.phase.etags, q.Backed entry.1 entry.2 :=
    fun entry hentry => ((List.mem_append.mp hentry).elim (h.persisted entry)
      (h.memory entry)).mono hsubset hever
  refine ⟨⟨fun entry hentry => hback entry (hfile hentry), fun x hx hstatus etag hetag => ?_⟩,
    fun entry hentry => hback entry (hphase hentry)⟩
  rw [hexchanges] at hx
  exact (h.notModified x hx hstatus etag hetag).mono hsubset hever

theorem lookup_mem {etags : Etags} {key etag : String} (h : etags.lookup key = some etag) :
    (key, etag) ∈ etags := by
  induction etags with
  | nil => nomatch h
  | cons entry rest ih =>
    obtain ⟨name, value⟩ := entry
    rw [List.lookup_cons] at h
    split at h
    · rename_i heq
      obtain rfl := Option.some.inj h
      rw [eq_of_beq heq]
      exact List.mem_cons_self
    · exact List.mem_cons_of_mem _ (ih h)

theorem Behind.answer (h : Behind p) {resource : Resource} {etags : Etags}
    (hetags : p.phase.etags = etags) {reply : Reply} {receivedAt : Int}
    {next : Store → Etags → Phase} (hnext : ∀ store etags, (next store etags).etags = etags)
    (hanswer : Answered p resource etags reply receivedAt next q) : Behind q := by
  have hback : ∀ {t : Poller}, t.exchanges = p.exchanges ++
      [⟨resource, etags.lookup resource.key, reply⟩] → p.ever ⊆ t.ever → t.file = p.file →
      (∀ entry ∈ t.phase.etags, entry ∈ etags ∨ t.Backed entry.1 entry.2) → Behind t := by
    intro t hexchanges hever hfile hmemory
    have hsubset : p.exchanges ⊆ t.exchanges := hexchanges ▸ List.subset_append_left _ _
    have hold : ∀ entry ∈ etags, t.Backed entry.1 entry.2 := fun entry hentry =>
      (h.memory entry (hetags ▸ hentry)).mono hsubset hever
    refine ⟨⟨fun entry hentry => ?_, fun x hx hstatus etag hetag => ?_⟩, fun entry hentry =>
      (hmemory entry hentry).elim (hold entry) id⟩
    · exact (h.persisted entry (hfile ▸ hentry)).mono hsubset hever
    · rw [hexchanges] at hx
      rcases List.mem_append.mp hx with hx | hx
      · exact (h.notModified x hx hstatus etag hetag).mono hsubset hever
      · obtain rfl := List.mem_singleton.mp hx
        exact hold (resource.key, etag) (lookup_mem hetag)
  cases hanswer with
  | aside =>
    refine hback rfl (List.Subset.refl _) rfl fun entry hentry => .inl ?_
    rwa [hnext] at hentry
  | failed =>
    exact hback rfl (List.Subset.refl _) rfl fun entry hentry => absurd hentry List.not_mem_nil
  | stored hstatus hids hupsert hkept =>
    refine hback rfl (List.subset_append_left _ _) rfl fun entry hentry => ?_
    rw [hnext] at hentry
    rcases hkept with rfl | ⟨etag, hetag, rfl⟩
    · exact .inl hentry
    · refine (mem_setEtag hentry).symm.imp_right ?_
      -- The etag of this answer: its rows are in the table by now.
      rintro rfl
      exact ⟨_, List.mem_append_right _ List.mem_cons_self, hstatus, rfl, hetag,
        fun id hid => List.mem_append_right _ (upsert_stored hupsert hids id hid)⟩

theorem Behind.step (h : Behind p) {a : Act} (hstep : p.step H S a = some q) : Behind q := by
  have hfile : loadEtagState p.file ⊆ loadEtagState p.file ++ p.phase.etags :=
    List.subset_append_left _ _
  have hsame : p.phase.etags ⊆ loadEtagState p.file ++ p.phase.etags :=
    List.subset_append_right _ _
  have hetags : ∀ {phase : Phase}, p.phase = phase → p.phase.etags = phase.etags :=
    congrArg Phase.etags
  cases step_cases hstep with
  | begin => exact h.quiet rfl (List.Subset.refl _) hfile hfile
  | runs hphase hanswer => exact h.answer (hetags hphase) (fun _ _ => rfl) hanswer
  | jobs hphase hanswer => exact h.answer (hetags hphase) (fun _ _ => rfl) hanswer
  | stalls hphase =>
    exact h.quiet rfl (List.subset_append_left _ _) hfile (hetags hphase ▸ hsame)
  | raised => exact h.quiet rfl (List.Subset.refl _) hfile (List.nil_subset _)
  | save hphase =>
    exact h.quiet rfl (List.Subset.refl _) (hetags hphase ▸ hsame) (List.nil_subset _)
  | cut => exact h.quiet rfl (List.Subset.refl _) (List.nil_subset _) (List.nil_subset _)
  | abort => exact h.quiet rfl (List.Subset.refl _) hfile (List.nil_subset _)
  | others => exact h.quiet rfl (List.subset_append_left _ _) hfile hsame

/-- Whatever the answers and wherever a cycle ends, no etag gets ahead of the table. -/
theorem etags_never_ahead (h : Reachable (cycling H S) p) : NeverAhead p := by
  have hbehind : Behind p := by
    refine h.invariant (I := Behind) (fun p hp => ?_) fun p a q _ hp _ hstep => hp.step hstep
    obtain ⟨hfile, hphase, hexchanges⟩ := hp
    refine ⟨⟨?_, ?_⟩, ?_⟩
    · rw [hfile]
      exact fun entry hentry => absurd hentry List.not_mem_nil
    · rw [hexchanges]
      exact fun x hx => absurd hx List.not_mem_nil
    · rw [hphase]
      exact fun entry hentry => absurd hentry List.not_mem_nil
  exact hbehind.toNeverAhead

end Etags

section Samples

def Stalling.reference : Stalling :=
  ⟨990, fun _ => none, fun _ _ _ => "{}", 60⟩

def sampleStart : Poller :=
  ⟨.empty, .missing, .idle, [], []⟩

/-- A cycle that stores a run and keeps its etag, and one that finds it not modified. -/
def sampleCycles : List Act :=
  [.begin [("owner", "repo")],
    .runs ⟨200, some "v1", [(sampleItem "queued" none, ulidAt 1)]⟩ nsReceivedAtMin nsReceivedAtMin,
    .jobs ⟨500, none, []⟩ nsReceivedAtMin, .stalls 0 nsReceivedAtMin [], .save,
    .begin [("owner", "repo")], .runs ⟨304, some "v1", []⟩ nsReceivedAtMin nsReceivedAtMin, .abort]

theorem etags_never_ahead_run : ∃ p : Poller, loadEtagState p.file = [("owner/repo", "v1")] ∧
    (∃ x ∈ p.exchanges, x.reply.status = 304 ∧ x.sent = some "v1") ∧ NeverAhead p := by
  obtain ⟨p, hrun, hfile, hsent⟩ : ∃ p ∈ (cycling Host.reference Stalling.reference).exec
      sampleStart sampleCycles, loadEtagState p.file = [("owner/repo", "v1")] ∧
        ∃ x ∈ p.exchanges, x.reply.status = 304 ∧ x.sent = some "v1" := by
    decide +kernel
  have hreach : Reachable (cycling Host.reference Stalling.reference) p :=
    Reachable.exec (.start ⟨rfl, rfl, rfl⟩) hrun
  exact ⟨p, hfile, hsent, etags_never_ahead hreach⟩

end Samples

end Waitbus.PollCycle
