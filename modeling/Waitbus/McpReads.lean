import Waitbus.Subscriptions
import Waitbus.Untrusted

/-! What the read tools and the event resource return to a model. The tools set every text an
outsider can write between delimiters, whatever its length. The resource and the inbox return those
columns bare, and the payload fence ends where it should as long as the size cap does not cut
it. -/

namespace Waitbus.McpReads
open Python Json FrameCodec EventStore Summary Subscriptions Untrusted Delimiters

/-- What the queries leave to SQLite, the order of rows that tie, and when a float literal equals
an integer. -/
structure Host where
  sort : (Row → Row → Bool) → List Row → List Row
  floatEq : FloatLit → Int → Bool
  sort_perm : ∀ le rows, (sort le rows).Perm rows
  sort_sorted : ∀ le rows, (∀ a b, le a b || le b a) → (∀ a b c, le a b → le b c → le a c) →
    (sort le rows).Pairwise fun a b => le a b

/-- A host to evaluate the model with: rows that tie stay in commit order. -/
def Host.reference : Host where
  sort := fun le rows => rows.mergeSort le
  floatEq _ _ := false
  sort_perm le rows := List.mergeSort_perm rows le
  sort_sorted _ rows htotal htrans := List.pairwise_mergeSort htrans htotal rows

section Projections

/-- The dict in the place of a payload that is too long. -/
structure TruncationMarker where
  fullSizeBytes : Nat
  rawUri : PyStr
  fencedPreview : PyStr
  deriving DecidableEq

inductive Cell where
  | null
  | integer (n : Int)
  | text (s : PyStr)
  | truncated (marker : TruncationMarker)
  deriving DecidableEq

abbrev Dict := List (String × Cell)

def SqlValue.cell : SqlValue → Cell
  | .null => .null
  | .integer n => .integer n.val
  | .text s => .text (ofText s)

def untrusted : List String :=
  ["workflow_name", "head_branch", "job_name", "alert_name", "alert_severity", "alert_fingerprint",
    "msg_to", "msg_from", "msg_correlation_id", "msg_reply_to", "msg_thread", "msg_body"]

def cleanOpt : Cell → Cell
  | .text s => .text (stripControl s)
  | cell => cell

def wrapExternalOpt : Cell → Cell
  | .text s => .text (if s = [] then s else wrapExternal s)
  | cell => cell

def optCell (s : Option String) : Cell :=
  SqlValue.cell (sqlText s)

def intCell (n : Option SqlInt) : Cell :=
  SqlValue.cell (sqlInteger n)

def repoCell (row : Row) : Cell :=
  .text (stripControl (ofText row.owner ++ ofText "/" ++ ofText row.repo))

def eventIdCell (row : Row) : Cell :=
  .text (((row.eventId.map fun id => ofText id.val)).getD [])

def eventRowToDict (row : Row) : Dict :=
  (row.columns.filter fun column => column.1 ≠ "payload_json").map fun (name, value) =>
    if name = "event_id" then (name, eventIdCell row)
    else (name, if name ∈ untrusted then cleanOpt (SqlValue.cell value) else SqlValue.cell value)

def rowToRunStatus (row : Row) : Dict :=
  [("repo", repoCell row), ("run_id", intCell row.runId),
    ("workflow_name", cleanOpt (optCell row.workflowName)),
    ("head_branch", cleanOpt (optCell row.headBranch)), ("head_sha", optCell row.headSha),
    ("status", optCell row.status), ("conclusion", optCell row.conclusion),
    ("event_id", optCell (row.eventId.map (·.val))), ("received_at", .integer row.receivedAt.val)]

def rowToJobStatus (row : Row) : Dict :=
  [("repo", repoCell row), ("job_id", intCell row.jobId),
    ("job_name", cleanOpt (optCell row.jobName)), ("parent_run_id", intCell row.parentRunId),
    ("conclusion", optCell row.conclusion), ("event_id", optCell (row.eventId.map (·.val))),
    ("received_at", .integer row.receivedAt.val)]

def rowToAgentMessage (row : Row) : Dict :=
  [("event_id", eventIdCell row), ("msg_to", cleanOpt (optCell row.msgTo)),
    ("msg_from", cleanOpt (optCell row.msgFrom)), ("msg_body", cleanOpt (optCell row.msgBody)),
    ("msg_thread", cleanOpt (optCell row.msgThread)),
    ("msg_correlation_id", cleanOpt (optCell row.msgCorrelationId)),
    ("received_at", .integer row.receivedAt.val)]

def wrapUntrustedEventFields (projected : Dict) : Dict :=
  projected.map fun (name, cell) =>
    (name, if name ∈ untrusted then wrapExternalOpt cell else cell)

end Projections

section Queries

/-- `LIMIT ?`, where a negative number is no limit. -/
def sqlLimit (limit : SqlInt) (rows : List Row) : List Row :=
  if limit.val < 0 then rows else rows.take limit.val.toNat

def splitRepo (repo : Option PyStr) : Option (PyStr × PyStr) :=
  match repo.map segments with
  | some [owner, name] => if owner ≠ [] ∧ name ≠ [] then some (owner, name) else none
  | _ => none

def ofRepo (repo : PyStr × PyStr) (row : Row) : Bool :=
  ofText row.owner = repo.1 ∧ ofText row.repo = repo.2

def newestFirst (a b : Row) : Bool :=
  b.receivedAt.val ≤ a.receivedAt.val

theorem sort_newestFirst (H : Host) (rows : List Row) :
    (H.sort newestFirst rows).Pairwise fun a b => b.receivedAt.val ≤ a.receivedAt.val :=
  (H.sort_sorted newestFirst rows
    (fun _ _ => Bool.or_eq_true_iff.mpr ((Int.le_total _ _).imp decide_eq_true decide_eq_true))
    fun _ _ _ hab hbc => decide_eq_true
      ((of_decide_eq_true hbc).trans (of_decide_eq_true hab))).imp of_decide_eq_true

def byRepo (a b : Row) : Bool :=
  a.owner < b.owner || (a.owner = b.owner && a.repo ≤ b.repo)

/-- `ORDER BY event_id`, the rows without one first. -/
def byEventId (a b : Row) : Bool :=
  match a.eventId, b.eventId with
  | none, _ => true
  | some _, none => false
  | some x, some y => x.val ≤ y.val

structure CiStatus where
  runs : List Dict
  queriedAtNs : Int

structure FailedJobs where
  jobs : List Dict
  queriedAtNs : Int

structure PrAggregate where
  repo : PyStr
  prNumber : Int
  runs : List Dict
  jobs : List Dict
  queriedAtNs : Int

/-- The rows `get_ci_status` reads. -/
def statusRows (H : Host) (store : Store) (repo : Option PyStr) : List Row :=
  let runs := store.rows.filter fun row => row.eventType = "workflow_run"
  match splitRepo repo with
  | some repo => (H.sort newestFirst (runs.filter (ofRepo repo))).take 1
  | none => H.sort byRepo <| runs.filter fun e =>
      runs.all fun row =>
        !(row.owner = e.owner && row.repo = e.repo) || row.receivedAt.val ≤ e.receivedAt.val

def toolGetCiStatusImpl (H : Host) (db : Option Store) (now : Int) (repo : Option PyStr) :
    CiStatus :=
  match db with
  | none => ⟨[], now⟩
  | some store => ⟨(statusRows H store repo).map rowToRunStatus, now⟩

/-- The rows `list_failed_jobs` reads. -/
def failedJobRows (H : Host) (store : Store) (repo : Option PyStr) (limit : SqlInt) : List Row :=
  let failed := store.rows.filter fun row =>
    row.eventType = "workflow_job" ∧ row.conclusion = some "failure"
  match splitRepo repo with
  | some repo => sqlLimit limit (H.sort newestFirst (failed.filter (ofRepo repo)))
  | none => sqlLimit limit (H.sort newestFirst failed)

def toolListFailedJobsImpl (H : Host) (db : Option Store) (now : Int) (repo : Option PyStr)
    (limit : SqlInt) : FailedJobs :=
  match db with
  | none => ⟨[], now⟩
  | some store => ⟨(failedJobRows H store repo limit).map rowToJobStatus, now⟩

/-- `value == n`. -/
def equalsInt (H : Host) (n : Int) : Value → Bool
  | .int m => m = n
  | .bool b => (if b then 1 else 0) = n
  | .float lit => H.floatEq lit n
  | _ => false

def payloadMatchesPr (H : Host) (payload : Value) (prNumber : Int) : Except PyExc Bool := do
  let workflowRun := getOr (← asDict payload) "workflow_run" payload
  match lookup "pull_requests" (← asDict workflowRun) with
  | some (.arr prs) =>
    return prs.any fun pr => match pr with
      | .obj pairs => ((lookup "number" pairs).map (equalsInt H prNumber)).getD false
      | _ => false
  | _ => return false

/-- What the loop over the rows of a repository has gathered. -/
structure Gathered where
  runs : List Row
  jobs : List Row
  matchedRunIds : List Int

def gather (H : Host) (R : Runtime) (prNumber : Int) (acc : Gathered) (row : Row) :
    Except PyExc Gathered :=
  match loads R.decodeDepth row.payloadJson with
  | .error .jsonDecodeError => .ok acc
  | .error exc => .error exc
  | .ok payload => do
    if ← payloadMatchesPr H payload prNumber then
      if row.eventType = "workflow_run" then
        return { acc with
          runs := acc.runs ++ [row]
          matchedRunIds := acc.matchedRunIds ++ (row.runId.map (·.val)).toList }
      else if row.eventType = "workflow_job" then return { acc with jobs := acc.jobs ++ [row] }
      else return acc
    else if row.eventType = "workflow_job" ∧ ∃ id ∈ row.parentRunId, id.val ∈ acc.matchedRunIds then
      return { acc with jobs := acc.jobs ++ [row] }
    else return acc

/-- The rows of a repository that `get_pr_aggregate` goes over. -/
def pullRequestRows (H : Host) (store : Store) (repo : PyStr × PyStr) : List Row :=
  H.sort byEventId <| store.rows.filter fun row =>
    ofRepo repo row ∧ row.eventType ∈ ["workflow_run", "workflow_job"]

def toolGetPrAggregateImpl (H : Host) (R : Runtime) (db : Option Store) (now : Int)
    (repo : PyStr) (prNumber : Int) : Except PyExc PrAggregate :=
  match splitRepo (some repo) with
  | none => .error .valueError
  | some split =>
    match db with
    | none => .ok ⟨repo, prNumber, [], [], now⟩
    | some store => do
      let found ← (pullRequestRows H store split).foldlM (gather H R prNumber) ⟨[], [], []⟩
      return ⟨repo, prNumber, found.runs.map rowToRunStatus, found.jobs.map rowToJobStatus, now⟩

end Queries

section Payloads

def eventPayloadCapBytes : Nat := 65536

def rawLabel : PyStr := ofText "raw-webhook-payload"

def uriEventPrefix : PyStr := ofText "waitbus://event/"

def rawSuffix : PyStr := ofText "/raw"

def utf8Size (c : PyChar) : Nat :=
  (c.toScalar.map Char.utf8Size).getD 0

/-- `len(s.encode("utf-8"))`. -/
def utf8Length (s : PyStr) : Nat :=
  (s.map utf8Size).sum

/-- `s.encode("utf-8")[:n].decode("utf-8", errors="replace")`: a code point the cut goes through
is replaced. -/
def utf8Cut : Nat → PyStr → PyStr
  | _, [] => []
  | n, c :: rest =>
    if utf8Size c ≤ n then c :: utf8Cut (n - utf8Size c) rest
    else if n = 0 then []
    else [.scalar (Char.ofNat 0xfffd)]

def fencedPayload (row : Row) : PyStr :=
  fence (ofText row.payloadJson) rawLabel

/-- The payload as `get_event` and the capped resource return it. -/
def cappedPayload (ulid : PyStr) (row : Row) : Cell :=
  let fenced := fencedPayload row
  if utf8Length fenced > eventPayloadCapBytes then
    .truncated ⟨utf8Length fenced, uriEventPrefix ++ ulid ++ rawSuffix,
      utf8Cut eventPayloadCapBytes fenced⟩
  else .text fenced

end Payloads

section Tools

def readEventRow (db : Option Store) (ulid : PyStr) : Except PyExc Row :=
  match db with
  | none => .error .valueError
  | some store =>
    match store.rows.find? fun row => row.eventId.map (fun id => ofText id.val) = some ulid with
    | none => .error .valueError
    | some row => .ok row

def toolGetEventImpl (db : Option Store) (ulid : PyStr) : Except PyExc Dict := do
  let row ← readEventRow db ulid
  return wrapUntrustedEventFields (eventRowToDict row) ++ [("payload_json", cappedPayload ulid row)]

inductive CiResult where
  | status (result : CiStatus)
  | failedJobs (result : FailedJobs)
  | prAggregate (result : PrAggregate)

def CiResult.entries : CiResult → List Dict
  | .status result => result.runs
  | .failedJobs result => result.jobs
  | .prAggregate result => result.runs ++ result.jobs

/-- `d[key]` in a line of text, `default` where it is missing, null or empty. -/
def shown (d : Dict) (key default : String) : PyStr :=
  match d.lookup key with
  | some (.text s) => if s = [] then ofText default else s
  | some (.integer n) => ofText (toString n)
  | _ => ofText default

def runSummary (run : Dict) : PyStr :=
  shown run "repo" "" ++ ofText ": " ++ shown run "workflow_name" "?" ++ ofText " [" ++
    shown run "conclusion" "pending" ++ ofText "]"

def summariseRuns (runs : List Dict) : PyStr :=
  if runs = [] then ofText "No workflow_run events recorded."
  else
    Python.join (ofText "; ") ((runs.take 5).map runSummary) ++
      (if runs.length > 5 then ofText (" (+" ++ toString (runs.length - 5) ++ " more)") else [])

structure CiArguments where
  repo : Option PyStr
  limit : Option SqlInt
  prNumber : Option Int

def listFailedJobsDefaultLimit : SqlInt := ⟨20, by decide⟩

def queryCiDispatch (H : Host) (R : Runtime) (db : Option Store) (now : Int) (view : String)
    (arguments : CiArguments) : Except PyExc (CiResult × PyStr) :=
  if view = "status" then
    let runs := (toolGetCiStatusImpl H db now arguments.repo).runs.map wrapUntrustedEventFields
    .ok (.status ⟨runs, now⟩, summariseRuns runs)
  else if view = "failed_jobs" then
    let result := toolListFailedJobsImpl H db now arguments.repo
      (arguments.limit.getD listFailedJobsDefaultLimit)
    let jobs := result.jobs.map wrapUntrustedEventFields
    .ok (.failedJobs ⟨jobs, now⟩,
      if jobs = [] then ofText "No failed workflow_job events recorded."
      else ofText (toString jobs.length ++ " failed job(s)"))
  else if view = "pr_aggregate" then
    match arguments.repo, arguments.prNumber with
    | some repo, some prNumber => do
      let result ← toolGetPrAggregateImpl H R db now repo prNumber
      let runs := result.runs.map wrapUntrustedEventFields
      let jobs := result.jobs.map wrapUntrustedEventFields
      return (.prAggregate { result with runs, jobs },
        ofText ("PR #" ++ toString prNumber ++ " on ") ++ repo ++
          ofText (": " ++ toString runs.length ++ " run(s), " ++ toString jobs.length ++ " job(s)"))
    | _, _ => .error .valueError
  else .error .valueError

/-- The clause of `_event_type_filter`: an absent or empty list leaves the agents' messages out. -/
def eventTypeFilter (eventTypes : List String) (row : Row) : Bool :=
  if eventTypes = [] then row.eventType ≠ "agent_message" else row.eventType ∈ eventTypes

structure TailArguments where
  repo : Option PyStr
  sinceCursor : Option String
  limit : SqlInt
  maxWaitSeconds : Int
  eventTypes : Option (List String)

structure Page where
  entries : List Dict
  nextCursor : Option String
  queriedAtNs : Int

/-- The id of the last row, else the cursor the page was asked for with. -/
def nextCursor (rows : List Row) (since : Option String) : Option String :=
  match rows.getLast? with
  | some row => some ((row.eventId.map (·.val)).getD "")
  | none => since

/-- The rows of one page of `tail_events`. -/
def tailRows (store : Store) (arguments : TailArguments) : List Row :=
  sqlLimit arguments.limit <| store.fanOutable.filter fun row =>
    store.seqForEventId (arguments.sinceCursor.getD "") < row.seq &&
      ((splitRepo arguments.repo).map fun repo => ofRepo repo row).getD true &&
      eventTypeFilter (arguments.eventTypes.getD []) row

def tailEventsRead (db : Option Store) (now : Int) (arguments : TailArguments) : Page :=
  match db with
  | none => ⟨[], arguments.sinceCursor, now⟩
  | some store =>
    let rows := tailRows store arguments
    ⟨rows.map eventRowToDict, nextCursor rows arguments.sinceCursor, now⟩

/-- What the database holds at a read, and the clock there. -/
structure Reading where
  db : Option Store
  now : Int

def tailEventsMaxWaitCapSeconds : Int := 270

/-- The first reading, or the second one after a wait; there is no wait where the daemon cannot be
reached. -/
def tailEventsBlocking (first second : Reading) (reachable : Bool) (arguments : TailArguments) :
    Except PyExc Page :=
  if arguments.maxWaitSeconds > tailEventsMaxWaitCapSeconds then .error .valueError
  else
    let result := tailEventsRead first.db first.now arguments
    if result.entries ≠ [] ∨ arguments.maxWaitSeconds ≤ 0 then .ok result
    else if ¬reachable then .ok result
    else .ok (tailEventsRead second.db second.now arguments)

/-- The `tail_events` branch of `_call_tool`. -/
def callTailEvents (first second : Reading) (reachable : Bool) (arguments : TailArguments) :
    Except PyExc Page := do
  let result ← tailEventsBlocking first second reachable arguments
  return { result with entries := result.entries.map wrapUntrustedEventFields }

def inboxRows (store : Store) (agent : PyStr) (sinceCursor : Option String) (limit : SqlInt) :
    List Row :=
  sqlLimit limit <| store.fanOutable.filter fun row =>
    store.seqForEventId (sinceCursor.getD "") < row.seq && row.eventType = "agent_message" &&
      (row.msgTo.map ofText = some agent || row.msgTo = some "*")

def readAgentMessagesImpl (db : Option Store) (now : Int) (agent : PyStr)
    (sinceCursor : Option String) (limit : SqlInt) : Page :=
  match db with
  | none => ⟨[], sinceCursor, now⟩
  | some store =>
    let rows := inboxRows store agent sinceCursor limit
    ⟨rows.map rowToAgentMessage, nextCursor rows sinceCursor, now⟩

end Tools

section Resources

inductive ResourceContents where
  | snapshot (status : CiStatus)
  | event (body : Dict)
  | doorbell (agent uri : PyStr)

def parseRepoUri (uri : PyStr) : Option (PyStr × PyStr) :=
  if ¬uriRepoPrefix <+: uri then none
  else match segments (uri.drop uriRepoPrefix.length) with
    | [owner, name] => if owner ≠ [] ∧ name ≠ [] then some (owner, name) else none
    | _ => none

def parseEventUri (uri : PyStr) : Option PyStr :=
  let tail := uri.drop uriEventPrefix.length
  if ¬uriEventPrefix <+: uri then none
  else if tail = [] ∨ rawSuffix <:+ tail then none
  else some tail

def parseEventRawUri (uri : PyStr) : Option PyStr :=
  let tail := uri.drop uriEventPrefix.length
  if ¬uriEventPrefix <+: uri then none
  else if ¬rawSuffix <:+ tail then none
  else
    let ulid := tail.take (tail.length - rawSuffix.length)
    if ulid = [] then none else some ulid

def isReadableUri (uri : PyStr) : Bool :=
  uri = uriCurrent || uriRepoPrefix.isPrefixOf uri || uriEventPrefix.isPrefixOf uri ||
    uriAgentPrefix.isPrefixOf uri

def eventContents (db : Option Store) (ulid : PyStr) (payload : Row → Cell) :
    Except PyExc ResourceContents := do
  let row ← readEventRow db ulid
  return .event (eventRowToDict row ++ [("payload_json", payload row)])

/-- `_read_resource_handler`: the contents before they are written as JSON. -/
def readResourceHandler (H : Host) (db : Option Store) (now : Int) (uri : PyStr) :
    Except PyExc ResourceContents :=
  if ¬isReadableUri uri then .error .valueError
  else if uri = uriCurrent then .ok (.snapshot (toolGetCiStatusImpl H db now none))
  else
    match parseEventRawUri uri with
    | some ulid => eventContents db ulid fun row => .text (fencedPayload row)
    | none =>
      match parseEventUri uri with
      | some ulid => eventContents db ulid (cappedPayload ulid)
      | none =>
        match parseAgentUri uri with
        | some agent => .ok (.doorbell agent uri)
        | none =>
          match parseRepoUri uri with
          | some (owner, name) =>
            if owner = wildcard ∨ name = wildcard then .error .valueError
            else
              .ok (.snapshot (toolGetCiStatusImpl H db now (some (owner ++ .scalar '/' :: name))))
          | none => .error .valueError

end Resources

section Delimiting

/-- Every text an outsider can write is set between the tool delimiters. -/
def Shielded (d : Dict) : Prop :=
  ∀ name ∈ untrusted, ∀ s, (name, .text s) ∈ d → s ≠ [] →
    Encloses externalOpen externalTag s

/-- The texts an outsider can write are those of the row, without their control characters. -/
def Bare (row : Row) (d : Dict) : Prop :=
  ∀ name ∈ untrusted, ∀ s, (name, .text s) ∈ d →
    ∃ stored, (name, .text stored) ∈ row.columns ∧ s = stripControl (ofText stored)

def PayloadFenced (row : Row) (body : Dict) : Prop :=
  body.lookup "payload_json" = some (.text (fencedPayload row)) ∧
    Encloses (fenceOpening rawLabel) fenceTag (fencedPayload row)

def FitsCap (row : Row) : Prop :=
  utf8Length (fencedPayload row) ≤ eventPayloadCapBytes

instance (row : Row) : Decidable (FitsCap row) :=
  inferInstanceAs (Decidable (_ ≤ _))

theorem wrapExternalOpt_encloses {cell : Cell} {s : PyStr} (h : wrapExternalOpt cell = .text s)
    (hs : s ≠ []) : Encloses externalOpen externalTag s := by
  cases cell with
  | text t =>
    simp only [wrapExternalOpt, Cell.text.injEq] at h
    split at h
    · rename_i ht
      exact absurd (h.symm.trans ht) hs
    · rw [← h]
      exact wrapExternal_encloses t
  | null | integer n | truncated marker => nomatch h

theorem shielded_wrap (d : Dict) : Shielded (wrapUntrustedEventFields d) := by
  intro name hname s hs hne
  obtain ⟨⟨field, cell⟩, -, heq⟩ := List.mem_map.mp hs
  obtain ⟨rfl, hcell⟩ := Prod.mk.inj heq
  rw [if_pos hname] at hcell
  exact wrapExternalOpt_encloses hcell hne

theorem shielded_append_payload {d : Dict} (h : Shielded d) (cell : Cell) :
    Shielded (d ++ [("payload_json", cell)]) := by
  intro name hname s hs hne
  rcases List.mem_append.mp hs with hs | hs
  · exact h name hname s hs hne
  · rw [(Prod.mk.inj (List.mem_singleton.mp hs)).1] at hname
    exact absurd hname (by decide)

theorem bare_append_payload {row : Row} {d : Dict} (h : Bare row d) (cell : Cell) :
    Bare row (d ++ [("payload_json", cell)]) := by
  intro name hname s hs
  rcases List.mem_append.mp hs with hs | hs
  · exact h name hname s hs
  · rw [(Prod.mk.inj (List.mem_singleton.mp hs)).1] at hname
    exact absurd hname (by decide)

theorem cleanOpt_cell {value : SqlValue} {s : PyStr}
    (h : cleanOpt (SqlValue.cell value) = .text s) :
    ∃ stored, value = .text stored ∧ s = stripControl (ofText stored) := by
  cases value with
  | text stored => exact ⟨stored, rfl, (Cell.text.inj h).symm⟩
  | null | integer n => nomatch h

theorem bare_eventRowToDict (row : Row) : Bare row (eventRowToDict row) := by
  intro name hname s hs
  obtain ⟨⟨column, value⟩, hcolumn, heq⟩ := List.mem_map.mp hs
  have hcolumn := (List.mem_filter.mp hcolumn).1
  dsimp only at heq
  split at heq
  · rename_i hid
    rw [← (Prod.mk.inj heq).1, hid] at hname
    exact absurd hname (by decide)
  · obtain ⟨rfl, hcell⟩ := Prod.mk.inj heq
    rw [if_pos hname] at hcell
    obtain ⟨stored, rfl, hs⟩ := cleanOpt_cell hcell
    exact ⟨stored, hcolumn, hs⟩

theorem bare_column {row : Row} {name : String} {value : SqlValue} {s : PyStr}
    (hcolumn : (name, value) ∈ row.columns) (h : Cell.text s = cleanOpt (SqlValue.cell value)) :
    ∃ stored, (name, .text stored) ∈ row.columns ∧ s = stripControl (ofText stored) := by
  obtain ⟨stored, rfl, hs⟩ := cleanOpt_cell h.symm
  exact ⟨stored, hcolumn, hs⟩

theorem bare_rowToAgentMessage (row : Row) : Bare row (rowToAgentMessage row) := by
  intro name hname s hs
  simp only [rowToAgentMessage, List.mem_cons, Prod.mk.injEq, List.not_mem_nil, or_false] at hs
  rcases hs with ⟨rfl, h⟩ | ⟨rfl, h⟩ | ⟨rfl, h⟩ | ⟨rfl, h⟩ | ⟨rfl, h⟩ | ⟨rfl, h⟩ | ⟨rfl, h⟩
  · exact absurd hname (by decide)
  · exact bare_column (by simp [Row.columns]) h
  · exact bare_column (by simp [Row.columns]) h
  · exact bare_column (by simp [Row.columns]) h
  · exact bare_column (by simp [Row.columns]) h
  · exact bare_column (by simp [Row.columns]) h
  · exact absurd hname (by decide)

theorem not_mem_eventRowToDict (row : Row) (cell : Cell) :
    ("payload_json", cell) ∉ eventRowToDict row := by
  intro h
  obtain ⟨⟨column, value⟩, hcolumn, heq⟩ := List.mem_map.mp h
  have hne := (List.mem_filter.mp hcolumn).2
  dsimp only at heq
  split at heq
  · rename_i hid
    rw [hid] at heq
    exact absurd (Prod.mk.inj heq).1 (by decide)
  · rw [(Prod.mk.inj heq).1] at hne
    exact of_decide_eq_true hne rfl

theorem not_mem_wrap {d : Dict} {name : String} (h : ∀ cell, (name, cell) ∉ d) (cell : Cell) :
    (name, cell) ∉ wrapUntrustedEventFields d := by
  intro hmem
  obtain ⟨⟨field, old⟩, hfield, heq⟩ := List.mem_map.mp hmem
  obtain ⟨rfl, -⟩ := Prod.mk.inj heq
  exact h old hfield

theorem lookup_payload {d : Dict} (h : ∀ cell, ("payload_json", cell) ∉ d) (cell : Cell) :
    (d ++ [("payload_json", cell)]).lookup "payload_json" = some cell := by
  induction d with
  | nil => rfl
  | cons entry rest ih =>
    obtain ⟨name, value⟩ := entry
    have hname : ("payload_json" == name) = false := by
      rw [beq_eq_false_iff_ne]
      rintro rfl
      exact h value List.mem_cons_self
    rw [List.cons_append, List.lookup_cons, hname]
    exact ih fun cell hmem => h cell (List.mem_cons_of_mem _ hmem)

theorem payloadFenced_of_text {row : Row} {d : Dict} (h : ∀ cell, ("payload_json", cell) ∉ d) :
    PayloadFenced row (d ++ [("payload_json", .text (fencedPayload row))]) :=
  ⟨lookup_payload h _, fence_encloses _ _⟩

theorem cappedPayload_of_fits {row : Row} (h : FitsCap row) (ulid : PyStr) :
    cappedPayload ulid row = .text (fencedPayload row) := by
  simp only [cappedPayload]
  exact if_neg (Nat.not_lt.mpr h)

/-- What each path that returns the text of rows to a model does with it. -/
structure Delimits (H : Host) (R : Runtime) : Prop where
  getEvent : ∀ db ulid body, toolGetEventImpl db ulid = .ok body →
    Shielded body ∧
      ∃ row, readEventRow db ulid = .ok row ∧ (FitsCap row → PayloadFenced row body)
  tailEvents : ∀ first second reachable arguments page,
    callTailEvents first second reachable arguments = .ok page → ∀ d ∈ page.entries, Shielded d
  queryCi : ∀ db now view arguments result human,
    queryCiDispatch H R db now view arguments = .ok (result, human) →
      (∀ d ∈ result.entries, Shielded d) ∧
        ∀ status, result = .status status → human = summariseRuns status.runs
  eventResource : ∀ db now uri body,
    readResourceHandler H db now uri = .ok (.event body) →
      ∃ ulid row, readEventRow db ulid = .ok row ∧ Bare row body ∧
        (parseEventRawUri uri = some ulid ∨ FitsCap row → PayloadFenced row body)
  inbox : ∀ db now agent since limit,
    ∀ d ∈ (readAgentMessagesImpl db now agent since limit).entries,
    ∃ store row, db = some store ∧ row ∈ store.rows ∧ Bare row d

theorem getEvent_delimits {db : Option Store} {ulid : PyStr} {body : Dict}
    (h : toolGetEventImpl db ulid = .ok body) :
    Shielded body ∧
      ∃ row, readEventRow db ulid = .ok row ∧ (FitsCap row → PayloadFenced row body) := by
  rw [toolGetEventImpl] at h
  cases hrow : readEventRow db ulid with
  | error exc =>
    rw [hrow] at h
    nomatch h
  | ok row =>
    rw [hrow] at h
    obtain rfl := Except.ok.inj h
    refine ⟨shielded_append_payload (shielded_wrap _) _, row, rfl, fun hfits => ?_⟩
    rw [cappedPayload_of_fits hfits]
    exact payloadFenced_of_text (not_mem_wrap (not_mem_eventRowToDict row))

theorem tailEvents_delimits {first second : Reading} {reachable : Bool} {arguments : TailArguments}
    {page : Page} (h : callTailEvents first second reachable arguments = .ok page) :
    ∀ d ∈ page.entries, Shielded d := by
  rw [callTailEvents] at h
  cases hpage : tailEventsBlocking first second reachable arguments with
  | error exc =>
    rw [hpage] at h
    nomatch h
  | ok result =>
    rw [hpage] at h
    obtain rfl := Except.ok.inj h
    intro d hd
    obtain ⟨projected, -, rfl⟩ := List.mem_map.mp hd
    exact shielded_wrap projected

theorem shielded_of_mem_map {dicts : List Dict} {d : Dict}
    (h : d ∈ dicts.map wrapUntrustedEventFields) : Shielded d := by
  obtain ⟨projected, -, rfl⟩ := List.mem_map.mp h
  exact shielded_wrap projected

theorem queryCi_delimits {H : Host} {R : Runtime} {db : Option Store} {now : Int} {view : String}
    {arguments : CiArguments} {result : CiResult} {human : PyStr}
    (h : queryCiDispatch H R db now view arguments = .ok (result, human)) :
    (∀ d ∈ result.entries, Shielded d) ∧
      ∀ status, result = .status status → human = summariseRuns status.runs := by
  simp only [queryCiDispatch] at h
  split at h
  · obtain ⟨rfl, rfl⟩ := Prod.mk.inj (Except.ok.inj h)
    refine ⟨fun d hd => shielded_of_mem_map hd, fun status hstatus => ?_⟩
    rw [← CiResult.status.inj hstatus]
  · split at h
    · obtain ⟨rfl, -⟩ := Prod.mk.inj (Except.ok.inj h)
      exact ⟨fun d hd => shielded_of_mem_map hd, fun status hstatus => nomatch hstatus⟩
    · split at h
      · split at h
        · rename_i repo prNumber hrepo hnumber
          cases haggregate : toolGetPrAggregateImpl H R db now repo prNumber with
          | error exc =>
            rw [haggregate] at h
            nomatch h
          | ok aggregate =>
            rw [haggregate] at h
            obtain ⟨rfl, -⟩ := Prod.mk.inj (Except.ok.inj h)
            refine ⟨fun d hd => ?_, fun status hstatus => nomatch hstatus⟩
            rcases List.mem_append.mp hd with hd | hd
            · exact shielded_of_mem_map hd
            · exact shielded_of_mem_map hd
        · nomatch h
      · nomatch h

theorem sqlLimit_subset {limit : SqlInt} {rows : List Row} {row : Row}
    (h : row ∈ sqlLimit limit rows) : row ∈ rows := by
  rw [sqlLimit] at h
  split at h
  · exact h
  · exact List.mem_of_mem_take h

theorem eventContents_body {db : Option Store} {ulid : PyStr} {payload : Row → Cell} {body : Dict}
    (h : eventContents db ulid payload = .ok (.event body)) :
    ∃ row, readEventRow db ulid = .ok row ∧
      body = eventRowToDict row ++ [("payload_json", payload row)] := by
  rw [eventContents] at h
  cases hrow : readEventRow db ulid with
  | error exc =>
    rw [hrow] at h
    nomatch h
  | ok row =>
    rw [hrow] at h
    exact ⟨row, rfl, (ResourceContents.event.inj (Except.ok.inj h)).symm⟩

theorem eventResource_delimits {H : Host} {db : Option Store} {now : Int} {uri : PyStr}
    {body : Dict} (h : readResourceHandler H db now uri = .ok (.event body)) :
    ∃ ulid row, readEventRow db ulid = .ok row ∧ Bare row body ∧
      (parseEventRawUri uri = some ulid ∨ FitsCap row → PayloadFenced row body) := by
  rw [readResourceHandler] at h
  split at h
  · nomatch h
  split at h
  · nomatch h
  split at h
  · rename_i ulid hraw
    obtain ⟨row, hrow, rfl⟩ := eventContents_body h
    exact ⟨ulid, row, hrow, bare_append_payload (bare_eventRowToDict row) _,
      fun _ => payloadFenced_of_text (not_mem_eventRowToDict row)⟩
  · rename_i hraw
    split at h
    · rename_i ulid hevent
      obtain ⟨row, hrow, rfl⟩ := eventContents_body h
      refine ⟨ulid, row, hrow, bare_append_payload (bare_eventRowToDict row) _, fun hfits => ?_⟩
      rw [hraw] at hfits
      rw [cappedPayload_of_fits (hfits.resolve_left nofun)]
      exact payloadFenced_of_text (not_mem_eventRowToDict row)
    · split at h
      · nomatch h
      · split at h
        · split at h <;> nomatch h
        · nomatch h

theorem inbox_bare {db : Option Store} {now : Int} {agent : PyStr} {since : Option String}
    {limit : SqlInt} {d : Dict}
    (h : d ∈ (readAgentMessagesImpl db now agent since limit).entries) :
    ∃ store row, db = some store ∧ row ∈ store.rows ∧ Bare row d := by
  cases db with
  | none => exact absurd h List.not_mem_nil
  | some store =>
    obtain ⟨row, hrow, rfl⟩ := List.mem_map.mp h
    have hfan := (List.mem_filter.mp (sqlLimit_subset hrow)).1
    exact ⟨store, row, rfl, (List.mem_filter.mp hfan).1, bare_rowToAgentMessage row⟩

/-- A database with one message in it, `run`, for the agent `b`. -/
def inboxStore : Store :=
  (Store.empty.insertOrIgnore (messageRow "b" "run")).2

end Delimiting

end Waitbus.McpReads
