import Waitbus.EventStore
import Waitbus.JsonText

/-! The webhook listener from a body whose signature holds to its one response. The event it
builds has in its columns whatever JSON the payload had there; what the database cannot bind
is found out only at the insert. -/

namespace Waitbus.Webhook
open Python Json EventStore

section Extraction

/-- `x if isinstance(x, dict) else {}`. -/
def asDict : Value → List (PyStr × Value)
  | .obj pairs => pairs
  | _ => []

@[simp] theorem asDict_obj (pairs : List (PyStr × Value)) : asDict (.obj pairs) = pairs :=
  rfl

/-- `d.get(key)`. -/
def get (key : String) (pairs : List (PyStr × Value)) : Value :=
  (lookup key pairs).getD .null

/-- `alerts[0] if alerts else None`, for the list that the value is coerced to. -/
def firstRaw : Value → Value
  | .arr (item :: _) => item
  | _ => .null

/-- `x if isinstance(x, str) else None`. -/
def strOrNone : Value → Value
  | .str s => .str s
  | _ => .null

/-- `x or ""`. -/
def orEmpty (v : Value) : Value :=
  if v.truthy then v else .str []

def positiveIntOrNone : Value → Value
  | .int n => if 0 < n then .int n else .null
  | _ => .null

/-- An `EventInsert`, whose construction checks no type. -/
structure Event where
  deliveryId : String
  source : String
  eventType : String
  owner : Value
  repo : Value
  receivedAt : Int
  payloadJson : String
  ingestMethod : String
  runId : Value := .null
  workflowName : Value := .null
  headBranch : Value := .null
  headSha : Value := .null
  status : Value := .null
  conclusion : Value := .null
  jobId : Value := .null
  jobName : Value := .null
  parentRunId : Value := .null
  alertName : Value := .null
  alertSeverity : Value := .null
  alertFingerprint : Value := .null
  msgTo : Value := .null
  msgFrom : Value := .null
  msgCorrelationId : Value := .null
  msgReplyTo : Value := .null
  msgThread : Value := .null
  msgBody : Value := .null

/-- The parameters of the INSERT in `EVENT_COLUMNS` order, up to the event id. -/
def Event.columns (event : Event) : List Value :=
  [.str (ofText event.deliveryId), .str (ofText event.source), .str (ofText event.eventType),
    event.owner, event.repo, event.runId, event.workflowName, event.headBranch, event.headSha,
    event.status, event.conclusion, .int event.receivedAt, .str (ofText event.payloadJson),
    .str (ofText event.ingestMethod), event.jobId, event.jobName, event.parentRunId,
    event.alertName, event.alertSeverity, event.alertFingerprint, event.msgTo, event.msgFrom,
    event.msgCorrelationId, event.msgReplyTo, event.msgThread, event.msgBody]

structure Config where
  promOwner : String
  promRepo : String

def alertEventTypes : List String := ["prometheus_alert", "prometheus_watchdog"]

def eventFromWebhookPayload (config : Config) (eventType : String)
    (payload : List (PyStr × Value)) (deliveryId source : String) (receivedAtNs : Int)
    (payloadJson ingestMethod : String) : Event :=
  if eventType ∈ alertEventTypes then
    let first := asDict (firstRaw (get "alerts" payload))
    let labels := asDict (get "labels" first)
    { deliveryId, source, eventType, payloadJson, ingestMethod
      owner := .str (ofText config.promOwner)
      repo := .str (ofText config.promRepo)
      receivedAt := receivedAtNs
      status := strOrNone (get "status" payload)
      alertName := get "alertname" labels
      alertSeverity := get "severity" labels
      alertFingerprint := get "fingerprint" first }
  else
    let repoDict := asDict (get "repository" payload)
    let ownerObj := asDict (get "owner" repoDict)
    let event : Event :=
      { deliveryId, source, eventType, payloadJson, ingestMethod
        owner := orEmpty (get "login" ownerObj)
        repo := orEmpty (get "name" repoDict)
        receivedAt := receivedAtNs }
    if eventType = "workflow_run" then
      let run := asDict (get "workflow_run" payload)
      { event with
        runId := positiveIntOrNone (get "id" run)
        workflowName := get "name" run
        headBranch := get "head_branch" run
        headSha := get "head_sha" run
        status := get "status" run
        conclusion := get "conclusion" run }
    else if eventType = "workflow_job" then
      let job := asDict (get "workflow_job" payload)
      { event with
        headBranch := get "head_branch" job
        headSha := get "head_sha" job
        status := get "status" job
        conclusion := get "conclusion" job
        jobId := positiveIntOrNone (get "id" job)
        jobName := get "name" job
        parentRunId := positiveIntOrNone (get "run_id" job) }
    else event

end Extraction

section Handlers

/-- Where the database raises a `sqlite3.Error` of its own. -/
inductive DbFault where
  | connecting
  | preparing
  | running
  deriving DecidableEq

/-- What a request meets: the configuration, the clock, the database and the interpreter. -/
structure Env where
  config : Config
  timeNs : Int
  fault : Option DbFault
  depth : Nat

/-- One parameter of a statement: arrays and objects are a `sqlite3.Error`. -/
def bindParam : Value → Except PyExc Unit
  | .null | .bool _ | .float _ => .ok ()
  | .int n => if -2 ^ 63 ≤ n ∧ n < 2 ^ 63 then .ok () else .error .overflowError
  | .str s => if Scalar s then .ok () else .error .unicodeEncodeError
  | .arr _ | .obj _ => .error .sqliteError

/-- `insert_event` on a connection; the event id that it adds is a text. -/
def insertEvent (fault : Option DbFault) (event : Event) : Except PyExc Unit :=
  if event.receivedAt ≤ 0 then .error .valueError
  else if event.receivedAt < nsReceivedAtMin then .error .valueError
  else if fault = some .preparing then .error .sqliteError
  else do
    event.columns.forM bindParam
    if fault = some .running then .error .sqliteError

def connectAndInsert (fault : Option DbFault) (event : Event) : Except PyExc Unit :=
  if fault = some .connecting then .error .sqliteError else insertEvent fault event

structure Handled where
  built : Option Event := none
  responses : List (Nat × String) := []
  escaped : Option PyExc := none

/-- What the handlers share: from `json.loads` to the response. -/
def storePayload (env : Env) (eventType deliveryId source : String) (body : Bytes) : Handled :=
  match decodeUtf8 body with
  | none => { responses := [(400, "bad_json")] }
  | some text =>
    match loads env.depth text with
    | .error .jsonDecodeError | .error .recursionError => { responses := [(400, "bad_json")] }
    | .error e => { escaped := some e }
    | .ok (.obj payload) =>
      let event := eventFromWebhookPayload env.config eventType payload deliveryId source
        env.timeNs text "webhook"
      match connectAndInsert env.fault event with
      | .ok () => { built := some event, responses := [(200, "ok")] }
      | .error .sqliteError => { built := some event, responses := [(500, "db_error")] }
      | .error e => { built := some event, escaped := some e }
    | .ok _ => { escaped := some .attributeError }

def handleGithub (env : Env) (eventType deliveryId : String) (body : Bytes) : Handled :=
  if deliveryId = "" then { responses := [(400, "missing_delivery_id")] }
  else if eventType ∉ ["workflow_run", "workflow_job"] then { responses := [(200, "ignored")] }
  else storePayload env eventType deliveryId "github" body

def handleAlertmanager (env : Env) (eventType deliveryId : String) (body : Bytes) : Handled :=
  if deliveryId = "" then { responses := [(400, "missing_delivery_id")] }
  else storePayload env eventType deliveryId "alertmanager" body

end Handlers

section Totality

/-- Null, an integer of 64 bits, of which a bool is one, or a text that UTF-8 encodes. -/
def Storable : Value → Prop
  | .null | .bool _ => True
  | .int n => -2 ^ 63 ≤ n ∧ n < 2 ^ 63
  | .str s => Scalar s
  | .float _ | .arr _ | .obj _ => False

structure Total (handled : Handled) : Prop where
  storable : ∀ event ∈ handled.built, ∀ column ∈ event.columns, Storable column
  answered : handled.responses.length = 1
  contained : handled.escaped = none

/-- A step into a payload: to the value under a key, or to the first item. -/
inductive Step where
  | key (key : String)
  | first

def reach (v : Value) : List Step → Value
  | [] => v
  | .key key :: rest => reach (get key (asDict v)) rest
  | .first :: rest => reach (firstRaw v) rest

inductive Coercion where
  | plain
  | orEmpty
  | strOrNone
  | positiveInt

def Coercion.apply : Coercion → Value → Value
  | .plain => id
  | .orEmpty => Webhook.orEmpty
  | .strOrNone => Webhook.strOrNone
  | .positiveInt => positiveIntOrNone

def Coercion.Fits : Coercion → Value → Prop
  | .plain, v => Storable v
  | .orEmpty, v => v.truthy = true → Storable v
  | .strOrNone, v => ∀ s, v = .str s → Scalar s
  | .positiveInt, v => ∀ n, v = .int n → n < 2 ^ 63

def reads (eventType : String) : List (Coercion × List Step) :=
  if eventType ∈ alertEventTypes then
    [(.strOrNone, [.key "status"]),
      (.plain, [.key "alerts", .first, .key "labels", .key "alertname"]),
      (.plain, [.key "alerts", .first, .key "labels", .key "severity"]),
      (.plain, [.key "alerts", .first, .key "fingerprint"])]
  else
    [(.orEmpty, [.key "repository", .key "owner", .key "login"]),
      (.orEmpty, [.key "repository", .key "name"])] ++
    if eventType = "workflow_run" then
      [(.positiveInt, [.key "workflow_run", .key "id"]),
        (.plain, [.key "workflow_run", .key "name"]),
        (.plain, [.key "workflow_run", .key "head_branch"]),
        (.plain, [.key "workflow_run", .key "head_sha"]),
        (.plain, [.key "workflow_run", .key "status"]),
        (.plain, [.key "workflow_run", .key "conclusion"])]
    else if eventType = "workflow_job" then
      [(.plain, [.key "workflow_job", .key "head_branch"]),
        (.plain, [.key "workflow_job", .key "head_sha"]),
        (.plain, [.key "workflow_job", .key "status"]),
        (.plain, [.key "workflow_job", .key "conclusion"]),
        (.positiveInt, [.key "workflow_job", .key "id"]),
        (.plain, [.key "workflow_job", .key "name"]),
        (.positiveInt, [.key "workflow_job", .key "run_id"])]
    else []

/-- What of a body, the clock and the database makes its handling total: what `json.loads` raises
is expected, a payload is an object and fits, and the time is one that an insert takes. -/
structure Sound (env : Env) (eventType : String) (body : Bytes) : Prop where
  parses : ∀ e, decoded env.depth body = some (.error e) →
    e = .jsonDecodeError ∨ e = .recursionError
  object : ∀ v, decoded env.depth body = some (.ok v) → ∃ payload, v = .obj payload
  fits : ∀ v, decoded env.depth body = some (.ok v) →
    ∀ read ∈ reads eventType, read.1.Fits (reach v read.2)
  clock : ∀ v, decoded env.depth body = some (.ok v) →
    Storable (.int env.timeNs) ∧ (env.fault = some .connecting ∨ nsReceivedAtMin ≤ env.timeNs)

end Totality

section Columns

variable {env : Env} {eventType deliveryId source : String} {body : Bytes}

theorem storable_apply (coercion : Coercion) (v : Value) :
    Storable (coercion.apply v) ↔ coercion.Fits v := by
  cases coercion with
  | plain => rfl
  | orEmpty =>
    rw [Coercion.apply, Webhook.orEmpty, Coercion.Fits]
    split
    · rename_i htruthy
      simp [htruthy]
    · rename_i hfalsy
      simp [hfalsy, Storable]
  | strOrNone =>
    cases v with
    | str s => simp [Coercion.apply, Webhook.strOrNone, Coercion.Fits, Storable]
    | null | bool | int | float | arr | obj =>
      simp [Coercion.apply, Webhook.strOrNone, Coercion.Fits, Storable]
  | positiveInt =>
    cases v with
    | int n =>
      simp only [Coercion.apply, positiveIntOrNone, Coercion.Fits, Value.int.injEq, forall_eq']
      split
      · rename_i hpos
        simp only [Storable]
        omega
      · rename_i hneg
        simp only [Storable, true_iff]
        omega
    | null | bool | float | str | arr | obj =>
      simp [Coercion.apply, positiveIntOrNone, Coercion.Fits, Storable]

theorem columns_storable (config : Config) (eventType deliveryId source payloadJson : String)
    (payload : List (PyStr × Value)) (now : Int) :
    (∀ column ∈ (eventFromWebhookPayload config eventType payload deliveryId source now
      payloadJson "webhook").columns, Storable column) ↔
    (∀ read ∈ reads eventType, read.1.Fits (reach (.obj payload) read.2)) ∧
      Storable (.int now) := by
  have htext : ∀ s, Storable (.str (ofText s)) := scalar_ofText
  have hnull : Storable .null := trivial
  simp only [← storable_apply, eventFromWebhookPayload, reads]
  split_ifs with halert hrun hjob
  all_goals
    simp only [Event.columns, List.forall_mem_cons, List.cons_append, List.nil_append, htext,
      hnull, reach, Coercion.apply, asDict_obj, id_eq, true_and, List.not_mem_nil, false_implies,
      implies_true, and_true]
    grind

theorem bindParam_storable {v : Value} (h : Storable v) : bindParam v = .ok () := by
  cases v with
  | null | bool => rfl
  | int n => exact if_pos h
  | str s => exact if_pos h
  | float | arr | obj => exact h.elim

/-- An event of storable columns is stored, or the database fails, unless the clock is behind. -/
theorem connectAndInsert_storable {event : Event} (fault : Option DbFault)
    (h : ∀ column ∈ event.columns, Storable column) :
    (connectAndInsert fault event = .ok () ∨ connectAndInsert fault event = .error .sqliteError) ∧
        (fault = some .connecting ∨ nsReceivedAtMin ≤ event.receivedAt) ∨
      connectAndInsert fault event = .error .valueError ∧
        ¬(fault = some .connecting ∨ nsReceivedAtMin ≤ event.receivedAt) := by
  have hbound : event.columns.forM bindParam = .ok () := by
    generalize event.columns = columns at h
    induction columns with
    | nil => rfl
    | cons column rest ih =>
      have hrest := ih fun c hc => h c (List.mem_cons_of_mem _ hc)
      simp only [List.forM_eq_forM, List.forM_cons] at hrest ⊢
      rw [bindParam_storable (h column List.mem_cons_self)]
      exact hrest
  by_cases hconnect : fault = some .connecting
  · exact .inl ⟨.inr (if_pos hconnect), .inl hconnect⟩
  rw [connectAndInsert, if_neg hconnect, insertEvent, hbound]
  have hmin : 0 < nsReceivedAtMin := by decide
  by_cases hbehind : event.receivedAt < nsReceivedAtMin
  · refine .inr ⟨?_, fun hclock => ?_⟩
    · split_ifs <;> rfl
    · rcases hclock with hfault | hlate
      · exact hconnect hfault
      · omega
  · refine .inl ⟨?_, .inr (by omega)⟩
    rw [if_neg (by omega), if_neg hbehind]
    split_ifs
    · exact .inr rfl
    · exact .inr rfl
    · exact .inl rfl

end Columns

section Requests

variable {env : Env} {eventType deliveryId source : String} {body : Bytes}

theorem total_rejected (code : Nat) (status : String) :
    Total { responses := [(code, status)] } :=
  ⟨nofun, rfl, rfl⟩

theorem not_total_escaped {handled : Handled} {e : PyExc} (h : handled.escaped = some e) :
    ¬Total handled := by
  intro htotal
  rw [htotal.contained] at h
  nomatch h

theorem storePayload_object {text : String} {payload : List (PyStr × Value)}
    (htext : decodeUtf8 body = some text) (hloads : loads env.depth text = .ok (.obj payload)) :
    Total (storePayload env eventType deliveryId source body) ↔
      (∀ read ∈ reads eventType, read.1.Fits (reach (.obj payload) read.2)) ∧
        Storable (.int env.timeNs) ∧
          (env.fault = some .connecting ∨ nsReceivedAtMin ≤ env.timeNs) := by
  rw [storePayload, htext]
  simp only [hloads]
  have hcolumns := columns_storable env.config eventType deliveryId source text payload env.timeNs
  have hreceived : (eventFromWebhookPayload env.config eventType payload deliveryId source
      env.timeNs text "webhook").receivedAt = env.timeNs := by
    rw [eventFromWebhookPayload]
    split_ifs <;> rfl
  generalize eventFromWebhookPayload env.config eventType payload deliveryId source env.timeNs
    text "webhook" = event at hcolumns hreceived ⊢
  rw [← and_assoc, ← hcolumns]
  by_cases hstorable : ∀ column ∈ event.columns, Storable column
  · rw [← hreceived]
    rcases connectAndInsert_storable env.fault hstorable with
      ⟨hstored | hfault, hclock⟩ | ⟨hraises, hclock⟩
    · rw [hstored]
      exact iff_of_true ⟨fun e he => by rwa [← Option.some.inj he], rfl, rfl⟩ ⟨hstorable, hclock⟩
    · rw [hfault]
      exact iff_of_true ⟨fun e he => by rwa [← Option.some.inj he], rfl, rfl⟩ ⟨hstorable, hclock⟩
    · rw [hraises]
      exact iff_of_false (not_total_escaped rfl) fun h => hclock h.2
  · refine iff_of_false (fun htotal => ?_) fun h => hstorable h.1
    apply hstorable
    apply htotal.storable
    split <;> rfl

theorem storePayload_total (env : Env) (eventType deliveryId source : String) (body : Bytes) :
    Total (storePayload env eventType deliveryId source body) ↔ Sound env eventType body := by
  have hsound : Sound env eventType body ↔ (∀ e, decoded env.depth body = some (.error e) →
      e = .jsonDecodeError ∨ e = .recursionError) ∧
      ∀ v, decoded env.depth body = some (.ok v) → (∃ payload, v = .obj payload) ∧
        (∀ read ∈ reads eventType, read.1.Fits (reach v read.2)) ∧ Storable (.int env.timeNs) ∧
          (env.fault = some .connecting ∨ nsReceivedAtMin ≤ env.timeNs) := by
    constructor
    · intro h
      exact ⟨h.parses, fun v hv => ⟨h.object v hv, h.fits v hv, h.clock v hv⟩⟩
    · rintro ⟨hparses, hok⟩
      exact ⟨hparses, fun v hv => (hok v hv).1, fun v hv => (hok v hv).2.1,
        fun v hv => (hok v hv).2.2⟩
  rw [hsound, decoded]
  cases htext : decodeUtf8 body with
  | none =>
    rw [storePayload, htext]
    exact iff_of_true (total_rejected _ _) ⟨(by simp), (by simp)⟩
  | some text =>
    rw [Option.map_some]
    cases hloads : loads env.depth text with
    | error e =>
      rw [storePayload, htext]
      simp only [hloads, Option.some.injEq, Except.error.injEq, reduceCtorEq, forall_eq',
        false_implies, implies_true, and_true]
      cases e with
      | jsonDecodeError => exact iff_of_true (total_rejected _ _) (.inl rfl)
      | recursionError => exact iff_of_true (total_rejected _ _) (.inr rfl)
      | _ => exact iff_of_false (not_total_escaped rfl) (by simp)
    | ok v =>
      simp only [Option.some.injEq, Except.ok.injEq, reduceCtorEq, forall_eq', false_implies,
        implies_true, true_and]
      cases v with
      | obj payload =>
        rw [storePayload_object htext hloads]
        simp
      | null | bool | int | float | str | arr =>
        rw [storePayload, htext]
        simp only [hloads]
        exact iff_of_false (not_total_escaped rfl) (by simp)

/-- The handlers are total on a request just when it stops short of its body, or that is sound. -/
theorem handlers_total (env : Env) (eventType deliveryId : String) (body : Bytes) :
    (Total (handleGithub env eventType deliveryId body) ↔
      (deliveryId ≠ "" → eventType ∈ ["workflow_run", "workflow_job"] →
        Sound env eventType body)) ∧
    (Total (handleAlertmanager env eventType deliveryId body) ↔
      (deliveryId ≠ "" → Sound env eventType body)) := by
  rw [handleGithub, handleAlertmanager]
  by_cases hdelivery : deliveryId = ""
  · simp only [hdelivery, if_true, total_rejected, ne_eq, not_true_eq_false, false_implies,
      and_self]
  by_cases hevent : eventType ∈ ["workflow_run", "workflow_job"]
  · simp only [hdelivery, hevent, not_true_eq_false, if_false, ne_eq, not_false_eq_true,
      forall_const, storePayload_total, and_self]
  · simp only [hdelivery, hevent, not_false_eq_true, if_true, if_false, ne_eq, forall_const,
      total_rejected, false_implies, storePayload_total, and_self]

/-- `{"workflow_run":{"id":9223372036854775808}}`. -/
def hugeRunId : Bytes :=
  utf8 ['{', '"', 'w', 'o', 'r', 'k', 'f', 'l', 'o', 'w', '_', 'r', 'u', 'n', '"', ':', '{', '"',
    'i', 'd', '"', ':', '9', '2', '2', '3', '3', '7', '2', '0', '3', '6', '8', '5', '4', '7', '7',
    '5', '8', '0', '8', '}', '}']

theorem hugeRunId_decoded : decoded 990 hugeRunId = some (.ok (.obj [(ofText "workflow_run",
    .obj [(ofText "id", .int 9223372036854775808)])])) := by
  rw [hugeRunId, decoded_utf8]
  rfl

def quietEnv : Env where
  config := ⟨"prometheus", "alerts"⟩
  timeNs := 1700000000000000000
  fault := none
  depth := 990

/-- A delivery with an empty array for its body, and one with a run id past the last of 64 bits. -/
theorem handlers_raise :
    ¬Total (handleGithub quietEnv "workflow_run" "72d3162e" (utf8 ['[', ']'])) ∧
      ¬Total (handleGithub quietEnv "workflow_run" "72d3162e" hugeRunId) := by
  have hreached : ∀ body, handleGithub quietEnv "workflow_run" "72d3162e" body =
      storePayload quietEnv "workflow_run" "72d3162e" "github" body := fun _ => rfl
  simp only [hreached, storePayload_total]
  constructor
  · intro hsound
    obtain ⟨payload, hpayload⟩ := hsound.object _ array_decoded
    nomatch hpayload
  · intro hsound
    have hfits := hsound.fits _ hugeRunId_decoded
      (.positiveInt, [.key "workflow_run", .key "id"]) (by simp [reads, alertEventTypes])
    exact absurd (hfits _ rfl) (by decide)

end Requests

end Waitbus.Webhook
