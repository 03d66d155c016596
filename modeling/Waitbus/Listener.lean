import Mathlib
import Waitbus.Predicate
import Waitbus.Runs
import Waitbus.Webhook

/-! The webhook listener as its clients and its database meet it: which requests are refused before
their body is believed, and what the threads that serve the others put into the table. -/

namespace Waitbus.Listener
open Python Json EventStore Webhook Runs

section Requests

/-- What the connection has behind the headers: bytes up to its end, or a timeout or an error. -/
inductive Arriving where
  | received (bytes : Bytes)
  | fails
  deriving DecidableEq

structure Request where
  path : String
  headers : List (String × String)
  arriving : Arriving
  deriving DecidableEq

/-- The keys of the handler class, and what it has of the language: the digest of `hmac` and the
table of decimal digits of `int`. -/
structure WebhookHandler where
  secret : Bytes
  amSecret : Option Bytes
  hexdigest : Bytes → Bytes → String
  decimal : Char → Option Nat

def maxBodyBytes : Int := 10 * 1024 * 1024

/-- `self.headers.get_all(name)`, where no header is an empty list. -/
def Request.getAll (r : Request) (name : String) : List String :=
  (r.headers.filter fun h => h.1.toLower = name.toLower).map (·.2)

def Request.header (r : Request) (name : String) : Option String :=
  (r.getAll name).head?

/-- `_check_request_framing`: the length of the body, or the `send_error`. -/
def checkRequestFraming (L : WebhookHandler) (r : Request) : Except (Nat × String) Int :=
  if r.headers.any (fun h => h.1.toLower = "transfer-encoding") then
    .error (411, "Transfer-Encoding not supported; send a fixed Content-Length")
  else if 1 < (r.getAll "Content-Length").length then
    .error (400, "Multiple Content-Length headers")
  else
    match r.header "Content-Length" with
    | none => .error (411, "Content-Length required")
    | some raw =>
      match Predicate.pyInt L.decimal (ofText raw) with
      | none => .error (400, "Invalid Content-Length")
      | some length =>
        if length < 0 ∨ maxBodyBytes < length then
          .error (413, "Content-Length out of range")
        else if ((r.header "Expect").getD "").toLower = "100-continue" then
          .error (417, "Expectation Failed")
        else .ok length

/-- `_read_body`, of a length that the framing has let through. -/
def readBody (r : Request) (length : Int) : Except (Nat × String) Bytes :=
  if length ≤ 0 ∨ maxBodyBytes < length then .error (400, "bad_length")
  else
    match r.arriving with
    | .fails => .error (408, "read_timeout")
    | .received bytes =>
      let body := bytes.take length.toNat
      if body.length ≠ length.toNat then .error (400, "bad_length") else .ok body

def signatureScheme : String := "sha256="

def Request.receivedSig (r : Request) : List Char :=
  ((r.header "X-Hub-Signature-256").getD "").toList

def Request.providedHex (r : Request) : List Char :=
  r.receivedSig.drop signatureScheme.length

/-- `_verify_hmac`; `none` is the TypeError of `compare_digest` on a text that is not ASCII. -/
def verifyHmac (L : WebhookHandler) (r : Request) (body key : Bytes) :
    Option (Except (Nat × String) Unit) :=
  if ¬signatureScheme.toList <+: r.receivedSig then some (.error (401, "missing_signature"))
  else if r.providedHex.length ≠ 64 then some (.error (401, "malformed_signature"))
  else if r.providedHex.any (128 ≤ ·.toNat) then none
  else if (L.hexdigest key body).toList = r.providedHex then some (.ok ())
  else some (.error (401, "invalid_signature"))

def refused (response : Nat × String) : Handled :=
  { responses := [response] }

/-- What both handlers do before they look at the headers of their own. -/
def authenticated (L : WebhookHandler) (r : Request) (length : Int) (key : Bytes)
    (handle : Bytes → Handled) : Handled :=
  match readBody r length with
  | .error response => refused response
  | .ok body =>
    match verifyHmac L r body key with
    | none => { escaped := some .typeError }
    | some (.error response) => refused response
    | some (.ok ()) => handle body

def handleGithub (L : WebhookHandler) (env : Env) (r : Request) (length : Int) : Handled :=
  authenticated L r length L.secret fun body =>
    Webhook.handleGithub env ((r.header "X-GitHub-Event").getD "")
      ((r.header "X-GitHub-Delivery").getD "") body

def handleAlertmanager (L : WebhookHandler) (env : Env) (r : Request) (length : Int)
    (eventType : String) : Handled :=
  match L.amSecret with
  | none => refused (503, "alertmanager_secret_unprovisioned")
  | some key =>
    authenticated L r length key fun body =>
      Webhook.handleAlertmanager env eventType ((r.header "X-Alertmanager-Delivery").getD "") body

def doPost (L : WebhookHandler) (env : Env) (r : Request) : Handled :=
  match checkRequestFraming L r with
  | .error response => refused response
  | .ok length =>
    if r.path = "/webhook" then handleGithub L env r length
    else if r.path = "/alertmanager" then handleAlertmanager L env r length "prometheus_alert"
    else if r.path = "/watchdog" then handleAlertmanager L env r length "prometheus_watchdog"
    else refused (404, "not_found")

end Requests

section Routes

/-- A path with a handler. -/
inductive Route where
  | github
  | alertmanager (eventType : String)
  deriving DecidableEq

def Request.route (r : Request) : Option Route :=
  if r.path = "/webhook" then some .github
  else if r.path = "/alertmanager" then some (.alertmanager "prometheus_alert")
  else if r.path = "/watchdog" then some (.alertmanager "prometheus_watchdog")
  else none

def Route.key (L : WebhookHandler) : Route → Option Bytes
  | .github => some L.secret
  | .alertmanager _ => L.amSecret

def Route.source : Route → String
  | .github => "github"
  | .alertmanager _ => "alertmanager"

def Route.eventType (r : Request) : Route → String
  | .github => (r.header "X-GitHub-Event").getD ""
  | .alertmanager eventType => eventType

def Route.deliveryId (r : Request) : Route → String
  | .github => (r.header "X-GitHub-Delivery").getD ""
  | .alertmanager _ => (r.header "X-Alertmanager-Delivery").getD ""

def Route.Wanted (r : Request) (route : Route) : Prop :=
  route.deliveryId r ≠ "" ∧
    (route = .github → route.eventType r ∈ ["workflow_run", "workflow_job"])

def Route.handle (env : Env) (r : Request) (body : Bytes) : Route → Handled
  | .github => Webhook.handleGithub env ((r.header "X-GitHub-Event").getD "")
      ((r.header "X-GitHub-Delivery").getD "") body
  | .alertmanager eventType =>
    Webhook.handleAlertmanager env eventType ((r.header "X-Alertmanager-Delivery").getD "") body

/-- The request gets as far as the comparison of its signature. -/
structure Reaches (L : WebhookHandler) (r : Request) (route : Route) (key body : Bytes) : Prop where
  routed : r.route = some route
  keyed : route.key L = some key
  framed : ∃ length, checkRequestFraming L r = .ok length ∧ readBody r length = .ok body
  scheme : signatureScheme.toList <+: r.receivedSig
  hex : r.providedHex.length = 64

/-- Besides, it was signed with the key of its path. -/
structure Authentic (L : WebhookHandler) (r : Request) (route : Route) (key body : Bytes) : Prop
    extends Reaches L r route key body where
  signed : r.providedHex = (L.hexdigest key body).toList
  ascii : ∀ c ∈ r.providedHex, c.toNat < 128

variable {L : WebhookHandler} {env : Env} {r : Request} {route : Route} {body key : Bytes}
  {length : Int}

theorem doPost_route (h : checkRequestFraming L r = .ok length) :
    doPost L env r = match r.route with
      | none => refused (404, "not_found")
      | some route =>
        match route.key L with
        | none => refused (503, "alertmanager_secret_unprovisioned")
        | some key => authenticated L r length key fun body => route.handle env r body := by
  rw [doPost, h]
  dsimp only
  unfold Request.route
  split_ifs
  · rfl
  · rfl
  · rfl
  · rfl

/-- What becomes of a request: it is refused before its body is believed, the comparison of its
signature raises, or it is handled. -/
inductive Outcome (L : WebhookHandler) (env : Env) (r : Request) (handled : Handled) : Prop where
  | refused (response : Nat × String) (eq : handled = refused response) (hcode : response.1 ≠ 200)
    (away : ∀ route key body, Reaches L r route key body →
      (∀ c ∈ r.providedHex, c.toNat < 128) ∧ r.providedHex ≠ (L.hexdigest key body).toList)
  | raises {route : Route} {key body : Bytes} (reaches : Reaches L r route key body)
    (foreign : ∃ c ∈ r.providedHex, 128 ≤ c.toNat) (eq : handled = { escaped := some .typeError })
  | handles {route : Route} {key body : Bytes} (authentic : Authentic L r route key body)
    (eq : handled = route.handle env r body)

theorem checkRequestFraming_code {response : Nat × String}
    (h : checkRequestFraming L r = .error response) : response.1 ≠ 200 := by
  unfold checkRequestFraming at h
  split at h
  · cases h
    simp
  split at h
  · cases h
    simp
  split at h
  · cases h
    simp
  split at h
  · cases h
    simp
  split at h
  · cases h
    simp
  split at h
  · cases h
    simp
  · cases h

theorem readBody_code {response : Nat × String} (h : readBody r length = .error response) :
    response.1 ≠ 200 := by
  unfold readBody at h
  split at h
  · cases h
    simp
  split at h
  · cases h
    simp
  dsimp only at h
  split at h
  · cases h
    simp
  · cases h

theorem Reaches.unique {route' : Route} {key' body' : Bytes}
    (h : Reaches L r route key body) (h' : Reaches L r route' key' body') :
    route = route' ∧ key = key' ∧ body = body' := by
  obtain rfl : route = route' := Option.some.inj (h.routed.symm.trans h'.routed)
  obtain rfl : key = key' := Option.some.inj (h.keyed.symm.trans h'.keyed)
  obtain ⟨length, hlength, hbody⟩ := h.framed
  obtain ⟨length', hlength', hbody'⟩ := h'.framed
  obtain rfl : length = length' := Except.ok.inj (hlength.symm.trans hlength')
  exact ⟨rfl, rfl, Except.ok.inj (hbody.symm.trans hbody')⟩

theorem outcome_doPost (L : WebhookHandler) (env : Env) (r : Request) :
    Outcome L env r (doPost L env r) := by
  cases hframing : checkRequestFraming L r with
  | error response =>
    refine .refused response (by rw [doPost, hframing]) (checkRequestFraming_code hframing) ?_
    rintro route key body hreach
    obtain ⟨length, hlength, -⟩ := hreach.framed
    rw [hframing] at hlength
    cases hlength
  | ok length =>
    rw [doPost_route hframing]
    cases hroute : r.route with
    | none =>
      refine .refused _ rfl (by simp) fun route key body hreach => ?_
      have hrouted := hreach.routed
      rw [hroute] at hrouted
      cases hrouted
    | some route =>
      dsimp only
      cases hkey : route.key L with
      | none =>
        refine .refused _ rfl (by simp) fun route' key body hreach => ?_
        obtain rfl : route = route' := Option.some.inj (hroute.symm.trans hreach.routed)
        have hkeyed := hreach.keyed
        rw [hkey] at hkeyed
        cases hkeyed
      | some key =>
        dsimp only
        rw [authenticated]
        cases hbody : readBody r length with
        | error response =>
          refine .refused response rfl (readBody_code hbody) fun route' key' body hreach => ?_
          obtain ⟨length', hlength', hbody'⟩ := hreach.framed
          obtain rfl : length = length' := Except.ok.inj (hframing.symm.trans hlength')
          rw [hbody] at hbody'
          cases hbody'
        | ok body =>
          dsimp only
          rw [verifyHmac]
          by_cases hscheme : signatureScheme.toList <+: r.receivedSig
          · rw [if_neg (not_not.mpr hscheme)]
            by_cases hhex : r.providedHex.length = 64
            · rw [if_neg (not_not.mpr hhex)]
              have hreach : Reaches L r route key body :=
                ⟨hroute, hkey, ⟨length, hframing, hbody⟩, hscheme, hhex⟩
              by_cases hforeign : r.providedHex.any (128 ≤ ·.toNat) = true
              · rw [if_pos hforeign]
                exact .raises hreach (by simpa using hforeign) rfl
              · rw [if_neg hforeign]
                have hascii : ∀ c ∈ r.providedHex, c.toNat < 128 := by simpa using hforeign
                by_cases hsigned : (L.hexdigest key body).toList = r.providedHex
                · rw [if_pos hsigned]
                  exact .handles ⟨hreach, hsigned.symm, hascii⟩ rfl
                · rw [if_neg hsigned]
                  refine .refused _ rfl (by simp) fun route' key' body' hreach' => ⟨hascii, ?_⟩
                  obtain ⟨rfl, rfl, rfl⟩ := hreach.unique hreach'
                  exact fun heq => hsigned heq.symm
            · rw [if_pos hhex]
              exact .refused _ rfl (by simp) fun _ _ _ hreach => absurd hreach.hex hhex
          · rw [if_pos hscheme]
            exact .refused _ rfl (by simp) fun _ _ _ hreach => absurd hreach.scheme hscheme

theorem handle_total : Total (route.handle env r body) ↔
    (route.Wanted r → Sound env (route.eventType r) body) := by
  cases route with
  | github =>
    simp only [Route.handle, Webhook.handleGithub, Route.Wanted, Route.deliveryId,
      Route.eventType]
    by_cases hdelivery : (r.header "X-GitHub-Delivery").getD "" = ""
    · simp [hdelivery, total_rejected]
    by_cases hevent : (r.header "X-GitHub-Event").getD "" ∈ ["workflow_run", "workflow_job"]
    · rw [if_neg hdelivery, if_neg (not_not.mpr hevent), storePayload_total]
      simp [hdelivery, hevent]
    · rw [if_neg hdelivery, if_pos hevent]
      simp only [total_rejected, true_iff]
      rintro ⟨-, hwanted⟩
      exact absurd (hwanted trivial) hevent
  | alertmanager eventType =>
    simp only [Route.handle, Webhook.handleAlertmanager, Route.Wanted, Route.deliveryId,
      Route.eventType]
    by_cases hdelivery : (r.header "X-Alertmanager-Delivery").getD "" = ""
    · simp [hdelivery, total_rejected]
    · rw [if_neg hdelivery, storePayload_total]
      simp [hdelivery]

def Made (L : WebhookHandler) (r : Request) (event : Event) : Prop :=
  ∃ route key body, ∃ env : Env, ∃ text payload, Authentic L r route key body ∧ route.Wanted r ∧
    decodeUtf8 body = some text ∧ loads env.depth text = .ok (.obj payload) ∧
    event = eventFromWebhookPayload env.config (route.eventType r) payload (route.deliveryId r)
      route.source env.timeNs text "webhook"

theorem eventFromWebhookPayload_deliveryId (config : Config) (eventType : String)
    (payload : List (PyStr × Value)) (deliveryId source : String) (receivedAtNs : Int)
    (payloadJson ingestMethod : String) :
    (eventFromWebhookPayload config eventType payload deliveryId source receivedAtNs payloadJson
      ingestMethod).deliveryId = deliveryId := by
  rw [eventFromWebhookPayload]
  split_ifs <;> rfl

theorem storePayload_stored {eventType deliveryId source : String} {event : Event}
    (hok : (200, "ok") ∈ (storePayload env eventType deliveryId source body).responses)
    (hbuilt : (storePayload env eventType deliveryId source body).built = some event) :
    ∃ text payload, decodeUtf8 body = some text ∧ loads env.depth text = .ok (.obj payload) ∧
      event = eventFromWebhookPayload env.config eventType payload deliveryId source env.timeNs
        text "webhook" := by
  unfold storePayload at hok hbuilt
  cases htext : decodeUtf8 body with
  | none => simp [htext] at hok
  | some text =>
    rw [htext] at hok hbuilt
    dsimp only at hok hbuilt
    split at hok
    · simp at hok
    · simp at hok
    · simp at hok
    · rename_i payload hloads
      rw [hloads] at hbuilt
      dsimp only at hbuilt
      refine ⟨text, payload, rfl, hloads, ?_⟩
      split at hbuilt
      · exact (Option.some.inj hbuilt).symm
      · exact (Option.some.inj hbuilt).symm
      · exact (Option.some.inj hbuilt).symm
    · simp at hok

/-- The commit comes before the response 200, and nothing comes between them. -/
def stored (handled : Handled) : Option Event :=
  if (200, "ok") ∈ handled.responses then handled.built else none

theorem handle_stored {event : Event} (h : stored (route.handle env r body) = some event) :
    route.Wanted r ∧ ∃ text payload, decodeUtf8 body = some text ∧
      loads env.depth text = .ok (.obj payload) ∧
      event = eventFromWebhookPayload env.config (route.eventType r) payload (route.deliveryId r)
        route.source env.timeNs text "webhook" := by
  unfold stored at h
  split at h
  · rename_i hok
    cases route with
    | github =>
      simp only [Route.handle, Webhook.handleGithub] at h hok
      split at hok
      · simp at hok
      · rename_i hdelivery
        split at hok
        · simp at hok
        · rename_i hevent
          rw [if_neg hdelivery, if_neg hevent] at h
          exact ⟨⟨hdelivery, fun _ => not_not.mp hevent⟩, storePayload_stored hok h⟩
    | alertmanager eventType =>
      simp only [Route.handle, Webhook.handleAlertmanager] at h hok
      split at hok
      · simp at hok
      · rename_i hdelivery
        rw [if_neg hdelivery] at h
        exact ⟨⟨hdelivery, by simp⟩, storePayload_stored hok h⟩
  · cases h

theorem made_of_stored {event : Event} (h : stored (doPost L env r) = some event) :
    Made L r event ∧ ∃ route, r.route = some route ∧ event.deliveryId = route.deliveryId r := by
  cases outcome_doPost L env r with
  | refused response eq hcode away =>
    rw [eq, stored] at h
    split at h
    · cases h
    · cases h
  | raises reaches foreign eq =>
    rw [eq] at h
    cases h
  | @handles route key body authentic eq =>
    rw [eq] at h
    obtain ⟨hwanted, text, payload, htext, hloads, rfl⟩ := handle_stored h
    refine ⟨⟨route, key, body, env, text, payload, authentic, hwanted, htext, hloads, rfl⟩,
      route, authentic.routed, ?_⟩
    rw [eventFromWebhookPayload_deliveryId]

end Routes

section System

/-- A thread of the server, with the number of its request. -/
inductive Thread where
  | idle
  | serving (n : Nat)
  | leaving (n : Nat) (handled : Handled)

def Thread.request : Thread → Option Nat
  | .idle => none
  | .serving n => some n
  | .leaving n _ => some n

/-- The table and the threads. As history: the requests in the order of their arrival, what other
producers inserted, the delivery ids of the rows that were pruned, and the responses sent. -/
structure State (ι : Type*) where
  table : List Event
  threads : ι → Thread
  requests : List Request
  others : List Event
  pruned : List String
  log : List (Nat × (Nat × String))

inductive Act (ι : Type*) where
  | arrives (i : ι) (r : Request)
  | handles (i : ι) (env : Env)
  | answers (i : ι)
  | inserts (event : Event)
  | prunes (keep : Event → Bool)
  | restarts

/-- `INSERT OR IGNORE`, by the delivery id. -/
def put (event : Event) (table : List Event) : List Event :=
  if event.deliveryId ∈ table.map (·.deliveryId) then table else table ++ [event]

variable {ι : Type*} [DecidableEq ι]

def State.step (L : WebhookHandler) (s : State ι) : Act ι → Option (State ι)
  | .arrives i r =>
    match s.threads i with
    | .idle => some { s with
        requests := s.requests ++ [r]
        threads := Function.update s.threads i (.serving s.requests.length) }
    | _ => none
  | .handles i env =>
    match s.threads i with
    | .serving n =>
      match s.requests[n]? with
      | none => none
      | some r =>
        let handled := doPost L env r
        some { s with
          table := match stored handled with
            | none => s.table
            | some event => put event s.table
          threads := Function.update s.threads i (.leaving n handled) }
    | _ => none
  | .answers i =>
    match s.threads i with
    | .leaving n handled => some { s with
        log := s.log ++ handled.responses.map fun response => (n, response)
        threads := Function.update s.threads i .idle }
    | _ => none
  | .inserts event => some { s with table := put event s.table, others := s.others ++ [event] }
  | .prunes keep => some { s with
      table := s.table.filter keep
      pruned := s.pruned ++ (s.table.filter fun e => !keep e).map (·.deliveryId) }
  | .restarts => some { s with threads := fun _ => .idle }

/-- The table may hold rows of other producers when the listener starts. -/
def listener (L : WebhookHandler) (ι : Type*) [DecidableEq ι] : System (State ι) (Act ι) where
  init s := (s.table.map (·.deliveryId)).Nodup ∧ s.others = s.table ∧
    (∀ i, s.threads i = .idle) ∧ s.requests = [] ∧ s.pruned = [] ∧ s.log = []
  step := State.step L

end System

section Invariant

variable {ι : Type*} {L : WebhookHandler} {s t : State ι} {act : Act ι} {i : ι}

/-- There was a row with the delivery id; if it is not there now, it was pruned. -/
def State.Had (s : State ι) (deliveryId : String) : Prop :=
  deliveryId ∈ s.table.map (·.deliveryId) ∨ deliveryId ∈ s.pruned

/-- The request of that number is one whose delivery has been entered. -/
def State.Entered (s : State ι) (n : Nat) : Prop :=
  ∃ r route, s.requests[n]? = some r ∧ r.route = some route ∧ s.Had (route.deliveryId r)

structure Invariant (L : WebhookHandler) (s : State ι) : Prop where
  nodup : (s.table.map (·.deliveryId)).Nodup
  origin : ∀ e ∈ s.table, e ∈ s.others ∨ ∃ r ∈ s.requests, Made L r e
  arrived : ∀ i, ∀ n ∈ (s.threads i).request, n < s.requests.length
  pending : ∀ i, ∀ n ∈ (s.threads i).request, n ∉ s.log.map (·.1)
  apart : ∀ i j n, (s.threads i).request = some n → (s.threads j).request = some n → i = j
  leaving : ∀ i n handled, s.threads i = .leaving n handled →
    handled.responses.length ≤ 1 ∧ ((200, "ok") ∈ handled.responses → s.Entered n)
  answered : (s.log.map (·.1)).Nodup
  known : ∀ entry ∈ s.log, entry.1 < s.requests.length
  kept : ∀ n, (n, (200, "ok")) ∈ s.log → s.Entered n

theorem put_nodup {table : List Event} (h : (table.map (·.deliveryId)).Nodup) (event : Event) :
    ((put event table).map (·.deliveryId)).Nodup := by
  unfold put
  split
  · exact h
  · rename_i hfresh
    rw [List.map_append]
    exact h.append (List.nodup_singleton _) (by simpa using hfresh)

theorem mem_put {table : List Event} {event e : Event} (h : e ∈ put event table) :
    e ∈ table ∨ e = event := by
  unfold put at h
  split at h
  · exact .inl h
  · obtain h | h := List.mem_append.mp h
    · exact .inl h
    · exact .inr (List.mem_singleton.mp h)

theorem deliveryId_put {table : List Event} {event : Event} {deliveryId : String}
    (h : deliveryId ∈ table.map (·.deliveryId) ∨ deliveryId = event.deliveryId) :
    deliveryId ∈ (put event table).map (·.deliveryId) := by
  unfold put
  split
  · rename_i hthere
    rcases h with h | rfl
    · exact h
    · exact hthere
  · rw [List.map_append, List.mem_append]
    rcases h with h | rfl
    · exact .inl h
    · exact .inr (List.mem_singleton_self _)

/-- The requests only become more, and what the table had it has, or it was pruned. -/
structure Onward (s t : State ι) : Prop where
  requests : s.requests <+: t.requests
  had : ∀ deliveryId, s.Had deliveryId → t.Had deliveryId

theorem State.Entered.onward {n : Nat} (h : s.Entered n) (hst : Onward s t) : t.Entered n := by
  obtain ⟨r, route, hr, hroute, hhad⟩ := h
  obtain ⟨later, hlater⟩ := hst.requests
  refine ⟨r, route, ?_, hroute, hst.had _ hhad⟩
  obtain ⟨hlt, -⟩ := List.getElem?_eq_some_iff.mp hr
  rw [← hlater, List.getElem?_append_left hlt, hr]

theorem doPost_responses (L : WebhookHandler) (env : Env) (r : Request) :
    (doPost L env r).responses.length ≤ 1 := by
  have hstore : ∀ eventType deliveryId source body,
      (storePayload env eventType deliveryId source body).responses.length ≤ 1 := by
    intro eventType deliveryId source body
    unfold storePayload
    split
    · simp
    · split
      · simp
      · simp
      · simp
      · dsimp only
        split
        · simp
        · simp
        · simp
      · simp
  cases outcome_doPost L env r with
  | refused response eq => simp [eq, refused]
  | raises _ _ eq => simp [eq]
  | @handles route key body _ eq =>
    rw [eq]
    cases route with
    | github =>
      simp only [Route.handle, Webhook.handleGithub]
      split
      · simp
      · split
        · simp
        · exact hstore ..
    | alertmanager eventType =>
      simp only [Route.handle, Webhook.handleAlertmanager]
      split
      · simp
      · exact hstore ..

theorem storePayload_ok {env : Env} {eventType deliveryId source : String} {body : Bytes}
    (h : (200, "ok") ∈ (storePayload env eventType deliveryId source body).responses) :
    (storePayload env eventType deliveryId source body).built.isSome := by
  unfold storePayload at h ⊢
  split at h
  · simp at h
  · split at h
    · simp at h
    · simp at h
    · simp at h
    · dsimp only at h ⊢
      split
      · rfl
      · rfl
      · rfl
    · simp at h

theorem stored_of_ok {env : Env} {r : Request} (h : (200, "ok") ∈ (doPost L env r).responses) :
    ∃ event, stored (doPost L env r) = some event := by
  rw [stored, if_pos h]
  refine Option.isSome_iff_exists.mp ?_
  cases outcome_doPost L env r with
  | refused response eq hcode =>
    rw [eq, refused, List.mem_singleton] at h
    rw [← h] at hcode
    exact absurd rfl hcode
  | raises _ _ eq =>
    rw [eq] at h
    cases h
  | @handles route key body _ eq =>
    rw [eq] at h ⊢
    cases route with
    | github =>
      simp only [Route.handle, Webhook.handleGithub] at h ⊢
      split at h
      · simp at h
      · rename_i hdelivery
        split at h
        · simp at h
        · rename_i hevent
          rw [if_neg hdelivery, if_neg hevent]
          exact storePayload_ok h
    | alertmanager eventType =>
      simp only [Route.handle, Webhook.handleAlertmanager] at h ⊢
      split at h
      · simp at h
      · rename_i hdelivery
        rw [if_neg hdelivery]
        exact storePayload_ok h

theorem Invariant.retable (h : Invariant L s) {table others : List Event} {pruned : List String}
    (nodup : (table.map (·.deliveryId)).Nodup)
    (origin : ∀ e ∈ table, e ∈ others ∨ ∃ r ∈ s.requests, Made L r e)
    (had : ∀ deliveryId, s.Had deliveryId →
      deliveryId ∈ table.map (·.deliveryId) ∨ deliveryId ∈ pruned) :
    Invariant L { s with table, others, pruned } := by
  have honward : Onward s { s with table, others, pruned } := ⟨List.prefix_rfl, had⟩
  refine ⟨nodup, origin, h.arrived, h.pending, h.apart, fun i n handled hi => ?_, h.answered,
    h.known, fun n hn => (h.kept n hn).onward honward⟩
  obtain ⟨hlength, hok⟩ := h.leaving i n handled hi
  exact ⟨hlength, fun hmem => (hok hmem).onward honward⟩

theorem inserts_invariant (h : Invariant L s) (event : Event) :
    Invariant L { s with table := put event s.table, others := s.others ++ [event] } := by
  refine h.retable (put_nodup h.nodup event) (fun e he => ?_) fun d hd => ?_
  · rcases mem_put he with he | rfl
    · exact (h.origin e he).imp_left fun hother => List.mem_append_left _ hother
    · exact .inl (List.mem_append_right _ (List.mem_singleton_self _))
  · exact hd.imp_left fun hthere => deliveryId_put (.inl hthere)

theorem prunes_invariant (h : Invariant L s) (keep : Event → Bool) :
    Invariant L { s with
      table := s.table.filter keep
      pruned := s.pruned ++ (s.table.filter fun e => !keep e).map (·.deliveryId) } := by
  refine h.retable ?_ (fun e he => h.origin e (List.mem_filter.mp he).1) fun d hd => ?_
  · exact h.nodup.sublist (List.filter_sublist.map _)
  · rcases hd with hd | hd
    · obtain ⟨e, he, rfl⟩ := List.mem_map.mp hd
      cases hkeep : keep e with
      | true => exact .inl (List.mem_map_of_mem (List.mem_filter.mpr ⟨he, hkeep⟩))
      | false =>
        refine .inr (List.mem_append_right _ ?_)
        exact List.mem_map_of_mem (List.mem_filter.mpr ⟨he, by simp [hkeep]⟩)
    · exact .inr (List.mem_append_left _ hd)

theorem restarts_invariant (h : Invariant L s) :
    Invariant L { s with threads := fun _ : ι => .idle } := by
  refine ⟨h.nodup, h.origin, ?_, ?_, ?_, ?_, h.answered, h.known, h.kept⟩
  · simp [Thread.request]
  · simp [Thread.request]
  · simp [Thread.request]
  · simp

variable [DecidableEq ι]

theorem arrives_invariant (h : Invariant L s) (hidle : s.threads i = .idle) (r : Request) :
    Invariant L { s with
      requests := s.requests ++ [r]
      threads := Function.update s.threads i (.serving s.requests.length) } := by
  let t : State ι := { s with
    requests := s.requests ++ [r]
    threads := Function.update s.threads i (.serving s.requests.length) }
  have honward : Onward s t := ⟨List.prefix_append _ _, fun _ hd => hd⟩
  have hlength : (s.requests ++ [r]).length = s.requests.length + 1 := by simp
  have hthread : ∀ j n, (t.threads j).request = some n →
      (j = i ∧ n = s.requests.length) ∨ (j ≠ i ∧ (s.threads j).request = some n) := by
    intro j n hn
    by_cases hj : j = i
    · subst hj
      simp only [t, Function.update_self, Thread.request, Option.some.injEq] at hn
      exact .inl ⟨rfl, hn.symm⟩
    · simp only [t, Function.update_of_ne hj] at hn
      exact .inr ⟨hj, hn⟩
  have hfresh : s.requests.length ∉ s.log.map (·.1) := by
    intro hmem
    obtain ⟨entry, hentry, heq⟩ := List.mem_map.mp hmem
    exact absurd (h.known entry hentry) (by omega)
  refine ⟨h.nodup, fun e he => ?_, fun j n hn => ?_, fun j n hn => ?_, fun j k n hj hk => ?_,
    fun j n handled hj => ?_, h.answered, fun entry hentry => ?_,
    fun n hn => (h.kept n hn).onward honward⟩
  · refine (h.origin e he).imp_right ?_
    rintro ⟨request, hrequest, hmade⟩
    exact ⟨request, List.mem_append_left _ hrequest, hmade⟩
  · show n < (s.requests ++ [r]).length
    rcases hthread j n hn with ⟨-, rfl⟩ | ⟨-, hn⟩
    · omega
    · have hlt := h.arrived j n hn
      omega
  · rcases hthread j n hn with ⟨-, rfl⟩ | ⟨-, hn⟩
    · exact hfresh
    · exact h.pending j n hn
  · rcases hthread j n hj with ⟨rfl, rfl⟩ | ⟨-, hj⟩
    · rcases hthread k _ hk with ⟨rfl, -⟩ | ⟨-, hk⟩
      · rfl
      · exact absurd (h.arrived k _ hk) (lt_irrefl _)
    · rcases hthread k n hk with ⟨-, rfl⟩ | ⟨-, hk⟩
      · exact absurd (h.arrived j _ hj) (lt_irrefl _)
      · exact h.apart j k n hj hk
  · have hold : s.threads j = .leaving n handled := by
      by_cases hji : j = i
      · subst hji
        simp [Function.update_self] at hj
      · simpa [Function.update_of_ne hji] using hj
    obtain ⟨hshort, hok⟩ := h.leaving j n handled hold
    exact ⟨hshort, fun hmem => (hok hmem).onward honward⟩
  · show entry.1 < (s.requests ++ [r]).length
    have hlt := h.known entry hentry
    omega

theorem handles_invariant (h : Invariant L s) {n : Nat} {r : Request}
    (hserving : s.threads i = .serving n) (hr : s.requests[n]? = some r) (env : Env) :
    Invariant L { s with
      table := match stored (doPost L env r) with
        | none => s.table
        | some event => put event s.table
      threads := Function.update s.threads i (.leaving n (doPost L env r)) } := by
  let t : State ι := { s with
    table := match stored (doPost L env r) with
      | none => s.table
      | some event => put event s.table
    threads := Function.update s.threads i (.leaving n (doPost L env r)) }
  have hthread : ∀ j, (t.threads j).request = (s.threads j).request := by
    intro j
    by_cases hj : j = i
    · subst hj
      simp [t, Thread.request, hserving]
    · simp [t, Function.update_of_ne hj]
  have honward : Onward s t := by
    refine ⟨List.prefix_rfl, fun d hd => hd.imp_left fun hthere => ?_⟩
    show d ∈ (match stored (doPost L env r) with
      | none => s.table
      | some event => put event s.table).map Event.deliveryId
    split
    · exact hthere
    · exact deliveryId_put (.inl hthere)
  refine ⟨?_, fun e he => ?_, fun j => ?_, fun j => ?_, fun j k m hj hk => ?_,
    fun j m handled hj => ?_, h.answered, h.known, fun m hm => (h.kept m hm).onward honward⟩
  · dsimp only
    split
    · exact h.nodup
    · exact put_nodup h.nodup _
  · dsimp only at he
    split at he
    · exact h.origin e he
    · rename_i event hstored
      rcases mem_put he with he | rfl
      · exact h.origin e he
      · exact .inr ⟨r, List.mem_of_getElem? hr, (made_of_stored hstored).1⟩
  · show ∀ m ∈ (t.threads j).request, _
    rw [hthread]
    exact h.arrived j
  · show ∀ m ∈ (t.threads j).request, _
    rw [hthread]
    exact h.pending j
  · exact h.apart j k m ((hthread j).symm.trans hj) ((hthread k).symm.trans hk)
  · by_cases hji : j = i
    · subst hji
      simp only [Function.update_self, Thread.leaving.injEq] at hj
      obtain ⟨rfl, rfl⟩ := hj
      refine ⟨doPost_responses L env r, fun hok => ?_⟩
      obtain ⟨event, hstored⟩ := stored_of_ok hok
      obtain ⟨-, route, hroute, hid⟩ := made_of_stored hstored
      refine ⟨r, route, hr, hroute, .inl ?_⟩
      rw [← hid]
      dsimp only
      rw [hstored]
      exact deliveryId_put (.inr rfl)
    · have hold : s.threads j = .leaving m handled := by
        simpa [Function.update_of_ne hji] using hj
      obtain ⟨hshort, hok⟩ := h.leaving j m handled hold
      exact ⟨hshort, fun hmem => (hok hmem).onward honward⟩

theorem answers_invariant (h : Invariant L s) {n : Nat} {handled : Handled}
    (hleaving : s.threads i = .leaving n handled) :
    Invariant L { s with
      log := s.log ++ handled.responses.map fun response => (n, response)
      threads := Function.update s.threads i .idle } := by
  obtain ⟨hshort, hok⟩ := h.leaving i n handled hleaving
  have hrequest : (s.threads i).request = some n := by rw [hleaving]; rfl
  have hentry : ∀ entry ∈ handled.responses.map fun response => (n, response), entry.1 = n := by
    intro entry he
    obtain ⟨response, -, rfl⟩ := List.mem_map.mp he
    rfl
  have hthread : ∀ j m, ((Function.update s.threads i Thread.idle) j).request = some m →
      j ≠ i ∧ (s.threads j).request = some m := by
    intro j m hm
    by_cases hj : j = i
    · subst hj
      simp [Thread.request] at hm
    · exact ⟨hj, by simpa [Function.update_of_ne hj] using hm⟩
  refine ⟨h.nodup, h.origin, fun j m hm => h.arrived j m (hthread j m hm).2, fun j m hm => ?_,
    fun j k m hj hk => h.apart j k m (hthread j m hj).2 (hthread k m hk).2,
    fun j m handled' hj => ?_, ?_, fun entry he => ?_, fun m hm => ?_⟩
  · obtain ⟨hj, hm⟩ := hthread j m hm
    rw [List.map_append, List.mem_append]
    rintro (hold | hnew)
    · exact h.pending j m hm hold
    · obtain ⟨entry, he, rfl⟩ := List.mem_map.mp hnew
      rw [hentry entry he] at hm
      exact hj (h.apart j i n hm hrequest)
  · by_cases hji : j = i
    · subst hji
      simp [Function.update_self] at hj
    · exact h.leaving j m handled' (by simpa [Function.update_of_ne hji] using hj)
  · rw [List.map_append]
    refine h.answered.append ?_ fun m hold hnew => ?_
    · cases hresponses : handled.responses with
      | nil => exact List.nodup_nil
      | cons response rest =>
        rw [hresponses, List.length_cons] at hshort
        obtain rfl : rest = [] := List.length_eq_zero_iff.mp (by omega)
        exact List.nodup_singleton _
    · obtain ⟨entry, he, rfl⟩ := List.mem_map.mp hnew
      rw [hentry entry he] at hold
      exact h.pending i n hrequest hold
  · obtain he | he := List.mem_append.mp he
    · exact h.known entry he
    · rw [hentry entry he]
      exact h.arrived i n hrequest
  · obtain hm | hm := List.mem_append.mp hm
    · exact h.kept m hm
    · obtain ⟨response, hresponse, heq⟩ := List.mem_map.mp hm
      cases heq
      exact hok hresponse

theorem init_invariant (h : (listener L ι).init s) : Invariant L s := by
  obtain ⟨hnodup, hothers, hidle, hrequests, -, hlog⟩ := h
  refine ⟨hnodup, fun e he => .inl (by rwa [hothers]), ?_, ?_, ?_, ?_, ?_, ?_, ?_⟩
  · simp [hidle, Thread.request]
  · simp [hlog]
  · simp [hidle, Thread.request]
  · simp [hidle]
  · simp [hlog]
  · simp [hlog]
  · simp [hlog]

theorem step_invariant (h : Invariant L s) (hstep : (listener L ι).step s act = some t) :
    Invariant L t := by
  cases act with
  | arrives i r =>
    simp only [listener, State.step] at hstep
    split at hstep
    · rename_i hidle
      cases hstep
      exact arrives_invariant h hidle r
    · cases hstep
  | handles i env =>
    simp only [listener, State.step] at hstep
    split at hstep
    · rename_i n hserving
      split at hstep
      · cases hstep
      · rename_i r hr
        cases hstep
        exact handles_invariant h hserving hr env
    · cases hstep
  | answers i =>
    simp only [listener, State.step] at hstep
    split at hstep
    · rename_i n handled hleaving
      cases hstep
      exact answers_invariant h hleaving
    · cases hstep
  | inserts event =>
    cases hstep
    exact inserts_invariant h event
  | prunes keep =>
    cases hstep
    exact prunes_invariant h keep
  | restarts =>
    cases hstep
    exact restarts_invariant h

theorem reach_invariant (h : Reachable (listener L ι) s) : Invariant L s :=
  h.invariant (fun _ => init_invariant) fun _ _ _ _ hs _ => step_invariant hs

/-- However the threads interleave with each other, with other producers and with the pruning: a row
that is not another producer's is the event of a request that was signed with the key of its path,
no delivery has two rows, no request gets two responses, and one that was answered with 200 has the
row of its delivery in the table until that is pruned. -/
theorem listener_stores (h : Reachable (listener L ι) s) :
    (∀ e ∈ s.table, e ∈ s.others ∨ ∃ r ∈ s.requests, Made L r e) ∧
    (s.table.map (·.deliveryId)).Nodup ∧ (s.log.map (·.1)).Nodup ∧
    ∀ n, (n, (200, "ok")) ∈ s.log → ∃ r route, s.requests[n]? = some r ∧
      r.route = some route ∧ (route.deliveryId r ∈ s.table.map (·.deliveryId) ∨
        route.deliveryId r ∈ s.pruned) := by
  have hinv := reach_invariant h
  exact ⟨hinv.origin, hinv.nodup, hinv.answered, hinv.kept⟩

end Invariant

section Samples

def sampleBody : Bytes :=
  utf8 ['{', '"', 'a', 'c', 't', 'i', 'o', 'n', '"', ':', '"', 'd', 'o', 'n', 'e', '"', '}']

def sampleKey : Bytes :=
  utf8 ['k', 'e', 'y']

/-- `hmac.new(key, body, sha256).hexdigest()` for the key and the body above. -/
def sampleHandler : WebhookHandler where
  secret := sampleKey
  amSecret := none
  hexdigest key body :=
    if key = sampleKey ∧ body = sampleBody then
      "3b6d3d8f53ff1a405c97311995584838f6155ec25eba15a919630020f92dcbfa"
    else ""
  decimal c := if c.isDigit then some (c.toNat - 48) else none

def sampleRequest (signature : String) : Request where
  path := "/webhook"
  headers := [("Content-Length", "17"), ("X-GitHub-Event", "workflow_run"),
    ("X-GitHub-Delivery", "72d3162e"), ("X-Hub-Signature-256", signature)]
  arriving := .received sampleBody

def sampleSignature : String :=
  "sha256=3b6d3d8f53ff1a405c97311995584838f6155ec25eba15a919630020f92dcbfa"

def quiet : State (Fin 2) :=
  ⟨[], fun _ => .idle, [], [], [], []⟩

/-- A delivery comes twice, and both are in work when the first is stored; then one comes whose
signature is cut short. -/
def sampleActs : List (Act (Fin 2)) :=
  [.arrives 0 (sampleRequest sampleSignature), .arrives 1 (sampleRequest sampleSignature),
    .handles 1 quietEnv, .handles 0 quietEnv, .answers 0, .arrives 0 (sampleRequest "sha256="),
    .answers 1, .handles 0 quietEnv, .answers 0]

theorem listener_stores_run : ∃ s : State (Fin 2),
    s.log = [(0, (200, "ok")), (1, (200, "ok")), (2, (401, "malformed_signature"))] ∧
      s.table.map (·.deliveryId) = ["72d3162e"] ∧
      ∀ e ∈ s.table, ∃ r ∈ s.requests, Made sampleHandler r e := by
  obtain ⟨s, hrun, hlog, htable, hothers⟩ :
      ∃ s ∈ (listener sampleHandler (Fin 2)).exec quiet sampleActs,
        s.log = [(0, (200, "ok")), (1, (200, "ok")), (2, (401, "malformed_signature"))] ∧
          s.table.map (·.deliveryId) = ["72d3162e"] ∧ s.others.isEmpty = true := by
    decide +kernel
  have hstart : Reachable (listener sampleHandler (Fin 2)) quiet :=
    .start ⟨List.nodup_nil, rfl, fun _ => rfl, rfl, rfl, rfl⟩
  have hstores := listener_stores (hstart.exec hrun)
  refine ⟨s, hlog, htable, fun e he => (hstores.1 e he).resolve_left ?_⟩
  rw [List.isEmpty_iff.mp hothers]
  exact List.not_mem_nil

end Samples

end Waitbus.Listener
