import Mathlib
import Waitbus.Delimiters
import Waitbus.Emit
import Waitbus.Paging
import Waitbus.SubscribeStream
import Waitbus.WireFrames

/-! Requests and replies between agents: two kinds of rows in the one table, told apart by what they
are addressed to. A requester reads on from its own request and takes the first row that carries its
correlation id; where that row is too long for the wire, it reads it from the table. -/

namespace Waitbus.Messaging
open Python Json FrameCodec EventStore OrderedLog RowFrame TxQueue Await AwaitStream SubscribeStream
open Emit Runs WireFrames

section Envelopes

/-- What a message is made of, as `_emit_agent_message` is given it. -/
structure Envelope where
  recipient : String
  sender : String
  correlationId : String
  replyTo : Option String
  body : String
  thread : Option String
  deriving DecidableEq

inductive Verb where
  | request
  | reply
  deriving DecidableEq

def Verb.word : Verb → String
  | .request => "request"
  | .reply => "reply"

structure Message where
  verb : Verb
  envelope : Envelope
  deriving DecidableEq

def deliveryId (m : Message) : String :=
  s!"agent:{m.envelope.sender}:{m.verb.word}:{m.envelope.correlationId}"

/-- The event of `_emit_agent_message`. -/
def Message.event (m : Message) (receivedAt : Int) : EventInsert where
  deliveryId := deliveryId m
  source := "agent"
  eventType := "agent_message"
  owner := "local"
  repo := "agents"
  receivedAt := receivedAt
  payloadJson := "{}"
  ingestMethod := "api"
  msgTo := some m.envelope.recipient
  msgFrom := some m.envelope.sender
  msgReplyTo := m.envelope.replyTo
  msgCorrelationId := some m.envelope.correlationId
  msgThread := m.envelope.thread
  msgBody := some m.envelope.body

/-- `value or default` of an optional text. -/
def orDefault (value : Option String) (default : String) : String :=
  match value with
  | none | some "" => default
  | some s => s

/-- What `request` sends; `new` is the id that it would draw. -/
def requestMessage (recipient body sender : String) (replyTo correlationId thread : Option String)
    (new : Ulid) : Message :=
  let correlationId := orDefault correlationId new.val
  ⟨.request, {
    recipient, sender, correlationId, body, thread
    replyTo := some (orDefault replyTo s!"{sender}.{correlationId}") }⟩

/-- `fields.get(key)`, of a column that holds a text. -/
def fieldText (frame : EventFrame) (key : String) : Option String :=
  (frame.fields.lookup key).bind SqlValue.text?

/-- What `respond` sends, unless it raises a ValueError. -/
def replyMessage (frame : EventFrame) (body : String) (sender thread : Option String) :
    Except PyExc Message :=
  match fieldText frame "msg_correlation_id", fieldText frame "msg_from",
      sender.or (fieldText frame "msg_to") with
  | some correlationId, some recipient, some sender =>
    .ok ⟨.reply, {
      recipient, sender, correlationId, body
      replyTo := fieldText frame "msg_reply_to"
      thread := thread.or (fieldText frame "msg_thread") }⟩
  | _, _, _ => .error .valueError

end Envelopes

section Waiting

def replyDecide (correlationId sender : String) (captured : List SubscribeStream.Message)
    (frame : SubscribeStream.Message) : List SubscribeStream.Message × FrameDecision :=
  match lookup "fields" frame with
  | some (.obj fields) =>
    if fieldIs (.obj fields) "msg_correlation_id" correlationId &&
        fieldIs (.obj fields) "msg_to" sender then (captured ++ [frame], .matched)
    else (captured, .continue)
  | _ =>
    if fieldIs (.obj frame) "kind" "truncated" &&
        fieldIs (.obj frame) "correlation_id" correlationId then (captured ++ [frame], .matched)
    else (captured, .continue)

/-- `_refetch_reply` of the stub's `event_id`; SQLite binds neither a container nor a lone
surrogate, and no integer's text is an event id. -/
def refetchReply (R : Runtime) (store : Store) : Value → Except PyExc (Option EventFrame)
  | .str id =>
    if Scalar id then
      match store.rows.find? fun row => row.eventId.map (ofText ·.val) = some id with
      | none => .ok none
      | some row => (rowToFrame R row).map some
    else .error .unicodeEncodeError
  | .int n => (toSqlInt n).map fun _ => none
  | .null | .bool _ | .float _ => .ok none
  | .arr _ | .obj _ => .error .sqliteError

/-- `BroadcastConnectionError`, what the engine raises, msgspec's ValidationError, and the rest. -/
inductive ReplyError where
  | connection
  | engine (failure : Await.Failure)
  | validation
  | python (exc : PyExc)
  deriving DecidableEq

/-- How a requester decodes: how deep `json.loads` goes, and `msgspec.convert(frame, EventFrame)`,
which takes an event frame for what it is the JSON of. -/
structure Client where
  depth : Nat
  convert : SubscribeStream.Message → Option EventFrame
  deep : 2 ≤ depth
  convert_event : ∀ frame : EventFrame, frame.eventId.isSome → (frame.fields.map (·.1)).Nodup →
    convert (message (.event frame)) = some frame

/-- The end of `_await_reply`, with what its wait has come to. -/
def finishReply (R : Runtime) (client : Client) (store : Store) (outcome : Ending)
    (captured : List SubscribeStream.Message) : Except ReplyError (Option EventFrame) :=
  match outcome, captured with
  | .raised failure, _ => .error (.engine failure)
  | .framingEof, _ | .cleanEof, _ => .error .connection
  | .matched, frame :: _ =>
    if fieldIs (.obj frame) "kind" "truncated" then
      match lookup "event_id" frame with
      | none => .error (.python .keyError)
      | some id =>
        match refetchReply R store id with
        | .ok reply => .ok reply
        | .error exc => .error (.python exc)
    else
      match client.convert frame with
      | some event => .ok (some event)
      | none => .error .validation
  | _, _ => .ok none

/-- `_await_reply` on what the daemon sends; `none` is a wait that does not return. -/
def awaitReply (R : Runtime) (client : Client) (store : Store) (correlationId sender : String)
    (stream : Bytes) (last : Last) : Option (Except ReplyError (Option EventFrame)) :=
  (awaitStream client.depth (replyDecide correlationId sender) stream last []).map
    fun (outcome, captured) => finishReply R client store outcome captured

end Waiting

section Replies

variable {R : Runtime} {row : Row} {correlationId sender : String}

/-- The frame of the row is too long for the wire, which has a stub in its place. -/
def stubbed (R : Runtime) (row : Row) : Bool :=
  match rowToFrame R row with
  | .ok frame =>
    match wireFrame R frame with
    | .truncated _ => true
    | _ => false
  | .error _ => false

/-- What the wait takes for a reply: of a stub it cannot tell whom it is addressed to. -/
def answers (R : Runtime) (correlationId sender : String) (row : Row) : Bool :=
  decide (row.msgCorrelationId = some correlationId) &&
    (decide (row.msgTo = some sender) || stubbed R row)

theorem lookup_fields (key : String) (fields : List (String × SqlValue)) :
    lookup key (fields.map fun p => (ofText p.1, p.2.toValue)) =
      (fields.lookup key).map SqlValue.toValue := by
  induction fields with
  | nil => rfl
  | cons field rest ih =>
    rw [List.map_cons, lookup, List.find?_cons, List.lookup_cons]
    by_cases hkey : key = field.1
    · rw [hkey, beq_self_eq_true]
      simp
    · rw [beq_eq_false_iff_ne.mpr hkey]
      have hne : ¬field.1 = key := fun h => hkey h.symm
      simp only [ofText_inj, hne, decide_false]
      exact ih

theorem fieldIs_column {key : String} {column : Option String} (s : String)
    (h : (frameFields row).lookup key = some (sqlText column)) :
    fieldIs (.obj ((frameFields row).map fun p => (ofText p.1, p.2.toValue))) key s =
      decide (column = some s) := by
  rw [fieldIs, field, lookup_fields, h]
  cases column with
  | none => rfl
  | some t => simp [sqlText, SqlValue.toValue, text]

theorem lookup_msgTo : (frameFields row).lookup "msg_to" = some (sqlText row.msgTo) := by
  simp [frameFields, Row.columns, excludedFromFields, List.lookup]

theorem lookup_msgFrom : (frameFields row).lookup "msg_from" = some (sqlText row.msgFrom) := by
  simp [frameFields, Row.columns, excludedFromFields, List.lookup]

theorem lookup_msgBody : (frameFields row).lookup "msg_body" = some (sqlText row.msgBody) := by
  simp [frameFields, Row.columns, excludedFromFields, List.lookup]

theorem lookup_event_fields (frame : EventFrame) : lookup "fields" (message (.event frame)) =
    some (.obj (frame.fields.map fun p => (ofText p.1, p.2.toValue))) := by
  simp [message, WireFrame.toValue, record, lookup, fieldsValue]

theorem lookup_stub_fields (frame : TruncatedFrame) :
    lookup "fields" (message (.truncated frame)) = none := by
  simp [message, WireFrame.toValue, record, lookup]

theorem lookup_stub_correlation (frame : TruncatedFrame) :
    lookup "correlation_id" (message (.truncated frame)) = some (optText frame.correlationId) := by
  simp [message, WireFrame.toValue, record, lookup]

theorem lookup_stub_eventId (frame : TruncatedFrame) :
    lookup "event_id" (message (.truncated frame)) = some (optText frame.eventId) := by
  simp [message, WireFrame.toValue, record, lookup]

theorem fieldIs_optText {frame : List (PyStr × Value)} {key : String} {value : Option String}
    (s : String) (h : lookup key frame = some (optText value)) :
    fieldIs (.obj frame) key s = decide (value = some s) := by
  rw [fieldIs, field, h]
  cases value with
  | none => rfl
  | some t => simp [optText, text]

theorem fieldIs_kind (frame : WireFrame) (s : String) :
    fieldIs (.obj (message frame)) "kind" s = decide (kindOf frame = s) := by
  have hkind : lookup "kind" (message frame) = some (optText (some (kindOf frame))) :=
    lookup_kind frame
  rw [fieldIs_optText s hkind]
  simp

theorem rowMessage_cases {frame : EventFrame} (h : rowToFrame R row = .ok frame) :
    (stubbed R row = false ∧ rowMessage R row = message (.event frame)) ∨
      (stubbed R row = true ∧ rowMessage R row = message (.truncated (stub frame))) := by
  simp only [stubbed, rowMessage, h]
  obtain hwhole | hstub := wireFrame_cases R frame
  · simp [hwhole]
  · simp [hstub]

theorem replyDecide_row {frame : EventFrame} (h : rowToFrame R row = .ok frame) :
    replyDecide correlationId sender [] (rowMessage R row) =
      if answers R correlationId sender row then ([rowMessage R row], .matched)
      else ([], .continue) := by
  obtain ⟨-, hfields, hcorrelation, -⟩ := rowToFrame_ok h
  obtain ⟨hwhole, hmessage⟩ | ⟨hstub, hmessage⟩ := rowMessage_cases h
  · rw [hmessage, replyDecide, lookup_event_fields, hfields]
    dsimp only
    rw [fieldIs_column _ correlationId_frameFields, fieldIs_column _ lookup_msgTo, answers, hwhole,
      Bool.or_false, List.nil_append]
  · rw [hmessage, replyDecide, lookup_stub_fields]
    dsimp only
    have hid : (stub frame).correlationId = row.msgCorrelationId := hcorrelation
    rw [fieldIs_kind, fieldIs_optText _ (lookup_stub_correlation _), hid, answers, hstub,
      Bool.or_true, Bool.and_true, List.nil_append]
    simp only [kindOf, decide_true, Bool.true_and]

theorem find_eventId {store : Store} {id : Ulid} (hrow : row ∈ store.rows)
    (hid : row.eventId = some id) :
    store.rows.find? (fun r => r.eventId.map (ofText ·.val) = some (ofText id.val)) = some row := by
  cases hfind : store.rows.find? (fun r => r.eventId.map (ofText ·.val) =
      some (ofText id.val)) with
  | none =>
    have hnone := List.find?_eq_none.mp hfind row hrow
    simp [hid] at hnone
  | some found =>
    have hsame := List.find?_some hfind
    have hfound : found.eventId = some id := by
      cases hother : found.eventId with
      | none => simp [hother] at hsame
      | some other =>
        simp only [hother, Option.map_some, Option.some.injEq, ofText_inj,
          decide_eq_true_eq] at hsame
        rw [Subtype.ext hsame]
    rw [Paging.row_of_eventId (List.mem_of_find?_eq_some hfind) hrow hfound hid]

/-- Whether a reply comes whole or as a stub, the requester ends up with the frame of its row. -/
theorem finishReply_row {client : Client} {store : Store} {frame : EventFrame}
    (h : rowToFrame R row = .ok frame) (hrow : row ∈ store.fanOutable) :
    finishReply R client store .matched [rowMessage R row] = .ok (some frame) := by
  obtain ⟨hmem, hsome⟩ := Store.mem_fanOutable.mp hrow
  obtain ⟨id, hid⟩ := Option.isSome_iff_exists.mp hsome
  obtain ⟨heventId, hfields, -, -⟩ := rowToFrame_ok h
  rw [hid, Option.map_some] at heventId
  obtain ⟨-, hmessage⟩ | ⟨-, hmessage⟩ := rowMessage_cases h
  · have hkeys : (frame.fields.map (·.1)).Nodup := by
      have hdistinct := fieldsDistinct_event h
      exact hdistinct
    rw [hmessage, finishReply, fieldIs_kind]
    simp only [kindOf, String.reduceEq, decide_false, Bool.false_eq_true, ↓reduceIte]
    rw [client.convert_event frame (by rw [heventId]; rfl) hkeys]
  · rw [hmessage, finishReply, fieldIs_kind]
    simp only [kindOf, decide_true, ↓reduceIte]
    have hstub : (stub frame).eventId = some id.val := heventId
    rw [lookup_stub_eventId, hstub]
    simp only [optText, text, refetchReply, scalar_ofText, ↓reduceIte, find_eventId hmem hid, h]
    rfl

end Replies

section Exchange

/-- What one call of `emit` meets. -/
structure Stamp where
  receivedAt : Int
  eventId : Ulid
  fault : Option PyExc
  session : Session
  convert : Row → Except PyExc Unit

def Message.emit (m : Message) (bus : Bus) (stamp : Stamp) : Outcome EmitResult :=
  Emit.emit bus (m.event stamp.receivedAt) stamp.eventId stamp.fault stamp.session stamp.convert

/-- A request that waits for its reply, and the event id it waits behind. -/
structure Ask where
  sender : String
  correlationId : String
  since : Option String
  deriving DecidableEq

/-- The bus, the messages stored so far (history), and the requests that have come to wait. -/
structure State where
  bus : Bus
  sent : List Message
  asks : List Ask

inductive Act where
  | request (recipient body sender : String) (replyTo correlationId thread : Option String)
      (new : Ulid) (stamp : Stamp)
  | respond (frame : EventFrame) (body : String) (sender thread : Option String) (stamp : Stamp)
  | others (call : Call)

def State.post (s : State) (m : Message) (stamp : Stamp) : State :=
  let bus := (m.emit s.bus stamp).bus
  { s with
    bus
    sent := if bus.store.rows.length = s.bus.store.rows.length then s.sent else s.sent ++ [m] }

/-- `result.event.event_id`. -/
def eventIdOf (event : List (String × SqlValue)) : Option String :=
  (event.lookup "event_id").bind SqlValue.text?

def Foreign (id : String) : Prop :=
  ¬"agent:".toList <+: id.toList

def exchange : System State Act where
  init s := s.sent = [] ∧ s.asks = [] ∧ ∀ row ∈ s.bus.store.rows, Foreign row.deliveryId
  step s
    | .request recipient body sender replyTo correlationId thread new stamp =>
      let m := requestMessage recipient body sender replyTo correlationId thread new
      some (match (m.emit s.bus stamp).returned with
        | .ok result => { s.post m stamp with
            asks := s.asks ++ [⟨sender, m.envelope.correlationId, eventIdOf result.event⟩] }
        | .error _ => s.post m stamp)
    | .respond frame body sender thread stamp =>
      match replyMessage frame body sender thread with
      | .ok m => some (s.post m stamp)
      | .error _ => some s
    | .others call => some { s with bus := (run s.bus call).bus }

def eventIds (store : Store) : List Ulid :=
  store.rows.filterMap (·.eventId)

/-- No correlation id has a colon, and one that is asked with is new, or the asker's own from an
earlier try. Replies go to frames of stored rows; nobody else takes up a correlation id that has
been asked with, or writes under the delivery ids of messages; event ids are new. -/
def Proper (R : Runtime) (s : State) : Act → Prop
  | .request recipient body sender replyTo correlationId thread new stamp =>
    let m := requestMessage recipient body sender replyTo correlationId thread new
    stamp.eventId ∉ eventIds s.bus.store ∧ ':' ∉ m.envelope.correlationId.toList ∧
      ((∀ row ∈ s.bus.store.rows, row.msgCorrelationId ≠ some m.envelope.correlationId) ∨
        ∃ asked ∈ s.sent, asked.verb = .request ∧ asked.envelope.sender = sender ∧
          asked.envelope.correlationId = m.envelope.correlationId)
  | .respond frame _ _ _ stamp =>
    stamp.eventId ∉ eventIds s.bus.store ∧
      (∃ row ∈ s.bus.store.rows, rowToFrame R row = .ok frame) ∧
      ∀ c ∈ fieldText frame "msg_correlation_id", ':' ∉ c.toList
  | .others call => Fresh s.bus.store call.items ∧ ∀ event ∈ call.events,
    Foreign event.deliveryId ∧
      ∀ m ∈ s.sent, m.verb = .request → event.msgCorrelationId ≠ some m.envelope.correlationId

end Exchange

section DeliveryIds

theorem toList_deliveryId (m : Message) : (deliveryId m).toList = "agent:".toList ++
    (m.envelope.sender.toList ++ ':' :: (m.verb.word.toList ++
      ':' :: m.envelope.correlationId.toList)) := by
  have hcolon : ":".toList = [':'] := rfl
  have hsplit : deliveryId m = "agent:" ++ m.envelope.sender ++ ":" ++ m.verb.word ++ ":" ++
      m.envelope.correlationId := rfl
  rw [hsplit]
  simp only [String.toList_append, hcolon, List.append_assoc, List.cons_append, List.nil_append]

theorem foreign_ne {id : String} (h : Foreign id) (m : Message) : id ≠ deliveryId m := by
  rintro rfl
  exact h ⟨_, (toList_deliveryId m).symm⟩

theorem word_plain (verb : Verb) : ':' ∉ verb.word.toList := by
  cases verb <;> decide

theorem deliveryId_inj {m m' : Message} (hplain : ':' ∉ m.envelope.correlationId.toList)
    (hplain' : ':' ∉ m'.envelope.correlationId.toList) (h : deliveryId m = deliveryId m') :
    m.envelope.sender = m'.envelope.sender ∧ m.verb = m'.verb ∧
      m.envelope.correlationId = m'.envelope.correlationId := by
  have hlist := congrArg String.toList h
  rw [toList_deliveryId, toList_deliveryId] at hlist
  have hrest := List.append_cancel_left hlist
  rw [← List.cons_append, ← List.cons_append, ← List.append_assoc, ← List.append_assoc] at hrest
  obtain ⟨hfront, hcorrelation⟩ := Delimiters.last_split_inj hplain hplain' hrest
  obtain ⟨hsender, hword⟩ :=
    Delimiters.last_split_inj (word_plain m.verb) (word_plain m'.verb) hfront
  refine ⟨String.toList_inj.mp hsender, ?_, String.toList_inj.mp hcorrelation⟩
  have hwords := String.toList_inj.mp hword
  cases hverb : m.verb <;> cases hverb' : m'.verb <;> simp_all [Verb.word]

end DeliveryIds

section Storing

variable {m : Message} {row : Row} {bus : Bus} {stamp : Stamp}

def Carries (m : Message) (row : Row) : Prop :=
  ∃ receivedAt id, (m.event receivedAt).row id = .ok (content row)

theorem Carries.columns (h : Carries m row) : row.deliveryId = deliveryId m ∧
    row.msgCorrelationId = some m.envelope.correlationId ∧
    row.msgTo = some m.envelope.recipient ∧ row.msgFrom = some m.envelope.sender ∧
    row.msgBody = some m.envelope.body ∧ row.msgReplyTo = m.envelope.replyTo ∧
    row.msgThread = m.envelope.thread ∧ row.eventId.isSome := by
  obtain ⟨receivedAt, id, hrow⟩ := h
  obtain ⟨runId, at', jobId, parentRunId, -, -, -, -, heq⟩ := event_row hrow
  have hfields := congrArg (fun r : Row => (r.deliveryId, r.msgCorrelationId, r.msgTo, r.msgFrom,
    r.msgBody, r.msgReplyTo, r.msgThread, r.eventId)) heq
  simp only [content, Message.event, Prod.mk.injEq] at hfields
  obtain ⟨h1, h2, h3, h4, h5, h6, h7, h8⟩ := hfields
  exact ⟨h1, h2, h3, h4, h5, h6, h7, by rw [h8]; rfl⟩

theorem emit_stores (m : Message) (bus : Bus) (stamp : Stamp)
    (fresh : stamp.eventId ∉ eventIds bus.store) :
    (m.emit bus stamp).bus.store.rows = bus.store.rows ∨
      deliveryId m ∉ bus.store.rows.map (·.deliveryId) ∧
        ∃ row, Carries m row ∧ (m.emit bus stamp).bus.store.rows = bus.store.rows ++ [row] := by
  rw [Message.emit, Emit.emit]
  cases htransact : transact stamp.session (insertEvent bus.store (m.event stamp.receivedAt)
      stamp.eventId stamp.fault) with
  | error exc => exact .inl rfl
  | ok result =>
    obtain ⟨inserted, store⟩ := result
    obtain ⟨row, hrow, -, hdelivery, hrows⟩ :=
      insertEvent_rows (insertEvent_returns (transact_ok htransact)) fresh
    have hkey : row.deliveryId = deliveryId m := hdelivery
    dsimp only
    by_cases hknown : row.deliveryId ∈ bus.store.rows.map (·.deliveryId)
    · rw [if_pos hknown] at hrows
      exact .inl hrows
    · rw [if_neg hknown] at hrows
      rw [hkey] at hknown
      refine .inr ⟨hknown, _, ⟨stamp.receivedAt, stamp.eventId, ?_⟩, hrows⟩
      obtain ⟨runId, at', jobId, parentRunId, -, -, -, -, heq⟩ := event_row hrow
      rw [hrow, heq]
      rfl

theorem emit_returns {result : EmitResult} (h : (m.emit bus stamp).returned = .ok result) :
    ∃ row ∈ (m.emit bus stamp).bus.store.rows, row.deliveryId = deliveryId m ∧
      result.event = row.columns := by
  rw [Message.emit, Emit.emit] at h ⊢
  cases htransact : transact stamp.session (insertEvent bus.store (m.event stamp.receivedAt)
      stamp.eventId stamp.fault) with
  | error exc =>
    rw [htransact] at h
    cases h
  | ok outcome =>
    obtain ⟨inserted, store⟩ := outcome
    rw [htransact] at h
    dsimp only [readBack] at h ⊢
    cases hfind : store.rows.find? (·.deliveryId = (m.event stamp.receivedAt).deliveryId) with
    | none =>
      rw [hfind] at h
      cases h
    | some row =>
      rw [hfind] at h
      dsimp only at h
      cases hconvert : stamp.convert row with
      | error exc =>
        rw [hconvert] at h
        cases h
      | ok done =>
        rw [hconvert] at h
        cases h
        have hkey : row.deliveryId = (m.event stamp.receivedAt).deliveryId := by
          simpa using List.find?_some hfind
        exact ⟨row, List.mem_of_find?_eq_some hfind, hkey, rfl⟩

theorem eventIdOf_columns (row : Row) : eventIdOf row.columns = row.eventId.map (·.val) := by
  have hlookup : row.columns.lookup "event_id" = some (sqlText (row.eventId.map (·.val))) := by
    simp [Row.columns, List.lookup]
  rw [eventIdOf, hlookup, Option.bind_some]
  cases row.eventId <;> rfl

theorem emitLoop_new {items : List Item} {view t : Store} {n k : Nat}
    (h : emitLoop n view items = .ok (k, t)) : ∃ new, t.rows = view.rows ++ new ∧
      ∀ row ∈ new, ∃ w ∈ writes items, row.deliveryId = w.1.deliveryId ∧
        row.msgCorrelationId = w.1.msgCorrelationId := by
  induction items generalizing n view with
  | nil =>
    cases h
    exact ⟨[], (List.append_nil _).symm, by simp⟩
  | cons item rest ih =>
    cases item with
    | raised exc => cases h
    | event event eventId fault =>
      rw [emitLoop] at h
      split at h
      · cases h
      · rename_i inserted u hinsert
        obtain ⟨new, hrows, hnew⟩ := ih h
        have hrest : ∀ row ∈ new, ∃ w ∈ writes (.event event eventId fault :: rest),
            row.deliveryId = w.1.deliveryId ∧ row.msgCorrelationId = w.1.msgCorrelationId := by
          intro row hrow
          obtain ⟨w, hw, hsame⟩ := hnew row hrow
          exact ⟨w, List.mem_cons_of_mem _ hw, hsame⟩
        obtain ⟨stored, hstored, hstore⟩ := insertEvent_ok (insertEvent_returns hinsert)
        obtain ⟨runId, at', jobId, parentRunId, -, -, -, -, rfl⟩ := event_row hstored
        unfold Store.insertOrIgnore at hstore
        split at hstore
        · obtain ⟨-, rfl⟩ := Prod.mk.inj hstore
          rw [List.append_assoc] at hrows
          refine ⟨_, hrows, fun row hrow => ?_⟩
          obtain hrow | hrow := List.mem_append.mp hrow
          · rw [List.mem_singleton.mp hrow]
            exact ⟨(event, eventId), List.mem_cons_self, rfl, rfl⟩
          · exact hrest row hrow
        · obtain ⟨-, rfl⟩ := Prod.mk.inj hstore
          exact ⟨new, hrows, hrest⟩

end Storing

section Invariant

variable {R : Runtime} {s t : State} {m : Message} {stamp : Stamp}

def messagesOf (correlationId : String) (sent : List Message) : List Message :=
  sent.filter (·.envelope.correlationId = correlationId)

def correlated (correlationId : String) (rows : List Row) : List Row :=
  rows.filter (·.msgCorrelationId = some correlationId)

/-- The request, and behind it the replies; the first of them goes back to whoever asked. -/
structure Exchanged (s : State) (m : Message) (replies : List Message) : Prop where
  messages : messagesOf m.envelope.correlationId s.sent = m :: replies
  rows : List.Forall₂ Carries (m :: replies)
    (correlated m.envelope.correlationId s.bus.store.rows)
  first : ∀ r ∈ replies.head?, r.verb = .reply ∧ r.envelope.recipient = m.envelope.sender

structure Invariant (s : State) : Prop where
  stored : ∀ row ∈ s.bus.store.rows, Foreign row.deliveryId ∨ ∃ m ∈ s.sent, Carries m row
  kept : ∀ m ∈ s.sent, ':' ∉ m.envelope.correlationId.toList ∧
    ∃ row ∈ s.bus.store.rows, Carries m row
  exchanges : ∀ m ∈ s.sent, m.verb = .request → ∃ replies, Exchanged s m replies
  asked : ∀ ask ∈ s.asks, ∃ m ∈ s.sent, m.verb = .request ∧ m.envelope.sender = ask.sender ∧
    m.envelope.correlationId = ask.correlationId ∧
    ∃ row ∈ s.bus.store.rows, Carries m row ∧ ask.since = row.eventId.map (·.val)

theorem init_invariant (h : exchange.init s) : Invariant s := by
  obtain ⟨hsent, hasks, hforeign⟩ := h
  constructor
  · exact fun row hrow => .inl (hforeign row hrow)
  · simp [hsent]
  · simp [hsent]
  · simp [hasks]

theorem Exchanged.others {replies : List Message} (h : Exchanged s m replies) {bus : Bus}
    {new : List Row} (hrows : bus.store.rows = s.bus.store.rows ++ new)
    (hnew : ∀ row ∈ new, row.msgCorrelationId ≠ some m.envelope.correlationId) :
    Exchanged { s with bus } m replies := by
  refine ⟨h.messages, ?_, h.first⟩
  have hnone : correlated m.envelope.correlationId new = [] := by
    simpa [correlated, List.filter_eq_nil_iff] using hnew
  have hsplit : correlated m.envelope.correlationId bus.store.rows =
      correlated m.envelope.correlationId s.bus.store.rows := by
    rw [hrows, correlated, List.filter_append]
    rw [correlated] at hnone
    rw [hnone, List.append_nil, correlated]
  dsimp only
  rw [hsplit]
  exact h.rows

theorem others_invariant (h : Invariant s) {call : Call}
    (hproper : ∀ event ∈ call.events, Foreign event.deliveryId ∧
      ∀ m ∈ s.sent, m.verb = .request →
        event.msgCorrelationId ≠ some m.envelope.correlationId) :
    Invariant { s with bus := (run s.bus call).bus } := by
  have hgrown : ∃ new, (run s.bus call).bus.store.rows = s.bus.store.rows ++ new ∧
      ∀ row ∈ new, ∃ event ∈ call.events, row.deliveryId = event.deliveryId ∧
        row.msgCorrelationId = event.msgCorrelationId := by
    obtain ⟨-, hbus, -⟩ | ⟨n, store, hloop, -, hbus, -⟩ := run_cases s.bus call
    · exact ⟨[], by rw [hbus, List.append_nil], by simp⟩
    · obtain ⟨new, hrows, hnew⟩ := emitLoop_new hloop
      rw [hbus]
      refine ⟨new, hrows, fun row hrow => ?_⟩
      obtain ⟨w, hw, hsame⟩ := hnew row hrow
      exact ⟨w.1, List.mem_map_of_mem hw, hsame⟩
  obtain ⟨new, hrows, hnew⟩ := hgrown
  constructor
  · intro row hrow
    rw [hrows] at hrow
    obtain hrow | hrow := List.mem_append.mp hrow
    · exact h.stored row hrow
    · obtain ⟨event, hevent, hkey, -⟩ := hnew row hrow
      rw [hkey]
      exact .inl (hproper event hevent).1
  · intro m hm
    obtain ⟨hplain, row, hrow, hcarries⟩ := h.kept m hm
    refine ⟨hplain, row, ?_, hcarries⟩
    rw [hrows]
    exact List.mem_append_left _ hrow
  · intro m hm hverb
    obtain ⟨replies, hreplies⟩ := h.exchanges m hm hverb
    refine ⟨replies, hreplies.others hrows fun row hrow => ?_⟩
    obtain ⟨event, hevent, -, hcorrelation⟩ := hnew row hrow
    rw [hcorrelation]
    exact (hproper event hevent).2 m hm hverb
  · intro ask hask
    obtain ⟨m, hm, hverb, hsender, hcorrelation, row, hrow, hcarries, hsince⟩ := h.asked ask hask
    refine ⟨m, hm, hverb, hsender, hcorrelation, row, ?_, hcarries, hsince⟩
    rw [hrows]
    exact List.mem_append_left _ hrow

/-- A message under a new delivery id opens an exchange, or joins those under its correlation id. -/
structure Joins (s : State) (m : Message) : Prop where
  plain : ':' ∉ m.envelope.correlationId.toList
  opens : m.verb = .request → ∀ row ∈ s.bus.store.rows,
    row.msgCorrelationId ≠ some m.envelope.correlationId
  answers : ∀ r ∈ s.sent, r.verb = .request →
    r.envelope.correlationId = m.envelope.correlationId → m.verb = .reply ∧
      ((correlated m.envelope.correlationId s.bus.store.rows).length = 1 →
        m.envelope.recipient = r.envelope.sender)

theorem messagesOf_append (correlationId : String) (sent : List Message) (m : Message) :
    messagesOf correlationId (sent ++ [m]) =
      if m.envelope.correlationId = correlationId then messagesOf correlationId sent ++ [m]
      else messagesOf correlationId sent := by
  by_cases h : m.envelope.correlationId = correlationId
  · rw [if_pos h]
    simp [messagesOf, h]
  · rw [if_neg h]
    simp [messagesOf, h]

theorem correlated_append (correlationId : String) (rows : List Row) (row : Row) :
    correlated correlationId (rows ++ [row]) =
      if row.msgCorrelationId = some correlationId then correlated correlationId rows ++ [row]
      else correlated correlationId rows := by
  by_cases h : row.msgCorrelationId = some correlationId
  · rw [if_pos h]
    simp [correlated, h]
  · rw [if_neg h]
    simp [correlated, h]

theorem Exchanged.joined {replies : List Message} {r : Message} (h : Exchanged s r replies)
    (hr : r ∈ s.sent) (hverb : r.verb = .request) (joins : Joins s m) {bus : Bus} {row : Row}
    (hrows : bus.store.rows = s.bus.store.rows ++ [row]) (hcarries : Carries m row) :
    ∃ replies', Exchanged { s with bus, sent := s.sent ++ [m] } r replies' := by
  obtain ⟨-, hcolumn, -⟩ := hcarries.columns
  by_cases hsame : m.envelope.correlationId = r.envelope.correlationId
  · obtain ⟨hreply, hback⟩ := joins.answers r hr hverb hsame.symm
    refine ⟨replies ++ [m], ?_, ?_, ?_⟩
    · rw [messagesOf_append, if_pos hsame, h.messages]
      rfl
    · rw [hrows, correlated_append, if_pos (by rw [hcolumn, hsame]), ← List.cons_append]
      exact List.rel_append h.rows (.cons hcarries .nil)
    · intro first hfirst
      cases replies with
      | nil =>
        obtain rfl : m = first := by simpa using hfirst
        have hlength := h.rows.length_eq
        rw [List.length_singleton, ← hsame] at hlength
        exact ⟨hreply, hback hlength.symm⟩
      | cons head rest => exact h.first first hfirst
  · refine ⟨replies, ?_, ?_, h.first⟩
    · rw [messagesOf_append, if_neg hsame, h.messages]
    · have hother : row.msgCorrelationId ≠ some r.envelope.correlationId := by
        rw [hcolumn]
        exact fun heq => hsame (Option.some.inj heq)
      rw [hrows, correlated_append, if_neg hother]
      exact h.rows

theorem Exchanged.opened (h : Invariant s) (joins : Joins s m) (hverb : m.verb = .request)
    {bus : Bus} {row : Row} (hrows : bus.store.rows = s.bus.store.rows ++ [row])
    (hcarries : Carries m row) : Exchanged { s with bus, sent := s.sent ++ [m] } m [] := by
  obtain ⟨-, hcolumn, -⟩ := hcarries.columns
  have hnorows : correlated m.envelope.correlationId s.bus.store.rows = [] := by
    simpa [correlated, List.filter_eq_nil_iff] using joins.opens hverb
  have hnone : messagesOf m.envelope.correlationId s.sent = [] := by
    refine List.filter_eq_nil_iff.mpr fun other hother hsame => ?_
    obtain ⟨-, stored, hstored, hstoredCarries⟩ := h.kept other hother
    obtain ⟨-, hcorrelation, -⟩ := hstoredCarries.columns
    rw [of_decide_eq_true hsame] at hcorrelation
    exact joins.opens hverb stored hstored hcorrelation
  refine ⟨?_, ?_, by simp⟩
  · rw [messagesOf_append, if_pos rfl, hnone, List.nil_append]
  · rw [hrows, correlated_append, if_pos hcolumn, hnorows, List.nil_append]
    exact .cons hcarries .nil

theorem stored_invariant (h : Invariant s) (joins : Joins s m) {bus : Bus} {row : Row}
    (hrows : bus.store.rows = s.bus.store.rows ++ [row]) (hcarries : Carries m row) :
    Invariant { s with bus, sent := s.sent ++ [m] } := by
  constructor
  · intro r hr
    dsimp only at hr
    rw [hrows] at hr
    obtain hr | hr := List.mem_append.mp hr
    · refine (h.stored r hr).imp id ?_
      rintro ⟨other, hother, hcarried⟩
      exact ⟨other, List.mem_append_left _ hother, hcarried⟩
    · rw [List.mem_singleton.mp hr]
      exact .inr ⟨m, List.mem_append_right _ (List.mem_singleton_self m), hcarries⟩
  · intro other hother
    dsimp only
    rw [hrows]
    obtain hother | hother := List.mem_append.mp hother
    · obtain ⟨hplain, r, hr, hcarried⟩ := h.kept other hother
      exact ⟨hplain, r, List.mem_append_left _ hr, hcarried⟩
    · rw [List.mem_singleton.mp hother]
      exact ⟨joins.plain, row, List.mem_append_right _ (List.mem_singleton_self row), hcarries⟩
  · intro other hother hverb
    obtain hother | hother := List.mem_append.mp hother
    · obtain ⟨replies, hreplies⟩ := h.exchanges other hother hverb
      exact hreplies.joined hother hverb joins hrows hcarries
    · rw [List.mem_singleton.mp hother] at hverb ⊢
      exact ⟨[], .opened h joins hverb hrows hcarries⟩
  · intro ask hask
    obtain ⟨other, hother, hverb, hsender, hcorrelation, r, hr, hcarried⟩ := h.asked ask hask
    refine ⟨other, List.mem_append_left _ hother, hverb, hsender, hcorrelation, r, ?_, hcarried⟩
    dsimp only
    rw [hrows]
    exact List.mem_append_left _ hr

theorem Invariant.rows (h : Invariant s) {bus : Bus} (hrows : bus.store.rows = s.bus.store.rows) :
    Invariant { s with bus } := by
  constructor
  · simpa only [hrows] using h.stored
  · simpa only [hrows] using h.kept
  · intro r hr hverb
    obtain ⟨replies, hreplies⟩ := h.exchanges r hr hverb
    refine ⟨replies, hreplies.messages, ?_, hreplies.first⟩
    dsimp only
    rw [hrows]
    exact hreplies.rows
  · simpa only [hrows] using h.asked

theorem post_invariant (h : Invariant s) (fresh : stamp.eventId ∉ eventIds s.bus.store)
    (joins : deliveryId m ∉ s.bus.store.rows.map (·.deliveryId) → Joins s m) :
    Invariant (s.post m stamp) := by
  rw [State.post]
  obtain hsame | ⟨hnew, row, hcarries, hrows⟩ := emit_stores m s.bus stamp fresh
  · rw [if_pos (by rw [hsame])]
    exact h.rows hsame
  · rw [if_neg (by rw [hrows, List.length_append]; simp)]
    exact stored_invariant h (joins hnew) hrows hcarries

theorem request_joins (h : Invariant s) (hverb : m.verb = .request)
    (hplain : ':' ∉ m.envelope.correlationId.toList)
    (hnew : deliveryId m ∉ s.bus.store.rows.map (·.deliveryId))
    (hproper : (∀ row ∈ s.bus.store.rows, row.msgCorrelationId ≠ some m.envelope.correlationId) ∨
      ∃ asked ∈ s.sent, asked.verb = .request ∧ asked.envelope.sender = m.envelope.sender ∧
        asked.envelope.correlationId = m.envelope.correlationId) : Joins s m := by
  have hfresh : ∀ row ∈ s.bus.store.rows,
      row.msgCorrelationId ≠ some m.envelope.correlationId := by
    obtain hfresh | ⟨asked, hasked, haskedVerb, hsender, hcorrelation⟩ := hproper
    · exact hfresh
    · obtain ⟨-, row, hrow, hcarries⟩ := h.kept asked hasked
      have hkey : row.deliveryId = deliveryId m := by
        rw [hcarries.columns.1, deliveryId, deliveryId, haskedVerb, hverb, hsender, hcorrelation]
      exact absurd (hkey ▸ List.mem_map_of_mem hrow) hnew
  refine ⟨hplain, fun _ => hfresh, fun r hr _ hsame => ?_⟩
  obtain ⟨-, row, hrow, hcarries⟩ := h.kept r hr
  rw [← hsame] at hfresh
  exact absurd hcarries.columns.2.1 (hfresh row hrow)

theorem reply_joins (h : Invariant s) {frame : EventFrame} {body : String}
    {sender thread : Option String} (hm : replyMessage frame body sender thread = .ok m)
    {row : Row} (hrow : row ∈ s.bus.store.rows) (hframe : rowToFrame R row = .ok frame)
    (hplain : ∀ c ∈ fieldText frame "msg_correlation_id", ':' ∉ c.toList) : Joins s m := by
  obtain ⟨-, hfields, hcorrelation, -⟩ := rowToFrame_ok hframe
  have hfrom : fieldText frame "msg_from" = row.msgFrom := by
    rw [fieldText, hfields, lookup_msgFrom]
    cases row.msgFrom <;> rfl
  have hid : fieldText frame "msg_correlation_id" = row.msgCorrelationId := hcorrelation
  rw [replyMessage, hfrom, hid] at hm
  cases hcolumn : row.msgCorrelationId with
  | none => simp [hcolumn] at hm
  | some correlationId =>
    cases hsender : row.msgFrom with
    | none => simp [hcolumn, hsender] at hm
    | some recipient =>
      rw [hcolumn, hsender] at hm
      cases hname : sender.or (fieldText frame "msg_to") with
      | none => simp [hname] at hm
      | some name =>
        rw [hname] at hm
        obtain rfl := Except.ok.inj hm
        refine ⟨hplain correlationId (hid.trans hcolumn), by simp, ?_⟩
        intro r hr hverb hsame
        refine ⟨rfl, fun hsingle => ?_⟩
        dsimp only at hsame hsingle ⊢
        obtain ⟨replies, hexchanged⟩ := h.exchanges r hr hverb
        have hrows := hexchanged.rows
        rw [hsame] at hrows
        have hmem : row ∈ correlated correlationId s.bus.store.rows :=
          List.mem_filter.mpr ⟨hrow, decide_eq_true hcolumn⟩
        obtain ⟨only, honly⟩ := List.length_eq_one_iff.mp hsingle
        rw [honly] at hrows hmem
        obtain rfl := List.mem_singleton.mp hmem
        cases hrows with
        | cons hcarries _ =>
          obtain ⟨-, -, -, hsent, -⟩ := hcarries.columns
          exact Option.some.inj (hsender.symm.trans hsent)

/-- A request that is waited for is one that has been stored, by this call or an earlier one. -/
theorem request_asked (h : Invariant (s.post m stamp)) {result : EmitResult}
    (hplain : ':' ∉ m.envelope.correlationId.toList)
    (hreturned : (m.emit s.bus stamp).returned = .ok result) :
    ∃ asked ∈ (s.post m stamp).sent, asked.verb = m.verb ∧
      asked.envelope.sender = m.envelope.sender ∧
      asked.envelope.correlationId = m.envelope.correlationId ∧
      ∃ row ∈ (s.post m stamp).bus.store.rows, Carries asked row ∧
        eventIdOf result.event = row.eventId.map (·.val) := by
  obtain ⟨row, hrow, hkey, hevent⟩ := emit_returns hreturned
  obtain hforeign | ⟨asked, hasked, hcarries⟩ := h.stored row hrow
  · exact absurd hkey (foreign_ne hforeign m)
  · obtain ⟨hsender, hverb, hcorrelation⟩ := deliveryId_inj (h.kept asked hasked).1 hplain
      (hcarries.columns.1.symm.trans hkey)
    refine ⟨asked, hasked, hverb, hsender, hcorrelation, row, hrow, hcarries, ?_⟩
    rw [hevent, eventIdOf_columns]

theorem step_invariant (h : Invariant s) {act : Act} (hproper : Proper R s act)
    (hstep : exchange.step s act = some t) : Invariant t := by
  cases act with
  | request recipient body sender replyTo correlationId thread new stamp =>
    obtain ⟨fresh, hplain, hcorrelation⟩ := hproper
    obtain rfl := Option.some.inj hstep
    have hpost := post_invariant h fresh
      fun hnew => request_joins h rfl hplain hnew hcorrelation
    dsimp only
    split
    · rename_i result hreturned
      refine ⟨hpost.stored, hpost.kept, ?_, ?_⟩
      · intro r hr hverb
        obtain ⟨replies, hreplies⟩ := hpost.exchanges r hr hverb
        exact ⟨replies, hreplies.messages, hreplies.rows, hreplies.first⟩
      · intro ask hask
        obtain hask | hask := List.mem_append.mp hask
        · exact hpost.asked ask hask
        · rw [List.mem_singleton.mp hask]
          exact request_asked hpost hplain hreturned
    · exact hpost
  | respond frame body sender thread stamp =>
    obtain ⟨fresh, ⟨row, hrow, hframe⟩, hplain⟩ := hproper
    simp only [exchange] at hstep
    cases hm : replyMessage frame body sender thread with
    | error exc =>
      rw [hm] at hstep
      obtain rfl := Option.some.inj hstep
      exact h
    | ok m =>
      rw [hm] at hstep
      obtain rfl := Option.some.inj hstep
      exact post_invariant h fresh fun _ => reply_joins h hm hrow hframe hplain
  | others call =>
    obtain rfl := Option.some.inj hstep
    exact others_invariant h hproper.2

theorem reach_invariant (h : Reach exchange (Proper R) s) : Invariant s :=
  h.invariant (fun _ => init_invariant) fun _ _ _ _ hs hproper hstep =>
    step_invariant hs hproper hstep

end Invariant

section Requests

variable {R : Runtime} {client : Client} {s : State} {correlationId sender : String}
  {store : Store} {wire : List Blob}

/-- What the daemon has sent so far to a subscriber that reads on from an event id: the frames of
the rows behind it, in their order, and control frames anywhere between. -/
structure Wired (R : Runtime) (store : Store) (since : String) (wire : List Blob) : Prop where
  genuine : ∀ blob ∈ wire, Genuine R blob
  rows : rowsOn wire <+: above Row.seq (store.seqForEventId since) store.fanOutable

def unanswered : Last → Except ReplyError (Option EventFrame)
  | .closed => .error .connection
  | .deadline | .interrupt => .ok none

theorem rowsOn_frame (genuine : ∀ blob ∈ wire, Genuine R blob) {row : Row}
    (hrow : row ∈ rowsOn wire) : ∃ frame, rowToFrame R row = .ok frame := by
  obtain ⟨blob, hblob, hrow⟩ := List.mem_filterMap.mp hrow
  have hgenuine := genuine blob hblob
  rw [Genuine, hrow] at hgenuine
  obtain ⟨frame, hframe, -⟩ := rowBlob_frame hgenuine
  exact ⟨frame, hframe⟩

theorem awaitReply_silent (last : Last) :
    awaitReply R client store correlationId sender [] last = some (unanswered last) := by
  have hframed : framed [] = ([], .nothing) := by
    rw [framed_end]
    · rfl
    · intro payload rest h
      cases h
  rw [awaitReply, awaitStream, hframed]
  cases last <;> rfl

/-- A requester takes the first row on its wire that answers, and is given the frame of that row. -/
theorem awaitReply_wire (client : Client) (correlationId sender : String) {since : String}
    (wired : Wired R store since wire) (trailing : Bytes) (last : Last) :
    match (rowsOn wire).find? (answers R correlationId sender) with
    | some row => ∃ frame, rowToFrame R row = .ok frame ∧
        awaitReply R client store correlationId sender (stream wire ++ trailing) last =
          some (.ok (some frame))
    | none => awaitReply R client store correlationId sender (stream wire ++ trailing) last =
        awaitReply R client store correlationId sender trailing last := by
  have hdecide : ∀ row ∈ rowsOn wire, replyDecide correlationId sender [] (rowMessage R row) =
      if answers R correlationId sender row then ([rowMessage R row], .matched)
      else ([], .continue) := by
    intro row hrow
    obtain ⟨frame, hframe⟩ := rowsOn_frame wired.genuine hrow
    exact replyDecide_row hframe
  have hwait := awaitStream_wire (answers R correlationId sender)
    (fun row => [rowMessage R row]) wired.genuine client.deep hdecide trailing last
  cases hfind : (rowsOn wire).find? (answers R correlationId sender) with
  | none =>
    rw [hfind] at hwait
    simp only [awaitReply, hwait]
  | some row =>
    rw [hfind] at hwait
    have hmem := List.mem_of_find?_eq_some hfind
    obtain ⟨frame, hframe⟩ := rowsOn_frame wired.genuine hmem
    refine ⟨frame, hframe, ?_⟩
    have hrow := (mem_above.mp (wired.rows.subset hmem)).1
    simp only [awaitReply, hwait, Option.map_some, finishReply_row hframe hrow]

theorem carried_eventId {messages : List Message} {rows : List Row}
    (h : List.Forall₂ Carries messages rows) : ∀ row ∈ rows, row.eventId.isSome = true := by
  induction h with
  | nil => simp
  | cons hcarries _ ih =>
    intro row hrow
    obtain rfl | hrow := List.mem_cons.mp hrow
    · obtain ⟨-, -, -, -, -, -, -, hid⟩ := hcarries.columns
      exact hid
    · exact ih row hrow

theorem Exchanged.behind {m : Message} {replies : List Message} (h : Exchanged s m replies)
    {row : Row} (hrow : row ∈ s.bus.store.rows) (hcarries : Carries m row) :
    List.Forall₂ Carries replies (correlated m.envelope.correlationId
      (above Row.seq row.seq s.bus.store.fanOutable)) := by
  cases hrows : correlated m.envelope.correlationId s.bus.store.rows with
  | nil =>
    have hnone := h.rows
    rw [hrows] at hnone
    cases hnone
  | cons first rest =>
    have hall := h.rows
    rw [hrows] at hall
    obtain ⟨hfirst, hrest⟩ := List.forall₂_cons.mp hall
    have hsame : first = row := by
      have hmem : first ∈ s.bus.store.rows :=
        (List.mem_filter.mp (hrows ▸ List.mem_cons_self : first ∈ correlated _ _)).1
      refine List.inj_on_of_nodup_map s.bus.store.deliveryIds hmem hrow ?_
      rw [hfirst.columns.1, hcarries.columns.1]
    subst hsame
    have hinc : Increasing Row.seq (first :: rest) := by
      rw [← hrows]
      exact s.bus.store.increasing.sublist List.filter_sublist
    have hbehind : correlated m.envelope.correlationId
        (above Row.seq first.seq s.bus.store.fanOutable) = rest := by
      have hswap : correlated m.envelope.correlationId
          (above Row.seq first.seq s.bus.store.fanOutable) =
            ((correlated m.envelope.correlationId s.bus.store.rows).filter
              (·.eventId.isSome)).filter (first.seq < ·.seq) := by
        simp only [correlated, above, Store.fanOutable, List.filter_filter]
        refine List.filter_congr fun r _ => ?_
        ac_rfl
      have hids : (first :: rest).filter (·.eventId.isSome) = first :: rest := by
        refine List.filter_eq_self.mpr fun r hr => ?_
        exact carried_eventId hall r hr
      rw [hswap, hrows, hids, List.filter_cons_of_neg (by simp), List.filter_eq_self]
      intro r hr
      exact decide_eq_true ((List.pairwise_cons.mp hinc).1 r hr)
    rw [hbehind]
    exact hrest

theorem find_answers {row : Row}
    (hfind : (rowsOn wire).find? (·.msgCorrelationId = some correlationId) = some row)
    (hback : row.msgTo = some sender) :
    (rowsOn wire).find? (answers R correlationId sender) = some row := by
  obtain ⟨hcolumn, before, after, hsplit, hbefore⟩ := List.find?_eq_some_iff_append.mp hfind
  refine List.find?_eq_some_iff_append.mpr ⟨?_, before, after, hsplit, fun other hother => ?_⟩
  · rw [answers, hcolumn, hback]
    simp
  · have hno := hbefore other hother
    rw [answers]
    simp only [Bool.not_eq_true'] at hno ⊢
    rw [hno, Bool.false_and]

theorem find_answers_none
    (hfind : (rowsOn wire).find? (·.msgCorrelationId = some correlationId) = none) :
    (rowsOn wire).find? (answers R correlationId sender) = none := by
  rw [List.find?_eq_none] at hfind ⊢
  intro row hrow hanswers
  have hboth := Bool.and_eq_true_iff.mp hanswers
  exact hfind row hrow hboth.1

theorem messageField {row : Row} {frame : EventFrame} (h : rowToFrame R row = .ok frame) :
    fieldText frame "msg_body" = row.msgBody ∧ fieldText frame "msg_from" = row.msgFrom := by
  obtain ⟨-, hfields, -, -⟩ := rowToFrame_ok h
  rw [fieldText, fieldText, hfields, lookup_msgBody, lookup_msgFrom]
  cases row.msgBody <;> cases row.msgFrom <;> exact ⟨rfl, rfl⟩

end Requests

section Converting

def scalarText : Value → Option String
  | .str s => (s.mapM PyChar.toScalar).map String.ofList
  | _ => none

def optionalText : Value → Option (Option String)
  | .null => some none
  | v => (scalarText v).map some

def cell : Value → Option SqlValue
  | .null => some .null
  | .int n => if h : -2 ^ 63 ≤ n ∧ n < 2 ^ 63 then some (.integer ⟨n, h⟩) else none
  | v => (scalarText v).map .text

def convertField (p : PyStr × Value) : Option (String × SqlValue) := do
  return (← scalarText (.str p.1), ← cell p.2)

/-- `msgspec.convert(frame, EventFrame)`. -/
def convertFrame (msg : SubscribeStream.Message) : Option EventFrame := do
  let some (.int receivedAt) := lookup "received_at" msg | none
  let some (.str summary) := lookup "summary" msg | none
  let some (.obj fields) := lookup "fields" msg | none
  if h : -2 ^ 63 ≤ receivedAt ∧ receivedAt < 2 ^ 63 then
    return {
      eventId := ← optionalText (← lookup "event_id" msg)
      eventType := ← scalarText (← lookup "event_type" msg)
      owner := ← scalarText (← lookup "owner" msg)
      repo := ← scalarText (← lookup "repo" msg)
      receivedAt := ⟨receivedAt, h⟩
      deliveryId := ← scalarText (← lookup "delivery_id" msg)
      summary := summary
      fields := ← fields.mapM convertField }
  else none

theorem scalarText_text (s : String) : scalarText (text s) = some s := by
  have hchars : (ofText s).mapM PyChar.toScalar = some s.toList := by
    rw [ofText]
    induction s.toList with
    | nil => rfl
    | cons c rest ih => simp [List.mapM_cons, ih, PyChar.toScalar]
  rw [text, scalarText, hchars, Option.map_some, String.ofList_toList]

theorem cell_toValue (v : SqlValue) : cell v.toValue = some v := by
  cases v with
  | null => rfl
  | integer n => exact dif_pos n.property
  | text s =>
    have h := scalarText_text s
    rw [text] at h
    simp [SqlValue.toValue, text, cell, h]

theorem convertFields (fields : List (String × SqlValue)) :
    (fields.map fun p => (ofText p.1, p.2.toValue)).mapM convertField = some fields := by
  induction fields with
  | nil => rfl
  | cons p rest ih =>
    have hkey := scalarText_text p.1
    rw [text] at hkey
    simp [List.mapM_cons, ih, convertField, hkey, cell_toValue]

theorem convertFrame_event (frame : EventFrame) :
    convertFrame (message (.event frame)) = some frame := by
  have hid : optionalText (optText frame.eventId) = some frame.eventId := by
    cases frame.eventId with
    | none => rfl
    | some s =>
      have h := scalarText_text s
      rw [text] at h
      simp [optText, optionalText, text, h]
  have hfields := convertFields frame.fields
  rw [List.mapM_map] at hfields
  have hrange : -9223372036854775808 ≤ frame.receivedAt.val ∧
      frame.receivedAt.val < 9223372036854775808 := frame.receivedAt.property
  simp only [Function.comp_def] at hfields
  simp [convertFrame, message, WireFrame.toValue, record, lookup, fieldsValue, scalarText_text, hid,
    Function.comp_def, hfields, hrange]

def sampleClient : Client where
  depth := 990
  convert := convertFrame
  deep := by decide
  convert_event frame _ _ := convertFrame_event frame

end Converting

section Sample

def sampleStamp (n : Nat) : Stamp where
  receivedAt := nsReceivedAtMin
  eventId := ulidAt n
  fault := none
  session := ⟨none, none⟩
  convert _ := .ok ()

def sampleStart : State :=
  ⟨⟨.empty, 0⟩, [], []⟩

def sampleRequest : Act :=
  .request "b" "ping" "a" none (some "c") none (ulidAt 9) (sampleStamp 1)

def sampleAsked : State :=
  (exchange.step sampleStart sampleRequest).getD sampleStart

def sampleRow : Row :=
  sampleAsked.bus.store.rows.get ⟨0, by decide +kernel⟩

def sampleFrame : EventFrame where
  eventId := some (ulidAt 1).val
  eventType := "agent_message"
  owner := "local"
  repo := "agents"
  receivedAt := sampleRow.receivedAt
  deliveryId := "agent:a:request:c"
  summary := (summaryFor .reference sampleRow).toOption.getD []
  fields := frameFields sampleRow

def sampleReply : Act :=
  .respond sampleFrame "pong" none none (sampleStamp 2)

def sampleReplied : State :=
  (exchange.step sampleAsked sampleReply).getD sampleAsked

def replyRow : Row :=
  sampleReplied.bus.store.rows.get ⟨1, by decide +kernel⟩

def replyWire : List Blob :=
  [⟨(rowBlob .reference replyRow).toOption.getD [], some replyRow⟩]

theorem sampleReplied_reach : Reach exchange (Proper .reference) sampleReplied := by
  have hstart : Reach exchange (Proper .reference) sampleStart :=
    .start ⟨rfl, rfl, fun row hrow => by cases hrow⟩
  have hasked : Reach exchange (Proper .reference) sampleAsked := by
    refine hstart.next (a := sampleRequest) ⟨by decide, by decide, .inl ?_⟩ rfl
    intro row hrow
    cases hrow
  refine hasked.next (a := sampleReply) ⟨by decide +kernel, ⟨sampleRow, ?_, rfl⟩, ?_⟩ rfl
  · exact List.get_mem ..
  · decide +kernel

theorem replyWire_wired : Wired .reference sampleReplied.bus.store (ulidAt 1).val replyWire := by
  constructor
  · intro blob hblob
    rw [List.mem_singleton.mp hblob, Genuine]
    have hok : (rowBlob .reference replyRow).toOption.isSome = true := by decide +kernel
    dsimp only
    cases hbytes : rowBlob .reference replyRow with
    | error exc =>
      rw [hbytes] at hok
      cases hok
    | ok bytes => rfl
  · exact ⟨[], rfl⟩

end Sample

end Waitbus.Messaging
