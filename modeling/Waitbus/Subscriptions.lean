import Mathlib
import Waitbus.Coalesce
import Waitbus.RowFrame

/-! The resources a model's session subscribes to, and which of them a frame from the daemon rings.
A message for an agent rings one agent resource of a session at most, any other event each resource
that covers its repository. -/

namespace Waitbus.Subscriptions
open Python Json FrameCodec EventStore Await RowFrame

def uriCurrent : PyStr := ofText "waitbus://current"

def uriRepoPrefix : PyStr := ofText "waitbus://repo/"

def uriAgentPrefix : PyStr := ofText "waitbus://agent/"

def wildcard : PyStr := ofText "*"

/-- `path.split("/")`. -/
def segments (path : PyStr) : List PyStr :=
  path.splitOn (.scalar '/')

def uriMatchesFrame (uri owner repo : PyStr) : Bool :=
  if uri = uriCurrent then true
  else if ¬uriRepoPrefix <+: uri then false
  else match segments (uri.drop uriRepoPrefix.length) with
    | [patOwner, patRepo] =>
      if patOwner ≠ wildcard ∧ patOwner ≠ owner then false
      else patRepo = wildcard ∨ patRepo = repo
    | _ => false

def parseAgentUri (uri : PyStr) : Option PyStr :=
  if ¬uriAgentPrefix <+: uri then none
  else if uri.drop uriAgentPrefix.length = [] then none
  else some (uri.drop uriAgentPrefix.length)

def isSubscribableUri (uri : PyStr) : Bool :=
  if uri = uriCurrent then true
  else if uriRepoPrefix <+: uri then
    let parts := segments (uri.drop uriRepoPrefix.length)
    parts.length = 2 ∧ ∀ part ∈ parts, part ≠ []
  else (parseAgentUri uri).isSome

/-- The subscriptions of a session, in the order in which iterating over the set meets them. -/
structure Session where
  subscriptions : List PyStr
  nodup : subscriptions.Nodup
  subscribable : ∀ uri ∈ subscriptions, isSubscribableUri uri = true

/-- `agent_doorbell_uri_for_session`. -/
def agentDoorbellUri (subscriptions : List PyStr) (msgTo : PyStr) : Option PyStr :=
  match (subscriptions.filter (uriAgentPrefix <+: ·)).insertionSort
    fun x y => Coalesce.codes x ≤ Coalesce.codes y with
  | [] => none
  | smallest :: _ =>
    if msgTo ≠ wildcard then
      if uriAgentPrefix ++ msgTo ∈ subscriptions then some (uriAgentPrefix ++ msgTo) else none
    else some smallest

/-- `str(frame.get(key) or "")`; the daemon sends a text, `null` or no such field. -/
def textAt (frame : Value) (key : String) : PyStr :=
  match field frame key with
  | some (.str s) => s
  | _ => []

/-- `kind in DRAINABLE_CONTROL_KINDS`. -/
def drainable (frame : Value) : Bool :=
  fieldIs frame "kind" "daemon_heartbeat" || fieldIs frame "kind" "subscribe_ack"

def messageTo (frame : Value) : PyStr :=
  match field frame "fields" with
  | some fields => textAt fields "msg_to"
  | none => []

/-- The resources of one session that a frame rings, in the order of the notifications. -/
def rung (subscriptions : List PyStr) (frame : Value) : List PyStr :=
  if drainable frame then []
  else if fieldIs frame "event_type" "agent_message" then
    if messageTo frame = [] then []
    else (agentDoorbellUri subscriptions (messageTo frame)).toList
  else if textAt frame "owner" = [] ∨ textAt frame "repo" = [] then []
  else subscriptions.filter fun uri =>
    uriMatchesFrame uri (textAt frame "owner") (textAt frame "repo")

/-- `_sessions`. -/
structure Registry where
  sessions : List (Nat × Session)
  keys : (sessions.map (·.1)).Nodup

/-- `_emit_to_subscribed_sessions`: the notifications, each with the session that it is for. -/
def emitToSubscribedSessions (registry : Registry) (frame : Value) : List (Nat × PyStr) :=
  registry.sessions.flatMap fun entry => (rung entry.2.subscriptions frame).map (entry.1, ·)

/-- The frame that the subscribers of the daemon decode for a row, if one is sent. -/
def sent (R : Runtime) (row : Row) : Option Value :=
  match rowToFrame R row with
  | .error _ => none
  | .ok frame =>
    match serialize R frame with
    | .error _ => none
    | .ok _ => some (wireFrame R frame).toValue

/-- The `resources/updated` notifications that a row causes on a session. -/
def notified (registry : Registry) (R : Runtime) (row : Row) (session : Nat) : List PyStr :=
  match sent R row with
  | none => []
  | some frame => ((emitToSubscribedSessions registry frame).filter (·.1 = session)).map (·.2)

def CoversRepo (uri owner repo : PyStr) : Prop :=
  uri = uriCurrent ∨ ∃ patOwner patRepo : PyStr,
    .scalar '/' ∉ patOwner ∧ .scalar '/' ∉ patRepo ∧
      uri = uriRepoPrefix ++ (patOwner ++ .scalar '/' :: patRepo) ∧
      (patOwner = wildcard ∨ patOwner = owner) ∧ (patRepo = wildcard ∨ patRepo = repo)

def Wanted (session : Session) (row : Row) : Prop :=
  if row.eventType = "agent_message" then
    ∃ agent ∈ row.msgTo, uriAgentPrefix ++ ofText agent ∈ session.subscriptions ∨
      agent = "*" ∧ ∃ uri ∈ session.subscriptions, uriAgentPrefix <+: uri
  else ∃ uri ∈ session.subscriptions, CoversRepo uri (ofText row.owner) (ofText row.repo)

/-- A message rings once, an agent resource, where it is wanted and not otherwise; any other row
rings where it is wanted and not otherwise. -/
def Rings (pinged : List PyStr) (session : Session) (row : Row) : Prop :=
  if row.eventType = "agent_message" then
    (Wanted session row → ∃ uri ∈ session.subscriptions, uriAgentPrefix <+: uri ∧ pinged = [uri]) ∧
      (¬Wanted session row → pinged = [])
  else pinged ≠ [] ↔ Wanted session row

/-- The row goes over the wire as an event frame, no stub in its place. -/
def Whole (R : Runtime) (row : Row) : Prop :=
  ∃ frame blob, rowToFrame R row = .ok frame ∧ encodeStructFrame R (.event frame) = .ok blob

section Matching

variable {uri owner repo a b path : PyStr}

theorem not_mem_segments (h : a ∈ segments path) : .scalar '/' ∉ a := by
  induction path generalizing a with
  | nil =>
    rw [List.mem_singleton.mp h]
    exact List.not_mem_nil
  | cons c rest ih =>
    rw [segments, List.splitOn_cons_eq_if_modifyHead] at h
    split at h
    · rcases List.mem_cons.mp h with rfl | h
      · exact List.not_mem_nil
      · exact ih h
    · rename_i hc
      cases hrest : rest.splitOn (.scalar '/') with
      | nil => exact absurd hrest (List.splitOn_ne_nil _ _)
      | cons first others =>
        rw [hrest, List.modifyHead_cons, List.mem_cons] at h
        rcases h with rfl | h
        · rw [List.mem_cons, not_or]
          exact ⟨fun heq => hc (by simp [heq]), ih (by simp [segments, hrest])⟩
        · exact ih (by simp [segments, hrest, h])

theorem segments_eq_pair : segments path = [a, b] ↔
    .scalar '/' ∉ a ∧ .scalar '/' ∉ b ∧ path = a ++ .scalar '/' :: b := by
  constructor
  · intro h
    have ha : a ∈ segments path := by simp [h]
    have hb : b ∈ segments path := by simp [h]
    refine ⟨not_mem_segments ha, not_mem_segments hb, ?_⟩
    have hjoin : [PyChar.scalar '/'].intercalate (path.splitOn (.scalar '/')) = path :=
      List.intercalate_splitOn _
    rw [← segments, h] at hjoin
    rw [← hjoin]
    simp [List.intercalate]
  · rintro ⟨ha, hb, rfl⟩
    rw [segments, List.splitOn_append_cons_self_of_not_mem ha, List.splitOn_eq_singleton hb]

theorem uriMatchesFrame_iff :
    uriMatchesFrame uri owner repo = true ↔ CoversRepo uri owner repo := by
  unfold uriMatchesFrame CoversRepo
  by_cases hcurrent : uri = uriCurrent
  · simp [hcurrent]
  rw [if_neg hcurrent]
  by_cases hprefix : uriRepoPrefix <+: uri
  · obtain ⟨path, rfl⟩ := hprefix
    rw [if_neg (by simp), List.drop_left]
    simp only [hcurrent, false_or, List.append_cancel_left_eq]
    split
    · rename_i patOwner patRepo hsplit
      obtain ⟨howner, hrepo, rfl⟩ := segments_eq_pair.mp hsplit
      constructor
      · intro h
        split at h
        · cases h
        · rename_i hmatch
          exact ⟨patOwner, patRepo, howner, hrepo, rfl, by tauto, by simpa using h⟩
      · rintro ⟨po, pr, hpo, hpr, heq, hmatch, hmatch'⟩
        have hpair := segments_eq_pair.mpr ⟨hpo, hpr, heq⟩
        rw [hsplit] at hpair
        simp only [List.cons.injEq, and_true] at hpair
        obtain ⟨rfl, rfl⟩ := hpair
        rw [if_neg (by tauto)]
        simpa using hmatch'
    · rename_i hno
      simp only [Bool.false_eq_true, false_iff]
      rintro ⟨po, pr, hpo, hpr, heq, -⟩
      exact hno po pr (segments_eq_pair.mpr ⟨hpo, hpr, heq⟩)
  · rw [if_pos hprefix]
    simp only [Bool.false_eq_true, hcurrent, false_or, false_iff]
    rintro ⟨po, pr, -, -, rfl, -⟩
    exact hprefix (List.prefix_append _ _)

end Matching

section Doorbells

variable {subscriptions : List PyStr} {msgTo uri : PyStr} {session : Session}

/-- One agent resource is rung: the agent's own, or some one of the session's for a broadcast. -/
theorem agentDoorbellUri_eq_some (h : agentDoorbellUri subscriptions msgTo = some uri) :
    uri ∈ subscriptions ∧ uriAgentPrefix <+: uri := by
  unfold agentDoorbellUri at h
  split at h
  · cases h
  · rename_i smallest rest hsorted
    split at h
    · split at h
      · rename_i htarget
        rw [← Option.some.inj h]
        exact ⟨htarget, List.prefix_append _ _⟩
      · cases h
    · have hmem : smallest ∈ subscriptions.filter (uriAgentPrefix <+: ·) := by
        rw [← List.mem_insertionSort (r := fun x y => Coalesce.codes x ≤ Coalesce.codes y), hsorted]
        exact List.mem_cons_self
      rw [← Option.some.inj h]
      simpa using hmem

theorem agentDoorbellUri_isSome : (agentDoorbellUri subscriptions msgTo).isSome = true ↔
    uriAgentPrefix ++ msgTo ∈ subscriptions ∨
      msgTo = wildcard ∧ ∃ uri ∈ subscriptions, uriAgentPrefix <+: uri := by
  have hfilter : ∀ {uri}, uri ∈ subscriptions → uriAgentPrefix <+: uri →
      uri ∈ (subscriptions.filter (uriAgentPrefix <+: ·)).insertionSort
        fun x y => Coalesce.codes x ≤ Coalesce.codes y := fun hmem hprefix => by
    rw [List.mem_insertionSort]
    exact List.mem_filter.mpr ⟨hmem, decide_eq_true hprefix⟩
  constructor
  · intro h
    obtain ⟨uri, huri⟩ := Option.isSome_iff_exists.mp h
    by_cases hwild : msgTo = wildcard
    · exact .inr ⟨hwild, uri, agentDoorbellUri_eq_some huri⟩
    · unfold agentDoorbellUri at huri
      split at huri
      · cases huri
      · rw [if_pos hwild] at huri
        split at huri
        · rename_i htarget
          exact .inl htarget
        · cases huri
  · intro h
    unfold agentDoorbellUri
    split
    · rename_i hnil
      rcases h with htarget | ⟨-, uri, hmem, hprefix⟩
      · have := hfilter htarget (List.prefix_append _ _)
        rw [hnil] at this
        cases this
      · have := hfilter hmem hprefix
        rw [hnil] at this
        cases this
    · split
      · rename_i hwild
        rw [if_pos (h.resolve_right fun h => hwild h.1)]
        rfl
      · rfl

theorem agentPrefix_not_mem (session : Session) : uriAgentPrefix ∉ session.subscriptions := by
  intro hmem
  have h := session.subscribable _ hmem
  have hno : isSubscribableUri uriAgentPrefix = false := by decide
  rw [hno] at h
  cases h

end Doorbells

section Frames

variable {R : Runtime} {row : Row} {frame : EventFrame} {subscriptions : List PyStr}

theorem rowToFrame_eq (h : rowToFrame R row = .ok frame) : frame.eventType = row.eventType ∧
    frame.owner = row.owner ∧ frame.repo = row.repo ∧ frame.fields = frameFields row := by
  unfold rowToFrame at h
  cases hsummary : summaryFor R row with
  | error exc =>
    rw [hsummary] at h
    cases h
  | ok summary =>
    rw [hsummary] at h
    cases h
    exact ⟨rfl, rfl, rfl, rfl⟩

theorem messageTo_fields : textAt (fieldsValue (frameFields row)) "msg_to" =
    (row.msgTo.map ofText).getD [] := by
  have hfield : field (fieldsValue (frameFields row)) "msg_to" =
      some (sqlText row.msgTo).toValue := by
    simp [fieldsValue, record, frameFields, Row.columns, excludedFromFields, field, lookup,
      ofText_inj]
  rw [textAt, hfield]
  cases row.msgTo <;> rfl

theorem rung_event (h : rowToFrame R row = .ok frame) :
    rung subscriptions (WireFrame.event frame).toValue =
      if row.eventType = "agent_message" then
        if (row.msgTo.map ofText).getD [] = [] then []
        else (agentDoorbellUri subscriptions ((row.msgTo.map ofText).getD [])).toList
      else if row.owner = "" ∨ row.repo = "" then []
      else subscriptions.filter fun uri =>
        uriMatchesFrame uri (ofText row.owner) (ofText row.repo) := by
  obtain ⟨htype, howner, hrepo, hfields⟩ := rowToFrame_eq h
  have hfield : ∀ key, field (WireFrame.event frame).toValue key =
      lookup key (([("event_id", optText frame.eventId), ("event_type", text frame.eventType),
        ("owner", text frame.owner), ("repo", text frame.repo),
        ("received_at", .int frame.receivedAt), ("delivery_id", text frame.deliveryId),
        ("summary", .str frame.summary), ("fields", fieldsValue frame.fields),
        ("kind", text "event")] : List (String × Value)).map fun p => (ofText p.1, p.2)) :=
    fun _ => rfl
  have hdrain : drainable (WireFrame.event frame).toValue = false := by
    simp [drainable, fieldIs, hfield, lookup, text, ofText_inj]
  have hmessage : fieldIs (WireFrame.event frame).toValue "event_type" "agent_message" =
      decide (row.eventType = "agent_message") := by
    simp [fieldIs, hfield, lookup, text, ofText_inj, htype]
  have hto : messageTo (WireFrame.event frame).toValue = (row.msgTo.map ofText).getD [] := by
    rw [← messageTo_fields, ← hfields]
    simp [messageTo, hfield, lookup, ofText_inj]
  have hownerText : textAt (WireFrame.event frame).toValue "owner" = ofText row.owner := by
    simp [textAt, hfield, lookup, text, ofText_inj, howner]
  have hrepoText : textAt (WireFrame.event frame).toValue "repo" = ofText row.repo := by
    simp [textAt, hfield, lookup, text, ofText_inj, hrepo]
  rw [rung, hdrain, hmessage, hto, hownerText, hrepoText]
  simp only [Bool.false_eq_true, if_false, decide_eq_true_eq, ofText_eq_nil]

theorem rung_stub (stub : TruncatedFrame) :
    rung subscriptions (WireFrame.truncated stub).toValue = [] := by
  simp [rung, drainable, fieldIs, textAt, field, lookup, WireFrame.toValue, record, text,
    ofText_inj]

theorem sent_cases (R : Runtime) (row : Row) :
    (∃ frame, rowToFrame R row = .ok frame ∧ sent R row = some (WireFrame.event frame).toValue ∧
        Whole R row) ∨
      ¬Whole R row ∧ ∀ v ∈ sent R row, ∃ stub, v = (WireFrame.truncated stub).toValue := by
  unfold sent Whole
  cases hframe : rowToFrame R row with
  | error exc => exact .inr ⟨by simp, nofun⟩
  | ok frame =>
    simp only
    cases henc : encodeStructFrame R (.event frame) with
    | ok blob =>
      have hserialize : serialize R frame = .ok blob := by rw [serialize, henc]
      have hwire : wireFrame R frame = .event frame := by rw [wireFrame, henc]
      rw [hserialize, hwire]
      exact .inl ⟨frame, rfl, rfl, frame, blob, rfl, henc⟩
    | error exc =>
      refine .inr ⟨?_, fun v hv => ?_⟩
      · rintro ⟨frame', blob, heq, henc'⟩
        rw [← Except.ok.inj heq, henc] at henc'
        cases henc'
      · cases hserialize : serialize R frame with
        | error exc' =>
          rw [hserialize] at hv
          cases hv
        | ok blob =>
          rw [hserialize] at hv
          rw [← Option.some.inj hv]
          unfold serialize at hserialize
          rw [henc] at hserialize
          cases exc with
          | frameTooLarge => exact ⟨stub frame, by rw [wireFrame, henc]⟩
          | _ => cases hserialize

end Frames

section Fanout

variable {R : Runtime} {row : Row} {registry : Registry} {session : Session} {i : Nat}

theorem emit_session (h : (i, session) ∈ registry.sessions) (frame : Value) :
    ((emitToSubscribedSessions registry frame).filter (·.1 = i)).map (·.2) =
      rung session.subscriptions frame := by
  obtain ⟨sessions, keys⟩ := registry
  simp only [emitToSubscribedSessions] at h ⊢
  induction sessions with
  | nil => cases h
  | cons entry rest ih =>
    obtain ⟨hfresh, hrest⟩ := List.nodup_cons.mp keys
    rw [List.flatMap_cons, List.filter_append, List.map_append]
    rcases List.mem_cons.mp h with heq | h
    · have hothers : (rest.flatMap fun e => (rung e.2.subscriptions frame).map (e.1, ·)).filter
          (·.1 = i) = [] := by
        refine List.filter_eq_nil_iff.mpr fun p hp hi => ?_
        obtain ⟨e, he, hp⟩ := List.mem_flatMap.mp hp
        obtain ⟨uri, -, rfl⟩ := List.mem_map.mp hp
        refine hfresh (List.mem_map.mpr ⟨e, he, ?_⟩)
        rw [← heq]
        exact of_decide_eq_true hi
      rw [hothers, ← heq]
      simp [List.filter_map, Function.comp_def]
    · have hne : entry.1 ≠ i := fun heq =>
        hfresh (by simpa [heq] using List.mem_map_of_mem (f := (·.1)) h)
      rw [ih hrest h]
      simp [List.filter_map, Function.comp_def, hne]

/-- Of an event frame a session is rung as it should be, but for a row without a repository. -/
theorem rings_event {frame : EventFrame} (h : rowToFrame R row = .ok frame) :
    Rings (rung session.subscriptions (WireFrame.event frame).toValue) session row ↔
      (Wanted session row → row.eventType = "agent_message" ∨ row.owner ≠ "" ∧ row.repo ≠ "") := by
  rw [rung_event h]
  unfold Rings Wanted
  by_cases hmessage : row.eventType = "agent_message"
  · simp only [hmessage, if_true, true_or, implies_true, iff_true]
    cases hto : row.msgTo with
    | none => simp
    | some agent =>
      simp only [Option.map_some, Option.getD_some, Option.mem_def, Option.some.injEq,
        exists_eq_left', ofText_eq_nil]
      by_cases hempty : agent = ""
      · have hno := agentPrefix_not_mem session
        simp [hempty, ofText, hno]
      · rw [if_neg hempty]
        have hwanted : (agentDoorbellUri session.subscriptions (ofText agent)).isSome = true ↔ _ :=
          agentDoorbellUri_isSome
        rw [wildcard, ofText_inj] at hwanted
        rw [← hwanted]
        cases huri : agentDoorbellUri session.subscriptions (ofText agent) with
        | none => simp
        | some uri =>
          obtain ⟨hmem, hprefix⟩ := agentDoorbellUri_eq_some huri
          simp [hmem, hprefix]
  · simp only [hmessage, if_false, false_or]
    by_cases hplace : row.owner = "" ∨ row.repo = ""
    · rw [if_pos hplace]
      have hno : ¬(row.owner ≠ "" ∧ row.repo ≠ "") := by tauto
      simp [hno]
    · rw [if_neg hplace]
      have hyes : row.owner ≠ "" ∧ row.repo ≠ "" := by tauto
      simp only [hyes, ne_eq, not_false_eq_true, and_self, implies_true,
        List.filter_eq_nil_iff, not_forall, not_not, uriMatchesFrame_iff, exists_prop]

theorem not_notified (h : (i, session) ∈ registry.sessions) (hno : ¬Whole R row) :
    notified registry R row i = [] := by
  obtain ⟨-, -, -, hwhole⟩ | ⟨-, hstub⟩ := sent_cases R row
  · exact absurd hwhole hno
  unfold notified
  cases hsent : sent R row with
  | none => rfl
  | some v =>
    obtain ⟨stub, rfl⟩ := hstub v hsent
    simp only [emit_session h]
    exact rung_stub stub

/-- A row rings a session as it should, exactly when it goes over the wire as a whole and, if it is
no message, names a repository, or the session does not ask for it. -/
theorem doorbell_rings (h : (i, session) ∈ registry.sessions) (R : Runtime) (row : Row) :
    Rings (notified registry R row i) session row ↔ (Wanted session row →
      Whole R row ∧ (row.eventType = "agent_message" ∨ row.owner ≠ "" ∧ row.repo ≠ "")) := by
  rcases sent_cases R row with ⟨frame, hframe, hsent, hwhole⟩ | ⟨hno, -⟩
  · simp only [notified, hsent, emit_session h, hwhole, true_and]
    exact rings_event hframe
  · have hnone := not_notified h hno
    rw [hnone]
    unfold Rings
    split <;> simp [hno]

end Fanout

section Sizes

variable {R : Runtime} {row : Row}

theorem length_le_escape (s : String) : s.length ≤ (escape (ofText s)).length := by
  have hchar : ∀ c : Char, 1 ≤ (escapeChar c).length := by
    intro c
    unfold escapeChar
    split <;> try decide
    split
    · exact Nat.le_add_left 1 5
    · rw [String.length_utf8EncodeChar]
      exact Char.utf8Size_pos c
  have hlist : ∀ l : List Char, l.length ≤ (escape (l.map .scalar)).length := by
    intro l
    induction l with
    | nil => exact Nat.zero_le _
    | cons c rest ih =>
      have hc := hchar c
      simp only [escape, List.map_cons, List.flatMap_cons, List.length_append, List.length_cons,
        PyChar.toScalar, Option.map_some, Option.getD_some] at ih ⊢
      omega
  have := hlist s.toList
  rwa [String.length_toList] at this

theorem Whole.body_length (h : Whole R row) {body : String} (hbody : row.msgBody = some body) :
    body.length ≤ maxFrameBytes := by
  obtain ⟨frame, blob, hframe, henc⟩ := h
  obtain ⟨-, -, -, hfields⟩ := rowToFrame_eq hframe
  obtain ⟨-, hfits, -⟩ := encodeStructFrame_ok.mp henc
  have hvalue : (sqlText row.msgBody).toValue.compact.length ≤
      (fieldsValue (frameFields row)).compact.length := by
    have hsum : (sqlText row.msgBody).toValue.compact.length ≤
        ((frameFields row).map fun p => p.2.toValue.compact.length).sum := by
      refine List.le_sum_of_mem (List.mem_map.mpr
        ⟨("msg_body", sqlText row.msgBody), ?_, rfl⟩)
      simp [frameFields, Row.columns, excludedFromFields]
    rw [fieldsValue, length_record _ (by simp [frameFields, Row.columns, excludedFromFields])]
    simp only [List.map_map, Function.comp_def]
    omega
  rw [WireFrame.toValue, length_record _ (List.cons_ne_nil _ _), hfields] at hfits
  simp only [List.map_cons, List.map_nil, List.sum_cons, List.sum_nil] at hfits
  have hescape := length_le_escape body
  simp only [hbody, sqlText, Option.map_some, Option.getD_some, SqlValue.toValue, text,
    Value.compact, length_quoted] at hvalue
  omega

end Sizes

section Samples

def messageRow (agent body : String) : Row where
  seq := 1
  deliveryId := "d"
  source := "agent"
  eventType := "agent_message"
  owner := "local"
  repo := "agents"
  runId := none
  workflowName := none
  headBranch := none
  headSha := none
  status := none
  conclusion := none
  receivedAt := ⟨nsReceivedAtMin, by decide⟩
  payloadJson := "{}"
  ingestMethod := "api"
  jobId := none
  jobName := none
  parentRunId := none
  alertName := none
  alertSeverity := none
  alertFingerprint := none
  msgTo := some agent
  msgFrom := some "a"
  msgCorrelationId := none
  msgReplyTo := none
  msgThread := none
  msgBody := some body
  eventId := some (ulidAt 1)

/-- A session that waits for the messages of one agent and watches all of CI. -/
def sampleSession : Session where
  subscriptions := [uriCurrent, uriAgentPrefix ++ ofText "b"]
  nodup := by decide
  subscribable := by decide

def sampleRegistry : Registry where
  sessions := [(0, sampleSession)]
  keys := by decide

theorem sampleSession_mem : (0, sampleSession) ∈ sampleRegistry.sessions :=
  List.mem_singleton_self _

theorem messageRow_type (agent body : String) :
    (messageRow agent body).eventType = "agent_message" := rfl

theorem messageRow_wanted (body : String) : Wanted sampleSession (messageRow "b" body) := by
  rw [Wanted, if_pos (messageRow_type _ _)]
  exact ⟨"b", rfl, .inl (by decide)⟩

theorem doorbell_rings_once :
    Rings (notified sampleRegistry .reference (messageRow "b" "hello") 0) sampleSession
      (messageRow "b" "hello") := by
  have hblob : (match rowToFrame .reference (messageRow "b" "hello") with
      | .ok frame => (encodeStructFrame .reference (.event frame)).toOption.isSome
      | .error _ => false) = true := by
    decide +kernel
  have hwhole : Whole .reference (messageRow "b" "hello") := by
    split at hblob
    · rename_i frame hframe
      cases henc : encodeStructFrame .reference (.event frame) with
      | ok blob => exact ⟨frame, blob, hframe, henc⟩
      | error exc =>
        rw [henc] at hblob
        cases hblob
    · cases hblob
  exact (doorbell_rings sampleSession_mem _ _).mpr fun _ => ⟨hwhole, .inl rfl⟩

/-- A message with a body beyond the frame cap rings nothing. -/
theorem oversize_rings_nothing : ∃ row session, Wanted session row ∧
    (0, session) ∈ sampleRegistry.sessions ∧ notified sampleRegistry .reference row 0 = [] ∧
    ¬Rings (notified sampleRegistry .reference row 0) session row := by
  have hbig : ¬Whole .reference
      (messageRow "b" (String.ofList (List.replicate 65537 'x'))) := fun h => by
    have hlen := h.body_length rfl
    rw [String.length_ofList, List.length_replicate, maxFrameBytes] at hlen
    omega
  have hnone := not_notified sampleSession_mem hbig
  refine ⟨_, sampleSession, messageRow_wanted _, sampleSession_mem, hnone, ?_⟩
  rw [hnone, Rings, if_pos (messageRow_type _ _)]
  rintro ⟨hrings, -⟩
  obtain ⟨uri, -, -, hnil⟩ := hrings (messageRow_wanted _)
  cases hnil

end Samples

end Waitbus.Subscriptions
