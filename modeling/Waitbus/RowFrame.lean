import Mathlib
import Waitbus.Summary

/-! From a row to wire bytes: the event frame, and the truncated stub in place of a frame the
wire has no room for. The main result says exactly which rows make it. -/

namespace Waitbus.RowFrame
open Python Json FrameCodec EventStore Summary

/-- The `except (KeyError, TypeError, AttributeError, ValueError)` clause. -/
def caughtBySummary (exc : PyExc) : Bool :=
  exc.isValueError || [PyExc.keyError, .typeError, .attributeError].contains exc

def fallbackSummary (row : Row) : PyStr :=
  ofText row.owner ++ ofText "/" ++ ofText row.repo ++ ofText " " ++ ofText row.eventType ++
    ofText " " ++ ofText row.deliveryId

def summaryFor (R : Runtime) (row : Row) : Except PyExc PyStr :=
  match formatText R row with
  | .ok summary => .ok summary
  | .error exc => if caughtBySummary exc then .ok (fallbackSummary row) else .error exc

def excludedFromFields : List String :=
  ["delivery_id", "received_at", "payload_json", "event_id"]

def frameFields (row : Row) : List (String × SqlValue) :=
  row.columns.filter fun column => column.1 ∉ excludedFromFields

def rowToFrame (R : Runtime) (row : Row) : Except PyExc EventFrame := do
  let summary ← summaryFor R row
  return {
    eventId := row.eventId.map (·.val), eventType := row.eventType, owner := row.owner
    repo := row.repo, receivedAt := row.receivedAt, deliveryId := row.deliveryId, summary
    fields := frameFields row }

def truncatedReason : String := "payload exceeds MAX_FRAME_BYTES"

def SqlValue.text? : SqlValue → Option String
  | .text s => some s
  | _ => none

/-- `frame.fields.get("msg_correlation_id")`. -/
def correlationId (frame : EventFrame) : Option String :=
  (frame.fields.lookup "msg_correlation_id").bind SqlValue.text?

def stub (frame : EventFrame) : TruncatedFrame :=
  ⟨frame.eventId, truncatedReason, correlationId frame⟩

def serialize (R : Runtime) (frame : EventFrame) : Except PyExc Bytes :=
  match encodeStructFrame R (.event frame) with
  | .error .frameTooLarge =>
    truncatedFrame R frame.eventId truncatedReason (correlationId frame)
  | result => result

def rowBlob (R : Runtime) (row : Row) : Except PyExc Bytes := do
  serialize R (← rowToFrame R row)

def wireFrame (R : Runtime) (frame : EventFrame) : WireFrame :=
  match encodeStructFrame R (.event frame) with
  | .error .frameTooLarge => .truncated (stub frame)
  | _ => .event frame

section Texts

/-- The texts a summary takes out of the row's payload; every other part of it is a column. -/
def payloadTexts (R : Runtime) (row : Row) : Except PyExc (List PyStr) := do
  let payload ← decodePayload R row
  if row.eventType = "agent_message" ∨ row.msgBody.isSome ∨ row.alertName.isSome then return []
  if row.eventType = "workflow_job" then return [← jobBranch R row payload]
  let (event, title) ← runTexts R payload
  return [event, title]

/-- Whatever the payload is, the summary can be printed and encoded: what reading the payload
raises is caught, and what it yields is text that UTF-8 can carry. -/
def PayloadPrints (R : Runtime) (row : Row) : Prop :=
  match payloadTexts R row with
  | .ok texts => ∀ s ∈ texts, Scalar s
  | .error exc => caughtBySummary exc

instance (R : Runtime) (row : Row) : Decidable (PayloadPrints R row) :=
  match h : payloadTexts R row with
  | .ok texts => decidable_of_iff (∀ s ∈ texts, Scalar s) (by rw [PayloadPrints, h])
  | .error exc => decidable_of_iff (caughtBySummary exc = true) (by rw [PayloadPrints, h])

variable {R : Runtime} {row : Row}

theorem formatText_payloadTexts (R : Runtime) (row : Row) :
    match payloadTexts R row with
    | .ok texts => ∃ s, formatText R row = .ok s ∧ (Scalar s ↔ ∀ t ∈ texts, Scalar t)
    | .error exc => formatText R row = .error exc := by
  unfold payloadTexts formatText
  cases hpayload : decodePayload R row with
  | error exc => rfl
  | ok payload =>
    by_cases hmsg : row.eventType = "agent_message" ∨ row.msgBody.isSome
    · have hany : row.eventType = "agent_message" ∨ row.msgBody.isSome ∨ row.alertName.isSome :=
        hmsg.elim .inl fun h => .inr (.inl h)
      simp only [bind, Except.bind, if_pos hmsg, if_pos hany, pure, Except.pure]
      exact ⟨_, rfl, iff_of_true (scalar_formatAgentMessage R row) (by simp)⟩
    cases halert : row.alertName with
    | some name =>
      simp only [bind, Except.bind, if_neg hmsg, pure, Except.pure, Option.isSome_some, or_true,
        if_true]
      exact ⟨_, rfl, iff_of_true (scalar_formatAlert R row name) (by simp)⟩
    | none =>
      have hany : ¬(row.eventType = "agent_message" ∨ row.msgBody.isSome ∨
          (none : Option String).isSome) := by simpa using hmsg
      simp only [bind, Except.bind, if_neg hmsg, if_neg hany, pure, Except.pure]
      by_cases hjob : row.eventType = "workflow_job"
      · simp only [if_pos hjob, formatWorkflowJob, bind, Except.bind]
        cases jobBranch R row payload with
        | error exc => rfl
        | ok branch =>
          exact ⟨_, rfl, by simp⟩
      · simp only [if_neg hjob, formatWorkflowRun, bind, Except.bind]
        cases runTexts R payload with
        | error exc => rfl
        | ok texts =>
          refine ⟨_, rfl, ?_⟩
          by_cases htitle : texts.2 = [] <;> simp [htitle]

theorem summaryFor_prints :
    (∃ s, summaryFor R row = .ok s ∧ Scalar s) ↔ PayloadPrints R row := by
  have h := formatText_payloadTexts R row
  unfold PayloadPrints summaryFor
  cases htexts : payloadTexts R row with
  | ok texts =>
    rw [htexts] at h
    obtain ⟨s, hs, hscalar⟩ := h
    simp [hs, hscalar]
  | error exc =>
    rw [htexts] at h
    simp only [h]
    split
    · rename_i hcaught
      simp [hcaught, fallbackSummary]
    · rename_i hcaught
      simp [hcaught]

end Texts

section Sizes

variable {R : Runtime} {row : Row}

/-- The bytes the frame cap leaves for the contents of a correlation id in a stub. -/
def correlationRoom : Nat := 65389

/-- The row's correlation id, escaped, fits in the stub that would take the frame's place. -/
def StubFits (row : Row) : Prop :=
  ∀ c ∈ row.msgCorrelationId, (escape (ofText c)).length ≤ correlationRoom

instance (row : Row) : Decidable (StubFits row) :=
  inferInstanceAs (Decidable (∀ c ∈ row.msgCorrelationId, _))

theorem length_ulid (id : Ulid) : (text id.val).compact.length = 28 := by
  obtain ⟨s, hlen, halpha⟩ := id
  have hone : ∀ c ∈ alphabet, (escapeChar c).length = 1 := by
    simpa using show alphabet.all (fun c => (escapeChar c).length = 1) = true by decide
  have hescape : ∀ l : List Char, (∀ c ∈ l, c ∈ alphabet) →
      (escape (l.map .scalar)).length = l.length := by
    intro l hl
    induction l with
    | nil => rfl
    | cons c rest ih =>
      have hc := hone c (hl c List.mem_cons_self)
      have hrest := ih fun d hd => hl d (List.mem_cons_of_mem _ hd)
      simp only [escape, List.map_cons, List.flatMap_cons, List.length_append, List.length_cons,
        PyChar.toScalar, Option.map_some, Option.getD_some, hc] at hrest ⊢
      omega
  have hs := hescape s.toList halpha
  rw [String.length_toList, hlen] at hs
  rw [text, Value.compact, length_quoted, ofText, hs]

theorem correlationId_frameFields : (frameFields row).lookup "msg_correlation_id" =
    some (sqlText row.msgCorrelationId) := by
  simp [frameFields, Row.columns, excludedFromFields, List.lookup]

theorem length_truncated (id : Ulid) (correlation : Option String) :
    (WireFrame.truncated ⟨some id.val, truncatedReason, correlation⟩).toValue.compact.length =
      145 + (optText correlation).compact.length := by
  have hid := length_ulid id
  have hreason : (text truncatedReason).compact.length = 33 := by decide
  have hmax : (Value.int (maxFrameBytes : Nat)).compact.length = 5 := by decide
  have hkind : (text "truncated").compact.length = 11 := by decide
  have hkeys : (["event_id", "reason", "correlation_id", "max_frame_bytes", "kind"].map
      keyLength).sum = 47 := by decide
  rw [WireFrame.toValue, length_record _ (List.cons_ne_nil _ _)]
  simp only [List.map_cons, List.map_nil, List.sum_cons, List.sum_nil, List.length_cons,
    List.length_nil, optText] at hkeys ⊢
  omega

theorem stubFits_iff (id : Ulid) :
    StubFits row ↔ (WireFrame.truncated ⟨some id.val, truncatedReason,
      row.msgCorrelationId⟩).toValue.compact.length ≤ maxFrameBytes := by
  rw [length_truncated]
  unfold StubFits correlationRoom maxFrameBytes
  cases row.msgCorrelationId with
  | none => simp [optText, Value.compact, ascii]
  | some c =>
    simp only [Option.mem_def, Option.some.injEq, forall_eq', optText, text, Value.compact,
      length_quoted]
    omega

/-- A frame the wire has room for carries the row's correlation id and more than the stub does,
so the stub would have fitted too. -/
theorem stubFits_of_fits {frame : EventFrame} (hfields : frame.fields = frameFields row)
    (hfits : (WireFrame.event frame).toValue.compact.length ≤ maxFrameBytes) : StubFits row := by
  intro c hc
  have hvalues : (sqlText row.msgCorrelationId).toValue.compact.length ≤
      ((frameFields row).map fun p => p.2.toValue.compact.length).sum := by
    refine List.le_sum_of_mem (List.mem_map.mpr
      ⟨("msg_correlation_id", sqlText row.msgCorrelationId), ?_, rfl⟩)
    simp [frameFields, Row.columns, excludedFromFields]
  have hlen : (frameFields row).length = 23 := rfl
  have hrecord : (fieldsValue (frameFields row)).compact.length ≥
      93 + ((frameFields row).map fun p => p.2.toValue.compact.length).sum := by
    rw [fieldsValue, length_record _ (by simp [frameFields, Row.columns, excludedFromFields])]
    simp only [List.length_map, List.map_map, Function.comp_def, hlen]
    omega
  have hkeys : (["event_id", "event_type", "owner", "repo", "received_at", "delivery_id",
      "summary", "fields", "kind"].map keyLength).sum = 66 := by decide
  rw [WireFrame.toValue, length_record _ (List.cons_ne_nil _ _), hfields] at hfits
  have hvalue : (sqlText (some c)).toValue.compact.length = (escape (ofText c)).length + 2 := by
    simp only [sqlText, Option.map_some, Option.getD_some, SqlValue.toValue, text, Value.compact,
      length_quoted]
  rw [Option.mem_def.mp hc, hvalue] at hvalues
  simp only [List.map_cons, List.map_nil, List.sum_cons, List.sum_nil, List.length_cons,
    List.length_nil, maxFrameBytes, correlationRoom] at hkeys hfits ⊢
  omega

theorem rowToFrame_ok {frame : EventFrame} (h : rowToFrame R row = .ok frame) :
    frame.eventId = row.eventId.map (·.val) ∧ frame.fields = frameFields row ∧
      correlationId frame = row.msgCorrelationId ∧ summaryFor R row = .ok frame.summary := by
  unfold rowToFrame at h
  cases hsummary : summaryFor R row with
  | error exc =>
    rw [hsummary] at h
    cases h
  | ok summary =>
    rw [hsummary] at h
    cases h
    refine ⟨rfl, rfl, ?_, rfl⟩
    rw [correlationId, correlationId_frameFields]
    cases row.msgCorrelationId <;> rfl

theorem serialize_ok {frame : EventFrame} {blob : Bytes} (h : serialize R frame = .ok blob) :
    encodeStructFrame R (wireFrame R frame) = .ok blob := by
  unfold serialize at h
  unfold wireFrame
  cases henc : encodeStructFrame R (.event frame) with
  | ok other =>
    rw [henc] at h
    exact henc.trans h
  | error exc =>
    rw [henc] at h
    cases exc <;> first | exact h | cases h

theorem serialize_ok_iff {frame : EventFrame} {id : Ulid} (hid : row.eventId = some id)
    (h : rowToFrame R row = .ok frame) :
    (∃ blob, serialize R frame = .ok blob) ↔ Scalar frame.summary ∧ StubFits row := by
  obtain ⟨heventId, hfields, hcorr, -⟩ := rowToFrame_ok h
  rw [hid, Option.map_some] at heventId
  have hstub : (∃ blob, truncatedFrame R frame.eventId truncatedReason (correlationId frame) =
      .ok blob) ↔ StubFits row := by
    rw [stubFits_iff id, hcorr, heventId]
    simp [truncatedFrame, encodeStructFrame_ok, scalar_toValue]
  unfold serialize
  rw [encodeStructFrame_eq, scalar_toValue]
  by_cases hscalar : Scalar frame.summary
  · simp only [hscalar, decide_true, if_true, true_and]
    unfold encodeFrame
    by_cases hfits : (WireFrame.event frame).toValue.compact.length ≤ maxFrameBytes
    · rw [if_neg (by omega)]
      exact iff_of_true ⟨_, rfl⟩ (stubFits_of_fits hfields hfits)
    · rw [if_pos (by omega)]
      exact hstub
  · simp [hscalar]

/-- Exactly the rows whose payload prints and whose correlation id leaves room for a stub can be
put on the wire. -/
theorem rowBlob_ok_iff {id : Ulid} (hid : row.eventId = some id) :
    (∃ blob, rowBlob R row = .ok blob) ↔ PayloadPrints R row ∧ StubFits row := by
  rw [← summaryFor_prints]
  unfold rowBlob
  cases hframe : rowToFrame R row with
  | error exc =>
    have hsummary : summaryFor R row = .error exc := by
      unfold rowToFrame at hframe
      cases hs : summaryFor R row with
      | error e =>
        rw [hs] at hframe
        cases hframe
        rfl
      | ok s =>
        rw [hs] at hframe
        cases hframe
    simp [hsummary, bind, Except.bind]
  | ok frame =>
    obtain ⟨-, -, -, hsummary⟩ := rowToFrame_ok hframe
    rw [hsummary]
    simp only [Except.ok.injEq, exists_eq_left']
    exact serialize_ok_iff hid hframe

theorem rowBlob_length {blob : Bytes} (h : rowBlob R row = .ok blob) :
    lengthPrefixBytes ≤ blob.length ∧ blob.length ≤ lengthPrefixBytes + maxFrameBytes := by
  unfold rowBlob at h
  cases hframe : rowToFrame R row with
  | error exc =>
    rw [hframe] at h
    cases h
  | ok frame =>
    rw [hframe] at h
    exact encodeStructFrame_length (serialize_ok h)

end Sizes

end Waitbus.RowFrame
