import Mathlib
import Waitbus.Json

/-! The wire frames and their length-prefixed encoding. The JSON encoder is a third-party
package, so it is a field of `Runtime`, held to what it documents: the compact text of a value,
or an error where the value holds text that UTF-8 cannot carry. -/

namespace Waitbus.FrameCodec
open Python Json

structure Runtime where
  decodeDepth : Nat
  repr : Value → Except PyExc PyStr
  isoformat : Int → String
  encode : Value → Except PyExc Bytes
  repr_scalar : ∀ v s, repr v = .ok s → Scalar s
  encode_wire : ∀ v, v.wire →
    encode v = if v.scalar then .ok v.compact else .error .unicodeEncodeError

/-- A runtime to evaluate the model with: its clock stands still at 2001-09-09. -/
def Runtime.reference : Runtime where
  decodeDepth := 990
  repr _ := .ok (ofText "<value>")
  isoformat _ := "2001-09-09T01:46:40Z"
  encode v := if v.scalar then .ok v.compact else .error .unicodeEncodeError
  repr_scalar _ _ h := by
    cases h
    exact scalar_ofText _
  encode_wire _ _ := rfl

abbrev SqlInt := { n : Int // -2 ^ 63 ≤ n ∧ n < 2 ^ 63 }

inductive SqlValue where
  | null
  | integer (n : SqlInt)
  | text (s : String)

def text (s : String) : Value :=
  .str (ofText s)

def SqlValue.toValue : SqlValue → Value
  | .null => .null
  | .integer n => .int n
  | .text s => FrameCodec.text s

def frameProtoVersion : SqlInt := ⟨1, by decide⟩

def maxFrameBytes : Nat := 65536

def lengthPrefixBytes : Nat := 4

structure EventFrame where
  eventId : Option String
  eventType : String
  owner : String
  repo : String
  receivedAt : SqlInt
  deliveryId : String
  summary : PyStr
  fields : List (String × SqlValue)

structure TruncatedFrame where
  eventId : Option String
  reason : String
  correlationId : Option String

structure HeartbeatFrame where
  ts : SqlInt
  uptimeSec : SqlInt

structure SubscribeRejectedFrame where
  reason : String
  remediation : String
  supported : Option (List SqlInt)

structure SubscribeAckFrame where
  proto : SqlInt
  caughtUpAt : Option String
  heartbeatSec : SqlInt
  maxFrameBytes : SqlInt

inductive WireFrame where
  | event (frame : EventFrame)
  | truncated (frame : TruncatedFrame)
  | daemonHeartbeat (frame : HeartbeatFrame)
  | subscribeRejected (frame : SubscribeRejectedFrame)
  | subscribeAck (frame : SubscribeAckFrame)

def optText : Option String → Value
  | none => .null
  | some s => text s

def sqlInts (l : List SqlInt) : Value :=
  .arr (l.map fun n => .int n.val)

def record (pairs : List (String × Value)) : Value :=
  .obj (pairs.map fun p => (ofText p.1, p.2))

def fieldsValue (fields : List (String × SqlValue)) : Value :=
  record (fields.map fun p => (p.1, p.2.toValue))

def WireFrame.toValue : WireFrame → Value
  | .event f => record
      [("event_id", optText f.eventId), ("event_type", text f.eventType), ("owner", text f.owner),
        ("repo", text f.repo), ("received_at", .int f.receivedAt),
        ("delivery_id", text f.deliveryId), ("summary", .str f.summary),
        ("fields", fieldsValue f.fields), ("kind", text "event")]
  | .truncated f => record
      [("event_id", optText f.eventId), ("reason", text f.reason),
        ("correlation_id", optText f.correlationId), ("max_frame_bytes", .int maxFrameBytes),
        ("kind", text "truncated")]
  | .daemonHeartbeat f => record
      [("ts", .int f.ts), ("uptime_sec", .int f.uptimeSec), ("kind", text "daemon_heartbeat")]
  | .subscribeRejected f => record
      [("reason", text f.reason), ("remediation", text f.remediation),
        ("supported", (f.supported.map sqlInts).getD .null),
        ("kind", text "subscribe_rejected")]
  | .subscribeAck f => record
      [("proto", .int f.proto), ("caught_up_at", optText f.caughtUpAt),
        ("heartbeat_sec", .int f.heartbeatSec), ("max_frame_bytes", .int f.maxFrameBytes),
        ("kind", text "subscribe_ack")]

/-- `struct.pack(">I", n)`. -/
def packLength (n : Nat) : Bytes :=
  [UInt8.ofNat (n / 2 ^ 24), UInt8.ofNat (n / 2 ^ 16), UInt8.ofNat (n / 2 ^ 8), UInt8.ofNat n]

def encodeFrame (payload : Bytes) : Except PyExc Bytes :=
  if payload.length > maxFrameBytes then .error .frameTooLarge
  else .ok (packLength payload.length ++ payload)

def encodeStructFrame (R : Runtime) (frame : WireFrame) : Except PyExc Bytes := do
  encodeFrame (← R.encode frame.toValue)

def truncatedFrame (R : Runtime) (eventId : Option String) (reason : String)
    (correlationId : Option String) : Except PyExc Bytes :=
  encodeStructFrame R (.truncated ⟨eventId, reason, correlationId⟩)

section Encoding

variable {R : Runtime}

@[simp] theorem wire_text (s : String) : (text s).wire = true := rfl

@[simp] theorem scalar_text (s : String) : (text s).scalar = true := by
  simp [text, Value.scalar]

@[simp] theorem wire_str (s : PyStr) : (Value.str s).wire = true := rfl

@[simp] theorem wire_optText (s : Option String) : (optText s).wire = true := by
  cases s <;> rfl

@[simp] theorem scalar_optText (s : Option String) : (optText s).scalar = true := by
  cases s <;> simp [optText, Value.scalar]

@[simp] theorem wire_sqlInt (n : SqlInt) : (Value.int n.val).wire = true := by
  have := n.property
  simp only [Value.wire, decide_eq_true_eq]
  omega

@[simp] theorem wire_record (pairs : List (String × Value)) :
    (record pairs).wire = pairs.all fun p => p.2.wire := by
  simp only [record, Value.wire]
  induction pairs with
  | nil => rfl
  | cons p rest ih => simp only [List.map_cons, wirePairs, List.all_cons, ih]

@[simp] theorem scalar_record (pairs : List (String × Value)) :
    (record pairs).scalar = pairs.all fun p => p.2.scalar := by
  simp only [record, Value.scalar]
  induction pairs with
  | nil => rfl
  | cons p rest ih => simp [List.map_cons, scalarPairs, List.all_cons, ih]

@[simp] theorem wire_fieldsValue (fields : List (String × SqlValue)) :
    (fieldsValue fields).wire = true := by
  simp only [fieldsValue, wire_record, List.all_map, List.all_eq_true]
  rintro ⟨name, value⟩ -
  cases value with
  | null => rfl
  | integer n => exact wire_sqlInt n
  | text s => rfl

@[simp] theorem scalar_fieldsValue (fields : List (String × SqlValue)) :
    (fieldsValue fields).scalar = true := by
  simp only [fieldsValue, scalar_record, List.all_map, List.all_eq_true]
  rintro ⟨name, value⟩ -
  cases value with
  | null | integer n => rfl
  | text s => exact scalar_text s

@[simp] theorem wire_sqlInts (l : List SqlInt) : (sqlInts l).wire = true := by
  simp only [sqlInts, Value.wire]
  induction l with
  | nil => rfl
  | cons n rest ih => simp only [List.map_cons, wireItems, ih, Bool.and_true, wire_sqlInt]

@[simp] theorem scalar_sqlInts (l : List SqlInt) : (sqlInts l).scalar = true := by
  simp only [sqlInts, Value.scalar]
  induction l with
  | nil => rfl
  | cons n rest ih => simp only [List.map_cons, scalarItems, ih, Value.scalar, Bool.and_true]

theorem wire_toValue (frame : WireFrame) : frame.toValue.wire = true := by
  cases frame with
  | event f => simp [WireFrame.toValue]
  | truncated f => simp [WireFrame.toValue, Value.wire, maxFrameBytes]
  | daemonHeartbeat f => simp [WireFrame.toValue]
  | subscribeRejected f =>
    cases h : f.supported with
    | none => simp [WireFrame.toValue, h, Value.wire]
    | some l => simp [WireFrame.toValue, h]
  | subscribeAck f => simp [WireFrame.toValue]

theorem scalar_toValue (frame : WireFrame) :
    frame.toValue.scalar = match frame with
      | .event f => decide (Scalar f.summary)
      | _ => true := by
  cases frame with
  | event f => simp [WireFrame.toValue, Value.scalar]
  | truncated f => simp [WireFrame.toValue, Value.scalar]
  | daemonHeartbeat f => simp [WireFrame.toValue, Value.scalar]
  | subscribeRejected f =>
    cases h : f.supported with
    | none => simp [WireFrame.toValue, h, Value.scalar]
    | some l => simp [WireFrame.toValue, h]
  | subscribeAck f => simp [WireFrame.toValue, Value.scalar]

/-- Encoding fails on a lone surrogate, then on the size of the payload, and on nothing else. -/
theorem encodeStructFrame_eq (frame : WireFrame) :
    encodeStructFrame R frame =
      if frame.toValue.scalar then encodeFrame frame.toValue.compact
      else .error .unicodeEncodeError := by
  rw [encodeStructFrame, R.encode_wire _ (wire_toValue frame)]
  split <;> rfl

theorem encodeFrame_ok {payload blob : Bytes} :
    encodeFrame payload = .ok blob ↔
      payload.length ≤ maxFrameBytes ∧ blob = packLength payload.length ++ payload := by
  unfold encodeFrame
  split
  · rename_i h
    simp only [reduceCtorEq, false_iff]
    omega
  · rename_i h
    simp only [Except.ok.injEq]
    constructor
    · rintro rfl
      exact ⟨by omega, rfl⟩
    · rintro ⟨-, rfl⟩
      rfl

theorem encodeStructFrame_ok {frame : WireFrame} {blob : Bytes} :
    encodeStructFrame R frame = .ok blob ↔
      frame.toValue.scalar = true ∧ frame.toValue.compact.length ≤ maxFrameBytes ∧
        blob = packLength frame.toValue.compact.length ++ frame.toValue.compact := by
  rw [encodeStructFrame_eq]
  split
  · rename_i h
    rw [encodeFrame_ok]
    simp [h]
  · rename_i h
    simp [h]

/-- Every blob the encoder hands out is longer than its length prefix and within the frame cap. -/
theorem encodeStructFrame_length {frame : WireFrame} {blob : Bytes}
    (h : encodeStructFrame R frame = .ok blob) :
    lengthPrefixBytes ≤ blob.length ∧ blob.length ≤ lengthPrefixBytes + maxFrameBytes := by
  obtain ⟨-, hle, rfl⟩ := encodeStructFrame_ok.mp h
  simp only [packLength, lengthPrefixBytes, List.length_append, List.length_cons,
    List.length_nil]
  omega

end Encoding

section ControlFrames

theorem length_escapeChar (c : Char) : (escapeChar c).length ≤ 6 := by
  have hutf8 : (String.utf8EncodeChar c).length ≤ 4 := by
    rw [String.length_utf8EncodeChar]
    exact Char.utf8Size_le_four c
  unfold escapeChar
  split <;> try decide
  split
  · exact le_refl 6
  · omega

theorem length_escape_le (s : PyStr) : (escape s).length ≤ 6 * s.length := by
  induction s with
  | nil => exact Nat.zero_le _
  | cons c rest ih =>
    have hc : ((c.toScalar.map escapeChar).getD []).length ≤ 6 := by
      cases c with
      | scalar c => exact length_escapeChar c
      | surrogate u => exact Nat.zero_le _
    simp only [escape, List.flatMap_cons, List.length_append, List.length_cons] at ih ⊢
    omega

theorem length_compact_int (n : SqlInt) : (Value.int n.val).compact.length ≤ 20 := by
  obtain ⟨n, hlo, hhi⟩ := n
  have hlen : ∀ k : Nat, k < 10 ^ 19 → k.repr.length ≤ 19 :=
    fun k hk => Nat.repr_length k 19 (by decide) hk
  simp only [Value.compact, ascii, List.length_map, String.length_toList]
  cases n with
  | ofNat k =>
    have hk := hlen k (by simp only [Int.ofNat_eq_natCast] at hhi; omega)
    simpa [toString, instToStringInt, Int.repr] using Nat.le_succ_of_le hk
  | negSucc k =>
    have hk := hlen (k + 1) (by omega)
    have hsign : "-".length = 1 := rfl
    simp [Int.repr] at hk ⊢
    omega

private theorem length_commaSep (items : List Bytes) (h : items ≠ []) :
    (commaSep items).length + 1 = (items.map (·.length + 1)).sum := by
  induction items with
  | nil => exact absurd rfl h
  | cons item rest ih =>
    cases rest with
    | nil => rfl
    | cons next rest =>
      have := ih (List.cons_ne_nil _ _)
      simp only [commaSep, List.length_append, List.length_cons, List.map_cons,
        List.sum_cons] at this ⊢
      omega

def keyLength (key : String) : Nat :=
  (escape (ofText key)).length

theorem length_quoted (s : PyStr) : (quoted s).length = (escape s).length + 2 := by
  simp [quoted]

/-- A record takes its braces, and for each pair two quotes, a colon and a comma but the last. -/
theorem length_record (pairs : List (String × Value)) (h : pairs ≠ []) :
    (record pairs).compact.length =
      1 + 4 * pairs.length + (pairs.map fun p => keyLength p.1).sum +
        (pairs.map fun p => p.2.compact.length).sum := by
  have hpairs : ∀ l : List (String × Value),
      ((compactPairs (l.map fun p => (ofText p.1, p.2))).map (·.length + 1)).sum =
        4 * l.length + (l.map fun p => keyLength p.1).sum +
          (l.map fun p => p.2.compact.length).sum := by
    intro l
    induction l with
    | nil => rfl
    | cons p rest ih =>
      simp only [List.map_cons, compactPairs, List.sum_cons, ih, List.length_append,
        List.length_cons, length_quoted, keyLength]
      omega
  have hne : compactPairs (pairs.map fun p => (ofText p.1, p.2)) ≠ [] := by
    cases pairs with
    | nil => exact absurd rfl h
    | cons p rest => simp [compactPairs]
  have hcomma := length_commaSep _ hne
  simp only [record, Value.compact, List.length_append, List.length_cons, List.length_nil]
  rw [hpairs] at hcomma
  omega

theorem length_optText_le {s : Option String} {n : Nat} (h : ∀ t, s = some t → t.length ≤ n) :
    (optText s).compact.length ≤ 6 * n + 4 := by
  cases s with
  | none =>
    have : (optText none).compact.length = 4 := by decide
    omega
  | some t =>
    have hescape := length_escape_le (ofText t)
    have ht := h t rfl
    simp only [ofText, List.length_map, String.length_toList] at hescape
    simp only [optText, text, Value.compact, length_quoted, ofText]
    omega

theorem heartbeat_encodes (R : Runtime) (f : HeartbeatFrame) :
    ∃ blob, encodeStructFrame R (.daemonHeartbeat f) = .ok blob := by
  refine ⟨_, encodeStructFrame_ok.mpr ⟨scalar_toValue _, ?_, rfl⟩⟩
  have hts := length_compact_int f.ts
  have hup := length_compact_int f.uptimeSec
  have hkind : (text "daemon_heartbeat").compact.length = 18 := by decide
  have hkeys : (["ts", "uptime_sec", "kind"].map keyLength).sum = 16 := by decide
  rw [WireFrame.toValue, length_record _ (List.cons_ne_nil _ _)]
  simp only [List.map_cons, List.map_nil, List.sum_cons, List.sum_nil, List.length_cons,
    List.length_nil, maxFrameBytes] at hkeys ⊢
  omega

theorem subscribeAck_encodes (R : Runtime) (f : SubscribeAckFrame)
    (h : ∀ id, f.caughtUpAt = some id → id.length ≤ 26) :
    ∃ blob, encodeStructFrame R (.subscribeAck f) = .ok blob := by
  refine ⟨_, encodeStructFrame_ok.mpr ⟨scalar_toValue _, ?_, rfl⟩⟩
  have hproto := length_compact_int f.proto
  have hcaught := length_optText_le h
  have hsec := length_compact_int f.heartbeatSec
  have hmax := length_compact_int f.maxFrameBytes
  have hkind : (text "subscribe_ack").compact.length = 15 := by decide
  have hkeys : (["proto", "caught_up_at", "heartbeat_sec", "max_frame_bytes", "kind"].map
      keyLength).sum = 49 := by decide
  rw [WireFrame.toValue, length_record _ (List.cons_ne_nil _ _)]
  simp only [List.map_cons, List.map_nil, List.sum_cons, List.sum_nil, List.length_cons,
    List.length_nil, maxFrameBytes] at hkeys ⊢
  omega

end ControlFrames

end Waitbus.FrameCodec
