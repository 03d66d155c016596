import Mathlib
import Waitbus.AwaitStream
import Waitbus.RowFrame
import Waitbus.TxQueue

/-! What a reader makes of the frames that the daemon writes: every one comes out of the bytes as
the value that went in, and of these only the frames of rows are handed to the caller. -/

namespace Waitbus.WireFrames
open Python Json FrameCodec EventStore RowFrame TxQueue FrameReaders Await Bookmark Listen
open AwaitStream

section Decoding

variable {R : Runtime} {depth room : Nat}

theorem natAbs_sqlInt (n : SqlInt) : n.val.natAbs < 10 ^ intMaxStrDigits := by
  have hrange := n.property
  have hsmall : n.val.natAbs < 10 ^ 19 := by omega
  exact hsmall.trans_le (Nat.pow_le_pow_right (by decide) (by decide))

theorem legible_text (s : String) : (text s).Legible room :=
  scalar_ofText s

theorem legible_optText (s : Option String) : (optText s).Legible room := by
  cases s with
  | none => exact trivial
  | some s => exact legible_text s

theorem legible_sqlValue (v : SqlValue) : v.toValue.Legible room := by
  cases v with
  | null => exact trivial
  | integer n => exact natAbs_sqlInt n
  | text s => exact legible_text s

theorem legible_sqlInts (l : List SqlInt) : (sqlInts l).Legible (room + 1) := by
  refine ⟨Nat.succ_pos _, ?_⟩
  induction l with
  | nil => exact trivial
  | cons n rest ih => exact ⟨natAbs_sqlInt n, ih⟩

theorem legible_record {pairs : List (String × Value)} (keys : (pairs.map (·.1)).Nodup)
    (values : ∀ p ∈ pairs, p.2.Legible room) : (record pairs).Legible (room + 1) := by
  refine ⟨Nat.succ_pos _, ?_, ?_⟩
  · rw [List.map_map]
    have hkeys := keys.map (f := ofText) fun _ _ => ofText_inj.mp
    rwa [List.map_map] at hkeys
  · rw [Nat.add_sub_cancel]
    clear keys
    induction pairs with
    | nil => exact trivial
    | cons p rest ih =>
      exact ⟨scalar_ofText p.1, values p List.mem_cons_self,
        ih fun q hq => values q (List.mem_cons_of_mem _ hq)⟩

/-- The names of an event's fields are distinct, as the columns of a row are. -/
def FieldsDistinct : WireFrame → Prop
  | .event f => (f.fields.map (·.1)).Nodup
  | _ => True

theorem legible_frame {frame : WireFrame} (fields : FieldsDistinct frame)
    (scalar : frame.toValue.scalar = true) : frame.toValue.Legible (room + 2) := by
  cases frame with
  | event f =>
    have hsummary : Scalar f.summary := by simpa [scalar_toValue] using scalar
    have hfields : (fieldsValue f.fields).Legible (room + 1) := by
      refine legible_record ?_ ?_
      · rw [List.map_map]
        exact fields
      · intro p hp
        obtain ⟨field, -, rfl⟩ := List.mem_map.mp hp
        exact legible_sqlValue field.2
    refine legible_record (by simp) ?_
    simp only [List.forall_mem_cons, List.not_mem_nil, IsEmpty.forall_iff, implies_true, and_true]
    exact ⟨legible_optText _, legible_text _, legible_text _, legible_text _, natAbs_sqlInt _,
      legible_text _, hsummary, hfields, legible_text _⟩
  | truncated f =>
    refine legible_record (by simp) ?_
    simp only [List.forall_mem_cons, List.not_mem_nil, IsEmpty.forall_iff, implies_true, and_true]
    exact ⟨legible_optText _, legible_text _, legible_optText _,
      natAbs_sqlInt ⟨maxFrameBytes, by decide⟩, legible_text _⟩
  | daemonHeartbeat f =>
    refine legible_record (by simp) ?_
    simp only [List.forall_mem_cons, List.not_mem_nil, IsEmpty.forall_iff, implies_true, and_true]
    exact ⟨natAbs_sqlInt _, natAbs_sqlInt _, legible_text _⟩
  | subscribeRejected f =>
    refine legible_record (by simp) ?_
    simp only [List.forall_mem_cons, List.not_mem_nil, IsEmpty.forall_iff, implies_true, and_true]
    refine ⟨legible_text _, legible_text _, ?_, legible_text _⟩
    cases f.supported with
    | none => exact trivial
    | some l => exact legible_sqlInts l
  | subscribeAck f =>
    refine legible_record (by simp) ?_
    simp only [List.forall_mem_cons, List.not_mem_nil, IsEmpty.forall_iff, implies_true, and_true]
    exact ⟨natAbs_sqlInt _, legible_optText _, natAbs_sqlInt _, natAbs_sqlInt _, legible_text _⟩

theorem decoded_frame {frame : WireFrame} {blob : Bytes} (fields : FieldsDistinct frame)
    (h : encodeStructFrame R frame = .ok blob) (hdepth : 2 ≤ depth) :
    decoded depth frame.toValue.compact = some (.ok frame.toValue) := by
  obtain ⟨room, rfl⟩ := Nat.exists_eq_add_of_le' hdepth
  have hlegible : frame.toValue.Legible (room + 2) :=
    legible_frame fields (encodeStructFrame_ok.mp h).1
  obtain ⟨chars, hchars, hloads⟩ := loads_compact hlegible
  rw [decoded, hchars, Option.map_some, hloads]

end Decoding

section Wire

variable {R : Runtime} {depth : Nat} {row : Row} {blob : Blob} {wire : List Blob}

/-- A frame of a row, or one of the control frames that a reader passes by. -/
def Genuine (R : Runtime) (blob : Blob) : Prop :=
  match blob.row with
  | some row => rowBlob R row = .ok blob.bytes
  | none => (∃ f, encodeStructFrame R (.daemonHeartbeat f) = .ok blob.bytes) ∨
      ∃ f, encodeStructFrame R (.subscribeAck f) = .ok blob.bytes

def stream (wire : List Blob) : Bytes :=
  wire.flatMap (·.bytes)

def rowsOn (wire : List Blob) : List Row :=
  wire.filterMap (·.row)

def message : WireFrame → List (PyStr × Value)
  | frame => match frame.toValue with
    | .obj pairs => pairs
    | _ => []

theorem toValue_message (frame : WireFrame) : frame.toValue = .obj (message frame) := by
  cases frame <;> rfl

theorem framed_frame {frame : WireFrame} {bytes : Bytes} (h : encodeStructFrame R frame = .ok bytes)
    (trailing : Bytes) : framed (bytes ++ trailing) =
      (frame.toValue.compact :: (framed trailing).1, (framed trailing).2) := by
  obtain ⟨-, hlength, hbytes⟩ := encodeStructFrame_ok.mp h
  have hne : frame.toValue.compact ≠ [] := by
    rw [toValue_message, Value.compact]
    exact List.cons_ne_nil _ _
  exact framed_blob (encodeFrame_ok.mpr ⟨hlength, hbytes⟩) hne trailing

theorem rowBlob_frame {bytes : Bytes} (h : rowBlob R row = .ok bytes) : ∃ frame,
    rowToFrame R row = .ok frame ∧ encodeStructFrame R (wireFrame R frame) = .ok bytes := by
  unfold rowBlob at h
  cases hframe : rowToFrame R row with
  | error exc =>
    rw [hframe] at h
    cases h
  | ok frame =>
    rw [hframe] at h
    exact ⟨frame, rfl, serialize_ok h⟩

theorem fieldsDistinct_event {frame : EventFrame} (h : rowToFrame R row = .ok frame) :
    FieldsDistinct (.event frame) := by
  have hnames : (row.columns.map (·.1)).Nodup := by simp [Row.columns]
  have hfields : (frameFields row).map (·.1) =
      (row.columns.map (·.1)).filter (· ∉ excludedFromFields) := by
    rw [List.filter_map]
    rfl
  rw [FieldsDistinct, (rowToFrame_ok h).2.1, hfields]
  exact hnames.filter _

theorem fieldsDistinct_wireFrame {frame : EventFrame} (h : rowToFrame R row = .ok frame) :
    FieldsDistinct (wireFrame R frame) := by
  unfold wireFrame
  split
  · exact trivial
  · exact fieldsDistinct_event h

def rowMessage (R : Runtime) (row : Row) : List (PyStr × Value) :=
  match rowToFrame R row with
  | .ok frame => message (wireFrame R frame)
  | .error _ => []

def kindOf : WireFrame → String
  | .event _ => "event"
  | .truncated _ => "truncated"
  | .daemonHeartbeat _ => "daemon_heartbeat"
  | .subscribeRejected _ => "subscribe_rejected"
  | .subscribeAck _ => "subscribe_ack"

theorem lookup_kind (frame : WireFrame) :
    lookup "kind" (message frame) = some (text (kindOf frame)) := by
  cases frame <;> simp [message, WireFrame.toValue, record, lookup, kindOf]

theorem handling_frame (frame : WireFrame) : handling frame.toValue = match frame with
    | .event _ | .truncated _ => .handed
    | .daemonHeartbeat _ | .subscribeAck _ => .drained
    | .subscribeRejected _ => .failed (.rejected (raiseForReject frame.toValue)) := by
  have hkind := lookup_kind frame
  rw [toValue_message, handling, hkind]
  have hfield : ∀ s, fieldIs (.obj (message frame)) "kind" s = decide (kindOf frame = s) := by
    intro s
    rw [fieldIs, field, hkind]
    simp only [text, ofText_inj]
  simp only [hfield, text]
  cases frame <;> simp [kindOf]

theorem wireFrame_cases (R : Runtime) (frame : EventFrame) :
    wireFrame R frame = .event frame ∨ wireFrame R frame = .truncated (stub frame) := by
  unfold wireFrame
  split
  · exact .inr rfl
  · exact .inl rfl

theorem handling_wireFrame (frame : EventFrame) :
    handling (wireFrame R frame).toValue = .handed := by
  rw [handling_frame]
  obtain h | h := wireFrame_cases R frame
  · rw [h]
  · rw [h]

theorem arrival_row {bytes : Bytes} (h : rowBlob R row = .ok bytes) (hdepth : 2 ≤ depth)
    (trailing : Bytes) : ∃ payload,
      framed (bytes ++ trailing) = (payload :: (framed trailing).1, (framed trailing).2) ∧
      arrivalOf depth payload = .frame (.obj (rowMessage R row)) ∧
      handling (.obj (rowMessage R row)) = .handed := by
  obtain ⟨frame, hframe, hencode⟩ := rowBlob_frame h
  have hmessage : (wireFrame R frame).toValue = .obj (rowMessage R row) := by
    rw [toValue_message, rowMessage, hframe]
  refine ⟨_, framed_frame hencode trailing, ?_, ?_⟩
  · rw [arrivalOf, decoded_frame (fieldsDistinct_wireFrame hframe) hencode hdepth, hmessage]
  · rw [← hmessage, handling_wireFrame]

theorem arrival_control (hrow : blob.row = none) (h : Genuine R blob) (hdepth : 2 ≤ depth)
    (trailing : Bytes) : ∃ payload v,
      framed (blob.bytes ++ trailing) = (payload :: (framed trailing).1, (framed trailing).2) ∧
      arrivalOf depth payload = .frame v ∧ handling v = .drained := by
  unfold Genuine at h
  rw [hrow] at h
  obtain ⟨f, hencode⟩ | ⟨f, hencode⟩ := h
  · refine ⟨_, _, framed_frame hencode trailing, ?_, handling_frame (.daemonHeartbeat f)⟩
    have hfields : FieldsDistinct (.daemonHeartbeat f) := trivial
    rw [arrivalOf, decoded_frame hfields hencode hdepth]
  · refine ⟨_, _, framed_frame hencode trailing, ?_, handling_frame (.subscribeAck f)⟩
    have hfields : FieldsDistinct (.subscribeAck f) := trivial
    rw [arrivalOf, decoded_frame hfields hencode hdepth]

end Wire

section Waiting

variable {R : Runtime} {depth : Nat} {σ : Type*}
  {decide : σ → List (PyStr × Value) → σ × FrameDecision} {wire : List Blob}

theorem awaitStream_drained {payload stream rest : Bytes} {v : Value}
    (hframed : framed stream = (payload :: (framed rest).1, (framed rest).2))
    (harrival : arrivalOf depth payload = .frame v) (hdrained : handling v = .drained)
    (last : Last) (s : σ) :
    awaitStream depth decide stream last s = awaitStream depth decide rest last s := by
  simp only [awaitStream, awaitFrames, hframed, List.map_cons, List.cons_append, harrival,
    awaitPredicate, hdrained]

theorem awaitStream_continue {payload stream rest : Bytes} {msg : List (PyStr × Value)} {s : σ}
    (hframed : framed stream = (payload :: (framed rest).1, (framed rest).2))
    (harrival : arrivalOf depth payload = .frame (.obj msg))
    (hhanded : handling (.obj msg) = .handed) (hdecide : decide s msg = (s, .continue))
    (last : Last) :
    awaitStream depth decide stream last s = awaitStream depth decide rest last s := by
  simp only [awaitStream, awaitFrames, hframed, List.map_cons, List.cons_append, harrival,
    awaitPredicate, hhanded, onObjects, hdecide]

theorem awaitStream_matched {payload stream rest : Bytes} {msg : List (PyStr × Value)} {s t : σ}
    (hframed : framed stream = (payload :: (framed rest).1, (framed rest).2))
    (harrival : arrivalOf depth payload = .frame (.obj msg))
    (hhanded : handling (.obj msg) = .handed) (hdecide : decide s msg = (t, .matched))
    (last : Last) : awaitStream depth decide stream last s = some (.matched, t) := by
  simp [awaitStream, awaitFrames, hframed, harrival, awaitPredicate, hhanded, onObjects, hdecide]

/-- A caller that waits for a row finds the first one that it takes, whatever lies between. -/
theorem awaitStream_wire {s : σ} (taken : Row → Bool) (take : Row → σ)
    (genuine : ∀ blob ∈ wire, Genuine R blob) (hdepth : 2 ≤ depth)
    (hdecide : ∀ row ∈ rowsOn wire, decide s (rowMessage R row) =
      if taken row then (take row, .matched) else (s, .continue))
    (trailing : Bytes) (last : Last) :
    awaitStream depth decide (stream wire ++ trailing) last s =
      match (rowsOn wire).find? taken with
      | some row => some (.matched, take row)
      | none => awaitStream depth decide trailing last s := by
  induction wire with
  | nil => rfl
  | cons blob rest ih =>
    have hrest := fun b hb => genuine b (List.mem_cons_of_mem _ hb)
    have hblob := genuine blob List.mem_cons_self
    rw [stream, List.flatMap_cons, List.append_assoc]
    cases hrow : blob.row with
    | none =>
      have hrows : rowsOn (blob :: rest) = rowsOn rest := List.filterMap_cons_none hrow
      obtain ⟨payload, v, hframed, harrival, hdrained⟩ :=
        arrival_control hrow hblob hdepth (stream rest ++ trailing)
      rw [hrows] at hdecide ⊢
      rw [← ih hrest hdecide]
      exact awaitStream_drained hframed harrival hdrained last s
    | some row =>
      have hrows : rowsOn (blob :: rest) = row :: rowsOn rest := List.filterMap_cons_some hrow
      rw [Genuine, hrow] at hblob
      obtain ⟨payload, hframed, harrival, hhanded⟩ :=
        arrival_row hblob hdepth (stream rest ++ trailing)
      rw [hrows] at hdecide ⊢
      have hfirst := hdecide row List.mem_cons_self
      cases htaken : taken row with
      | true =>
        rw [List.find?_cons_of_pos htaken]
        rw [htaken, if_pos rfl] at hfirst
        exact awaitStream_matched hframed harrival hhanded hfirst last
      | false =>
        rw [List.find?_cons_of_neg (by simp [htaken]),
          ← ih hrest fun r hr => hdecide r (List.mem_cons_of_mem _ hr)]
        rw [htaken, if_neg (by simp)] at hfirst
        exact awaitStream_continue hframed harrival hhanded hfirst last

end Waiting

end Waitbus.WireFrames
