import Waitbus.EventStore

/-! The consumer's read engine, one frame at a time: which decoded frames it drains, which end the
wait, and what of a frame the bookmark keeps. -/

namespace Waitbus.Await
open Python Json FrameCodec EventStore

inductive FrameDecision where
  | continue
  | matched
  deriving DecidableEq

/-- The types `_raise_for_reject` maps a reason to. -/
inductive RejectError where
  | protocolVersionError
  | subscriberLaggedError
  | broadcastConnectionError
  deriving DecidableEq

/-- What leaves `await_predicate` as an exception; `decide` is whatever the caller's raised. -/
inductive Failure where
  | rejected (error : RejectError)
  | python (exc : PyExc)
  | osError
  | decide
  deriving DecidableEq

/-- A `WaitOutcome`, or the exception in the place of one. -/
inductive Ending where
  | matched
  | timedOut
  | framingEof
  | cleanEof
  | cancelled
  | raised (failure : Failure)
  deriving DecidableEq

/-- `frame.get(key)` of a decoded frame that is an object. -/
def field (frame : Value) (key : String) : Option Value :=
  match frame with
  | .obj pairs => lookup key pairs
  | _ => none

/-- `frame.get(key) == s` for a string `s`. -/
def fieldIs (frame : Value) (key s : String) : Bool :=
  match field frame key with
  | some (.str t) => t = ofText s
  | _ => false

def raiseForReject (frame : Value) : RejectError :=
  if fieldIs frame "reason" "version" then .protocolVersionError
  else if fieldIs frame "reason" "lag_limit_exceeded" then .subscriberLaggedError
  else .broadcastConnectionError

inductive Handling where
  | drained
  | handed
  | failed (failure : Failure)
  deriving DecidableEq

/-- The engine's tests of a decoded frame, up to the bookmark. A frame that is no object has no
`get`, and a kind that cannot be hashed is no member of a set. -/
def handling (frame : Value) : Handling :=
  match frame with
  | .obj pairs =>
    match lookup "kind" pairs with
    | some (.arr _) | some (.obj _) => .failed (.python .typeError)
    | _ =>
      if fieldIs frame "kind" "daemon_heartbeat" || fieldIs frame "kind" "subscribe_ack" then
        .drained
      else if fieldIs frame "kind" "subscribe_rejected" then
        .failed (.rejected (raiseForReject frame))
      else .handed
  | _ => .failed (.python .attributeError)

section Bookmark

/-- What `BookmarkCursor.advance` keeps of a frame, if anything. -/
def cursorId (frame : Value) : Option PyStr :=
  if fieldIs frame "kind" "daemon_heartbeat" then none
  else match field frame "event_id" with
    | some (.str []) => none
    | some (.str id) => some id
    | _ => none

/-- `BookmarkCursor.load` of the stored text. -/
def load (stored : PyStr) : Option PyStr :=
  if strip stored = [] then none else some (strip stored)

theorem ofText_ulid_ne (id : Ulid) : ofText id.val ≠ [] := by
  intro hnil
  have hlen := id.property.1
  rw [ofText_eq_nil.mp hnil] at hlen
  cases hlen

theorem load_ulid (id : Ulid) : load (ofText id.val) = some (ofText id.val) := by
  have hspace : alphabet.all (fun c => !isSpace (.scalar c)) = true := by decide
  have hstrip : strip (ofText id.val) = ofText id.val := by
    refine strip_eq_self fun c hc => ?_
    obtain ⟨d, hd, rfl⟩ := List.mem_map.mp hc
    simpa using List.all_eq_true.mp hspace d (id.property.2 d hd)
  rw [load, hstrip, if_neg (ofText_ulid_ne id)]

theorem ulid_ofText_inj {a b : Ulid} (h : ofText a.val = ofText b.val) : a = b := by
  have hlist : a.val.toList = b.val.toList :=
    List.map_injective_iff.mpr (fun c d hcd => by injection hcd) h
  exact Subtype.ext (String.toList_inj.mp hlist)

end Bookmark

end Waitbus.Await
