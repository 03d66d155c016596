import Waitbus.FrameReaders
import Waitbus.JsonText
import Waitbus.Listen

/-! `await_predicate` on the bytes of a peer that may send anything: how they come apart into
frames, what each frame comes to, and which frames bring down the wait. A peer that leaves the
connection open in the middle of a frame is read from for good. -/

namespace Waitbus.AwaitStream
open Python Json FrameCodec FrameReaders Await Bookmark Listen

section Framing

/-- What is left of the bytes behind the last whole frame. -/
inductive Tail where
  | nothing
  | unfinished
  | outOfBounds
  deriving DecidableEq

def tailOf (stream : Bytes) : Tail :=
  let length := unpackLength (stream.take lengthPrefixBytes)
  if stream = [] then .nothing
  else if lengthPrefixBytes ≤ stream.length ∧ (length = 0 ∨ length > maxFrameBytes) then
    .outOfBounds
  else .unfinished

theorem nextFrame_shorter {stream payload rest : Bytes}
    (h : nextFrame stream = .payload payload rest) : rest.length < stream.length := by
  simp only [nextFrame] at h
  split_ifs at h with hnil hshort hbound hbody
  obtain ⟨-, rfl⟩ := Verdict.payload.inj h
  have hpos := List.length_pos_iff.mpr hnil
  rw [List.length_drop, List.length_drop]
  simp only [lengthPrefixBytes] at hshort ⊢
  omega

def framed (stream : Bytes) : List Bytes × Tail :=
  match h : nextFrame stream with
  | .payload payload rest =>
    have := nextFrame_shorter h
    (payload :: (framed rest).1, (framed rest).2)
  | .eof | .connectionError => ([], tailOf stream)
termination_by stream.length

theorem framed_payload {stream payload rest : Bytes}
    (h : nextFrame stream = .payload payload rest) :
    framed stream = (payload :: (framed rest).1, (framed rest).2) := by
  rw [framed]
  split
  · rename_i payload' rest' hframe
    obtain ⟨rfl, rfl⟩ := Verdict.payload.inj (hframe.symm.trans h)
    rfl
  · rename_i hframe
    nomatch hframe.symm.trans h
  · rename_i hframe
    nomatch hframe.symm.trans h

theorem framed_end {stream : Bytes}
    (h : ∀ payload rest, nextFrame stream ≠ .payload payload rest) :
    framed stream = ([], tailOf stream) := by
  rw [framed]
  split
  · rename_i payload rest hframe
    exact absurd hframe (h payload rest)
  · rfl
  · rfl

theorem framed_blob {payload blob : Bytes} (h : encodeFrame payload = .ok blob)
    (payload_ne : payload ≠ []) (trailing : Bytes) :
    framed (blob ++ trailing) = (payload :: (framed trailing).1, (framed trailing).2) :=
  framed_payload (by rw [nextFrame_encodeFrame h, if_neg payload_ne])

end Framing

section Engine

variable {σ : Type*}

def arrivalOf (depth : Nat) (payload : Bytes) : Arrival :=
  match decoded depth payload with
  | none | some (.error .jsonDecodeError) => .undecodable
  | some (.error e) => .fails e
  | some (.ok v) => .frame v

/-- What follows the bytes: the peer closes, or is silent until the deadline or a SIGINT. -/
inductive Last where
  | closed
  | deadline
  | interrupt
  deriving DecidableEq

def lastReads : Tail → Last → List (Option Arrival)
  | .outOfBounds, _ => [some .framingError]
  | .nothing, .closed => [some .eof]
  | .unfinished, .closed => [some .framingError]
  | _, .interrupt => [none]
  | _, .deadline => []

/-- A `decide` that does not raise on JSON objects. -/
def onObjects (decide : σ → List (PyStr × Value) → σ × FrameDecision) (s : σ) :
    Value → Except Failure (σ × FrameDecision)
  | .obj msg => .ok (decide s msg)
  | _ => .error .decide

/-- `await_predicate` over these frames and what follows; `none` is a read that never returns. -/
def awaitFrames (depth : Nat) (decide : σ → List (PyStr × Value) → σ × FrameDecision)
    (payloads : List Bytes) (tail : Tail) (last : Last) (s : σ) : Option (Ending × σ) :=
  let result := awaitPredicate (onObjects decide)
    (payloads.map (fun payload => some (arrivalOf depth payload)) ++ lastReads tail last) s
  if tail = .unfinished ∧ last = .deadline ∧ result.1 = .timedOut then none else some result

def awaitStream (depth : Nat) (decide : σ → List (PyStr × Value) → σ × FrameDecision)
    (stream : Bytes) (last : Last) (s : σ) : Option (Ending × σ) :=
  awaitFrames depth decide (framed stream).1 (framed stream).2 last s

end Engine

section Robustness

variable {σ : Type*} {depth : Nat} {decide : σ → List (PyStr × Value) → σ × FrameDecision}
  {payloads : List Bytes} {tail : Tail} {last : Last} {s : σ}

def isObject (depth : Nat) (payload : Bytes) : Bool :=
  match decoded depth payload with
  | some (.ok (.obj _)) => true
  | _ => false

def Contained : Ending → Prop
  | .raised (.rejected _) => True
  | .raised _ => False
  | _ => True

/-- The wait ends as it may, and as it would without the frames that hold no object. -/
def Robust (depth : Nat) (decide : σ → List (PyStr × Value) → σ × FrameDecision)
    (payloads : List Bytes) (tail : Tail) (last : Last) (s : σ) : Prop :=
  ∃ result, awaitFrames depth decide payloads tail last s = some result ∧ Contained result.1 ∧
    awaitFrames depth decide (payloads.filter (isObject depth)) tail last s = some result

def UnhashableKind (msg : List (PyStr × Value)) : Prop :=
  match lookup "kind" msg with
  | some (.arr _) | some (.obj _) => True
  | _ => False

/-- JSON that is no object, an object whose kind is an array or an object, or a text on which
`json.loads` raises something else than a JSONDecodeError. -/
def Troublesome (depth : Nat) (payload : Bytes) : Prop :=
  match decoded depth payload with
  | none => False
  | some (.error e) => e ≠ .jsonDecodeError
  | some (.ok (.obj msg)) => UnhashableKind msg
  | some (.ok _) => True

/-- The message that a frame hands to `decide`. -/
def handedMsg (depth : Nat) (payload : Bytes) : Option (List (PyStr × Value)) :=
  match decoded depth payload with
  | some (.ok (.obj msg)) => if handling (.obj msg) = .handed then some msg else none
  | _ => none

def IsReject (depth : Nat) (payload : Bytes) : Prop :=
  ∃ msg, decoded depth payload = some (.ok (.obj msg)) ∧
    fieldIs (.obj msg) "kind" "subscribe_rejected" = true

/-- What `decide` says of these messages, one after the other. -/
def decisions (decide : σ → List (PyStr × Value) → σ × FrameDecision) (s : σ) :
    List (List (PyStr × Value)) → List FrameDecision
  | [] => []
  | msg :: rest => (decide s msg).2 :: decisions decide (decide s msg).1 rest

/-- Among the frames is a reject, or one that `decide` matches. -/
def Settled (depth : Nat) (decide : σ → List (PyStr × Value) → σ × FrameDecision)
    (payloads : List Bytes) (s : σ) : Prop :=
  (∃ payload ∈ payloads, IsReject depth payload) ∨
    .matched ∈ decisions decide s (payloads.filterMap (handedMsg depth))

/-- Whatever would bring the wait down comes after a frame that ends it. -/
structure Clear (depth : Nat) (decide : σ → List (PyStr × Value) → σ × FrameDecision)
    (payloads : List Bytes) (tail : Tail) (last : Last) (s : σ) : Prop where
  frames : ∀ before payload after, payloads = before ++ payload :: after →
    Troublesome depth payload → Settled depth decide before s
  whole : tail = .unfinished → last = .deadline → Settled depth decide payloads s

end Robustness

section Frames

variable {σ : Type*} {depth : Nat} {decide : σ → List (PyStr × Value) → σ × FrameDecision}
  {payload : Bytes} {payloads : List Bytes} {tail : Tail} {last : Last} {s : σ}

def outcome (depth : Nat) (decide : σ → List (PyStr × Value) → σ × FrameDecision)
    (payloads : List Bytes) (tail : Tail) (last : Last) (s : σ) : Ending × σ :=
  awaitPredicate (onObjects decide)
    (payloads.map (fun payload => some (arrivalOf depth payload)) ++ lastReads tail last) s

/-- What a frame comes to, and what the engine makes of it before any others. -/
inductive Comes (depth : Nat) (decide : σ → List (PyStr × Value) → σ × FrameDecision)
    (payload : Bytes) : Prop where
  | passed (calm : ¬Troublesome depth payload) (other : ¬IsReject depth payload)
    (unheard : handedMsg depth payload = none)
    (runs : ∀ rest s, awaitPredicate (onObjects decide) (some (arrivalOf depth payload) :: rest) s =
      awaitPredicate (onObjects decide) rest s)
  | rejected (calm : ¬Troublesome depth payload) (object : isObject depth payload = true)
    (reject : IsReject depth payload) (error : RejectError)
    (runs : ∀ rest s, awaitPredicate (onObjects decide) (some (arrivalOf depth payload) :: rest) s =
      (.raised (.rejected error), s))
  | handed (calm : ¬Troublesome depth payload) (object : isObject depth payload = true)
    (other : ¬IsReject depth payload) (msg : List (PyStr × Value))
    (heard : handedMsg depth payload = some msg)
    (runs : ∀ rest s, awaitPredicate (onObjects decide) (some (arrivalOf depth payload) :: rest) s =
      if (decide s msg).2 = .matched then (.matched, (decide s msg).1)
      else awaitPredicate (onObjects decide) rest (decide s msg).1)
  | fails (trouble : Troublesome depth payload) (exc : PyExc)
    (runs : ∀ rest s, awaitPredicate (onObjects decide) (some (arrivalOf depth payload) :: rest) s =
      (.raised (.python exc), s))

theorem handling_unhashable {msg : List (PyStr × Value)} (h : UnhashableKind msg) :
    handling (.obj msg) = .failed (.python .typeError) := by
  rw [UnhashableKind] at h
  rw [handling]
  split at h <;> simp_all

theorem handling_hashable {msg : List (PyStr × Value)} (h : ¬UnhashableKind msg) :
    handling (.obj msg) =
      if fieldIs (.obj msg) "kind" "daemon_heartbeat" || fieldIs (.obj msg) "kind" "subscribe_ack"
      then .drained
      else if fieldIs (.obj msg) "kind" "subscribe_rejected" then
        .failed (.rejected (raiseForReject (.obj msg)))
      else .handed := by
  rw [UnhashableKind] at h
  rw [handling]
  split at h
  · exact absurd trivial h
  · exact absurd trivial h
  · split <;> simp_all

theorem fieldIs_unique {frame : Value} {key s t : String} (hs : fieldIs frame key s = true)
    (ht : fieldIs frame key t = true) : ofText s = ofText t := by
  cases hfield : field frame key with
  | none => simp [fieldIs, hfield] at hs
  | some v =>
    cases v with
    | str u =>
      simp only [fieldIs, hfield, decide_eq_true_eq] at hs ht
      exact hs.symm.trans ht
    | null | bool | int | float | arr | obj => simp [fieldIs, hfield] at hs

theorem comes_object (decide : σ → List (PyStr × Value) → σ × FrameDecision)
    {msg : List (PyStr × Value)} (hdecoded : decoded depth payload = some (.ok (.obj msg))) :
    Comes depth decide payload := by
  have harrival : arrivalOf depth payload = .frame (.obj msg) := by rw [arrivalOf, hdecoded]
  have hobject : isObject depth payload = true := by rw [isObject, hdecoded]
  have htrouble : Troublesome depth payload ↔ UnhashableKind msg := by rw [Troublesome, hdecoded]
  have hreject : IsReject depth payload ↔
      fieldIs (.obj msg) "kind" "subscribe_rejected" = true := by
    rw [IsReject, hdecoded]
    simp
  have hhanded : handedMsg depth payload =
      if handling (.obj msg) = .handed then some msg else none := by rw [handedMsg, hdecoded]
  by_cases hkind : UnhashableKind msg
  · refine .fails (htrouble.mpr hkind) .typeError fun rest s => ?_
    rw [harrival, awaitPredicate, handling_unhashable hkind]
  have hhandling := handling_hashable hkind
  split_ifs at hhandling with hdrained hrejected
  · refine .passed (mt htrouble.mp hkind) (fun hmsg => ?_) ?_ fun rest s => ?_
    · rcases Bool.or_eq_true_iff.mp hdrained with hkind | hkind
      · exact absurd (fieldIs_unique hkind (hreject.mp hmsg)) (by decide)
      · exact absurd (fieldIs_unique hkind (hreject.mp hmsg)) (by decide)
    · rw [hhanded, hhandling]
      rfl
    · rw [harrival, awaitPredicate, hhandling]
  · refine .rejected (mt htrouble.mp hkind) hobject (hreject.mpr hrejected)
      (raiseForReject (.obj msg)) fun rest s => ?_
    rw [harrival, awaitPredicate, hhandling]
  · refine .handed (mt htrouble.mp hkind) hobject (mt hreject.mp hrejected) msg ?_ fun rest s => ?_
    · rw [hhanded, hhandling]
      rfl
    · rw [harrival, awaitPredicate, hhandling]
      simp only [onObjects]
      generalize decide s msg = result
      obtain ⟨t, decision⟩ := result
      cases decision <;> rfl

theorem comes (depth : Nat) (decide : σ → List (PyStr × Value) → σ × FrameDecision)
    (payload : Bytes) : Comes depth decide payload := by
  cases hdecoded : decoded depth payload with
  | none =>
    refine .passed ?_ ?_ ?_ fun rest s => ?_
    · rw [Troublesome, hdecoded]
      exact id
    · rw [IsReject, hdecoded]
      nofun
    · rw [handedMsg, hdecoded]
    · rw [arrivalOf, hdecoded]
      rfl
  | some result =>
    cases result with
    | error e =>
      by_cases he : e = .jsonDecodeError
      · subst he
        refine .passed ?_ ?_ ?_ fun rest s => ?_
        · rw [Troublesome, hdecoded]
          exact fun h => h rfl
        · rw [IsReject, hdecoded]
          nofun
        · rw [handedMsg, hdecoded]
        · rw [arrivalOf, hdecoded]
          rfl
      · refine .fails ?_ e fun rest s => ?_
        · rw [Troublesome, hdecoded]
          exact he
        · have harrival : arrivalOf depth payload = .fails e := by
            rw [arrivalOf, hdecoded]
            cases e with
            | jsonDecodeError => exact absurd rfl he
            | _ => rfl
          rw [harrival, awaitPredicate]
    | ok v =>
      cases v with
      | obj msg => exact comes_object decide hdecoded
      | null | bool | int | float | str | arr =>
        refine .fails ?_ .attributeError fun rest s => ?_
        · rw [Troublesome, hdecoded]
          trivial
        · rw [arrivalOf, hdecoded]
          rfl

theorem settled_nil : ¬Settled depth decide [] s := by
  simp [Settled, decisions]

theorem settled_cons :
    Settled depth decide (payload :: payloads) s ↔ IsReject depth payload ∨
      match handedMsg depth payload with
      | none => Settled depth decide payloads s
      | some msg =>
        (decide s msg).2 = .matched ∨ Settled depth decide payloads (decide s msg).1 := by
  cases hhanded : handedMsg depth payload with
  | none =>
    simp only [Settled, List.mem_cons, exists_eq_or_imp, List.filterMap_cons_none hhanded]
    exact or_assoc
  | some msg =>
    simp only [Settled, List.mem_cons, exists_eq_or_imp, List.filterMap_cons_some hhanded,
      decisions, eq_comm (a := FrameDecision.matched)]
    exact or_assoc.trans (or_congr_right or_left_comm)

theorem clear_nil :
    Clear depth decide [] tail last s ↔ ¬(tail = .unfinished ∧ last = .deadline) := by
  constructor
  · rintro h ⟨htail, hlast⟩
    exact settled_nil (h.whole htail hlast)
  · intro h
    refine ⟨fun before payload after hsplit => ?_, fun htail hlast => absurd ⟨htail, hlast⟩ h⟩
    simp at hsplit

theorem clear_split (calm : ¬Troublesome depth payload) :
    Clear depth decide (payload :: payloads) tail last s ↔
      (∀ before other after, payloads = before ++ other :: after → Troublesome depth other →
        Settled depth decide (payload :: before) s) ∧
      (tail = .unfinished → last = .deadline → Settled depth decide (payload :: payloads) s) := by
  constructor
  · intro h
    refine ⟨fun before other after hsplit htrouble => ?_, h.whole⟩
    exact h.frames (payload :: before) other after (by rw [hsplit, List.cons_append]) htrouble
  · rintro ⟨hframes, hwhole⟩
    refine ⟨fun before other after hsplit htrouble => ?_, hwhole⟩
    cases before with
    | nil =>
      rw [List.nil_append, List.cons.injEq] at hsplit
      exact absurd (hsplit.1 ▸ htrouble) calm
    | cons first before =>
      rw [List.cons_append, List.cons.injEq] at hsplit
      rw [← hsplit.1]
      exact hframes before other after hsplit.2 htrouble

theorem clear_cons (calm : ¬Troublesome depth payload) :
    Clear depth decide (payload :: payloads) tail last s ↔ IsReject depth payload ∨
      match handedMsg depth payload with
      | none => Clear depth decide payloads tail last s
      | some msg => (decide s msg).2 = .matched ∨
          Clear depth decide payloads tail last (decide s msg).1 := by
  have hclear : ∀ t, Clear depth decide payloads tail last t ↔
      (∀ before other after, payloads = before ++ other :: after → Troublesome depth other →
        Settled depth decide before t) ∧
      (tail = .unfinished → last = .deadline → Settled depth decide payloads t) :=
    fun t => ⟨fun h => ⟨h.frames, h.whole⟩, fun h => ⟨h.1, h.2⟩⟩
  rw [clear_split calm]
  simp only [settled_cons]
  by_cases hreject : IsReject depth payload
  · simp [hreject]
  cases hhanded : handedMsg depth payload with
  | none => simp only [hreject, false_or, hclear]
  | some msg =>
    by_cases hmatched : (decide s msg).2 = .matched
    · simp [hmatched]
    · simp only [hreject, hmatched, false_or, hclear]

theorem awaitFrames_eq : awaitFrames depth decide payloads tail last s =
    if tail = .unfinished ∧ last = .deadline ∧
        (outcome depth decide payloads tail last s).1 = .timedOut then none
    else some (outcome depth decide payloads tail last s) :=
  rfl

theorem robust_iff : Robust depth decide payloads tail last s ↔
    ¬(tail = .unfinished ∧ last = .deadline ∧
        (outcome depth decide payloads tail last s).1 = .timedOut) ∧
      Contained (outcome depth decide payloads tail last s).1 ∧
      outcome depth decide (payloads.filter (isObject depth)) tail last s =
        outcome depth decide payloads tail last s := by
  constructor
  · rintro ⟨result, hresult, hcontained, hfiltered⟩
    rw [awaitFrames_eq] at hresult hfiltered
    split at hresult
    · nomatch hresult
    · rename_i hblocked
      obtain rfl := Option.some.inj hresult
      split at hfiltered
      · nomatch hfiltered
      · exact ⟨hblocked, hcontained, Option.some.inj hfiltered⟩
  · rintro ⟨hblocked, hcontained, hfiltered⟩
    refine ⟨_, ?_, hcontained, ?_⟩
    · rw [awaitFrames_eq, if_neg hblocked]
    · rw [awaitFrames_eq, hfiltered, if_neg hblocked]

theorem outcome_nil (depth : Nat) (decide : σ → List (PyStr × Value) → σ × FrameDecision)
    (tail : Tail) (last : Last) (s : σ) :
    Contained (outcome depth decide [] tail last s).1 ∧ (tail = .unfinished → last = .deadline →
      (outcome depth decide [] tail last s).1 = .timedOut) := by
  cases tail <;> cases last <;> simp [outcome, lastReads, awaitPredicate, Contained]

/-- The wait is robust to its frames if and only if none that brings it down comes too early. -/
theorem robust_frames_iff :
    Robust depth decide payloads tail last s ↔ Clear depth decide payloads tail last s := by
  rw [robust_iff]
  induction payloads generalizing s with
  | nil =>
    obtain ⟨hcontained, htimedOut⟩ := outcome_nil depth decide tail last s
    rw [clear_nil, List.filter_nil]
    constructor
    · rintro ⟨hblocked, -, -⟩ ⟨htail, hlast⟩
      exact hblocked ⟨htail, hlast, htimedOut htail hlast⟩
    · intro h
      exact ⟨fun hblocked => h ⟨hblocked.1, hblocked.2.1⟩, hcontained, rfl⟩
  | cons payload payloads ih =>
    cases comes depth decide payload with
    | passed calm other unheard runs =>
      have hskip : ∀ payloads, outcome depth decide (payload :: payloads) tail last s =
          outcome depth decide payloads tail last s := fun _ => runs _ _
      have hfilter : outcome depth decide ((payload :: payloads).filter (isObject depth)) tail last
          s = outcome depth decide (payloads.filter (isObject depth)) tail last s := by
        rw [List.filter_cons]
        split
        · exact hskip _
        · rfl
      rw [clear_cons calm, unheard, hskip, hfilter, ih]
      simp only [other, false_or]
    | rejected calm object reject error runs =>
      have hends : ∀ payloads, outcome depth decide (payload :: payloads) tail last s =
          (.raised (.rejected error), s) := fun _ => runs _ _
      rw [clear_cons calm, hends, List.filter_cons_of_pos object, hends]
      simp [reject, Contained]
    | handed calm object other msg heard runs =>
      have hstep : ∀ payloads, outcome depth decide (payload :: payloads) tail last s =
          if (decide s msg).2 = .matched then (.matched, (decide s msg).1)
          else outcome depth decide payloads tail last (decide s msg).1 := fun _ => runs _ _
      rw [clear_cons calm, heard, hstep, List.filter_cons_of_pos object, hstep]
      by_cases hmatched : (decide s msg).2 = .matched
      · simp [hmatched, Contained]
      · simp only [hmatched, other, if_false, false_or, ih]
    | fails trouble exc runs =>
      have hends : ∀ payloads, outcome depth decide (payload :: payloads) tail last s =
          (.raised (.python exc), s) := fun _ => runs _ _
      refine iff_of_false (fun h => ?_) fun h => settled_nil (h.frames [] _ _ rfl trouble)
      rw [hends] at h
      exact h.2.1

end Frames

section Streams

variable {σ : Type*}

/-- On any bytes of the peer's, the wait is robust just if nothing that brings it down comes
before a frame that ends it. -/
theorem awaitStream_robust (depth : Nat)
    (decide : σ → List (PyStr × Value) → σ × FrameDecision) (stream : Bytes) (last : Last)
    (s : σ) :
    (∃ result, awaitStream depth decide stream last s = some result ∧ Contained result.1 ∧
      awaitFrames depth decide ((framed stream).1.filter (isObject depth)) (framed stream).2 last
        s = some result) ↔
    Clear depth decide (framed stream).1 (framed stream).2 last s :=
  robust_frames_iff

theorem framed_nil : framed [] = ([], .nothing) :=
  framed_end fun _ _ h => nomatch h

/-- A frame with a JSON array in it, and one that is left off after its first byte. -/
theorem awaitStream_fails :
    (∃ blob, encodeFrame (utf8 ['[', ']']) = .ok blob ∧
      ¬∃ result, awaitStream 990 (fun s _ => (s, .continue)) blob .closed () = some result ∧
        Contained result.1 ∧ awaitFrames 990 (fun s _ => (s, .continue))
          ((framed blob).1.filter (isObject 990)) (framed blob).2 .closed () = some result) ∧
    awaitStream 990 (fun s _ => (s, .continue)) [0] .deadline () = none := by
  constructor
  · obtain ⟨blob, hblob⟩ : ∃ blob, encodeFrame (utf8 ['[', ']']) = .ok blob :=
      ⟨_, encodeFrame_ok.mpr ⟨by decide, rfl⟩⟩
    refine ⟨blob, hblob, fun hrobust => ?_⟩
    have hframed := framed_blob hblob (by decide) []
    rw [List.append_nil] at hframed
    have hclear := robust_frames_iff.mp hrobust
    rw [hframed] at hclear
    refine settled_nil (hclear.frames [] _ _ rfl ?_)
    rw [Troublesome, array_decoded]
    trivial
  · have hshort : nextFrame [0] = .connectionError := by decide
    have hend : framed [0] = ([], .unfinished) :=
      framed_end fun _ _ h => nomatch hshort.symm.trans h
    rw [awaitStream, hend]
    rfl

end Streams

end Waitbus.AwaitStream
