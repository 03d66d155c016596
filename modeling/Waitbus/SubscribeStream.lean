import Waitbus.AwaitStream

/-! `subscribe()`: a generator that runs the single-match wait once for each resumption, over one
connection. What it has still to read is all that it keeps between two resumptions. -/

namespace Waitbus.SubscribeStream
open Python Json FrameCodec FrameReaders Await Bookmark Listen AwaitStream

abbrev Message := List (PyStr × Value)

section Engine

variable {σ : Type*}

/-- `await_predicate` without a deadline, and what it leaves on the connection; `none` is a wait
that does not return, for a peer that is silent until a deadline is so for good. A frame that the
engine passes by is one over which alone it would time out. -/
def awaitPredicate (depth : Nat) (decide : σ → Message → σ × FrameDecision) (last : Last)
    (stream : Bytes) (s : σ) : Option (Ending × σ × Bytes) :=
  match h : nextFrame stream with
  | .payload payload rest =>
    have := nextFrame_shorter h
    match Listen.awaitPredicate (onObjects decide) [some (arrivalOf depth payload)] s with
    | (.timedOut, s) => awaitPredicate depth decide last rest s
    | (ending, s) => some (ending, s, rest)
  | .eof | .connectionError =>
    match lastReads (tailOf stream) last with
    | [] => none
    | reads =>
      let (ending, s) := Listen.awaitPredicate (onObjects decide) reads s
      some (ending, s, [])
termination_by stream.length

end Engine

section Generator

variable {ε : Type*}

/-- `_make_capture_decide`. -/
def captureDecide (composed : Message → Bool) (captured : List Message) (frame : Message) :
    List Message × FrameDecision :=
  match lookup "fields" frame with
  | some (.obj _) =>
    if composed frame then (captured ++ [frame], .matched) else (captured, .continue)
  | _ => (captured, .continue)

/-- What `_drain_one` raises; `validation` is msgspec's ValidationError. -/
inductive StreamError where
  | framing
  | peerClosed
  | validation
  | engine (failure : Failure)
  deriving DecidableEq

def finishDrain (toEvent : Message → Option ε) (raiseOnPeerClose : Bool) (outcome : Ending)
    (captured : List Message) : Except StreamError (Option ε) :=
  match outcome, captured with
  | .raised failure, _ => .error (.engine failure)
  | .matched, frame :: _ =>
    match toEvent frame with
    | some event => .ok (some event)
    | none => .error .validation
  | .framingEof, _ => .error .framing
  | .cleanEof, _ => if raiseOnPeerClose then .error .peerClosed else .ok none
  | _, _ => .ok none

/-- What the generator of a subscription is made with; `toEvent` is `msgspec.convert`. -/
structure Subscription (ε : Type*) where
  depth : Nat
  composed : Message → Bool
  toEvent : Message → Option ε

def Subscription.drainOne (sub : Subscription ε) (last : Last) (stream : Bytes) :
    Option (Except StreamError (Option ε) × Bytes) :=
  (awaitPredicate sub.depth (captureDecide sub.composed) last stream []).map
    fun (outcome, captured, rest) => (finishDrain sub.toEvent false outcome captured, rest)

inductive Generator where
  | suspended (stream : Bytes)
  | finished

/-- What one resumption of the generator comes to. -/
inductive Resumed (ε : Type*) where
  | yielded (event : ε)
  | stopIteration
  | raised (error : StreamError)
  deriving DecidableEq

/-- The body of the loop with what `_drain_one` has returned. -/
def afterDrain : Except StreamError (Option ε) × Bytes → Resumed ε × Generator
  | (.ok (some event), rest) => (.yielded event, .suspended rest)
  | (.ok none, _) => (.stopIteration, .finished)
  | (.error e, _) => (.raised e, .finished)

def Subscription.resume (sub : Subscription ε) (last : Last) :
    Generator → Option (Resumed ε × Generator)
  | .finished => some (.stopIteration, .finished)
  | .suspended stream => (sub.drainOne last stream).map afterDrain

/-- The first `n` resumptions, as far as they return. -/
def Subscription.resumptions (sub : Subscription ε) (last : Last) :
    Nat → Generator → List (Resumed ε)
  | 0, _ => []
  | n + 1, generator =>
    match sub.resume last generator with
    | none => []
    | some (resumed, generator) => resumed :: sub.resumptions last n generator

end Generator

section Filter

variable {ε : Type*}

/-- The message of a frame, no control frame, that has fields and satisfies the predicate. -/
def Subscription.matching (sub : Subscription ε) (payload : Bytes) : Option Message :=
  (handedMsg sub.depth payload).filter fun frame =>
    match lookup "fields" frame with
    | some (.obj _) => sub.composed frame
    | _ => false

/-- The event of a full event frame that satisfies the predicate. -/
def Subscription.eventOf (sub : Subscription ε) (payload : Bytes) : Option ε :=
  (sub.matching payload).bind sub.toEvent

/-- What the iteration raises at a frame: at a reject, and where a frame that satisfies the
predicate is no full event frame. -/
def Subscription.stopAt (sub : Subscription ε) (payload : Bytes) : Option StreamError :=
  match decoded sub.depth payload with
  | some (.ok (.obj msg)) =>
    if fieldIs (.obj msg) "kind" "subscribe_rejected" then
      some (.engine (.rejected (raiseForReject (.obj msg))))
    else
      match sub.matching payload with
      | some frame => if (sub.toEvent frame).isNone then some .validation else none
      | none => none
  | _ => none

/-- What comes of a resumption at the end of the stream; none while the peer says nothing. -/
def streamEnd : Tail → Last → Option (Resumed ε)
  | .outOfBounds, _ => some (.raised .framing)
  | _, .interrupt => some .stopIteration
  | .nothing, .closed => some .stopIteration
  | .unfinished, .closed => some (.raised .framing)
  | _, .deadline => none

/-- These events one by one, what the iteration ends in, and a StopIteration ever after. -/
def iteration : List ε → Option (Resumed ε) → Nat → List (Resumed ε)
  | _, _, 0 => []
  | event :: rest, final, n + 1 => .yielded event :: iteration rest final n
  | [], some final, n + 1 => final :: List.replicate n .stopIteration
  | [], none, _ => []

end Filter

section Frames

variable {ε : Type*} {sub : Subscription ε} {last : Last} {stream payload rest : Bytes}

theorem handling_reject {msg : Message}
    (h : fieldIs (.obj msg) "kind" "subscribe_rejected" = true) :
    handling (.obj msg) = .failed (.rejected (raiseForReject (.obj msg))) := by
  have hkind : ¬UnhashableKind msg := by
    intro hkind
    rw [UnhashableKind] at hkind
    rw [fieldIs, field] at h
    split at hkind <;> simp_all
  have hother : ∀ kind, ofText kind ≠ ofText "subscribe_rejected" →
      fieldIs (.obj msg) "kind" kind = false := fun kind hne =>
    eq_false_of_ne_true fun htrue => hne (fieldIs_unique htrue h)
  rw [handling_hashable hkind, hother _ (by decide), hother _ (by decide), h]
  rfl

/-- What the engine makes of one frame: `captured` are the messages that it holds by then. -/
inductive Single (sub : Subscription ε) (payload : Bytes)
    (run : List Message → Ending × List Message) : Prop where
  | passed (stop : sub.stopAt payload = none) (event : sub.eventOf payload = none)
    (runs : ∀ captured, run captured = (.timedOut, captured))
  | yielded (stop : sub.stopAt payload = none) (frame : Message) (event : ε)
    (converts : sub.toEvent frame = some event) (found : sub.eventOf payload = some event)
    (runs : ∀ captured, run captured = (.matched, captured ++ [frame]))
  | invalid (stop : sub.stopAt payload = some .validation) (frame : Message)
    (converts : sub.toEvent frame = none)
    (runs : ∀ captured, run captured = (.matched, captured ++ [frame]))
  | failed (failure : Failure)
    (stop : Troublesome sub.depth payload ∨ sub.stopAt payload = some (.engine failure))
    (runs : ∀ captured, run captured = (.raised failure, captured))

theorem stopAt_unrejected (h : ¬IsReject sub.depth payload) : sub.stopAt payload =
    match sub.matching payload with
    | some frame => if (sub.toEvent frame).isNone then some .validation else none
    | none => none := by
  rw [Subscription.stopAt]
  split
  · rename_i msg hdecoded
    rw [if_neg fun hkind => h ⟨msg, hdecoded, hkind⟩]
  · rename_i hother
    have hunheard : sub.matching payload = none := by
      rw [Subscription.matching, handedMsg]
      split
      · rename_i msg hdecoded
        exact absurd hdecoded (hother msg)
      · rfl
    rw [hunheard]

theorem single (sub : Subscription ε) (payload : Bytes) : Single sub payload fun captured =>
    Listen.awaitPredicate (onObjects (captureDecide sub.composed))
      [some (arrivalOf sub.depth payload)] captured := by
  cases comes sub.depth (captureDecide sub.composed) payload with
  | passed calm other unheard runs =>
    have hmatching : sub.matching payload = none := by rw [Subscription.matching, unheard]; rfl
    refine .passed ?_ ?_ fun captured => runs [] captured
    · rw [stopAt_unrejected other, hmatching]
    · rw [Subscription.eventOf, hmatching]
      rfl
  | rejected calm object reject error runs =>
    obtain ⟨msg, hdecoded, hkind⟩ := reject
    refine .failed (.rejected (raiseForReject (.obj msg))) (.inr ?_) fun captured => ?_
    · rw [Subscription.stopAt, hdecoded]
      exact if_pos hkind
    · rw [arrivalOf, hdecoded, Listen.awaitPredicate, handling_reject hkind]
  | handed calm object other msg heard runs =>
    have hmatching : sub.matching payload = some msg ∧
        (∀ captured, captureDecide sub.composed captured msg = (captured ++ [msg], .matched)) ∨
        sub.matching payload = none ∧
        ∀ captured, captureDecide sub.composed captured msg = (captured, .continue) := by
      simp only [Subscription.matching, heard, Option.filter_some, captureDecide]
      split
      · cases sub.composed msg <;> simp
      · simp
    rcases hmatching with ⟨hmatching, hdecide⟩ | ⟨hmatching, hdecide⟩
    · have hruns : ∀ captured, Listen.awaitPredicate (onObjects (captureDecide sub.composed))
          [some (arrivalOf sub.depth payload)] captured = (.matched, captured ++ [msg]) := by
        intro captured
        rw [runs [] captured, hdecide captured]
        rfl
      cases hevent : sub.toEvent msg with
      | none =>
        refine .invalid ?_ msg hevent hruns
        rw [stopAt_unrejected other, hmatching]
        simp [hevent]
      | some event =>
        refine .yielded ?_ msg event hevent ?_ hruns
        · rw [stopAt_unrejected other, hmatching]
          simp [hevent]
        · rw [Subscription.eventOf, hmatching, Option.bind_some, hevent]
    · refine .passed ?_ ?_ fun captured => ?_
      · rw [stopAt_unrejected other, hmatching]
      · rw [Subscription.eventOf, hmatching]
        rfl
      · rw [runs [] captured, hdecide captured]
        rfl
  | fails trouble exc runs => exact .failed _ (.inl trouble) fun captured => runs [] captured

theorem awaitPredicate_payload {σ : Type*} (decide : σ → Message → σ × FrameDecision)
    (h : nextFrame stream = .payload payload rest) (s : σ) :
    awaitPredicate sub.depth decide last stream s =
      match Listen.awaitPredicate (onObjects decide) [some (arrivalOf sub.depth payload)] s with
      | (.timedOut, s) => awaitPredicate sub.depth decide last rest s
      | (ending, s) => some (ending, s, rest) := by
  rw [awaitPredicate]
  split
  · rename_i payload' rest' hframe
    obtain ⟨rfl, rfl⟩ := Verdict.payload.inj (hframe.symm.trans h)
    rfl
  · rename_i hframe
    nomatch hframe.symm.trans h
  · rename_i hframe
    nomatch hframe.symm.trans h

theorem resume_passed (h : nextFrame stream = .payload payload rest)
    (runs : ∀ captured, Listen.awaitPredicate (onObjects (captureDecide sub.composed))
      [some (arrivalOf sub.depth payload)] captured = (.timedOut, captured)) :
    sub.resume last (.suspended stream) = sub.resume last (.suspended rest) := by
  simp only [Subscription.resume, Subscription.drainOne]
  rw [awaitPredicate_payload _ h, runs []]

theorem resume_ended {outcome : Ending} {captured : List Message}
    (h : nextFrame stream = .payload payload rest)
    (runs : Listen.awaitPredicate (onObjects (captureDecide sub.composed))
      [some (arrivalOf sub.depth payload)] [] = (outcome, captured)) (ends : outcome ≠ .timedOut) :
    sub.resume last (.suspended stream) =
      some (afterDrain (finishDrain sub.toEvent false outcome captured, rest)) := by
  simp only [Subscription.resume, Subscription.drainOne]
  rw [awaitPredicate_payload _ h, runs]
  cases outcome with
  | timedOut => exact absurd rfl ends
  | _ => rfl

theorem resumptions_finished (sub : Subscription ε) (last : Last) (n : Nat) :
    sub.resumptions last n .finished = List.replicate n .stopIteration := by
  induction n with
  | zero => rfl
  | succ n ih => simp only [Subscription.resumptions, Subscription.resume, ih, List.replicate_succ]

theorem resumptions_ends {generator : Generator} {final : Resumed ε}
    (h : sub.resume last generator = some (final, .finished)) (n : Nat) :
    sub.resumptions last n generator = iteration [] (some final) n := by
  cases n with
  | zero => rfl
  | succ n => simp only [Subscription.resumptions, h, iteration, resumptions_finished]

theorem resumptions_end (sub : Subscription ε) (last : Last)
    (h : ∀ payload rest, nextFrame stream ≠ .payload payload rest) (n : Nat) :
    sub.resumptions last n (.suspended stream) =
      iteration [] (streamEnd (tailOf stream) last) n := by
  have hawait : awaitPredicate sub.depth (captureDecide sub.composed) last stream [] =
      match lastReads (tailOf stream) last with
      | [] => none
      | reads =>
        let (ending, s) := Listen.awaitPredicate (onObjects (captureDecide sub.composed)) reads []
        some (ending, s, []) := by
    rw [awaitPredicate]
    split
    · rename_i payload rest hframe
      exact absurd hframe (h payload rest)
    · rfl
    · rfl
  have hresume : sub.resume last (.suspended stream) =
      (streamEnd (tailOf stream) last).map fun final => (final, .finished) := by
    simp only [Subscription.resume, Subscription.drainOne, hawait]
    cases tailOf stream <;> cases last <;> rfl
  cases hfinal : streamEnd (ε := ε) (tailOf stream) last with
  | none =>
    rw [hfinal, Option.map_none] at hresume
    cases n with
    | zero => rfl
    | succ n =>
      rw [Subscription.resumptions, hresume]
      rfl
  | some final =>
    rw [hfinal, Option.map_some] at hresume
    exact resumptions_ends hresume n

end Frames

section Iteration

variable {ε : Type*}

/-- `subscribe()` yields the full event frames that satisfy the predicate, in wire order and each
once, up to the end of the stream or the first frame that it raises at. -/
theorem subscribe_yields (sub : Subscription ε) (last : Last) (stream : Bytes) :
    ∃ heard later final, (framed stream).1 = heard ++ later ∧
      (∀ payload ∈ heard, sub.stopAt payload = none) ∧
      (∀ n, sub.resumptions last n (.suspended stream) =
        iteration (heard.filterMap sub.eventOf) final n) ∧
      match later with
      | [] => final = streamEnd (framed stream).2 last
      | payload :: _ =>
        Troublesome sub.depth payload ∨
          ∃ e, sub.stopAt payload = some e ∧ final = some (.raised e) := by
  induction hlength : stream.length using Nat.strong_induction_on generalizing stream with
  | _ length ih =>
    cases hframe : nextFrame stream with
    | payload payload rest =>
      rw [framed_payload hframe]
      obtain ⟨heard, later, final, hsplit, hcalm, hrun, hfinal⟩ :=
        ih rest.length (hlength ▸ nextFrame_shorter hframe) rest rfl
      cases single sub payload with
      | passed stop event runs =>
        refine ⟨payload :: heard, later, final, ?_, ?_, fun n => ?_, hfinal⟩
        · rw [hsplit, List.cons_append]
        · exact List.forall_mem_cons.mpr ⟨stop, hcalm⟩
        · rw [List.filterMap_cons_none event, ← hrun]
          cases n with
          | zero => rfl
          | succ n => rw [Subscription.resumptions, resume_passed hframe runs]; rfl
      | yielded stop frame event converts found runs =>
        refine ⟨payload :: heard, later, final, ?_, ?_, fun n => ?_, hfinal⟩
        · rw [hsplit, List.cons_append]
        · exact List.forall_mem_cons.mpr ⟨stop, hcalm⟩
        · rw [List.filterMap_cons_some found]
          cases n with
          | zero => rfl
          | succ n =>
            rw [Subscription.resumptions, resume_ended hframe (runs []) (by decide), iteration,
              ← hrun]
            simp only [List.nil_append, finishDrain, converts, afterDrain]
      | invalid stop frame converts runs =>
        refine ⟨[], payload :: (framed rest).1, some (.raised .validation), rfl, by simp, ?_,
          .inr ⟨.validation, stop, rfl⟩⟩
        apply resumptions_ends
        rw [resume_ended hframe (runs []) (by decide)]
        simp only [List.nil_append, finishDrain, converts, afterDrain]
      | failed failure stop runs =>
        refine ⟨[], payload :: (framed rest).1, some (.raised (.engine failure)), rfl, by simp, ?_,
          stop.imp_right fun hstop => ⟨_, hstop, rfl⟩⟩
        apply resumptions_ends
        rw [resume_ended hframe (runs []) (by simp)]
        simp only [finishDrain, afterDrain]
    | eof | connectionError =>
      have hend : ∀ payload rest, nextFrame stream ≠ .payload payload rest := by simp [hframe]
      rw [framed_end hend]
      exact ⟨[], [], _, rfl, by simp, resumptions_end sub last hend, rfl⟩

/-- `{"kind":"subscribe_rejected"}`. -/
def reject : Bytes :=
  utf8 ['{', '"', 'k', 'i', 'n', 'd', '"', ':', '"', 's', 'u', 'b', 's', 'c', 'r', 'i', 'b', 'e',
    '_', 'r', 'e', 'j', 'e', 'c', 't', 'e', 'd', '"', '}']

theorem reject_decoded : decoded 990 reject =
    some (.ok (.obj [(ofText "kind", .str (ofText "subscribe_rejected"))])) := by
  rw [reject, decoded_utf8]
  rfl

def everything : Subscription Message where
  depth := 990
  composed _ := true
  toEvent := some

/-- A reject is no end of the stream and no framing error, and ends the iteration. -/
theorem subscribe_rejected : ∃ blob, encodeFrame reject = .ok blob ∧
    ¬∀ n, everything.resumptions .closed n (.suspended blob) =
      iteration ((framed blob).1.filterMap everything.eventOf)
        (streamEnd (framed blob).2 .closed) n := by
  obtain ⟨blob, hblob⟩ : ∃ blob, encodeFrame reject = .ok blob :=
    ⟨_, encodeFrame_ok.mpr ⟨by decide, rfl⟩⟩
  refine ⟨blob, hblob, fun hall => ?_⟩
  have hnext := nextFrame_encodeFrame hblob []
  have hframed := framed_blob hblob (by decide) []
  rw [List.append_nil] at hnext hframed
  have hresume : everything.resume .closed (.suspended blob) =
      some (.raised (.engine (.rejected .broadcastConnectionError)), .finished) := by
    have hruns : Listen.awaitPredicate (onObjects (captureDecide everything.composed))
        [some (arrivalOf everything.depth reject)] [] =
          (.raised (.rejected .broadcastConnectionError), []) := by
      rw [everything, arrivalOf, reject_decoded]
      rfl
    exact resume_ended hnext hruns (by decide)
  have hevent : everything.eventOf reject = none := by
    rw [Subscription.eventOf, Subscription.matching, handedMsg, everything, reject_decoded]
    rfl
  have hone := hall 1
  rw [resumptions_ends hresume, hframed, List.filterMap_cons_none hevent, framed_nil] at hone
  cases (List.cons.inj hone).1

end Iteration

end Waitbus.SubscribeStream
