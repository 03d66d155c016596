import Waitbus.Runs
import Waitbus.TxQueue

/-! What a reader finds on one subscriber's wire, over every sequence of sends, flushes and
closes. A flush that fails on a half-written frame drops the rest of it and leaves the stream to
go on from there; every other path keeps it whole. -/

namespace Waitbus.Wire
open Python FrameCodec FrameStream TxQueue Runs

inductive Call where
  | enqueue (blob : Blob) (countsAsDelivered : Bool)
  | drain
  | closeSubscriber (reason : CloseReason)

/-- A subscriber, whether it is still in the map, and every frame offered to its wire so far. -/
structure Endpoint where
  sub : Subscriber
  registered : Bool
  offered : List Bytes

def Endpoint.step (R : Runtime) (e : Endpoint) : Call → Endpoint
  | .enqueue blob counts =>
    { e with sub := (e.sub.enqueue blob counts).2, offered := e.offered ++ [blob.bytes] }
  | .drain => { e with sub := e.sub.drain }
  | .closeSubscriber reason =>
    if e.registered then
      let reject := terminalRejectFrame R reason
      { sub := e.sub.close reject, registered := false, offered := e.offered ++ reject.toList }
    else e

def endpoint (R : Runtime) : System Endpoint Call where
  init e := e.registered ∧ ¬e.sub.sock.closed ∧ e.sub.txQueue = [] ∧
    e.sub.sock.wire = e.offered.flatten
  step e call := some (e.step R call)

/-- The flush does not meet an OSError with the frame at the head of the queue half written. -/
def NoTear (e : Endpoint) (call : Call) : Prop :=
  call = .drain → ¬e.sub.Tears

/-- While the socket is open the kept frames tile the wire and the queue; once it is closed the
wire is final. -/
structure Framed (e : Endpoint) : Prop where
  registered : e.registered = !e.sub.sock.closed
  tiled : e.sub.sock.closed = false →
    ∃ kept, kept.Sublist e.offered ∧ Tiled kept e.sub.sock.wire e.sub.queue
  closed : e.sub.sock.closed = true → e.sub.txQueue = [] ∧ Whole e.offered e.sub.sock.wire

variable {R : Runtime} {e : Endpoint}

theorem Framed.whole (h : Framed e) : Whole e.offered e.sub.sock.wire := by
  cases hclosed : e.sub.sock.closed with
  | true => exact (h.closed hclosed).2
  | false =>
    obtain ⟨kept, hs, htiled⟩ := h.tiled hclosed
    exact htiled.whole hs

theorem framed_init (h : (endpoint R).init e) : Framed e := by
  obtain ⟨hreg, hopen, hqueue, hwire⟩ := h
  have hopen : e.sub.sock.closed = false := by simpa using hopen
  refine ⟨by rw [hreg, hopen]; rfl, fun _ => ⟨e.offered, List.Sublist.refl _, ?_⟩, ?_⟩
  · rw [Subscriber.queue, hqueue, hwire]
    exact ⟨⟨e.offered, by simp, by simp [headSent]⟩, by simp⟩
  · rw [hopen]
    exact fun h => by cases h

theorem framed_enqueue (h : Framed e) (blob : Blob) (counts : Bool) :
    Framed (e.step R (.enqueue blob counts)) := by
  have hstep := enqueue_enqueued e.sub blob counts
  refine ⟨by simp only [Endpoint.step, hstep.closed, h.registered], fun hcl => ?_, fun hcl => ?_⟩
  · simp only [Endpoint.step, hstep.closed] at hcl ⊢
    obtain ⟨kept, hs, htiled⟩ := h.tiled hcl
    rcases hstep.outcome with ⟨-, hjoin⟩ | ⟨-, hwire, hqueue, -⟩
    · exact ⟨kept ++ [blob.bytes], hs.append (List.Sublist.refl _), hjoin kept htiled⟩
    · exact ⟨kept, hs.trans (List.sublist_append_left _ _), by rw [hwire, hqueue]; exact htiled⟩
  · simp only [Endpoint.step, hstep.closed] at hcl ⊢
    obtain ⟨hqueue, hwhole⟩ := h.closed hcl
    have hlost : e.sub.enqueue blob counts = (false, { e.sub with lagCount := lagLimit }) := by
      simp only [Subscriber.enqueue, hqueue, ne_eq, not_true_eq_false, if_false, send_closed hcl]
    rw [hlost]
    exact ⟨hqueue, hwhole.mono (List.sublist_append_left _ _)⟩

theorem framed_drain (h : Framed e) (hno : ¬e.sub.Tears) : Framed (e.step R .drain) := by
  have hstep := drain_drained e.sub
  refine ⟨by simp only [Endpoint.step, hstep.closed, h.registered], fun hcl => ?_, fun hcl => ?_⟩
  · simp only [Endpoint.step, hstep.closed] at hcl ⊢
    obtain ⟨kept, hs, htiled⟩ := h.tiled hcl
    rcases hstep.stream kept htiled with hgo | ⟨hqueue, -, hdone⟩
    · exact ⟨kept, hs, hgo⟩
    · obtain ⟨done, hpre, hgo⟩ := hdone hno
      exact ⟨done, hpre.sublist.trans hs, by rw [hqueue]; exact hgo⟩
  · simp only [Endpoint.step, hstep.closed] at hcl ⊢
    obtain ⟨hqueue, hwhole⟩ := h.closed hcl
    have hidle : e.sub.drain.txQueue = [] ∧ e.sub.drain.sock.wire = e.sub.sock.wire := by
      obtain ⟨sock, draining, heq, hwire, -⟩ :=
        stopDraining_eq { e.sub with txQueue := [], lagCount := 0 }
      rw [Subscriber.drain, hqueue, drainQueue, heq]
      exact ⟨rfl, hwire⟩
    rw [hidle.2]
    exact ⟨hidle.1, hwhole⟩

theorem framed_close (h : Framed e) (reason : CloseReason) :
    Framed (e.step R (.closeSubscriber reason)) := by
  simp only [Endpoint.step]
  split
  · rename_i hreg
    have hopen : e.sub.sock.closed = false := by
      have := h.registered
      rw [hreg] at this
      simpa using this.symm
    obtain ⟨kept, hs, htiled⟩ := h.tiled hopen
    obtain ⟨sock, draining, heq, hcl, tip, hwire, htip⟩ :=
      close_eq e.sub (terminalRejectFrame R reason)
    simp only [heq]
    refine ⟨by rw [hcl]; rfl, fun hcl' => by simp [hcl] at hcl', fun _ => ⟨rfl, ?_⟩⟩
    rcases htip with rfl | ⟨hqueue, frame, hframe, hpre⟩
    · rw [hwire, List.append_nil]
      exact (htiled.whole hs).mono (List.sublist_append_left _ _)
    · rw [Subscriber.queue, hqueue, List.map_nil] at htiled
      rw [hwire, htiled.bytes_eq, Option.mem_def.mp hframe]
      exact ⟨kept, tip, rfl, .inr ⟨frame, hpre, hs.append (List.Sublist.refl _)⟩⟩
  · exact h

/-- In every run whose flushes never fail on a half-written frame, the wire is whole frames in
the order they were offered, with at most one cut at its very end. -/
theorem wire_whole (h : Reach (endpoint R) NoTear e) : Whole e.offered e.sub.sock.wire := by
  refine (h.invariant (I := Framed) (fun _ => framed_init) ?_).whole
  intro e call t _ hframed hok hstep
  cases hstep
  cases call with
  | enqueue blob counts => exact framed_enqueue hframed blob counts
  | drain => exact framed_drain hframed (hok rfl)
  | closeSubscriber reason => exact framed_close hframed reason

section Torn

def freshEndpoint (answers : List Answer) : Endpoint where
  sub := {
    sock := ⟨false, [], answers, [], none⟩, filters := ["*"], eventTypes := ["agent_message"]
    lagCount := 0, replayWatermark := none, preAckBuffer := none, preAckBufferedBytes := 0
    txQueue := [], draining := false, delivered := 0, handed := [] }
  registered := true
  offered := []

theorem freshEndpoint_init (R : Runtime) (answers : List Answer) :
    (endpoint R).init (freshEndpoint answers) :=
  ⟨rfl, Bool.false_ne_true, rfl, rfl⟩

def frameAB : Bytes := packLength 2 ++ [0x41, 0x42]

def frameC : Bytes := packLength 1 ++ [0x43]

/-- The wire holds `frameC` right behind the first five bytes of `frameAB`. -/
theorem wire_torn : ∃ e, Reachable (endpoint .reference) e ∧
    e.sub.sock.wire = frameAB.take 5 ++ frameC ∧ ¬Whole e.offered e.sub.sock.wire := by
  have hstart : Reachable (endpoint .reference) (freshEndpoint [.short 5, .error]) :=
    .start (freshEndpoint_init _ _)
  refine ⟨_, hstart.exec (l := [.enqueue ⟨frameAB, none⟩ true, .drain,
    .enqueue ⟨frameC, none⟩ true]) rfl, rfl, fun hwhole => ?_⟩
  obtain ⟨kept, hs, hpre⟩ := hwhole.exists_kept
  have hnone : ∀ kept ∈ [frameAB, frameC].sublists, ¬frameAB.take 5 ++ frameC <+: kept.flatten := by
    decide
  exact hnone kept (List.mem_sublists.mpr hs) hpre

theorem wire_whole_short : ∃ e : Endpoint, e.sub.sock.wire = frameAB ++ frameC.take 3 ∧
    Whole [frameAB, frameC] e.sub.sock.wire := by
  have hstart : Reach (endpoint .reference) NoTear (freshEndpoint [.short 5, .whole, .short 3]) :=
    .start (freshEndpoint_init _ _)
  have hsent := hstart.next (a := .enqueue ⟨frameAB, none⟩ true) (fun h => nomatch h) rfl
  have hflushed := hsent.next (a := .drain) (fun _ h => by
    rcases h.2 with h | h <;> exact nomatch h) rfl
  have hcut := hflushed.next (a := .enqueue ⟨frameC, none⟩ true) (fun h => nomatch h) rfl
  exact ⟨_, rfl, wire_whole hcut⟩

end Torn

end Waitbus.Wire
