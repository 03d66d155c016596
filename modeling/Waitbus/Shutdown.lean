import Waitbus.Ack
import Waitbus.Sweep

/-! What `_shutdown` delivers. Its last pass treats every connection on its own: what a queue holds
stays there, and the close that follows drops it; with nothing queued, a frame that the kernel
takes whole is on the wire before the close. -/

namespace Waitbus.Shutdown
open Python FrameCodec FrameStream EventStore RowFrame TxQueue Runs OrderedLog Daemon Delivery
open Ack Sweep

def unsent (c : Conn) : Bytes :=
  (c.sub.queue.map Entry.rest).flatten

/-- A row above the cursor that the connection has asked for and has not been handed. -/
def Owed (hub : Hub) (c : Conn) (row : Row) : Prop :=
  hub.cursor < row.seq ∧ wants c row ∧
    (∀ id ∈ c.since, hub.store.seqForEventId id.val < row.seq) ∧ row.seq ∉ seqs c.sub.handed

/-- What was queued for the connection when the stop came and what was owed to it is on the wire,
whole. -/
def Drained (R : Runtime) (hub : Hub) (c c' : Conn) : Prop :=
  ∃ blobs : List Blob,
    c.sub.sock.wire ++ unsent c ++ (blobs.map (·.bytes)).flatten <+: c'.sub.sock.wire ∧
      buffer c ⊆ blobs ∧ ∀ row ∈ hub.store.fanOutable, Owed hub c row → Holds R blobs row

def frames (R : Runtime) (rows : List Row) : List Bytes :=
  rows.filterMap fun row => (rowBlob R row).toOption

def TakesAll : List Bytes → List Answer → Prop
  | [], _ => True
  | frame :: rest, answers =>
    (answers.head?.getD .whole).takes frame.length = true ∧ TakesAll rest answers.tail

/-- Nothing waits for the connection, the last pass gets to every row that is owed to it, and its
kernel takes all that this pass sends. -/
structure Ready (R : Runtime) (fault : Bool) (hub : Hub) (c : Conn) : Prop where
  written : c.sub.txQueue = []
  unbuffered : buffer c = []
  reached : ∀ row ∈ hub.store.fanOutable, Owed hub c row → fault = false ∧
    row.seq ∈ hub.swept.map (·.seq) ∧
    (∀ r ∈ hub.swept, r.seq ≤ row.seq → PayloadPrints R r ∧ StubFits r) ∧
    c.sub.preAckBuffer = none ∧ passes c row = true
  taken : TakesAll (frames R (hub.swept.filter (passes c))) c.sub.sock.answers

instance (hub : Hub) (c : Conn) (row : Row) : Decidable (Owed hub c row) :=
  inferInstanceAs (Decidable (_ ∧ wants c row ∧ (∀ id ∈ c.since, _) ∧ _))

instance decidableTakesAll : ∀ frames answers, Decidable (TakesAll frames answers)
  | [], _ => isTrue trivial
  | _ :: rest, answers =>
    have := decidableTakesAll rest answers.tail
    inferInstanceAs (Decidable (_ ∧ _))

instance (R : Runtime) (fault : Bool) (hub : Hub) (c : Conn) : Decidable (Ready R fault hub c) :=
  decidable_of_iff (c.sub.txQueue = [] ∧ buffer c = [] ∧
      (∀ row ∈ hub.store.fanOutable, Owed hub c row → fault = false ∧
        row.seq ∈ hub.swept.map (·.seq) ∧
        (∀ r ∈ hub.swept, r.seq ≤ row.seq → PayloadPrints R r ∧ StubFits r) ∧
        c.sub.preAckBuffer = none ∧ passes c row = true) ∧
      TakesAll (frames R (hub.swept.filter (passes c))) c.sub.sock.answers)
    ⟨fun h => ⟨h.1, h.2.1, h.2.2.1, h.2.2.2⟩, fun h => ⟨h.1, h.2, h.3, h.4⟩⟩

section Pass

variable {R : Runtime} {hub : Hub} {c : Conn} {row : Row}

def turn (R : Runtime) (c : Conn) (row : Row) : Conn :=
  match rowBlob R row with
  | .ok bytes => c.sendEach R .lagLimitExceeded (offer row ⟨bytes, some row⟩)
  | .error _ => c

theorem pass_turns (h : hub.WF) (fault : Bool) : ∃ done left, hub.swept = done ++ left ∧
    (∀ r ∈ done, Serializes R r) ∧
    (hub.broadcastPass R fault).2.conns = hub.conns.map (fun c => done.foldl (turn R) c) ∧
    (fault = false → Stopped R left (hub.broadcastPass R fault).1) := by
  obtain ⟨-, left, ⟨done, hsplit, hdone, hconns⟩, hstop⟩ := broadcastPass_induction (R := R)
    (P := fun left hub₁ => ∃ done, hub.swept = done ++ left ∧ (∀ r ∈ done, Serializes R r) ∧
      hub₁.conns = hub.conns.map fun c => done.foldl (turn R) c)
    (fun hub₁ row rest bytes hwf _ hblob ⟨done, hsplit, hdone, hconns⟩ => by
      obtain ⟨count, heq⟩ := advance_eq (R := R) hwf row bytes
      refine ⟨done ++ [row], by rw [hsplit, List.append_assoc, List.singleton_append],
        fun r hr => ?_, ?_⟩
      · rcases List.mem_append.mp hr with hr | hr
        · exact hdone r hr
        · exact List.mem_singleton.mp hr ▸ ⟨bytes, hblob⟩
      · rw [heq]
        simp only [hconns, List.map_map, List.foldl_append, List.foldl_cons, List.foldl_nil]
        refine List.map_congr_left fun c _ => ?_
        simp only [Function.comp_apply, turn, hblob])
    h fault ⟨[], rfl, by simp, by simp⟩
  exact ⟨done, left, hsplit, hdone, hconns, hstop⟩

theorem turn_wire (c : Conn) (row : Row) : c.sub.sock.wire <+: (turn R c row).sub.sock.wire := by
  unfold turn
  split
  · rename_i bytes _
    have hoffer := offer_wire row ⟨bytes, some row⟩ c.sub
    simp only [Conn.sendEach]
    split
    · have hevict := (evict_wire (R := R) .lagLimitExceeded
        { c with sub := (offer row ⟨bytes, some row⟩ c.sub).2 }).1
      split
      · exact hoffer.trans hevict
      · exact hoffer
    · exact List.prefix_refl _
  · exact List.prefix_refl _

theorem turns_wire (rows : List Row) (c : Conn) :
    c.sub.sock.wire <+: (rows.foldl (turn R) c).sub.sock.wire := by
  induction rows generalizing c with
  | nil => exact List.prefix_refl _
  | cons row rest ih => exact (turn_wire c row).trans (ih _)

theorem turn_skips (hno : passes c row = false) : turn R c row = c := by
  unfold turn
  split
  · rename_i bytes _
    rcases offer_cases row ⟨bytes, some row⟩ c.sub with ⟨-, heq⟩ | ⟨hmatch, hw, -⟩
    · by_cases hreg : c.registered = true
      · rw [sendEach_kept hreg (by rw [heq]), heq]
      · simp only [Conn.sendEach, if_neg hreg]
    · rw [passes_of_match hmatch hw] at hno
      cases hno
  · rfl

/-- A connection that is ready to take a row: in the map, its handshake over, nothing queued. -/
structure Idle (c : Conn) : Prop where
  registered : c.registered = true
  isOpen : c.sub.sock.closed = false
  acked : c.sub.preAckBuffer = none
  written : c.sub.txQueue = []

theorem turn_sends {bytes : Bytes} (h : Idle c) (hpass : passes c row = true)
    (hblob : rowBlob R row = .ok bytes) (htakes : c.sub.sock.nextAnswer.takes bytes.length) :
    Idle (turn R c row) ∧ (turn R c row).sub.sock.wire = c.sub.sock.wire ++ bytes ∧
      (turn R c row).sub.sock.answers = c.sub.sock.answers.tail ∧
      (turn R c row).sub.matches = c.sub.matches ∧
      (turn R c row).sub.replayWatermark = none := by
  obtain ⟨delivered, hsent⟩ := enqueue_whole { c.sub with replayWatermark := none }
    ⟨bytes, some row⟩ true h.written h.isOpen htakes
  have hlag : ({ c.sub with replayWatermark := none }.enqueue
      ⟨bytes, some row⟩ true).2.lagCount = 0 := by rw [hsent]
  have hoffer : offer row ⟨bytes, some row⟩ c.sub = (false,
      ({ c.sub with replayWatermark := none }.enqueue ⟨bytes, some row⟩ true).2) := by
    rcases offer_cases row ⟨bytes, some row⟩ c.sub with
      ⟨hno, -⟩ | ⟨-, -, ⟨buffered, hbuffer, -⟩ | ⟨-, heq⟩⟩
    · rw [passes, Bool.and_eq_true, Bool.not_eq_true'] at hpass
      rcases hno with hno | ⟨w, hw, hle⟩
      · rw [hpass.1] at hno
        cases hno
      · simp [hw, hle] at hpass
    · rw [h.acked] at hbuffer
      cases hbuffer
    · rw [heq, hlag]
      rfl
  have hturn : turn R c row = { c with
      sub := ({ c.sub with replayWatermark := none }.enqueue ⟨bytes, some row⟩ true).2 } := by
    simp only [turn, hblob]
    rw [sendEach_kept h.registered (by rw [hoffer]), hoffer]
  rw [hturn, hsent]
  exact ⟨⟨h.registered, h.isOpen, h.acked, h.written⟩, rfl, rfl, rfl, rfl⟩

theorem turns_send {rows : List Row} (h : Idle c) (hinc : Increasing Row.seq rows)
    (hall : ∀ r ∈ rows, Serializes R r)
    (htakes : TakesAll (frames R (rows.filter (passes c))) c.sub.sock.answers) :
    ∃ blobs : List Blob, (rows.foldl (turn R) c).sub.sock.wire =
        c.sub.sock.wire ++ (blobs.map (·.bytes)).flatten ∧
      ∀ r ∈ rows, passes c r = true → Holds R blobs r := by
  induction rows generalizing c with
  | nil => exact ⟨[], by simp, by simp⟩
  | cons row rest ih =>
    obtain ⟨hbefore, hrest⟩ := List.pairwise_cons.mp hinc
    have hallrest : ∀ r ∈ rest, Serializes R r := fun r hr => hall r (List.mem_cons_of_mem _ hr)
    rw [List.foldl_cons]
    cases hpass : passes c row with
    | false =>
      rw [turn_skips hpass]
      rw [List.filter_cons_of_neg (by simp [hpass])] at htakes
      obtain ⟨blobs, hwire, hheld⟩ := ih h hrest hallrest htakes
      refine ⟨blobs, hwire, fun r hr hp => ?_⟩
      rcases List.mem_cons.mp hr with rfl | hr
      · rw [hpass] at hp
        cases hp
      · exact hheld r hr hp
    | true =>
      obtain ⟨bytes, hblob⟩ := hall row List.mem_cons_self
      rw [List.filter_cons_of_pos hpass, frames, List.filterMap_cons_some (b := bytes)
        (by rw [hblob]; rfl)] at htakes
      obtain ⟨hidle, hwire, hanswers, hmatch, hnone⟩ := turn_sends h hpass hblob htakes.1
      have hpassed := hpass
      rw [passes, Bool.and_eq_true, Bool.not_eq_true'] at hpassed
      have hsame : rest.filter (passes (turn R c row)) = rest.filter (passes c) :=
        filter_passes_cleared hmatch hnone fun r hr w hw => by
          have hle : w < row.seq := by simpa [hw] using hpassed.2
          exact hle.trans (hbefore r hr)
      obtain ⟨blobs, hwires, hheld⟩ := ih hidle hrest hallrest (by
        rw [hsame, hanswers]
        exact htakes.2)
      refine ⟨⟨bytes, some row⟩ :: blobs, ?_, fun r hr hp => ?_⟩
      · rw [hwires, hwire, List.map_cons, List.flatten_cons, List.append_assoc]
      · rcases List.mem_cons.mp hr with rfl | hr
        · exact ⟨_, List.mem_cons_self, rfl, hblob⟩
        · have hp' : r ∈ rest.filter (passes (turn R c row)) :=
            hsame ▸ List.mem_filter.mpr ⟨hr, hp⟩
          exact (hheld r hr (List.mem_filter.mp hp').2).mono (List.subset_cons_self _ _)

end Pass

section Teardown

variable {R : Runtime} {hub hub' : Hub} {c : Conn}

theorem TakesAll.left {a b : List Bytes} {answers : List Answer} (h : TakesAll (a ++ b) answers) :
    TakesAll a answers := by
  induction a generalizing answers with
  | nil => exact trivial
  | cons frame rest ih => exact ⟨h.1, ih h.2⟩

theorem cancel_eq (c : Conn) : ∃ writer task, c.cancel =
    { c with sub := { c.sub with sock := { c.sub.sock with writer } }, task } := by
  have habort : ∀ task, ∃ writer, c.ackAbort task =
      { c with sub := { c.sub with sock := { c.sub.sock with writer } }, task } := by
    intro task
    unfold Conn.ackAbort Sock.dropAckWriter
    split
    · exact ⟨none, rfl⟩
    · exact ⟨c.sub.sock.writer, rfl⟩
  unfold Conn.cancel
  split
  · obtain ⟨writer, heq⟩ := habort .cancelled
    exact ⟨writer, _, heq⟩
  · exact ⟨c.sub.sock.writer, _, rfl⟩
  · exact ⟨c.sub.sock.writer, _, rfl⟩
  · exact ⟨c.sub.sock.writer, c.task, rfl⟩

theorem settle_closes (c : Conn) (reason : CloseReason) :
    (c.settle R (some reason)).registered = false ∧
      c.sub.sock.wire <+: (c.settle R (some reason)).sub.sock.wire := by
  simp only [Conn.settle]
  split
  · exact ⟨rfl, (evict_wire reason c).1⟩
  · rename_i hreg
    exact ⟨by simpa using hreg, List.prefix_refl _⟩

/-- The end of `run`: the handshakes are cancelled, then comes the last pass, then the closes. -/
theorem teardown_conns {fault : Bool} (h : hub.WF) (hgo : hub.stopping = false)
    (hrun : (hubSystem R).exec hub [.cancelHandshakes, .shutdown fault] = some hub') :
    ∃ done left exc, hub.swept = done ++ left ∧ (∀ r ∈ done, Serializes R r) ∧
      hub'.conns = hub.conns.map (fun c =>
        (done.foldl (turn R) c.cancel).settle R (some .shutdown)) ∧
      (fault = false → Stopped R left exc) := by
  have hstep : hub.step R .cancelHandshakes =
      some { hub with conns := hub.conns.map Conn.cancel } := rfl
  have hcancelled : Hub.WF { hub with conns := hub.conns.map Conn.cancel } := step_wf h hstep
  have hwf : Hub.WF { hub with conns := hub.conns.map Conn.cancel, stopping := true } :=
    ⟨hcancelled.openEntries, hcancelled.fds, hcancelled.cursor_le⟩
  have hend : Hub.shutdown R fault { hub with conns := hub.conns.map Conn.cancel } = hub' :=
    Option.some.inj hrun
  obtain ⟨count, heq⟩ := shutdown_eq (R := R)
    { hub with conns := hub.conns.map Conn.cancel } fault hgo
  obtain ⟨done, left, hsplit, hdone, hconns, hstop⟩ := pass_turns (R := R) hwf fault
  refine ⟨done, left, _, hsplit, hdone, ?_, hstop⟩
  rw [← hend, heq]
  simp only [hconns, List.map_map]
  rfl

end Teardown

end Waitbus.Shutdown
