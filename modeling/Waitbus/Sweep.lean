import Waitbus.DaemonSteps

/-! How far one pass gets. A row without a frame ends the pass that meets it with the cursor right
below that row, and so it ends every pass after it; any other row is passed. -/

namespace Waitbus.Sweep
open Python Json FrameCodec EventStore RowFrame TxQueue Runs OrderedLog Daemon

def Serializes (R : Runtime) (row : Row) : Prop :=
  ∃ blob, rowBlob R row = .ok blob

variable {R : Runtime} {hub : Hub} {row : Row}

theorem serializes_iff (h : row ∈ hub.store.fanOutable) :
    Serializes R row ↔ PayloadPrints R row ∧ StubFits row :=
  rowBlob_ok_iff (Option.eq_some_of_isSome (Store.mem_fanOutable.mp h).2)

theorem swept_increasing (hub : Hub) : Increasing Row.seq hub.swept :=
  hub.store.fanOutable_increasing.above.sublist
    (iterEventsAbove_first hub.store hub.cursor sweepLimit).sublist

theorem mem_swept (h : row ∈ hub.swept) : row ∈ hub.store.fanOutable ∧ hub.cursor < row.seq :=
  ⟨(Store.mem_iterEventsAbove h).1, (Store.mem_iterEventsAbove h).2.1⟩

/-- A pass splits the rows it reads: those it has fanned out, which the cursor has reached, and
those above the cursor, of which the first has no frame. -/
theorem pass_outcome (h : hub.WF) : ∃ done left, hub.swept = done ++ left ∧
    (hub.broadcastPass R false).2.store = hub.store ∧
    (∀ r ∈ done, Serializes R r ∧ r.seq ≤ (hub.broadcastPass R false).2.cursor) ∧
    (∀ r ∈ left, (hub.broadcastPass R false).2.cursor < r.seq) ∧
    ((hub.broadcastPass R false).2.cursor = hub.cursor ∨
      ∃ r ∈ done, r.seq = (hub.broadcastPass R false).2.cursor) ∧
    Stopped R left (hub.broadcastPass R false).1 := by
  obtain ⟨-, left, ⟨done, hsplit, hstore, hdone, hleft, hcursor⟩, hstop⟩ :=
    broadcastPass_induction (R := R)
    (P := fun left hub₁ => ∃ done, hub.swept = done ++ left ∧ hub₁.store = hub.store ∧
      (∀ r ∈ done, Serializes R r ∧ r.seq ≤ hub₁.cursor) ∧ (∀ r ∈ left, hub₁.cursor < r.seq) ∧
      (hub₁.cursor = hub.cursor ∨ ∃ r ∈ done, r.seq = hub₁.cursor))
    (fun hub₁ row rest bytes hwf _ hblob ⟨done, hsplit, hstore, hdone, hleft, hcursor⟩ => by
      obtain ⟨count, heq⟩ := advance_eq (R := R) hwf row bytes
      have hinc := increasing_append.mp (hsplit ▸ swept_increasing hub)
      rw [heq]
      refine ⟨done ++ [row], by rw [hsplit, List.append_assoc, List.singleton_append], hstore,
        fun r hr => ?_, (List.pairwise_cons.mp hinc.2.1).1,
        .inr ⟨row, List.mem_append_right _ (List.mem_singleton_self row), rfl⟩⟩
      rcases List.mem_append.mp hr with hr | hr
      · exact ⟨(hdone r hr).1, le_of_lt (hinc.2.2 r hr row List.mem_cons_self)⟩
      · rw [List.mem_singleton.mp hr]
        exact ⟨⟨bytes, hblob⟩, le_refl _⟩)
    h false ⟨[], rfl, rfl, by simp, fun r hr => (mem_swept hr).2, .inl rfl⟩
  exact ⟨done, left, hsplit, hstore, hdone, hleft, hcursor, hstop rfl⟩

/-- A pass has gone by a row when all the rows it read up to there have a frame: the first one it
has left has none. -/
theorem mem_done {done left : List Row} {exc : Option PyExc}
    (hinc : Increasing Row.seq (done ++ left)) (hstop : Stopped R left exc)
    (hrow : row ∈ done ++ left) (hall : ∀ r ∈ done ++ left, r.seq ≤ row.seq → Serializes R r) :
    row ∈ done := by
  refine (List.mem_append.mp hrow).resolve_right fun hleft => ?_
  cases exc with
  | none =>
    rw [show left = [] from hstop] at hleft
    cases hleft
  | some exc =>
    obtain ⟨first, rest, rfl, herr⟩ := hstop
    have hle : first.seq ≤ row.seq := by
      rcases List.mem_cons.mp hleft with rfl | hrest
      · exact le_refl _
      · have hincl := (increasing_append.mp hinc).2.1
        exact le_of_lt ((List.pairwise_cons.mp hincl).1 row hrest)
    obtain ⟨blob, hblob⟩ := hall first (List.mem_append_right _ List.mem_cons_self) hle
    rw [herr] at hblob
    cases hblob

theorem pass_reaches_iff (h : hub.WF) (hrow : row ∈ hub.swept) :
    row.seq ≤ (hub.broadcastPass R false).2.cursor ↔
      ∀ r ∈ hub.swept, r.seq ≤ row.seq → Serializes R r := by
  obtain ⟨done, left, hsplit, -, hdone, hleft, -, hstop⟩ := pass_outcome (R := R) h
  have hinc := swept_increasing hub
  rw [hsplit] at hinc hrow ⊢
  constructor
  · intro hle r hr hrle
    rcases List.mem_append.mp hr with hr | hr
    · exact (hdone r hr).1
    · exact absurd (hrle.trans hle) (not_le.mpr (hleft r hr))
  · exact fun hall => (hdone row (mem_done hinc hstop hrow hall)).2

def CaughtUp (hub : Hub) : Prop :=
  ∀ r ∈ hub.store.fanOutable, r.seq ≤ hub.cursor

def SweepsAll (R : Runtime) (hub : Hub) : Prop :=
  (above Row.seq hub.cursor hub.store.fanOutable).length ≤ sweepLimit ∧
    ∀ r ∈ hub.swept, PayloadPrints R r ∧ StubFits r

instance (hub : Hub) : Decidable (CaughtUp hub) :=
  inferInstanceAs (Decidable (∀ r ∈ hub.store.fanOutable, _))

instance (R : Runtime) (hub : Hub) : Decidable (SweepsAll R hub) :=
  inferInstanceAs (Decidable (_ ∧ ∀ r ∈ hub.swept, _))

theorem swept_eq_above
    (h : (above Row.seq hub.cursor hub.store.fanOutable).length ≤ sweepLimit) :
    hub.swept = above Row.seq hub.cursor hub.store.fanOutable := by
  rw [Hub.swept, iterEventsAbove_open, List.take_of_length_le h]

theorem pass_catches_up (h : hub.WF) (hall : SweepsAll R hub) :
    CaughtUp (hub.broadcastPass R false).2 := by
  obtain ⟨hstore, -, hle⟩ := broadcastPass_frame (R := R) h false
  intro r hr
  rw [hstore] at hr
  by_cases hlt : hub.cursor < r.seq
  · have hswept : r ∈ hub.swept := by
      rw [swept_eq_above hall.1]
      exact mem_above.mpr ⟨hr, hlt⟩
    refine (pass_reaches_iff h hswept).mpr fun q hq _ => ?_
    exact (serializes_iff (mem_swept hq).1).mpr (hall.2 q hq)
  · exact (not_lt.mp hlt).trans hle

/-- A row is no poison: it has a frame within the cap, and a pass that reads it stops neither at
it nor, where the others have frames, anywhere after it. -/
def Harmless (R : Runtime) (row : Row) : Prop :=
  (∃ blob, rowBlob R row = .ok blob ∧ blob.length ≤ lengthPrefixBytes + maxFrameBytes) ∧
    ∀ hub : Hub, hub.WF → row ∈ hub.swept → (∀ r ∈ hub.swept, r.seq < row.seq → Serializes R r) →
      row.seq ≤ (hub.broadcastPass R false).2.cursor ∧
        ((∀ r ∈ hub.swept, row.seq < r.seq → Serializes R r) →
          ∀ r ∈ hub.swept, r.seq ≤ (hub.broadcastPass R false).2.cursor)

/-- The rows that are no poison are those whose payload prints and whose stub fits. -/
theorem harmless_iff {id : Ulid} (hid : row.eventId = some id) :
    Harmless R row ↔ PayloadPrints R row ∧ StubFits row := by
  rw [← rowBlob_ok_iff hid]
  constructor
  · rintro ⟨⟨blob, hblob, -⟩, -⟩
    exact ⟨blob, hblob⟩
  · rintro ⟨blob, hblob⟩
    refine ⟨⟨blob, hblob, (rowBlob_length hblob).2⟩, fun hub hwf hrow hbefore => ?_⟩
    have hsame : ∀ r ∈ hub.swept, r.seq = row.seq → Serializes R r := fun r hr heq =>
      (swept_increasing hub).eq_of_key_eq hr hrow heq ▸ ⟨blob, hblob⟩
    have hupto : ∀ r ∈ hub.swept, r.seq ≤ row.seq → Serializes R r := fun r hr hle =>
      (Nat.lt_or_eq_of_le hle).elim (hbefore r hr) (hsame r hr)
    refine ⟨(pass_reaches_iff hwf hrow).mpr hupto, fun hafter r hr => ?_⟩
    refine (pass_reaches_iff hwf hr).mpr fun q hq _ => ?_
    rcases Nat.lt_or_ge row.seq q.seq with hlt | hge
    · exact hafter q hq hlt
    · exact hupto q hq hge

theorem harmless_sample : ∃ row : Row, row.eventId = some (ulidAt 1) ∧ Harmless .reference row := by
  obtain ⟨row, -, hid, hprints, hfits⟩ : ∃ row ∈ ((sampleEvent 1).row (ulidAt 1)).toOption,
      row.eventId = some (ulidAt 1) ∧ PayloadPrints .reference row ∧ StubFits row := by
    decide +kernel
  exact ⟨row, hid, (harmless_iff hid).mpr ⟨hprints, hfits⟩⟩

theorem length_escape_run (n : Nat) :
    (escape (ofText (String.ofList (List.replicate n 'c')))).length = n := by
  rw [ofText, String.toList_ofList]
  induction n with
  | zero => rfl
  | succ n ih =>
    have hone : (escapeChar 'c').length = 1 := by decide
    simp only [escape, List.replicate_succ, List.map_cons, List.flatMap_cons, List.length_append,
      PyChar.toScalar, Option.map_some, Option.getD_some, hone] at ih ⊢
    omega

def correlatedEvent (c : String) : EventInsert :=
  { sampleEvent 1 with msgCorrelationId := some c }

theorem correlatedEvent_inserted (c : String) : ∃ store row,
    Store.empty.insertEvent (correlatedEvent c) (ulidAt 1) = .ok (true, store) ∧
      store.fanOutable = [row] ∧ row.eventId = some (ulidAt 1) ∧
      row.msgCorrelationId = some c ∧ row.seq = 1 :=
  ⟨_, _, rfl, rfl, rfl, rfl, rfl⟩

/-- A correlation id that the stub has no room for is stored, and keeps the cursor below it. -/
theorem long_correlation_poisons {c : String}
    (hlong : correlationRoom < (escape (ofText c)).length) :
    ∃ store, Store.empty.insertEvent (correlatedEvent c) (ulidAt 1) = .ok (true, store) ∧
      ∃ row ∈ store.fanOutable, ¬Harmless R row ∧
        ({ Hub.seeded .empty with store }.broadcastPass R false).2.cursor < row.seq := by
  obtain ⟨store, row, hinsert, hrows, hid, hcorr, hseq⟩ := correlatedEvent_inserted c
  have hfits : ¬StubFits row := fun hfits => absurd (hfits c hcorr) (not_le.mpr hlong)
  have hwf : Hub.WF { Hub.seeded .empty with store } :=
    ⟨fun c hc => absurd hc List.not_mem_nil, List.Pairwise.nil, Nat.zero_le _⟩
  have hswept : row ∈ ({ Hub.seeded .empty with store } : Hub).swept := by
    have hpos : 0 < row.seq := by omega
    refine Store.iterEventsAbove_reaches (hrows ▸ List.mem_singleton_self row) hpos
      (fun u hu => nomatch hu) ?_
    refine lt_of_le_of_lt (List.length_filter_le _ _) ?_
    rw [hrows]
    exact lt_of_le_of_lt (List.length_filter_le _ _) (show 1 < sweepLimit by decide)
  refine ⟨store, hinsert, row, hrows ▸ List.mem_singleton_self row,
    fun hno => hfits ((harmless_iff hid).mp hno).2, ?_⟩
  by_contra hle
  have hall := (pass_reaches_iff hwf hswept).mp (not_lt.mp hle) row hswept (le_refl _)
  exact hfits ((serializes_iff (mem_swept hswept).1).mp hall).2

theorem row_poisons : ∃ event store,
    Store.empty.insertEvent event (ulidAt 1) = .ok (true, store) ∧
      ∃ row ∈ store.fanOutable, ¬Harmless .reference row ∧
        ({ Hub.seeded .empty with store }.broadcastPass .reference false).2.cursor < row.seq := by
  have hlong : correlationRoom <
      (escape (ofText (String.ofList (List.replicate 65390 'c')))).length := by
    rw [length_escape_run, correlationRoom]
    omega
  exact ⟨_, long_correlation_poisons hlong⟩

end Waitbus.Sweep
