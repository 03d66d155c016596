import Waitbus.Paging
import Mathlib

/-! What `db prune` deletes. The rows are chosen by `received_at` and by event id, and a reader
resumes by `seq`: a bookmark that was deleted resumes from the start of what is left. -/

namespace Waitbus.Prune
open Python FrameCodec EventStore OrderedLog
open Paging (deleteIds mem_deleteIds)

section Model

/-- What one call measures against; `cutoffNs` is
`int((time.time() - max_age_seconds) * _NS_PER_SEC)`. -/
structure Caps where
  cutoffNs : Int
  maxSizeBytes : Nat
  maxRows : Option Nat
  currentDbBytes : Nat

/-- SQLite's `LENGTH`: the characters before the first NUL. -/
def sqlLength (text : String) : Nat :=
  (text.toList.takeWhile (· ≠ '\x00')).length

def payloadSum (rows : List Row) : Nat :=
  (rows.map fun row => sqlLength row.payloadJson).sum

def eventIds (store : Store) : List Ulid :=
  store.rows.filterMap (·.eventId)

def sorted (ids : List Ulid) : List Ulid :=
  ids.insertionSort (· ≤ ·)

/-- `SELECT event_id … WHERE received_at < ? ORDER BY event_id`. -/
def ageIds (store : Store) (cutoff : SqlInt) : List Ulid :=
  sorted ((store.rows.filter (·.receivedAt.val < cutoff.val)).filterMap (·.eventId))

/-- `SELECT event_id … ORDER BY event_id LIMIT ?`. -/
def oldestIds (store : Store) (limit : Nat) : List Ulid :=
  (sorted (eventIds store)).take limit

/-- `rows_to_drop`, which is 0 where the code makes no `SELECT` for the size cap. -/
def rowsToDrop (caps : Caps) (store : Store) : Nat :=
  let rowCount := store.fanOutable.length
  if caps.currentDbBytes > caps.maxSizeBytes ∧ rowCount > 0 ∧ payloadSum store.fanOutable > 0 then
    let avgRowBytes := max (caps.currentDbBytes / rowCount) 1
    rowCount - caps.maxSizeBytes / avgRowBytes
  else 0

/-- `excess`, which is 0 where the code makes no `SELECT` for the row cap. -/
def excess (caps : Caps) (store : Store) : Nat :=
  match caps.maxRows with
  | none => 0
  | some maxRows => store.fanOutable.length - maxRows

/-- What each `SELECT` of a plan finds: every statement reads a snapshot of its own. -/
structure Views where
  aged : Store
  aggregated : Store
  oversized : Store
  totalled : Store
  capped : Store
  freed : Store

def Views.still (store : Store) : Views :=
  ⟨store, store, store, store, store, store⟩

def Views.doomed (views : Views) (caps : Caps) (cutoff : SqlInt) : List Ulid :=
  (ageIds views.aged cutoff ++ oldestIds views.oversized (rowsToDrop caps views.aggregated) ++
    oldestIds views.capped (excess caps views.totalled)).dedup

/-- `maxVariables` is SQLite's bound on the parameters of one statement. -/
def collectDoomedIds (maxVariables : Nat) (caps : Caps) (views : Views) :
    Except PyExc (List Ulid × Nat) := do
  let cutoff ← toSqlInt caps.cutoffNs
  let doomed := views.doomed caps cutoff
  if doomed = [] then return ([], 0)
  if maxVariables < doomed.length then throw .sqliteError
  return (sorted doomed,
    payloadSum (views.freed.rows.filter fun row => row.eventId.any (· ∈ doomed)))

structure Options where
  caps : Caps
  dryRun : Bool

/-- A call while nobody else writes: what it exits with, and the table after it. The copy that
`--vacuum` puts in the place of the database has the same rows. -/
def prune (maxVariables : Nat) (broadcasterLive : Bool) (options : Options) (store : Store) :
    Except PyExc Nat × Store :=
  if broadcasterLive then (.ok 2, store)
  else
    match collectDoomedIds maxVariables options.caps (.still store) with
    | .error exc => (.error exc, store)
    | .ok (doomedIds, _) =>
      if options.dryRun then (.ok 0, store) else (.ok 0, deleteIds store doomedIds)

/-- All that is deleted was committed before all that is left, and so a bookmark that is gone is
never handed a row from behind it. -/
structure OldestFirst (before after : Store) : Prop where
  inOrder : ∀ gone ∈ before.rows, gone ∉ after.rows → ∀ kept ∈ after.fanOutable,
    gone.seq < kept.seq
  replay : ∀ gone ∈ before.rows, gone ∉ after.rows → ∀ id ∈ gone.eventId, ∀ untilSeq limit,
    ∀ row ∈ after.iterEventsAbove (after.seqForEventId id.val) untilSeq limit,
      gone.seq < row.seq

/-- The row is older than the cutoff, or it has one of the least event ids, as many as the
size cap or the row cap takes. -/
def Falls (caps : Caps) (store : Store) (row : Row) : Prop :=
  row.receivedAt.val < caps.cutoffNs ∨ ∃ id ∈ row.eventId,
    ((eventIds store).filter (· < id)).length < max (rowsToDrop caps store) (excess caps store)

instance (caps : Caps) (store : Store) (row : Row) : Decidable (Falls caps store row) :=
  inferInstanceAs (Decidable (_ ∨ _))

def Spared (maxVariables : Nat) (broadcasterLive : Bool) (options : Options) (store : Store) :
    Prop :=
  broadcasterLive = true ∨ options.dryRun = true ∨
    ¬(-2 ^ 63 ≤ options.caps.cutoffNs ∧ options.caps.cutoffNs < 2 ^ 63) ∨
      maxVariables < (store.fanOutable.filter fun row => Falls options.caps store row).length

/-- Of two rows the one committed first is not spared by a cap that takes the other. -/
def InStep (caps : Caps) (store : Store) : Prop :=
  ∀ early ∈ store.fanOutable, ∀ late ∈ store.fanOutable, early.seq < late.seq →
    Falls caps store late → Falls caps store early

instance (maxVariables : Nat) (broadcasterLive : Bool) (options : Options) (store : Store) :
    Decidable (Spared maxVariables broadcasterLive options store) :=
  inferInstanceAs (Decidable (_ ∨ _))

instance (caps : Caps) (store : Store) : Decidable (InStep caps store) :=
  inferInstanceAs (Decidable (∀ early ∈ store.fanOutable, _))

end Model

section Doomed

variable {caps : Caps} {store : Store} {cutoff : SqlInt} {row : Row} {ulid : Ulid} {n : Nat}

theorem mem_eventIds :
    ulid ∈ eventIds store ↔ ∃ row ∈ store.fanOutable, row.eventId = some ulid := by
  rw [eventIds, List.mem_filterMap]
  exact exists_congr fun row => ⟨fun h => ⟨Store.mem_fanOutable.mpr ⟨h.1, by simp [h.2]⟩, h.2⟩,
    fun h => ⟨(Store.mem_fanOutable.mp h.1).1, h.2⟩⟩

theorem sorted_perm (ids : List Ulid) : (sorted ids).Perm ids :=
  List.perm_insertionSort _ ids

theorem sorted_increasing {ids : List Ulid} (hnodup : ids.Nodup) :
    Increasing (fun ulid : Ulid => ulid) (sorted ids) := by
  have hle := List.pairwise_insertionSort (· ≤ ·) ids
  have hne : (sorted ids).Nodup := (sorted_perm ids).nodup_iff.mpr hnodup
  exact (hle.and hne).imp fun ⟨hab, hab'⟩ => lt_of_le_of_ne hab hab'

theorem eventIds_nodup (store : Store) : (eventIds store).Nodup :=
  store.eventIds

theorem mem_oldestIds : ulid ∈ oldestIds store n ↔
    ulid ∈ eventIds store ∧ ((eventIds store).filter (· < ulid)).length < n := by
  have hperm := sorted_perm (eventIds store)
  rw [oldestIds, (sorted_increasing (eventIds_nodup store)).mem_take_iff, hperm.mem_iff,
    (hperm.filter _).length_eq]

theorem mem_ageIds (hcutoff : cutoff.val = caps.cutoffNs) : ulid ∈ ageIds store cutoff ↔
    ∃ row ∈ store.fanOutable, row.eventId = some ulid ∧ row.receivedAt.val < caps.cutoffNs := by
  rw [ageIds, (sorted_perm _).mem_iff, List.mem_filterMap, hcutoff]
  refine exists_congr fun row => ?_
  rw [List.mem_filter, decide_eq_true_eq, Store.mem_fanOutable]
  constructor
  · rintro ⟨⟨hrow, hold⟩, hid⟩
    exact ⟨⟨hrow, by simp [hid]⟩, hid, hold⟩
  · rintro ⟨⟨hrow, -⟩, hid, hold⟩
    exact ⟨⟨hrow, hold⟩, hid⟩

theorem mem_doomed (hcutoff : cutoff.val = caps.cutoffNs) :
    ulid ∈ (Views.still store).doomed caps cutoff ↔
      ∃ row ∈ store.fanOutable, row.eventId = some ulid ∧ Falls caps store row := by
  rw [Views.doomed, List.mem_dedup, List.mem_append, List.mem_append, Views.still,
    mem_ageIds hcutoff, mem_oldestIds, mem_oldestIds, mem_eventIds]
  constructor
  · rintro ((⟨row, hrow, hid, hold⟩ | ⟨⟨row, hrow, hid⟩, hleast⟩) | ⟨⟨row, hrow, hid⟩, hleast⟩)
    · exact ⟨row, hrow, hid, .inl hold⟩
    · exact ⟨row, hrow, hid, .inr ⟨ulid, hid, lt_max_of_lt_left hleast⟩⟩
    · exact ⟨row, hrow, hid, .inr ⟨ulid, hid, lt_max_of_lt_right hleast⟩⟩
  · rintro ⟨row, hrow, hid, hold | ⟨other, hother, hleast⟩⟩
    · exact .inl (.inl ⟨row, hrow, hid, hold⟩)
    · obtain rfl := Option.some.inj (hother.symm.trans hid)
      rcases lt_max_iff.mp hleast with hsize | hrows
      · exact .inl (.inr ⟨⟨row, hrow, hid⟩, hsize⟩)
      · exact .inr ⟨⟨row, hrow, hid⟩, hrows⟩

theorem doomed_nodup (views : Views) : (views.doomed caps cutoff).Nodup :=
  List.nodup_dedup _

theorem doomed_length (hcutoff : cutoff.val = caps.cutoffNs) :
    ((Views.still store).doomed caps cutoff).length =
      (store.fanOutable.filter fun row => Falls caps store row).length := by
  have hsome : ∀ row ∈ store.fanOutable.filter fun row => Falls caps store row,
      row.eventId.isSome := fun row hrow =>
    (Store.mem_fanOutable.mp (List.mem_of_mem_filter hrow)).2
  rw [← List.filterMap_length_eq_length.mpr hsome]
  refine ((List.perm_ext_iff_of_nodup (doomed_nodup _) ?_).mpr fun ulid => ?_).length_eq
  · exact store.eventIds.sublist ((List.filter_sublist.trans List.filter_sublist).filterMap _)
  · rw [mem_doomed hcutoff, List.mem_filterMap]
    refine exists_congr fun row => ?_
    rw [List.mem_filter, decide_eq_true_eq, and_assoc, and_comm (a := row.eventId = some ulid)]

theorem collectDoomedIds_cases (maxVariables : Nat) (caps : Caps) (views : Views) :
    (∃ exc, collectDoomedIds maxVariables caps views = .error exc ∧
      (¬(-2 ^ 63 ≤ caps.cutoffNs ∧ caps.cutoffNs < 2 ^ 63) ∨
        ∃ cutoff : SqlInt, cutoff.val = caps.cutoffNs ∧
          maxVariables < (views.doomed caps cutoff).length)) ∨
    ∃ cutoff : SqlInt, cutoff.val = caps.cutoffNs ∧
      (views.doomed caps cutoff).length ≤ maxVariables ∧
      ∃ freed, collectDoomedIds maxVariables caps views =
        .ok (sorted (views.doomed caps cutoff), freed) := by
  by_cases hrange : -2 ^ 63 ≤ caps.cutoffNs ∧ caps.cutoffNs < 2 ^ 63
  · have hcutoff : toSqlInt caps.cutoffNs = .ok ⟨caps.cutoffNs, hrange⟩ := dif_pos hrange
    simp only [collectDoomedIds, hcutoff, bind, Except.bind]
    split_ifs with hnone hmany
    · refine .inr ⟨⟨_, hrange⟩, rfl, ?_, 0, ?_⟩
      · rw [hnone]
        exact Nat.zero_le _
      · rw [hnone]
        rfl
    · exact .inl ⟨.sqliteError, rfl, .inr ⟨⟨_, hrange⟩, rfl, hmany⟩⟩
    · exact .inr ⟨⟨_, hrange⟩, rfl, not_lt.mp hmany, _, rfl⟩
  · have hcutoff : toSqlInt caps.cutoffNs = .error .overflowError := dif_neg hrange
    exact .inl ⟨.overflowError, by simp only [collectDoomedIds, hcutoff, bind, Except.bind],
      .inl hrange⟩

theorem collectDoomedIds_ok {maxVariables : Nat} {views : Views} {ids : List Ulid} {freed : Nat}
    (h : collectDoomedIds maxVariables caps views = .ok (ids, freed)) :
    ∃ cutoff : SqlInt, cutoff.val = caps.cutoffNs ∧ ids = sorted (views.doomed caps cutoff) ∧
      ids.length ≤ maxVariables := by
  rcases collectDoomedIds_cases maxVariables caps views with
    ⟨exc, herr, -⟩ | ⟨cutoff, hcutoff, hfew, freed', hok⟩
  · rw [herr] at h
    nomatch h
  · obtain ⟨rfl, -⟩ := Prod.mk.inj (Except.ok.inj (hok.symm.trans h))
    exact ⟨cutoff, hcutoff, rfl, (sorted_perm _).length_eq.trans_le hfew⟩

end Doomed

section Call

variable {maxVariables : Nat} {broadcasterLive : Bool} {options : Options} {store : Store}
  {row : Row}

theorem prune_spared (h : Spared maxVariables broadcasterLive options store) :
    (prune maxVariables broadcasterLive options store).2 = store := by
  by_cases hlive : broadcasterLive = true
  · rw [prune, if_pos hlive]
  · rw [prune, if_neg hlive]
    rcases collectDoomedIds_cases maxVariables options.caps (.still store) with
      ⟨exc, hplan, -⟩ | ⟨cutoff, hcutoff, hfew, freed, hplan⟩
    · rw [hplan]
    · rw [hplan]
      rcases h with hlive' | hdry | hrange | hmany
      · exact absurd hlive' hlive
      · simp only [hdry, if_true]
      · exact absurd (hcutoff ▸ cutoff.property) hrange
      · rw [doomed_length hcutoff] at hfew
        omega

theorem prune_deletes (h : ¬Spared maxVariables broadcasterLive options store) :
    row ∈ (prune maxVariables broadcasterLive options store).2.rows ↔
      row ∈ store.rows ∧ ¬(row ∈ store.fanOutable ∧ Falls options.caps store row) := by
  obtain ⟨hlive, hdry, hrange, hfew⟩ := by
    simpa only [Spared, not_or, not_not] using h
  rw [prune, if_neg hlive]
  rcases collectDoomedIds_cases maxVariables options.caps (.still store) with
    ⟨exc, -, hrange' | ⟨cutoff, hcutoff, hmany⟩⟩ | ⟨cutoff, hcutoff, -, freed, hplan⟩
  · exact absurd hrange hrange'
  · rw [doomed_length hcutoff] at hmany
    exact absurd hmany hfew
  · rw [hplan]
    simp only [if_neg hdry, mem_deleteIds, (sorted_perm _).mem_iff, mem_doomed hcutoff]
    refine and_congr_right fun hrow => ?_
    constructor
    · rintro hno ⟨hfan, hfalls⟩
      obtain ⟨ulid, hid⟩ := Option.isSome_iff_exists.mp (Store.mem_fanOutable.mp hfan).2
      exact hno ulid hid ⟨row, hfan, hid, hfalls⟩
    · rintro hno ulid hid ⟨other, hfan, hid', hfalls⟩
      obtain rfl := Paging.row_of_eventId hrow (Store.mem_fanOutable.mp hfan).1 hid hid'
      exact hno ⟨hfan, hfalls⟩

/-- Commit order is all there is to it: a bookmark that was deleted resumes from the start. -/
theorem oldestFirst_of_inOrder {before after : Store}
    (h : ∀ gone ∈ before.rows, gone ∉ after.rows → ∀ kept ∈ after.fanOutable,
      gone.seq < kept.seq) : OldestFirst before after where
  inOrder := h
  replay gone hgone hdeleted _ _ _ _ row hrow :=
    h gone hgone hdeleted row (Store.mem_iterEventsAbove hrow).1

theorem mem_kept (h : ¬Spared maxVariables broadcasterLive options store) :
    row ∈ (prune maxVariables broadcasterLive options store).2.fanOutable ↔
      row ∈ store.fanOutable ∧ ¬Falls options.caps store row := by
  rw [Store.mem_fanOutable, prune_deletes h, Store.mem_fanOutable]
  tauto

theorem inStep_of_oldestFirst (h : ¬Spared maxVariables broadcasterLive options store)
    (hfirst : OldestFirst store (prune maxVariables broadcasterLive options store).2) :
    InStep options.caps store := by
  intro early hearly late hlate hlt hfalls
  by_contra hno
  have hgone : late ∉ (prune maxVariables broadcasterLive options store).2.rows := fun hmem =>
    ((prune_deletes h).mp hmem).2 ⟨hlate, hfalls⟩
  have := hfirst.inOrder late (Store.mem_fanOutable.mp hlate).1 hgone early
    ((mem_kept h).mpr ⟨hearly, hno⟩)
  omega

/-- Prune deletes the oldest rows first exactly when it is spared, or none of its caps takes a row
and leaves one committed before it. -/
theorem prune_oldest_first_iff (maxVariables : Nat) (broadcasterLive : Bool) (options : Options)
    (store : Store) :
    OldestFirst store (prune maxVariables broadcasterLive options store).2 ↔
      Spared maxVariables broadcasterLive options store ∨ InStep options.caps store := by
  by_cases hspared : Spared maxVariables broadcasterLive options store
  · rw [prune_spared hspared]
    exact ⟨fun _ => .inl hspared, fun _ => oldestFirst_of_inOrder fun gone hgone hno =>
      absurd hgone hno⟩
  · constructor
    · exact fun h => .inr (inStep_of_oldestFirst hspared h)
    · intro h
      have hstep := h.resolve_left hspared
      refine oldestFirst_of_inOrder fun gone hgone hdeleted kept hmem => ?_
      obtain ⟨hfan, hleft⟩ := (mem_kept hspared).mp hmem
      obtain ⟨hfan', hfalls⟩ : gone ∈ store.fanOutable ∧ Falls options.caps store gone := by
        by_contra hno
        exact hdeleted ((prune_deletes hspared).mpr ⟨hgone, hno⟩)
      rcases lt_trichotomy gone.seq kept.seq with hlt | heq | hgt
      · exact hlt
      · rw [store.fanOutable_increasing.eq_of_key_eq hfan' hfan heq] at hfalls
        exact absurd hfalls hleft
      · exact absurd (hstep kept hfan gone hfan' hgt hfalls) hleft

/-- Two producers: the row committed second has the lesser event id. -/
def sampleCrossed : Store :=
  (Store.empty.insertAll [(sampleEvent 1, ulidAt 2), (sampleEvent 2, ulidAt 1)]).toOption.elim
    .empty (·.2)

/-- A row cap of 1 deletes the newer of two rows and leaves the older. -/
theorem row_cap_keeps_older : ¬OldestFirst sampleCrossed
    (prune 32766 false ⟨⟨0, 2 ^ 30, some 1, 8192⟩, false⟩ sampleCrossed).2 := fun h =>
  absurd (inStep_of_oldestFirst (by decide) h) (by decide)

/-- Where `received_at` and the event ids rise with `seq`, as with one producer whose clock does not
go back, every cap takes from the start of the table. -/
theorem inStep_of_rising {caps : Caps}
    (h : ∀ early ∈ store.fanOutable, ∀ late ∈ store.fanOutable, early.seq < late.seq →
      early.receivedAt.val ≤ late.receivedAt.val ∧
        ∀ a ∈ early.eventId, ∀ b ∈ late.eventId, a < b) : InStep caps store := by
  intro early hearly late hlate hlt hfalls
  obtain ⟨hreceived, hids⟩ := h early hearly late hlate hlt
  rcases hfalls with hold | ⟨b, hb, hleast⟩
  · exact .inl (hreceived.trans_lt hold)
  · obtain ⟨a, ha⟩ := Option.isSome_iff_exists.mp (Store.mem_fanOutable.mp hearly).2
    refine .inr ⟨a, ha, lt_of_le_of_lt (List.Sublist.length_le ?_) hleast⟩
    refine List.monotone_filter_right _ fun c hc => ?_
    exact decide_eq_true ((of_decide_eq_true hc).trans (hids a ha b hb))

end Call

end Waitbus.Prune
