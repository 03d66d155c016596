import Waitbus.McpReads
import Waitbus.Runs

/-! Reading the store page by page. A page ends at an event id, which the next call turns back
into the place of that row, while rows are committed and others pruned between the calls. -/

namespace Waitbus.Paging
open Python FrameCodec EventStore OrderedLog Runs McpReads

section Reader

/-- A read behind a cursor: what it asks for, how many rows it takes, and how it shows them. -/
structure Reader where
  wants : Row → Bool
  limit : SqlInt
  shows : Row → Dict

def Reader.rows (reader : Reader) (store : Store) (since : Option String) : List Row :=
  sqlLimit reader.limit <| store.fanOutable.filter fun row =>
    store.seqForEventId (since.getD "") < row.seq && reader.wants row

def Reader.read (reader : Reader) (store : Store) (now : Int) (since : Option String) : Page :=
  let rows := reader.rows store since
  ⟨rows.map reader.shows, nextCursor rows since, now⟩

/-- `tail_events` under these arguments, whatever the cursor. -/
def tailReader (arguments : TailArguments) : Reader where
  wants row := ((splitRepo arguments.repo).map fun repo => ofRepo repo row).getD true &&
    eventTypeFilter (arguments.eventTypes.getD []) row
  limit := arguments.limit
  shows := eventRowToDict

def inboxReader (agent : PyStr) (limit : SqlInt) : Reader where
  wants row := row.eventType = "agent_message" &&
    (row.msgTo.map ofText = some agent || row.msgTo = some "*")
  limit := limit
  shows := rowToAgentMessage

theorem tailEventsRead_eq (store : Store) (now : Int) (arguments : TailArguments) :
    tailEventsRead (some store) now arguments =
      (tailReader arguments).read store now arguments.sinceCursor := by
  simp only [tailEventsRead, Reader.read, Reader.rows, tailReader, tailRows, Bool.and_assoc]

theorem readAgentMessagesImpl_eq (store : Store) (now : Int) (agent : PyStr)
    (since : Option String) (limit : SqlInt) :
    readAgentMessagesImpl (some store) now agent since limit =
      (inboxReader agent limit).read store now since := by
  simp only [readAgentMessagesImpl, Reader.read, Reader.rows, inboxReader, inboxRows,
    Bool.and_assoc]

end Reader

section Iteration

/-- `DELETE FROM events WHERE event_id IN (…)`, which gives no seq free. -/
def deleteIds (store : Store) (ids : List Ulid) : Store where
  rows := store.rows.filter fun row => row.eventId.all (· ∉ ids)
  lastSeq := store.lastSeq
  increasing := store.increasing.sublist List.filter_sublist
  bounded row hrow := store.bounded row (List.mem_filter.mp hrow).1
  deliveryIds := store.deliveryIds.sublist (List.filter_sublist.map _)
  eventIds := store.eventIds.sublist (List.filter_sublist.filterMap _)

/-- A caller that feeds each cursor back. `start` is where it began, and `ever` and `returned` are
history: the rows that were ever in the table, and those behind the pages. -/
structure Iteration where
  store : Store
  cursor : Option String
  pages : List Page
  start : Nat
  ever : List Row
  returned : List Row

inductive Act where
  | commit (event : EventInsert) (eventId : Ulid)
  | prune (ids : List Ulid)
  | page (now : Int)

def Iteration.step (reader : Reader) (s : Iteration) : Act → Option Iteration
  | .commit event eventId =>
    match s.store.insertEvent event eventId with
    | .ok (_, store) => some { s with store, ever := s.ever ++ store.rows }
    | .error _ => none
  | .prune ids =>
    if ids.any fun id => s.cursor = some id.val then none
    else some { s with store := deleteIds s.store ids }
  | .page now =>
    let page := reader.read s.store now s.cursor
    some { s with
      cursor := page.nextCursor
      pages := s.pages ++ [page]
      returned := s.returned ++ reader.rows s.store s.cursor }

def Iteration.place (s : Iteration) : Nat :=
  s.store.seqForEventId (s.cursor.getD "")

/-- The caller begins at the start of the table, or behind a row of it. -/
def iterating (reader : Reader) : System Iteration Act where
  init s := (s.cursor = none ∨ ∃ row ∈ s.store.rows, row.eventId.map (·.val) = s.cursor) ∧
    s.start = s.place ∧ s.pages = [] ∧ s.ever = s.store.rows ∧ s.returned = []
  step := Iteration.step reader

end Iteration

section Pages

variable {reader : Reader} {store : Store} {since : Option String} {row : Row}

theorem Reader.mem_rows (h : row ∈ reader.rows store since) : row ∈ store.fanOutable ∧
    store.seqForEventId (since.getD "") < row.seq ∧ reader.wants row = true := by
  simpa using List.mem_filter.mp (sqlLimit_subset h)

theorem Reader.rows_increasing (reader : Reader) (store : Store) (since : Option String) :
    Increasing Row.seq (reader.rows store since) := by
  rw [Reader.rows, sqlLimit]
  split
  · exact store.fanOutable_increasing.sublist List.filter_sublist
  · exact (store.fanOutable_increasing.sublist List.filter_sublist).sublist (List.take_sublist _ _)

/-- A page reaches every row it could have had up to its last one, and misses none when it is
empty. -/
theorem Reader.rows_cover (hlimit : 1 ≤ reader.limit.val) (hrow : row ∈ store.fanOutable)
    (hwants : reader.wants row = true) (hplace : store.seqForEventId (since.getD "") < row.seq) :
    ∃ last, (reader.rows store since).getLast? = some last ∧
      (row ∈ reader.rows store since ∨ last.seq < row.seq) := by
  have hall : row ∈ store.fanOutable.filter fun row =>
      store.seqForEventId (since.getD "") < row.seq && reader.wants row := by
    simp [hrow, hplace, hwants]
  have hinc := store.fanOutable_increasing.sublist
    (List.filter_sublist (p := fun row =>
      store.seqForEventId (since.getD "") < row.seq && reader.wants row))
  rw [Reader.rows, sqlLimit, if_neg (by omega)]
  generalize List.filter _ store.fanOutable = all at hall hinc
  have hne : all.take reader.limit.val.toNat ≠ [] := by
    rw [ne_eq, List.take_eq_nil_iff, not_or]
    exact ⟨by omega, List.ne_nil_of_mem hall⟩
  obtain ⟨last, hlast⟩ : ∃ last, (all.take reader.limit.val.toNat).getLast? = some last :=
    ⟨_, List.getLast?_eq_some_getLast hne⟩
  refine ⟨last, hlast, ?_⟩
  rw [← List.take_append_drop reader.limit.val.toNat all] at hall hinc
  rcases List.mem_append.mp hall with htaken | hleft
  · exact .inl htaken
  · exact .inr ((increasing_append.mp hinc).2.2 last (List.mem_of_getLast? hlast) row hleft)

theorem row_of_eventId {row' : Row} {id : Ulid} (hrow : row ∈ store.rows)
    (hrow' : row' ∈ store.rows) (hid : row.eventId = some id) (hid' : row'.eventId = some id) :
    row = row' := by
  by_contra hne
  have hdistinct := List.pairwise_filterMap.mp store.eventIds
  have : Std.Symm fun a b : Row =>
      ∀ x, a.eventId = some x → ∀ y, b.eventId = some y → x ≠ y :=
    ⟨fun a b h x hx y hy => (h y hy x hx).symm⟩
  exact hdistinct.forall hrow hrow' hne id hid id hid' rfl

theorem seqForEventId_known {id : Ulid} (hrow : row ∈ store.rows) (hid : row.eventId = some id) :
    store.seqForEventId id.val = row.seq := by
  have hne : id.val ≠ "" := by
    intro hnil
    have hlen := id.property.1
    rw [hnil] at hlen
    cases hlen
  rw [Store.seqForEventId, if_neg hne]
  cases hfind : store.rows.find? fun row => row.eventId.map (·.val) = some id.val with
  | none =>
    have hno := List.find?_eq_none.mp hfind row hrow
    simp [hid] at hno
  | some found =>
    have hsame : found.eventId.map (·.val) = some id.val := by
      simpa using List.find?_some hfind
    obtain ⟨id', hid', hval⟩ := Option.map_eq_some_iff.mp hsame
    obtain rfl := Subtype.ext hval
    rw [row_of_eventId (List.mem_of_find?_eq_some hfind) hrow hid' hid]
    rfl

end Pages

section Lossless

variable {reader : Reader} {s t : Iteration} {row : Row}

def Known (store : Store) (cursor : Option String) : Prop :=
  cursor = none ∨ ∃ row ∈ store.rows, row.eventId.map (·.val) = cursor

/-- What has been returned is what was wanted between the start and the cursor. -/
structure Lossless (reader : Reader) (s : Iteration) : Prop where
  known : Known s.store s.cursor
  start_le : s.start ≤ s.place
  stored : s.store.rows ⊆ s.ever
  inOrder : Increasing Row.seq s.returned
  wanted : ∀ row ∈ s.returned, row ∈ s.ever ∧ row.eventId.isSome ∧ reader.wants row = true ∧
    s.start < row.seq ∧ row.seq ≤ s.place
  complete : ∀ row ∈ s.store.fanOutable, reader.wants row = true → s.start < row.seq →
    row.seq ≤ s.place → row ∈ s.returned
  shown : s.pages.flatMap (·.entries) = s.returned.map reader.shows

theorem place_known {store : Store} {cursor : Option String} {id : Ulid}
    (hrow : row ∈ store.rows) (hid : row.eventId = some id) (hcursor : cursor = some id.val) :
    store.seqForEventId (cursor.getD "") = row.seq := by
  rw [hcursor]
  exact seqForEventId_known hrow hid

theorem place_none (store : Store) : store.seqForEventId ((none : Option String).getD "") = 0 :=
  if_pos rfl

theorem place_kept {store store' : Store} {cursor : Option String} (h : Known store cursor)
    (hkept : ∀ row ∈ store.rows, row.eventId.map (·.val) = cursor → row ∈ store'.rows) :
    Known store' cursor ∧
      store'.seqForEventId (cursor.getD "") = store.seqForEventId (cursor.getD "") := by
  rcases h with rfl | ⟨row, hrow, hcursor⟩
  · exact ⟨.inl rfl, by rw [place_none, place_none]⟩
  · cases hid : row.eventId with
    | none =>
      rw [hid] at hcursor
      exact ⟨.inl hcursor.symm, by rw [← hcursor]; exact (place_none _).trans (place_none _).symm⟩
    | some id =>
      have hkeep := hkept row hrow hcursor
      rw [hid] at hcursor
      refine ⟨.inr ⟨row, hkeep, by rw [hid]; exact hcursor⟩, ?_⟩
      rw [place_known hkeep hid hcursor.symm, place_known hrow hid hcursor.symm]

theorem place_le_lastSeq (s : Iteration) : s.place ≤ s.store.lastSeq := by
  rw [Iteration.place, Store.seqForEventId]
  split
  · exact Nat.zero_le _
  · cases hfind : List.find? _ s.store.rows with
    | none => exact Nat.zero_le _
    | some row => exact (s.store.bounded row (List.mem_of_find?_eq_some hfind)).2

theorem commit_cases {event : EventInsert} {eventId : Ulid}
    (h : s.step reader (.commit event eventId) = some t) :
    s.store.Grows t.store ∧ t = { s with store := t.store, ever := s.ever ++ t.store.rows } := by
  simp only [Iteration.step] at h
  split at h
  · rename_i inserted store hinsert
    obtain rfl := Option.some.inj h
    exact ⟨insertEvent_grows hinsert, rfl⟩
  · nomatch h

theorem prune_cases {ids : List Ulid} (h : s.step reader (.prune ids) = some t) :
    (∀ id ∈ ids, s.cursor ≠ some id.val) ∧ t = { s with store := deleteIds s.store ids } := by
  simp only [Iteration.step] at h
  split at h
  · nomatch h
  · rename_i hspared
    exact ⟨by simpa using hspared, (Option.some.inj h).symm⟩

theorem mem_deleteIds {store : Store} {ids : List Ulid} : row ∈ (deleteIds store ids).rows ↔
    row ∈ store.rows ∧ ∀ id, row.eventId = some id → id ∉ ids := by
  simp only [deleteIds, List.mem_filter, Option.all_eq_true, decide_eq_true_eq]

theorem Lossless.table (h : Lossless reader s) (store : Store) (ever : List Row)
    (hkept : ∀ row ∈ s.store.rows, row.eventId.map (·.val) = s.cursor → row ∈ store.rows)
    (hnew : ∀ row ∈ store.rows, row ∈ s.store.rows ∨ s.store.lastSeq < row.seq)
    (hever : s.ever ⊆ ever) (hstored : store.rows ⊆ ever) :
    Lossless reader { s with store, ever } ∧
      store.seqForEventId (s.cursor.getD "") = s.place := by
  obtain ⟨hknown, hplace⟩ := place_kept h.known hkept
  have hsame : ({ s with store, ever } : Iteration).place = s.place := hplace
  refine ⟨⟨hknown, ?_, hstored, h.inOrder, ?_, ?_, h.shown⟩, hplace⟩
  · rw [hsame]
    exact h.start_le
  · rw [hsame]
    intro row hrow
    obtain ⟨hmem, hrest⟩ := h.wanted row hrow
    exact ⟨hever hmem, hrest⟩
  · rw [hsame]
    intro row hrow hwants hlt hle
    obtain ⟨hmem, hsome⟩ := Store.mem_fanOutable.mp hrow
    rcases hnew row hmem with hmem | hlast
    · exact h.complete row (Store.mem_fanOutable.mpr ⟨hmem, hsome⟩) hwants hlt hle
    · have := place_le_lastSeq s
      omega

theorem Lossless.commit (h : Lossless reader s) {event : EventInsert} {eventId : Ulid}
    (hstep : s.step reader (.commit event eventId) = some t) :
    Lossless reader t ∧ t.place = s.place := by
  obtain ⟨⟨new, hrows, -, hnew⟩, ht⟩ := commit_cases hstep
  have htable := h.table t.store (s.ever ++ t.store.rows)
    (fun row hrow _ => by rw [hrows]; exact List.mem_append_left _ hrow)
    (fun row hrow => by
      rw [hrows] at hrow
      exact (List.mem_append.mp hrow).imp_right (hnew row))
    (List.subset_append_left _ _) (List.subset_append_right _ _)
  rw [ht]
  exact htable

theorem Lossless.prune (h : Lossless reader s) {ids : List Ulid}
    (hstep : s.step reader (.prune ids) = some t) :
    Lossless reader t ∧ t.place = s.place := by
  obtain ⟨hspared, rfl⟩ := prune_cases hstep
  refine h.table _ _ (fun row hrow hcursor => mem_deleteIds.mpr ⟨hrow, fun id hid hmem => ?_⟩)
    (fun row hrow => .inl (mem_deleteIds.mp hrow).1) (List.Subset.refl _)
    (fun row hrow => h.stored (mem_deleteIds.mp hrow).1)
  rw [hid] at hcursor
  exact hspared id hmem hcursor.symm

theorem page_cases {now : Int} (h : s.step reader (.page now) = some t) :
    t = { s with
      cursor := nextCursor (reader.rows s.store s.cursor) s.cursor
      pages := s.pages ++ [reader.read s.store now s.cursor]
      returned := s.returned ++ reader.rows s.store s.cursor } :=
  (Option.some.inj h).symm

theorem page_place (h : Known s.store s.cursor) :
    Known s.store (nextCursor (reader.rows s.store s.cursor) s.cursor) ∧
      s.store.seqForEventId ((nextCursor (reader.rows s.store s.cursor) s.cursor).getD "") =
        (((reader.rows s.store s.cursor).getLast?.map (·.seq)).getD s.place) := by
  cases hlast : (reader.rows s.store s.cursor).getLast? with
  | none =>
    rw [nextCursor, hlast]
    exact ⟨h, rfl⟩
  | some last =>
    obtain ⟨hmem, hsome⟩ :=
      Store.mem_fanOutable.mp (Reader.mem_rows (List.mem_of_getLast? hlast)).1
    obtain ⟨id, hid⟩ := Option.isSome_iff_exists.mp hsome
    have hcursor : nextCursor (reader.rows s.store s.cursor) s.cursor = some id.val := by
      simp only [nextCursor, hlast, hid]
      rfl
    rw [hcursor]
    exact ⟨.inr ⟨last, hmem, by rw [hid]; rfl⟩, place_known hmem hid rfl⟩

theorem page_after (h : Known s.store s.cursor) {now : Int}
    (hstep : s.step reader (.page now) = some t) :
    t.place = ((reader.rows s.store s.cursor).getLast?.map (·.seq)).getD s.place ∧
      s.place ≤ t.place ∧
      ∀ row ∈ reader.rows s.store s.cursor, s.place < row.seq ∧ row.seq ≤ t.place := by
  have hafter : t.place = ((reader.rows s.store s.cursor).getLast?.map (·.seq)).getD s.place := by
    rw [page_cases hstep]
    exact (page_place h).2
  refine ⟨hafter, ?_, fun row hrow => ⟨(Reader.mem_rows hrow).2.1, ?_⟩⟩
  · rw [hafter]
    cases hlast : (reader.rows s.store s.cursor).getLast? with
    | none => exact le_refl _
    | some last => exact (Reader.mem_rows (List.mem_of_getLast? hlast)).2.1.le
  · obtain ⟨last, hlast⟩ : ∃ last, (reader.rows s.store s.cursor).getLast? = some last :=
      ⟨_, List.getLast?_eq_some_getLast (List.ne_nil_of_mem hrow)⟩
    rw [hafter, hlast]
    exact seq_le_getLast (reader.rows_increasing _ _) hrow hlast

theorem Lossless.page (h : Lossless reader s) (hlimit : 1 ≤ reader.limit.val) {now : Int}
    (hstep : s.step reader (.page now) = some t) : Lossless reader t := by
  obtain ⟨hafter, hforth, hbehind⟩ := page_after h.known hstep
  have hread := page_cases hstep
  have hknown : Known s.store (nextCursor (reader.rows s.store s.cursor) s.cursor) :=
    (page_place h.known).1
  have hstore : t.store = s.store := by rw [hread]
  have hreturned : t.returned = s.returned ++ reader.rows s.store s.cursor := by rw [hread]
  have hstart : t.start = s.start := by rw [hread]
  have hever : t.ever = s.ever := by rw [hread]
  refine ⟨by rw [hread]; exact hknown, ?_, ?_, ?_, ?_, ?_, ?_⟩
  · rw [hstart]
    exact h.start_le.trans hforth
  · rw [hstore, hever]
    exact h.stored
  · rw [hreturned]
    refine increasing_append.mpr ⟨h.inOrder, reader.rows_increasing _ _, fun a ha b hb => ?_⟩
    exact lt_of_le_of_lt (h.wanted a ha).2.2.2.2 (hbehind b hb).1
  · rw [hreturned, hever, hstart]
    intro row hrow
    rcases List.mem_append.mp hrow with hrow | hrow
    · obtain ⟨hmem, hsome, hwants, hlt, hle⟩ := h.wanted row hrow
      exact ⟨hmem, hsome, hwants, hlt, hle.trans hforth⟩
    · obtain ⟨hmem, -, hwants⟩ := Reader.mem_rows hrow
      obtain ⟨hlt, hle⟩ := hbehind row hrow
      exact ⟨h.stored (Store.mem_fanOutable.mp hmem).1, (Store.mem_fanOutable.mp hmem).2, hwants,
        lt_of_le_of_lt h.start_le hlt, hle⟩
  · rw [hstore, hreturned, hstart]
    intro row hrow hwants hlt hle
    by_cases hpassed : row.seq ≤ s.place
    · exact List.mem_append_left _ (h.complete row hrow hwants hlt hpassed)
    · obtain ⟨last, hlast, hcover⟩ := reader.rows_cover hlimit hrow hwants (not_le.mp hpassed)
      rw [hafter, hlast] at hle
      exact List.mem_append_right _ (hcover.resolve_right (not_lt.mpr hle))
  · rw [hreturned, hread, List.flatMap_append, h.shown, List.map_append]
    simp [Reader.read]

theorem lossless (hlimit : 1 ≤ reader.limit.val) (h : Reachable (iterating reader) s) :
    Lossless reader s := by
  refine Reach.invariant (I := Lossless reader) ?_ ?_ h
  · rintro s ⟨hknown, hstart, hpages, hever, hreturned⟩
    refine ⟨hknown, hstart.le, by rw [hever]; exact List.Subset.refl _, ?_, ?_, ?_, ?_⟩
    · rw [hreturned]
      exact List.Pairwise.nil
    · rw [hreturned]
      exact fun row hrow => absurd hrow List.not_mem_nil
    · intro row _ _ hlt hle
      omega
    · rw [hpages, hreturned]
      rfl
  · intro s act t _ hs _ hstep
    cases act with
    | commit event eventId => exact (hs.commit hstep).1
    | prune ids => exact (hs.prune hstep).1
    | page now => exact hs.page hlimit hstep

theorem page_empty (hlimit : 1 ≤ reader.limit.val) (now : Int) :
    (reader.read s.store now s.cursor).entries = [] ↔
      ∀ row ∈ s.store.fanOutable, reader.wants row = true → row.seq ≤ s.place := by
  rw [Reader.read, List.map_eq_nil_iff]
  constructor
  · intro hnil row hrow hwants
    by_contra hmore
    obtain ⟨last, hlast, -⟩ := reader.rows_cover hlimit hrow hwants (not_le.mp hmore)
    rw [hnil] at hlast
    nomatch hlast
  · intro hall
    refine List.eq_nil_iff_forall_not_mem.mpr fun row hrow => ?_
    obtain ⟨hmem, hlt, hwants⟩ := Reader.mem_rows hrow
    exact absurd (hall row hmem hwants) (not_le.mpr hlt)

end Lossless

section Progress

variable {reader : Reader} {s t : Iteration} {row : Row}

/-- How many wanted rows come before this one is past, itself counted. -/
def rank (reader : Reader) (s : Iteration) (row : Row) : Nat :=
  (s.store.fanOutable.filter fun r =>
    reader.wants r && s.place < r.seq && r.seq ≤ row.seq).length

def isPage : Act → Bool
  | .page _ => true
  | _ => false

def Spares (row : Row) : Act → Prop
  | .prune ids => ∀ id, row.eventId = some id → id ∉ ids
  | _ => True

theorem Lossless.passed (h : Lossless reader s) (hrow : row ∈ s.store.fanOutable)
    (hwants : reader.wants row = true) (hstart : s.start < row.seq)
    (hrank : rank reader s row = 0) : row ∈ s.returned := by
  refine h.complete row hrow hwants hstart ?_
  by_contra hmore
  have hnone := List.filter_eq_nil_iff.mp (List.eq_nil_of_length_eq_zero hrank) row hrow
  simp [hwants, not_le.mp hmore] at hnone

theorem rank_table {store : Store} (hplace : t.place = s.place) (hstore : t.store = store)
    (hsub : (store.fanOutable.filter (·.seq ≤ row.seq)).Sublist s.store.fanOutable) :
    rank reader t row ≤ rank reader s row := by
  rw [rank, rank, hplace, hstore]
  have hfilter : store.fanOutable.filter (fun r =>
      reader.wants r && s.place < r.seq && r.seq ≤ row.seq) =
      (store.fanOutable.filter (·.seq ≤ row.seq)).filter fun r =>
        reader.wants r && s.place < r.seq && r.seq ≤ row.seq := by
    rw [List.filter_filter]
    refine List.filter_congr fun r _ => ?_
    cases decide (r.seq ≤ row.seq) <;> simp
  rw [hfilter]
  exact (hsub.filter _).length_le

theorem Lossless.rank_commit (h : Lossless reader s) (hrow : row ∈ s.store.fanOutable)
    {event : EventInsert} {eventId : Ulid}
    (hstep : s.step reader (.commit event eventId) = some t) :
    rank reader t row ≤ rank reader s row := by
  obtain ⟨⟨new, hrows, -, hnew⟩, -⟩ := commit_cases hstep
  refine rank_table (h.commit hstep).2 rfl ?_
  have hnone : (new.filter (·.eventId.isSome)).filter (·.seq ≤ row.seq) = [] := by
    refine List.filter_eq_nil_iff.mpr fun r hr => ?_
    have := hnew r (List.mem_filter.mp hr).1
    have := Store.seq_le_lastSeq hrow
    simp only [decide_eq_true_eq]
    omega
  rw [Store.fanOutable, hrows, List.filter_append, List.filter_append, hnone, List.append_nil]
  exact List.filter_sublist

theorem Lossless.rank_prune (h : Lossless reader s) {ids : List Ulid}
    (hstep : s.step reader (.prune ids) = some t) : rank reader t row ≤ rank reader s row := by
  refine rank_table (h.prune hstep).2 rfl (List.filter_sublist.trans ?_)
  obtain ⟨-, rfl⟩ := prune_cases hstep
  exact List.filter_sublist.filter _

theorem Lossless.rank_page (h : Lossless reader s) (hlimit : 1 ≤ reader.limit.val)
    (hrow : row ∈ s.store.fanOutable) (hwants : reader.wants row = true) {now : Int}
    (hstep : s.step reader (.page now) = some t) :
    rank reader t row = 0 ∨ rank reader t row < rank reader s row := by
  obtain ⟨hafter, hforth, -⟩ := page_after h.known hstep
  have hstore : t.store = s.store := by rw [page_cases hstep]
  by_cases hmore : t.place < row.seq
  · refine .inr ?_
    obtain ⟨last, hlast, -⟩ :=
      reader.rows_cover hlimit hrow hwants (lt_of_le_of_lt hforth hmore)
    obtain ⟨hmem, hlt, hwant⟩ := Reader.mem_rows (List.mem_of_getLast? hlast)
    have hseq : t.place = last.seq := by
      rw [hafter, hlast]
      rfl
    have hcounted : last ∈ s.store.fanOutable.filter fun r =>
        reader.wants r && s.place < r.seq && r.seq ≤ row.seq := by
      have hlast_lt : s.place < last.seq := hlt
      simp [hmem, hwant, hlast_lt, hseq ▸ hmore.le]
    have hfilter : t.store.fanOutable.filter (fun r =>
        reader.wants r && t.place < r.seq && r.seq ≤ row.seq) =
        (s.store.fanOutable.filter fun r =>
          reader.wants r && s.place < r.seq && r.seq ≤ row.seq).filter (t.place < ·.seq) := by
      rw [List.filter_filter, hstore]
      refine List.filter_congr fun r _ => ?_
      by_cases hr : t.place < r.seq
      · simp [hr, lt_of_le_of_lt hforth hr]
      · simp [hr]
    rw [rank, rank, hfilter, List.length_filter_lt_length_iff_exists]
    exact ⟨last, hcounted, by simp [hseq]⟩
  · refine .inl ?_
    rw [rank, List.length_eq_zero_iff, List.filter_eq_nil_iff]
    intro r _
    simp only [Bool.and_eq_true, decide_eq_true_eq]
    omega

theorem step_keeps {act : Act} (hrow : row ∈ s.store.fanOutable) (hspares : Spares row act)
    (hstep : s.step reader act = some t) : row ∈ t.store.fanOutable ∧ t.start = s.start := by
  cases act with
  | commit event eventId =>
    obtain ⟨hgrows, ht⟩ := commit_cases hstep
    exact ⟨hgrows.fanOutable_subset hrow, by rw [ht]⟩
  | prune ids =>
    obtain ⟨-, rfl⟩ := prune_cases hstep
    obtain ⟨hmem, hsome⟩ := Store.mem_fanOutable.mp hrow
    exact ⟨Store.mem_fanOutable.mpr ⟨mem_deleteIds.mpr ⟨hmem, hspares⟩, hsome⟩, rfl⟩
  | page now =>
    rw [page_cases hstep]
    exact ⟨hrow, rfl⟩

/-- As many pages as there are wanted rows up to a row return it, whatever comes and goes between
them. -/
theorem Lossless.returns (h : Lossless reader s) (hlimit : 1 ≤ reader.limit.val)
    (hrow : row ∈ s.store.fanOutable) (hwants : reader.wants row = true)
    (hstart : s.start < row.seq) {acts : List Act} (hspares : ∀ act ∈ acts, Spares row act)
    (hrun : (iterating reader).exec s acts = some t)
    (hpages : rank reader s row ≤ acts.countP isPage) : row ∈ t.returned := by
  induction acts generalizing s with
  | nil =>
    obtain rfl := Option.some.inj hrun
    exact h.passed hrow hwants hstart (Nat.le_zero.mp hpages)
  | cons act rest ih =>
    simp only [System.exec, Option.bind_eq_some_iff] at hrun
    obtain ⟨u, hstep, hrest⟩ := hrun
    obtain ⟨hkept, hsame⟩ := step_keeps hrow (hspares act List.mem_cons_self) hstep
    have hlater := fun act hact => hspares act (List.mem_cons_of_mem _ hact)
    rw [← hsame] at hstart
    cases act with
    | commit event eventId =>
      exact ih (h.commit hstep).1 hkept hstart hlater hrest
        ((h.rank_commit hrow hstep).trans hpages)
    | prune ids =>
      exact ih (h.prune hstep).1 hkept hstart hlater hrest ((h.rank_prune hstep).trans hpages)
    | page now =>
      have hpassed := h.rank_page hlimit hrow hwants hstep
      rw [List.countP_cons_of_pos rfl] at hpages
      exact ih (h.page hlimit hstep) hkept hstart hlater hrest (by omega)

/-- What the caller of such a reader gets over all its runs. -/
structure PagesAll (reader : Reader) : Prop where
  lossless : ∀ s, Reachable (iterating reader) s → Lossless reader s
  empty : ∀ s now, Reachable (iterating reader) s →
    ((reader.read s.store now s.cursor).entries = [] ↔
      ∀ row ∈ s.store.fanOutable, reader.wants row = true → row.seq ≤ s.place)
  returns : ∀ s t row acts, Reachable (iterating reader) s → row ∈ s.store.fanOutable →
    reader.wants row = true → s.start < row.seq → (∀ act ∈ acts, Spares row act) →
    (iterating reader).exec s acts = some t → rank reader s row ≤ acts.countP isPage →
    row ∈ t.returned

theorem pagesAll (hlimit : 1 ≤ reader.limit.val) : PagesAll reader where
  lossless _ h := lossless hlimit h
  empty _ now _ := page_empty hlimit now
  returns _ _ _ _ h hrow hwants hstart hspares hrun hpages :=
    (lossless hlimit h).returns hlimit hrow hwants hstart hspares hrun hpages

theorem blocking_reads {first second : Reading} {reachable : Bool} {arguments : TailArguments}
    {page : Page} (h : tailEventsBlocking first second reachable arguments = .ok page) :
    page = tailEventsRead first.db first.now arguments ∨
      page = tailEventsRead second.db second.now arguments := by
  simp only [tailEventsBlocking] at h
  split_ifs at h
  · exact .inl (Except.ok.inj h).symm
  · exact .inr (Except.ok.inj h).symm
  · exact .inl (Except.ok.inj h).symm

/-- Paging through either tool returns each wanted row once and in order, and a page is empty only
at the end of the table. -/
theorem paging_lossless :
    (∀ arguments : TailArguments, 1 ≤ arguments.limit.val → PagesAll (tailReader arguments) ∧
      (∀ store now, tailEventsRead (some store) now arguments =
        (tailReader arguments).read store now arguments.sinceCursor) ∧
      ∀ first second reachable page,
        tailEventsBlocking first second reachable arguments = .ok page →
          page = tailEventsRead first.db first.now arguments ∨
            page = tailEventsRead second.db second.now arguments) ∧
    (∀ agent (limit : SqlInt), 1 ≤ limit.val → PagesAll (inboxReader agent limit) ∧
      ∀ store now since, readAgentMessagesImpl (some store) now agent since limit =
        (inboxReader agent limit).read store now since) :=
  ⟨fun arguments hlimit => ⟨pagesAll hlimit, fun store now => tailEventsRead_eq store now arguments,
      fun _ _ _ _ => blocking_reads⟩,
    fun agent limit hlimit => ⟨pagesAll hlimit, fun store now since =>
      readAgentMessagesImpl_eq store now agent since limit⟩⟩

theorem one_int64 : -2 ^ 63 ≤ (1 : Int) ∧ (1 : Int) < 2 ^ 63 := by decide

def sampleArguments : TailArguments where
  repo := none
  sinceCursor := none
  limit := ⟨1, one_int64⟩
  maxWaitSeconds := 0
  eventTypes := some ["agent_message"]

def sampleIteration : Iteration where
  store := sampleStore 2
  cursor := none
  pages := []
  start := 0
  ever := (sampleStore 2).rows
  returned := []

/-- Two pages of one row. -/
theorem paging_lossless_run : ∃ t,
    (iterating (tailReader sampleArguments)).exec sampleIteration [.page 0, .page 0] = some t ∧
      ∀ row ∈ (sampleStore 2).fanOutable, row ∈ t.returned := by
  obtain ⟨t, hrun⟩ : ∃ t, (iterating (tailReader sampleArguments)).exec sampleIteration
      [.page 0, .page 0] = some t := ⟨_, rfl⟩
  have hstart : Reachable (iterating (tailReader sampleArguments)) sampleIteration :=
    .start ⟨.inl rfl, rfl, rfl, rfl, rfl⟩
  refine ⟨t, hrun, fun row hrow => ?_⟩
  have hfits : ∀ row ∈ (sampleStore 2).fanOutable, (tailReader sampleArguments).wants row = true ∧
      0 < row.seq ∧ rank (tailReader sampleArguments) sampleIteration row ≤ 2 := by decide
  obtain ⟨hwants, hpos, hrank⟩ := hfits row hrow
  refine (paging_lossless.1 sampleArguments (by decide)).1.returns _ t row _ hstart hrow hwants
    hpos ?_ hrun hrank
  simp [Spares]

end Progress

end Waitbus.Paging
