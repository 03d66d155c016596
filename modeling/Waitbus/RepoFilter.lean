import Waitbus.CiStatus
import Waitbus.Paging

/-! The repository that a read asks for. A text that is not `owner/name` counts as no filter at all,
and the read then returns the rows of every repository. -/

namespace Waitbus.RepoFilter
open Python FrameCodec EventStore McpReads CiStatus
open Subscriptions (segments segments_eq_pair)

section Model

/-- A read that filters by repository; the repository is given beside it. -/
inductive Query where
  | getCiStatus
  | listFailedJobs (limit : SqlInt)
  | tailEvents (arguments : TailArguments)

/-- What the query shows of the database as one reading finds it. -/
def Query.read (H : Host) (reading : Reading) (repo : Option PyStr) : Query → List Dict
  | .getCiStatus => (toolGetCiStatusImpl H reading.db reading.now repo).runs
  | .listFailedJobs limit => (toolListFailedJobsImpl H reading.db reading.now repo limit).jobs
  | .tailEvents arguments => (tailEventsRead reading.db reading.now { arguments with repo }).entries

/-- The answer of the tool; only `tail_events` may read a second time. -/
def Query.answer (H : Host) (first second : Reading) (reachable : Bool) (repo : Option PyStr) :
    Query → Except PyExc (List Dict)
  | .tailEvents arguments =>
    (tailEventsBlocking first second reachable { arguments with repo }).map (·.entries)
  | query => .ok (query.read H first repo)

def Query.shows : Query → Row → Dict
  | .getCiStatus => rowToRunStatus
  | .listFailedJobs _ => rowToJobStatus
  | .tailEvents _ => eventRowToDict

def Query.asks (store : Store) : Query → Row → Bool
  | .getCiStatus, row => row.eventType = "workflow_run"
  | .listFailedJobs _, row => row.eventType = "workflow_job" ∧ row.conclusion = some "failure"
  | .tailEvents arguments, row =>
    row.eventId.isSome && store.seqForEventId (arguments.sinceCursor.getD "") < row.seq &&
      eventTypeFilter (arguments.eventTypes.getD []) row

/-- `LIMIT 0`. -/
def Query.capped : Query → Bool
  | .getCiStatus => false
  | .listFailedJobs limit => limit.val = 0
  | .tailEvents arguments => arguments.limit.val = 0

def Query.Bare (query : Query) (reading : Reading) : Prop :=
  query.capped = true ∨ ∀ store ∈ reading.db, ∀ row ∈ store.rows, query.asks store row = false

/-- The call is refused, or nothing is there each time that it reads. -/
def Query.Silent (first second : Reading) (reachable : Bool) : Query → Prop
  | .tailEvents arguments =>
    arguments.maxWaitSeconds > tailEventsMaxWaitCapSeconds ∨
      Query.Bare (.tailEvents arguments) first ∧ (arguments.maxWaitSeconds ≤ 0 ∨
        reachable = false ∨ Query.Bare (.tailEvents arguments) second)
  | query => query.Bare first

/-- The text is `owner/name`. -/
def Names (text owner name : PyStr) : Prop :=
  text = owner ++ .scalar '/' :: name ∧ owner ≠ [] ∧ name ≠ [] ∧
    .scalar '/' ∉ owner ∧ .scalar '/' ∉ name

/-- The entry shows a row, of the table as it was read, that is in the repository the text names. -/
def Query.Belongs (query : Query) (repo : PyStr) (reading : Reading) (entry : Dict) : Prop :=
  ∃ store ∈ reading.db, ∃ row ∈ store.rows,
    Names repo (ofText row.owner) (ofText row.repo) ∧ entry = query.shows row

/-- The answer shows no row but those of the repository that the text names. -/
def Query.NeverWidened (query : Query) (H : Host) (first second : Reading) (reachable : Bool)
    (repo : PyStr) : Prop :=
  ∀ entries, query.answer H first second reachable (some repo) = .ok entries →
    ∀ entry ∈ entries, query.Belongs repo first entry ∨ query.Belongs repo second entry

end Model

section Reads

variable {H : Host} {query : Query} {reading first second : Reading} {reachable : Bool}
  {repo : PyStr} {split : PyStr × PyStr}

theorem splitRepo_eq_some :
    splitRepo (some repo) = some split ↔ Names repo split.1 split.2 := by
  obtain ⟨owner, name⟩ := split
  simp only [splitRepo, Option.map_some]
  constructor
  · intro h
    split at h
    · rename_i a b hparts
      obtain ⟨ha, hb, heq⟩ := segments_eq_pair.mp (Option.some.inj hparts)
      obtain ⟨hne, hpair⟩ := Option.ite_none_right_eq_some.mp h
      obtain ⟨rfl, rfl⟩ := Prod.mk.inj (Option.some.inj hpair)
      exact ⟨heq, hne.1, hne.2, ha, hb⟩
    · nomatch h
  · rintro ⟨heq, howner, hname, ha, hb⟩
    rw [segments_eq_pair.mpr ⟨ha, hb, heq⟩]
    exact if_pos ⟨howner, hname⟩

theorem splitRepo_eq_none (h : ¬∃ owner name, Names repo owner name) :
    splitRepo (some repo) = none :=
  Option.eq_none_iff_forall_ne_some.mpr fun split hsplit =>
    h ⟨split.1, split.2, splitRepo_eq_some.mp hsplit⟩

theorem names_of_ofRepo {row : Row} (hnames : Names repo split.1 split.2)
    (h : ofRepo split row = true) : Names repo (ofText row.owner) (ofText row.repo) := by
  obtain ⟨howner, hrepo⟩ := of_decide_eq_true h
  rwa [howner, hrepo]

theorem read_named (hsplit : splitRepo (some repo) = some split) :
    ∀ entry ∈ query.read H reading (some repo), query.Belongs repo reading entry := by
  have hnames := splitRepo_eq_some.mp hsplit
  have hshown : ∀ (store : Store) (rows : List Row), reading.db = some store →
      (∀ row ∈ rows, row ∈ store.rows ∧ ofRepo split row = true) →
      ∀ entry ∈ rows.map query.shows, query.Belongs repo reading entry := by
    intro store rows hdb hrows entry hentry
    obtain ⟨row, hrow, rfl⟩ := List.mem_map.mp hentry
    obtain ⟨hmem, hof⟩ := hrows row hrow
    exact ⟨store, hdb, row, hmem, names_of_ofRepo hnames hof, rfl⟩
  obtain ⟨db, now⟩ := reading
  cases db with
  | none => cases query <;> exact fun entry hentry => absurd hentry List.not_mem_nil
  | some store =>
    cases query with
    | getCiStatus =>
      refine hshown store (statusRows H store (some repo)) rfl fun row hrow => ?_
      rw [statusRows_some hsplit] at hrow
      obtain ⟨hrun, hof⟩ :=
        List.mem_filter.mp ((H.sort_perm _ _).mem_iff.mp (List.mem_of_mem_take hrow))
      exact ⟨List.mem_of_mem_filter hrun, hof⟩
    | listFailedJobs limit =>
      refine hshown store (failedJobRows H store (some repo) limit) rfl fun row hrow => ?_
      rw [failedJobRows, hsplit] at hrow
      obtain ⟨hjob, hof⟩ := List.mem_filter.mp ((H.sort_perm _ _).mem_iff.mp (sqlLimit_subset hrow))
      exact ⟨List.mem_of_mem_filter hjob, hof⟩
    | tailEvents arguments =>
      refine hshown store (tailRows store { arguments with repo := some repo }) rfl
        fun row hrow => ?_
      obtain ⟨hfan, hasked⟩ := List.mem_filter.mp (sqlLimit_subset hrow)
      rw [hsplit] at hasked
      simp only [Option.map_some, Option.getD_some, Bool.and_eq_true] at hasked
      exact ⟨List.mem_of_mem_filter hfan, hasked.1.2⟩

theorem sqlLimit_eq_nil {limit : SqlInt} {rows : List Row} :
    sqlLimit limit rows = [] ↔ limit.val = 0 ∨ rows = [] := by
  rw [sqlLimit]
  split
  · constructor
    · exact .inr
    · rintro (hzero | hnil)
      · omega
      · exact hnil
  · rw [List.take_eq_nil_iff]
    refine or_congr_left ⟨fun h => ?_, fun h => ?_⟩ <;> omega

theorem read_widened (hsplit : splitRepo (some repo) = none) :
    query.read H reading (some repo) = [] ↔ query.Bare reading := by
  have hsort : ∀ le rows, H.sort le rows = [] ↔ rows = [] := fun le rows =>
    ⟨fun h => List.nil_perm.mp (h ▸ H.sort_perm le rows), fun h =>
      List.perm_nil.mp (h ▸ H.sort_perm le rows)⟩
  obtain ⟨db, now⟩ := reading
  cases db with
  | none => cases query <;> exact ⟨fun _ => .inr (by simp), fun _ => rfl⟩
  | some store =>
    have hasked : (∀ s ∈ some store, ∀ row ∈ s.rows, query.asks s row = false) ↔
        store.rows.filter (query.asks store) = [] := by
      rw [List.filter_eq_nil_iff]
      exact ⟨fun h row hrow => by rw [h store rfl row hrow]; exact Bool.false_ne_true,
        fun h s hs row hrow => by
          obtain rfl := Option.some.inj hs
          exact eq_false_of_ne_true (h row hrow)⟩
    rw [Query.Bare, hasked]
    cases query with
    | getCiStatus =>
      rw [Query.read, toolGetCiStatusImpl, List.map_eq_nil_iff, statusRows_none hsplit, hsort]
      constructor
      · refine fun h => .inr (List.eq_nil_iff_forall_not_mem.mpr fun row hrow => ?_)
        obtain ⟨newest, hnewest, -⟩ := exists_newest hrow
        have hmem := List.mem_filter.mpr ⟨List.mem_of_mem_filter hnewest, latest_of_newest hnewest⟩
        rw [h] at hmem
        cases hmem
      · rintro (hzero | hnil)
        · cases hzero
        · rw [show runRows store = [] from hnil, List.filter_nil]
    | listFailedJobs limit =>
      rw [Query.read, toolListFailedJobsImpl, List.map_eq_nil_iff, failedJobRows, hsplit,
        sqlLimit_eq_nil, hsort, Query.capped, decide_eq_true_eq]
      rfl
    | tailEvents arguments =>
      rw [Query.read, tailEventsRead, List.map_eq_nil_iff, tailRows, sqlLimit_eq_nil, hsplit,
        Query.capped, decide_eq_true_eq, Store.fanOutable, List.filter_filter]
      refine or_congr_right (iff_of_eq (congrArg (· = []) (List.filter_congr fun row _ => ?_)))
      rw [Query.asks, Option.map_none, Option.getD_none, Bool.and_true, Bool.and_comm,
        Bool.and_assoc]

theorem answer_tailEvents {arguments : TailArguments} :
    Query.answer H first second reachable (some repo) (.tailEvents arguments) =
      if arguments.maxWaitSeconds > tailEventsMaxWaitCapSeconds then .error .valueError
      else if Query.read H first (some repo) (.tailEvents arguments) ≠ [] ∨
          arguments.maxWaitSeconds ≤ 0 ∨ reachable = false then
        .ok (Query.read H first (some repo) (.tailEvents arguments))
      else .ok (Query.read H second (some repo) (.tailEvents arguments)) := by
  rw [Query.answer, tailEventsBlocking, Query.read]
  cases reachable <;> dsimp only <;> split_ifs <;> simp_all [Except.map, Query.read]; omega

theorem belongs_iff (hreading : reading = first ∨ reading = second) :
    (∀ entry ∈ query.read H reading (some repo),
      query.Belongs repo first entry ∨ query.Belongs repo second entry) ↔
    (∃ owner name, Names repo owner name) ∨ query.Bare reading := by
  constructor
  · refine fun h => or_iff_not_imp_left.mpr fun hno => ?_
    have hnil : query.read H reading (some repo) = [] :=
      List.eq_nil_iff_forall_not_mem.mpr fun entry hentry => by
        rcases h entry hentry with ⟨-, -, row, -, hnames, -⟩ | ⟨-, -, row, -, hnames, -⟩
        all_goals exact hno ⟨_, _, hnames⟩
    exact (read_widened (splitRepo_eq_none hno)).mp hnil
  · intro h entry hentry
    by_cases hnamed : ∃ owner name, Names repo owner name
    · obtain ⟨owner, name, hnames⟩ := hnamed
      have hsplit : splitRepo (some repo) = some (owner, name) := splitRepo_eq_some.mpr hnames
      have hbelongs := read_named hsplit entry hentry
      rcases hreading with rfl | rfl
      · exact .inl hbelongs
      · exact .inr hbelongs
    · rw [(read_widened (splitRepo_eq_none hnamed)).mpr (h.resolve_left hnamed)] at hentry
      nomatch hentry

/-- The filter is kept to exactly when the text names a repository, or there is nothing that the
query is after in any. -/
theorem repo_never_widened_iff (query : Query) (H : Host) (first second : Reading)
    (reachable : Bool) (repo : PyStr) : query.NeverWidened H first second reachable repo ↔
      (∃ owner name, Names repo owner name) ∨ query.Silent first second reachable := by
  have hok : ∀ {reading : Reading}, reading = first ∨ reading = second →
      ((∀ entries, (.ok (query.read H reading (some repo)) : Except PyExc _) = .ok entries →
        ∀ entry ∈ entries, query.Belongs repo first entry ∨ query.Belongs repo second entry) ↔
      (∃ owner name, Names repo owner name) ∨ query.Bare reading) := fun hreading =>
    ⟨fun h => (belongs_iff hreading).mp (h _ rfl),
      fun h entries heq => Except.ok.inj heq ▸ (belongs_iff hreading).mpr h⟩
  cases query with
  | getCiStatus => exact hok (.inl rfl)
  | listFailedJobs limit => exact hok (.inl rfl)
  | tailEvents arguments =>
    rw [Query.NeverWidened, answer_tailEvents, Query.Silent]
    split_ifs with hcap hfirst
    · exact ⟨fun _ => .inr (.inl hcap), fun _ => nofun⟩
    · rw [hok (.inl rfl)]
      constructor
      · rintro (hnamed | hbare)
        · exact .inl hnamed
        · rcases hfirst with hshown | hwait | hreach
          · by_cases hnamed : ∃ owner name, Names repo owner name
            · exact .inl hnamed
            · exact absurd ((read_widened (splitRepo_eq_none hnamed)).mpr hbare) hshown
          · exact .inr (.inr ⟨hbare, .inl hwait⟩)
          · exact .inr (.inr ⟨hbare, .inr (.inl hreach)⟩)
      · rintro (hnamed | hcap' | ⟨hbare, -⟩)
        · exact .inl hnamed
        · exact absurd hcap' hcap
        · exact .inr hbare
    · rw [hok (.inr rfl)]
      obtain ⟨hshown, hwait, hreach⟩ := by simpa only [not_or, not_not] using hfirst
      refine or_congr_right' fun hno => ?_
      have hbare := (read_widened (splitRepo_eq_none hno)).mp hshown
      constructor
      · exact fun hsecond => .inr ⟨hbare, .inr (.inr hsecond)⟩
      · rintro (hcap' | ⟨-, hwait' | hreach' | hsecond⟩)
        · exact absurd hcap' hcap
        · exact absurd hwait' hwait
        · exact absurd hreach' hreach
        · exact hsecond

def sampleFailed : Store :=
  (Store.empty.insertAll [({ sampleEvent 1 with
    eventType := "workflow_job", conclusion := some "failure" }, ulidAt 1)]).toOption.elim
    .empty (·.2)

/-- `waitbus` names no repository, and the failed job of one is returned for it. -/
theorem repo_widened : ¬Query.NeverWidened (.listFailedJobs ⟨20, by decide⟩) Host.reference
    ⟨some sampleFailed, 0⟩ ⟨none, 0⟩ false (ofText "waitbus") := by
  intro h
  rcases (belongs_iff (.inl rfl)).mp (h _ rfl) with ⟨owner, name, hnames⟩ | hzero | hnone
  · exact absurd (hnames.1 ▸ List.mem_append_right _ List.mem_cons_self)
      (by decide : PyChar.scalar '/' ∉ ofText "waitbus")
  · exact absurd hzero (by decide)
  · exact absurd (hnone sampleFailed rfl _ List.mem_cons_self) (by decide)

end Reads

end Waitbus.RepoFilter
