import Waitbus.CiStatus

/-! The monitor of pull requests. Its query takes one row of each job by the time of receipt alone,
so that where two rows of a job share the latest time SQLite may pick either; the loop around it
prints a line for each key that it has not printed last. -/

namespace Waitbus.PrMonitor
open FrameCodec EventStore McpReads CiStatus

section Aggregation

def failureConclusions : List String := ["failure", "cancelled", "timed_out"]

def successConclusion : String := "success"

inductive AggState where
  | noJobs
  | fail
  | allGreen
  | pending
  deriving DecidableEq

def AggState.text : AggState → String
  | .noJobs => "NO_JOBS"
  | .fail => "FAIL"
  | .allGreen => "ALL_GREEN"
  | .pending => "PENDING"

def failed (row : Row) : Bool :=
  row.conclusion.any (· ∈ failureConclusions)

def green (row : Row) : Bool :=
  row.status = some "completed" && row.conclusion = some successConclusion

/-- The `WHERE` clause of `latest`. -/
def jobRows (store : Store) (owner repo sha : String) : List Row :=
  store.rows.filter fun row =>
    row.eventType = "workflow_job" ∧ row.headSha = some sha ∧ row.owner = owner ∧ row.repo = repo

def jobIds (rows : List Row) : List (Option SqlInt) :=
  (rows.map (·.jobId)).dedup

/-- The rows of `latest` under `rn = 1`. -/
def picked (H : Host) (rows : List Row) : List Row :=
  (jobIds rows).filterMap fun jobId =>
    (H.sort newestFirst (rows.filter (·.jobId = jobId))).head?

/-- A row of the query's result. -/
structure Aggregate where
  state : AggState
  jobs : Nat
  passed : Nat
  failed : Nat

def aggSql (rows : List Row) : Aggregate where
  state :=
    if rows.length = 0 then .noJobs
    else if rows.countP failed > 0 then .fail
    else if rows.countP green = rows.length then .allGreen
    else .pending
  jobs := rows.length
  passed := rows.countP green
  failed := rows.countP failed

def aggregate (H : Host) (store : Store) (owner repo sha : String) : Aggregate :=
  aggSql (picked H (jobRows store owner repo sha))

/-- Of each job the last committed of its rows with the latest time of receipt. -/
def latestRows (rows : List Row) : List Row :=
  rows.filter fun e => rows.all fun row => row.jobId ≠ e.jobId || rank row ≤ rank e

/-- What the state says of the jobs' latest rows. -/
structure StateRight (state : AggState) (rows : List Row) : Prop where
  fail : state = .fail ↔ ∃ row ∈ latestRows rows, failed row
  allGreen : state = .allGreen ↔ rows ≠ [] ∧ ∀ row ∈ latestRows rows, green row
  noJobs : state = .noJobs ↔ rows = []
  pending : state = .pending ↔ rows ≠ [] ∧ (∀ row ∈ latestRows rows, ¬failed row) ∧
    ∃ row ∈ latestRows rows, ¬green row

def tiedRows (rows : List Row) : List Row :=
  rows.filter fun e => rows.all fun row =>
    row.jobId ≠ e.jobId || row.receivedAt.val ≤ e.receivedAt.val

/-- Some job has failed in all of its tied rows; or none has in any, and all the tied rows are
green or some job is green in none of its own. -/
def Settled (rows : List Row) : Prop :=
  (∃ e ∈ tiedRows rows, ∀ row ∈ tiedRows rows, row.jobId = e.jobId → failed row) ∨
    (∀ row ∈ tiedRows rows, ¬failed row) ∧ ((∀ row ∈ tiedRows rows, green row) ∨
      ∃ e ∈ tiedRows rows, ∀ row ∈ tiedRows rows, row.jobId = e.jobId → ¬green row)

end Aggregation

section Loop

structure Watched where
  owner : String
  repo : String
  prs : List Int
  nodup : prs.Nodup

/-- The pull requests are `sorted(set(args.pr))`. -/
def watched (owner repo : String) (args : List Int) : Watched where
  owner := owner
  repo := repo
  prs := args.dedup.insertionSort (· ≤ ·)
  nodup := (List.perm_insertionSort (· ≤ ·) args.dedup).nodup_iff.mpr (List.nodup_dedup args)

/-- What a tick reads; each of its aggregates is a statement of its own. -/
structure Reads where
  store : Int → Store
  prSha : Int → Option String

structure Monitor where
  prState : Int → Option String
  observed : Int → Bool

def Monitor.initial : Monitor :=
  ⟨fun _ => none, fun _ => false⟩

/-- A line that is printed, with the key it stands for. -/
structure Line where
  pr : Int
  key : String
  text : String

/-- `sha[:7]`. -/
def short (sha : String) : String :=
  String.ofList (sha.toList.take 7)

def keyOf (sha : String) (agg : Aggregate) : String :=
  short sha ++ "|" ++ agg.state.text ++ "|" ++ toString agg.jobs ++ "|" ++ toString agg.passed ++
    "|" ++ toString agg.failed

def lineText (pr : Int) (sha : String) (agg : Aggregate) : String :=
  "PR#" ++ toString pr ++ " sha=" ++ short sha ++ " " ++ agg.state.text ++ " jobs=" ++
    toString agg.jobs ++ " pass=" ++ toString agg.passed ++ " fail=" ++ toString agg.failed

/-- The locals of `tick`, and what it has printed. -/
structure Pass where
  monitor : Monitor
  anyPending : Bool
  allObserved : Bool
  lines : List Line

/-- `not sha` is false. -/
def shaOf (reads : Reads) (pr : Int) : Option String :=
  (reads.prSha pr).filter (· ≠ "")

def Pass.visit (H : Host) (w : Watched) (reads : Reads) (p : Pass) (pr : Int) : Pass :=
  match shaOf reads pr with
  | none => { p with allObserved := false }
  | some sha =>
    let agg := aggregate H (reads.store pr) w.owner w.repo sha
    let key := keyOf sha agg
    let p := if agg.state = .pending ∨ agg.state = .noJobs then { p with anyPending := true } else p
    if ¬p.monitor.observed pr ∨ p.monitor.prState pr ≠ some key then
      { p with
        monitor := {
          prState := Function.update p.monitor.prState pr (some key)
          observed := Function.update p.monitor.observed pr true }
        lines := p.lines ++ [⟨pr, key, lineText pr sha agg⟩] }
    else p

def Monitor.pass (H : Host) (w : Watched) (m : Monitor) (reads : Reads) : Pass :=
  w.prs.foldl (Pass.visit H w reads) ⟨m, false, true, []⟩

/-- What `tick` returns. -/
def Pass.done (p : Pass) : Bool :=
  p.allObserved && !p.anyPending

/-- The monitor after these ticks and the lines that they printed, oldest first. -/
def run (H : Host) (w : Watched) (ticks : List Reads) : Monitor × List Line :=
  ticks.foldl (fun s reads =>
    let p := s.1.pass H w reads
    (p.monitor, s.2 ++ p.lines)) (.initial, [])

def lastKey (lines : List Line) (pr : Int) : Option String :=
  (lines.filter (·.pr = pr)).getLast?.map (·.key)

/-- A tick after these lines prints what differs from them, and is done when all have ended. -/
structure TickRight (H : Host) (w : Watched) (lines : List Line) (reads : Reads) (p : Pass) :
    Prop where
  prints : ∀ line, line ∈ p.lines ↔ line.pr ∈ w.prs ∧ ∃ sha ∈ shaOf reads line.pr,
    let agg := aggregate H (reads.store line.pr) w.owner w.repo sha
    line = ⟨line.pr, keyOf sha agg, lineText line.pr sha agg⟩ ∧
      lastKey lines line.pr ≠ some line.key
  once : (p.lines.map (·.pr)).Nodup
  done : p.done = true ↔ ∀ pr ∈ w.prs, ∃ sha ∈ shaOf reads pr,
    (aggregate H (reads.store pr) w.owner w.repo sha).state = .fail ∨
      (aggregate H (reads.store pr) w.owner w.repo sha).state = .allGreen

end Loop

section States

variable {rows l : List Row}

theorem not_green_of_failed {row : Row} (h : failed row = true) : green row = false := by
  cases hc : row.conclusion with
  | none => simp [failed, hc] at h
  | some conclusion =>
    have hne : conclusion ≠ successConclusion := by
      rintro rfl
      rw [failed, hc] at h
      revert h
      decide
    simp [green, hc, hne]

theorem aggSql_cases (l : List Row) :
    (l = [] ∧ (aggSql l).state = .noJobs) ∨
    ((∃ row ∈ l, failed row) ∧ (aggSql l).state = .fail) ∨
    (l ≠ [] ∧ (∀ row ∈ l, ¬failed row) ∧ (∀ row ∈ l, green row) ∧
      (aggSql l).state = .allGreen) ∨
    (l ≠ [] ∧ (∀ row ∈ l, ¬failed row) ∧ (∃ row ∈ l, ¬green row) ∧
      (aggSql l).state = .pending) := by
  rcases List.eq_nil_or_concat l with rfl | hne
  · exact .inl ⟨rfl, rfl⟩
  have hne : l ≠ [] := by
    rintro rfl
    obtain ⟨init, last, h⟩ := hne
    exact absurd h.symm (by simp)
  have hlen : l.length ≠ 0 := fun h => hne (List.length_eq_zero_iff.mp h)
  refine .inr ?_
  simp only [aggSql, if_neg hlen]
  by_cases hfail : l.countP failed > 0
  · exact .inl ⟨List.countP_pos_iff.mp hfail, if_pos hfail⟩
  have hnone : ∀ row ∈ l, ¬failed row :=
    List.countP_eq_zero.mp (Nat.eq_zero_of_not_pos hfail)
  rw [if_neg hfail]
  by_cases hgreen : l.countP green = l.length
  · exact .inr (.inl ⟨hne, hnone, List.countP_eq_length.mp hgreen, if_pos hgreen⟩)
  · refine .inr (.inr ⟨hne, hnone, ?_, if_neg hgreen⟩)
    by_contra hall
    exact hgreen (List.countP_eq_length.mpr fun row hrow => by_contra fun h => hall ⟨row, hrow, h⟩)

theorem state_fail (h : ∃ row ∈ l, failed row) : (aggSql l).state = .fail := by
  obtain ⟨row, hrow, hfailed⟩ := h
  rcases aggSql_cases l with ⟨rfl, -⟩ | ⟨-, hstate⟩ | ⟨-, hnone, -⟩ | ⟨-, hnone, -⟩
  · nomatch hrow
  · exact hstate
  · exact absurd hfailed (hnone row hrow)
  · exact absurd hfailed (hnone row hrow)

theorem state_pending (hnone : ∀ row ∈ l, ¬failed row) (h : ∃ row ∈ l, ¬green row) :
    (aggSql l).state = .pending := by
  obtain ⟨row, hrow, hgreen⟩ := h
  rcases aggSql_cases l with ⟨rfl, -⟩ | ⟨⟨r, hr, hfailed⟩, -⟩ | ⟨-, -, hall, -⟩ | ⟨-, -, -, hstate⟩
  · nomatch hrow
  · exact absurd hfailed (hnone r hr)
  · exact absurd (hall row hrow) hgreen
  · exact hstate

theorem state_green (hnone : ∀ row ∈ l, ¬failed row) (h : ∀ row ∈ l, green row) :
    (aggSql l).state = if l = [] then .noJobs else .allGreen := by
  rcases aggSql_cases l with ⟨rfl, hstate⟩ | ⟨⟨r, hr, hfailed⟩, -⟩ | ⟨hne, -, -, hstate⟩ |
    ⟨-, -, ⟨r, hr, hgreen⟩, -⟩
  · rw [hstate, if_pos rfl]
  · exact absurd hfailed (hnone r hr)
  · rw [hstate, if_neg hne]
  · exact absurd (h r hr) hgreen

end States

section Picks

variable {H : Host} {rows l : List Row} {e row : Row}

theorem mem_latestRows : e ∈ latestRows rows ↔ e ∈ rows ∧
    ∀ row ∈ rows, row.jobId = e.jobId → rank row ≤ rank e := by
  simp [latestRows, imp_iff_not_or]

theorem mem_tiedRows : e ∈ tiedRows rows ↔ e ∈ rows ∧
    ∀ row ∈ rows, row.jobId = e.jobId → row.receivedAt.val ≤ e.receivedAt.val := by
  simp [tiedRows, imp_iff_not_or]

/-- One of the tied rows of each job. -/
structure Represents (l rows : List Row) : Prop where
  tied : ∀ row ∈ l, row ∈ tiedRows rows
  each : ∀ e ∈ rows, ∃ row ∈ l, row.jobId = e.jobId

theorem represents_latest (rows : List Row) : Represents (latestRows rows) rows where
  tied := by
    intro row hrow
    obtain ⟨hmem, hlatest⟩ := mem_latestRows.mp hrow
    refine mem_tiedRows.mpr ⟨hmem, fun other hother hjob => ?_⟩
    rcases Prod.Lex.toLex_le_toLex.mp (hlatest other hother hjob) with hlt | ⟨heq, -⟩
    · exact hlt.le
    · exact heq.le
  each := by
    intro e he
    cases hmax : List.argmax rank (rows.filter (·.jobId = e.jobId)) with
    | none =>
      have hmem : e ∈ rows.filter (·.jobId = e.jobId) := by simp [he]
      rw [List.argmax_eq_none.mp hmax] at hmem
      nomatch hmem
    | some row =>
      obtain ⟨hrow, hjob⟩ := List.mem_filter.mp (List.argmax_mem hmax)
      rw [decide_eq_true_eq] at hjob
      refine ⟨row, mem_latestRows.mpr ⟨hrow, fun other hother hsame => ?_⟩, hjob⟩
      exact List.le_of_mem_argmax (List.mem_filter.mpr
        ⟨hother, decide_eq_true (hsame.trans hjob)⟩) hmax

theorem mem_picked : row ∈ picked H rows ↔ ∃ e ∈ rows,
    (H.sort newestFirst (rows.filter (·.jobId = e.jobId))).head? = some row := by
  simp [picked, jobIds]

theorem represents_picked (H : Host) (rows : List Row) : Represents (picked H rows) rows where
  tied := by
    intro row hrow
    obtain ⟨e, he, hhead⟩ := mem_picked.mp hrow
    have hperm := H.sort_perm newestFirst (rows.filter (·.jobId = e.jobId))
    have hsorted := sort_newestFirst H (rows.filter (·.jobId = e.jobId))
    obtain ⟨rest, hrest⟩ := List.head?_eq_some_iff.mp hhead
    rw [hrest] at hperm hsorted
    obtain ⟨hmem, hjob⟩ := List.mem_filter.mp (hperm.mem_iff.mp List.mem_cons_self)
    rw [decide_eq_true_eq] at hjob
    refine mem_tiedRows.mpr ⟨hmem, fun other hother hsame => ?_⟩
    have hin := hperm.mem_iff.mpr
      (List.mem_filter.mpr ⟨hother, decide_eq_true (hsame.trans hjob)⟩)
    rcases List.mem_cons.mp hin with rfl | hin
    · exact le_refl _
    · exact (List.pairwise_cons.mp hsorted).1 other hin
  each := by
    intro e he
    have hperm := H.sort_perm newestFirst (rows.filter (·.jobId = e.jobId))
    cases hsort : H.sort newestFirst (rows.filter (·.jobId = e.jobId)) with
    | nil =>
      rw [hsort] at hperm
      have hmem : e ∈ rows.filter (·.jobId = e.jobId) := by simp [he]
      nomatch hperm.mem_iff.mpr hmem
    | cons row rest =>
      rw [hsort] at hperm
      obtain ⟨-, hjob⟩ := List.mem_filter.mp (hperm.mem_iff.mp List.mem_cons_self)
      exact ⟨row, mem_picked.mpr ⟨e, he, by rw [hsort]; rfl⟩, of_decide_eq_true hjob⟩

theorem Represents.nil_iff (h : Represents l rows) : l = [] ↔ rows = [] := by
  constructor
  · rintro rfl
    refine List.eq_nil_iff_forall_not_mem.mpr fun e he => ?_
    obtain ⟨row, hrow, -⟩ := h.each e he
    nomatch hrow
  · rintro rfl
    refine List.eq_nil_iff_forall_not_mem.mpr fun row hrow => ?_
    nomatch (mem_tiedRows.mp (h.tied row hrow)).1

theorem state_of_settled {l' : List Row} (h : Represents l rows) (h' : Represents l' rows)
    (hsettled : Settled rows) : (aggSql l).state = (aggSql l').state := by
  rcases hsettled with ⟨e, he, hfail⟩ | ⟨hnone, hgreen | ⟨e, he, hpending⟩⟩
  · have hfailed : ∀ l, Represents l rows → (aggSql l).state = .fail := by
      intro l hl
      obtain ⟨row, hrow, hjob⟩ := hl.each e (mem_tiedRows.mp he).1
      exact state_fail ⟨row, hrow, hfail row (hl.tied row hrow) hjob⟩
    rw [hfailed l h, hfailed l' h']
  · rw [state_green (fun row hrow => hnone row (h.tied row hrow))
        (fun row hrow => hgreen row (h.tied row hrow)),
      state_green (fun row hrow => hnone row (h'.tied row hrow))
        (fun row hrow => hgreen row (h'.tied row hrow))]
    simp only [h.nil_iff, h'.nil_iff]
  · have hopen : ∀ l, Represents l rows → (aggSql l).state = .pending := by
      intro l hl
      obtain ⟨row, hrow, hjob⟩ := hl.each e (mem_tiedRows.mp he).1
      exact state_pending (fun r hr => hnone r (hl.tied r hr))
        ⟨row, hrow, hpending row (hl.tied row hrow) hjob⟩
    rw [hopen l h, hopen l' h']

theorem stateRight_iff {state : AggState} :
    StateRight state rows ↔ state = (aggSql (latestRows rows)).state := by
  have hnil := (represents_latest rows).nil_iff
  have hright : StateRight (aggSql (latestRows rows)).state rows := by
    rcases aggSql_cases (latestRows rows) with ⟨hl, hs⟩ | ⟨⟨r, hr, hf⟩, hs⟩ | ⟨hl, hn, hg, hs⟩ |
      ⟨hl, hn, ⟨r, hr, hg⟩, hs⟩
    · rw [hs]
      exact ⟨by simp [hl], by simp [hnil.mp hl], by simp [hnil.mp hl], by simp [hnil.mp hl]⟩
    · have hrows : rows ≠ [] := by
        rintro rfl
        nomatch (mem_latestRows.mp hr).1
      rw [hs]
      refine ⟨iff_of_true rfl ⟨r, hr, hf⟩, iff_of_false nofun fun h => ?_,
        iff_of_false nofun hrows, iff_of_false nofun fun h => h.2.1 r hr hf⟩
      have hgreen := h.2 r hr
      rw [not_green_of_failed hf] at hgreen
      cases hgreen
    · have hrows : rows ≠ [] := fun h => hl (hnil.mpr h)
      rw [hs]
      exact ⟨iff_of_false nofun fun ⟨r, hr, hf⟩ => hn r hr hf, iff_of_true rfl ⟨hrows, hg⟩,
        iff_of_false nofun hrows, iff_of_false nofun fun ⟨_, _, r, hr, h⟩ => h (hg r hr)⟩
    · have hrows : rows ≠ [] := fun h => hl (hnil.mpr h)
      rw [hs]
      exact ⟨iff_of_false nofun fun ⟨r, hr, hf⟩ => hn r hr hf,
        iff_of_false nofun fun h => hg (h.2 r hr), iff_of_false nofun hrows,
        iff_of_true rfl ⟨hrows, hn, r, hr, hg⟩⟩
  constructor
  · intro h
    cases hs : (aggSql (latestRows rows)).state with
    | noJobs => exact h.noJobs.mpr (hright.noJobs.mp hs)
    | fail => exact h.fail.mpr (hright.fail.mp hs)
    | allGreen => exact h.allGreen.mpr (hright.allGreen.mp hs)
    | pending => exact h.pending.mpr (hright.pending.mp hs)
  · rintro rfl
    exact hright

end Picks

section Ties

variable {rows : List Row} {e row : Row} {P : Row → Bool}

def Host.preferring (P : Row → Bool) : Host where
  sort le rows := (rows.filter P ++ rows.filter (!P ·)).mergeSort le
  floatEq _ _ := false
  sort_perm le rows := (List.mergeSort_perm _ le).trans (List.filter_append_perm P rows)
  sort_sorted _ _ htotal htrans := List.pairwise_mergeSort htrans htotal _

theorem picked_preferring (hnodup : rows.Nodup) (he : e ∈ tiedRows rows) (hP : P e = true)
    (hrow : row ∈ picked (Host.preferring P) rows) (hjob : row.jobId = e.jobId) :
    P row = true := by
  by_contra hnot
  obtain ⟨hmem, hlast⟩ := mem_tiedRows.mp he
  obtain ⟨f, hf, hhead⟩ := mem_picked.mp hrow
  obtain ⟨rest, hrest⟩ := List.head?_eq_some_iff.mp hhead
  have hperm := (Host.preferring P).sort_perm newestFirst (rows.filter (·.jobId = f.jobId))
  rw [hrest] at hperm
  obtain ⟨hrows, hfjob⟩ := List.mem_filter.mp (hperm.mem_iff.mp List.mem_cons_self)
  rw [decide_eq_true_eq] at hfjob
  have hfirst : [e].Sublist ((rows.filter (·.jobId = f.jobId)).filter P) :=
    List.singleton_sublist.mpr (List.mem_filter.mpr
      ⟨List.mem_filter.mpr ⟨hmem, decide_eq_true (hjob.symm.trans hfjob)⟩, hP⟩)
  have hsecond : [row].Sublist ((rows.filter (·.jobId = f.jobId)).filter (!P ·)) :=
    List.singleton_sublist.mpr (List.mem_filter.mpr
      ⟨List.mem_filter.mpr ⟨hrows, decide_eq_true hfjob⟩, by simpa using hnot⟩)
  -- The sort is stable, so that the preferred row stays before the one that is picked.
  have hpair : [e, row].Sublist (row :: rest) := by
    rw [← hrest]
    refine List.pair_sublist_mergeSort ?_ ?_ ?_ (hfirst.append hsecond)
    · intro a b c hab hbc
      simp only [newestFirst, decide_eq_true_eq] at hab hbc ⊢
      exact hbc.trans hab
    · intro a b
      simp only [newestFirst, Bool.or_eq_true, decide_eq_true_eq]
      exact le_total _ _
    · exact decide_eq_true (hlast row hrows hjob)
  have hne : e ≠ row := by
    rintro rfl
    exact hnot hP
  have hrest' : row ∈ rest := by
    rcases List.sublist_cons_iff.mp hpair with h | ⟨r, hr, h⟩
    · exact h.subset (List.mem_cons_of_mem _ (List.mem_singleton_self row))
    · exact absurd (List.cons.inj hr).1 hne
  have hsorted := hperm.nodup_iff.mpr (hnodup.filter _)
  exact (List.nodup_cons.mp hsorted).1 hrest'

theorem settled_of_states (hnodup : rows.Nodup) {state : AggState}
    (hall : ∀ H, (aggSql (picked H rows)).state = state) : Settled rows := by
  have hpicks : ∀ H, Represents (picked H rows) rows := fun H => represents_picked H rows
  have hjobs : ∀ {P : Row → Bool}, (∃ row ∈ picked (Host.preferring P) rows, ¬P row) →
      ∃ e ∈ tiedRows rows, ∀ row ∈ tiedRows rows, row.jobId = e.jobId → ¬P row := by
    rintro P ⟨row, hrow, hnot⟩
    refine ⟨row, (hpicks _).tied row hrow, fun other hother hjob hP => hnot ?_⟩
    exact picked_preferring hnodup hother hP hrow hjob.symm
  have htied : ∀ {P : Row → Bool}, (∀ row ∈ picked (Host.preferring P) rows, ¬P row) →
      ∀ row ∈ tiedRows rows, ¬P row := by
    intro P hnone e he hP
    obtain ⟨row, hrow, hjob⟩ := (hpicks (Host.preferring P)).each e (mem_tiedRows.mp he).1
    exact hnone row hrow (picked_preferring hnodup he hP hrow hjob)
  by_cases hfail : ∃ row ∈ picked (Host.preferring (!failed ·)) rows, failed row
  · refine .inl ?_
    obtain ⟨row, hrow, hfailed⟩ := hfail
    obtain ⟨e, he, hjob⟩ := hjobs (P := (!failed ·)) ⟨row, hrow, by simp [hfailed]⟩
    exact ⟨e, he, fun r hr hsame => by simpa using hjob r hr hsame⟩
  have hstate : state ≠ .fail := by
    rw [← hall (Host.preferring (!failed ·))]
    intro h
    rcases aggSql_cases (picked (Host.preferring (!failed ·)) rows) with ⟨-, hs⟩ | ⟨hf, -⟩ |
      ⟨-, -, -, hs⟩ | ⟨-, -, -, hs⟩
    · rw [h] at hs; cases hs
    · exact hfail hf
    · rw [h] at hs; cases hs
    · rw [h] at hs; cases hs
  have hnone : ∀ H, ∀ row ∈ picked H rows, ¬failed row := fun H row hrow hf =>
    hstate ((hall H).symm.trans (state_fail ⟨row, hrow, hf⟩))
  refine .inr ⟨htied (hnone _), ?_⟩
  by_cases hgreen : ∀ row ∈ picked (Host.preferring (!green ·)) rows, green row
  · refine .inl fun row hrow => ?_
    simpa using htied (P := (!green ·)) (fun r hr => by simp [hgreen r hr]) row hrow
  · refine .inr (hjobs ?_)
    obtain ⟨row, hrow, hnot⟩ : ∃ row ∈ picked (Host.preferring (!green ·)) rows, ¬green row := by
      by_contra h
      exact hgreen fun row hrow => by_contra fun hnot => h ⟨row, hrow, hnot⟩
    have hpending : state = .pending :=
      (hall _).symm.trans (state_pending (hnone _) ⟨row, hrow, hnot⟩)
    by_contra h
    have hallGreen : ∀ row ∈ picked (Host.preferring green) rows, green row :=
      fun row hrow => by_contra fun hnot => h ⟨row, hrow, hnot⟩
    have hother := (hall (Host.preferring green)).symm.trans (state_green (hnone _) hallGreen)
    rw [hpending] at hother
    split at hother <;> cases hother

/-- The state is right, in whatever order SQLite has rows that tie, just on rows that are
settled. -/
theorem aggregate_right_iff (store : Store) (owner repo sha : String) :
    (∀ H, StateRight (aggregate H store owner repo sha).state (jobRows store owner repo sha)) ↔
      Settled (jobRows store owner repo sha) := by
  have hnodup : (jobRows store owner repo sha).Nodup := (nodup_rows store).filter _
  simp only [stateRight_iff, aggregate]
  constructor
  · exact settled_of_states hnodup
  · intro hsettled H
    exact state_of_settled (represents_picked H _) (represents_latest _) hsettled

end Ties

section Ticks

variable {H : Host} {w : Watched} {reads : Reads} {m : Monitor} {base lines : List Line}
  {pr : Int}

theorem lastKey_append (h : ∀ line ∈ lines, line.pr ≠ pr) :
    lastKey (base ++ lines) pr = lastKey base pr := by
  have hnone : lines.filter (·.pr = pr) = [] :=
    List.filter_eq_nil_iff.mpr fun line hline => by simpa using h line hline
  rw [lastKey, List.filter_append, hnone, List.append_nil, lastKey]

theorem lastKey_concat (base : List Line) (line : Line) (pr : Int) :
    lastKey (base ++ [line]) pr = if line.pr = pr then some line.key else lastKey base pr := by
  split
  · rename_i hpr
    simp [lastKey, hpr]
  · rename_i hpr
    exact lastKey_append (by simpa using hpr)

/-- What the monitor keeps of a pull request is the key of its last line. -/
def Tracks (m : Monitor) (lines : List Line) : Prop :=
  ∀ pr, m.prState pr = lastKey lines pr ∧ m.observed pr = (lastKey lines pr).isSome

def news (H : Host) (w : Watched) (reads : Reads) (lines : List Line) (pr : Int) : Option Line :=
  match shaOf reads pr with
  | none => none
  | some sha =>
    let agg := aggregate H (reads.store pr) w.owner w.repo sha
    if lastKey lines pr ≠ some (keyOf sha agg) then
      some ⟨pr, keyOf sha agg, lineText pr sha agg⟩
    else none

def unfinished (H : Host) (w : Watched) (reads : Reads) (pr : Int) : Bool :=
  (shaOf reads pr).any fun sha =>
    let state := (aggregate H (reads.store pr) w.owner w.repo sha).state
    state = .pending || state = .noJobs

theorem news_pr {line : Line} (h : line ∈ news H w reads lines pr) : line.pr = pr := by
  unfold news at h
  split at h
  · cases h
  · dsimp only at h
    split at h
    · rw [← Option.some.inj h]
    · cases h

theorem visit_eq (H : Host) (w : Watched) (reads : Reads) {p : Pass}
    (htracks : Tracks p.monitor (base ++ p.lines))
    (hfresh : ∀ line ∈ p.lines, line.pr ≠ pr) : ∃ monitor,
      p.visit H w reads pr = ⟨monitor, p.anyPending || unfinished H w reads pr,
        p.allObserved && (shaOf reads pr).isSome,
        p.lines ++ (news H w reads base pr).toList⟩ ∧
      Tracks monitor (base ++ (p.lines ++ (news H w reads base pr).toList)) := by
  have hlast : lastKey (base ++ p.lines) pr = lastKey base pr := lastKey_append hfresh
  obtain ⟨hstate, hobserved⟩ := htracks pr
  rw [hlast] at hstate hobserved
  unfold Pass.visit news unfinished
  cases hsha : shaOf reads pr with
  | none =>
    refine ⟨p.monitor, by simp, ?_⟩
    rw [Option.toList_none, List.append_nil]
    exact htracks
  | some sha =>
    have hkey : ∀ key : String, (¬p.monitor.observed pr ∨ p.monitor.prState pr ≠ some key) ↔
        lastKey base pr ≠ some key := by
      intro key
      rw [hstate, hobserved]
      cases lastKey base pr with
      | none => simp
      | some old => simp
    have hpending : ∀ state : AggState,
        (if state = .pending ∨ state = .noJobs then { p with anyPending := true } else p) =
          { p with anyPending := p.anyPending || (state = .pending || state = .noJobs) } := by
      intro state
      obtain ⟨monitor, anyPending, allObserved, lines⟩ := p
      cases state <;> cases anyPending <;> rfl
    simp only [hpending, hkey, Option.any_some, Option.isSome_some, Bool.and_true]
    split
    · refine ⟨_, by rw [Option.toList_some], fun other => ?_⟩
      rw [Option.toList_some, ← List.append_assoc, lastKey_concat]
      obtain ⟨hother, hseen⟩ := htracks other
      by_cases hpr : pr = other
      · subst hpr
        simp
      · rw [if_neg hpr]
        exact ⟨by simpa [Function.update_of_ne (Ne.symm hpr)] using hother,
          by simpa [Function.update_of_ne (Ne.symm hpr)] using hseen⟩
    · refine ⟨p.monitor, by rw [Option.toList_none, List.append_nil], ?_⟩
      rw [Option.toList_none, List.append_nil]
      exact htracks

theorem foldl_visit (H : Host) (w : Watched) (reads : Reads) (base : List Line) (prs : List Int)
    {p : Pass} (htracks : Tracks p.monitor (base ++ p.lines)) (hnodup : prs.Nodup)
    (hfresh : ∀ pr ∈ prs, ∀ line ∈ p.lines, line.pr ≠ pr) : ∃ monitor,
      prs.foldl (Pass.visit H w reads) p = ⟨monitor, p.anyPending || prs.any (unfinished H w reads),
        p.allObserved && prs.all fun pr => (shaOf reads pr).isSome,
        p.lines ++ prs.filterMap (news H w reads base)⟩ ∧
      Tracks monitor (base ++ (p.lines ++ prs.filterMap (news H w reads base))) := by
  induction prs generalizing p with
  | nil =>
    refine ⟨p.monitor, by simp, ?_⟩
    rw [List.filterMap_nil, List.append_nil]
    exact htracks
  | cons pr rest ih =>
    obtain ⟨hnot, hrest⟩ := List.nodup_cons.mp hnodup
    obtain ⟨monitor, hvisit, hmonitor⟩ := visit_eq H w reads htracks
      (hfresh pr List.mem_cons_self)
    obtain ⟨last, hfold, hlast⟩ := ih (p := ⟨monitor, p.anyPending || unfinished H w reads pr,
        p.allObserved && (shaOf reads pr).isSome, p.lines ++ (news H w reads base pr).toList⟩)
      hmonitor hrest fun other hother line hline => by
        rcases List.mem_append.mp hline with hold | hnew
        · exact hfresh other (List.mem_cons_of_mem _ hother) line hold
        · rw [news_pr (Option.mem_toList.mp hnew)]
          rintro rfl
          exact hnot hother
    have hnews : (pr :: rest).filterMap (news H w reads base) =
        (news H w reads base pr).toList ++ rest.filterMap (news H w reads base) := by
      rw [List.filterMap_cons]
      cases news H w reads base pr <;> rfl
    refine ⟨last, ?_, ?_⟩
    · rw [List.foldl_cons, hvisit, hfold, hnews]
      simp [Bool.or_assoc, Bool.and_assoc]
    · rw [hnews, ← List.append_assoc p.lines]
      exact hlast

theorem pass_eq (H : Host) (w : Watched) (reads : Reads) (htracks : Tracks m base) : ∃ monitor,
    m.pass H w reads = ⟨monitor, w.prs.any (unfinished H w reads),
      w.prs.all fun pr => (shaOf reads pr).isSome, w.prs.filterMap (news H w reads base)⟩ ∧
    Tracks monitor (base ++ w.prs.filterMap (news H w reads base)) := by
  obtain ⟨monitor, hfold, hmonitor⟩ := foldl_visit H w reads base w.prs
    (p := ⟨m, false, true, []⟩) (by rw [List.append_nil]; exact htracks) w.nodup
    fun pr _ line hline => absurd hline List.not_mem_nil
  refine ⟨monitor, ?_, hmonitor⟩
  rw [Monitor.pass, hfold]
  simp

theorem run_tracks (H : Host) (w : Watched) (ticks : List Reads) :
    Tracks (run H w ticks).1 (run H w ticks).2 := by
  induction ticks using List.reverseRecOn with
  | nil => exact fun pr => ⟨rfl, rfl⟩
  | append_singleton ticks reads ih =>
    obtain ⟨monitor, hpass, hmonitor⟩ := pass_eq H w reads ih
    rw [run] at ih hpass hmonitor ⊢
    rw [List.foldl_append, List.foldl_cons, List.foldl_nil]
    simp only [hpass]
    exact hmonitor

theorem tick_right (htracks : Tracks m base) : TickRight H w base reads (m.pass H w reads) := by
  obtain ⟨monitor, hpass, -⟩ := pass_eq H w reads htracks
  rw [hpass]
  refine ⟨fun line => ?_, ?_, ?_⟩
  · simp only [List.mem_filterMap]
    constructor
    · rintro ⟨pr, hpr, hnews⟩
      obtain rfl := (news_pr hnews).symm
      refine ⟨hpr, ?_⟩
      unfold news at hnews
      split at hnews
      · cases hnews
      rename_i sha hsha
      dsimp only at hnews
      split at hnews
      · rename_i hkey
        have hline := Option.some.inj hnews
        refine ⟨sha, hsha, hline.symm, ?_⟩
        rw [← hline]
        exact hkey
      · cases hnews
    · rintro ⟨hpr, sha, hsha, hline, hkey⟩
      refine ⟨line.pr, hpr, ?_⟩
      rw [hline] at hkey
      rw [news, Option.mem_def.mp hsha]
      simp only [if_pos hkey, ← hline]
  · have hguard : (fun pr => (news H w reads base pr).map (·.pr)) =
        Option.guard fun pr => (news H w reads base pr).isSome := by
      funext pr
      cases hnews : news H w reads base pr with
      | none => simp [Option.guard, hnews]
      | some line => simp [Option.guard, hnews, news_pr hnews]
    rw [List.map_filterMap, hguard, List.filterMap_eq_filter]
    exact w.nodup.filter _
  · simp only [Pass.done, Bool.and_eq_true, Bool.not_eq_true', List.all_eq_true,
      List.any_eq_false, ← forall₂_and]
    refine forall₂_congr fun pr _ => ?_
    unfold unfinished
    cases shaOf reads pr with
    | none => simp
    | some sha =>
      cases hstate : (aggregate H (reads.store pr) w.owner w.repo sha).state <;> simp [hstate]

/-- For every table the state is right, in whatever order SQLite has rows that tie, just on rows
that are settled; and after every sequence of ticks the next one is. -/
theorem monitor_exact (w : Watched) :
    (∀ store sha,
      (∀ H, StateRight (aggregate H store w.owner w.repo sha).state
        (jobRows store w.owner w.repo sha)) ↔ Settled (jobRows store w.owner w.repo sha)) ∧
    ∀ H ticks reads, TickRight H w (run H w ticks).2 reads ((run H w ticks).1.pass H w reads) :=
  ⟨fun store sha => aggregate_right_iff store w.owner w.repo sha,
    fun H ticks _ => tick_right (run_tracks H w ticks)⟩

end Ticks

section Samples

def jobEvent (n : Nat) (status : String) (conclusion : Option String) : EventInsert :=
  { sampleEvent n with
    eventType := "workflow_job", headSha := some "abc", jobId := some 100
    status := some status, conclusion := conclusion }

def jobStore (batch : List (EventInsert × Ulid)) : Store :=
  (Store.empty.insertAll batch).toOption.elim .empty (·.2)

def sampleHost : Host where
  sort le rows := rows.insertionSort fun a b => le a b
  floatEq _ _ := false
  sort_perm le rows := List.perm_insertionSort _ rows
  sort_sorted le rows htotal htrans := by
    have : Std.Total fun a b : Row => le a b = true := ⟨fun a b => by simpa using htotal a b⟩
    have : IsTrans Row fun a b => le a b = true := ⟨htrans⟩
    exact List.pairwise_insertionSort _ rows

def startedStore : Store :=
  jobStore [(jobEvent 1 "in_progress" none, ulidAt 1)]

def passedStore : Store :=
  jobStore [(jobEvent 2 "completed" (some "success"), ulidAt 2)]

/-- Of two pull requests one has no head sha at first, and the other one passes at last. -/
def sampleTick (sha : Option String) (first : Store) : Reads :=
  ⟨fun pr => if pr = 3 then first else passedStore, fun pr => if pr = 3 then some "abc" else sha⟩

theorem monitor_exact_run :
    let w := watched "local" "agents" [7, 3, 7]
    let ticks := [sampleTick none startedStore, sampleTick (some "def") startedStore]
    let p := (run sampleHost w ticks).1.pass sampleHost w (sampleTick (some "def") passedStore)
    w.prs = [3, 7] ∧
      (run sampleHost w ticks).2.map (·.text) = ["PR#3 sha=abc PENDING jobs=1 pass=0 fail=0",
        "PR#7 sha=def NO_JOBS jobs=0 pass=0 fail=0"] ∧
      p.lines.map (·.text) = ["PR#3 sha=abc ALL_GREEN jobs=1 pass=1 fail=0"] ∧
      TickRight sampleHost w (run sampleHost w ticks).2 (sampleTick (some "def") passedStore) p :=
  ⟨by decide, by decide +kernel, by decide +kernel,
    (monitor_exact (watched "local" "agents" [7, 3, 7])).2 sampleHost _ _⟩

def tiedStore : Store :=
  jobStore [(jobEvent 1 "in_progress" none, ulidAt 1),
    (jobEvent 2 "completed" (some "failure"), ulidAt 2)]

/-- With ties in commit order the failure is not seen. -/
theorem tied_failure_missed :
    ¬StateRight (aggregate Host.reference tiedStore "local" "agents" "abc").state
      (jobRows tiedStore "local" "agents" "abc") := by
  have hids : jobIds (jobRows tiedStore "local" "agents" "abc") = [some ⟨100, by decide⟩] := by
    decide
  have hsort : Host.reference.sort newestFirst
      ((jobRows tiedStore "local" "agents" "abc").filter (·.jobId = some ⟨100, by decide⟩)) =
        (jobRows tiedStore "local" "agents" "abc").filter (·.jobId = some ⟨100, by decide⟩) :=
    List.mergeSort_of_pairwise (by decide)
  have hstate : (aggregate Host.reference tiedStore "local" "agents" "abc").state = .pending := by
    rw [aggregate, picked, hids, List.filterMap_cons, hsort]
    decide
  intro h
  have hfail := h.fail.mpr (by decide)
  rw [hstate] at hfail
  cases hfail

end Samples

end Waitbus.PrMonitor
