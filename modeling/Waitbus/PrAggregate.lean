import Waitbus.McpReads

/-! The jobs that `get_pr_aggregate` counts. It goes over the rows of a repository once, in the
order of their ids, and knows of a run only what it has met of it. -/

namespace Waitbus.PrAggregate
open Python Json FrameCodec EventStore Summary McpReads

section Links

/-- What the loop finds out about a row: nothing where its payload is no JSON, else whether it
names the pull request. -/
def reading (H : Host) (R : Runtime) (prNumber : Int) (row : Row) : Except PyExc (Option Bool) :=
  match loads R.decodeDepth row.payloadJson with
  | .error .jsonDecodeError => .ok none
  | .error exc => .error exc
  | .ok payload => (payloadMatchesPr H payload prNumber).map some

def Readable (H : Host) (R : Runtime) (prNumber : Int) (row : Row) : Prop :=
  ∃ found, reading H R prNumber row = .ok found

def direct (H : Host) (R : Runtime) (prNumber : Int) (row : Row) : Bool :=
  match reading H R prNumber row with
  | .ok (some named) => named
  | _ => false

def decodes (H : Host) (R : Runtime) (prNumber : Int) (row : Row) : Bool :=
  match reading H R prNumber row with
  | .ok (some _) => true
  | _ => false

/-- The row is one of the job's parent run, and linked to the pull request. -/
def linkedParent (H : Host) (R : Runtime) (prNumber : Int) (job run : Row) : Bool :=
  run.eventType = "workflow_run" && direct H R prNumber run &&
    job.parentRunId.any fun id => run.runId = some id

/-- A job that is linked to the pull request, itself or through its run. -/
def linked (H : Host) (R : Runtime) (prNumber : Int) (rows : List Row) (job : Row) : Bool :=
  job.eventType = "workflow_job" &&
    (direct H R prNumber job || rows.any (linkedParent H R prNumber job))

def repoRows (store : Store) (repo : PyStr × PyStr) : List Row :=
  store.rows.filter fun row => ofRepo repo row ∧ row.eventType ∈ ["workflow_run", "workflow_job"]

def CountsLinked (H : Host) (R : Runtime) (store : Store) (now : Int) (repo : PyStr)
    (split : PyStr × PyStr) (prNumber : Int) : Prop :=
  ∃ found, toolGetPrAggregateImpl H R (some store) now repo prNumber = .ok found ∧
    found.jobs.Perm
      (((repoRows store split).filter (linked H R prNumber (repoRows store split))).map
        rowToJobStatus)

/-- Each job that only its run links can be decoded, and comes after a linked row of the run. -/
def ParentsFirst (H : Host) (R : Runtime) (prNumber : Int) (rows : List Row) : Prop :=
  ∀ before job after, rows = before ++ job :: after → linked H R prNumber rows job = true →
    direct H R prNumber job = false →
      decodes H R prNumber job = true ∧ before.any (linkedParent H R prNumber job) = true

end Links

section Loop

variable {H : Host} {R : Runtime} {prNumber : Int} {rows : List Row} {acc : Gathered} {row : Row}

def runIdsOf (H : Host) (R : Runtime) (prNumber : Int) (rows : List Row) : List Int :=
  (rows.filter fun row => row.eventType = "workflow_run" && direct H R prNumber row).flatMap
    fun row => (row.runId.map (·.val)).toList

def counted (H : Host) (R : Runtime) (prNumber : Int) (known : List Int) (row : Row) : Bool :=
  row.eventType = "workflow_job" && decodes H R prNumber row &&
    (direct H R prNumber row || row.parentRunId.any (·.val ∈ known))

def picked (H : Host) (R : Runtime) (prNumber : Int) : List Int → List Row → List Row
  | _, [] => []
  | known, row :: rest =>
    (if counted H R prNumber known row then [row] else []) ++
      picked H R prNumber (known ++ runIdsOf H R prNumber [row]) rest

def taken (acc : Gathered) (row : Row) : Option Bool → Gathered
  | none => acc
  | some true =>
    if row.eventType = "workflow_run" then
      { acc with
        runs := acc.runs ++ [row]
        matchedRunIds := acc.matchedRunIds ++ (row.runId.map (·.val)).toList }
    else if row.eventType = "workflow_job" then { acc with jobs := acc.jobs ++ [row] }
    else acc
  | some false =>
    if row.eventType = "workflow_job" ∧ ∃ id ∈ row.parentRunId, id.val ∈ acc.matchedRunIds then
      { acc with jobs := acc.jobs ++ [row] }
    else acc

theorem gather_eq (acc : Gathered) (row : Row) :
    gather H R prNumber acc row = (reading H R prNumber row).map (taken acc row) := by
  rw [gather, reading]
  cases loads R.decodeDepth row.payloadJson with
  | error exc => cases exc <;> rfl
  | ok payload =>
    cases hmatch : payloadMatchesPr H payload prNumber with
    | error exc =>
      simp only [hmatch]
      rfl
    | ok named =>
      simp only [hmatch]
      change ite _ _ _ = _
      cases named with
      | true =>
        rw [if_pos rfl]
        simp only [Except.map, taken]
        split_ifs <;> rfl
      | false =>
        rw [if_neg Bool.false_ne_true]
        simp only [Except.map, taken]
        split_ifs <;> rfl

theorem gather_readable (acc : Gathered) (h : Readable H R prNumber row) : ∃ runs,
    gather H R prNumber acc row = .ok ⟨runs,
      acc.jobs ++ (if counted H R prNumber acc.matchedRunIds row then [row] else []),
      acc.matchedRunIds ++ runIdsOf H R prNumber [row]⟩ := by
  obtain ⟨found, hfound⟩ := h
  rw [gather_eq, hfound]
  cases found with
  | none =>
    refine ⟨acc.runs, ?_⟩
    simp [Except.map, taken, counted, runIdsOf, decodes, direct, hfound]
  | some named =>
    cases named with
    | true =>
      by_cases hrun : row.eventType = "workflow_run"
      · refine ⟨acc.runs ++ [row], ?_⟩
        simp [Except.map, taken, counted, runIdsOf, decodes, direct, hfound, hrun]
      · refine ⟨acc.runs, ?_⟩
        by_cases hjob : row.eventType = "workflow_job" <;>
          simp [Except.map, taken, counted, runIdsOf, decodes, direct, hfound, hrun, hjob]
    | false =>
      refine ⟨acc.runs, ?_⟩
      have hparent : (row.eventType = "workflow_job" ∧
          ∃ id ∈ row.parentRunId, id.val ∈ acc.matchedRunIds) ↔
          counted H R prNumber acc.matchedRunIds row = true := by
        simp [counted, decodes, direct, hfound, Option.any_eq_true]
      have hrun : runIdsOf H R prNumber [row] = [] := by simp [runIdsOf, direct, hfound]
      simp only [Except.map, taken, hparent, hrun, List.append_nil]
      split_ifs <;> simp

theorem foldlM_gather (h : ∀ row ∈ rows, Readable H R prNumber row) (acc : Gathered) :
    ∃ found, rows.foldlM (gather H R prNumber) acc = .ok found ∧
      found.jobs = acc.jobs ++ picked H R prNumber acc.matchedRunIds rows := by
  induction rows generalizing acc with
  | nil => exact ⟨acc, rfl, (List.append_nil _).symm⟩
  | cons row rest ih =>
    obtain ⟨runs, hrow⟩ := gather_readable acc (h row List.mem_cons_self)
    obtain ⟨found, hfold, hjobs⟩ := ih (fun r hr => h r (List.mem_cons_of_mem _ hr))
      ⟨runs, acc.jobs ++ (if counted H R prNumber acc.matchedRunIds row then [row] else []),
        acc.matchedRunIds ++ runIdsOf H R prNumber [row]⟩
    refine ⟨found, ?_, ?_⟩
    · rw [List.foldlM_cons, hrow]
      exact hfold
    · rw [hjobs, picked, List.append_assoc]

theorem foldlM_unreadable (hrow : row ∈ rows) (h : ¬Readable H R prNumber row) (acc : Gathered) :
    ∀ found, rows.foldlM (gather H R prNumber) acc ≠ .ok found := by
  induction rows generalizing acc with
  | nil => nomatch hrow
  | cons first rest ih =>
    intro found hfold
    rw [List.foldlM_cons, gather_eq] at hfold
    cases hread : reading H R prNumber first with
    | error exc =>
      rw [hread] at hfold
      nomatch hfold
    | ok named =>
      rw [hread] at hfold
      rcases List.mem_cons.mp hrow with rfl | hrow
      · exact h ⟨named, hread⟩
      · exact ih hrow _ found hfold

theorem mem_runIdsOf {id : Int} : id ∈ runIdsOf H R prNumber rows ↔
    ∃ run ∈ rows, run.eventType = "workflow_run" ∧ direct H R prNumber run = true ∧
      run.runId.map (·.val) = some id := by
  simp [runIdsOf, and_assoc]

theorem decodes_of_direct (h : direct H R prNumber row = true) :
    decodes H R prNumber row = true := by
  rw [direct] at h
  rw [decodes]
  split at h
  · rfl
  · nomatch h

theorem counted_iff {before : List Row} :
    counted H R prNumber (runIdsOf H R prNumber before) row = true ↔
      row.eventType = "workflow_job" ∧ decodes H R prNumber row = true ∧
        (direct H R prNumber row = true ∨ before.any (linkedParent H R prNumber row) = true) := by
  have hparent : row.parentRunId.any (·.val ∈ runIdsOf H R prNumber before) = true ↔
      before.any (linkedParent H R prNumber row) = true := by
    simp only [Option.any_eq_true, decide_eq_true_eq, mem_runIdsOf, List.any_eq_true, linkedParent,
      Bool.and_eq_true]
    constructor
    · rintro ⟨id, hid, run, hrun, htype, hdirect, hrunId⟩
      obtain ⟨id', hid', hval⟩ := Option.map_eq_some_iff.mp hrunId
      obtain rfl := Subtype.ext hval
      exact ⟨run, hrun, ⟨htype, hdirect⟩, id', hid, hid'⟩
    · rintro ⟨run, hrun, ⟨htype, hdirect⟩, id, hid, hrunId⟩
      exact ⟨id, hid, run, hrun, htype, hdirect, by rw [hrunId]; rfl⟩
  simp only [counted, Bool.and_eq_true, Bool.or_eq_true, decide_eq_true_eq, hparent, and_assoc]

theorem linked_of_counted {before after : List Row}
    (h : counted H R prNumber (runIdsOf H R prNumber before) row = true) :
    linked H R prNumber (before ++ after) row = true := by
  obtain ⟨htype, -, hlink⟩ := counted_iff.mp h
  rw [linked, Bool.and_eq_true, Bool.or_eq_true, List.any_append, Bool.or_eq_true]
  exact ⟨decide_eq_true htype, hlink.imp_right .inl⟩

theorem forall_split_cons {α : Type*} {x : α} {rest : List α} {P : List α → α → Prop} :
    (∀ a y b, x :: rest = a ++ y :: b → P a y) ↔
      P [] x ∧ ∀ a y b, rest = a ++ y :: b → P (x :: a) y := by
  constructor
  · exact fun h => ⟨h [] x rest rfl, fun a y b hsplit => h (x :: a) y b (by rw [hsplit]; rfl)⟩
  · rintro ⟨hx, hrest⟩ a y b hsplit
    cases a with
    | nil =>
      obtain ⟨rfl, -⟩ := List.cons.inj hsplit
      exact hx
    | cons z a =>
      obtain ⟨rfl, htail⟩ := List.cons.inj (hsplit : x :: rest = z :: (a ++ y :: b))
      exact hrest a y b htail

/-- What the loop picks is linked, and nothing linked is missing where each is counted in its
turn. -/
theorem picked_linked (before rest : List Row) :
    (picked H R prNumber (runIdsOf H R prNumber before) rest).Sublist
        (rest.filter (linked H R prNumber (before ++ rest))) ∧
      (picked H R prNumber (runIdsOf H R prNumber before) rest =
          rest.filter (linked H R prNumber (before ++ rest)) ↔
        ∀ a job b, rest = a ++ job :: b → linked H R prNumber (before ++ rest) job = true →
          counted H R prNumber (runIdsOf H R prNumber (before ++ a)) job = true) := by
  induction rest generalizing before with
  | nil => simp [picked]
  | cons row rest ih =>
    have hids : runIdsOf H R prNumber before ++ runIdsOf H R prNumber [row] =
        runIdsOf H R prNumber (before ++ [row]) := by
      simp [runIdsOf]
    have hall : before ++ row :: rest = before ++ [row] ++ rest := by simp
    obtain ⟨hsub, hiff⟩ := ih (before ++ [row])
    rw [picked, hids, forall_split_cons, List.append_nil, hall, List.filter_cons]
    simp only [List.append_assoc, List.singleton_append] at hsub hiff ⊢
    by_cases hcounted : counted H R prNumber (runIdsOf H R prNumber before) row = true
    · have hlinked : linked H R prNumber (before ++ row :: rest) row = true :=
        linked_of_counted hcounted
      rw [if_pos hcounted, if_pos hlinked, List.singleton_append, List.cons.injEq, hiff]
      exact ⟨hsub.cons_cons row, by simp [hcounted]⟩
    · rw [if_neg hcounted, List.nil_append]
      by_cases hlinked : linked H R prNumber (before ++ row :: rest) row = true
      · rw [if_pos hlinked]
        refine ⟨hsub.cons row, fun heq => ?_, fun hall => absurd (hall.1 hlinked) hcounted⟩
        have hlength := hsub.length_le
        rw [heq, List.length_cons] at hlength
        omega
      · rw [if_neg hlinked, hiff]
        exact ⟨hsub, by simp [hlinked]⟩

theorem parentsFirst_iff : ParentsFirst H R prNumber rows ↔
    ∀ before job after, rows = before ++ job :: after → linked H R prNumber rows job = true →
      counted H R prNumber (runIdsOf H R prNumber before) job = true := by
  have hjob : ∀ job, linked H R prNumber rows job = true → job.eventType = "workflow_job" :=
    fun job h => of_decide_eq_true (Bool.and_eq_true_iff.mp h).1
  constructor
  · intro hfirst before job after hrows hlinked
    by_cases hdirect : direct H R prNumber job = true
    · exact counted_iff.mpr ⟨hjob job hlinked, decodes_of_direct hdirect, .inl hdirect⟩
    · obtain ⟨hdecodes, hparent⟩ :=
        hfirst before job after hrows hlinked (Bool.not_eq_true _ ▸ hdirect)
      exact counted_iff.mpr ⟨hjob job hlinked, hdecodes, .inr hparent⟩
  · intro hcounted before job after hrows hlinked hdirect
    obtain ⟨-, hdecodes, hlink⟩ := counted_iff.mp (hcounted before job after hrows hlinked)
    exact ⟨hdecodes, hlink.resolve_left (by simp [hdirect])⟩

end Loop

section Aggregate

variable {H : Host} {R : Runtime} {store : Store} {now : Int} {repo : PyStr}
  {split : PyStr × PyStr} {prNumber : Int}

theorem linked_perm {rows rows' : List Row} (h : rows.Perm rows') :
    linked H R prNumber rows = linked H R prNumber rows' := by
  funext job
  rw [linked, linked, h.any_eq]

/-- The aggregate holds the linked jobs exactly when every row can be gone past and each job that
only its run links comes, decodable, after a linked row of that run. -/
theorem aggregate_counts_linked (hsplit : splitRepo (some repo) = some split) :
    CountsLinked H R store now repo split prNumber ↔
      (∀ row ∈ repoRows store split, Readable H R prNumber row) ∧
        ParentsFirst H R prNumber (pullRequestRows H store split) := by
  have hperm : (pullRequestRows H store split).Perm (repoRows store split) := H.sort_perm _ _
  have htool : toolGetPrAggregateImpl H R (some store) now repo prNumber = (do
      let found ← (pullRequestRows H store split).foldlM (gather H R prNumber) ⟨[], [], []⟩
      return ⟨repo, prNumber, found.runs.map rowToRunStatus, found.jobs.map rowToJobStatus,
        now⟩) := by
    rw [toolGetPrAggregateImpl, hsplit]
  have hlinkedRows : (((repoRows store split).filter
      (linked H R prNumber (repoRows store split))).map rowToJobStatus).Perm
      (((pullRequestRows H store split).filter
        (linked H R prNumber (pullRequestRows H store split))).map rowToJobStatus) := by
    rw [linked_perm hperm]
    exact (hperm.symm.filter _).map _
  have hfirst : ParentsFirst H R prNumber (pullRequestRows H store split) ↔
      picked H R prNumber [] (pullRequestRows H store split) =
        (pullRequestRows H store split).filter
          (linked H R prNumber (pullRequestRows H store split)) :=
    parentsFirst_iff.trans (picked_linked [] (pullRequestRows H store split)).2.symm
  by_cases hread : ∀ row ∈ repoRows store split, Readable H R prNumber row
  · obtain ⟨found, hfold, hjobs⟩ := foldlM_gather
      (fun row hrow => hread row (hperm.mem_iff.mp hrow)) ⟨[], [], []⟩
    have hsub : (picked H R prNumber [] (pullRequestRows H store split)).Sublist
        ((pullRequestRows H store split).filter
          (linked H R prNumber (pullRequestRows H store split))) := (picked_linked [] _).1
    rw [and_iff_right hread, hfirst]
    constructor
    · rintro ⟨result, hresult, hcounts⟩
      rw [htool, hfold] at hresult
      obtain rfl := Except.ok.inj hresult
      have hlength := (hcounts.trans hlinkedRows).length_eq
      rw [List.length_map, List.length_map, hjobs] at hlength
      exact hsub.eq_of_length hlength
    · intro hpicked
      refine ⟨_, by rw [htool, hfold]; rfl, ?_⟩
      refine List.Perm.trans (.of_eq ?_) hlinkedRows.symm
      rw [hjobs, ← hpicked]
      rfl
  · refine iff_of_false ?_ fun h => hread h.1
    rintro ⟨result, hresult, -⟩
    obtain ⟨row, hrow, hunread⟩ := by simpa only [not_forall] using hread
    cases hfold : (pullRequestRows H store split).foldlM (gather H R prNumber) ⟨[], [], []⟩ with
    | ok found => exact foldlM_unreadable (hperm.mem_iff.mpr hrow) hunread _ found hfold
    | error exc =>
      rw [htool, hfold] at hresult
      nomatch hresult

theorem byEventId_total (a b : Row) : byEventId a b || byEventId b a := by
  rw [byEventId, byEventId, Bool.or_eq_true]
  cases a.eventId with
  | none => exact .inl rfl
  | some x =>
    cases b.eventId with
    | none => exact .inr rfl
    | some y => exact (String.le_total x.val y.val).imp decide_eq_true decide_eq_true

theorem byEventId_trans (a b c : Row) (hab : byEventId a b) (hbc : byEventId b c) :
    byEventId a c := by
  rw [byEventId] at hab hbc ⊢
  cases ha : a.eventId with
  | none => rfl
  | some x =>
    rw [ha] at hab
    cases hb : b.eventId with
    | none =>
      rw [hb] at hab
      nomatch hab
    | some y =>
      rw [hb] at hab hbc
      cases hc : c.eventId with
      | none =>
        rw [hc] at hbc
        nomatch hbc
      | some z =>
        rw [hc] at hbc
        exact decide_eq_true (String.le_trans (of_decide_eq_true hab) (of_decide_eq_true hbc))

theorem pullRequestRows_increasing : (pullRequestRows H store split).Pairwise fun a b =>
    ∀ x ∈ a.eventId, ∀ y ∈ b.eventId, x.val < y.val := by
  have hsorted : (pullRequestRows H store split).Pairwise fun a b => byEventId a b :=
    H.sort_sorted _ _ byEventId_total byEventId_trans
  have hsymm : ∀ a b : Row, (∀ x, a.eventId = some x → ∀ y, b.eventId = some y → x ≠ y) →
      ∀ x, b.eventId = some x → ∀ y, a.eventId = some y → x ≠ y :=
    fun a b h x hx y hy => (h y hy x hx).symm
  have hdistinct : (pullRequestRows H store split).Pairwise fun a b =>
      ∀ x, a.eventId = some x → ∀ y, b.eventId = some y → x ≠ y :=
    ((List.pairwise_filterMap.mp store.eventIds).sublist List.filter_sublist).perm
      (H.sort_perm _ _).symm (hsymm _ _)
  refine (hsorted.and hdistinct).imp fun {a b} ⟨hle, hne⟩ x hx y hy => ?_
  rw [byEventId, hx, hy] at hle
  by_contra hlt
  exact hne x hx y hy (Subtype.ext
    (String.le_antisymm (of_decide_eq_true hle) (String.not_lt.mp hlt)))

/-- Where the rows have ids, those the loop meets before a job are those with a smaller id. -/
theorem mem_before_iff (hids : ∀ row ∈ repoRows store split, row.eventId.isSome)
    {before after : List Row} {job run : Row}
    (hrows : pullRequestRows H store split = before ++ job :: after) :
    run ∈ before ↔ run ∈ repoRows store split ∧
      ∃ x ∈ run.eventId, ∃ y ∈ job.eventId, x.val < y.val := by
  have hperm : (pullRequestRows H store split).Perm (repoRows store split) := H.sort_perm _ _
  have hsome : ∀ row ∈ before ++ job :: after, ∃ x, row.eventId = some x := fun row hrow =>
    Option.isSome_iff_exists.mp (hids row (hperm.mem_iff.mp (hrows ▸ hrow)))
  have hincreasing := @pullRequestRows_increasing H store split
  rw [hrows, List.pairwise_append, List.pairwise_cons] at hincreasing
  obtain ⟨-, ⟨hafter, -⟩, hbefore⟩ := hincreasing
  obtain ⟨y, hy⟩ := hsome job (List.mem_append_right _ List.mem_cons_self)
  rw [← hperm.mem_iff, hrows]
  constructor
  · intro hrun
    obtain ⟨x, hx⟩ := hsome run (List.mem_append_left _ hrun)
    exact ⟨List.mem_append_left _ hrun, x, hx, y, hy,
      hbefore run hrun job List.mem_cons_self x hx y hy⟩
  · rintro ⟨hrun, x, hx, y', hy', hlt⟩
    obtain rfl := Option.some.inj (hy.symm.trans hy')
    rcases List.mem_append.mp hrun with hrun | hrun
    · exact hrun
    rcases List.mem_cons.mp hrun with rfl | hrun
    · obtain rfl := Option.some.inj (hx.symm.trans hy)
      exact absurd hlt (String.lt_irrefl _)
    · exact absurd hlt (String.lt_asymm (hafter run hrun y hy x hx))

theorem parentsFirst_ids (hids : ∀ row ∈ repoRows store split, row.eventId.isSome) :
    ParentsFirst H R prNumber (pullRequestRows H store split) ↔
      ∀ job ∈ repoRows store split, linked H R prNumber (repoRows store split) job = true →
        direct H R prNumber job = false → decodes H R prNumber job = true ∧
          ∃ run ∈ repoRows store split, linkedParent H R prNumber job run = true ∧
            ∃ x ∈ run.eventId, ∃ y ∈ job.eventId, x.val < y.val := by
  have hperm : (pullRequestRows H store split).Perm (repoRows store split) := H.sort_perm _ _
  rw [ParentsFirst, linked_perm hperm]
  constructor
  · intro hfirst job hjob hlinked hdirect
    obtain ⟨before, after, hrows⟩ := List.append_of_mem (hperm.mem_iff.mpr hjob)
    obtain ⟨hdecodes, hparent⟩ := hfirst before job after hrows hlinked hdirect
    obtain ⟨run, hrun, hlink⟩ := List.any_eq_true.mp hparent
    obtain ⟨hmem, hlt⟩ := (mem_before_iff hids hrows).mp hrun
    exact ⟨hdecodes, run, hmem, hlink, hlt⟩
  · intro hids' before job after hrows hlinked hdirect
    have hjob : job ∈ repoRows store split :=
      hperm.mem_iff.mp (hrows ▸ List.mem_append_right _ List.mem_cons_self)
    obtain ⟨hdecodes, run, hrun, hlink, hlt⟩ := hids' job hjob hlinked hdirect
    exact ⟨hdecodes, List.any_eq_true.mpr ⟨run, (mem_before_iff hids hrows).mpr ⟨hrun, hlt⟩, hlink⟩⟩

end Aggregate

section Samples

def sampleRepo : PyStr × PyStr := (ofText "local", ofText "agents")

def sampleRun : EventInsert :=
  { sampleEvent 1 with
    eventType := "workflow_run", runId := some 99
    payloadJson := "\x7b\"pull_requests\":[\x7b\"number\":7\x7d]\x7d" }

def sampleJob : EventInsert :=
  { sampleEvent 2 with
    eventType := "workflow_job", jobId := some 100, parentRunId := some 99 }

def samplePulls (first second : EventInsert) : Store :=
  (Store.empty.insertAll [(first, ulidAt 1), (second, ulidAt 2)]).toOption.elim .empty (·.2)

theorem samplePulls_rows (first second : EventInsert)
    (h : (repoRows (samplePulls first second) sampleRepo).Pairwise fun a b => byEventId a b) :
    pullRequestRows Host.reference (samplePulls first second) sampleRepo =
      repoRows (samplePulls first second) sampleRepo :=
  List.mergeSort_of_pairwise h

/-- A job that comes after its run is counted. -/
theorem aggregate_counts_linked_run : CountsLinked Host.reference Runtime.reference
    (samplePulls sampleRun sampleJob) 0 (ofText "local/agents") sampleRepo 7 := by
  refine (aggregate_counts_linked (by decide)).mpr ⟨?_, ?_⟩
  · have hrows : ∀ row ∈ repoRows (samplePulls sampleRun sampleJob) sampleRepo,
        (reading Host.reference Runtime.reference 7 row).isOk = true := by decide
    intro row hrow
    have hok := hrows row hrow
    cases hread : reading Host.reference Runtime.reference 7 row with
    | ok found => exact ⟨found, hread⟩
    | error exc =>
      rw [hread] at hok
      nomatch hok
  · rw [samplePulls_rows _ _ (by decide), parentsFirst_iff]
    exact (picked_linked [] _).2.mp rfl

/-- The same job is missed where it comes before its run. -/
theorem aggregate_misses_early_job : ¬CountsLinked Host.reference Runtime.reference
    (samplePulls sampleJob sampleRun) 0 (ofText "local/agents") sampleRepo 7 := by
  rintro ⟨found, hfound, hcounts⟩
  have hjobs : found.jobs = [] := by
    have hrows := samplePulls_rows sampleJob sampleRun (by decide)
    have hsplit : splitRepo (some (ofText "local/agents")) = some sampleRepo := by decide
    simp only [toolGetPrAggregateImpl, hsplit, hrows] at hfound
    obtain rfl := Except.ok.inj hfound
    rfl
  rw [hjobs] at hcounts
  exact absurd hcounts.length_eq (by decide)

end Samples

end Waitbus.PrAggregate
