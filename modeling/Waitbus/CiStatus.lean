import Mathlib
import Waitbus.McpReads
import Waitbus.Polling

/-! The runs that `get_ci_status` picks. Its queries go by the time of receipt alone, so that they
agree on one row for each repository just as long as no two runs of one share the latest time. -/

namespace Waitbus.CiStatus
open Python FrameCodec EventStore McpReads

section Newest

def runRows (store : Store) : List Row :=
  store.rows.filter fun row => row.eventType = "workflow_run"

def sameRepo (a b : Row) : Bool :=
  a.owner = b.owner && a.repo = b.repo

def rank (row : Row) : ℤ ×ₗ ℕ :=
  toLex (row.receivedAt.val, row.seq)

def latest (store : Store) (e : Row) : Bool :=
  (runRows store).all fun row =>
    !(row.owner = e.owner && row.repo = e.repo) || row.receivedAt.val ≤ e.receivedAt.val

def newestRuns (store : Store) : List Row :=
  (runRows store).filter fun e =>
    (runRows store).all fun row => !sameRepo row e || rank row ≤ rank e

/-- In each repository the latest time of receipt is that of one run. -/
def Untied (store : Store) : Prop :=
  ∀ a ∈ runRows store, ∀ b ∈ runRows store, sameRepo a b = true → latest store a = true →
    latest store b = true → a = b

/-- Without a repository the newest run of each is returned, and for a repository that same run. -/
def PicksNewest (H : Host) (store : Store) (now : Int) : Prop :=
  (∀ repo, splitRepo repo = none → (toolGetCiStatusImpl H (some store) now repo).runs.Perm
    ((newestRuns store).map rowToRunStatus)) ∧
  ∀ repo split, splitRepo repo = some split → (toolGetCiStatusImpl H (some store) now repo).runs =
    ((newestRuns store).filter (ofRepo split)).map rowToRunStatus

end Newest

section Picks

variable {H : Host} {store : Store} {now : Int} {a b e row : Row}

theorem sameRepo_iff : sameRepo a b = true ↔ a.owner = b.owner ∧ a.repo = b.repo := by
  rw [sameRepo, Bool.and_eq_true, decide_eq_true_eq, decide_eq_true_eq]

theorem latest_iff : latest store e = true ↔
    ∀ row ∈ runRows store, sameRepo row e = true → row.receivedAt.val ≤ e.receivedAt.val := by
  simp [latest, sameRepo, imp_iff_not_or]

theorem mem_newestRuns : e ∈ newestRuns store ↔ e ∈ runRows store ∧
    ∀ row ∈ runRows store, sameRepo row e = true → rank row ≤ rank e := by
  simp [newestRuns, imp_iff_not_or]

theorem latest_of_newest (h : e ∈ newestRuns store) : latest store e = true := by
  obtain ⟨-, hnewest⟩ := mem_newestRuns.mp h
  refine latest_iff.mpr fun row hrow hrepo => ?_
  rcases Prod.Lex.toLex_le_toLex.mp (hnewest row hrow hrepo) with hlt | ⟨heq, -⟩
  · exact hlt.le
  · exact heq.le

theorem nodup_rows (store : Store) : store.rows.Nodup :=
  store.increasing.imp fun hlt heq => absurd (congrArg Row.seq heq) hlt.ne

theorem rank_inj (ha : a ∈ store.rows) (hb : b ∈ store.rows) (h : rank a = rank b) : a = b := by
  by_contra hne
  have hseq : a.seq = b.seq := congrArg (fun r : ℤ ×ₗ ℕ => (ofLex r).2) h
  have : Std.Symm fun a b : Row => a.seq ≠ b.seq := ⟨fun a b hab => hab.symm⟩
  exact (store.increasing.imp fun hlt => hlt.ne).forall ha hb hne hseq

theorem newest_unique (ha : a ∈ newestRuns store) (hb : b ∈ newestRuns store)
    (h : sameRepo a b = true) : a = b := by
  obtain ⟨hmemA, hnewestA⟩ := mem_newestRuns.mp ha
  obtain ⟨hmemB, hnewestB⟩ := mem_newestRuns.mp hb
  have hsymm : sameRepo b a = true := sameRepo_iff.mpr ((sameRepo_iff.mp h).imp Eq.symm Eq.symm)
  exact rank_inj (List.mem_of_mem_filter hmemA) (List.mem_of_mem_filter hmemB)
    (le_antisymm (hnewestB a hmemA h) (hnewestA b hmemB hsymm))

theorem exists_newest (h : e ∈ runRows store) :
    ∃ row ∈ newestRuns store, sameRepo row e = true := by
  have hself : sameRepo e e = true := sameRepo_iff.mpr ⟨rfl, rfl⟩
  cases hmax : List.argmax rank ((runRows store).filter (sameRepo · e)) with
  | none =>
    have hmem : e ∈ (runRows store).filter (sameRepo · e) := List.mem_filter.mpr ⟨h, hself⟩
    rw [List.argmax_eq_none.mp hmax] at hmem
    nomatch hmem
  | some row =>
    obtain ⟨hrow, hrepo⟩ := List.mem_filter.mp (List.argmax_mem hmax)
    refine ⟨row, mem_newestRuns.mpr ⟨hrow, fun other hother hsame => ?_⟩, hrepo⟩
    obtain ⟨howner, hname⟩ := sameRepo_iff.mp hrepo
    rw [sameRepo_iff, howner, hname, ← sameRepo_iff] at hsame
    exact List.le_of_mem_argmax (List.mem_filter.mpr ⟨hother, hsame⟩) hmax

theorem newestRuns_sublist :
    (newestRuns store).Sublist ((runRows store).filter (latest store)) := by
  have hkept : (newestRuns store).filter (latest store) = newestRuns store :=
    List.filter_eq_self.mpr fun row hrow => latest_of_newest hrow
  rw [← hkept]
  exact List.Sublist.filter _ List.filter_sublist

theorem untied_iff : Untied store ↔ newestRuns store = (runRows store).filter (latest store) := by
  constructor
  · intro huntied
    refine List.filter_congr fun e he => Bool.eq_iff_iff.mpr ⟨fun hnewest => ?_, fun hlatest => ?_⟩
    · exact latest_of_newest (List.mem_filter.mpr ⟨he, hnewest⟩)
    · obtain ⟨row, hrow, hrepo⟩ := exists_newest he
      obtain rfl := huntied row (List.mem_of_mem_filter hrow) e he hrepo (latest_of_newest hrow)
        hlatest
      exact (List.mem_filter.mp hrow).2
  · intro heq a ha b hb hrepo hlatestA hlatestB
    have hmem : ∀ e ∈ runRows store, latest store e = true → e ∈ newestRuns store :=
      fun e he hlatest => heq ▸ List.mem_filter.mpr ⟨he, hlatest⟩
    exact newest_unique (hmem a ha hlatestA) (hmem b hb hlatestB) hrepo

theorem statusRows_none {repo : Option PyStr} (h : splitRepo repo = none) :
    statusRows H store repo = H.sort byRepo ((runRows store).filter (latest store)) := by
  rw [statusRows, h]
  rfl

theorem statusRows_some {repo : Option PyStr} {split : PyStr × PyStr}
    (h : splitRepo repo = some split) : statusRows H store repo =
      (H.sort newestFirst ((runRows store).filter (ofRepo split))).take 1 := by
  rw [statusRows, h]
  rfl

theorem sameRepo_of_ofRepo {split : PyStr × PyStr} (ha : ofRepo split a = true)
    (hb : ofRepo split b = true) : sameRepo a b = true := by
  simp only [ofRepo, Bool.decide_and, Bool.and_eq_true, decide_eq_true_eq] at ha hb
  exact sameRepo_iff.mpr
    ⟨ofText_inj.mp (ha.1.trans hb.1.symm),
      ofText_inj.mp (ha.2.trans hb.2.symm)⟩

theorem ofRepo_of_sameRepo {split : PyStr × PyStr} (hb : ofRepo split b = true)
    (h : sameRepo a b = true) : ofRepo split a = true := by
  obtain ⟨howner, hrepo⟩ := sameRepo_iff.mp h
  rwa [ofRepo, howner, hrepo]

/-- Where its latest time is that of one run, the query for a repository returns the newest. -/
theorem statusRows_newest (huntied : Untied store) {repo : Option PyStr} {split : PyStr × PyStr}
    (h : splitRepo repo = some split) :
    statusRows H store repo = (newestRuns store).filter (ofRepo split) := by
  have hperm := H.sort_perm newestFirst ((runRows store).filter (ofRepo split))
  have hsorted := sort_newestFirst H ((runRows store).filter (ofRepo split))
  rw [statusRows_some h]
  cases hrows : H.sort newestFirst ((runRows store).filter (ofRepo split)) with
  | nil =>
    rw [hrows] at hperm
    refine (List.filter_eq_nil_iff.mpr fun row hrow hsplit => ?_).symm
    have hmem := hperm.mem_iff.mpr
      (List.mem_filter.mpr ⟨(mem_newestRuns.mp hrow).1, hsplit⟩)
    nomatch hmem
  | cons first rest =>
    rw [hrows] at hperm hsorted
    obtain ⟨hfirst, hsplit⟩ := List.mem_filter.mp (hperm.mem_iff.mp List.mem_cons_self)
    -- The first row was received last of all, and no other run of the repository was then.
    have hlatest : latest store first = true := latest_iff.mpr fun row hrow hsame => by
      have hmem := hperm.mem_iff.mpr
        (List.mem_filter.mpr ⟨hrow, ofRepo_of_sameRepo hsplit hsame⟩)
      rcases List.mem_cons.mp hmem with rfl | hmem
      · exact le_refl _
      · exact (List.pairwise_cons.mp hsorted).1 row hmem
    have hnewest : first ∈ newestRuns store := by
      rw [untied_iff.mp huntied]
      exact List.mem_filter.mpr ⟨hfirst, hlatest⟩
    have hnodup : ((newestRuns store).filter (ofRepo split)).Nodup :=
      ((nodup_rows store).filter _ |>.filter _).filter _
    refine (List.perm_singleton.mp ((List.perm_ext_iff_of_nodup hnodup
      (List.nodup_singleton first)).mpr fun row => ?_)).symm
    rw [List.mem_filter, List.mem_singleton]
    constructor
    · exact fun ⟨hrow, hof⟩ => newest_unique hrow hnewest (sameRepo_of_ofRepo hof hsplit)
    · rintro rfl
      exact ⟨hnewest, hsplit⟩

/-- The status is that of the newest runs exactly when no two runs of a repository share its latest
time of receipt. -/
theorem picks_newest_iff : PicksNewest H store now ↔ Untied store := by
  constructor
  · intro hpicks
    have hlength := (hpicks.1 none rfl).length_eq
    rw [toolGetCiStatusImpl, List.length_map, List.length_map, statusRows_none rfl,
      (H.sort_perm _ _).length_eq] at hlength
    exact untied_iff.mpr (newestRuns_sublist.eq_of_length hlength.symm)
  · intro huntied
    refine ⟨fun repo hrepo => ?_, fun repo split hrepo => ?_⟩
    · rw [toolGetCiStatusImpl, statusRows_none hrepo, untied_iff.mp huntied]
      exact (H.sort_perm _ _).map _
    · rw [toolGetCiStatusImpl, statusRows_newest huntied hrepo]

end Picks

section Batches

open Polling

variable {store t : Store} {owner repo : String} {receivedAt : Int} {runs : List (Item × Ulid)}
  {count : Nat}

theorem upsertRuns_new (h : upsertRuns store owner repo receivedAt runs = .ok (count, t)) :
    ∃ new, t.rows = store.rows ++ new ∧ new.length = count ∧ ∀ row ∈ new,
      row.eventType = "workflow_run" ∧ row.owner = owner ∧ row.repo = repo ∧
        row.receivedAt.val = receivedAt := by
  obtain ⟨new, hrows, hlength, hnew⟩ := insertAll_new h
  refine ⟨new, hrows, hlength, fun row hrow => ?_⟩
  obtain ⟨entry, hentry, stored, hstored, heq⟩ := hnew row hrow
  obtain ⟨item, -, hitem⟩ := List.mem_filterMap.mp hentry
  obtain ⟨id, -, rfl⟩ := Option.map_eq_some_iff.mp hitem
  have hreceived := row_receivedAt hstored
  obtain ⟨_, _, _, _, -, -, -, -, rfl⟩ := event_row hstored
  rw [heq]
  exact ⟨rfl, rfl, rfl, hreceived⟩

theorem batch_tied (h : upsertRuns store owner repo receivedAt runs = .ok (count, t))
    (hcount : 2 ≤ count) (hlater : ∀ row ∈ store.rows, row.receivedAt.val ≤ receivedAt) :
    ¬Untied t := by
  obtain ⟨new, hrows, rfl, hnew⟩ := upsertRuns_new h
  obtain ⟨a, b, rest, rfl⟩ : ∃ a b rest, new = a :: b :: rest := by
    match new, hcount with
    | a :: b :: rest, _ => exact ⟨a, b, rest, rfl⟩
  have hrun : ∀ row ∈ a :: b :: rest, row ∈ runRows t := fun row hrow =>
    List.mem_filter.mpr
      ⟨hrows ▸ List.mem_append_right _ hrow, decide_eq_true (hnew row hrow).1⟩
  have hlatest : ∀ row ∈ a :: b :: rest, latest t row = true := fun row hrow => by
    refine latest_iff.mpr fun other hother _ => ?_
    rw [(hnew row hrow).2.2.2]
    rcases List.mem_append.mp (hrows ▸ List.mem_of_mem_filter hother) with hold | hold
    · exact hlater other hold
    · exact (hnew other hold).2.2.2.le
  have hb : b ∈ a :: b :: rest := List.mem_cons_of_mem _ List.mem_cons_self
  have hrepo : sameRepo a b = true := by
    obtain ⟨-, howner, hname, -⟩ := hnew a List.mem_cons_self
    obtain ⟨-, howner', hname', -⟩ := hnew b hb
    exact sameRepo_iff.mpr ⟨howner.trans howner'.symm, hname.trans hname'.symm⟩
  intro huntied
  have heq := huntied a (hrun a List.mem_cons_self) b (hrun b hb) hrepo
    (hlatest a List.mem_cons_self) (hlatest b hb)
  have hnodup := hrows ▸ nodup_rows t
  rw [List.nodup_append, List.nodup_cons] at hnodup
  exact hnodup.2.1.1 (heq ▸ List.mem_cons_self)

def samplePolled : Store :=
  (upsertRuns .empty "owner" "repo" nsReceivedAtMin
    [(sampleItem "completed" (some "success"), ulidAt 1),
      ({ sampleItem "queued" none with id := some 8 }, ulidAt 2)]).toOption.elim .empty (·.2)

/-- Both of them are returned for the repository. -/
theorem batch_picks_two : ¬PicksNewest Host.reference samplePolled 0 := by
  intro h
  have hlength := (h.1 none rfl).length_eq
  rw [toolGetCiStatusImpl, List.length_map, List.length_map, statusRows_none rfl,
    (Host.reference.sort_perm _ _).length_eq] at hlength
  exact absurd hlength (by decide)

end Batches

end Waitbus.CiStatus
