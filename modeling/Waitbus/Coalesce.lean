import Mathlib
import Waitbus.Compaction
import Waitbus.Listen

/-! Coalesced replay: the backlog of a subscriber collapsed to the latest frame of each entity. The
latest frame is the one with the greatest event id, the flush is in the order of ids, and the
bookmark that each emitted frame moves is a position in the order of commits. -/

namespace Waitbus.Coalesce
open Python Json EventStore Await Bookmark Listen Compaction

abbrev EntityKey := String × String × PyStr

/-- A positive `int`, which a `bool` is not, as the last part of a GitHub key. -/
def githubKey (kind : String) : Option Value → Option EntityKey
  | some (.int n) => if 0 < n then some ("github", kind, ofText (toString n)) else none
  | _ => none

def entityKey (frame : Value) : Option EntityKey :=
  match field frame "fields" with
  | some (.obj fields) =>
    if fieldIs (.obj fields) "source" "github" then
      if fieldIs frame "event_type" "workflow_job" then githubKey "job" (lookup "job_id" fields)
      else if fieldIs frame "event_type" "workflow_run" then
        githubKey "run" (lookup "run_id" fields)
      else none
    else if fieldIs (.obj fields) "source" "alertmanager" then
      match lookup "alert_fingerprint" fields with
      | some (.str fingerprint) =>
        if fingerprint = [] then none else some ("alertmanager", "alert", fingerprint)
      | _ => none
    else none
  | _ => none

/-- The mapping that the consumer contract states: an alert is an entity when the event is a
`prometheus_alert`. -/
def documentedKey (frame : Value) : Option EntityKey :=
  match entityKey frame with
  | some ("alertmanager", kind, fingerprint) =>
    if fieldIs frame "event_type" "prometheus_alert" then some ("alertmanager", kind, fingerprint)
    else none
  | key => key

def eventId (frame : Value) : Except PyExc PyStr :=
  match field frame "event_id" with
  | some (.str (c :: rest)) => .ok (c :: rest)
  | _ => .error .valueError

/-- What the comparison of two `str` compares. -/
def codes (s : PyStr) : List Nat :=
  s.map PyChar.code

/-- The closure `_accumulate`. -/
def accumulate (b : Backlog Value EntityKey) (frame : Value) :
    Except PyExc (Backlog Value EntityKey) :=
  match entityKey frame with
  | none => .ok { b with passthrough := b.passthrough ++ [frame] }
  | some key =>
    match get key b.snapshot with
    | none => .ok { b with snapshot := put key frame b.snapshot }
    | some prev => do
      let id ← eventId frame
      let prevId ← eventId prev
      return if codes prevId < codes id then { b with snapshot := put key frame b.snapshot } else b

/-- `sorted(list(snapshot.values()) + passthrough, key=_event_id)`. -/
def merged (b : Backlog Value EntityKey) : Except PyExc (List Value) := do
  let keyed ← b.items.mapM fun frame => do return (codes (← eventId frame), frame)
  return (keyed.insertionSort fun x y => x.1 ≤ y.1).map (·.2)

/-- `_accumulate` as the engine calls it. -/
def decideFrame (b : Backlog Value EntityKey) (frame : Value) :
    Except Failure (Backlog Value EntityKey × FrameDecision) :=
  match accumulate b frame with
  | .ok b => .ok (b, .continue)
  | .error exc => .error (.python exc)

/-- `coalesce_replay` without a live tail: how it ends, and the frames of its flush. -/
def coalesceReplay (reads : List (Option Arrival)) : Ending × List Value :=
  match awaitPredicate decideFrame reads ⟨[], []⟩ with
  | (.raised failure, _) => (.raised failure, [])
  | (.cancelled, _) => (.cancelled, [])
  | (ending, b) =>
    match merged b with
    | .ok frames => (ending, frames)
    | .error exc => (.raised (.python exc), [])

def Flushes : Ending → Prop
  | .raised _ | .cancelled => False
  | _ => True

def idRank (frame : Value) : List Nat :=
  codes ((eventId frame).toOption.getD [])

section Latest

variable {frames : List Value} {reads : List (Option Arrival)}

theorem codes_inj {s t : PyStr} (h : codes s = codes t) : s = t :=
  List.map_injective_iff.mpr (fun _ _ => PyChar.code_inj) h

/-- The frames carry ids, no two the same. -/
structure Identified (frames : List Value) : Prop where
  ids : ∀ frame ∈ frames, ∃ id, eventId frame = .ok id
  distinct : (frames.map idRank).Nodup

theorem accumulate_add {b : Backlog Value EntityKey} {frame : Value}
    (hb : ∀ y ∈ b.snapshot, ∃ id, eventId y.2 = .ok id) (hframe : ∃ id, eventId frame = .ok id) :
    accumulate b frame = .ok (b.add entityKey idRank frame) := by
  obtain ⟨id, hid⟩ := hframe
  unfold accumulate Backlog.add
  cases hkey : entityKey frame with
  | none => rfl
  | some key =>
    simp only
    cases hprev : get key b.snapshot with
    | none => rfl
    | some prev =>
      obtain ⟨p, hp, rfl⟩ := Option.map_eq_some_iff.mp hprev
      obtain ⟨prevId, hprevId⟩ := hb p (List.mem_of_find?_eq_some hp)
      simp only [hid, hprevId, bind, Except.bind, pure, Except.pure, idRank, Except.toOption,
        Option.getD_some]

theorem mapM_keyed {items : List Value} (h : ∀ frame ∈ items, ∃ id, eventId frame = .ok id) :
    items.mapM (fun frame => do return (codes (← eventId frame), frame)) =
      (.ok (items.map fun frame => (idRank frame, frame)) : Except PyExc _) := by
  induction items with
  | nil => rfl
  | cons frame rest ih =>
    obtain ⟨id, hid⟩ := h frame List.mem_cons_self
    have hrest := ih fun f hf => h f (List.mem_cons_of_mem _ hf)
    rw [List.mapM_cons, hrest]
    simp only [hid, bind, Except.bind, pure, Except.pure, List.map_cons, idRank, Except.toOption,
      Option.getD_some]

theorem merged_items {b : Backlog Value EntityKey}
    (h : ∀ frame ∈ b.items, ∃ id, eventId frame = .ok id) :
    merged b = .ok (b.items.insertionSort fun x y => idRank x ≤ idRank y) := by
  have hsort := List.map_insertionSort (fun x y => idRank x ≤ idRank y)
    (s := fun x y : List Nat × Value => x.1 ≤ y.1) (fun frame => (idRank frame, frame)) b.items
    fun _ _ _ _ => Iff.rfl
  rw [merged, mapM_keyed h]
  simp only [bind, Except.bind, pure, Except.pure]
  rw [← hsort, List.map_map]
  exact congrArg Except.ok (List.map_id _)

theorem coalesceReplay_eq (hflush : Flushes (ending reads)) (hids : Identified (heard reads)) :
    coalesceReplay reads = (ending reads, compact entityKey idRank (heard reads)) := by
  have hstored : ∀ frames b, Gathers entityKey idRank frames b → (∀ f ∈ frames, f ∈ heard reads) →
      ∀ f ∈ b.items, ∃ id, eventId f = .ok id := by
    intro frames b hb hsub f hf
    refine hids.ids f (hsub f ?_)
    rcases List.mem_append.mp hf with hf | hf
    · obtain ⟨p, hp, rfl⟩ := List.mem_map.mp hf
      exact ((hb.latest p.1 p.2).mp hp).2.1
    · rw [hb.unkeyed] at hf
      exact (List.mem_filter.mp hf).1
  have hdrain : ∀ frames b v rest, heard reads = frames ++ v :: rest →
      Gathers entityKey idRank frames b →
      decideFrame b v = .ok (b.add entityKey idRank v, .continue) ∧
        Gathers entityKey idRank (frames ++ [v]) (b.add entityKey idRank v) := by
    intro frames b v rest hsplit hb
    have hsub : ∀ f ∈ frames, f ∈ heard reads := fun f hf => by simp [hsplit, hf]
    have hadd : accumulate b v = .ok (b.add entityKey idRank v) := by
      refine accumulate_add (fun p hp => ?_) (hids.ids v (by simp [hsplit]))
      exact hstored frames b hb hsub p.2 (List.mem_append_left _ (List.mem_map_of_mem hp))
    refine ⟨by rw [decideFrame, hadd], hb.add ?_⟩
    have hdistinct := hids.distinct
    rw [hsplit, ← List.singleton_append (l := rest), ← List.append_assoc, List.map_append,
      List.nodup_append] at hdistinct
    exact hdistinct.1
  have hstart : Gathers entityKey idRank [] ⟨[], []⟩ := gather_gathers entityKey List.nodup_nil
  obtain ⟨heq, hall⟩ := awaitPredicate_continues (Gathers entityKey idRank) hdrain hstart
  have hmerged := merged_items (hstored _ _ hall fun _ hf => hf)
  rw [coalesceReplay, heq]
  cases hending : ending reads with
  | raised failure => exact absurd hflush (by simp [hending, Flushes])
  | cancelled => exact absurd hflush (by simp [hending, Flushes])
  | matched => simp only [hmerged]; rfl
  | timedOut => simp only [hmerged]; rfl
  | framingEof => simp only [hmerged]; rfl
  | cleanEof => simp only [hmerged]; rfl

theorem documentedKey_of_typed {frame : Value}
    (h : ∀ kind fingerprint, entityKey frame = some ("alertmanager", kind, fingerprint) →
      fieldIs frame "event_type" "prometheus_alert" = true) :
    entityKey frame = documentedKey frame := by
  unfold documentedKey
  split
  · rename_i kind fingerprint hkey
    rw [if_pos (h kind fingerprint hkey), hkey]
  · rfl

/-- The flush hands over, for each entity, the frame with the greatest event id, and every frame
that has no entity, in the order of ids and each once. -/
theorem coalesce_keeps_latest (hflush : Flushes (ending reads)) (hids : Identified (heard reads))
    (htyped : ∀ f ∈ heard reads, ∀ kind fingerprint,
      entityKey f = some ("alertmanager", kind, fingerprint) →
        fieldIs f "event_type" "prometheus_alert" = true) :
    (coalesceReplay reads).1 = ending reads ∧
      (coalesceReplay reads).2.Pairwise (fun f g => idRank f < idRank g) ∧
      ∀ f, f ∈ (coalesceReplay reads).2 ↔ f ∈ heard reads ∧ ∀ key, documentedKey f = some key →
        ∀ g ∈ heard reads, documentedKey g = some key → idRank g ≤ idRank f := by
  rw [coalesceReplay_eq hflush hids]
  refine ⟨rfl, compact_sorted entityKey hids.distinct, fun f => ?_⟩
  rw [mem_compact hids.distinct]
  refine and_congr_right fun hf => ?_
  rw [documentedKey_of_typed (htyped f hf)]
  refine forall_congr' fun key => imp_congr_right fun _ => forall₂_congr fun g hg => ?_
  rw [documentedKey_of_typed (htyped g hg)]

end Latest

section Samples

def sampleFrame (id : Ulid) (eventType : String) (fields : List (PyStr × Value)) : Value :=
  .obj [(ofText "event_id", .str (ofText id.val)), (ofText "kind", .str (ofText "event")),
    (ofText "event_type", .str (ofText eventType)), (ofText "fields", .obj fields)]

def runFrame (id : Ulid) (runId : Int) : Value :=
  sampleFrame id "workflow_run"
    [(ofText "source", .str (ofText "github")), (ofText "run_id", .int runId)]

def watchdogFrame (id : Ulid) : Value :=
  sampleFrame id "prometheus_watchdog" [(ofText "source", .str (ofText "alertmanager")),
    (ofText "alert_fingerprint", .str (ofText "fp"))]

def readsOf (frames : List Value) : List (Option Arrival) :=
  frames.map fun frame => some (.frame frame)

theorem heard_readsOf {frames : List Value} (h : ∀ f ∈ frames, handling f = .handed) :
    heard (readsOf frames) = frames ∧ ending (readsOf frames) = .timedOut := by
  induction frames with
  | nil => exact ⟨rfl, rfl⟩
  | cons v rest ih =>
    obtain ⟨hheard, hending⟩ := ih fun f hf => h f (List.mem_cons_of_mem _ hf)
    obtain ⟨hv, hv'⟩ := ending_frame (readsOf rest) (h v List.mem_cons_self)
    exact ⟨hv.trans (congrArg _ hheard), hv'.trans hending⟩

def sampleBacklog : List Value :=
  [runFrame (ulidAt 1) 7, runFrame (ulidAt 3) 7, runFrame (ulidAt 2) 8]

theorem coalesce_keeps_latest_run :
    (heard (readsOf sampleBacklog)).length = 3 ∧
    (coalesceReplay (readsOf sampleBacklog)).1 = ending (readsOf sampleBacklog) ∧
      (coalesceReplay (readsOf sampleBacklog)).2.Pairwise (fun f g => idRank f < idRank g) ∧
      ∀ f, f ∈ (coalesceReplay (readsOf sampleBacklog)).2 ↔
        f ∈ heard (readsOf sampleBacklog) ∧ ∀ key, documentedKey f = some key →
          ∀ g ∈ heard (readsOf sampleBacklog), documentedKey g = some key →
            idRank g ≤ idRank f := by
  obtain ⟨hheard, hending⟩ : heard (readsOf sampleBacklog) = sampleBacklog ∧
      ending (readsOf sampleBacklog) = .timedOut := by
    refine heard_readsOf ?_
    simp only [sampleBacklog, List.forall_mem_cons]
    exact ⟨rfl, rfl, rfl, by simp⟩
  refine ⟨by rw [hheard]; rfl, coalesce_keeps_latest ?_ ?_ ?_⟩
  · rw [hending]
    trivial
  · rw [hheard]
    refine ⟨?_, by decide +kernel⟩
    simp only [sampleBacklog, List.forall_mem_cons]
    exact ⟨⟨_, rfl⟩, ⟨_, rfl⟩, ⟨_, rfl⟩, by simp⟩
  · have hgithub : ∀ f ∈ sampleBacklog, ∀ kind fingerprint,
        entityKey f ≠ some ("alertmanager", kind, fingerprint) := by
      simp only [sampleBacklog, List.forall_mem_cons]
      have hrun : ∀ id runId kind fingerprint,
          entityKey (runFrame id runId) ≠ some ("alertmanager", kind, fingerprint) := by
        intro id runId kind fingerprint
        change githubKey "run" (some (.int runId)) ≠ _
        rw [githubKey]
        split_ifs
        · simp
        · simp
      exact ⟨hrun _ _, hrun _ _, hrun _ _, by simp⟩
    rw [hheard]
    exact fun f hf kind fingerprint hkey => absurd hkey (hgithub f hf kind fingerprint)

/-- The last committed frame of run 7 has the smaller id and is dropped; of two liveness frames
that carry a fingerprint one is. -/
theorem coalesce_drops_last :
    (∃ first last key, documentedKey first = some key ∧ documentedKey last = some key ∧
      idRank last < idRank first ∧
      (coalesceReplay (readsOf [first, last])).2.map idRank = [idRank first]) ∧
    ∃ first last, documentedKey first = none ∧ documentedKey last = none ∧
      idRank first < idRank last ∧
      (coalesceReplay (readsOf [first, last])).2.map idRank = [idRank last] := by
  refine ⟨⟨runFrame (ulidAt 9) 7, runFrame (ulidAt 5) 7, ("github", "run", ofText "7"), rfl, rfl,
    ?_, ?_⟩, ⟨watchdogFrame (ulidAt 1), watchdogFrame (ulidAt 2), rfl, rfl, ?_, ?_⟩⟩ <;>
    decide +kernel

end Samples

end Waitbus.Coalesce
