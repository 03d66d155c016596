import Waitbus.Coalesce

/-! A coalesced replay whose process dies in its flush, and the replay that resumes from the
bookmark. The flush goes in the order of ids, and the daemon resumes behind the bookmark in the
order of commits. -/

namespace Waitbus.Resume
open Python Json EventStore Await Bookmark Listen Compaction Coalesce

/-- The flush of a replay that is sent these frames until it has been idle. -/
def flushOf (sents : List Sent) : List Value :=
  (coalesceReplay (readsOf (sents.map (·.frame)))).2

/-- The bookmark after `cursor.advance`, when the write does not fail. -/
def advance (stored : PyStr) (frame : Value) : PyStr :=
  (cursorId frame).getD stored

/-- A replay from the bookmark `start` dies when it has emitted the frames `emitted` of its flush.
It was sent the `window` of what the daemon had in its `log`, and `more` was committed before the
next replay; the bookmark has `advances` frames, all that were emitted or all but the last. -/
structure Crash where
  start : Ulid
  log : List Sent
  more : List Sent
  window : List Sent
  emitted : List Value
  left : List Value
  advances : Nat
  nodup : ((log ++ more).map (·.id)).Nodup
  fresh : start ∉ more.map (·.id)
  within : window <+: after (ofText start.val) log
  flush : flushOf window = emitted ++ left
  advanced : advances = emitted.length ∨ advances + 1 = emitted.length

def Crash.stored (c : Crash) : PyStr :=
  (c.emitted.take c.advances).foldl advance (ofText c.start.val)

def Crash.resumed (c : Crash) : List Sent :=
  match load c.stored with
  | none => []
  | some id => after id (c.log ++ c.more)

/-- What came after the bookmark that the first replay began with. -/
def Crash.owed (c : Crash) : List Sent :=
  after (ofText c.start.val) (c.log ++ c.more)

def Crash.passed (c : Crash) : List Sent :=
  c.owed.take (c.owed.length - c.resumed.length)

def Crash.handed (c : Crash) : List Value :=
  c.emitted ++ flushOf c.resumed

/-- Every frame without an entity is emitted, and the last frame that is emitted of each entity is
its newest. -/
def Crash.Complete (c : Crash) : Prop :=
  Covers entityKey (c.owed.map (·.frame)) c.handed

/-- What the bookmark went past had been emitted, with the newest of each entity under its greatest
id, and so is the newest of each entity that the bookmark has not gone past. -/
def Crash.Agrees (c : Crash) : Prop :=
  InOrder entityKey idRank (c.window.map (·.frame)) c.emitted (c.passed.map (·.frame))
    (c.resumed.map (·.frame))

section Frames

variable {sent : Sent} {sents : List Sent}

theorem eventId_sent (sent : Sent) : eventId sent.frame = .ok (ofText sent.id.val) := by
  have hnamed := sent.named
  unfold cursorId at hnamed
  split at hnamed
  · cases hnamed
  · split at hnamed
    · cases hnamed
    · rename_i id hid hfield
      cases id with
      | nil => exact absurd rfl (hid ·)
      | cons c rest =>
        rw [eventId, hfield]
        exact congrArg Except.ok (Option.some.inj hnamed)
    · cases hnamed

theorem idRank_sent (sent : Sent) : idRank sent.frame = codes (ofText sent.id.val) := by
  rw [idRank, eventId_sent]
  rfl

theorem identified (h : (sents.map (·.id)).Nodup) : Identified (sents.map (·.frame)) := by
  constructor
  · intro frame hframe
    obtain ⟨sent, -, rfl⟩ := List.mem_map.mp hframe
    exact ⟨_, eventId_sent sent⟩
  · have hranks : (sents.map (·.frame)).map idRank =
        (sents.map (·.id)).map fun id => codes (ofText id.val) := by
      rw [List.map_map, List.map_map]
      exact List.map_congr_left fun sent _ => idRank_sent sent
    rw [hranks]
    exact h.map fun a b hab => ulid_ofText_inj (codes_inj hab)

theorem flushOf_eq (h : (sents.map (·.id)).Nodup) :
    flushOf sents = compact entityKey idRank (sents.map (·.frame)) := by
  have hhanded : ∀ frame ∈ sents.map (·.frame), handling frame = .handed := by
    intro frame hframe
    obtain ⟨sent, -, rfl⟩ := List.mem_map.mp hframe
    exact sent.handed
  obtain ⟨hheard, hending⟩ := heard_readsOf hhanded
  have hids := identified h
  rw [← hheard] at hids
  rw [flushOf, coalesceReplay_eq (by rw [hending]; trivial) hids, hheard]

end Frames

section Cut

variable {id : PyStr} {log more before rest : List Sent} {sent : Sent}

theorem after_append (hfresh : ∀ s ∈ more, ofText s.id.val ≠ id) :
    after id (log ++ more) = after id log ++ more := by
  induction more using List.reverseRecOn with
  | nil => simp
  | append_singleton more sent ih =>
    rw [← List.append_assoc, after_publish (hfresh sent (by simp)),
      ih fun s hs => hfresh s (List.mem_append_left _ hs), List.append_assoc]

theorem after_split (hnodup : (log.map (·.id)).Nodup) (h : after id log = before ++ sent :: rest) :
    after (ofText sent.id.val) log = rest := by
  induction before generalizing id with
  | nil => exact after_next hnodup h
  | cons x before ih => exact ih (after_next hnodup h)

theorem Crash.owed_eq (c : Crash) : c.owed = after (ofText c.start.val) c.log ++ c.more :=
  after_append fun _ hsent heq => c.fresh (ulid_ofText_inj heq ▸ List.mem_map_of_mem hsent)

theorem Crash.window_prefix (c : Crash) : c.window <+: c.owed := by
  rw [c.owed_eq]
  exact c.within.trans (List.prefix_append _ _)

theorem Crash.owed_nodup (c : Crash) : (c.owed.map (·.id)).Nodup :=
  ((after_suffix _ _).sublist.map _).nodup c.nodup

theorem Crash.window_nodup (c : Crash) : (c.window.map (·.id)).Nodup :=
  (c.window_prefix.sublist.map _).nodup c.owed_nodup

theorem foldl_advance (frames : List Value) (frame : Value) (stored : PyStr)
    (h : cursorId frame = some id) : (frames ++ [frame]).foldl advance stored = id := by
  rw [List.foldl_append, List.foldl_cons, List.foldl_nil, advance, h]
  rfl

theorem Crash.stored_cases (c : Crash) :
    c.stored = ofText c.start.val ∨ ∃ sent ∈ c.window, c.stored = ofText sent.id.val := by
  cases hlast : (c.emitted.take c.advances).getLast? with
  | none =>
    rw [List.getLast?_eq_none_iff] at hlast
    rw [Crash.stored, hlast]
    exact .inl rfl
  | some frame =>
    obtain ⟨init, hinit⟩ := List.getLast?_eq_some_iff.mp hlast
    have hmem : frame ∈ c.emitted := List.mem_of_mem_take (List.mem_of_getLast? hlast)
    have hflush : frame ∈ compact entityKey idRank (c.window.map (·.frame)) := by
      rw [← flushOf_eq c.window_nodup, c.flush]
      exact List.mem_append_left _ hmem
    obtain ⟨sent, hsent, rfl⟩ :=
      List.mem_map.mp ((mem_compact (identified c.window_nodup).distinct).mp hflush).1
    refine .inr ⟨sent, hsent, ?_⟩
    rw [Crash.stored, hinit]
    exact foldl_advance _ _ _ sent.named

/-- What is owed falls apart into what the bookmark went past, which the first replay was sent, and
what the second one is sent. -/
theorem Crash.owed_split (c : Crash) :
    ∃ passed, c.owed = passed ++ c.resumed ∧ ∀ sent ∈ passed, sent ∈ c.window := by
  rcases c.stored_cases with hstored | ⟨sent, hsent, hstored⟩
  · refine ⟨[], ?_, by simp⟩
    rw [Crash.resumed, hstored, load_ulid]
    rfl
  · obtain ⟨before, behind, hsplit⟩ := List.append_of_mem hsent
    obtain ⟨rest, hrest⟩ := c.window_prefix
    have howed : c.owed = before ++ sent :: (behind ++ rest) := by
      rw [← hrest, hsplit, List.append_assoc, List.cons_append]
    refine ⟨before ++ [sent], ?_, fun s hs => ?_⟩
    · rw [Crash.resumed, hstored, load_ulid]
      simp only [after_split c.nodup howed]
      rw [howed, List.append_assoc, List.singleton_append]
    · rw [hsplit]
      rcases List.mem_append.mp hs with hs | hs
      · exact List.mem_append_left _ hs
      · rw [List.mem_singleton.mp hs]
        exact List.mem_append_right _ List.mem_cons_self

theorem Crash.passed_resumed (c : Crash) :
    c.owed = c.passed ++ c.resumed ∧ ∀ sent ∈ c.passed, sent ∈ c.window := by
  obtain ⟨passed, hsplit, hwindow⟩ := c.owed_split
  have hpassed : c.passed = passed := by
    rw [Crash.passed, hsplit, List.length_append, Nat.add_sub_cancel, List.take_left']
    rfl
  rw [hpassed]
  exact ⟨hsplit, hwindow⟩

/-- The two replays miss nothing exactly when the orders of ids and of commits agree around the
bookmark. -/
theorem flush_resumes_iff (c : Crash) : c.Complete ↔ c.Agrees := by
  obtain ⟨hsplit, hpassed⟩ := c.passed_resumed
  have howed : c.owed.map (·.frame) = c.passed.map (·.frame) ++ c.resumed.map (·.frame) := by
    rw [← List.map_append, ← hsplit]
  have hresumed : (c.resumed.map (·.id)).Nodup := by
    have hnodup := c.owed_nodup
    rw [hsplit, List.map_append] at hnodup
    exact (List.nodup_append.mp hnodup).2.1
  have hall := (identified c.owed_nodup).distinct
  rw [howed] at hall
  rw [Crash.Complete, Crash.handed, flushOf_eq hresumed, howed]
  refine covers_iff hall (identified c.window_nodup).distinct ?_ ?_
    ((flushOf_eq c.window_nodup).symm.trans c.flush)
  · intro frame hframe
    obtain ⟨sent, hsent, rfl⟩ := List.mem_map.mp hframe
    exact List.mem_map_of_mem (hpassed sent hsent)
  · rw [← howed]
    intro frame hframe
    obtain ⟨sent, hsent, rfl⟩ := List.mem_map.mp hframe
    exact List.mem_map_of_mem (c.window_prefix.subset hsent)

end Cut

section Samples

def sentOf (id : Ulid) (eventType : String) (fields : List (PyStr × Value)) : Sent where
  id := id
  frame := sampleFrame id eventType fields
  named := by
    have hfield : field (sampleFrame id eventType fields) "event_id" =
      some (.str (ofText id.val)) := rfl
    have hbeat : fieldIs (sampleFrame id eventType fields) "kind" "daemon_heartbeat" = false := rfl
    rw [cursorId, hbeat, hfield]
    cases hid : ofText id.val with
    | nil => exact absurd hid (ofText_ulid_ne id)
    | cons => rfl
  handed := rfl

def runSent (id : Ulid) (runId : Int) : Sent :=
  sentOf id "workflow_run"
    [(ofText "source", .str (ofText "github")), (ofText "run_id", .int runId)]

/-- Two runs and a container event, committed against the order of their ids. -/
def sampleWindow : List Sent :=
  [sentOf (ulidAt 6) "docker_container" [(ofText "source", .str (ofText "docker"))],
    runSent (ulidAt 5) 7, runSent (ulidAt 3) 8]

/-- The process dies once it has emitted one frame and stored its id. -/
def sampleCrash : Crash where
  start := ulidAt 0
  log := sampleWindow
  more := []
  window := sampleWindow
  emitted := (flushOf sampleWindow).take 1
  left := (flushOf sampleWindow).drop 1
  advances := 1
  nodup := by decide +kernel
  fresh := by simp
  within := by
    rw [after, if_neg (by decide +kernel)]
  flush := (List.take_append_drop 1 _).symm
  advanced := by decide +kernel

/-- The frame that is emitted first is the last that was committed: neither the container event nor
the other run is emitted by either replay. -/
theorem flush_overtakes : ∃ c : Crash, ¬c.Complete ∧
    (∃ x ∈ c.owed.map (·.frame), entityKey x = none ∧ x ∉ c.handed) ∧
    ∃ key, newest entityKey key (c.owed.map (·.frame)) ≠ none ∧
      newest entityKey key c.handed = none := by
  have hunkeyed : ∃ sent ∈ sampleCrash.owed, entityKey sent.frame = none ∧
      ∀ y ∈ sampleCrash.handed, idRank y ≠ idRank sent.frame := by
    decide +kernel
  have hkeyed :
      (∃ sent ∈ sampleCrash.owed, entityKey sent.frame = some ("github", "run", ofText "7")) ∧
      ∀ y ∈ sampleCrash.handed, entityKey y ≠ some ("github", "run", ofText "7") := by
    decide +kernel
  obtain ⟨sent, hsent, hnone, hlost⟩ := hunkeyed
  have hnot : sent.frame ∉ sampleCrash.handed := fun h => hlost _ h rfl
  have hmem := List.mem_map_of_mem (f := (·.frame)) hsent
  obtain ⟨⟨run, hrun, hkey⟩, hskipped⟩ := hkeyed
  refine ⟨sampleCrash, fun hall => hnot (hall.1 _ hmem hnone), ⟨_, hmem, hnone, hnot⟩,
    ("github", "run", ofText "7"), fun hnil => ?_, newest_eq_none.mpr hskipped⟩
  exact newest_eq_none.mp hnil _ (List.mem_map_of_mem hrun) hkey

end Samples

end Waitbus.Resume
