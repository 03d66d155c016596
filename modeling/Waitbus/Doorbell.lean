import Waitbus.Sweep

/-! The doorbell. A producer commits and rings afterwards; what is rung before the listener is
bound is lost. On Linux a thread turns accepted connections into a count that wakes the event
loop; elsewhere the loop accepts by itself. -/

namespace Waitbus.Doorbell
open Python FrameCodec EventStore RowFrame Runs OrderedLog Daemon Sweep

inductive Phase where
  | seeded
  | bound
  | running
  deriving DecidableEq

/-- The daemon with its doorbell. `owed` counts the commits whose ring is still to be made,
`backlog` the connections not yet accepted; `seed` is history: where `_seed_cursor` left the
cursor. -/
structure Bus where
  hub : Hub
  phase : Phase
  linux : Bool
  owed : Nat
  backlog : Nat
  eventfd : Nat
  seed : Nat

inductive Act where
  | commit (batch : List (EventInsert × Ulid))
  | ring
  | openDoorbell
  | startReading
  /-- `accept_one` in the accept thread. A byte that is `late` misses the receive timeout. -/
  | acceptOne (late : Bool)
  /-- The loop's callback; elsewhere than on Linux it accepts `taken` connections first. -/
  | wake (taken : Nat)
  | callback (label : Label)

/-- The callbacks of the loop that have nothing to do with the doorbell. -/
def isCallback : Label → Bool
  | .commit _ | .broadcastPass _ | .shutdown _ => false
  | .heartbeat _ _ | .subscribe _ _ | .ackSend _ | .ackTimeout _ | .resume _ _ | .writable _
  | .cancelHandshakes => true

/-- The rings that `emit_batch` makes: one if a row was inserted. -/
def rings (store : Store) (batch : List (EventInsert × Ulid)) : Nat :=
  match store.insertAll batch with
  | .ok (0, _) => 0
  | .ok (_ + 1, _) => 1
  | .error _ => 0

def Act.label : Act → Option Label
  | .commit batch => some (.commit batch)
  | .wake _ => some (.broadcastPass false)
  | .callback label => some label
  | .ring | .openDoorbell | .startReading | .acceptOne _ => none

def Bus.signal (b : Bus) : Act → Option Bus
  | .commit batch => some { b with owed := b.owed + rings b.hub.store batch }
  | .ring =>
    if b.owed = 0 then none
    else if b.phase = .seeded then some { b with owed := b.owed - 1 }
    else some { b with owed := b.owed - 1, backlog := b.backlog + 1 }
  | .openDoorbell => if b.phase = .seeded then some { b with phase := .bound } else none
  | .startReading => if b.phase = .bound then some { b with phase := .running } else none
  | .acceptOne late =>
    if b.linux ∧ b.phase = .running ∧ 0 < b.backlog then
      some { b with backlog := b.backlog - 1, eventfd := b.eventfd + (!late).toNat }
    else none
  | .wake taken =>
    if b.phase ≠ .running then none
    else if b.linux then if b.eventfd = 0 then none else some { b with eventfd := 0 }
    else if 0 < taken ∧ taken ≤ b.backlog then some { b with backlog := b.backlog - taken }
    else none
  | .callback label => if b.phase = .running ∧ isCallback label then some b else none

def Bus.step (R : Runtime) (b : Bus) (act : Act) : Option Bus := do
  let b ← b.signal act
  match act.label with
  | none => return b
  | some label => return { b with hub := ← b.hub.step R label }

/-- The daemon from `_seed_cursor` on; commits from before it may still have to ring. -/
def busSystem (R : Runtime) : System Bus Act where
  init b := (hubSystem R).init b.hub ∧ b.seed = b.hub.cursor ∧ b.phase = .seeded ∧
    b.backlog = 0 ∧ b.eventfd = 0
  step := Bus.step R

def Bus.Quiet (b : Bus) : Prop :=
  b.owed = 0 ∧ b.backlog = 0 ∧ b.eventfd = 0

/-- The last seq of the rows since `_seed_cursor` that can be fanned out. -/
def Bus.latest (b : Bus) : Nat :=
  ((above Row.seq b.seed b.hub.store.fanOutable).getLast?.map (·.seq)).getD b.seed

/-- After the act another ring is under way, or there is nothing left that one is needed for. -/
def Attended (R : Runtime) (b : Bus) : Act → Prop
  | .startReading => CaughtUp b.hub ∨ 0 < b.owed ∨ 0 < b.backlog
  | .acceptOne true => CaughtUp b.hub ∨ 0 < b.owed ∨ 1 < b.backlog ∨ 0 < b.eventfd
  | .wake taken => SweepsAll R b.hub ∨ 0 < b.owed ∨ (if b.linux then 0 else taken) < b.backlog
  | _ => True

instance (b : Bus) : Decidable b.Quiet :=
  inferInstanceAs (Decidable (_ ∧ _))

instance (R : Runtime) (b : Bus) : ∀ act, Decidable (Attended R b act)
  | .startReading => inferInstanceAs (Decidable (CaughtUp b.hub ∨ _))
  | .acceptOne true => inferInstanceAs (Decidable (CaughtUp b.hub ∨ _))
  | .wake _ => inferInstanceAs (Decidable (SweepsAll R b.hub ∨ _))
  | .acceptOne false | .commit _ | .ring | .openDoorbell | .callback _ => isTrue trivial

/-- The daemon right after `_seed_cursor`, with no ring under way. -/
def Bus.seeded (linux : Bool) (store : Store) : Bus where
  hub := Hub.seeded store
  phase := .seeded
  linux := linux
  owed := 0
  backlog := 0
  eventfd := 0
  seed := store.maxSeq

variable {R : Runtime} {b b' : Bus} {act : Act}

section Refinement

theorem signal_hub (h : b.signal act = some b') : b'.hub = b.hub ∧ b'.seed = b.seed := by
  cases act <;> simp only [Bus.signal] at h
  all_goals repeat' split at h
  all_goals cases h
  all_goals exact ⟨rfl, rfl⟩

/-- A step of the bus is a step of its doorbell and, where the act has a label, of its daemon. -/
theorem step_split (h : b.step R act = some b') : ∃ b₁, b.signal act = some b₁ ∧
    (act.label = none ∧ b' = b₁ ∨
      ∃ label hub', act.label = some label ∧ b.hub.step R label = some hub' ∧
        b' = { b₁ with hub := hub' }) := by
  simp only [Bus.step, Option.bind_eq_bind, Option.bind_eq_some_iff] at h
  obtain ⟨b₁, hsignal, h⟩ := h
  refine ⟨b₁, hsignal, ?_⟩
  cases hlabel : act.label with
  | none =>
    rw [hlabel] at h
    exact .inl ⟨rfl, (Option.some.inj h).symm⟩
  | some label =>
    rw [hlabel] at h
    simp only [Option.bind_eq_some_iff] at h
    obtain ⟨hub', hhub, h⟩ := h
    rw [(signal_hub hsignal).1] at hhub
    exact .inr ⟨label, hub', rfl, hhub, (Option.some.inj h).symm⟩

theorem bus_refines (ok : Bus → Act → Prop) :
    Refines (busSystem R) (hubSystem R) ok (fun _ _ => True) Bus.hub fun _ => Act.label where
  init _ h := h.1
  stutter b act b' hstep hlabel := by
    obtain ⟨b₁, hsignal, ⟨-, rfl⟩ | ⟨label, hub', hsome, -⟩⟩ := step_split hstep
    · exact (signal_hub hsignal).1
    · rw [hlabel] at hsome
      cases hsome
  step b act label b' hstep hlabel := by
    obtain ⟨b₁, -, ⟨hnone, -⟩ | ⟨label', hub', hsome, hhub, rfl⟩⟩ := step_split hstep
    · rw [hlabel] at hnone
      cases hnone
    · rw [hlabel] at hsome
      rw [Option.some.inj hsome]
      exact hhub
  cond _ _ _ _ _ := trivial

end Refinement

section Cursor

variable {hub hub' : Hub}

theorem callback_frame {label : Label} (h : hub.WF) (hlabel : isCallback label = true)
    (hstep : hub.step R label = some hub') :
    hub'.store = hub.store ∧ hub'.cursor = hub.cursor := by
  have hact : ∀ {i act}, (∀ c r, act c = some r → SameEntry c r.1) →
      hub.act R i act = some hub' → hub'.store = hub.store ∧ hub'.cursor = hub.cursor := by
    intro i act hsame hact
    obtain ⟨-, -, -, -, -, rfl⟩ := act_eq h hsame hact
    exact ⟨rfl, rfl⟩
  cases label with
  | commit | broadcastPass | shutdown => cases hlabel
  | heartbeat ts uptimeSec =>
    simp only [Hub.step] at hstep
    split at hstep
    · cases hstep
    · obtain ⟨_, _, _, heq⟩ := heartbeat_eq (R := R) h ts uptimeSec
      rw [← Option.some.inj hstep, heq]
      exact ⟨rfl, rfl⟩
  | subscribe env fault =>
    obtain ⟨-, -, count, rfl⟩ := subscribe_eq hstep
    exact ⟨rfl, rfl⟩
  | ackSend i => exact hact (mapped_entry fun _ _ => ackSend_entry) hstep
  | ackTimeout i => exact hact (mapped_entry fun _ _ => ackTimeout_entry) hstep
  | resume i fault => exact hact (fun _ _ => resume_entry) hstep
  | writable i => exact hact (mapped_entry fun _ _ => writable_entry) hstep
  | cancelHandshakes =>
    rw [← Option.some.inj hstep]
    exact ⟨rfl, rfl⟩

/-- The cursor is where it was seeded or at a row that can be fanned out. -/
structure Placed (seed : Nat) (hub : Hub) : Prop where
  seed_le : seed ≤ hub.cursor
  at_row : hub.cursor = seed ∨ ∃ row ∈ hub.store.fanOutable, row.seq = hub.cursor

theorem Placed.frame {seed : Nat} (h : Placed seed hub) (hgrows : hub.store.Grows hub'.store)
    (hcursor : hub'.cursor = hub.cursor) : Placed seed hub' := by
  refine ⟨hcursor ▸ h.seed_le, ?_⟩
  rw [hcursor]
  refine h.at_row.imp_right ?_
  rintro ⟨row, hrow, hseq⟩
  exact ⟨row, hgrows.fanOutable_subset hrow, hseq⟩

theorem Placed.pass {seed : Nat} (h : Placed seed hub) (hwf : hub.WF) :
    Placed seed (hub.broadcastPass R false).2 := by
  obtain ⟨done, left, hsplit, hstore, -, -, hcursor, -⟩ := pass_outcome (R := R) hwf
  refine ⟨h.seed_le.trans (broadcastPass_frame hwf false).2.2, ?_⟩
  rcases hcursor with hsame | ⟨row, hrow, hseq⟩
  · rw [hsame, hstore]
    exact h.at_row
  · refine .inr ⟨row, ?_, hseq⟩
    rw [hstore]
    exact (mem_swept (hsplit ▸ List.mem_append_left left hrow)).1

theorem Placed.latest (h : Placed b.seed b.hub) (hcaught : CaughtUp b.hub) :
    b.hub.cursor = b.latest := by
  rw [Bus.latest]
  have hinc : Increasing Row.seq (above Row.seq b.seed b.hub.store.fanOutable) :=
    b.hub.store.fanOutable_increasing.above
  cases hlast : (above Row.seq b.seed b.hub.store.fanOutable).getLast? with
  | none =>
    rcases h.at_row with hseed | ⟨row, hrow, hseq⟩
    · exact hseed
    · have hnil := above_eq_nil.mp (List.getLast?_eq_none_iff.mp hlast) row hrow
      exact le_antisymm (hseq ▸ hnil) h.seed_le
  | some last =>
    obtain ⟨hmem, hlt⟩ := mem_above.mp (List.mem_of_getLast? hlast)
    refine le_antisymm ?_ (hcaught last hmem)
    rcases h.at_row with hseed | ⟨row, hrow, hseq⟩
    · exact hseed.trans_le (le_of_lt hlt)
    · rw [← hseq]
      by_cases hle : row.seq ≤ b.seed
      · exact hle.trans (le_of_lt hlt)
      · exact seq_le_getLast hinc (mem_above.mpr ⟨hrow, not_le.mp hle⟩) hlast

end Cursor

section Wakeups

/-- Once the daemon reads its doorbell, a row above the cursor has a ring under way. -/
structure Heard (b : Bus) : Prop where
  placed : Placed b.seed b.hub
  eventfd : b.phase ≠ .running → b.eventfd = 0
  heard : b.phase = .running → CaughtUp b.hub ∨ ¬b.Quiet

theorem not_quiet : ¬b.Quiet ↔ 0 < b.owed ∨ 0 < b.backlog ∨ 0 < b.eventfd := by
  rw [Bus.Quiet]
  omega

theorem Heard.commit {batch : List (EventInsert × Ulid)} {hub' : Hub} (h : Heard b)
    (hstep : b.hub.step R (.commit batch) = some hub') :
    Heard { b with hub := hub', owed := b.owed + rings b.hub.store batch } := by
  simp only [Hub.step] at hstep
  cases hall : b.hub.store.insertAll batch with
  | error exc =>
    rw [hall] at hstep
    rw [← Option.some.inj hstep, rings, hall]
    exact h
  | ok result =>
    obtain ⟨count, store⟩ := result
    rw [hall] at hstep
    rw [← Option.some.inj hstep, rings, hall]
    refine ⟨h.placed.frame (insertAll_grows hall) rfl, h.eventfd, fun hrun => ?_⟩
    cases count with
    | zero =>
      rw [insertAll_none hall]
      exact h.heard hrun
    | succ count => exact .inr (not_quiet.mpr (.inl (Nat.succ_pos b.owed)))

theorem Heard.signal (h : Heard b) (hlabel : act.label = none) (hok : Attended R b act)
    (hsignal : b.signal act = some b') : Heard b' := by
  obtain ⟨hhub, hseed⟩ := signal_hub hsignal
  have hplaced : Placed b'.seed b'.hub := by
    rw [hhub, hseed]
    exact h.placed
  cases act with
  | commit | wake | callback => cases hlabel
  | ring =>
    simp only [Bus.signal] at hsignal
    split at hsignal
    · cases hsignal
    split at hsignal
    · rename_i hphase
      rw [← Option.some.inj hsignal] at hplaced ⊢
      exact ⟨hplaced, h.eventfd, fun hrun => by rw [hphase] at hrun; cases hrun⟩
    · rw [← Option.some.inj hsignal] at hplaced ⊢
      exact ⟨hplaced, h.eventfd, fun _ => .inr (not_quiet.mpr (.inr (.inl (Nat.succ_pos _))))⟩
  | openDoorbell =>
    simp only [Bus.signal] at hsignal
    split at hsignal
    · rename_i hphase
      rw [← Option.some.inj hsignal] at hplaced ⊢
      exact ⟨hplaced, fun _ => h.eventfd (by simp [hphase]), fun hrun => nomatch hrun⟩
    · cases hsignal
  | startReading =>
    simp only [Bus.signal] at hsignal
    split at hsignal
    · rename_i hphase
      rw [← Option.some.inj hsignal] at hplaced ⊢
      refine ⟨hplaced, fun hno => absurd rfl hno, fun _ => ?_⟩
      rcases hok with hcaught | howed | hbacklog
      · exact .inl hcaught
      · exact .inr (not_quiet.mpr (.inl howed))
      · exact .inr (not_quiet.mpr (.inr (.inl hbacklog)))
    · cases hsignal
  | acceptOne late =>
    simp only [Bus.signal] at hsignal
    split at hsignal
    · rename_i hguard
      rw [← Option.some.inj hsignal] at hplaced ⊢
      refine ⟨hplaced, fun hno => absurd hguard.2.1 hno, fun _ => ?_⟩
      cases late with
      | false => exact .inr (not_quiet.mpr (.inr (.inr (Nat.succ_pos _))))
      | true =>
        refine hok.imp_right fun hmore => not_quiet.mpr ?_
        simp only [Bool.not_true, Bool.toNat_false]
        omega
    · cases hsignal

theorem Heard.wake {taken : Nat} (h : Heard b) (hwf : b.hub.WF) (hok : Attended R b (.wake taken))
    (hsignal : b.signal (.wake taken) = some b') :
    Heard { b' with hub := (b.hub.broadcastPass R false).2 } := by
  have hseed := (signal_hub hsignal).2
  refine ⟨hseed ▸ h.placed.pass hwf, ?_, fun _ => hok.imp (pass_catches_up hwf) fun hmore => ?_⟩
  all_goals
    simp only [Bus.signal] at hsignal
    split at hsignal
    · cases hsignal
    rename_i hrun
  · have hphase : b'.phase = b.phase := by
      repeat' split at hsignal
      all_goals cases hsignal
      all_goals rfl
    exact fun hno => absurd (hphase ▸ hno) hrun
  · refine not_quiet.mpr ?_
    split at hsignal <;> rename_i hlinux
    · rw [if_pos hlinux] at hmore
      split at hsignal
      · cases hsignal
      · cases hsignal
        exact hmore.imp_right .inl
    · rw [if_neg hlinux] at hmore
      split at hsignal
      · cases hsignal
        simp only
        omega
      · cases hsignal

theorem heard_invariant (h : Reach (busSystem R) (Attended R) b) : Heard b := by
  refine h.invariant (I := Heard) ?_ ?_
  · rintro b ⟨-, hseed, hphase, -, heventfd⟩
    exact ⟨⟨le_of_eq hseed, .inl hseed.symm⟩, fun _ => heventfd, fun hrun => by
      rw [hphase] at hrun
      cases hrun⟩
  · intro b act b' hreach h hok hstep
    have hwf : b.hub.WF := reach_wf ((bus_refines _).reach hreach)
    obtain ⟨b₁, hsignal, ⟨hlabel, rfl⟩ | ⟨label, hub', hlabel, hhub, rfl⟩⟩ := step_split hstep
    · exact h.signal hlabel hok hsignal
    · cases act with
      | ring | openDoorbell | startReading | acceptOne => cases hlabel
      | commit batch =>
        cases hlabel
        cases hsignal
        exact h.commit hhub
      | wake taken =>
        cases hlabel
        simp only [Hub.step] at hhub
        split at hhub
        · cases hhub
        · rw [← Option.some.inj hhub]
          exact h.wake hwf hok hsignal
      | callback label =>
        cases hlabel
        simp only [Bus.signal] at hsignal
        split at hsignal
        · rename_i hguard
          cases hsignal
          obtain ⟨hstore, hcursor⟩ := callback_frame hwf hguard.2 hhub
          refine ⟨h.placed.frame (hstore ▸ .refl _) hcursor, h.eventfd, fun hrun => ?_⟩
          rw [CaughtUp, hstore, hcursor]
          exact h.heard hrun
        · cases hsignal

/-- In every attended run, once no ring is under way the cursor is at the last row there is. -/
theorem no_lost_wakeup (h : Reach (busSystem R) (Attended R) b) (hrun : b.phase = .running)
    (hquiet : b.Quiet) : b.hub.cursor = b.latest ∧ CaughtUp b.hub :=
  have hheard := heard_invariant h
  have hcaught : CaughtUp b.hub := (hheard.heard hrun).resolve_right (not_not_intro hquiet)
  ⟨hheard.placed.latest hcaught, hcaught⟩

/-- A row that is committed before the doorbell is bound, and rung for afterwards. -/
theorem no_lost_wakeup_run : ∃ b : Bus, b.seed < b.hub.cursor ∧ b.hub.cursor = b.latest ∧
    CaughtUp b.hub := by
  obtain ⟨b, hrun, hlt, hphase, hquiet⟩ : ∃ b ∈ (busSystem .reference).exec (.seeded true .empty)
      [.commit [(sampleEvent 1, ulidAt 1)], .openDoorbell, .startReading, .ring,
        .acceptOne false, .wake 0],
      b.seed < b.hub.cursor ∧ b.phase = .running ∧ b.Quiet := by
    decide +kernel
  have hstart : Reach (busSystem .reference) (Attended .reference) (.seeded true .empty) :=
    .start ⟨seeded_init _ _, rfl, rfl, rfl, rfl⟩
  exact ⟨b, hlt, no_lost_wakeup (hstart.exec hrun (by decide +kernel)) hphase hquiet⟩

/-- The ring for a row comes while no doorbell is bound, and the row waits for another. -/
theorem wakeup_lost : ∃ b, Reachable (busSystem .reference) b ∧ b.phase = .running ∧ b.Quiet ∧
    b.hub.cursor < b.latest ∧ ¬CaughtUp b.hub := by
  obtain ⟨b, hrun, hlost⟩ : ∃ b ∈ (busSystem .reference).exec (.seeded true .empty)
      [.commit [(sampleEvent 1, ulidAt 1)], .ring, .openDoorbell, .startReading],
      b.phase = .running ∧ b.Quiet ∧ b.hub.cursor < b.latest ∧ ¬CaughtUp b.hub := by
    decide +kernel
  have hstart : Reachable (busSystem .reference) (.seeded true .empty) :=
    .start ⟨seeded_init _ _, rfl, rfl, rfl, rfl⟩
  exact ⟨b, hstart.exec hrun, hlost⟩

end Wakeups

end Waitbus.Doorbell
