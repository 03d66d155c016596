import Waitbus.RestartLoop

/-! Whom the restart loop signals. The kernel gives the number of a group out again once its child
has been reaped and nobody is left in it, and the loop holds on to the number of a child that it has
reaped itself. -/

namespace Waitbus.RestartLoop
open Runs

section Specification

/-- No `killpg` of the child in `running` comes any more. -/
def State.signalsOver (s : State) : Bool :=
  match s.point with
  | .stopping .reaping (some _) | .stopping (.unlinking _) (some _) | .exited _ => true
  | _ => false

/-- No unrelated group takes the number of a child that the loop has reaped and may still signal. -/
def Spared (s : State) : Act → Prop
  | .groupTaken n => ∀ c ∈ s.running, c.pid = n → c.reaped = true → s.signalsOver = true
  | _ => True

instance (s : State) : DecidablePred (Spared s)
  | .groupTaken n => inferInstanceAs
      (Decidable (∀ c ∈ s.running, c.pid = n → c.reaped = true → s.signalsOver = true))
  | .interrupt _ | .matched | .leaves _ | .proceeds | .timesOut | .raises | .refused | .makes _
  | .launches _ | .groupChanges _ _ | .forgotten _ | .groupFreed _ => .isTrue trivial

end Specification

section Invariant

variable {s t : State} {c : Child} {act : Act} {g g' : Group}

/-- A child that has not been reaped is still there to hold its number. -/
def State.Holds (s : State) (c : Child) : Prop :=
  c.reaped = false → ∃ g ∈ s.groups, g.number = c.pid ∧ g.leader ≠ .reaped

structure Numbered (s : State) : Prop where
  apart : ∀ g ∈ s.groups, g.Present → g.number ∉ s.unrelated
  holds : ∀ c, s.running = some c ∨ s.point = .assigning c → s.Holds c
  fresh : ∀ c, s.point = .assigning c → c.reaped = false
  free : ∀ c, s.running = some c → s.signalsOver = false → c.pid ∉ s.unrelated
  spared : .unrelated ∉ s.targets

/-- The step changes no more than the place of the loop and the files, and begins no `killpg`. -/
structure Quiet (s t : State) : Prop where
  running : t.running = s.running
  groups : t.groups = s.groups
  unrelated : t.unrelated = s.unrelated
  targets : t.targets = s.targets
  point : ∀ c, t.point = .assigning c → s.point = .assigning c
  ended : s.signalsOver = true → t.signalsOver = true

theorem Numbered.quiet (h : Numbered s) (hq : Quiet s t) : Numbered t where
  apart := by
    rw [hq.groups, hq.unrelated]
    exact h.apart
  holds c hc := by
    rw [hq.running] at hc
    rw [State.Holds, hq.groups]
    exact h.holds c (hc.imp_right (hq.point c))
  fresh c hc := h.fresh c (hq.point c hc)
  free c hc hover := by
    rw [hq.running] at hc
    rw [hq.unrelated]
    refine h.free c hc ?_
    cases hs : s.signalsOver with
    | false => rfl
    | true => exact absurd (hq.ended hs) (by simp [hover])
  spared := by
    rw [hq.targets]
    exact h.spared

theorem quiet_to {point : Point} (hpoint : ∀ c, point ≠ .assigning c)
    (hover : s.signalsOver = false) : Quiet s { s with point } :=
  ⟨rfl, rfl, rfl, rfl, fun c hc => absurd hc (hpoint c), by simp [hover]⟩

theorem quiet_close {outcome : Outcome} (hover : s.signalsOver = false) :
    Quiet s (s.close outcome) := by
  rw [State.close]
  split
  · exact quiet_to (by simp) hover
  · exact quiet_to (by simp) hover

theorem quiet_stopped {final : Option Outcome} {exc : Option Exc}
    (hover : final = none → s.signalsOver = false) : Quiet s (s.stopped final exc) := by
  cases final with
  | some outcome => cases exc <;> exact ⟨rfl, rfl, rfl, rfl, nofun, fun _ => rfl⟩
  | none =>
    cases exc with
    | none => exact quiet_to nofun (hover rfl)
    | some exc => exact quiet_close (hover rfl)

theorem Numbered.groups (h : Numbered s) {groups : List Group}
    (hpresent : ∀ g' ∈ groups, g'.Present → ∃ g ∈ s.groups, g.Present ∧ g'.number = g.number)
    (hholds : ∀ c, s.running = some c ∨ s.point = .assigning c → s.Holds c →
      State.Holds { s with groups } c) : Numbered { s with groups } where
  apart g' hg' hpres := by
    obtain ⟨g, hg, hpres, hnumber⟩ := hpresent g' hg' hpres
    rw [hnumber]
    exact h.apart g hg hpres
  holds c hc := hholds c hc (h.holds c hc)
  fresh := h.fresh
  free := h.free
  spared := h.spared

theorem kill_present (h : g.kill.Present) : g.Present := by
  simp only [Group.Present, Group.kill] at h ⊢
  split at h <;> simp_all

theorem kill_held (h : g.leader ≠ .reaped) : g.kill.leader ≠ .reaped := by
  simp only [Group.kill]
  split
  · simp
  · exact h

theorem reap_present (h : g.reap.Present) : g.Present := by
  simp only [Group.Present, Group.reap] at h ⊢
  split at h <;> simp_all

theorem change_present {change : Change} (h : g.change change = some g') (_ : g'.Present) :
    g.Present := by
  cases change with
  | leaderExits =>
    simp only [Group.change, Option.ite_none_right_eq_some] at h
    exact .inl (by simp [h.1])
  | forks =>
    simp only [Group.change, Option.ite_none_right_eq_some] at h
    exact h.1.imp (by simp +contextual) id
  | otherExits =>
    simp only [Group.change, Option.ite_none_right_eq_some] at h
    exact .inr h.1

theorem change_held {change : Change} (h : g.change change = some g')
    (hheld : g.leader ≠ .reaped) : g'.leader ≠ .reaped := by
  cases change <;> simp only [Group.change, Option.ite_none_right_eq_some, Option.some.injEq] at h
  · exact h.2 ▸ (by simp)
  · exact h.2 ▸ hheld
  · exact h.2 ▸ hheld

theorem onGroup_present {n : Nat} {f : Group → Group} (hnumber : ∀ g, (f g).number = g.number)
    (hpresent : ∀ g, (f g).Present → g.Present) (hmem : g' ∈ (s.onGroup n f).groups)
    (hpres : g'.Present) : ∃ g ∈ s.groups, g.Present ∧ g'.number = g.number := by
  obtain ⟨g, hg, rfl⟩ := List.mem_map.mp hmem
  refine ⟨g, hg, ?_⟩
  split at hpres <;> simp_all

theorem Numbered.term (h : Numbered s) (hrunning : s.running = some c)
    (hover : s.signalsOver = false) : Numbered (s.term c.pid) where
  apart := h.apart
  holds := h.holds
  fresh := h.fresh
  free := h.free
  spared := by
    have hfree := h.free c hrunning hover
    have htarget : s.target c.pid ≠ .unrelated := by
      rw [State.target, if_neg hfree]
      split <;> exact nofun
    simpa [State.term, h.spared] using htarget.symm

theorem Numbered.kill (h : Numbered s) (hrunning : s.running = some c)
    (hover : s.signalsOver = false) : Numbered (s.kill c.pid) := by
  refine (h.term hrunning hover).groups ?_ ?_
  · intro g' hg hpres
    exact onGroup_present (s := s.term c.pid) kill_number (fun _ => kill_present) hg hpres
  · intro c' _ hholds hreaped
    obtain ⟨g, hg, hnumber, hleader⟩ := hholds hreaped
    refine ⟨_, List.mem_map_of_mem hg, ?_⟩
    split
    · exact ⟨hnumber, kill_held hleader⟩
    · exact ⟨hnumber, hleader⟩

theorem Numbered.reap (h : Numbered s) (hrunning : s.running = some c)
    (hpoint : ∀ c', s.point ≠ .assigning c') : Numbered (s.reap c) := by
  rw [State.reap]
  split
  · exact h
  · constructor
    · intro g' hg hpres
      obtain ⟨g, hg, hpres, hnumber⟩ :=
        onGroup_present (s := s) reap_number (fun _ => reap_present) hg hpres
      rw [hnumber]
      exact h.apart g hg hpres
    · rintro c' (hc | hc)
      · obtain rfl := Option.some.inj hc
        intro hreaped
        cases hreaped
      · exact absurd hc (hpoint c')
    · exact fun c' hc => absurd hc (hpoint c')
    · intro c' hc hover
      obtain rfl := Option.some.inj hc
      exact h.free c hrunning hover
    · exact h.spared

theorem Numbered.lastWait (h : Numbered s) (hpoint : ∀ c', s.point ≠ .assigning c') :
    Numbered s.lastWait := by
  rw [State.lastWait]
  split
  · exact h
  · rename_i c hrunning
    split
    · exact h.reap hrunning hpoint
    · exact h

@[simp] theorem reap_point : (s.reap c).point = s.point := by
  rw [State.reap]
  split <;> rfl

@[simp] theorem lastWait_point : s.lastWait.point = s.point := by
  rw [State.lastWait]
  split
  · rfl
  · split
    · exact reap_point
    · rfl

theorem final_of_over {phase : Phase} {final : Option Outcome}
    (hpoint : s.point = .stopping phase final) (hover : s.signalsOver = true) :
    ∃ outcome, final = some outcome := by
  cases final with
  | some outcome => exact ⟨outcome, rfl⟩
  | none =>
    rw [State.signalsOver, hpoint] at hover
    cases phase <;> nomatch hover

theorem quiet_unlinking {phase : Phase} {final : Option Outcome} {pending : Option Exc}
    (hpoint : s.point = .stopping phase final) :
    Quiet s { s with point := .stopping (.unlinking pending) final } := by
  refine ⟨rfl, rfl, rfl, rfl, nofun, ?_⟩
  intro hover
  obtain ⟨outcome, rfl⟩ := final_of_over hpoint hover
  rfl

theorem interrupt_numbered {signal : Interrupt} (h : Numbered s)
    (hstep : s.interrupt signal = some t) : Numbered t := by
  simp only [State.interrupt] at hstep
  split at hstep
  case h_2 hpoint _ =>
    exact Option.some.inj hstep ▸ h.quiet (quiet_close (by rw [State.signalsOver, hpoint]))
  case h_8 final hpoint =>
    refine Option.some.inj hstep ▸ h.quiet (quiet_stopped ?_)
    intro _
    rw [State.signalsOver, hpoint]
  case h_9 final hpoint =>
    refine Option.some.inj hstep ▸ h.quiet (quiet_stopped ?_)
    intro hfinal
    rw [State.signalsOver, hpoint, hfinal]
  case h_10 hpoint =>
    have hlast := h.lastWait (by simp [hpoint])
    exact Option.some.inj hstep ▸
      hlast.quiet (quiet_to (by simp) (by rw [State.signalsOver, lastWait_point, hpoint]))
  case h_11 hpoint =>
    have hlast := h.lastWait (by simp [hpoint])
    exact Option.some.inj hstep ▸ hlast.quiet (quiet_unlinking (by rw [lastWait_point, hpoint]))
  case h_12 hpoint _ _ =>
    exact Option.some.inj hstep ▸ h.quiet (quiet_unlinking hpoint)
  case h_13 => cases hstep
  all_goals
    rename_i hpoint
    exact Option.some.inj hstep ▸ h.quiet (quiet_close (by rw [State.signalsOver, hpoint]))

theorem Numbered.assign (h : Numbered s) (hpoint : s.point = .assigning c) :
    Numbered { s with point := .parked, running := some c } where
  apart := h.apart
  holds c' hc := by
    obtain rfl := Option.some.inj (hc.resolve_right nofun)
    exact h.holds c (.inr hpoint)
  fresh := nofun
  free c' hc _ := by
    obtain rfl := Option.some.inj hc
    obtain ⟨g, hg, hnumber, hleader⟩ := h.holds c (.inr hpoint) (h.fresh c hpoint)
    exact hnumber ▸ h.apart g hg (.inl hleader)
  spared := h.spared

theorem proceed_numbered (h : Numbered s) (hstep : s.proceed = some t) : Numbered t := by
  simp only [State.proceed] at hstep
  split at hstep
  case h_1 hpoint _ =>
    exact Option.some.inj hstep ▸ h.quiet (quiet_to (by simp) (by rw [State.signalsOver, hpoint]))
  case h_2 hpoint hrunning =>
    split at hstep
    · have hreap := h.reap hrunning (by simp [hpoint])
      exact Option.some.inj hstep ▸
        hreap.quiet (quiet_to (by simp) (by rw [State.signalsOver, reap_point, hpoint]))
    · exact Option.some.inj hstep ▸ h.quiet (quiet_to (by simp) (by rw [State.signalsOver, hpoint]))
  case h_3 c hpoint hrunning =>
    have hover : s.signalsOver = false := by rw [State.signalsOver, hpoint]
    exact Option.some.inj hstep ▸
      (h.term hrunning hover).quiet (quiet_to (s := s.term c.pid) (by simp) hover)
  case h_4 hpoint _ =>
    exact Option.some.inj hstep ▸ h.quiet (quiet_to (by simp) (by rw [State.signalsOver, hpoint]))
  case h_5 hpoint hrunning =>
    split at hstep
    · have hreap := h.reap hrunning (by simp [hpoint])
      exact Option.some.inj hstep ▸
        hreap.quiet (quiet_to (by simp) (by rw [State.signalsOver, reap_point, hpoint]))
    · cases hstep
  case h_6 c hpoint hrunning =>
    have hover : s.signalsOver = false := by rw [State.signalsOver, hpoint]
    exact Option.some.inj hstep ▸
      (h.kill hrunning hover).quiet (quiet_to (s := s.kill c.pid) (by simp) hover)
  case h_7 hpoint hrunning =>
    split at hstep
    · have hreap := h.reap hrunning (by simp [hpoint])
      exact Option.some.inj hstep ▸ hreap.quiet (quiet_unlinking (by rw [reap_point, hpoint]))
    · cases hstep
  case h_8 final c hpoint hrunning =>
    have hunlink : Numbered (s.unlink c.eventFile) :=
      h.quiet ⟨rfl, rfl, rfl, rfl, fun _ => id, id⟩
    refine Option.some.inj hstep ▸ hunlink.quiet (quiet_stopped ?_)
    intro hfinal
    simp [State.signalsOver, State.unlink, hpoint, hfinal]
  case h_9 hpoint =>
    exact Option.some.inj hstep ▸ h.quiet (quiet_to (by simp) (by rw [State.signalsOver, hpoint]))
  case h_10 path error hpoint =>
    have hunlink : Numbered (s.unlink path) := h.quiet ⟨rfl, rfl, rfl, rfl, fun _ => id, id⟩
    refine Option.some.inj hstep ▸ hunlink.quiet (quiet_close ?_)
    simp [State.signalsOver, State.unlink, hpoint]
  case h_11 hpoint => exact Option.some.inj hstep ▸ h.assign hpoint
  case h_12 => cases hstep

theorem launch_numbered {path : String} {launch : Launch} (h : Numbered s)
    (hpoint : s.point = .launching path) (hstep : s.launch path launch = some t) :
    Numbered t := by
  have hover : s.signalsOver = false := by rw [State.signalsOver, hpoint]
  cases launch with
  | child pid =>
    simp only [State.launch, Option.ite_none_left_eq_some, not_or] at hstep
    obtain ⟨⟨-, hfree⟩, hstep⟩ := hstep
    obtain rfl := Option.some.inj hstep
    constructor
    · intro g hg hpres
      rcases List.mem_append.mp hg with hg | hg
      · exact h.apart g hg hpres
      · rw [List.mem_singleton.mp hg]
        exact hfree
    · rintro c (hc | hc) hreaped
      · obtain ⟨g, hg, hheld⟩ := h.holds c (.inl hc) hreaped
        exact ⟨g, List.mem_append_left _ hg, hheld⟩
      · obtain rfl := Point.assigning.inj hc
        exact ⟨_, List.mem_append_right _ (List.mem_singleton_self _), rfl, (by simp)⟩
    · intro c hc
      obtain rfl := Point.assigning.inj hc
      rfl
    · exact fun c hc _ => h.free c hc hover
    · exact h.spared
  | osError error =>
    exact Option.some.inj hstep ▸ h.quiet (quiet_to (by simp) hover)
  | otherError => exact Option.some.inj hstep ▸ h.quiet (quiet_close hover)

/-- Where one group is replaced, a child holds its number as before if it is another's, or if the
replacement's leader still has it. -/
theorem set_numbered {i : Nat} (h : Numbered s) (hget : s.groups[i]? = some g)
    (hnumber : g'.number = g.number) (hpresent : g'.Present → g.Present)
    (hheld : s.held g.number = true → g.leader ≠ .reaped → g'.leader ≠ .reaped) :
    Numbered { s with groups := s.groups.set i g' } := by
  obtain ⟨hi, hg⟩ := List.getElem?_eq_some_iff.mp hget
  refine h.groups ?_ ?_
  · intro other hother hpres
    rcases List.mem_or_eq_of_mem_set hother with hold | rfl
    · exact ⟨other, hold, hpres, rfl⟩
    · exact ⟨g, List.mem_of_getElem? hget, hpresent hpres, hnumber⟩
  · intro c hc hholds hreaped
    obtain ⟨other, hother, hpid, hleader⟩ := hholds hreaped
    obtain ⟨j, hj⟩ := List.mem_iff_getElem?.mp hother
    by_cases hij : i = j
    · subst hij
      obtain rfl := Option.some.inj (hget.symm.trans hj)
      refine ⟨g', List.mem_set hi g', hnumber.trans hpid, hheld ?_ hleader⟩
      rw [State.held, Bool.or_eq_true, hpid]
      rcases hc with hc | hc
      · exact .inl (by simp [hc])
      · exact .inr (by simp [hc])
    · refine ⟨other, ?_, hpid, hleader⟩
      exact List.mem_of_getElem? (by rw [List.getElem?_set_ne hij, hj])

theorem taken_numbered {n : Nat} (h : Numbered s) (hok : Spared s (.groupTaken n))
    (hfree : ¬s.Spawned n) : Numbered { s with unrelated := n :: s.unrelated } where
  apart g hg hpres := by
    rw [List.mem_cons, not_or]
    exact ⟨fun hnumber => hfree ⟨g, hg, hnumber, hpres⟩, h.apart g hg hpres⟩
  holds := h.holds
  fresh := h.fresh
  free c hc hover := by
    rw [List.mem_cons, not_or]
    refine ⟨?_, h.free c hc hover⟩
    intro hpid
    cases hreaped : c.reaped with
    | true =>
      have hend : s.signalsOver = true := hok c hc hpid hreaped
      exact absurd hend (by simp [show s.signalsOver = false from hover])
    | false =>
      -- The kernel has not given out the number of a child that it still has to report.
      obtain ⟨g, hg, hnumber, hleader⟩ := h.holds c (.inl hc) hreaped
      exact hfree ⟨g, hg, hnumber.trans hpid, .inl hleader⟩
  spared := h.spared

theorem step_numbered (h : Numbered s) (hok : Spared s act) (hstep : s.step act = some t) :
    Numbered t := by
  cases act with
  | interrupt signal => exact interrupt_numbered h hstep
  | matched =>
    simp only [State.step] at hstep
    split at hstep
    · rename_i hpoint _
      exact Option.some.inj hstep ▸ h.quiet (quiet_to (by simp) (by rw [State.signalsOver, hpoint]))
    · rename_i hpoint _
      exact Option.some.inj hstep ▸ h.quiet (quiet_to (by simp) (by rw [State.signalsOver, hpoint]))
    · cases hstep
  | leaves code =>
    simp only [State.step] at hstep
    split at hstep
    · rename_i hpoint
      exact Option.some.inj hstep ▸ h.quiet (quiet_close (by rw [State.signalsOver, hpoint]))
    · cases hstep
  | proceeds => exact proceed_numbered h hstep
  | timesOut =>
    simp only [State.step] at hstep
    split at hstep
    · rename_i hpoint _
      simp only [Option.ite_none_left_eq_some] at hstep
      exact Option.some.inj hstep.2 ▸
        h.quiet (quiet_to (by simp) (by rw [State.signalsOver, hpoint]))
    · rename_i hpoint _
      simp only [Option.ite_none_left_eq_some] at hstep
      exact Option.some.inj hstep.2 ▸ h.quiet (quiet_unlinking hpoint)
    · cases hstep
  | raises =>
    simp only [State.step] at hstep
    split at hstep
    case h_4 => cases hstep
    all_goals
      rename_i hpoint
      exact Option.some.inj hstep ▸ h.quiet (quiet_close (by rw [State.signalsOver, hpoint]))
  | refused =>
    simp only [State.step] at hstep
    split at hstep
    · rename_i hpoint
      exact Option.some.inj hstep ▸ h.quiet (quiet_unlinking hpoint)
    · rename_i hpoint
      exact Option.some.inj hstep ▸ h.quiet (quiet_unlinking hpoint)
    · cases hstep
  | makes path =>
    simp only [State.step] at hstep
    split at hstep
    · rename_i hpoint
      simp only [Option.ite_none_left_eq_some] at hstep
      refine Option.some.inj hstep.2 ▸ h.quiet ⟨rfl, rfl, rfl, rfl, (by simp), ?_⟩
      simp [State.signalsOver, hpoint]
    · cases hstep
  | launches launch =>
    simp only [State.step] at hstep
    split at hstep
    · rename_i path hpoint
      exact launch_numbered h hpoint hstep
    · cases hstep
  | groupChanges i change =>
    simp only [State.step, Option.bind_eq_bind, Option.bind_eq_some_iff] at hstep
    obtain ⟨g, hget, g', hchange, hstep⟩ := hstep
    have hset := set_numbered h hget (change_number hchange) (change_present hchange)
      fun _ => change_held hchange
    exact Option.some.inj hstep ▸ hset
  | forgotten i =>
    simp only [State.step, Option.bind_eq_bind, Option.bind_eq_some_iff,
      Option.ite_none_left_eq_some] at hstep
    obtain ⟨g, hget, hheld, hstep⟩ := hstep
    have hset := set_numbered h hget (reap_number g) reap_present fun hheld' => absurd hheld' hheld
    exact Option.some.inj hstep ▸ hset
  | groupTaken n =>
    simp only [State.step, Option.ite_none_left_eq_some, not_or] at hstep
    obtain ⟨⟨hfree, -⟩, hstep⟩ := hstep
    exact Option.some.inj hstep ▸ taken_numbered h hok hfree
  | groupFreed n =>
    have hfreed : Numbered { s with unrelated := s.unrelated.erase n } :=
      { apart := fun g hg hpres hmem => h.apart g hg hpres (List.mem_of_mem_erase hmem)
        holds := h.holds
        fresh := h.fresh
        free := fun c hc hover hmem => h.free c hc hover (List.mem_of_mem_erase hmem)
        spared := h.spared }
    exact Option.some.inj hstep ▸ hfreed

end Invariant

section Runs

variable {s : State}

theorem init_numbered (h : restartLoop.init s) : Numbered s := by
  obtain ⟨hpoint, hrunning, hgroups, -, htargets⟩ := h
  constructor
  · simp [hgroups]
  · simp [hrunning, hpoint]
  · simp [hpoint]
  · simp [hrunning]
  · simp [htargets]

/-- Where no unrelated group takes the number of a child that the loop has reaped and may still
signal, every `killpg` reaches a group that the loop has spawned, or nobody. -/
theorem restartLoop_signals_own (h : Reach restartLoop Spared s) :
    ∀ target ∈ s.targets, target ≠ .unrelated := by
  have hs : Numbered s := h.invariant (fun s => init_numbered) fun s act t _ hs hok hstep =>
    step_numbered hs hok hstep
  rintro target hmem rfl
  exact hs.spared hmem

/-- A child is reaped, and its group is signalled although nobody is in it; an unrelated group takes
the number only once the successor is in its place, which is then terminated. -/
theorem restartLoop_signals_own_run : ∃ s : State, s.unrelated = [7] ∧
    s.targets = [.nobody, .spawned, .spawned] ∧ ∀ target ∈ s.targets, target ≠ .unrelated := by
  let acts : List Act := [.matched, .makes "a", .proceeds, .launches (.child 7), .proceeds,
    .groupChanges 0 .leaderExits, .matched, .proceeds, .proceeds, .proceeds, .proceeds, .proceeds,
    .makes "b", .proceeds, .launches (.child 8), .proceeds, .groupTaken 7, .leaves 124, .proceeds,
    .proceeds, .proceeds, .proceeds, .timesOut, .proceeds]
  obtain ⟨s, hrun, hunrelated, htargets⟩ : ∃ s ∈ restartLoop.exec boot acts,
      s.unrelated = [7] ∧ s.targets = [.nobody, .spawned, .spawned] := by
    decide
  have hspared : restartLoop.Meets Spared boot acts := by decide
  have hstart : Reach restartLoop Spared boot := .start ⟨rfl, rfl, rfl, rfl, rfl⟩
  exact ⟨s, hunrelated, htargets, restartLoop_signals_own (hstart.exec hrun hspared)⟩

/-- The number is taken between the `poll` that reaps the child and the SIGKILL; and after a restart
whose `Popen` has failed, when the `finally` signals the old child once more. -/
theorem restartLoop_signals_unrelated :
    (∃ s, Reachable restartLoop s ∧ s.targets = [.unrelated]) ∧
      ∃ s, Reachable restartLoop s ∧ s.targets = [.nobody, .unrelated] ∧ s.point = .exited 127 := by
  have hstart : Reachable restartLoop boot := .start ⟨rfl, rfl, rfl, rfl, rfl⟩
  refine ⟨?_, ?_⟩
  · obtain ⟨s, hrun, h⟩ : ∃ s ∈ restartLoop.exec boot [.matched, .makes "a", .proceeds,
        .launches (.child 7), .proceeds, .groupChanges 0 .leaderExits, .matched, .proceeds,
        .proceeds, .groupTaken 7, .proceeds],
        s.targets = [.unrelated] := by
      decide
    exact ⟨s, hstart.exec hrun, h⟩
  · obtain ⟨s, hrun, h⟩ : ∃ s ∈ restartLoop.exec boot [.matched, .makes "a", .proceeds,
        .launches (.child 7), .proceeds, .groupChanges 0 .leaderExits, .matched, .proceeds,
        .proceeds, .proceeds, .proceeds, .proceeds, .makes "b", .proceeds,
        .launches (.osError .fileNotFound), .proceeds, .groupTaken 7, .proceeds, .proceeds,
        .proceeds, .proceeds, .proceeds],
        s.targets = [.nobody, .unrelated] ∧ s.point = .exited 127 := by
      decide
    exact ⟨s, hstart.exec hrun, h⟩

end Runs

end Waitbus.RestartLoop
