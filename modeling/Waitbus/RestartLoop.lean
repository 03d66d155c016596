import Mathlib
import Waitbus.Runs

/-! The restart loop of `on`, call by call, beside the process groups that the kernel keeps. An
interrupt may land before any of the calls; the loop tears down only what it has put in
`running`. -/

namespace Waitbus.RestartLoop
open Runs

section Kernel

inductive Leader where
  | running
  | zombie
  | reaped
  deriving DecidableEq

/-- The group of a child that was spawned: the child leads it, and `others` more processes live in
it. -/
structure Group where
  number : Nat
  leader : Leader
  others : Nat
  deriving DecidableEq

def Group.Alive (g : Group) : Prop :=
  g.leader = .running ∨ 0 < g.others

/-- The number is in use; a child that has not been reaped keeps it too. -/
def Group.Present (g : Group) : Prop :=
  g.leader ≠ .reaped ∨ 0 < g.others

instance : DecidablePred Group.Alive :=
  fun g => inferInstanceAs (Decidable (g.leader = .running ∨ 0 < g.others))

instance : DecidablePred Group.Present :=
  fun g => inferInstanceAs (Decidable (g.leader ≠ .reaped ∨ 0 < g.others))

def Group.kill (g : Group) : Group :=
  { g with leader := if g.leader = .running then .zombie else g.leader, others := 0 }

def Group.reap (g : Group) : Group :=
  { g with leader := if g.leader = .zombie then .reaped else g.leader }

/-- What the processes of a group do by themselves. -/
inductive Change where
  | leaderExits
  | forks
  | otherExits

def Group.change (g : Group) : Change → Option Group
  | .leaderExits => if g.leader = .running then some { g with leader := .zombie } else none
  | .forks => if g.Alive then some { g with others := g.others + 1 } else none
  | .otherExits => if 0 < g.others then some { g with others := g.others - 1 } else none

/-- Whom a `killpg` reaches. -/
inductive Target where
  | spawned
  | unrelated
  | nobody
  deriving DecidableEq

end Kernel

section Model

inductive Interrupt where
  | sigint
  | sigterm
  | sighup
  deriving DecidableEq

inductive Exc where
  | keyboardInterrupt
  | signalShutdown (signum : Nat)
  | execError (code : Nat)
  | other
  deriving DecidableEq

/-- The default handler of SIGINT, and `_install_signal_forwarders`. -/
def Interrupt.exc : Interrupt → Exc
  | .sigint => .keyboardInterrupt
  | .sigterm => .signalShutdown 15
  | .sighup => .signalShutdown 1

inductive OsError where
  | fileNotFound
  | permission
  | other
  deriving DecidableEq

def exitSigint : Nat := 130

def execErrorCode : OsError → Nat
  | .fileNotFound => 127
  | .permission => 126
  | .other => 2

inductive Outcome where
  | returned (code : Nat)
  | raised (exc : Exc)
  deriving DecidableEq

/-- `_supervise`; what it does not catch ends the process with 1. -/
def Outcome.status : Outcome → Nat
  | .returned code => code
  | .raised .keyboardInterrupt => exitSigint
  | .raised (.signalShutdown signum) => 128 + signum
  | .raised (.execError code) => code
  | .raised .other => 1

/-- `_RunningChild`; `reaped` is whether the `Popen` knows a return code. -/
structure Child where
  pid : Nat
  reaped : Bool
  eventFile : String
  deriving DecidableEq

/-- The calls of `terminate_and_cleanup`: `entering` is before its `try`, `termed` between the
SIGTERM and the block that waits out the grace; at `unlinking` an exception may be pending. -/
inductive Phase where
  | entering
  | polling
  | terming
  | termed
  | grace
  | killing
  | reaping
  | unlinking (pending : Option Exc)
  deriving DecidableEq

/-- Where the loop is. `stopping` is in the loop's body without an outcome, and with one in its
`finally`; `discarding` is in the handler of the `OSError`, `assigning` from the fork on until the
child is in `running`. -/
inductive Point where
  | parked
  | stopping (phase : Phase) (final : Option Outcome)
  | making
  | writing (path : String)
  | launching (path : String)
  | discarding (path : String) (error : OsError)
  | assigning (child : Child)
  | exited (status : Nat)
  deriving DecidableEq

/-- `unrelated` are the numbers of the groups that nobody here spawned; `targets` is history. -/
structure State where
  point : Point
  running : Option Child
  groups : List Group
  unrelated : List Nat
  files : List String
  targets : List Target

/-- What comes of `Popen`. -/
inductive Launch where
  | child (pid : Nat)
  | osError (error : OsError)
  /-- Such as the `ValueError` at a NUL in the environment. -/
  | otherError

inductive Act where
  | interrupt (signal : Interrupt)
  | matched
  | leaves (code : Nat)
  /-- The next call, where only one thing can come of it. -/
  | proceeds
  | timesOut
  /-- The wait for a match, `mkstemp` or the writing of the event file raises. -/
  | raises
  /-- `killpg` raises what is no `ProcessLookupError`, as where the child runs under another user,
  and nobody gets the signal. -/
  | refused
  | makes (path : String)
  | launches (launch : Launch)
  | groupChanges (i : Nat) (change : Change)
  /-- `subprocess` reaps a child whose `Popen` is no longer held. -/
  | forgotten (i : Nat)
  | groupTaken (n : Nat)
  | groupFreed (n : Nat)

def State.Spawned (s : State) (n : Nat) : Prop :=
  ∃ g ∈ s.groups, g.number = n ∧ g.Present

/-- The child has exited, and its return code is known or can be had. -/
def State.Exited (s : State) (c : Child) : Prop :=
  c.reaped = true ∨ ∃ g ∈ s.groups, g.number = c.pid ∧ g.leader = .zombie

instance (s : State) : DecidablePred s.Spawned :=
  fun n => inferInstanceAs (Decidable (∃ g ∈ s.groups, g.number = n ∧ g.Present))

instance (s : State) : DecidablePred s.Exited :=
  fun c => inferInstanceAs
    (Decidable (c.reaped = true ∨ ∃ g ∈ s.groups, g.number = c.pid ∧ g.leader = .zombie))

def State.target (s : State) (n : Nat) : Target :=
  if s.Spawned n then .spawned else if n ∈ s.unrelated then .unrelated else .nobody

def State.onGroup (s : State) (n : Nat) (f : Group → Group) : State :=
  { s with groups := s.groups.map fun g => if g.number = n then f g else g }

def State.term (s : State) (n : Nat) : State :=
  { s with targets := s.targets ++ [s.target n] }

def State.kill (s : State) (n : Nat) : State :=
  (s.term n).onGroup n Group.kill

/-- The `Popen` learns the return code of the child, which has exited. -/
def State.reap (s : State) (c : Child) : State :=
  if c.reaped then s
  else { s.onGroup c.pid Group.reap with running := some { c with reaped := true } }

def State.unlink (s : State) (path : String) : State :=
  { s with files := s.files.filter (· ≠ path) }

/-- The loop is left, and its `finally` begins. -/
def State.close (s : State) (outcome : Outcome) : State :=
  match s.running with
  | none => { s with point := .exited outcome.status }
  | some _ => { s with point := .stopping .entering (some outcome) }

/-- The end of `terminate_and_cleanup`, by the exception if there is one. -/
def State.stopped (s : State) : Option Outcome → Option Exc → State
  | none, none => { s with point := .making }
  | none, some exc => s.close (.raised exc)
  | some outcome, none => { s with point := .exited outcome.status }
  | some _, some exc => { s with point := .exited (Outcome.raised exc).status }

/-- Before `Popen.wait` lets a `KeyboardInterrupt` through it reaps a child that has exited. -/
def State.lastWait (s : State) : State :=
  match s.running with
  | none => s
  | some c => if s.Exited c then s.reap c else s

def State.interrupt (s : State) (signal : Interrupt) : Option State :=
  match s.point, signal with
  | .parked, .sigint => some (s.close (.returned exitSigint))
  | .parked, _ | .making, _ | .writing _, _ | .launching _, _ | .discarding _ _, _
  | .assigning _, _ => some (s.close (.raised signal.exc))
  | .stopping .entering final, _ | .stopping (.unlinking _) final, _ =>
    some (s.stopped final (some signal.exc))
  | .stopping .grace final, .sigint =>
    some { s.lastWait with point := .stopping .killing final }
  | .stopping .reaping final, .sigint =>
    some { s.lastWait with point := .stopping (.unlinking (some signal.exc)) final }
  | .stopping _ final, _ =>
    some { s with point := .stopping (.unlinking (some signal.exc)) final }
  | .exited _, _ => none

def State.proceed (s : State) : Option State :=
  match s.point, s.running with
  | .stopping .entering final, some _ => some { s with point := .stopping .polling final }
  | .stopping .polling final, some c =>
    if s.Exited c then some { s.reap c with point := .stopping .killing final }
    else some { s with point := .stopping .terming final }
  | .stopping .terming final, some c =>
    some { s.term c.pid with point := .stopping .termed final }
  | .stopping .termed final, some _ => some { s with point := .stopping .grace final }
  | .stopping .grace final, some c =>
    if s.Exited c then some { s.reap c with point := .stopping .killing final } else none
  | .stopping .killing final, some c =>
    some { s.kill c.pid with point := .stopping .reaping final }
  | .stopping .reaping final, some c =>
    if s.Exited c then some { s.reap c with point := .stopping (.unlinking none) final } else none
  | .stopping (.unlinking pending) final, some c =>
    some ((s.unlink c.eventFile).stopped final pending)
  | .writing path, _ => some { s with point := .launching path }
  | .discarding path error, _ =>
    some ((s.unlink path).close (.raised (.execError (execErrorCode error))))
  | .assigning c, _ => some { s with point := .parked, running := some c }
  | _, _ => none

def State.launch (s : State) (path : String) : Launch → Option State
  | .child pid =>
    if s.Spawned pid ∨ pid ∈ s.unrelated then none
    else some { s with
      point := .assigning ⟨pid, false, path⟩
      groups := s.groups ++ [⟨pid, .running, 0⟩] }
  | .osError error => some { s with point := .discarding path error }
  | .otherError => some (s.close (.raised .other))

/-- A `Popen` of that number is held. -/
def State.held (s : State) (n : Nat) : Bool :=
  s.running.any (·.pid = n) || match s.point with
    | .assigning c => c.pid = n
    | _ => false

def State.step (s : State) : Act → Option State
  | .interrupt signal => s.interrupt signal
  | .matched =>
    match s.point, s.running with
    | .parked, none => some { s with point := .making }
    | .parked, some _ => some { s with point := .stopping .entering none }
    | _, _ => none
  | .leaves code =>
    match s.point with
    | .parked => some (s.close (.returned code))
    | _ => none
  | .proceeds => s.proceed
  | .timesOut =>
    match s.point, s.running with
    | .stopping .grace final, some c =>
      if c.reaped then none else some { s with point := .stopping .killing final }
    | .stopping .reaping final, some c =>
      if c.reaped then none else some { s with point := .stopping (.unlinking none) final }
    | _, _ => none
  | .raises =>
    match s.point with
    | .parked | .making | .writing _ => some (s.close (.raised .other))
    | _ => none
  | .refused =>
    match s.point with
    | .stopping .terming final | .stopping .killing final =>
      some { s with point := .stopping (.unlinking (some .other)) final }
    | _ => none
  | .makes path =>
    match s.point with
    | .making =>
      if path ∈ s.files then none
      else some { s with point := .writing path, files := path :: s.files }
    | _ => none
  | .launches launch =>
    match s.point with
    | .launching path => s.launch path launch
    | _ => none
  | .groupChanges i change => do
    let g ← s.groups[i]?
    let g' ← g.change change
    some { s with groups := s.groups.set i g' }
  | .forgotten i => do
    let g ← s.groups[i]?
    if s.held g.number then none else some { s with groups := s.groups.set i g.reap }
  | .groupTaken n =>
    if s.Spawned n ∨ n ∈ s.unrelated then none
    else some { s with unrelated := n :: s.unrelated }
  | .groupFreed n => some { s with unrelated := s.unrelated.erase n }

def restartLoop : System State Act where
  init s := s.point = .parked ∧ s.running = none ∧ s.groups = [] ∧ s.files = [] ∧ s.targets = []
  step := State.step

end Model

section Ownership

def State.Dead (s : State) : Prop :=
  ∀ g ∈ s.groups, ¬g.Alive

def State.Sole (s : State) (pid : Nat) : Prop :=
  ∀ i g, s.groups[i]? = some g → g.Alive → i + 1 = s.groups.length ∧ g.number = pid

instance (s : State) : Decidable s.Dead :=
  inferInstanceAs (Decidable (∀ g ∈ s.groups, ¬g.Alive))

/-- An interrupt there leaves nothing behind: not between the making of an event file and the
assignment of the child, and in the `finally` only where the rest of it has nothing to do. -/
def State.interruptible (s : State) (signal : Interrupt) : Bool :=
  match s.point with
  | .parked | .making | .stopping _ none | .stopping .reaping (some _) | .exited _ => true
  | .writing _ | .launching _ | .discarding _ _ | .assigning _ => false
  | .stopping .entering (some _) => s.Dead ∧ s.files = []
  | .stopping (.unlinking _) (some _) => s.files = []
  | .stopping .grace (some _) => signal = .sigint ∨ s.Dead
  | .stopping _ (some _) => s.Dead

/-- No interrupt lands where it does harm, and no `killpg` of a group that is alive is refused in
the `finally`; the event file can be written, and `Popen` raises only an `OSError`. -/
def Tidy (s : State) : Act → Prop
  | .interrupt signal => s.interruptible signal = true
  | .raises => ∀ path, s.point ≠ .writing path
  | .refused => ∀ phase outcome, s.point = .stopping phase (some outcome) → s.Dead
  | .launches .otherError => False
  | _ => True

instance (s : State) : DecidablePred (Tidy s)
  | .interrupt signal => inferInstanceAs (Decidable (s.interruptible signal = true))
  | .raises =>
    match h : s.point with
    | .writing path => .isFalse fun htidy => htidy path h
    | .parked | .stopping _ _ | .making | .launching _ | .discarding _ _ | .assigning _
    | .exited _ => .isTrue fun _ hpoint => nomatch h.symm.trans hpoint
  | .refused =>
    match h : s.point with
    | .stopping _ (some _) => decidable_of_iff s.Dead
        ⟨fun hdead _ _ _ => hdead, fun htidy => htidy _ _ h⟩
    | .stopping _ none => .isTrue fun _ _ hpoint => nomatch h.symm.trans hpoint
    | .parked | .making | .writing _ | .launching _ | .discarding _ _ | .assigning _
    | .exited _ => .isTrue fun _ _ hpoint => nomatch h.symm.trans hpoint
  | .launches .otherError => .isFalse id
  | .launches (.child _) | .launches (.osError _) | .matched | .leaves _ | .proceeds | .timesOut
  | .makes _ | .groupChanges _ _ | .forgotten _ | .groupTaken _ | .groupFreed _ => .isTrue trivial

end Ownership

section Groups

variable {s t : State} {g g' : Group} {pid : Nat}

@[simp] theorem kill_number (g : Group) : g.kill.number = g.number := rfl

@[simp] theorem reap_number (g : Group) : g.reap.number = g.number := rfl

theorem kill_dead (g : Group) : ¬g.kill.Alive := by
  simp only [Group.Alive, Group.kill]
  split <;> simp_all

theorem reap_alive (h : g.reap.Alive) : g.Alive := by
  simp only [Group.Alive, Group.reap] at h ⊢
  split at h <;> simp_all

theorem change_number {change : Change} (h : g.change change = some g') :
    g'.number = g.number := by
  cases change <;>
    simp only [Group.change, Option.ite_none_right_eq_some, Option.some.injEq] at h <;>
    exact h.2 ▸ rfl

theorem change_alive {change : Change} (h : g.change change = some g') : g'.Alive → g.Alive := by
  intro _
  cases change with
  | forks =>
    simp only [Group.change, Option.ite_none_right_eq_some] at h
    exact h.1
  | leaderExits =>
    simp only [Group.change, Option.ite_none_right_eq_some] at h
    exact .inl h.1
  | otherExits =>
    simp only [Group.change, Option.ite_none_right_eq_some] at h
    exact .inr h.1

/-- Whatever is alive afterwards was so before, in its place and under its number. -/
def Shrinks (before after : List Group) : Prop :=
  after.length = before.length ∧ ∀ (i : Nat) (g' : Group), after[i]? = some g' → g'.Alive →
    ∃ g, before[i]? = some g ∧ g.Alive ∧ g'.number = g.number

theorem shrinks_onGroup (n : Nat) {f : Group → Group}
    (hnumber : ∀ g, (f g).number = g.number) (halive : ∀ g, (f g).Alive → g.Alive) :
    Shrinks s.groups (s.onGroup n f).groups := by
  refine ⟨List.length_map .., ?_⟩
  intro i g' hget hg'
  simp only [State.onGroup, List.getElem?_map, Option.map_eq_some_iff] at hget
  obtain ⟨g, hget, rfl⟩ := hget
  refine ⟨g, hget, ?_⟩
  split at hg' <;> simp_all

theorem shrinks_set {groups : List Group} {i : Nat} (hget : groups[i]? = some g)
    (hnumber : g'.number = g.number) (halive : g'.Alive → g.Alive) :
    Shrinks groups (groups.set i g') := by
  refine ⟨List.length_set .., ?_⟩
  intro j h hh hlive
  rw [List.getElem?_set] at hh
  split at hh
  · rename_i heq
    subst heq
    split at hh
    · obtain rfl := Option.some.inj hh
      exact ⟨g, hget, halive hlive, hnumber⟩
    · nomatch hh
  · exact ⟨h, hh, hlive, rfl⟩

theorem State.Dead.shrinks (h : s.Dead) (hgroups : Shrinks s.groups t.groups) : t.Dead := by
  intro g' hmem halive
  obtain ⟨i, hget⟩ := List.mem_iff_getElem?.mp hmem
  obtain ⟨g, hold, hlive, -⟩ := hgroups.2 i g' hget halive
  exact h g (List.mem_of_getElem? hold) hlive

theorem State.Sole.shrinks (h : s.Sole pid) (hgroups : Shrinks s.groups t.groups) :
    t.Sole pid := by
  intro i g' hget halive
  obtain ⟨g, hold, hlive, hnumber⟩ := hgroups.2 i g' hget halive
  rw [hgroups.1, hnumber]
  exact h i g hold hlive

theorem State.Dead.sole (h : s.Dead) : s.Sole pid := by
  intro i g hget halive
  exact absurd halive (h g (List.mem_of_getElem? hget))

theorem State.Sole.unique (h : s.Sole pid) {i j : Nat} (hi : s.groups[i]? = some g)
    (hj : s.groups[j]? = some g') (hg : g.Alive) (hg' : g'.Alive) : i = j := by
  have := (h i g hi hg).1
  have := (h j g' hj hg').1
  omega

theorem State.Sole.kill (h : s.Sole pid) : (s.kill pid).Dead := by
  intro g' hmem halive
  simp only [State.kill, State.onGroup, State.term, List.mem_map] at hmem
  obtain ⟨g, hg, rfl⟩ := hmem
  obtain ⟨i, hget⟩ := List.mem_iff_getElem?.mp hg
  split at halive
  · exact kill_dead g halive
  · rename_i hne
    exact hne (h i g hget halive).2

theorem sole_launch (h : s.Dead) {point : Point} : State.Sole { s with
    point, groups := s.groups ++ [⟨pid, .running, 0⟩] } pid := by
  intro i g hget halive
  rw [List.getElem?_append] at hget
  split at hget
  · exact absurd halive (h g (List.mem_of_getElem? hget))
  · obtain ⟨hi, rfl⟩ : i = s.groups.length ∧ (⟨pid, .running, 0⟩ : Group) = g := by
      rw [List.getElem?_singleton] at hget
      split at hget
      · exact ⟨by omega, Option.some.inj hget⟩
      · nomatch hget
    exact ⟨by simp [hi], rfl⟩

end Groups

section Invariant

variable {s t : State} {c : Child} {dead : Prop} {outcome : Outcome} {act : Act}

def State.Owns (s : State) (c : Child) : Prop :=
  s.Sole c.pid ∧ s.files ⊆ [c.eventFile]

def State.Clear (s : State) : Prop :=
  s.Dead ∧ s.files = []

/-- Nothing is there that `running` does not own. -/
def State.Tracked (s : State) : Prop :=
  match s.running with
  | none => s.Clear
  | some c => s.Owns c

def State.Stopping (s : State) (dead : Prop) : Prop :=
  ∃ c, s.running = some c ∧ s.Owns c ∧ (dead → s.Dead)

/-- The group has been sent its SIGKILL. In the loop's body an exception may still come before, as
the `finally` then sends another. -/
def Phase.Killed : Phase → Option Outcome → Prop
  | .reaping, _ => True
  | .unlinking pending, final => final.isSome ∨ pending = none
  | _, _ => False

def State.AtPoint (s : State) : Prop :=
  match s.point with
  | .parked => s.Tracked
  | .stopping phase final => s.Stopping (phase.Killed final)
  | .making | .exited _ => s.Clear
  | .writing path | .launching path | .discarding path _ => s.Dead ∧ s.files ⊆ [path]
  | .assigning c => s.Owns c

theorem State.Clear.tracked (h : s.Clear) : s.Tracked := by
  rw [State.Tracked]
  split
  · exact h
  · refine ⟨h.1.sole, ?_⟩
    rw [h.2]
    exact List.nil_subset _

theorem State.Stopping.tracked (h : s.Stopping dead) : s.Tracked := by
  obtain ⟨c, hrunning, howns, -⟩ := h
  rw [State.Tracked, hrunning]
  exact howns

theorem State.Owns.shrinks {c' : Child} (h : s.Owns c) (hpid : c'.pid = c.pid)
    (hfile : c'.eventFile = c.eventFile) (hgroups : Shrinks s.groups t.groups)
    (hfiles : t.files = s.files) : t.Owns c' := by
  refine ⟨?_, ?_⟩
  · rw [hpid]
    exact h.1.shrinks hgroups
  · rw [hfile, hfiles]
    exact h.2

theorem Shrinks.refl (groups : List Group) : Shrinks groups groups :=
  ⟨rfl, fun _ g' hget halive => ⟨g', hget, halive, rfl⟩⟩

theorem reap_spec (hrunning : s.running = some c) : Shrinks s.groups (s.reap c).groups ∧
    (s.reap c).files = s.files ∧ ∃ c', (s.reap c).running = some c' ∧ c'.pid = c.pid ∧
      c'.eventFile = c.eventFile := by
  rw [State.reap]
  split
  · exact ⟨.refl _, rfl, c, hrunning, rfl, rfl⟩
  · exact ⟨shrinks_onGroup c.pid reap_number fun _ => reap_alive, rfl, _, rfl, rfl, rfl⟩

theorem State.Stopping.reap (h : s.Stopping dead) (hrunning : s.running = some c) :
    (s.reap c).Stopping dead := by
  obtain ⟨c₀, hc₀, howns, hdead⟩ := h
  obtain rfl : c₀ = c := Option.some.inj (hc₀.symm.trans hrunning)
  obtain ⟨hgroups, hfiles, c', hc', hpid, hfile⟩ := reap_spec hrunning
  exact ⟨c', hc', howns.shrinks hpid hfile hgroups hfiles, fun h => (hdead h).shrinks hgroups⟩

theorem State.Stopping.lastWait (h : s.Stopping dead) : s.lastWait.Stopping dead := by
  rw [State.lastWait]
  split
  · exact h
  · rename_i c hrunning
    split
    · exact h.reap hrunning
    · exact h

theorem State.Stopping.mono {dead' : Prop} (h : s.Stopping dead) (himp : dead' → dead) :
    s.Stopping dead' := by
  obtain ⟨c, hrunning, howns, hdead⟩ := h
  exact ⟨c, hrunning, howns, hdead ∘ himp⟩

theorem State.Stopping.struck (h : s.Stopping dead) (hdead : s.Dead) {dead' : Prop} :
    s.Stopping dead' := by
  obtain ⟨c, hrunning, howns, -⟩ := h
  exact ⟨c, hrunning, howns, fun _ => hdead⟩

theorem close_atPoint (h : s.Tracked) : (s.close outcome).AtPoint := by
  rw [State.Tracked] at h
  rw [State.close]
  split at h
  · exact h
  · rename_i c hrunning
    exact ⟨c, hrunning, h, False.elim⟩

theorem interrupt_atPoint {signal : Interrupt} (hat : s.AtPoint)
    (hok : s.interruptible signal = true) (hstep : s.interrupt signal = some t) : t.AtPoint := by
  rw [State.AtPoint.eq_def] at hat
  rw [State.interruptible.eq_def] at hok
  simp only [State.interrupt] at hstep
  cases hpoint : s.point with
  | parked =>
    rw [hpoint] at hat hstep
    cases signal <;> exact Option.some.inj hstep ▸ close_atPoint hat
  | making =>
    rw [hpoint] at hat hstep
    exact Option.some.inj hstep ▸ close_atPoint hat.tracked
  | stopping phase final =>
    rw [hpoint] at hat hstep hok
    cases final with
    | none =>
      -- The exception goes through the loop's own `finally`.
      cases phase with
      | entering => exact Option.some.inj hstep ▸ close_atPoint hat.tracked
      | unlinking pending => exact Option.some.inj hstep ▸ close_atPoint hat.tracked
      | grace =>
        cases signal with
        | sigint => exact Option.some.inj hstep ▸ hat.lastWait
        | _ => exact Option.some.inj hstep ▸ hat.mono nofun
      | reaping =>
        cases signal with
        | sigint => exact Option.some.inj hstep ▸ hat.lastWait.mono nofun
        | _ => exact Option.some.inj hstep ▸ hat.mono nofun
      | _ => exact Option.some.inj hstep ▸ hat.mono nofun
    | some outcome =>
      cases phase with
      | entering =>
        have hclear : s.Dead ∧ s.files = [] := of_decide_eq_true hok
        exact Option.some.inj hstep ▸ hclear
      | unlinking pending =>
        obtain ⟨c, -, -, hdead⟩ := hat
        exact Option.some.inj hstep ▸ ⟨hdead (.inl rfl), of_decide_eq_true hok⟩
      | grace =>
        cases signal with
        | sigint => exact Option.some.inj hstep ▸ hat.lastWait
        | _ => exact Option.some.inj hstep ▸ hat.struck ((of_decide_eq_true hok).resolve_left nofun)
      | reaping =>
        cases signal with
        | sigint => exact Option.some.inj hstep ▸ hat.lastWait.mono fun _ => trivial
        | _ => exact Option.some.inj hstep ▸ hat.mono fun _ => trivial
      | _ => exact Option.some.inj hstep ▸ hat.struck (of_decide_eq_true hok)
  | exited status =>
    rw [hpoint] at hstep
    nomatch hstep
  | _ =>
    rw [hpoint] at hok
    nomatch hok

theorem unlink_clear (hdead : s.Dead) {path : String} (hfiles : s.files ⊆ [path]) :
    (s.unlink path).Clear := by
  refine ⟨hdead, List.filter_eq_nil_iff.mpr ?_⟩
  intro other hother
  simp [List.mem_singleton.mp (hfiles hother)]

theorem unlink_stopped {final : Option Outcome} {pending : Option Exc}
    (h : s.Stopping ((Phase.unlinking pending).Killed final)) (hrunning : s.running = some c) :
    ((s.unlink c.eventFile).stopped final pending).AtPoint := by
  obtain ⟨c₀, hc₀, howns, hdead⟩ := h
  obtain rfl : c₀ = c := Option.some.inj (hc₀.symm.trans hrunning)
  cases final with
  | some outcome =>
    have hclear := unlink_clear (hdead (.inl rfl)) howns.2
    cases pending <;> exact hclear
  | none =>
    cases pending with
    | none => exact unlink_clear (hdead (.inr rfl)) howns.2
    | some exc =>
      apply close_atPoint
      rw [State.Tracked, show (s.unlink c₀.eventFile).running = some c₀ from hrunning]
      refine ⟨howns.1, ?_⟩
      exact fun other hother => howns.2 (List.mem_of_mem_filter hother)

theorem proceed_atPoint (hat : s.AtPoint) (hstep : s.proceed = some t) : t.AtPoint := by
  rw [State.AtPoint.eq_def] at hat
  simp only [State.proceed] at hstep
  split at hstep
  case h_1 hpoint hrunning =>
    rw [hpoint] at hat
    exact Option.some.inj hstep ▸ hat.mono id
  case h_2 c hpoint hrunning =>
    rw [hpoint] at hat
    split at hstep
    · exact Option.some.inj hstep ▸ hat.reap hrunning
    · exact Option.some.inj hstep ▸ hat.mono id
  case h_3 c hpoint hrunning =>
    rw [hpoint] at hat
    exact Option.some.inj hstep ▸ hat.mono id
  case h_4 hpoint hrunning =>
    rw [hpoint] at hat
    exact Option.some.inj hstep ▸ hat.mono id
  case h_5 c hpoint hrunning =>
    rw [hpoint] at hat
    split at hstep
    · exact Option.some.inj hstep ▸ hat.reap hrunning
    · nomatch hstep
  case h_6 final c hpoint hrunning =>
    rw [hpoint] at hat
    obtain ⟨c₀, hc₀, howns, -⟩ := hat
    obtain rfl : c₀ = c := Option.some.inj (hc₀.symm.trans hrunning)
    have hdead := howns.1.kill
    exact Option.some.inj hstep ▸ ⟨c₀, hrunning, ⟨hdead.sole, howns.2⟩, fun _ => hdead⟩
  case h_7 final c hpoint hrunning =>
    rw [hpoint] at hat
    split at hstep
    · exact Option.some.inj hstep ▸ (hat.reap hrunning).mono fun _ => trivial
    · nomatch hstep
  case h_8 c hpoint hrunning =>
    rw [hpoint] at hat
    exact Option.some.inj hstep ▸ unlink_stopped hat hrunning
  case h_9 hpoint =>
    rw [hpoint] at hat
    exact Option.some.inj hstep ▸ hat
  case h_10 hpoint =>
    rw [hpoint] at hat
    exact Option.some.inj hstep ▸ close_atPoint (unlink_clear hat.1 hat.2).tracked
  case h_11 hpoint =>
    rw [hpoint] at hat
    exact Option.some.inj hstep ▸ hat
  case h_12 => nomatch hstep

theorem launch_atPoint {path : String} {launch : Launch} (hdead : s.Dead)
    (hfiles : s.files ⊆ [path]) (hok : Tidy s (.launches launch))
    (hstep : s.launch path launch = some t) : t.AtPoint := by
  cases launch with
  | child pid =>
    simp only [State.launch, Option.ite_none_left_eq_some] at hstep
    exact Option.some.inj hstep.2 ▸ ⟨sole_launch hdead, hfiles⟩
  | osError error => exact Option.some.inj hstep ▸ ⟨hdead, hfiles⟩
  | otherError => exact hok.elim

/-- In the loop's body the `finally` sends the signals again. -/
theorem refused_atPoint {phase : Phase} {final : Option Outcome} (hat : s.Stopping dead)
    (hpoint : s.point = .stopping phase final) (hok : Tidy s .refused) :
    State.AtPoint { s with point := .stopping (.unlinking (some .other)) final } := by
  cases final with
  | none => exact hat.mono (by simp [Phase.Killed])
  | some outcome => exact hat.struck (hok phase outcome hpoint)

theorem groups_atPoint {groups : List Group} (hat : s.AtPoint) (hgroups : Shrinks s.groups groups) :
    State.AtPoint { s with groups } := by
  have howns (c : Child) (h : s.Owns c) : State.Owns { s with groups } c :=
    h.shrinks rfl rfl hgroups rfl
  have hclear (h : s.Clear) : State.Clear { s with groups } := ⟨h.1.shrinks hgroups, h.2⟩
  rw [State.AtPoint.eq_def] at hat ⊢
  dsimp only
  split at hat
  · rw [State.Tracked] at hat ⊢
    dsimp only
    split at hat
    · exact hclear hat
    · exact howns _ hat
  · obtain ⟨c, hrunning, hc, hdead⟩ := hat
    exact ⟨c, hrunning, howns c hc, fun h => (hdead h).shrinks hgroups⟩
  · exact hclear hat
  · exact hclear hat
  · exact ⟨hat.1.shrinks hgroups, hat.2⟩
  · exact ⟨hat.1.shrinks hgroups, hat.2⟩
  · exact ⟨hat.1.shrinks hgroups, hat.2⟩
  · exact howns _ hat

theorem step_atPoint (hat : s.AtPoint) (hok : Tidy s act) (hstep : s.step act = some t) :
    t.AtPoint := by
  have hplace := hat
  rw [State.AtPoint.eq_def] at hplace
  cases act with
  | interrupt signal => exact interrupt_atPoint hat hok hstep
  | matched =>
    simp only [State.step] at hstep
    split at hstep
    · rename_i hpoint hrunning
      rw [hpoint] at hplace
      simp only [State.Tracked, hrunning] at hplace
      exact Option.some.inj hstep ▸ hplace
    · rename_i c hpoint hrunning
      rw [hpoint] at hplace
      simp only [State.Tracked, hrunning] at hplace
      exact Option.some.inj hstep ▸ ⟨c, hrunning, hplace, False.elim⟩
    · nomatch hstep
  | leaves code =>
    simp only [State.step] at hstep
    split at hstep
    · rename_i hpoint
      rw [hpoint] at hplace
      exact Option.some.inj hstep ▸ close_atPoint hplace
    · nomatch hstep
  | proceeds => exact proceed_atPoint hat hstep
  | timesOut =>
    simp only [State.step] at hstep
    split at hstep
    · rename_i hpoint _
      rw [hpoint] at hplace
      simp only [Option.ite_none_left_eq_some] at hstep
      exact Option.some.inj hstep.2 ▸ hplace.mono id
    · rename_i hpoint _
      rw [hpoint] at hplace
      simp only [Option.ite_none_left_eq_some] at hstep
      exact Option.some.inj hstep.2 ▸ hplace.mono fun _ => trivial
    · nomatch hstep
  | raises =>
    simp only [State.step] at hstep
    split at hstep
    · rename_i hpoint
      rw [hpoint] at hplace
      exact Option.some.inj hstep ▸ close_atPoint hplace
    · rename_i hpoint
      rw [hpoint] at hplace
      exact Option.some.inj hstep ▸ close_atPoint hplace.tracked
    · rename_i hpoint
      exact absurd hpoint (hok _)
    · nomatch hstep
  | refused =>
    simp only [State.step] at hstep
    split at hstep
    · rename_i hpoint
      rw [hpoint] at hplace
      exact Option.some.inj hstep ▸ refused_atPoint hplace hpoint hok
    · rename_i hpoint
      rw [hpoint] at hplace
      exact Option.some.inj hstep ▸ refused_atPoint hplace hpoint hok
    · cases hstep
  | makes path =>
    simp only [State.step] at hstep
    split at hstep
    · rename_i hpoint
      rw [hpoint] at hplace
      simp only [Option.ite_none_left_eq_some] at hstep
      refine Option.some.inj hstep.2 ▸ ⟨hplace.1, ?_⟩
      rw [hplace.2]
      exact List.Subset.refl _
    · nomatch hstep
  | launches launch =>
    simp only [State.step] at hstep
    split at hstep
    · rename_i path hpoint
      rw [hpoint] at hplace
      exact launch_atPoint hplace.1 hplace.2 hok hstep
    · nomatch hstep
  | groupChanges i change =>
    simp only [State.step, Option.bind_eq_bind, Option.bind_eq_some_iff] at hstep
    obtain ⟨g, hget, g', hchange, hstep⟩ := hstep
    have hgroups := shrinks_set hget (change_number hchange) (change_alive hchange)
    exact Option.some.inj hstep ▸ groups_atPoint hat hgroups
  | forgotten i =>
    simp only [State.step, Option.bind_eq_bind, Option.bind_eq_some_iff,
      Option.ite_none_left_eq_some] at hstep
    obtain ⟨g, hget, -, hstep⟩ := hstep
    have hgroups := shrinks_set hget (reap_number g) reap_alive
    exact Option.some.inj hstep ▸ groups_atPoint hat hgroups
  | groupTaken n =>
    simp only [State.step, Option.ite_none_left_eq_some] at hstep
    exact Option.some.inj hstep.2 ▸ hat
  | groupFreed n => exact Option.some.inj hstep ▸ hat

theorem AtPoint.sole (hat : s.AtPoint) : ∃ pid, s.Sole pid := by
  rw [State.AtPoint.eq_def] at hat
  split at hat
  · rw [State.Tracked] at hat
    split at hat
    · exact ⟨0, hat.1.sole⟩
    · exact ⟨_, hat.1⟩
  · obtain ⟨c, -, howns, -⟩ := hat
    exact ⟨c.pid, howns.1⟩
  · exact ⟨0, hat.1.sole⟩
  · exact ⟨0, hat.1.sole⟩
  · exact ⟨0, hat.1.sole⟩
  · exact ⟨0, hat.1.sole⟩
  · exact ⟨0, hat.1.sole⟩
  · exact ⟨_, hat.1⟩

end Invariant

section Runs

variable {s : State}

theorem init_atPoint (h : restartLoop.init s) : s.AtPoint := by
  obtain ⟨hpoint, hrunning, hgroups, hfiles, -⟩ := h
  rw [State.AtPoint, hpoint]
  simp only [State.Tracked, hrunning]
  refine ⟨?_, hfiles⟩
  intro g hg
  rw [hgroups] at hg
  nomatch hg

/-- In a tidy run no two spawned groups are alive at a time, and when the command exits none is and
no event file is left. -/
theorem restartLoop_tears_down (h : Reach restartLoop Tidy s) :
    (∀ (i j : Nat) (g g' : Group), s.groups[i]? = some g → s.groups[j]? = some g' → g.Alive →
        g'.Alive → i = j) ∧
      ∀ status, s.point = .exited status → (∀ g ∈ s.groups, ¬g.Alive) ∧ s.files = [] := by
  have hat : s.AtPoint := h.invariant (fun s => init_atPoint) fun s act t _ hat hok hstep =>
    step_atPoint hat hok hstep
  obtain ⟨pid, hsole⟩ := AtPoint.sole hat
  refine ⟨fun i j g g' => hsole.unique, ?_⟩
  intro status hexited
  rw [State.AtPoint, hexited] at hat
  exact hat

def boot : State :=
  ⟨.parked, none, [], [], [], []⟩

/-- A child is replaced and leaves another process behind; at the interrupt its successor ignores
the SIGTERM, and a second interrupt cuts the grace short. -/
theorem restartLoop_tears_down_run : ∃ s : State, s.point = .exited 130 ∧ s.groups.length = 2 ∧
    (∀ (i j : Nat) (g g' : Group), s.groups[i]? = some g → s.groups[j]? = some g' → g.Alive →
        g'.Alive → i = j) ∧
      ∀ status, s.point = .exited status → (∀ g ∈ s.groups, ¬g.Alive) ∧ s.files = [] := by
  let acts : List Act := [.matched, .makes "a", .proceeds, .launches (.child 7), .proceeds,
    .groupChanges 0 .forks, .matched, .proceeds, .proceeds, .proceeds, .proceeds,
    .groupChanges 0 .leaderExits, .proceeds, .proceeds, .proceeds, .proceeds,
    .makes "b", .proceeds, .launches (.child 8), .proceeds, .interrupt .sigint, .proceeds,
    .proceeds, .proceeds, .proceeds, .interrupt .sigint, .proceeds, .proceeds, .proceeds]
  obtain ⟨s, hrun, hexited, hgroups⟩ : ∃ s ∈ restartLoop.exec boot acts,
      s.point = .exited 130 ∧ s.groups.length = 2 := by
    decide
  have htidy : restartLoop.Meets Tidy boot acts := by decide
  have hstart : Reach restartLoop Tidy boot := .start ⟨rfl, rfl, rfl, rfl, rfl⟩
  exact ⟨s, hexited, hgroups, restartLoop_tears_down (hstart.exec hrun htidy)⟩

/-- A SIGTERM lands between the fork and the assignment, and the child lives on beside its event
file; a NUL in the frame makes `Popen` raise a `ValueError`, and the event file stays; after an idle
timeout a SIGTERM lands in the grace, and no SIGKILL follows. -/
theorem restartLoop_leaks :
    (∃ s, Reachable restartLoop s ∧ s.point = .exited 143 ∧ (∃ g ∈ s.groups, g.Alive) ∧
        s.files = ["a"]) ∧
      (∃ s, Reachable restartLoop s ∧ s.point = .exited 1 ∧ s.groups = [] ∧ s.files = ["a"]) ∧
      ∃ s, Reachable restartLoop s ∧ s.point = .exited 143 ∧ ∃ g ∈ s.groups, g.Alive := by
  have hstart : Reachable restartLoop boot := .start ⟨rfl, rfl, rfl, rfl, rfl⟩
  refine ⟨?_, ?_, ?_⟩
  · obtain ⟨s, hrun, h⟩ : ∃ s ∈ restartLoop.exec boot [.matched, .makes "a", .proceeds,
        .launches (.child 7), .interrupt .sigterm],
        s.point = .exited 143 ∧ (∃ g ∈ s.groups, g.Alive) ∧ s.files = ["a"] := by
      decide
    exact ⟨s, hstart.exec hrun, h⟩
  · obtain ⟨s, hrun, h⟩ : ∃ s ∈ restartLoop.exec boot [.matched, .makes "a", .proceeds,
        .launches .otherError],
        s.point = .exited 1 ∧ s.groups = [] ∧ s.files = ["a"] := by
      decide
    exact ⟨s, hstart.exec hrun, h⟩
  · obtain ⟨s, hrun, h⟩ : ∃ s ∈ restartLoop.exec boot [.matched, .makes "a", .proceeds,
        .launches (.child 7), .proceeds, .leaves 124, .proceeds, .proceeds, .proceeds, .proceeds,
        .interrupt .sigterm, .proceeds],
        s.point = .exited 143 ∧ ∃ g ∈ s.groups, g.Alive := by
      decide
    exact ⟨s, hstart.exec hrun, h⟩

end Runs

end Waitbus.RestartLoop
