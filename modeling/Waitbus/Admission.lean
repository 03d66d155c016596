import Waitbus.LockedSection
import Waitbus.PublisherPins
import Waitbus.Runs

/-! Discovery and the writers of the allowlist, in any number of processes that share its file. A
writer reads, changes and writes the file inside the lock, but a repair reads it before, and a
discovery compares a plugin with its pin outside the lock, some steps before it registers it. -/

namespace Waitbus.Admission
open Python SourceRegistry PublisherPins LockedSection Runs

/-- Where a discovery stands with the entry point it is at. -/
inductive Point where
  | next
  | pinning (spec : SourceSpec) (publisher : VerifiedPublisher)
  | admitted (spec : SourceSpec) (verified : Option VerifiedPublisher)

structure Discovery where
  policy : PluginPolicy
  queue : List EntryPoint
  point : Point
  registered : List SourceSpec
  failures : List Rejection

inductive Task where
  | idle
  | appending (name kind identity : PyStr)
  | removing (name : PyStr)
  | repairing (seen : Allowlist)
  | discovering (run : Discovery)

/-- A process; `stage` is where it stands in the section that the lock of the file guards. -/
structure Process where
  registry : Registry
  task : Task
  stage : Stage Allowlist

def Process.fresh : Process :=
  ⟨.empty, .idle, .outside⟩

/-- A change of the pins that a command or a first installation makes. -/
inductive Update where
  | record (pin : PublisherPin)
  | remove (name : PyStr)

/-- A plugin's registration, with the pin its name has at that moment. -/
structure Registration where
  policy : PluginPolicy
  name : PyStr
  verified : Option VerifiedPublisher
  pinned : Option PublisherPin

/-- The file, its lock, and the processes. `origin`, `history` and `log` are history: the file at
the start, the changes made since, and the registrations. -/
structure State where
  file : Allowlist
  lock : Option Nat
  processes : Nat
  procs : Nat → Process
  origin : Allowlist
  history : List Update
  log : List Registration

def State.set (s : State) (p : Nat) (proc : Process) : State :=
  { s with procs := Function.update s.procs p proc }

section Steps

/-- What a process does by itself, outside the section. -/
inductive Move where
  /-- `allowlist add`: it looks for a pin before it goes on. -/
  | add (name kind identity : PyStr)
  | remove (name : PyStr)
  /-- `allowlist repair`: it reads the file. -/
  | repair
  /-- `discover_plugins`, with the policy given or loaded. -/
  | discover (policy : Option PluginPolicy) (config : Option PluginsSection) (env : Environment)
      (installed : List EntryPoint)
  /-- The next entry point is imported, verified and compared with the pin of its name. -/
  | check
  /-- Discovery ends. -/
  | finish

inductive Act where
  | move (p : Nat) (m : Move)
  | acquire (p : Nat)
  | load (p : Nat)
  /-- The section ends, with what it writes; `now` is the clock. -/
  | commit (p : Nat) (now : PyStr)
  | register (p : Nat)
  | die (p : Nat)

/-- The entry point is dropped, its error kept if it is one of policy. -/
def Discovery.reject (run : Discovery) (queue : List EntryPoint) (rejection : Rejection) :
    Discovery :=
  { run with
    queue, point := .next
    failures := run.failures ++ if rejection.isPolicyFailure then [rejection] else [] }

/-- One turn of the loop of `discover_plugins`, up to the registration or to the lock. -/
def Discovery.check (file : Allowlist) (registry : Registry) (run : Discovery) (ep : EntryPoint)
    (queue : List EntryPoint) : Discovery :=
  match ep.plugin with
  | none => run.reject queue .raised
  | some plugin =>
    match prepare registry ep plugin with
    | .error rejection => run.reject queue rejection
    | .ok (spec, verified) =>
      match enforceTofu (file.forSource spec.name) verified with
      | .reject => run.reject queue .shadow
      | .pin publisher => { run with queue, point := .pinning spec publisher }
      | .allow => { run with queue, point := .admitted spec verified }

def taskAfter (file : Allowlist) (registry : Registry) (task : Task) (m : Move) : Option Task :=
  match task, m with
  | .idle, .add name kind identity =>
    some (if (file.forSource name).isSome then .idle else .appending name kind identity)
  | .idle, .remove name => some (.removing name)
  | .idle, .repair => some (.repairing file)
  | .idle, .discover policy config env installed =>
    let policy := policy.getD (loadPluginPolicy config env)
    some (.discovering ⟨policy, selectEntryPoints policy installed, .next, [], []⟩)
  | .discovering run, .check =>
    match run.point, run.queue with
    | .next, ep :: queue => some (.discovering (run.check file registry ep queue))
    | _, _ => none
  | .discovering run, .finish =>
    match run.point, run.queue with
    | .next, [] => some .idle
    | _, _ => none
  | _, _ => none

def Task.locks : Task → Bool
  | .appending .. | .removing _ | .repairing _ => true
  | .discovering run =>
    match run.point with
    | .pinning .. => true
    | _ => false
  | .idle => false

def Task.reads : Task → Bool
  | .repairing _ => false
  | task => task.locks

/-- What a section ends in: what it writes, the change that is, and how the task goes on. -/
structure Commit where
  written : Option Allowlist
  update : Option Update
  task : Task

def appendCommit (seen : Allowlist) (name kind identity now : PyStr) (done failed : Task) :
    Commit :=
  match appendPublisherPin seen name kind identity now with
  | .error _ => ⟨none, none, failed⟩
  | .ok (pin, written) => ⟨written, written.map fun _ => .record pin, done⟩

def Process.commit (proc : Process) (now : PyStr) : Option Commit :=
  match proc.task, proc.stage with
  | .appending name kind identity, .loaded seen =>
    some (appendCommit seen name kind identity now .idle .idle)
  | .removing name, .loaded seen =>
    let written := removePublisherPin seen name
    some ⟨written, written.map fun _ => .remove name, .idle⟩
  | .repairing seen, .inside => some ⟨some seen, none, .idle⟩
  | .discovering run, .loaded seen =>
    match run.point with
    | .pinning spec publisher =>
      some (appendCommit seen spec.name publisher.publisherKind publisher.publisherIdentity now
        (.discovering { run with point := .admitted spec (some publisher) })
        (.discovering (run.reject run.queue .raised)))
    | _ => none
  | _, _ => none

def step (s : State) : Act → Option State
  | .move p m =>
    match (s.procs p).stage with
    | .outside =>
      if p < s.processes then
        (taskAfter s.file (s.procs p).registry (s.procs p).task m).map fun task =>
          s.set p { s.procs p with task }
      else none
    | _ => none
  | .acquire p =>
    match (s.procs p).stage, s.lock with
    | .outside, none =>
      if p < s.processes ∧ (s.procs p).task.locks then
        some { s.set p { s.procs p with stage := .inside } with lock := some p }
      else none
    | _, _ => none
  | .load p =>
    match (s.procs p).stage with
    | .inside =>
      if (s.procs p).task.reads then
        some (s.set p { s.procs p with stage := .loaded s.file })
      else none
    | _ => none
  | .commit p now =>
    ((s.procs p).commit now).map fun c =>
      { s.set p { s.procs p with task := c.task, stage := .outside } with
        file := c.written.getD s.file
        lock := none
        history := s.history ++ c.update.toList }
  | .register p =>
    match (s.procs p).task, (s.procs p).stage with
    | .discovering run, .outside =>
      match run.point with
      | .admitted spec verified =>
        some { s.set p
          { s.procs p with
            registry := (s.procs p).registry.record spec verified
            task := .discovering { run with
              point := .next, registered := run.registered ++ [spec] } } with
          log := s.log ++ [⟨run.policy, spec.name, verified, s.file.forSource spec.name⟩] }
      | _ => none
    | _, _ => none
  | .die p =>
    some { s.set p .fresh with lock := if s.lock = some p then none else s.lock }

def admission : System State Act where
  init s := s.lock = none ∧ (s.procs = fun _ => .fresh) ∧ s.origin = s.file ∧ s.history = [] ∧
    s.log = []
  step := step

end Steps

section Conditions

def Task.admitted : Task → Option (SourceSpec × Option VerifiedPublisher)
  | .discovering run =>
    match run.point with
    | .admitted spec verified => some (spec, verified)
    | _ => none
  | _ => none

def Task.recording : Task → Option (PyStr × PyStr × PyStr)
  | .appending name kind identity => some (name, kind, identity)
  | .discovering run =>
    match run.point with
    | .pinning spec publisher =>
      some (spec.name, publisher.publisherKind, publisher.publisherIdentity)
    | _ => none
  | _ => none

def Task.read : Task → Option Allowlist
  | .repairing seen => some seen
  | _ => none

def Fits (verified : Option VerifiedPublisher) (kind identity : PyStr) : Prop :=
  ∃ publisher ∈ verified, publisher.publisherKind = kind ∧ publisher.publisherIdentity = identity

instance (verified : Option VerifiedPublisher) (kind identity : PyStr) :
    Decidable (Fits verified kind identity) :=
  match verified with
  | none => isFalse nofun
  | some publisher =>
    decidable_of_iff (publisher.publisherKind = kind ∧ publisher.publisherIdentity = identity)
      (by simp [Fits])

/-- A repair that is about to write has read what the file still holds. -/
def RepairsCurrent (s : State) (p : Nat) : Prop :=
  ∀ seen ∈ (s.procs p).task.read, seen.Same s.file

/-- No name is about to be pinned to another publisher than that of a plugin of the name which has
been compared with the file and is not registered yet. -/
def PinsChecked (s : State) (p : Nat) : Prop :=
  ∀ r ∈ (s.procs p).task.recording, s.file.forSource r.1 = none →
    ∀ q < s.processes, ∀ a ∈ (s.procs q).task.admitted, a.1.name = r.1 → Fits a.2 r.2.1 r.2.2

def Careful (s : State) : Act → Prop
  | .move _ (.discover policy config env installed) =>
    Decided (policy.getD (loadPluginPolicy config env)) installed
  | .commit p _ => RepairsCurrent s p ∧ PinsChecked s p
  | _ => True

instance (s : State) (p : Nat) : Decidable (RepairsCurrent s p) :=
  inferInstanceAs (Decidable (∀ seen ∈ (s.procs p).task.read, seen.Same s.file))

instance (s : State) (p : Nat) : Decidable (PinsChecked s p) :=
  inferInstanceAs (Decidable (∀ r ∈ (s.procs p).task.recording, s.file.forSource r.1 = none →
    ∀ q < s.processes, ∀ a ∈ (s.procs q).task.admitted, a.1.name = r.1 → Fits a.2 r.2.1 r.2.2))

instance (s : State) : ∀ act, Decidable (Careful s act)
  | .move _ m =>
    match m with
    | .discover policy config env installed =>
      inferInstanceAs (Decidable (Decided (policy.getD (loadPluginPolicy config env)) installed))
    | .add .. | .remove _ | .repair | .check | .finish => isTrue trivial
  | .commit p _ => inferInstanceAs (Decidable (RepairsCurrent s p ∧ PinsChecked s p))
  | .acquire _ | .load _ | .register _ | .die _ => isTrue trivial

abbrev Pins := PyStr → Option PublisherPin

def Update.apply (pins : Pins) : Update → Pins
  | .record pin => Function.update pins pin.name (some pin)
  | .remove name => Function.update pins name none

def State.pins (s : State) : Pins :=
  s.history.foldl Update.apply s.origin.forSource

/-- The plugin was let in by the policy, and as the publisher its name is pinned to. -/
def Registration.Sound (r : Registration) : Prop :=
  Admits r.policy r.name ∧
    ∀ pin ∈ r.pinned, Fits r.verified pin.publisherKind pin.publisherIdentity

/-- The plugin a discovery is at, once its `spec` is read. -/
def Point.spec : Point → Option SourceSpec
  | .next => none
  | .pinning spec _ => some spec
  | .admitted spec _ => some spec

/-- All that a discovery may still register is let in by its policy. -/
structure Discovery.Allowed (run : Discovery) : Prop where
  queue : ∀ ep ∈ run.queue, Admits run.policy ep.name
  point : ∀ spec ∈ run.point.spec, Admits run.policy spec.name

def Task.Allowed (task : Task) : Prop :=
  ∀ run, task = .discovering run → run.Allowed

def Removes (s : State) (act : Act) (name : PyStr) : Prop :=
  ∃ p now, act = .commit p now ∧ (s.procs p).task = .removing name

end Conditions

section Inversions

variable {s t : State} {p : Nat}

theorem step_move {m : Move} (h : step s (.move p m) = some t) :
    (s.procs p).stage = .outside ∧ p < s.processes ∧
      ∃ task, taskAfter s.file (s.procs p).registry (s.procs p).task m = some task ∧
        t = s.set p { s.procs p with task } := by
  simp only [step] at h
  split at h
  · rename_i hstage
    split at h
    · rename_i hp
      obtain ⟨task, htask, rfl⟩ := Option.map_eq_some_iff.mp h
      exact ⟨hstage, hp, task, htask, rfl⟩
    · nomatch h
  · nomatch h

theorem step_acquire (h : step s (.acquire p) = some t) :
    (s.procs p).stage = .outside ∧ s.lock = none ∧ (s.procs p).task.locks = true ∧
      t = { s.set p { s.procs p with stage := .inside } with lock := some p } := by
  simp only [step] at h
  split at h
  · rename_i hstage hlock
    split at h
    · rename_i hp
      exact ⟨hstage, hlock, hp.2, (Option.some.inj h).symm⟩
    · nomatch h
  · nomatch h

theorem step_load (h : step s (.load p) = some t) :
    (s.procs p).stage = .inside ∧ t = s.set p { s.procs p with stage := .loaded s.file } := by
  simp only [step] at h
  split at h
  · rename_i hstage
    split at h
    · exact ⟨hstage, (Option.some.inj h).symm⟩
    · nomatch h
  · nomatch h

theorem step_commit {now : PyStr} (h : step s (.commit p now) = some t) :
    ∃ c, (s.procs p).commit now = some c ∧
      t = { s.set p { s.procs p with task := c.task, stage := .outside } with
        file := c.written.getD s.file, lock := none, history := s.history ++ c.update.toList } := by
  obtain ⟨c, hc, rfl⟩ := Option.map_eq_some_iff.mp h
  exact ⟨c, hc, rfl⟩

theorem step_register (h : step s (.register p) = some t) :
    ∃ run spec verified, (s.procs p).task = .discovering run ∧ (s.procs p).stage = .outside ∧
      run.point = .admitted spec verified ∧
      t = { s.set p
        { s.procs p with
          registry := (s.procs p).registry.record spec verified
          task := .discovering { run with
            point := .next, registered := run.registered ++ [spec] } } with
        log := s.log ++ [⟨run.policy, spec.name, verified, s.file.forSource spec.name⟩] } := by
  simp only [step] at h
  split at h
  · rename_i run htask hstage
    split at h
    · rename_i spec verified hpoint
      exact ⟨run, spec, verified, htask, hstage, hpoint, (Option.some.inj h).symm⟩
    · nomatch h
  · nomatch h

theorem step_file {act : Act} (h : step s act = some t) :
    t.origin = s.origin ∧
      ((t.file = s.file ∧ t.history = s.history) ∨
        ∃ p now c, act = .commit p now ∧ (s.procs p).commit now = some c ∧
          t.file = c.written.getD s.file ∧ t.history = s.history ++ c.update.toList) := by
  cases act with
  | move p m =>
    obtain ⟨-, -, task, -, rfl⟩ := step_move h
    exact ⟨rfl, .inl ⟨rfl, rfl⟩⟩
  | acquire p =>
    obtain ⟨-, -, -, rfl⟩ := step_acquire h
    exact ⟨rfl, .inl ⟨rfl, rfl⟩⟩
  | load p =>
    obtain ⟨-, rfl⟩ := step_load h
    exact ⟨rfl, .inl ⟨rfl, rfl⟩⟩
  | commit p now =>
    obtain ⟨c, hc, rfl⟩ := step_commit h
    exact ⟨rfl, .inr ⟨p, now, c, rfl, hc, rfl, rfl⟩⟩
  | register p =>
    obtain ⟨run, spec, verified, -, -, -, rfl⟩ := step_register h
    exact ⟨rfl, .inl ⟨rfl, rfl⟩⟩
  | die p =>
    obtain rfl := Option.some.inj h
    exact ⟨rfl, .inl ⟨rfl, rfl⟩⟩

theorem discovering_allowed {run : Discovery} : (Task.discovering run).Allowed ↔ run.Allowed := by
  constructor
  · intro h
    exact h run rfl
  · rintro h _ ⟨⟩
    exact h

theorem reject_allowed {run : Discovery} {queue : List EntryPoint} (rejection : Rejection)
    (h : ∀ ep ∈ queue, Admits run.policy ep.name) : (run.reject queue rejection).Allowed where
  queue := h
  point _ hspec := nomatch hspec

theorem commit_cases {proc : Process} {now : PyStr} {c : Commit} (h : proc.commit now = some c) :
    (∃ seen name kind identity done failed, proc.stage = .loaded seen ∧
        proc.task.recording = some (name, kind, identity) ∧
        (∀ a ∈ done.admitted, a.1.name = name ∧ Fits a.2 kind identity) ∧
        failed.admitted = none ∧ (proc.task.Allowed → done.Allowed ∧ failed.Allowed) ∧
        c = appendCommit seen name kind identity now done failed) ∨
      (∃ seen name, proc.stage = .loaded seen ∧ proc.task = .removing name ∧
        c = ⟨removePublisherPin seen name,
          (removePublisherPin seen name).map fun _ => .remove name, .idle⟩) ∨
      ∃ seen, proc.stage = .inside ∧ proc.task = .repairing seen ∧
        c = ⟨some seen, none, .idle⟩ := by
  simp only [Process.commit] at h
  split at h
  · rename_i name kind identity seen htask hstage
    refine .inl ⟨seen, name, kind, identity, .idle, .idle, hstage, by rw [htask]; rfl, ?_, rfl,
      fun _ => ⟨nofun, nofun⟩, (Option.some.inj h).symm⟩
    intro a ha
    nomatch ha
  · rename_i name seen htask hstage
    exact .inr (.inl ⟨seen, name, hstage, htask, (Option.some.inj h).symm⟩)
  · rename_i seen htask hstage
    exact .inr (.inr ⟨seen, hstage, htask, (Option.some.inj h).symm⟩)
  · rename_i run seen htask hstage
    split at h
    · rename_i spec publisher hpoint
      refine .inl ⟨seen, spec.name, publisher.publisherKind, publisher.publisherIdentity, _, _,
        hstage, by simp only [htask, Task.recording, hpoint], ?_, rfl, ?_,
        (Option.some.inj h).symm⟩
      · intro a ha
        obtain rfl := Option.mem_some_iff.mp ha
        exact ⟨rfl, publisher, rfl, rfl, rfl⟩
      · intro hallowed
        have hrun := hallowed run htask
        have hspec : Admits run.policy spec.name := by
          apply hrun.point
          rw [hpoint]
          rfl
        refine ⟨discovering_allowed.mpr ⟨hrun.queue, ?_⟩,
          discovering_allowed.mpr (reject_allowed .raised hrun.queue)⟩
        intro other hother
        rw [← Option.some.inj hother]
        exact hspec
    · nomatch h
  · nomatch h

theorem commit_allowed {proc : Process} {now : PyStr} {c : Commit} (hallowed : proc.task.Allowed)
    (h : proc.commit now = some c) : c.task.Allowed := by
  rcases commit_cases h with ⟨_, _, _, _, done, failed, -, -, -, -, hnext, rfl⟩ |
    ⟨_, _, -, -, rfl⟩ | ⟨_, -, -, rfl⟩
  · rw [appendCommit]
    split
    · exact (hnext hallowed).2
    · exact (hnext hallowed).1
  · exact nofun
  · exact nofun

theorem commit_stage {proc : Process} {now : PyStr} {c : Commit} (h : proc.commit now = some c) :
    proc.stage ≠ .outside := by
  rcases commit_cases h with ⟨_, _, _, _, _, _, hstage, -⟩ | ⟨_, _, hstage, -⟩ | ⟨_, hstage, -⟩
  · exact hstage ▸ nofun
  · exact hstage ▸ nofun
  · exact hstage ▸ nofun

end Inversions

section Guarding

def State.stages (s : State) : Nat → Stage Allowlist :=
  fun p => (s.procs p).stage

def State.Guards (s : State) : Prop :=
  Guarded s.lock s.stages s.file

theorem stages_set (s : State) (p : Nat) (proc : Process) :
    (s.set p proc).stages = Function.update s.stages p proc.stage := by
  funext q
  simp only [State.stages, State.set]
  by_cases hq : q = p
  · rw [hq, Function.update_self, Function.update_self]
  · rw [Function.update_of_ne hq, Function.update_of_ne hq]
    rfl

theorem guards_step {s t : State} {act : Act} (h : s.Guards) (hstep : step s act = some t) :
    t.Guards := by
  cases act with
  | move p m =>
    obtain ⟨hstage, -, task, -, rfl⟩ := step_move hstep
    rw [State.Guards, stages_set]
    simp only [hstage]
    exact h.stay hstage
  | acquire p =>
    obtain ⟨-, hlock, -, rfl⟩ := step_acquire hstep
    have henter : Guarded none s.stages s.file := hlock ▸ h
    have hguard := henter.enter p
    rw [State.Guards]
    show Guarded (some p) (s.set p { s.procs p with stage := .inside }).stages s.file
    rw [stages_set]
    exact hguard
  | load p =>
    obtain ⟨hstage, rfl⟩ := step_load hstep
    rw [State.Guards, stages_set]
    exact h.load hstage
  | commit p now =>
    obtain ⟨c, hc, rfl⟩ := step_commit hstep
    have hstage : s.stages p ≠ .outside := commit_stage hc
    have hheld : Guarded (some p) s.stages s.file := (h.owner p hstage) ▸ h
    rw [State.Guards]
    show Guarded none (s.set p { s.procs p with task := c.task, stage := .outside }).stages _
    rw [stages_set]
    exact hheld.leave _
  | register p =>
    obtain ⟨run, spec, verified, htask, hstage, hpoint, rfl⟩ := step_register hstep
    rw [State.Guards]
    show Guarded s.lock (s.set p _).stages s.file
    rw [stages_set]
    simp only [hstage]
    exact h.stay hstage
  | die p =>
    obtain rfl := Option.some.inj hstep
    rw [State.Guards]
    show Guarded (if s.lock = some p then none else s.lock) (s.set p .fresh).stages s.file
    rw [stages_set]
    exact h.drop p

end Guarding

section Refinement

theorem insert_pins {file written : Allowlist} {pin : PublisherPin}
    (h : ∀ other, written.forSource other =
      if other = pin.name then some pin else file.forSource other) :
    written.forSource = Update.apply file.forSource (.record pin) := by
  funext other
  rw [h, Update.apply, Function.update_apply]

theorem appendCommit_pins (file : Allowlist) (name kind identity now : PyStr) (done failed : Task) :
    let c := appendCommit file name kind identity now done failed
    (c.written.getD file).forSource = c.update.toList.foldl Update.apply file.forSource := by
  simp only [appendCommit]
  split
  · rfl
  · rename_i pin written hok
    obtain ⟨rfl, -, ⟨-, rfl⟩ | ⟨-, w, rfl, hw⟩⟩ := appendPublisherPin_ok hok
    · rfl
    · exact insert_pins hw

theorem removeCommit_pins (file : Allowlist) (name : PyStr) :
    ((removePublisherPin file name).getD file).forSource =
      ((removePublisherPin file name).map fun _ => Update.remove name).toList.foldl Update.apply
        file.forSource := by
  cases hw : removePublisherPin file name with
  | none => rfl
  | some written =>
    funext other
    show written.forSource other = Update.apply file.forSource (.remove name) other
    rw [removePublisherPin_some hw, Update.apply, Function.update_apply]

theorem commit_pins {s : State} {p : Nat} {now : PyStr} {c : Commit} (hguards : s.Guards)
    (hcurrent : RepairsCurrent s p) (h : (s.procs p).commit now = some c) :
    (c.written.getD s.file).forSource = c.update.toList.foldl Update.apply s.file.forSource := by
  have hfresh : ∀ seen, (s.procs p).stage = .loaded seen → seen = s.file := hguards.fresh p
  rcases commit_cases h with ⟨seen, name, kind, identity, done, failed, hstage, -, -, -, -, rfl⟩ |
    ⟨seen, name, hstage, -, rfl⟩ | ⟨seen, -, htask, rfl⟩
  · rw [hfresh seen hstage]
    exact appendCommit_pins ..
  · rw [hfresh seen hstage]
    exact removeCommit_pins ..
  · funext name
    refine (hcurrent seen ?_).forSource name
    rw [htask]
    rfl

theorem pins_step {s t : State} {act : Act} (hguards : s.Guards) (hpins : s.file.forSource = s.pins)
    (hcareful : Careful s act) (hstep : step s act = some t) : t.file.forSource = t.pins := by
  obtain ⟨horigin, ⟨hfile, hhistory⟩ | ⟨p, now, c, rfl, hc, hfile, hhistory⟩⟩ := step_file hstep
  · rw [State.pins, hfile, hhistory, horigin]
    exact hpins
  · rw [State.pins, hfile, hhistory, horigin, List.foldl_append, commit_pins hguards hcareful.1 hc,
      hpins]
    rfl

end Refinement

section Pinned

variable {s t : State} {p : Nat} {now : PyStr} {c : Commit}

theorem fits_of_binds {pin : PublisherPin} {verified : Option VerifiedPublisher}
    {kind identity : PyStr} (hbinds : pin.binds kind identity = true)
    (hfits : Fits verified kind identity) :
    Fits verified pin.publisherKind pin.publisherIdentity := by
  simp only [PublisherPin.binds, Bool.and_eq_true, decide_eq_true_eq] at hbinds
  rw [hbinds.1, hbinds.2]
  exact hfits

theorem commit_pinned (hguards : s.Guards) (hcurrent : RepairsCurrent s p)
    (hc : (s.procs p).commit now = some c) {name : PyStr} {pin : PublisherPin}
    (h : (c.written.getD s.file).forSource name = some pin) :
    s.file.forSource name = some pin ∨ ∃ kind identity,
      (s.procs p).task.recording = some (name, kind, identity) ∧ s.file.forSource name = none ∧
        pin.binds kind identity = true := by
  have hfresh : ∀ seen, (s.procs p).stage = .loaded seen → seen = s.file := hguards.fresh p
  rcases commit_cases hc with
    ⟨seen, pinned, kind, identity, done, failed, hstage, hrec, -, -, -, rfl⟩ |
    ⟨seen, removed, hstage, -, rfl⟩ | ⟨seen, -, htask, rfl⟩
  · rw [hfresh seen hstage, appendCommit] at h
    split at h
    · exact .inl h
    · rename_i new written hok
      obtain ⟨-, hbinds, ⟨-, rfl⟩ | ⟨hnone, w, rfl, hw⟩⟩ := appendPublisherPin_ok hok
      · exact .inl h
      · have hpin : w.forSource name = some pin := h
        rw [hw] at hpin
        split at hpin
        · rename_i hname
          rw [hname]
          rw [Option.some.inj hpin] at hbinds
          exact .inr ⟨kind, identity, hrec, hnone, hbinds⟩
        · exact .inl hpin
  · rw [hfresh seen hstage] at h
    cases hw : removePublisherPin s.file removed with
    | none =>
      rw [hw] at h
      exact .inl h
    | some written =>
      rw [hw] at h
      have hpin : written.forSource name = some pin := h
      rw [removePublisherPin_some hw] at hpin
      split at hpin
      · nomatch hpin
      · exact .inl hpin
  · have hsame := hcurrent seen (by rw [htask]; rfl)
    exact .inl ((hsame.forSource name).symm.trans h)

/-- A section that lets a plugin through leaves its name without a pin for another publisher. -/
theorem commit_admitted (hguards : s.Guards) (hc : (s.procs p).commit now = some c) :
    ∀ a ∈ c.task.admitted, ∀ pin ∈ (c.written.getD s.file).forSource a.1.name,
      Fits a.2 pin.publisherKind pin.publisherIdentity := by
  have hfresh : ∀ seen, (s.procs p).stage = .loaded seen → seen = s.file := hguards.fresh p
  rcases commit_cases hc with
    ⟨seen, name, kind, identity, done, failed, hstage, -, hdone, hfailed, -, rfl⟩ |
    ⟨seen, removed, hstage, -, rfl⟩ | ⟨seen, -, htask, rfl⟩
  · intro a ha pin hpin
    rw [hfresh seen hstage, appendCommit] at ha hpin
    split at ha
    · rw [show Task.admitted _ = none from hfailed] at ha
      nomatch ha
    · rename_i new written hok
      rw [hok] at hpin
      obtain ⟨hname, hfits⟩ := hdone a ha
      obtain ⟨-, hbinds, ⟨hprior, rfl⟩ | ⟨hnone, w, rfl, hw⟩⟩ := appendPublisherPin_ok hok
      · have hfound : s.file.forSource a.1.name = some pin := hpin
        rw [hname, hprior] at hfound
        rw [← Option.some.inj hfound]
        exact fits_of_binds hbinds hfits
      · have hfound : w.forSource a.1.name = some pin := hpin
        rw [hw, if_pos hname] at hfound
        rw [← Option.some.inj hfound]
        exact fits_of_binds hbinds hfits
  · exact fun a ha => nomatch ha
  · exact fun a ha => nomatch ha

theorem commit_kept (hguards : s.Guards) (hcurrent : RepairsCurrent s p)
    (hc : (s.procs p).commit now = some c) {name : PyStr} {pin : PublisherPin}
    (h : s.file.forSource name = some pin) :
    (c.written.getD s.file).forSource name = some pin ∨ (s.procs p).task = .removing name := by
  have hfresh : ∀ seen, (s.procs p).stage = .loaded seen → seen = s.file := hguards.fresh p
  rcases commit_cases hc with
    ⟨seen, pinned, kind, identity, done, failed, hstage, -, -, -, -, rfl⟩ |
    ⟨seen, removed, hstage, htask, rfl⟩ | ⟨seen, -, htask, rfl⟩
  · left
    rw [hfresh seen hstage, appendCommit]
    split
    · exact h
    · rename_i new written hok
      obtain ⟨hname, -, ⟨-, rfl⟩ | ⟨hnone, w, rfl, hw⟩⟩ := appendPublisherPin_ok hok
      · exact h
      · show w.forSource name = some pin
        have hother : name ≠ new.name := by
          rintro rfl
          rw [hname, hnone] at h
          nomatch h
        rw [hw, if_neg (hname ▸ hother), h]
  · rw [hfresh seen hstage]
    by_cases hname : name = removed
    · right
      rw [htask, hname]
    · left
      cases hw : removePublisherPin s.file removed with
      | none => exact h
      | some written =>
        show written.forSource name = some pin
        rw [removePublisherPin_some hw, if_neg hname, h]
  · left
    have hsame := hcurrent seen (by rw [htask]; rfl)
    exact (hsame.forSource name).trans h

theorem pin_kept (hguards : s.Guards) {act : Act} (hcareful : Careful s act)
    (hstep : step s act = some t) {name : PyStr} {pin : PublisherPin}
    (h : s.file.forSource name = some pin) :
    t.file.forSource name = some pin ∨ Removes s act name := by
  obtain ⟨-, ⟨hfile, -⟩ | ⟨p, now, c, rfl, hc, hfile, -⟩⟩ := step_file hstep
  · rw [hfile]
    exact .inl h
  · rw [hfile]
    rcases commit_kept hguards hcareful.1 hc h with hkept | htask
    · exact .inl hkept
    · exact .inr ⟨p, now, rfl, htask⟩

end Pinned

section Policy

variable {file : Allowlist} {registry : Registry} {run : Discovery} {ep : EntryPoint}
  {queue : List EntryPoint}

theorem check_allowed (hep : Admits run.policy ep.name)
    (hqueue : ∀ ep ∈ queue, Admits run.policy ep.name) :
    (run.check file registry ep queue).Allowed := by
  simp only [Discovery.check]
  split
  · exact reject_allowed _ hqueue
  · rename_i plugin _
    split
    · exact reject_allowed _ hqueue
    · rename_i spec verified hprepared
      have hspec : Admits run.policy spec.name := (prepare_name hprepared).symm ▸ hep
      split
      · exact reject_allowed _ hqueue
      · rename_i publisher _
        refine ⟨hqueue, ?_⟩
        intro other hother
        rw [← Option.some.inj hother]
        exact hspec
      · refine ⟨hqueue, ?_⟩
        intro other hother
        rw [← Option.some.inj hother]
        exact hspec

theorem check_fits {a : SourceSpec × Option VerifiedPublisher}
    (ha : a ∈ (Task.discovering (run.check file registry ep queue)).admitted) :
    ∀ pin ∈ file.forSource a.1.name, Fits a.2 pin.publisherKind pin.publisherIdentity := by
  simp only [Discovery.check] at ha
  split at ha
  · nomatch ha
  split at ha
  · nomatch ha
  split at ha
  · nomatch ha
  · nomatch ha
  · rename_i spec verified _ _ hallow
    obtain rfl := Option.some.inj ha
    intro pin hpin
    obtain ⟨publisher, hverified, hbinds⟩ := enforceTofu_allow hallow pin hpin
    exact fits_of_binds hbinds ⟨publisher, hverified, rfl, rfl⟩

variable {task task' : Task} {m : Move}

/-- A process turns to a command, or ends; it starts a discovery; or the loop makes a turn. -/
theorem taskAfter_cases (h : taskAfter file registry task m = some task') :
    (∀ run, task' ≠ .discovering run) ∨
      (∃ policy config env installed, m = .discover policy config env installed ∧
        task' = .discovering ⟨policy.getD (loadPluginPolicy config env),
          selectEntryPoints (policy.getD (loadPluginPolicy config env)) installed, .next, [], []⟩) ∨
      ∃ run ep queue, task = .discovering run ∧ run.queue = ep :: queue ∧
        task' = .discovering (run.check file registry ep queue) := by
  simp only [taskAfter] at h
  split at h
  · left
    rw [← Option.some.inj h]
    split
    · exact nofun
    · exact nofun
  · left
    rw [← Option.some.inj h]
    exact nofun
  · left
    rw [← Option.some.inj h]
    exact nofun
  · exact .inr (.inl ⟨_, _, _, _, rfl, (Option.some.inj h).symm⟩)
  · split at h
    · rename_i ep queue _ hqueue
      exact .inr (.inr ⟨_, ep, queue, rfl, hqueue, (Option.some.inj h).symm⟩)
    · nomatch h
  · left
    split at h
    · rw [← Option.some.inj h]
      exact nofun
    · nomatch h
  · nomatch h

theorem admitted_discovering {a : SourceSpec × Option VerifiedPublisher}
    (h : a ∈ task.admitted) : ∃ run, task = .discovering run := by
  cases task with
  | discovering run => exact ⟨run, rfl⟩
  | _ => nomatch h

theorem taskAfter_allowed (h : task.Allowed)
    (hdecided : ∀ policy config env installed, m = .discover policy config env installed →
      Decided (policy.getD (loadPluginPolicy config env)) installed)
    (hafter : taskAfter file registry task m = some task') : task'.Allowed := by
  rcases taskAfter_cases hafter with hother | ⟨policy, config, env, installed, hm, rfl⟩ |
    ⟨run, ep, queue, rfl, hqueue, rfl⟩
  · intro run hrun
    exact absurd hrun (hother run)
  · rw [discovering_allowed]
    refine ⟨fun ep hep => ?_, nofun⟩
    exact admits_of_selected (hdecided policy config env installed hm) hep
  · have hrun := (discovering_allowed.mp h).queue
    rw [hqueue, List.forall_mem_cons] at hrun
    rw [discovering_allowed]
    exact check_allowed hrun.1 hrun.2

theorem taskAfter_fits (hafter : taskAfter file registry task m = some task') :
    ∀ a ∈ task'.admitted, ∀ pin ∈ file.forSource a.1.name,
      Fits a.2 pin.publisherKind pin.publisherIdentity := by
  intro a ha
  rcases taskAfter_cases hafter with hother | ⟨policy, config, env, installed, hm, rfl⟩ |
    ⟨run, ep, queue, rfl, hqueue, rfl⟩
  · obtain ⟨run, hrun⟩ := admitted_discovering ha
    exact absurd hrun (hother run)
  · nomatch ha
  · exact check_fits ha

end Policy

section Invariant

/-- A plugin that a discovery is about to register fits the pin its name has now. -/
def Process.Bound (proc : Process) (file : Allowlist) : Prop :=
  ∀ a ∈ proc.task.admitted, ∀ pin ∈ file.forSource a.1.name,
    Fits a.2 pin.publisherKind pin.publisherIdentity

def Process.Logged (proc : Process) (log : List Registration) : Prop :=
  ∀ entry ∈ proc.registry.sources, ∃ r ∈ log, r.name = entry.1

structure Invariant (s : State) : Prop where
  guards : s.Guards
  pins : s.file.forSource = s.pins
  started : ∀ p, (s.procs p).task ≠ .idle → p < s.processes
  allowed : ∀ p, (s.procs p).task.Allowed
  bound : ∀ p, (s.procs p).Bound s.file
  sound : ∀ r ∈ s.log, r.Sound
  logged : ∀ p, (s.procs p).Logged s.log

variable {s t : State} {act : Act}

theorem forall_set {P : Nat → Process → Prop} {p : Nat} {proc : Process}
    (h : ∀ q, P q (s.procs q)) (hp : P p proc) : ∀ q, P q ((s.set p proc).procs q) := by
  intro q
  by_cases hq : q = p
  · rw [hq]
    simpa only [State.set, Function.update_self] using hp
  · simpa only [State.set, Function.update_of_ne hq] using h q

theorem commit_started {proc : Process} {now : PyStr} {c : Commit} (h : proc.commit now = some c) :
    proc.task ≠ .idle := by
  intro hidle
  rw [Process.commit, hidle] at h
  nomatch h

theorem started_step (h : ∀ p, (s.procs p).task ≠ .idle → p < s.processes)
    (hstep : step s act = some t) : ∀ p, (t.procs p).task ≠ .idle → p < t.processes := by
  cases act with
  | move p m =>
    obtain ⟨-, hp, task, -, rfl⟩ := step_move hstep
    exact forall_set (P := fun q proc => proc.task ≠ .idle → q < s.processes) h fun _ => hp
  | acquire p =>
    obtain ⟨-, -, -, rfl⟩ := step_acquire hstep
    exact forall_set (P := fun q proc => proc.task ≠ .idle → q < s.processes) h (h p)
  | load p =>
    obtain ⟨-, rfl⟩ := step_load hstep
    exact forall_set (P := fun q proc => proc.task ≠ .idle → q < s.processes) h (h p)
  | commit p now =>
    obtain ⟨c, hc, rfl⟩ := step_commit hstep
    exact forall_set (P := fun q proc => proc.task ≠ .idle → q < s.processes) h
      fun _ => h p (commit_started hc)
  | register p =>
    obtain ⟨run, spec, verified, htask, -, -, rfl⟩ := step_register hstep
    exact forall_set (P := fun q proc => proc.task ≠ .idle → q < s.processes) h
      fun _ => h p (htask ▸ nofun)
  | die p =>
    obtain rfl := Option.some.inj hstep
    exact forall_set (P := fun q proc => proc.task ≠ .idle → q < s.processes) h
      fun hfresh => absurd rfl hfresh

theorem allowed_step (h : ∀ p, (s.procs p).task.Allowed) (hcareful : Careful s act)
    (hstep : step s act = some t) : ∀ p, (t.procs p).task.Allowed := by
  cases act with
  | move p m =>
    obtain ⟨-, -, task, htask, rfl⟩ := step_move hstep
    refine forall_set (P := fun _ proc => proc.task.Allowed) h (taskAfter_allowed (h p) ?_ htask)
    rintro policy config env installed rfl
    exact hcareful
  | acquire p =>
    obtain ⟨-, -, -, rfl⟩ := step_acquire hstep
    exact forall_set (P := fun _ proc => proc.task.Allowed) h (h p)
  | load p =>
    obtain ⟨-, rfl⟩ := step_load hstep
    exact forall_set (P := fun _ proc => proc.task.Allowed) h (h p)
  | commit p now =>
    obtain ⟨c, hc, rfl⟩ := step_commit hstep
    exact forall_set (P := fun _ proc => proc.task.Allowed) h (commit_allowed (h p) hc)
  | register p =>
    obtain ⟨run, spec, verified, htask, -, -, rfl⟩ := step_register hstep
    refine forall_set (P := fun _ proc => proc.task.Allowed) h (discovering_allowed.mpr ?_)
    exact ⟨(h p run htask).queue, nofun⟩
  | die p =>
    obtain rfl := Option.some.inj hstep
    exact forall_set (P := fun _ proc => proc.task.Allowed) h nofun

theorem admitted_started {task : Task} {a : SourceSpec × Option VerifiedPublisher}
    (h : a ∈ task.admitted) : task ≠ .idle := by
  obtain ⟨run, rfl⟩ := admitted_discovering h
  exact nofun

theorem registration_pinned {proc : Process} {file : Allowlist} {run : Discovery}
    {spec : SourceSpec} {verified : Option VerifiedPublisher} (hallowed : proc.task.Allowed)
    (hbound : proc.Bound file) (htask : proc.task = .discovering run)
    (hpoint : run.point = .admitted spec verified) :
    Registration.Sound ⟨run.policy, spec.name, verified, file.forSource spec.name⟩ := by
  constructor
  · apply (hallowed run htask).point
    rw [hpoint]
    rfl
  · apply hbound (spec, verified)
    rw [htask]
    simp only [Task.admitted, hpoint, Option.mem_def]

theorem Process.Logged.append {proc : Process} {log : List Registration} (h : proc.Logged log)
    (new : List Registration) : proc.Logged (log ++ new) := by
  intro entry hentry
  obtain ⟨r, hr, hname⟩ := h entry hentry
  exact ⟨r, List.mem_append_left _ hr, hname⟩

theorem logged_record {proc : Process} {log : List Registration} {r : Registration}
    {spec : SourceSpec} {verified : Option VerifiedPublisher} {task : Task} (h : proc.Logged log)
    (hname : r.name = spec.name) :
    Process.Logged { proc with registry := proc.registry.record spec verified, task }
      (log ++ [r]) := by
  intro entry hentry
  rcases List.mem_append.mp hentry with hentry | hentry
  · exact h.append _ entry hentry
  · rw [List.mem_singleton.mp hentry]
    exact ⟨r, List.mem_append_right _ (List.mem_singleton_self _), hname⟩

theorem bound_step (h : Invariant s) (hcareful : Careful s act) (hstep : step s act = some t) :
    ∀ p, (t.procs p).Bound t.file := by
  cases act with
  | move p m =>
    obtain ⟨-, -, task, htask, rfl⟩ := step_move hstep
    exact forall_set (P := fun _ proc => proc.Bound s.file) h.bound (taskAfter_fits htask)
  | acquire p =>
    obtain ⟨-, -, -, rfl⟩ := step_acquire hstep
    exact forall_set (P := fun _ proc => proc.Bound s.file) h.bound (h.bound p)
  | load p =>
    obtain ⟨-, rfl⟩ := step_load hstep
    exact forall_set (P := fun _ proc => proc.Bound s.file) h.bound (h.bound p)
  | commit p now =>
    obtain ⟨c, hc, rfl⟩ := step_commit hstep
    refine forall_set (P := fun _ proc => proc.Bound (c.written.getD s.file)) ?_
      (commit_admitted h.guards hc)
    intro q a ha pin hpin
    rcases commit_pinned h.guards hcareful.1 hc hpin with
      hbefore | ⟨kind, identity, hrec, hnone, hbinds⟩
    · exact h.bound q a ha pin hbefore
    · have hq := h.started q (admitted_started ha)
      exact fits_of_binds hbinds (hcareful.2 _ hrec hnone q hq a ha rfl)
  | register p =>
    obtain ⟨run, spec, verified, htask, -, -, rfl⟩ := step_register hstep
    exact forall_set (P := fun _ proc => proc.Bound s.file) h.bound nofun
  | die p =>
    obtain rfl := Option.some.inj hstep
    exact forall_set (P := fun _ proc => proc.Bound s.file) h.bound nofun

theorem log_step (h : Invariant s) (hstep : step s act = some t) :
    (∀ r ∈ t.log, r.Sound) ∧ ∀ p, (t.procs p).Logged t.log := by
  cases act with
  | move p m =>
    obtain ⟨-, -, task, -, rfl⟩ := step_move hstep
    exact ⟨h.sound, forall_set (P := fun _ proc => proc.Logged s.log) h.logged (h.logged p)⟩
  | acquire p =>
    obtain ⟨-, -, -, rfl⟩ := step_acquire hstep
    exact ⟨h.sound, forall_set (P := fun _ proc => proc.Logged s.log) h.logged (h.logged p)⟩
  | load p =>
    obtain ⟨-, rfl⟩ := step_load hstep
    exact ⟨h.sound, forall_set (P := fun _ proc => proc.Logged s.log) h.logged (h.logged p)⟩
  | commit p now =>
    obtain ⟨c, -, rfl⟩ := step_commit hstep
    exact ⟨h.sound, forall_set (P := fun _ proc => proc.Logged s.log) h.logged (h.logged p)⟩
  | register p =>
    obtain ⟨run, spec, verified, htask, -, hpoint, rfl⟩ := step_register hstep
    constructor
    · intro r hr
      rcases List.mem_append.mp hr with hr | hr
      · exact h.sound r hr
      · rw [List.mem_singleton.mp hr]
        exact registration_pinned (h.allowed p) (h.bound p) htask hpoint
    · refine forall_set (P := fun _ proc => proc.Logged (s.log ++ [_])) ?_ ?_
      · exact fun q => (h.logged q).append _
      · exact logged_record (h.logged p) rfl
  | die p =>
    obtain rfl := Option.some.inj hstep
    exact ⟨h.sound, forall_set (P := fun _ proc => proc.Logged s.log) h.logged nofun⟩

theorem invariant_step (h : Invariant s) (hcareful : Careful s act)
    (hstep : step s act = some t) : Invariant t where
  guards := guards_step h.guards hstep
  pins := pins_step h.guards h.pins hcareful hstep
  started := started_step h.started hstep
  allowed := allowed_step h.allowed hcareful hstep
  bound := bound_step h hcareful hstep
  sound := (log_step h hstep).1
  logged := (log_step h hstep).2

theorem invariant_init (h : admission.init s) : Invariant s := by
  obtain ⟨hlock, hprocs, horigin, hhistory, hlog⟩ := h
  have hproc : ∀ p, s.procs p = .fresh := fun p => congrFun hprocs p
  constructor
  · rw [State.Guards, hlock, show s.stages = fun _ => .outside from funext fun p => by
      rw [State.stages, hproc]
      rfl]
    exact .start
  · rw [State.pins, hhistory, horigin]
    rfl
  · intro p hp
    rw [hproc] at hp
    exact absurd rfl hp
  · intro p
    rw [hproc]
    exact nofun
  · intro p a ha
    rw [hproc] at ha
    nomatch ha
  · intro r hr
    rw [hlog] at hr
    nomatch hr
  · intro p entry hentry
    rw [hproc] at hentry
    nomatch hentry

theorem admission_invariant (h : Reach admission Careful s) : Invariant s :=
  h.invariant (fun _ => invariant_init) fun _ _ _ _ hinv hcareful hstep =>
    invariant_step hinv hcareful hstep

end Invariant

/-- Only plugins that the policy admits are registered, each as the publisher its name is pinned to
at that moment; the file holds what the changes made of it, and a pin goes only by its removal. -/
theorem plugin_admission {s : State} (h : Reach admission Careful s) :
    (∀ r ∈ s.log, r.Sound) ∧
      (∀ p, ∀ entry ∈ (s.procs p).registry.sources, ∃ r ∈ s.log, r.name = entry.1) ∧
      s.file.forSource = s.pins ∧
      ∀ act t, Careful s act → admission.step s act = some t →
        ∀ name pin, s.file.forSource name = some pin →
          t.file.forSource name = some pin ∨ Removes s act name := by
  have hinv := admission_invariant h
  refine ⟨hinv.sound, hinv.logged, hinv.pins, ?_⟩
  intro act t hcareful hstep name pin hpin
  exact pin_kept hinv.guards hcareful hstep hpin

section Samples

def sampleSpec : SourceSpec :=
  ⟨ofText "deploys", [ofText "deploy"], 1, deploys_name, deploy_types, deploy_names, Nat.one_pos⟩

def sampleEntryPoint (verification : Verification) : EntryPoint :=
  ⟨ofText "deploys", some ⟨true, .spec sampleSpec⟩, verification⟩

def sampleDiscovery (policy : PluginPolicy) (verification : Verification) : Move :=
  .discover (some policy) none ⟨none, none⟩ [sampleEntryPoint verification]

def idleProcesses : State :=
  ⟨⟨[], List.nodup_nil⟩, none, 2, fun _ => .fresh, ⟨[], List.nodup_nil⟩, [], []⟩

theorem idleProcesses_init : admission.init idleProcesses :=
  ⟨rfl, rfl, rfl, rfl, rfl⟩

def samplePublisher : VerifiedPublisher :=
  ⟨ofText "GitHub", ofText "acme/deploys", ofText "publish"⟩

/-- A verified plugin is pinned and registered; the file is then repaired and added to. -/
theorem plugin_admission_run : ∃ s : State, s.log.length = 1 ∧ s.file.pins.length = 2 ∧
    (∀ r ∈ s.log, r.Sound) ∧
      (∀ p, ∀ entry ∈ (s.procs p).registry.sources, ∃ r ∈ s.log, r.name = entry.1) ∧
      s.file.forSource = s.pins ∧
      ∀ act t, Careful s act → admission.step s act = some t →
        ∀ name pin, s.file.forSource name = some pin →
          t.file.forSource name = some pin ∨ Removes s act name := by
  obtain ⟨s, hrun, hends⟩ : ∃ s ∈ admission.exec idleProcesses
      [.move 0 (sampleDiscovery ⟨true, [], []⟩ (.returned (some samplePublisher))), .move 0 .check,
        .acquire 0, .load 0, .commit 0 (ofText "now"), .register 0, .move 1 .repair, .acquire 1,
        .commit 1 (ofText "now"), .move 1 (.add (ofText "ci") (ofText "GitHub") (ofText "acme/ci")),
        .acquire 1, .load 1, .commit 1 (ofText "now")],
      s.log.length = 1 ∧ s.file.pins.length = 2 := by
    decide +kernel
  have hstart : Reach admission Careful idleProcesses := .start idleProcesses_init
  exact ⟨s, hends.1, hends.2, plugin_admission (hstart.exec hrun (by decide +kernel))⟩

/-- Without autoloading, a plugin that is allowed is registered though it is denied as well. -/
theorem denied_registered : ∃ s, Reachable admission s ∧ ∃ r ∈ s.log, r.name ∈ r.policy.deny := by
  obtain ⟨s, hrun, hdenied⟩ : ∃ s ∈ admission.exec idleProcesses
      [.move 0 (sampleDiscovery ⟨false, [ofText "deploys"], [ofText "deploys"]⟩ .noDistribution),
        .move 0 .check, .register 0],
      ∃ r ∈ s.log, r.name ∈ r.policy.deny := by
    decide +kernel
  exact ⟨s, Reachable.exec (.start idleProcesses_init) hrun, hdenied⟩

/-- A pin that is added between the comparison of an unsigned plugin and its registration. -/
theorem unpinned_registered : ∃ s, Reachable admission s ∧ ∃ r ∈ s.log, ∃ pin ∈ r.pinned,
    ¬Fits r.verified pin.publisherKind pin.publisherIdentity := by
  obtain ⟨s, hrun, hmisfit⟩ : ∃ s ∈ admission.exec idleProcesses
      [.move 0 (sampleDiscovery ⟨true, [], []⟩ .noDistribution), .move 0 .check,
        .move 1 (.add (ofText "deploys") (ofText "GitHub") (ofText "acme/deploys")), .acquire 1,
        .load 1, .commit 1 (ofText "now"), .register 0],
      ∃ r ∈ s.log, ∃ pin ∈ r.pinned, ¬Fits r.verified pin.publisherKind pin.publisherIdentity := by
    decide +kernel
  exact ⟨s, Reachable.exec (.start idleProcesses_init) hrun, hmisfit⟩

/-- A repair that has read the file before a pin is added writes the file without the pin. -/
theorem repair_drops : ∃ s t, Reachable admission s ∧
    admission.step s (.commit 0 (ofText "now")) = some t ∧
    s.file.forSource (ofText "deploys") ≠ none ∧ t.file.forSource (ofText "deploys") = none ∧
    (s.procs 0).task.read ≠ none := by
  obtain ⟨s, hrun, hlost⟩ : ∃ s ∈ admission.exec idleProcesses
      [.move 0 .repair, .move 1 (.add (ofText "deploys") (ofText "GitHub") (ofText "acme/deploys")),
        .acquire 1, .load 1, .commit 1 (ofText "now"), .acquire 0],
      ∃ t ∈ admission.step s (.commit 0 (ofText "now")),
        s.file.forSource (ofText "deploys") ≠ none ∧ t.file.forSource (ofText "deploys") = none ∧
        (s.procs 0).task.read.isSome = true := by
    decide +kernel
  obtain ⟨t, hstep, hbefore, hafter, hread⟩ := hlost
  exact ⟨s, t, Reachable.exec (.start idleProcesses_init) hrun, hstep, hbefore, hafter,
    Option.isSome_iff_ne_none.mp hread⟩

/-- A registration can be unsound in either way, and a pin can go by no removal. -/
theorem plugin_admission_fails :
    (∃ s, Reachable admission s ∧ ∃ r ∈ s.log, ¬Admits r.policy r.name) ∧
      (∃ s, Reachable admission s ∧ ∃ r ∈ s.log, ∃ pin ∈ r.pinned,
        ¬Fits r.verified pin.publisherKind pin.publisherIdentity) ∧
      ∃ s act t name pin, Reachable admission s ∧ admission.step s act = some t ∧
        s.file.forSource name = some pin ∧ t.file.forSource name = none ∧ ¬Removes s act name := by
  refine ⟨?_, unpinned_registered, ?_⟩
  · obtain ⟨s, hreach, r, hr, hdenied⟩ := denied_registered
    exact ⟨s, hreach, r, hr, fun hadmits => hadmits.1 hdenied⟩
  · obtain ⟨s, t, hreach, hstep, hbefore, hafter, hread⟩ := repair_drops
    obtain ⟨pin, hpin⟩ := Option.ne_none_iff_exists'.mp hbefore
    refine ⟨s, _, t, _, pin, hreach, hstep, hpin, hafter, ?_⟩
    rintro ⟨p, now, hact, htask⟩
    obtain ⟨rfl, rfl⟩ := Act.commit.inj hact
    rw [htask] at hread
    exact hread rfl

end Samples

end Waitbus.Admission
