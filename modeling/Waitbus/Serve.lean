import Mathlib
import Waitbus.Runs

/-! One run of `serve`: the supervisor's own course through the boot, the run and the teardown, and
the tasks that go on beside it where it awaits. The teardown knows only of the components whose
handles the boot has given it, and it gives up at the first poll task that has failed. -/

namespace Waitbus.Serve
open Runs

section Model

/-- `poll` stands for the two poll tasks. -/
inductive Component where
  | poll
  | listener
  | fs
  | docker
  deriving DecidableEq

inductive Exc where
  | ordinary
  | timeout
  | keyboardInterrupt
  | systemExit (status : Nat)
  deriving DecidableEq

def Exc.escapes : Exc → Bool
  | .ordinary | .timeout => false
  | .keyboardInterrupt | .systemExit _ => true

/-- The exit status where it leaves `asyncio.run`. -/
def Exc.status : Exc → Nat
  | .ordinary | .timeout => 1
  | .keyboardInterrupt => 0
  | .systemExit status => status

inductive Result where
  | returned
  | cancelled
  | raised (exc : Exc)
  deriving DecidableEq

/-- What the supervisor is to end with: the code that it returns, or the status of an exception that
passes through. -/
inductive Outcome where
  | code (n : Nat)
  | raising (status : Nat)
  deriving DecidableEq

/-- Where the supervisor is: in `_await_socket`, in `_start_components`, before
`_start_poll_timers`, before it prints the manifest, waiting for the stop; in `_teardown`, at a poll
task, before a component, before the daemon or in the bounded join of it; or gone. -/
inductive Point where
  | awaitingSocket
  | starting (rest : List Component)
  | startingPolls
  | printing
  | waiting
  | awaitingPolls (i : Nat) (outcome : Outcome)
  | stopping (rest : List Component) (outcome : Outcome)
  | stoppingDaemon (outcome : Outcome)
  | joining (outcome : Outcome)
  | exited (status : Nat)
  deriving DecidableEq

inductive Note where
  | started (c : Component)
  | told (c : Component)
  | toldDaemon
  deriving DecidableEq

/-- A task has a result once it is done. `begun` are the components that `_start_components` has
started, `handles` those that it has returned; `escaped` is the status of an exception that has
ended the loop. `log` is history. -/
structure State where
  point : Point
  daemon : Option Result
  polls : List (Option Result)
  stop : Bool
  begun : List Component
  handles : List Component
  escaped : Option Nat
  log : List Note

/-- What comes of one of the three start functions. -/
inductive Start where
  | skipped
  | started
  | raises
  deriving DecidableEq

inductive Act where
  | stopSignal
  | daemonEnds (result : Result)
  | pollEnds (i : Nat) (result : Result)
  /-- The probe finds the socket bound. -/
  | socketUp
  | daemonNoticed
  | stopNoticed (bound : Bool)
  | bindTimeout
  | start (start : Start)
  | handlesReturned
  | startPolls (poll : Bool)
  | manifestPrinted
  /-- The poll timers or the manifest raise. -/
  | bootRaises
  | wake
  | pollAwaited
  | stopNext
  /-- The next component outlives its join, and `_warn_if_alive` cannot print. -/
  | warnRaises
  | stopDaemon
  | joinTimeout
  | joinEnds

def State.awaits (s : State) : Bool :=
  match s.point with
  | .awaitingSocket | .waiting | .joining _ => true
  | .awaitingPolls i _ => i < s.polls.length
  | _ => false

/-- The `finally` begins: the poll tasks are cancelled. -/
def State.tearDown (s : State) (outcome : Outcome) : State :=
  { s with
    point := .awaitingPolls 0 outcome
    log := s.log ++ if s.polls = [] then [] else [.told .poll] }

/-- The end of `_run_serve`; `failed` is whether `_teardown` has returned an exception. -/
def State.exit (s : State) (outcome : Outcome) (failed : Bool) : State :=
  let status :=
    match outcome with
    | .code 0 => if failed then 1 else 0
    | .code n => n
    | .raising status => status
  { s with point := .exited (s.escaped.getD status) }

/-- The loop has ended by an exception, and the supervisor is cancelled where it awaits. -/
def State.interrupt (s : State) (status : Nat) : State :=
  let s := { s with escaped := some status }
  match s.point with
  | .awaitingSocket | .waiting => s.tearDown (.raising 1)
  | .awaitingPolls i outcome => { s with point := .awaitingPolls (i + 1) outcome }
  | .joining outcome => s.exit outcome false
  | _ => s

/-- The task's result, and what an exception that escapes does beside. -/
def State.ends (s : State) : Result → State
  | .raised exc => if exc.escapes then s.interrupt exc.status else s
  | _ => s

def State.step (s : State) : Act → Option State
  | .stopSignal => if s.awaits then some { s with stop := true } else none
  | .daemonEnds result =>
    if s.awaits ∧ s.daemon = none then
      some (State.ends { s with daemon := some result } result)
    else none
  | .pollEnds i result =>
    if s.awaits ∧ s.polls[i]? = some none then
      some (State.ends { s with polls := s.polls.set i (some result) } result)
    else none
  | .socketUp =>
    match s.point with
    | .awaitingSocket => some { s with point := .starting [.listener, .fs, .docker] }
    | _ => none
  | .daemonNoticed =>
    match s.point, s.daemon with
    | .awaitingSocket, some _ => some (s.tearDown (.raising 1))
    | _, _ => none
  | .stopNoticed bound =>
    match s.point, s.daemon, s.stop with
    | .awaitingSocket, none, true =>
      if bound then some { s with point := .starting [.listener, .fs, .docker] }
      else some (s.tearDown (.code 0))
    | _, _, _ => none
  | .bindTimeout =>
    match s.point with
    | .awaitingSocket => some (s.tearDown (.raising 1))
    | _ => none
  | .start start =>
    match s.point with
    | .starting (c :: rest) =>
      match start with
      | .skipped => some { s with point := .starting rest }
      | .started => some { s with
          point := .starting rest
          begun := s.begun ++ [c]
          log := s.log ++ [.started c] }
      | .raises => some (s.tearDown (.raising 1))
    | _ => none
  | .handlesReturned =>
    match s.point with
    | .starting [] => some { s with point := .startingPolls, handles := s.begun }
    | _ => none
  | .startPolls poll =>
    match s.point with
    | .startingPolls => some { s with
        point := .printing
        polls := if poll then [none, none] else []
        log := s.log ++ if poll then [.started .poll] else [] }
    | _ => none
  | .manifestPrinted =>
    match s.point with
    | .printing => some { s with point := .waiting }
    | _ => none
  | .bootRaises =>
    match s.point with
    | .startingPolls | .printing => some (s.tearDown (.raising 1))
    | _ => none
  | .wake =>
    match s.point with
    | .waiting =>
      if s.daemon.isSome ∧ ¬s.stop then
        -- The exception of a task that is cancelled cannot be asked for.
        some (s.tearDown (if s.daemon = some .cancelled then .raising 1 else .code 1))
      else if s.stop then some (s.tearDown (.code 0))
      else none
    | _ => none
  | .pollAwaited =>
    match s.point with
    | .awaitingPolls i outcome =>
      match s.polls[i]? with
      | none => some { s with point := .stopping s.handles outcome }
      | some (some (.raised exc)) => some (s.exit (.raising exc.status) false)
      | some (some _) => some { s with point := .awaitingPolls (i + 1) outcome }
      | some none => some { s with
          point := .awaitingPolls (i + 1) outcome
          polls := s.polls.set i (some .cancelled) }
    | _ => none
  | .stopNext =>
    match s.point with
    | .stopping (c :: rest) outcome => some { s with
        point := .stopping rest outcome
        log := s.log ++ [.told c] }
    | .stopping [] outcome => some { s with point := .stoppingDaemon outcome }
    | _ => none
  | .warnRaises =>
    match s.point with
    | .stopping (c :: _) _ =>
      some (State.exit { s with log := s.log ++ [.told c] } (.raising 1) false)
    | _ => none
  | .stopDaemon =>
    match s.point with
    | .stoppingDaemon outcome =>
      let s : State := { s with log := s.log ++ [.toldDaemon] }
      match s.daemon with
      | some (.raised _) => some (s.exit outcome true)
      | some _ => some (s.exit outcome false)
      | none => some { s with point := .joining outcome }
    | _ => none
  | .joinTimeout =>
    match s.point, s.daemon with
    | .joining outcome, none => some (State.exit { s with daemon := some .cancelled } outcome false)
    | _, _ => none
  | .joinEnds =>
    match s.point, s.daemon with
    | .joining outcome, some (.raised .timeout) => some (s.exit outcome false)
    | .joining outcome, some (.raised _) => some (s.exit outcome true)
    | .joining outcome, some _ => some (s.exit outcome false)
    | _, _ => none

def serve : System State Act where
  init s := s = ⟨.awaitingSocket, none, [], false, [], [], none, []⟩
  step := State.step

end Model

section Specification

/-- The daemon is told last, and once; what was started was told before it. -/
def ToldLast (log : List Note) : Prop :=
  ∃ before, log = before ++ [.toldDaemon] ∧ .toldDaemon ∉ before ∧
    ∀ c, .started c ∈ before → .told c ∈ before

/-- No start function raises once a component has been started, no poll task fails, the teardown can
print its warnings, and the daemon raises nothing that ends the process with 0: neither an exception
that leaves the loop and does, nor a `TimeoutError` where the join of it cannot be told from its own
timeout. -/
def Clean (s : State) : Act → Prop
  | .start .raises => s.begun = []
  | .pollEnds _ (.raised _) => False
  | .warnRaises => False
  | .daemonEnds (.raised exc) =>
    exc.status ≠ 0 ∧ (exc = .timeout → s.point ≠ .joining (.code 0))
  | _ => True

instance (s : State) : DecidablePred (Clean s)
  | .start .raises => inferInstanceAs (Decidable (s.begun = []))
  | .pollEnds _ (.raised _) | .warnRaises => .isFalse id
  | .daemonEnds (.raised exc) => inferInstanceAs (Decidable (exc.status ≠ 0 ∧ _))
  | .start .skipped | .start .started | .pollEnds _ .returned | .pollEnds _ .cancelled
  | .daemonEnds .returned | .daemonEnds .cancelled | .stopSignal | .socketUp | .daemonNoticed
  | .stopNoticed _ | .bindTimeout | .handlesReturned | .startPolls _ | .manifestPrinted
  | .bootRaises | .wake | .pollAwaited | .stopNext | .stopDaemon | .joinTimeout | .joinEnds =>
    .isTrue trivial

end Specification

section Invariants

variable {s t : State} {act : Act} {outcome : Outcome}

/-- The components that are still to be told, but for those in the list, have been told. -/
def State.Left (s : State) (pending : List Component) : Prop :=
  .toldDaemon ∉ s.log ∧ ∀ c, .started c ∈ s.log → c ∈ pending ∨ .told c ∈ s.log

def Outcome.Fine (outcome : Outcome) : Prop :=
  outcome ≠ .raising 0

def State.AtPoint (s : State) : Prop :=
  match s.point with
  | .awaitingSocket => s.Left [] ∧ s.begun = [] ∧ s.polls = []
  | .starting _ => s.Left s.begun ∧ s.polls = []
  | .startingPolls => s.Left s.handles ∧ s.polls = []
  | .printing | .waiting => s.Left (s.handles ++ if s.polls = [] then [] else [.poll])
  | .awaitingPolls _ outcome => s.Left s.handles ∧ outcome.Fine
  | .stopping rest outcome => s.Left rest ∧ outcome.Fine
  | .stoppingDaemon outcome => s.Left [] ∧ outcome.Fine
  | .joining outcome => ToldLast s.log ∧ outcome.Fine ∧
      ∀ exc, s.daemon = some (.raised exc) → exc = .timeout → outcome ≠ .code 0
  | .exited status => ToldLast s.log ∧ (status = 0 → ∀ exc, s.daemon ≠ some (.raised exc))

structure Invariant (s : State) : Prop where
  polls : ∀ task ∈ s.polls, ∀ exc, task ≠ some (.raised exc)
  escaped : s.escaped ≠ some 0
  daemon : ∀ exc, s.daemon = some (.raised exc) → exc.escapes = true → s.escaped ≠ none
  atPoint : s.AtPoint

theorem State.Left.mono {pending more : List Component} (h : s.Left pending)
    (hsub : ∀ c ∈ pending, c ∈ more) : s.Left more :=
  ⟨h.1, fun c hc => (h.2 c hc).imp_left (hsub c)⟩

theorem tearDown_atPoint (left : s.Left (s.handles ++ if s.polls = [] then [] else [.poll]))
    (fine : outcome.Fine) : (s.tearDown outcome).AtPoint := by
  refine ⟨⟨?_, ?_⟩, fine⟩
  · rw [State.tearDown, List.mem_append, not_or]
    refine ⟨left.1, ?_⟩
    split
    · exact List.not_mem_nil
    · exact nofun
  · intro c hc
    rw [State.tearDown, List.mem_append] at hc ⊢
    have hstarted : .started c ∈ s.log := by
      rcases hc with hc | hc
      · exact hc
      · split at hc <;> simp at hc
    rcases left.2 c hstarted with hpending | htold
    · rcases List.mem_append.mp hpending with hhandle | hpoll
      · exact .inl hhandle
      · right
        right
        split at hpoll
        · nomatch hpoll
        · rename_i hpolls
          rw [List.mem_singleton.mp hpoll, if_neg hpolls]
          exact List.mem_singleton_self _
    · exact .inr (.inl htold)

theorem tearDown_invariant (h : Invariant s)
    (left : s.Left (s.handles ++ if s.polls = [] then [] else [.poll])) (fine : outcome.Fine) :
    Invariant (s.tearDown outcome) :=
  ⟨h.polls, h.escaped, h.daemon, tearDown_atPoint left fine⟩

/-- The exit status is 0 only of a run that meant to return 0 and had no failure to report. -/
theorem exit_invariant (polls : ∀ task ∈ s.polls, ∀ exc, task ≠ some (.raised exc))
    (escaped : s.escaped ≠ some 0)
    (daemon : ∀ exc, s.daemon = some (.raised exc) → exc.escapes = true → s.escaped ≠ none)
    (told : ToldLast s.log) (fine : outcome.Fine) (failed : Bool)
    (reported : failed = false → ∀ exc, s.daemon = some (.raised exc) →
      s.escaped ≠ none ∨ outcome ≠ .code 0) : Invariant (s.exit outcome failed) := by
  refine ⟨polls, escaped, daemon, told, ?_⟩
  intro hstatus exc hraised
  cases hescaped : s.escaped with
  | some status =>
    rw [hescaped, Option.getD_some] at hstatus
    exact escaped (hescaped.trans (congrArg some hstatus))
  | none =>
    rw [hescaped, Option.getD_none] at hstatus
    cases outcome with
    | raising status => exact fine (congrArg _ hstatus)
    | code n =>
      cases n with
      | succ n => nomatch hstatus
      | zero =>
        cases failed with
        | true => nomatch hstatus
        | false =>
          rcases reported rfl exc hraised with hsome | hcode
          · exact hsome hescaped
          · exact hcode rfl

theorem interrupt_invariant {status : Nat}
    (polls : ∀ task ∈ s.polls, ∀ exc, task ≠ some (.raised exc)) (hstatus : status ≠ 0)
    (atPoint : s.AtPoint) (awaits : s.awaits = true) : Invariant (s.interrupt status) := by
  have hescaped : some status ≠ some 0 := fun h => hstatus (Option.some.inj h)
  have hfine : (Outcome.raising 1).Fine := nofun
  rw [State.AtPoint.eq_def] at atPoint
  rw [State.awaits.eq_def] at awaits
  rw [State.interrupt]
  cases hpoint : s.point with
  | awaitingSocket =>
    rw [hpoint] at atPoint
    refine ⟨polls, hescaped, fun _ _ _ => Option.some_ne_none _, tearDown_atPoint ?_ hfine⟩
    exact atPoint.1.mono nofun
  | waiting =>
    rw [hpoint] at atPoint
    exact ⟨polls, hescaped, fun _ _ _ => Option.some_ne_none _, tearDown_atPoint atPoint hfine⟩
  | awaitingPolls i outcome =>
    rw [hpoint] at atPoint
    exact ⟨polls, hescaped, fun _ _ _ => Option.some_ne_none _, atPoint⟩
  | joining outcome =>
    rw [hpoint] at atPoint
    exact exit_invariant (s := { s with escaped := some status }) polls hescaped
      (fun _ _ _ => Option.some_ne_none _) atPoint.1 atPoint.2.1 false
      fun _ _ _ => .inl (Option.some_ne_none _)
  | _ =>
    rw [hpoint] at awaits
    nomatch awaits

theorem atPoint_daemon {result : Result} (hat : s.AtPoint) (awaits : s.awaits = true)
    (hjoin : ∀ exc, result = .raised exc → exc = .timeout → s.point ≠ .joining (.code 0)) :
    State.AtPoint { s with daemon := some result } := by
  rw [State.AtPoint.eq_def] at hat ⊢
  rw [State.awaits.eq_def] at awaits
  revert hat hjoin awaits
  cases s.point with
  | joining outcome =>
    rintro ⟨htold, hfine, -⟩ - hjoin
    refine ⟨htold, hfine, ?_⟩
    rintro exc hraised htimeout rfl
    exact hjoin exc (Option.some.inj hraised) htimeout rfl
  | exited status => nofun
  | _ => exact fun hat _ _ => hat

theorem daemonEnds_invariant {result : Result} (h : Invariant s)
    (clean : Clean s (.daemonEnds result)) (awaits : s.awaits = true) :
    Invariant (State.ends { s with daemon := some result } result) := by
  cases result with
  | returned =>
    exact ⟨h.polls, h.escaped, nofun, atPoint_daemon h.atPoint awaits nofun⟩
  | cancelled =>
    exact ⟨h.polls, h.escaped, nofun, atPoint_daemon h.atPoint awaits nofun⟩
  | raised exc =>
    obtain ⟨hstatus, htimeout⟩ := clean
    have hat : State.AtPoint { s with daemon := some (.raised exc) } := by
      refine atPoint_daemon h.atPoint awaits ?_
      intro exc' hexc
      obtain rfl := Result.raised.inj hexc
      exact htimeout
    rw [State.ends]
    split
    · exact interrupt_invariant h.polls hstatus hat awaits
    · rename_i hescapes
      refine ⟨h.polls, h.escaped, ?_, hat⟩
      rintro _ hraised hescapes'
      obtain rfl := Result.raised.inj (Option.some.inj hraised)
      exact absurd hescapes' hescapes

theorem atPoint_set {i : Nat} {task : Option Result} (hat : s.AtPoint) :
    State.AtPoint { s with polls := s.polls.set i task } := by
  rw [State.AtPoint.eq_def] at hat ⊢
  revert hat
  cases s.point <;> simp only [State.Left, List.set_eq_nil_iff, imp_self]

theorem polls_set {i : Nat} {task : Option Result} (h : Invariant s)
    (htask : ∀ exc, task ≠ some (.raised exc)) :
    ∀ other ∈ s.polls.set i task, ∀ exc, other ≠ some (.raised exc) := by
  intro other hother
  rcases List.mem_or_eq_of_mem_set hother with hold | rfl
  · exact h.polls other hold
  · exact htask

theorem pollEnds_invariant {i : Nat} {result : Result} (h : Invariant s)
    (clean : Clean s (.pollEnds i result)) :
    Invariant (State.ends { s with polls := s.polls.set i (some result) } result) := by
  cases result with
  | raised exc => exact False.elim clean
  | _ => exact ⟨polls_set h nofun, h.escaped, h.daemon, atPoint_set h.atPoint⟩

theorem State.Left.started {pending : List Component} {c : Component} (h : s.Left pending)
    (hlog : t.log = s.log ++ [.started c]) : t.Left (pending ++ [c]) := by
  constructor
  · simp [hlog, h.1]
  · intro other hother
    simp only [hlog, List.mem_append, List.mem_singleton, Note.started.injEq] at hother ⊢
    rcases hother with hother | rfl
    · exact (h.2 other hother).imp .inl .inl
    · exact .inl (.inr rfl)

theorem State.Left.told {rest : List Component} {c : Component} (h : s.Left (c :: rest))
    (hlog : t.log = s.log ++ [.told c]) : t.Left rest := by
  constructor
  · simp [hlog, h.1]
  · intro other hother
    simp only [hlog, List.mem_append, List.mem_singleton, reduceCtorEq, or_false] at hother ⊢
    rcases h.2 other hother with hpending | htold
    · rcases List.mem_cons.mp hpending with rfl | hrest
      · exact .inr (.inr rfl)
      · exact .inl hrest
    · exact .inr (.inl htold)

theorem State.Left.toldLast (h : s.Left []) : ToldLast (s.log ++ [.toldDaemon]) := by
  refine ⟨s.log, rfl, h.1, fun c hc => (h.2 c hc).resolve_left List.not_mem_nil⟩

theorem stopDaemon_invariant (h : Invariant s) (hstep : s.step .stopDaemon = some t) :
    Invariant t := by
  have hat := h.atPoint
  simp only [State.step] at hstep
  split at hstep
  · rename_i outcome hpoint
    rw [State.AtPoint, hpoint] at hat
    obtain ⟨hleft, hfine⟩ := hat
    have hexit := exit_invariant (s := { s with log := s.log ++ [.toldDaemon] }) h.polls h.escaped
      h.daemon hleft.toldLast hfine
    split at hstep
    · obtain rfl := Option.some.inj hstep
      exact hexit true nofun
    · rename_i result hraised hdaemon
      obtain rfl := Option.some.inj hstep
      refine hexit false fun _ exc hexc => ?_
      change s.daemon = some (.raised exc) at hexc
      rw [hdaemon] at hexc
      exact absurd (Option.some.inj hexc) (hraised exc)
    · rename_i hdaemon
      obtain rfl := Option.some.inj hstep
      refine ⟨h.polls, h.escaped, h.daemon, hleft.toldLast, hfine, ?_⟩
      intro exc hraised
      rw [hdaemon] at hraised
      nomatch hraised
  · nomatch hstep

theorem joinEnds_invariant (h : Invariant s) (hstep : s.step .joinEnds = some t) :
    Invariant t := by
  have hat := h.atPoint
  simp only [State.step] at hstep
  cases hpoint : s.point with
  | joining outcome =>
    rw [State.AtPoint, hpoint] at hat
    obtain ⟨htold, hfine, htimeout⟩ := hat
    have hexit := exit_invariant h.polls h.escaped h.daemon htold hfine
    cases hdaemon : s.daemon with
    | none =>
      simp only [hpoint, hdaemon] at hstep
      nomatch hstep
    | some result =>
      cases result with
      | raised exc =>
        by_cases hexc : exc = .timeout
        · rw [hexc] at hdaemon
          simp only [hpoint, hdaemon] at hstep
          obtain rfl := Option.some.inj hstep
          exact hexit false fun _ _ _ => .inr (htimeout _ hdaemon rfl)
        · simp only [hpoint, hdaemon] at hstep
          obtain rfl := Option.some.inj hstep
          exact hexit true nofun
      | _ =>
        simp only [hpoint, hdaemon] at hstep
        obtain rfl := Option.some.inj hstep
        refine hexit false fun _ exc hexc => ?_
        rw [hdaemon] at hexc
        nomatch hexc
  | _ =>
    simp only [hpoint] at hstep
    nomatch hstep

theorem invariant_step (h : Invariant s) (clean : Clean s act) (hstep : s.step act = some t) :
    Invariant t := by
  have hat := h.atPoint
  rw [State.AtPoint.eq_def] at hat
  have hraising : (Outcome.raising 1).Fine := nofun
  cases act with
  | stopSignal =>
    simp only [State.step] at hstep
    split at hstep
    · obtain rfl := Option.some.inj hstep
      exact ⟨h.polls, h.escaped, h.daemon, h.atPoint⟩
    · nomatch hstep
  | daemonEnds result =>
    simp only [State.step] at hstep
    split at hstep
    · obtain rfl := Option.some.inj hstep
      exact daemonEnds_invariant h clean (by tauto)
    · nomatch hstep
  | pollEnds i result =>
    simp only [State.step] at hstep
    split at hstep
    · obtain rfl := Option.some.inj hstep
      exact pollEnds_invariant h clean
    · nomatch hstep
  | socketUp =>
    simp only [State.step] at hstep
    split at hstep
    · rename_i hpoint
      obtain rfl := Option.some.inj hstep
      rw [hpoint] at hat
      exact ⟨h.polls, h.escaped, h.daemon, hat.1.mono nofun, hat.2.2⟩
    · nomatch hstep
  | daemonNoticed =>
    simp only [State.step] at hstep
    split at hstep
    · rename_i hpoint _
      obtain rfl := Option.some.inj hstep
      rw [hpoint] at hat
      exact tearDown_invariant h (hat.1.mono nofun) hraising
    · nomatch hstep
  | stopNoticed bound =>
    simp only [State.step] at hstep
    split at hstep
    · rename_i hpoint _ _
      rw [hpoint] at hat
      split at hstep
      · obtain rfl := Option.some.inj hstep
        exact ⟨h.polls, h.escaped, h.daemon, hat.1.mono nofun, hat.2.2⟩
      · obtain rfl := Option.some.inj hstep
        exact tearDown_invariant h (hat.1.mono nofun) nofun
    · nomatch hstep
  | bindTimeout =>
    simp only [State.step] at hstep
    split at hstep
    · rename_i hpoint
      obtain rfl := Option.some.inj hstep
      rw [hpoint] at hat
      exact tearDown_invariant h (hat.1.mono nofun) hraising
    · nomatch hstep
  | start start =>
    simp only [State.step] at hstep
    split at hstep
    · rename_i c rest hpoint
      rw [hpoint] at hat
      cases start with
      | skipped =>
        obtain rfl := Option.some.inj hstep
        exact ⟨h.polls, h.escaped, h.daemon, hat⟩
      | started =>
        obtain rfl := Option.some.inj hstep
        exact ⟨h.polls, h.escaped, h.daemon, hat.1.started rfl, hat.2⟩
      | raises =>
        obtain rfl := Option.some.inj hstep
        refine tearDown_invariant h (hat.1.mono ?_) hraising
        rw [show s.begun = [] from clean]
        exact nofun
    · nomatch hstep
  | handlesReturned =>
    simp only [State.step] at hstep
    split at hstep
    · rename_i hpoint
      obtain rfl := Option.some.inj hstep
      rw [hpoint] at hat
      exact ⟨h.polls, h.escaped, h.daemon, hat⟩
    · nomatch hstep
  | startPolls poll =>
    simp only [State.step] at hstep
    split at hstep
    · rename_i hpoint
      obtain rfl := Option.some.inj hstep
      rw [hpoint] at hat
      cases poll with
      | true => exact ⟨by simp, h.escaped, h.daemon, hat.1.started rfl⟩
      | false =>
        refine ⟨nofun, h.escaped, h.daemon, ?_⟩
        have hleft := hat.1.mono fun c => List.mem_append_left []
        simpa [State.AtPoint, State.Left] using hleft
    · nomatch hstep
  | manifestPrinted =>
    simp only [State.step] at hstep
    split at hstep
    · rename_i hpoint
      obtain rfl := Option.some.inj hstep
      rw [hpoint] at hat
      exact ⟨h.polls, h.escaped, h.daemon, hat⟩
    · nomatch hstep
  | bootRaises =>
    simp only [State.step] at hstep
    split at hstep
    · rename_i hpoint
      obtain rfl := Option.some.inj hstep
      rw [hpoint] at hat
      exact tearDown_invariant h (hat.1.mono fun c => List.mem_append_left _) hraising
    · rename_i hpoint
      obtain rfl := Option.some.inj hstep
      rw [hpoint] at hat
      exact tearDown_invariant h hat hraising
    · nomatch hstep
  | wake =>
    simp only [State.step] at hstep
    split at hstep
    · rename_i hpoint
      rw [hpoint] at hat
      split at hstep
      · obtain rfl := Option.some.inj hstep
        refine tearDown_invariant h hat ?_
        split <;> exact nofun
      split at hstep
      · obtain rfl := Option.some.inj hstep
        exact tearDown_invariant h hat nofun
      · nomatch hstep
    · nomatch hstep
  | pollAwaited =>
    simp only [State.step] at hstep
    split at hstep
    · rename_i i outcome hpoint
      rw [hpoint] at hat
      split at hstep
      · obtain rfl := Option.some.inj hstep
        exact ⟨h.polls, h.escaped, h.daemon, hat⟩
      · rename_i exc htask
        exact absurd rfl (h.polls _ (List.mem_of_getElem? htask) exc)
      · obtain rfl := Option.some.inj hstep
        exact ⟨h.polls, h.escaped, h.daemon, hat⟩
      · obtain rfl := Option.some.inj hstep
        exact ⟨polls_set h nofun, h.escaped, h.daemon, hat⟩
    · nomatch hstep
  | stopNext =>
    simp only [State.step] at hstep
    split at hstep
    · rename_i c rest outcome hpoint
      obtain rfl := Option.some.inj hstep
      rw [hpoint] at hat
      exact ⟨h.polls, h.escaped, h.daemon, hat.1.told rfl, hat.2⟩
    · rename_i outcome hpoint
      obtain rfl := Option.some.inj hstep
      rw [hpoint] at hat
      exact ⟨h.polls, h.escaped, h.daemon, hat⟩
    · nomatch hstep
  | warnRaises => exact clean.elim
  | stopDaemon => exact stopDaemon_invariant h hstep
  | joinTimeout =>
    simp only [State.step] at hstep
    split at hstep
    · rename_i outcome hpoint _
      obtain rfl := Option.some.inj hstep
      rw [hpoint] at hat
      exact exit_invariant (s := { s with daemon := some .cancelled }) h.polls h.escaped nofun
        hat.1 hat.2.1 false nofun
    · nomatch hstep
  | joinEnds => exact joinEnds_invariant h hstep

end Invariants

section Runs

variable {s : State}

theorem invariant_init (h : serve.init s) : Invariant s := by
  rw [show s = _ from h]
  exact ⟨nofun, nofun, nofun, ⟨nofun, nofun⟩, rfl, rfl⟩

theorem toldLast_of_mem (h : Invariant s) (hlog : .toldDaemon ∈ s.log) : ToldLast s.log := by
  have hat := h.atPoint
  rw [State.AtPoint.eq_def] at hat
  split at hat
  · exact absurd hlog hat.1.1
  · exact absurd hlog hat.1.1
  · exact absurd hlog hat.1.1
  · exact absurd hlog hat.1
  · exact absurd hlog hat.1
  · exact absurd hlog hat.1.1
  · exact absurd hlog hat.1.1
  · exact absurd hlog hat.1.1
  · exact hat.1
  · exact hat.1

def boot : State :=
  ⟨.awaitingSocket, none, [], false, [], [], none, []⟩

end Runs

end Waitbus.Serve
