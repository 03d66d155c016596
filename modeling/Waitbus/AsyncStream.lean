import Mathlib
import Waitbus.Runs

/-! The hand-off of `asubscribe`: a worker thread puts the events of the stream on a bounded queue
of the event loop, and then its error and the mark of the end; the consumer gets them one by one.
However the consumer stops, it closes the socket and drains the queue, so that a worker that waits
for a free place gets one. -/

namespace Waitbus.AsyncStream
open Runs

variable {ε χ : Type*}

section Model

/-- What is handed over: an event, the worker's error, or `_STREAM_DONE`. -/
inductive Item (ε χ : Type*) where
  | event (e : ε)
  | error (x : χ)
  | done
  deriving DecidableEq

/-- What `_drain_one` comes to; `osError` is an `OSError` that is no typed reject. -/
inductive Drained (ε χ : Type*) where
  | event (e : ε)
  | ended
  | error (x : χ)
  | osError

/-- Where the worker is: in `_drain_one`, which began when the socket was open or not, or in
`_put`. -/
inductive Worker (ε χ : Type*) where
  | draining (opened : Bool)
  | putting (item : Item ε χ)
  | finished
  deriving DecidableEq

/-- How the consumer stops: at the end of the stream, by the worker's error, at a `yield` whose
generator is closed, or by its cancellation. -/
inductive Ending (χ : Type*) where
  | ended
  | raised (x : χ)
  | closed
  | cancelled
  deriving DecidableEq

/-- Where the consumer is: at the await of the queue, at the `yield`, or in the `finally`, at the
await of the worker's end or at that of the drainer's. -/
inductive Consumer (χ : Type*) where
  | getting
  | yielded
  | joining (ending : Ending χ)
  | cancelling (ending : Ending χ)
  | over (ending : Ending χ)
  deriving DecidableEq

/-- The task of `_drain_forever`; it is created some time before its first turn. -/
inductive Drainer where
  | absent
  | created
  | running
  | cancelled
  deriving DecidableEq

/-- `matched`, `ended` and `received` are history: the events that the worker took off the stream,
how it ended, with its error if it hands one over, and the events that the consumer got. -/
structure State (ε χ : Type*) where
  worker : Worker ε χ
  sockOpen : Bool
  queue : List (Item ε χ)
  consumer : Consumer χ
  drainer : Drainer
  matched : List ε
  ended : Option (Option χ)
  received : List ε

def asubscribeQueueMaxsize : Nat := 256

inductive Act (ε χ : Type*) where
  /-- `_drain_one` returns or raises in the worker. -/
  | drainOne (result : Drained ε χ)
  /-- The put that the worker waits for is done in the loop. -/
  | put
  /-- The put is cancelled during the teardown. -/
  | putCancelled
  | get
  /-- The consumer asks for the next event. -/
  | resume
  /-- The generator is closed where it has yielded. -/
  | close
  /-- The consumer is cancelled where it awaits. -/
  | cancel
  /-- A turn of the drainer. -/
  | drain
  /-- The worker is joined, or the time for it is over. -/
  | joined
  | drainerEnded

/-- After `_put(event)` the worker goes on; after an error comes the mark of the end. -/
def afterPut (sockOpen : Bool) : Item ε χ → Worker ε χ
  | .event _ => .draining sockOpen
  | .error _ => .putting .done
  | .done => .finished

/-- After a put that was cancelled the worker stops, for which it puts the mark of the end. -/
def afterCancelledPut : Item ε χ → Worker ε χ
  | .event _ | .error _ => .putting .done
  | .done => .finished

/-- The `finally` up to its first await. -/
def State.tearDown (s : State ε χ) (ending : Ending χ) : State ε χ :=
  { s with sockOpen := false, drainer := .created, consumer := .joining ending }

def Consumer.ending : Consumer χ → Option (Ending χ)
  | .getting | .yielded => none
  | .joining ending | .cancelling ending | .over ending => some ending

def State.step (s : State ε χ) : Act ε χ → Option (State ε χ)
  | .drainOne result =>
    match s.worker, result with
    | .draining true, .event e =>
      some { s with worker := .putting (.event e), matched := s.matched ++ [e] }
    | .draining true, .ended => some { s with worker := .putting .done, ended := some none }
    | .draining _, .error x => some { s with worker := .putting (.error x), ended := some (some x) }
    | .draining _, .osError => some { s with worker := .putting .done, ended := some none }
    | _, _ => none
  | .put =>
    match s.worker with
    | .putting item =>
      if s.queue.length < asubscribeQueueMaxsize then
        some { s with queue := s.queue ++ [item], worker := afterPut s.sockOpen item }
      else none
    | _ => none
  | .putCancelled =>
    match s.worker, s.consumer.ending with
    | .putting item, some _ => some { s with worker := afterCancelledPut item }
    | _, _ => none
  | .get =>
    match s.consumer, s.queue with
    | .getting, .event e :: queue =>
      some { s with queue, consumer := .yielded, received := s.received ++ [e] }
    | .getting, .error x :: queue => some ({ s with queue }.tearDown (.raised x))
    | .getting, .done :: queue => some ({ s with queue }.tearDown .ended)
    | _, _ => none
  | .resume =>
    match s.consumer with
    | .yielded => some { s with consumer := .getting }
    | _ => none
  | .close =>
    match s.consumer with
    | .yielded => some (s.tearDown .closed)
    | _ => none
  | .cancel =>
    match s.consumer, s.drainer with
    | .getting, _ => some (s.tearDown .cancelled)
    -- The drainer's first turn was scheduled before the consumer could be, and comes first.
    | .joining _, .running =>
      some { s with consumer := .cancelling .cancelled, drainer := .cancelled }
    -- At the last await the cancellation is suppressed.
    | .cancelling ending, _ => some { s with consumer := .over ending }
    | _, _ => none
  | .drain =>
    match s.drainer, s.queue with
    | .created, _ => some { s with queue := [], drainer := .running }
    | .running, _ :: _ => some { s with queue := [] }
    | _, _ => none
  | .joined =>
    match s.consumer, s.drainer with
    | .joining ending, .running =>
      some { s with consumer := .cancelling ending, drainer := .cancelled }
    | _, _ => none
  | .drainerEnded =>
    match s.consumer with
    | .cancelling ending => some { s with consumer := .over ending }
    | _ => none

def asubscribe : System (State ε χ) (Act ε χ) where
  init s := s = ⟨.draining true, true, [], .getting, .absent, [], none, []⟩
  step := State.step

end Model

section Specification

def Item.event? : Item ε χ → Option ε
  | .event e => some e
  | _ => none

def Worker.inHand : Worker ε χ → List (Item ε χ)
  | .putting item => [item]
  | _ => []

def State.onTheWay (s : State ε χ) : List ε :=
  (s.queue ++ s.worker.inHand).filterMap Item.event?

def Act.ofWorker : Act ε χ → Bool
  | .drainOne _ | .put | .drain => true
  | _ => false

def Worker.remaining : Worker ε χ → Nat
  | .draining true => 8
  | .putting (.event _) => 7
  | .draining false => 5
  | .putting (.error _) => 4
  | .putting .done => 2
  | .finished => 0

def Consumer.remaining : Consumer χ → Nat
  | .joining _ => 2
  | .cancelling _ => 1
  | _ => 0

/-- A bound of the steps that are left once the teardown has begun. -/
def State.remaining (s : State ε χ) : Nat :=
  s.worker.remaining + s.queue.length + s.consumer.remaining +
    if s.drainer = .created then 1 else 0

end Specification

section Staying

variable {s t : State ε χ} {act : Act ε χ}

/-- What the worker is still to put for what it took off the stream. -/
def Worker.toCome : Worker ε χ → List (Item ε χ)
  | .putting (.error x) => [.error x, .done]
  | worker => worker.inHand

def endItems : Option (Option χ) → List (Item ε χ)
  | none => []
  | some none => [.done]
  | some (some x) => [.error x, .done]

def Worker.past : Worker ε χ → Prop
  | .draining _ | .putting (.event _) => False
  | _ => True

/-- What holds before the teardown: all that was taken off the stream has been got, is queued, or is
to be put. -/
structure Staying (s : State ε χ) : Prop where
  flow : s.received.map .event ++ (s.queue ++ s.worker.toCome) =
    s.matched.map .event ++ endItems s.ended
  past : s.ended ≠ none ↔ s.worker.past
  opened : s.worker ≠ .draining false
  sockOpen : s.sockOpen = true
  drainer : s.drainer = .absent

theorem filterMap_event (l : List ε) :
    (l.map (Item.event (χ := χ))).filterMap Item.event? = l := by
  rw [List.filterMap_map]
  exact List.filterMap_some

theorem filterMap_endItems (ended : Option (Option χ)) :
    (endItems (ε := ε) ended).filterMap Item.event? = [] := by
  cases ended with
  | none => rfl
  | some error => cases error <;> rfl

theorem filterMap_toCome (worker : Worker ε χ) :
    worker.toCome.filterMap Item.event? = worker.inHand.filterMap Item.event? := by
  cases worker with
  | putting item => cases item <;> rfl
  | _ => rfl

theorem Staying.onTheWay (staying : Staying s) : s.received ++ s.onTheWay = s.matched := by
  have h := congrArg (List.filterMap Item.event?) staying.flow
  rw [List.filterMap_append, List.filterMap_append, List.filterMap_append, filterMap_event,
    filterMap_event, filterMap_endItems, filterMap_toCome, List.append_nil,
    ← List.filterMap_append] at h
  exact h

theorem events_got {received matched : List ε} {item : Item ε χ} {rest : List (Item ε χ)}
    {ended : Option (Option χ)} (hitem : item.event? = none)
    (h : received.map .event ++ item :: rest = matched.map .event ++ endItems ended) :
    received = matched ∧ item :: rest = endItems ended := by
  induction received generalizing matched with
  | nil =>
    cases matched with
    | nil => exact ⟨rfl, h⟩
    | cons e matched =>
      obtain ⟨rfl, -⟩ := List.cons.inj h
      nomatch hitem
  | cons e received ih =>
    cases matched with
    | nil =>
      have hmem : Item.event e ∈ endItems ended := by
        rw [List.map_nil, List.nil_append] at h
        rw [← h]
        exact List.mem_cons_self
      have hnone := filterMap_endItems (ε := ε) ended
      rw [List.filterMap_eq_nil_iff] at hnone
      nomatch hnone _ hmem
    | cons e' matched =>
      obtain ⟨he, hrest⟩ := List.cons.inj h
      obtain ⟨rfl, hitems⟩ := ih hrest
      obtain rfl := Item.event.inj he
      exact ⟨rfl, hitems⟩

end Staying

section Steps

variable {s t : State ε χ} {act : Act ε χ} {result : Drained ε χ} {ending : Ending χ}

theorem step_drainOne (h : s.step (.drainOne result) = some t) :
    (∃ e, s.worker = .draining true ∧
        t = { s with worker := .putting (.event e), matched := s.matched ++ [e] }) ∨
      ∃ opened, s.worker = .draining opened ∧
        (t = { s with worker := .putting .done, ended := some none } ∨
          ∃ x, t = { s with worker := .putting (.error x), ended := some (some x) }) := by
  rw [State.step.eq_def] at h
  dsimp only at h
  split at h
  · exact .inl ⟨_, ‹_›, (Option.some.inj h).symm⟩
  · exact .inr ⟨true, ‹_›, .inl (Option.some.inj h).symm⟩
  · exact .inr ⟨_, ‹_›, .inr ⟨_, (Option.some.inj h).symm⟩⟩
  · exact .inr ⟨_, ‹_›, .inl (Option.some.inj h).symm⟩
  · nomatch h

theorem step_put (h : s.step .put = some t) :
    ∃ item, s.worker = .putting item ∧
      t = { s with queue := s.queue ++ [item], worker := afterPut s.sockOpen item } := by
  rw [State.step.eq_def] at h
  dsimp only at h
  split at h
  · split at h
    · exact ⟨_, ‹_›, (Option.some.inj h).symm⟩
    · nomatch h
  · nomatch h

theorem step_putCancelled (h : s.step .putCancelled = some t) :
    ∃ item ending, s.worker = .putting item ∧ s.consumer.ending = some ending ∧
      t = { s with worker := afterCancelledPut item } := by
  rw [State.step.eq_def] at h
  dsimp only at h
  split at h
  · exact ⟨_, _, ‹_›, ‹_›, (Option.some.inj h).symm⟩
  · nomatch h

theorem step_get (h : s.step .get = some t) :
    s.consumer = .getting ∧ ∃ item queue, s.queue = item :: queue ∧
      ((∃ e, item = .event e ∧
          t = { s with queue, consumer := .yielded, received := s.received ++ [e] }) ∨
        (∃ x, item = .error x ∧ t = { s with queue }.tearDown (.raised x)) ∨
        item = .done ∧ t = { s with queue }.tearDown .ended) := by
  rw [State.step.eq_def] at h
  dsimp only at h
  split at h
  · exact ⟨‹_›, _, _, ‹_›, .inl ⟨_, rfl, (Option.some.inj h).symm⟩⟩
  · exact ⟨‹_›, _, _, ‹_›, .inr (.inl ⟨_, rfl, (Option.some.inj h).symm⟩)⟩
  · exact ⟨‹_›, _, _, ‹_›, .inr (.inr ⟨rfl, (Option.some.inj h).symm⟩)⟩
  · nomatch h

theorem step_resume (h : s.step .resume = some t) :
    s.consumer = .yielded ∧ t = { s with consumer := .getting } := by
  rw [State.step.eq_def] at h
  dsimp only at h
  split at h
  · exact ⟨‹_›, (Option.some.inj h).symm⟩
  · nomatch h

theorem step_close (h : s.step .close = some t) :
    s.consumer = .yielded ∧ t = s.tearDown .closed := by
  rw [State.step.eq_def] at h
  dsimp only at h
  split at h
  · exact ⟨‹_›, (Option.some.inj h).symm⟩
  · nomatch h

theorem step_cancel (h : s.step .cancel = some t) :
    s.consumer = .getting ∧ t = s.tearDown .cancelled ∨
      (∃ ending, s.consumer = .joining ending ∧ s.drainer = .running ∧
        t = { s with consumer := .cancelling .cancelled, drainer := .cancelled }) ∨
      ∃ ending, s.consumer = .cancelling ending ∧ t = { s with consumer := .over ending } := by
  rw [State.step.eq_def] at h
  dsimp only at h
  split at h
  · exact .inl ⟨‹_›, (Option.some.inj h).symm⟩
  · exact .inr (.inl ⟨_, ‹_›, ‹_›, (Option.some.inj h).symm⟩)
  · exact .inr (.inr ⟨_, ‹_›, (Option.some.inj h).symm⟩)
  · nomatch h

theorem step_drain (h : s.step .drain = some t) :
    s.drainer = .created ∧ t = { s with queue := [], drainer := .running } ∨
      s.drainer = .running ∧ s.queue ≠ [] ∧ t = { s with queue := [] } := by
  rw [State.step.eq_def] at h
  dsimp only at h
  split at h
  · exact .inl ⟨‹_›, (Option.some.inj h).symm⟩
  · rename_i hdrainer hqueue
    exact .inr ⟨hdrainer, by simp [hqueue], (Option.some.inj h).symm⟩
  · nomatch h

theorem step_joined (h : s.step .joined = some t) :
    ∃ ending, s.consumer = .joining ending ∧ s.drainer = .running ∧
      t = { s with consumer := .cancelling ending, drainer := .cancelled } := by
  rw [State.step.eq_def] at h
  dsimp only at h
  split at h
  · exact ⟨_, ‹_›, ‹_›, (Option.some.inj h).symm⟩
  · nomatch h

theorem step_drainerEnded (h : s.step .drainerEnded = some t) :
    ∃ ending, s.consumer = .cancelling ending ∧ t = { s with consumer := .over ending } := by
  rw [State.step.eq_def] at h
  dsimp only at h
  split at h
  · exact ⟨_, ‹_›, (Option.some.inj h).symm⟩
  · nomatch h

end Steps

section Stopping

variable {s t : State ε χ} {act : Act ε χ} {ending : Ending χ}

/-- How many items the worker may still put once the socket is closed. -/
def Worker.rest : Worker ε χ → Nat
  | .draining true | .putting (.event _) => 3
  | .draining false | .putting (.error _) => 2
  | .putting .done => 1
  | .finished => 0

/-- What holds in the teardown. After its first turn the drainer is no longer needed: what the
worker may still put has room in the queue. -/
structure Stopped (s : State ε χ) (ending : Ending χ) : Prop where
  sockOpen : s.sockOpen = false
  drainer : s.drainer ≠ .absent
  received : s.received <+: s.matched
  past : s.ended ≠ none → s.worker.past
  room : s.drainer ≠ .created → s.queue.length + s.worker.rest ≤ 3
  ended : ending = .ended → s.received = s.matched ∧ s.ended = some none
  raised : ∀ x, ending = .raised x → s.received = s.matched ∧ s.ended = some (some x)

theorem rest_le (worker : Worker ε χ) : worker.rest ≤ 3 := by
  unfold Worker.rest
  split
  all_goals omega

theorem Staying.tearDown (staying : Staying s) (ending : Ending χ)
    (hended : ending = .ended → s.received = s.matched ∧ s.ended = some none)
    (hraised : ∀ x, ending = .raised x → s.received = s.matched ∧ s.ended = some (some x))
    (queue : List (Item ε χ)) : Stopped ({ s with queue }.tearDown ending) ending where
  sockOpen := rfl
  drainer := nofun
  received := ⟨s.onTheWay, staying.onTheWay⟩
  past := staying.past.mp
  room := fun h => absurd rfl h
  ended := hended
  raised := hraised

theorem staying_step (staying : Staying s) (hconsumer : s.consumer.ending = none)
    (h : s.step act = some t) :
    t.consumer.ending = none ∧ Staying t ∨
      ∃ ending, t.consumer.ending = some ending ∧ Stopped t ending := by
  have ⟨hflow, hpast, hopened, hsock, hdrainer⟩ := staying
  cases act with
  | drainOne result =>
    left
    have hnone : ∀ opened, s.worker = .draining opened → s.ended = none := by
      intro opened hworker
      by_contra hended
      have := hpast.mp hended
      rw [hworker] at this
      exact this
    rcases step_drainOne h with ⟨e, hworker, rfl⟩ | ⟨opened, hworker, rfl | ⟨x, rfl⟩⟩
    all_goals
      have hended := hnone _ hworker
      simp only [hworker, hended, Worker.toCome, Worker.inHand, endItems, List.append_nil] at hflow
      refine ⟨hconsumer, ?_, ?_, nofun, hsock, hdrainer⟩
    · simp [Worker.toCome, Worker.inHand, endItems, hended, ← hflow]
    · exact iff_of_false (not_not.mpr hended) id
    · simp [Worker.toCome, Worker.inHand, endItems, ← hflow]
    · exact iff_of_true nofun trivial
    · simp [Worker.toCome, endItems, ← hflow]
    · exact iff_of_true nofun trivial
  | put =>
    left
    obtain ⟨item, hworker, rfl⟩ := step_put h
    rw [hworker] at hflow hpast
    cases item with
    | event e =>
      refine ⟨hconsumer, ?_, hpast, by simp [afterPut, hsock], hsock, hdrainer⟩
      simpa [afterPut, Worker.toCome, Worker.inHand] using hflow
    | error x =>
      refine ⟨hconsumer, ?_, hpast, nofun, hsock, hdrainer⟩
      simpa [afterPut, Worker.toCome, Worker.inHand] using hflow
    | done =>
      refine ⟨hconsumer, ?_, hpast, nofun, hsock, hdrainer⟩
      simpa [afterPut, Worker.toCome, Worker.inHand] using hflow
  | putCancelled =>
    obtain ⟨item, ending, -, hending, -⟩ := step_putCancelled h
    rw [hconsumer] at hending
    nomatch hending
  | get =>
    obtain ⟨-, item, queue, hqueue, hget⟩ := step_get h
    rw [hqueue, List.cons_append] at hflow
    rcases hget with ⟨e, rfl, rfl⟩ | ⟨x, rfl, rfl⟩ | ⟨rfl, rfl⟩
    · left
      refine ⟨rfl, ?_, hpast, hopened, hsock, hdrainer⟩
      simpa using hflow
    · right
      obtain ⟨hreceived, hitems⟩ := events_got rfl hflow
      have hended : s.ended = some (some x) := by
        revert hitems
        rcases s.ended with _ | _ | y
        · nofun
        · nofun
        · rintro hitems
          rw [Item.error.inj (List.cons.inj hitems).1]
      exact ⟨.raised x, rfl, staying.tearDown (.raised x) nofun
        (fun y hy => ⟨hreceived, Ending.raised.inj hy ▸ hended⟩) queue⟩
    · right
      obtain ⟨hreceived, hitems⟩ := events_got rfl hflow
      have hended : s.ended = some none := by
        revert hitems
        rcases s.ended with _ | _ | y
        · nofun
        · exact fun _ => rfl
        · nofun
      exact ⟨.ended, rfl, staying.tearDown .ended (fun _ => ⟨hreceived, hended⟩) nofun queue⟩
  | resume =>
    obtain ⟨-, rfl⟩ := step_resume h
    exact .inl ⟨rfl, hflow, hpast, hopened, hsock, hdrainer⟩
  | close =>
    obtain ⟨-, rfl⟩ := step_close h
    exact .inr ⟨.closed, rfl, staying.tearDown .closed nofun nofun s.queue⟩
  | cancel =>
    rcases step_cancel h with ⟨-, rfl⟩ | ⟨ending, hending, -⟩ | ⟨ending, hending, -⟩
    · exact .inr ⟨.cancelled, rfl, staying.tearDown .cancelled nofun nofun s.queue⟩
    · rw [hending] at hconsumer
      nomatch hconsumer
    · rw [hending] at hconsumer
      nomatch hconsumer
  | drain =>
    rcases step_drain h with ⟨hcreated, -⟩ | ⟨hrunning, -⟩
    · rw [hdrainer] at hcreated
      nomatch hcreated
    · rw [hdrainer] at hrunning
      nomatch hrunning
  | joined =>
    obtain ⟨ending, hending, -⟩ := step_joined h
    rw [hending] at hconsumer
    nomatch hconsumer
  | drainerEnded =>
    obtain ⟨ending, hending, -⟩ := step_drainerEnded h
    rw [hending] at hconsumer
    nomatch hconsumer

theorem stopped_step (stopped : Stopped s ending) (hconsumer : s.consumer.ending = some ending)
    (h : s.step act = some t) :
    ∃ ending, t.consumer.ending = some ending ∧ Stopped t ending ∧ t.remaining < s.remaining := by
  have ⟨hsock, hdrainer, hreceived, hpast, hroom, hended, hraised⟩ := stopped
  cases act with
  | drainOne result =>
    have hnone : ∀ opened, s.worker = .draining opened → s.ended = none := by
      intro opened hworker
      by_contra hended
      have := hpast hended
      rw [hworker] at this
      exact this
    rcases step_drainOne h with ⟨e, hworker, rfl⟩ | ⟨opened, hworker, hend⟩
    · have hrunning := hnone true hworker
      refine ⟨ending, hconsumer, ⟨hsock, hdrainer, hreceived.trans (List.prefix_append _ _), ?_, ?_,
        ?_, ?_⟩, ?_⟩
      · exact fun h => absurd hrunning h
      · rw [hworker] at hroom
        exact hroom
      · intro h
        rw [(hended h).2] at hrunning
        nomatch hrunning
      · intro x h
        rw [(hraised x h).2] at hrunning
        nomatch hrunning
      · simp [State.remaining, Worker.remaining, hworker]
    · have hrunning := hnone opened hworker
      rw [hworker] at hroom
      have hnot : ending ≠ .ended ∧ ∀ x, ending ≠ .raised x := by
        constructor
        · intro h
          rw [(hended h).2] at hrunning
          nomatch hrunning
        · intro x h
          rw [(hraised x h).2] at hrunning
          nomatch hrunning
      rcases hend with rfl | ⟨x, rfl⟩
      all_goals
        refine ⟨ending, hconsumer, ⟨hsock, hdrainer, hreceived, fun _ => trivial, ?_,
          fun h => absurd h hnot.1, fun x h => absurd h (hnot.2 x)⟩, ?_⟩
        · intro h
          have := hroom h
          revert this
          cases opened <;> simp only [Worker.rest] <;> omega
        · simp only [State.remaining, hworker]
          cases opened <;> simp only [Worker.remaining] <;> omega
  | put =>
    obtain ⟨item, hworker, rfl⟩ := step_put h
    rw [hworker] at hpast hroom
    have hrest : s.queue.length + 1 + (afterPut s.sockOpen item).rest ≤
        s.queue.length + (Worker.putting item).rest := by
      rw [hsock]
      cases item <;> simp only [afterPut, Worker.rest] <;> omega
    refine ⟨ending, hconsumer, ⟨hsock, hdrainer, hreceived, ?_, ?_, hended, hraised⟩, ?_⟩
    · cases item with
      | event e => exact fun h => absurd (hpast h) id
      | error x => exact fun _ => trivial
      | done => exact fun _ => trivial
    · intro h
      have := hroom h
      simp only [List.length_append, List.length_singleton]
      omega
    · simp only [State.remaining, hworker, hsock, List.length_append, List.length_singleton]
      cases item <;> simp only [afterPut, Worker.remaining] <;> omega
  | putCancelled =>
    obtain ⟨item, _, hworker, -, rfl⟩ := step_putCancelled h
    rw [hworker] at hroom
    refine ⟨ending, hconsumer, ⟨hsock, hdrainer, hreceived, ?_, ?_, hended, hraised⟩, ?_⟩
    · cases item <;> exact fun _ => trivial
    · intro h
      have := hroom h
      revert this
      cases item <;> simp only [afterCancelledPut, Worker.rest] <;> omega
    · simp only [State.remaining, hworker]
      cases item <;> simp only [afterCancelledPut, Worker.remaining] <;> omega
  | get =>
    obtain ⟨hgetting, -⟩ := step_get h
    rw [hgetting] at hconsumer
    nomatch hconsumer
  | resume =>
    obtain ⟨hyielded, -⟩ := step_resume h
    rw [hyielded] at hconsumer
    nomatch hconsumer
  | close =>
    obtain ⟨hyielded, -⟩ := step_close h
    rw [hyielded] at hconsumer
    nomatch hconsumer
  | cancel =>
    rcases step_cancel h with ⟨hgetting, -⟩ | ⟨_, hjoining, hrunning, rfl⟩ | ⟨_, hcancelling, rfl⟩
    · rw [hgetting] at hconsumer
      nomatch hconsumer
    · have hcreated : s.drainer ≠ .created := by rw [hrunning]; nofun
      refine ⟨.cancelled, rfl,
        ⟨hsock, nofun, hreceived, hpast, fun _ => hroom hcreated, nofun, nofun⟩, ?_⟩
      simp [State.remaining, Consumer.remaining, hjoining, hrunning]
    · refine ⟨_, rfl, ?_, ?_⟩
      · rw [hcancelling] at hconsumer
        obtain rfl := Option.some.inj hconsumer
        exact ⟨hsock, hdrainer, hreceived, hpast, hroom, hended, hraised⟩
      · simp [State.remaining, Consumer.remaining, hcancelling]
  | drain =>
    rcases step_drain h with ⟨hcreated, rfl⟩ | ⟨hrunning, hqueue, rfl⟩
    · refine ⟨ending, hconsumer, ⟨hsock, nofun, hreceived, hpast, fun _ => ?_, hended, hraised⟩, ?_⟩
      · simpa using rest_le s.worker
      · simp only [State.remaining, hcreated, List.length_nil, reduceCtorEq, if_true, if_false]
        omega
    · refine ⟨ending, hconsumer,
        ⟨hsock, hdrainer, hreceived, hpast, fun _ => ?_, hended, hraised⟩, ?_⟩
      · simpa using rest_le s.worker
      · have := List.length_pos_iff.mpr hqueue
        simp [State.remaining]
        omega
  | joined =>
    obtain ⟨_, hjoining, hrunning, rfl⟩ := step_joined h
    have hcreated : s.drainer ≠ .created := by rw [hrunning]; nofun
    rw [hjoining] at hconsumer
    refine ⟨ending, hconsumer,
      ⟨hsock, nofun, hreceived, hpast, fun _ => hroom hcreated, hended, hraised⟩, ?_⟩
    simp [State.remaining, Consumer.remaining, hjoining, hrunning]
  | drainerEnded =>
    obtain ⟨_, hcancelling, rfl⟩ := step_drainerEnded h
    rw [hcancelling] at hconsumer
    refine ⟨ending, hconsumer, ⟨hsock, hdrainer, hreceived, hpast, hroom, hended, hraised⟩, ?_⟩
    simp [State.remaining, Consumer.remaining, hcancelling]

end Stopping

section HandOff

variable {s : State ε χ} {ending : Ending χ}

theorem asubscribe_invariant (h : Reachable asubscribe s) :
    s.consumer.ending = none ∧ Staying s ∨
      ∃ ending, s.consumer.ending = some ending ∧ Stopped s ending := by
  refine h.invariant (I := fun s => s.consumer.ending = none ∧ Staying s ∨
    ∃ ending, s.consumer.ending = some ending ∧ Stopped s ending) ?_ ?_
  · rintro s rfl
    exact .inl ⟨rfl, rfl, iff_of_false (fun h => h rfl) id, nofun, rfl, rfl⟩
  · intro s act t _ hs _ hstep
    rcases hs with ⟨hconsumer, hstaying⟩ | ⟨ending, hconsumer, hstopped⟩
    · exact staying_step hstaying hconsumer hstep
    · obtain ⟨ending', hconsumer', hstopped', -⟩ := stopped_step hstopped hconsumer hstep
      exact .inr ⟨ending', hconsumer', hstopped'⟩

theorem Staying.not_finished (staying : Staying s) (hqueue : s.queue = []) :
    s.worker ≠ .finished := by
  intro hworker
  have hended : s.ended ≠ none := staying.past.mpr (by rw [hworker]; trivial)
  have hflow := staying.flow
  rw [hqueue, hworker] at hflow
  have hdone : Item.done ∈ endItems (ε := ε) s.ended := by
    rcases hs : s.ended with _ | _ | x
    · exact absurd hs hended
    · exact List.mem_singleton_self _
    · exact List.mem_cons_of_mem _ (List.mem_singleton_self _)
  have hmem := List.mem_append_right (s.matched.map .event) hdone
  rw [← hflow] at hmem
  simp [Worker.toCome, Worker.inHand] at hmem

theorem exec_bounded (stopped : Stopped s ending) (hconsumer : s.consumer.ending = some ending)
    {acts : List (Act ε χ)} {t : State ε χ} (h : asubscribe.exec s acts = some t) :
    acts.length ≤ s.remaining := by
  induction acts generalizing s ending with
  | nil => exact Nat.zero_le _
  | cons act acts ih =>
    obtain ⟨u, hstep, hrest⟩ := Option.bind_eq_some_iff.mp h
    obtain ⟨ending', hconsumer', hstopped, hless⟩ := stopped_step stopped hconsumer hstep
    have := ih hstopped hconsumer' hrest
    rw [List.length_cons]
    omega

theorem worker_enabled (stopped : Stopped s ending) :
    s.worker = .finished ∨ ∃ act : Act ε χ, act.ofWorker = true ∧ ∃ t, s.step act = some t := by
  cases hworker : s.worker with
  | finished => exact .inl rfl
  | draining opened =>
    refine .inr ⟨.drainOne .osError, rfl, ?_⟩
    cases opened <;> simp [State.step, hworker]
  | putting item =>
    right
    by_cases hcreated : s.drainer = .created
    · exact ⟨.drain, rfl, by simp [State.step, hcreated]⟩
    · have hroom := stopped.room hcreated
      have hlength : s.queue.length < asubscribeQueueMaxsize := by
        unfold asubscribeQueueMaxsize
        omega
      exact ⟨.put, rfl, by simp [State.step, hworker, hlength]⟩

theorem worker_finishes (stopped : Stopped s ending) (hconsumer : s.consumer.ending = some ending) :
    ∃ acts : List (Act ε χ), (∀ act ∈ acts, act.ofWorker = true) ∧
      ∃ t ∈ asubscribe.exec s acts, t.worker = .finished := by
  induction hn : s.remaining using Nat.strongRecOn generalizing s ending with
  | ind n ih =>
    rcases worker_enabled stopped with hfinished | ⟨act, hact, t, hstep⟩
    · exact ⟨[], nofun, s, rfl, hfinished⟩
    · obtain ⟨ending', hconsumer', hstopped, hless⟩ := stopped_step stopped hconsumer hstep
      obtain ⟨acts, hacts, u, hrun, hfinished⟩ := ih _ (hn ▸ hless) hstopped hconsumer' rfl
      refine ⟨act :: acts, List.forall_mem_cons.mpr ⟨hact, hacts⟩, u, ?_, hfinished⟩
      exact Option.bind_eq_some_iff.mpr ⟨t, hstep, hrun⟩

/-- The consumer gets the worker's events in their order, none twice, and those it has not got yet
are on the way; where it stops for the end of the stream or for an error, it has got them all, and
so the worker's stream ended; where it waits, there is something still to come. Once it tears down,
few steps are left, and those of the worker can all be taken. -/
theorem asubscribe_hands_over (h : Reachable asubscribe s) :
    s.received <+: s.matched ∧
      (s.consumer.ending = none → s.received ++ s.onTheWay = s.matched) ∧
      (s.consumer.ending = some .ended → s.received = s.matched ∧ s.ended = some none) ∧
      (∀ x, s.consumer.ending = some (.raised x) →
        s.received = s.matched ∧ s.ended = some (some x)) ∧
      (s.consumer = .getting → s.queue = [] → s.worker ≠ .finished) ∧
      (s.consumer.ending ≠ none →
        (∀ acts t, asubscribe.exec s acts = some t → acts.length ≤ s.remaining) ∧
          ∃ acts : List (Act ε χ), (∀ act ∈ acts, act.ofWorker = true) ∧
            ∃ t ∈ asubscribe.exec s acts, t.worker = .finished) := by
  rcases asubscribe_invariant h with ⟨hconsumer, hstaying⟩ | ⟨ending, hconsumer, hstopped⟩
  · rw [hconsumer]
    refine ⟨⟨s.onTheWay, hstaying.onTheWay⟩, fun _ => hstaying.onTheWay, nofun, nofun, ?_, ?_⟩
    · exact fun _ => hstaying.not_finished
    · exact fun h => absurd rfl h
  · rw [hconsumer]
    refine ⟨hstopped.received, nofun, ?_, ?_, ?_, ?_⟩
    · intro h
      exact hstopped.ended (Option.some.inj h)
    · intro x h
      exact hstopped.raised x (Option.some.inj h)
    · intro hgetting
      rw [hgetting] at hconsumer
      nomatch hconsumer
    · intro _
      exact ⟨fun acts t hrun => exec_bounded hstopped hconsumer hrun,
        worker_finishes hstopped hconsumer⟩

/-- The generator is closed at its first event, with a second one on the way. -/
theorem asubscribe_hands_over_closed : ∃ s : State Nat Unit,
    s.received = [7] ∧ s.matched = [7, 8] ∧ s.consumer.ending = some .closed ∧
      s.received <+: s.matched ∧
      (s.consumer.ending = none → s.received ++ s.onTheWay = s.matched) ∧
      (s.consumer.ending = some .ended → s.received = s.matched ∧ s.ended = some none) ∧
      (∀ x, s.consumer.ending = some (.raised x) →
        s.received = s.matched ∧ s.ended = some (some x)) ∧
      (s.consumer = .getting → s.queue = [] → s.worker ≠ .finished) ∧
      (s.consumer.ending ≠ none →
        (∀ acts t, asubscribe.exec s acts = some t → acts.length ≤ s.remaining) ∧
          ∃ acts : List (Act Nat Unit), (∀ act ∈ acts, act.ofWorker = true) ∧
            ∃ t ∈ asubscribe.exec s acts, t.worker = .finished) := by
  obtain ⟨s, hrun, hreceived, hmatched, hclosed⟩ : ∃ s ∈ asubscribe.exec
      (⟨.draining true, true, [], .getting, .absent, [], none, []⟩ : State Nat Unit)
      [.drainOne (.event 7), .put, .get, .drainOne (.event 8), .close],
      s.received = [7] ∧ s.matched = [7, 8] ∧ s.consumer.ending = some .closed := by
    decide
  have hstart : Reachable asubscribe
      (⟨.draining true, true, [], .getting, .absent, [], none, []⟩ : State Nat Unit) := .start rfl
  exact ⟨s, hreceived, hmatched, hclosed, asubscribe_hands_over (hstart.exec hrun)⟩

end HandOff

end Waitbus.AsyncStream
