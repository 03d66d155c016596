import Mathlib
import Waitbus.Delimiters
import Waitbus.Emit
import Waitbus.JsonText

/-! The pytest plugin: each process of a run records the outcomes it sees in memory, and emits them
in one batch when its session finishes. The processes of a distributed run share a session id, which
makes the delivery ids of their batches collide where they ought to. -/

namespace Waitbus.PytestEmit
open Python FrameCodec EventStore Dedup Emit Runs

section Recorder

structure Config where
  workerinput : Bool
  numprocesses : Bool
  owner : String
  repo : String
  deriving DecidableEq

structure Report where
  nodeid : String
  when : String
  outcome : String
  failed : Bool
  durationNs : Int
  deriving DecidableEq

structure Result where
  nodeid : String
  outcome : String
  durationNs : Int
  deriving DecidableEq

/-- `_session_id`; `runUid` is the shared id of the run, stripped of blanks. -/
def sessionId (runUid : String) (timeNs pid : Nat) : String :=
  if runUid ≠ "" then s!"xdist-{runUid}" else s!"{timeNs}-{pid}"

def Config.isXdistController (config : Config) : Bool :=
  !config.workerinput && config.numprocesses

/-- What `pytest_runtest_logreport` records of a report. -/
def Report.result (report : Report) : Option Result :=
  if report.when = "call" ∨ report.failed = true then
    some ⟨report.nodeid, report.outcome, report.durationNs⟩
  else none

def conclusionOf (outcome : String) : String :=
  if outcome = "passed" then "success"
  else if outcome = "failed" then "failure"
  else if outcome = "skipped" then "skipped"
  else outcome

def deliveryId (session nodeid outcome : String) : String :=
  s!"pytest:{session}:{nodeid}:{outcome}"

def payload (session : String) (result : Result) (exitstatus : Int) : Json.Value :=
  record [("nodeid", text result.nodeid), ("outcome", text result.outcome),
    ("duration_ns", .int result.durationNs), ("session_exitstatus", .int exitstatus),
    ("session_id", text session)]

def build (config : Config) (session : String) (exitstatus receivedAt : Int) (result : Result) :
    EventInsert where
  deliveryId := deliveryId session result.nodeid result.outcome
  source := "pytest"
  eventType := "pytest_session"
  owner := config.owner
  repo := config.repo
  receivedAt := receivedAt
  payloadJson := String.ofList (payload session result exitstatus).chars
  ingestMethod := "pytest_sessionfinish"
  status := some "completed"
  conclusion := some (conclusionOf result.outcome)

/-- One process; `emitted` once its batch has been committed. -/
structure Proc where
  config : Config
  results : List Result
  finished : Bool
  emitted : Bool
  deriving DecidableEq

def Proc.record (proc : Proc) (report : Report) : Proc :=
  { proc with results := proc.results ++ report.result.toList }

/-- What `pytest_sessionfinish` asks for: the exit status, the clock, the event ids and faults of
the inserts, and what becomes of the connection. -/
structure Finish where
  exitstatus : Int
  receivedAt : Int
  stamps : List (Ulid × Option PyExc)
  session : Emit.Session

def items (config : Config) (session : String) (exitstatus receivedAt : Int)
    (results : List Result) (stamps : List (Ulid × Option PyExc)) : List Item :=
  List.zipWith (fun result stamp =>
    Item.event (build config session exitstatus receivedAt result) stamp.1 stamp.2) results stamps

def Proc.batch (proc : Proc) (session : String) (finish : Finish) : Option Call :=
  if proc.results = [] ∨ proc.config.isXdistController = true then none
  else some (.batch (items proc.config session finish.exitstatus finish.receivedAt proc.results
    finish.stamps) finish.session)

end Recorder

section Processes

variable {ι : Type} [DecidableEq ι]

structure State (ι : Type) where
  emit : Emit.State
  procs : ι → Proc

inductive Act (ι : Type) where
  | reports (p : ι) (report : Report)
  | finishes (p : ι) (finish : Finish)
  | others (call : Call)

def State.call (session : String) (s : State ι) : Act ι → Option Call
  | .reports _ _ => none
  | .finishes p finish => (s.procs p).batch session finish
  | .others call => some call

/-- The event store after a step, and whether its call has committed. -/
def State.calls (session : String) (s : State ι) (act : Act ι) : Emit.State × Bool :=
  match s.call session act with
  | none => (s.emit, false)
  | some call =>
    let outcome := run s.emit.bus call
    (⟨outcome.bus, s.emit.origin,
      if outcome.committed then s.emit.committed ++ [call] else s.emit.committed⟩,
      outcome.committed)

def State.step (session : String) (s : State ι) (act : Act ι) : Option (State ι) :=
  let (emit, committed) := s.calls session act
  match act with
  | .reports p report =>
    if (s.procs p).finished = true then none
    else some ⟨emit, Function.update s.procs p ((s.procs p).record report)⟩
  | .finishes p finish =>
    if (s.procs p).finished = true ∨ finish.stamps.length ≠ (s.procs p).results.length then none
    else some ⟨emit, Function.update s.procs p
      { s.procs p with finished := true, emitted := committed }⟩
  | .others _ => some ⟨emit, s.procs⟩

def sessionHead (session : String) : String :=
  s!"pytest:{session}:"

/-- An id that does not begin as the delivery ids of the session do. -/
def Foreign (session id : String) : Prop :=
  ¬(sessionHead session).toList <+: id.toList

def pytest (session : String) : System (State ι) (Act ι) where
  init s := emitting.init s.emit ∧ (∀ row ∈ s.emit.origin, Foreign session row.deliveryId) ∧
    ∀ p, (s.procs p).results = [] ∧ (s.procs p).finished = false ∧ (s.procs p).emitted = false
  step := State.step session

/-- Event ids are new, and no other producer writes under a delivery id of the session. -/
def Separate (session : String) (s : State ι) (act : Act ι) : Prop :=
  (∀ call ∈ s.call session act, StampsFresh s.emit call) ∧
    match act with
    | .reports _ report => ':' ∉ report.outcome.toList
    | .finishes _ _ => True
    | .others call => ∀ event ∈ call.events, Foreign session event.deliveryId

end Processes

section DeliveryIds

theorem toList_deliveryId (session nodeid outcome : String) :
    (deliveryId session nodeid outcome).toList = (sessionHead session).toList ++
      (nodeid.toList ++ ':' :: outcome.toList) := by
  have hcolon : ":".toList = [':'] := rfl
  have hsplit : deliveryId session nodeid outcome =
      sessionHead session ++ nodeid ++ ":" ++ outcome := rfl
  rw [hsplit, String.toList_append, String.toList_append, String.toList_append, hcolon,
    List.append_assoc, List.append_assoc, List.singleton_append]

theorem foreign_ne {session id : String} (h : Foreign session id) (nodeid outcome : String) :
    id ≠ deliveryId session nodeid outcome := by
  rintro rfl
  exact h ⟨_, (toList_deliveryId session nodeid outcome).symm⟩

theorem deliveryId_inj {session nodeid nodeid' outcome outcome' : String}
    (hcolon : ':' ∉ outcome.toList) (hcolon' : ':' ∉ outcome'.toList)
    (h : deliveryId session nodeid outcome = deliveryId session nodeid' outcome') :
    nodeid = nodeid' ∧ outcome = outcome' := by
  have hlist := congrArg String.toList h
  rw [toList_deliveryId, toList_deliveryId] at hlist
  obtain ⟨hnode, houtcome⟩ :=
    Delimiters.last_split_inj hcolon hcolon' (List.append_cancel_left hlist)
  exact ⟨String.toList_inj.mp hnode, String.toList_inj.mp houtcome⟩

end DeliveryIds

section Batches

variable {config : Config} {session : String} {exitstatus receivedAt : Int}
  {results : List Result} {stamps : List (Ulid × Option PyExc)}

def Builds (session : String) (config : Config) (result : Result) (row : Row) : Prop :=
  ∃ exitstatus receivedAt eventId,
    (build config session exitstatus receivedAt result).row eventId = .ok row

theorem items_events (h : stamps.length = results.length) :
    (writes (items config session exitstatus receivedAt results stamps)).map (·.1) =
      results.map (build config session exitstatus receivedAt) := by
  induction results generalizing stamps with
  | nil => rw [items, List.zipWith_nil_left, writes, List.filterMap_nil, List.map_nil, List.map_nil]
  | cons result rest ih =>
    cases stamps with
    | nil => cases h
    | cons stamp more =>
      rw [items, List.zipWith_cons_cons, writes_event, List.map_cons, List.map_cons]
      rw [← ih (Nat.succ.inj h), items]

theorem items_rows {row : Row}
    (h : row ∈ rowsOf (items config session exitstatus receivedAt results stamps)) :
    ∃ result ∈ results, Builds session config result row := by
  induction results generalizing stamps with
  | nil => simp [items, rowsOf, writes] at h
  | cons result rest ih =>
    cases stamps with
    | nil => simp [items, rowsOf, writes] at h
    | cons stamp more =>
      rw [items, List.zipWith_cons_cons, rowsOf, writes_event, List.filterMap_cons] at h
      cases hrow : (build config session exitstatus receivedAt result).row stamp.1 with
      | error exc =>
        rw [hrow] at h
        obtain ⟨result', hmem, hbuilds⟩ := ih h
        exact ⟨result', List.mem_cons_of_mem _ hmem, hbuilds⟩
      | ok first =>
        rw [hrow] at h
        obtain rfl | htail := List.mem_cons.mp h
        · exact ⟨result, List.mem_cons_self .., exitstatus, receivedAt, stamp.1, hrow⟩
        · obtain ⟨result', hmem, hbuilds⟩ := ih htail
          exact ⟨result', List.mem_cons_of_mem _ hmem, hbuilds⟩

end Batches

section Invariant

variable {ι : Type} [DecidableEq ι] {session : String} {s t : State ι} {act : Act ι}

omit [DecidableEq ι] in
theorem calls_cases (session : String) (s : State ι) (act : Act ι) :
    ((s.calls session act).2 = false ∧ (s.calls session act).1.log = s.emit.log) ∨
      ∃ call ∈ s.call session act, (s.calls session act).2 = true ∧
        (s.calls session act).1.log = s.emit.log ++ rowsOf call.items ∧
        ∃ n store, emitLoop 0 s.emit.bus.store call.items = .ok (n, store) := by
  unfold State.calls
  cases hcall : s.call session act with
  | none => exact .inl ⟨rfl, rfl⟩
  | some call =>
    dsimp only
    obtain ⟨hfailed, -, -⟩ | ⟨n, store, hloop, hdone, -, -⟩ := run_cases s.emit.bus call
    · rw [hfailed]
      exact .inl ⟨rfl, rfl⟩
    · rw [hdone]
      refine .inr ⟨call, rfl, rfl, ?_, n, store, hloop⟩
      simp only [Emit.State.log, ↓reduceIte, List.flatMap_append, List.flatMap_singleton,
        List.append_assoc]

omit [DecidableEq ι] in
theorem calls_reach (h : Reach emitting StampsFresh s.emit)
    (hok : ∀ call ∈ s.call session act, StampsFresh s.emit call) :
    Reach emitting StampsFresh (s.calls session act).1 := by
  unfold State.calls
  cases hcall : s.call session act with
  | none => exact h
  | some call => exact h.next (hok call hcall) rfl

structure Invariant (session : String) (s : State ι) : Prop where
  store : Reach emitting StampsFresh s.emit
  rows : ∀ row ∈ s.emit.log, Foreign session row.deliveryId ∨ ∃ p, (s.procs p).emitted = true ∧
    ∃ result ∈ (s.procs p).results, Builds session (s.procs p).config result row
  emitted : ∀ p, (s.procs p).emitted = true → (s.procs p).finished = true ∧
    (s.procs p).config.isXdistController = false ∧ ∀ result ∈ (s.procs p).results,
      deliveryId session result.nodeid result.outcome ∈ s.emit.log.map (·.deliveryId)
  outcomes : ∀ p, ∀ result ∈ (s.procs p).results, ':' ∉ result.outcome.toList

theorem init_invariant (h : (pytest session).init s) : Invariant session s := by
  obtain ⟨hemit, hforeign, hprocs⟩ := h
  constructor
  · exact .start hemit
  · intro row hrow
    rw [Emit.State.log, hemit.2, List.flatMap_nil, List.append_nil] at hrow
    obtain ⟨first, hfirst, rfl⟩ := List.mem_map.mp hrow
    exact .inl (hforeign first hfirst)
  · intro p hp
    rw [(hprocs p).2.2] at hp
    cases hp
  · intro p result hresult
    rw [(hprocs p).1] at hresult
    cases hresult

theorem reports_invariant (h : Invariant session s) {p : ι} {report : Report}
    (hcolon : ':' ∉ report.outcome.toList) (hopen : (s.procs p).finished = false) :
    Invariant session ⟨s.emit, Function.update s.procs p ((s.procs p).record report)⟩ := by
  have hsilent : (s.procs p).emitted ≠ true := by
    intro hp
    rw [(h.emitted p hp).1] at hopen
    cases hopen
  have hother : ∀ q, (s.procs q).emitted = true →
      Function.update s.procs p ((s.procs p).record report) q = s.procs q := by
    intro q hq
    refine Function.update_of_ne ?_ _ _
    rintro rfl
    exact hsilent hq
  refine ⟨h.store, fun row hrow => ?_, fun q hq => ?_, fun q result hresult => ?_⟩
  · obtain hforeign | ⟨q, hq, hbuilt⟩ := h.rows row hrow
    · exact .inl hforeign
    · refine .inr ⟨q, ?_⟩
      dsimp only
      rw [hother q hq]
      exact ⟨hq, hbuilt⟩
  · dsimp only at hq ⊢
    by_cases hqp : q = p
    · rw [hqp, Function.update_self] at hq
      exact absurd hq hsilent
    · rw [Function.update_of_ne hqp] at hq ⊢
      exact h.emitted q hq
  · dsimp only at hresult
    by_cases hqp : q = p
    · rw [hqp, Function.update_self, Proc.record, List.mem_append] at hresult
      obtain hold | hnew := hresult
      · exact h.outcomes p result hold
      · rw [Report.result] at hnew
        split at hnew
        · rw [List.mem_singleton.mp hnew]
          exact hcolon
        · cases hnew
    · rw [Function.update_of_ne hqp] at hresult
      exact h.outcomes q result hresult

theorem finishes_invariant (h : Invariant session s) {p : ι} {finish : Finish}
    (hok : ∀ call ∈ s.call session (.finishes p finish), StampsFresh s.emit call)
    (hopen : (s.procs p).finished = false)
    (hlength : finish.stamps.length = (s.procs p).results.length) :
    Invariant session ⟨(s.calls session (.finishes p finish)).1, Function.update s.procs p
      { s.procs p with
        finished := true
        emitted := (s.calls session (.finishes p finish)).2 }⟩ := by
  have hsilent : ∀ q, (s.procs q).emitted = true → q ≠ p := by
    rintro q hq rfl
    rw [(h.emitted q hq).1] at hopen
    cases hopen
  have hstore := calls_reach h.store hok
  have houtcomes : ∀ q, ∀ result ∈ (Function.update s.procs p { s.procs p with
      finished := true
      emitted := (s.calls session (.finishes p finish)).2 } q).results,
      ':' ∉ result.outcome.toList := by
    intro q result hresult
    by_cases hqp : q = p
    · rw [hqp, Function.update_self] at hresult
      exact h.outcomes p result hresult
    · rw [Function.update_of_ne hqp] at hresult
      exact h.outcomes q result hresult
  have hold : ∀ q, (s.procs q).emitted = true → ∀ emitted,
      Function.update s.procs p { s.procs p with finished := true, emitted } q = s.procs q :=
    fun q hq _ => Function.update_of_ne (hsilent q hq) _ _
  obtain ⟨hfailed, hlog⟩ | ⟨call, hcall, hdone, hlog, n, store, hloop⟩ :=
    calls_cases session s (.finishes p finish)
  · refine ⟨hstore, fun row hrow => ?_, fun q hq => ?_, houtcomes⟩
    · rw [hlog] at hrow
      obtain hforeign | ⟨q, hq, hbuilt⟩ := h.rows row hrow
      · exact .inl hforeign
      · refine .inr ⟨q, ?_⟩
        dsimp only
        rw [hold q hq]
        exact ⟨hq, hbuilt⟩
    · dsimp only at hq ⊢
      by_cases hqp : q = p
      · rw [hqp, Function.update_self] at hq
        exact absurd hq (by rw [hfailed]; simp)
      · rw [Function.update_of_ne hqp] at hq ⊢
        rw [hlog]
        exact h.emitted q hq
  · have hbatch : (s.procs p).batch session finish = some call := hcall
    rw [Proc.batch] at hbatch
    split at hbatch
    · cases hbatch
    · rename_i hemits
      obtain rfl := Option.some.inj hbatch
      have hworker : (s.procs p).config.isXdistController = false := by
        rw [not_or] at hemits
        simpa using hemits.2
      refine ⟨hstore, fun row hrow => ?_, fun q hq => ?_, houtcomes⟩
      · rw [hlog, List.mem_append] at hrow
        obtain hrow | hrow := hrow
        · obtain hforeign | ⟨q, hq, hbuilt⟩ := h.rows row hrow
          · exact .inl hforeign
          · refine .inr ⟨q, ?_⟩
            dsimp only
            rw [hold q hq]
            exact ⟨hq, hbuilt⟩
        · obtain ⟨result, hresult, hbuilds⟩ := items_rows hrow
          refine .inr ⟨p, ?_⟩
          dsimp only
          rw [Function.update_self]
          exact ⟨hdone, result, hresult, hbuilds⟩
      · dsimp only at hq ⊢
        rw [hlog, List.map_append]
        by_cases hqp : q = p
        · rw [hqp, Function.update_self]
          refine ⟨rfl, hworker, fun result hresult => List.mem_append_right _ ?_⟩
          have hevent := List.mem_map_of_mem
            (f := build (s.procs p).config session finish.exitstatus finish.receivedAt) hresult
          rw [← items_events hlength] at hevent
          obtain ⟨w, hw, hwrite⟩ := List.mem_map.mp hevent
          obtain ⟨row, hrow, hkey⟩ := mem_rowsOf_of_loop hloop hw
          rw [hwrite] at hkey
          exact List.mem_map.mpr ⟨row, hrow, hkey⟩
        · rw [Function.update_of_ne hqp] at hq ⊢
          obtain ⟨hfinished, hconfig, hstored⟩ := h.emitted q hq
          exact ⟨hfinished, hconfig, fun result hresult =>
            List.mem_append_left _ (hstored result hresult)⟩

omit [DecidableEq ι] in
theorem others_invariant (h : Invariant session s) {call : Call}
    (hok : ∀ c ∈ s.call session (.others call), StampsFresh s.emit c)
    (hforeign : ∀ event ∈ call.events, Foreign session event.deliveryId) :
    Invariant session ⟨(s.calls session (.others call)).1, s.procs⟩ := by
  have hstore := calls_reach h.store hok
  obtain ⟨-, hlog⟩ | ⟨c, hc, -, hlog, n, store, hloop⟩ := calls_cases session s (.others call)
  · refine ⟨hstore, fun row hrow => ?_, fun q hq => ?_, h.outcomes⟩
    · exact h.rows row (hlog ▸ hrow)
    · dsimp only
      rw [hlog]
      exact h.emitted q hq
  · obtain rfl : call = c := Option.some.inj hc
    refine ⟨hstore, fun row hrow => ?_, fun q hq => ?_, h.outcomes⟩
    · rw [hlog, List.mem_append] at hrow
      obtain hrow | hrow := hrow
      · exact h.rows row hrow
      · obtain ⟨w, hw, hbuilt⟩ := List.mem_filterMap.mp hrow
        have hkey : row.deliveryId = w.1.deliveryId := by
          cases hevent : w.1.row w.2 with
          | error exc =>
            rw [hevent] at hbuilt
            cases hbuilt
          | ok first =>
            rw [hevent] at hbuilt
            obtain rfl := Option.some.inj hbuilt
            obtain ⟨runId, receivedAt, jobId, parentRunId, -, -, -, -, rfl⟩ := event_row hevent
            rfl
        exact .inl (hkey ▸ hforeign w.1 (List.mem_map_of_mem hw))
    · dsimp only
      rw [hlog, List.map_append]
      obtain ⟨hfinished, hconfig, hstored⟩ := h.emitted q hq
      exact ⟨hfinished, hconfig, fun result hresult =>
        List.mem_append_left _ (hstored result hresult)⟩

theorem step_invariant (h : Invariant session s) (hok : Separate session s act)
    (hstep : (pytest session).step s act = some t) : Invariant session t := by
  obtain ⟨hfresh, hact⟩ := hok
  cases act with
  | reports p report =>
    simp only [pytest, State.step] at hstep
    split at hstep
    · cases hstep
    · rename_i hopen
      cases hstep
      exact reports_invariant h hact (by simpa using hopen)
  | finishes p finish =>
    simp only [pytest, State.step] at hstep
    split at hstep
    · cases hstep
    · rename_i hopen
      rw [not_or, not_not] at hopen
      cases hstep
      exact finishes_invariant h hfresh (by simpa using hopen.1) hopen.2
  | others call =>
    simp only [pytest, State.step] at hstep
    cases hstep
    exact others_invariant h hfresh hact

theorem reach_invariant (h : Reach (pytest session) (Separate session) s) :
    Invariant session s :=
  h.invariant (fun _ => init_invariant) fun _ _ _ _ hs hok hstep => step_invariant hs hok hstep

end Invariant

section Results

variable {ι : Type} [DecidableEq ι] {session : String} {s : State ι}

instance decidableSeparate (session : String) (s : State ι) : ∀ act,
    Decidable (Separate session s act)
  | .reports _ _ => inferInstanceAs (Decidable (_ ∧ ':' ∉ _))
  | .finishes _ _ => inferInstanceAs (Decidable (_ ∧ True))
  | .others call =>
    inferInstanceAs (Decidable (_ ∧ ∀ event ∈ call.events, ¬(sessionHead session).toList <+: _))

def samplePool : State (Fin 3) where
  emit := ⟨⟨.empty, 0⟩, [], []⟩
  procs p := ⟨⟨p ≠ 2, true, "local", "pytest"⟩, [], false, false⟩

def sampleReport (nodeid outcome phase : String) : Report :=
  ⟨nodeid, phase, outcome, outcome = "failed", 5⟩

def sampleFinish (ids : List Nat) : Finish :=
  ⟨1, nsReceivedAtMin, ids.map fun n => (ulidAt n, none), sound⟩

end Results

end Waitbus.PytestEmit
