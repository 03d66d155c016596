import Mathlib
import Waitbus.EventStore
import Waitbus.Latch
import Waitbus.Runs

/-! The absence detector of watchdog heartbeats: single checks beside a database that others write,
with two flag files between one check and the next. A check may be killed before any of its calls;
the flags are all that it leaves behind. -/

namespace Waitbus.Watchdog
open EventStore FrameCodec Latch Runs

section Readings

def watchdogEventType : String := "prometheus_watchdog"

def watchdogAlertName : String := "Watchdog"

/-- What a check finds at the path of the database. -/
inductive Db where
  | missing
  | fails
  | table (store : Store)

def heartbeats (store : Store) : List Int :=
  (store.rows.filter fun row =>
    row.eventType = watchdogEventType ∧ row.alertName = some watchdogAlertName).map
      (·.receivedAt.val)

def epochSeconds (raw : Int) : Int :=
  if 1000000000000000 ≤ raw then raw / 1000000000 else raw

/-- `latest_watchdog_ts`; `none` is a `sqlite3.Error`. -/
def latestWatchdogTs : Db → Option (Option Int)
  | .missing => some none
  | .fails => none
  | .table store => some ((heartbeats store).max?.map epochSeconds)

end Readings

section Checks

structure Args where
  threshold : Int
  quiet : Bool
  deriving DecidableEq

inductive Report where
  | dbError
  | preBootstrap
  | fresh (age : Int)
  | stale (age : Option Int)
  deriving DecidableEq

def Report.exitCode : Report → Nat
  | .dbError => 2
  | .preBootstrap => 0
  | .fresh _ => 0
  | .stale _ => 1

/-- The call that a check makes next. -/
inductive Point where
  | idle
  | querying
  | clock
  | engaging
  | judging
  | raising
  | notifying
  | leaving (report : Report)
  deriving DecidableEq

/-- What there is to see of the checks; `cleared` takes the flag of staleness away. -/
inductive Entry where
  | notified (age : Option Int)
  | cleared (report : Report) (threshold : Int)
  | exited (code : Nat)
  deriving DecidableEq

/-- The database and the flag files, the variables of `_check_once`, and the log; `asked` is the
database as the query found it. -/
structure State where
  db : Db
  seenFlag : Bool
  staleFlag : Bool
  args : Args
  latest : Option Int
  now : Int
  transitioning : Bool
  point : Point
  log : List Entry
  asked : Db

inductive Act where
  | dbBecomes (db : Db)
  | starts (args : Args)
  | ticks (now : Int)
  | proceeds
  | killed

def State.age (s : State) : Option Int :=
  s.latest.map (s.now - ·)

def State.query (s : State) : State :=
  match latestWatchdogTs s.db with
  | none => { s with asked := s.db, point := .leaving .dbError }
  | some latest => { s with asked := s.db, latest, point := .clock }

def State.clear (s : State) (report : Report) : State :=
  { s with
    staleFlag := false
    point := .leaving report
    log := s.log ++ [.cleared report s.args.threshold] }

/-- The branches of `_check_once` behind the touch of the flag `seen`. -/
def State.judge (s : State) : State :=
  if s.latest = none ∧ s.seenFlag = false then s.clear .preBootstrap
  else match s.age with
    | none => { s with transitioning := !s.staleFlag, point := .raising }
    | some age =>
      if age ≤ s.args.threshold then s.clear (.fresh age)
      else { s with transitioning := !s.staleFlag, point := .raising }

def State.proceed (s : State) : Option State :=
  match s.point with
  | .idle => none
  | .querying => some s.query
  | .clock => none
  | .engaging =>
    some { s with seenFlag := s.seenFlag || s.latest.isSome, point := .judging }
  | .judging => some s.judge
  | .raising => some { s with staleFlag := true, point := .notifying }
  | .notifying =>
    some { s with
      point := .leaving (.stale s.age)
      log := if s.transitioning && !s.args.quiet then s.log ++ [.notified s.age] else s.log }
  | .leaving report =>
    some { s with point := .idle, log := s.log ++ [.exited report.exitCode] }

def State.step (s : State) : Act → Option State
  | .dbBecomes db => some { s with db }
  | .starts args => if s.point = .idle then some { s with args, point := .querying } else none
  | .ticks now => if s.point = .clock then some { s with now, point := .engaging } else none
  | .proceeds => s.proceed
  | .killed => some { s with point := .idle }

def watchdog : System State Act where
  init s := s.seenFlag = false ∧ s.staleFlag = false ∧ s.point = .idle ∧ s.log = []
  step := State.step

end Checks

section Invariant

def Entry.Signal (e : Entry) : Prop :=
  ∃ age, e = .notified age

/-- The flag of staleness was taken away on a heartbeat within the threshold. -/
def Entry.Reset (e : Entry) : Prop :=
  ∃ age threshold, e = .cleared (.fresh age) threshold ∧ age ≤ threshold

def Entry.Engaged : Entry → Prop
  | .notified _ => True
  | .cleared (.fresh _) _ => True
  | _ => False

/-- What the flags say when a check leaves with a report, and what the report rests on. -/
def State.Agrees (s : State) : Report → Prop
  | .dbError => True
  | .preBootstrap => s.latest = none ∧ s.seenFlag = false ∧ s.staleFlag = false
  | .fresh age =>
    s.age = some age ∧ age ≤ s.args.threshold ∧ s.seenFlag = true ∧ s.staleFlag = false
  | .stale age =>
    s.age = age ∧ (∀ a ∈ age, s.args.threshold < a) ∧ s.seenFlag = true ∧ s.staleFlag = true

def State.AtPoint (s : State) : Prop :=
  match s.point with
  | .idle | .querying => True
  | .clock | .engaging => latestWatchdogTs s.asked = some s.latest
  | .judging => latestWatchdogTs s.asked = some s.latest ∧ (s.latest.isSome → s.seenFlag = true)
  | .raising =>
    latestWatchdogTs s.asked = some s.latest ∧ s.seenFlag = true ∧
      (∀ a ∈ s.age, s.args.threshold < a) ∧ s.transitioning = !s.staleFlag
  | .notifying =>
    latestWatchdogTs s.asked = some s.latest ∧ s.seenFlag = true ∧ s.staleFlag = true ∧
      (∀ a ∈ s.age, s.args.threshold < a) ∧
      (s.transitioning = true → Settled Entry.Signal Entry.Reset s.log)
  | .leaving .dbError => latestWatchdogTs s.asked = none
  | .leaving report => latestWatchdogTs s.asked = some s.latest ∧ s.Agrees report

structure Invariant (s : State) : Prop where
  spaced : Spaced Entry.Signal Entry.Reset s.log
  settled : s.staleFlag = false → Settled Entry.Signal Entry.Reset s.log
  seen : (∃ e ∈ s.log, e.Engaged) → s.seenFlag = true
  atPoint : s.AtPoint

variable {s t : State} {act : Act}

theorem not_signal_cleared (report : Report) (threshold : Int) :
    ¬(Entry.cleared report threshold).Signal := by
  rintro ⟨age, h⟩
  cases h

theorem not_signal_exited (code : Nat) : ¬(Entry.exited code).Signal := by
  rintro ⟨age, h⟩
  cases h

theorem init_invariant (h : watchdog.init s) : Invariant s := by
  obtain ⟨hseen, hstale, hpoint, hlog⟩ := h
  constructor
  · intro before x between y after hsplit
    simp [hlog] at hsplit
  · exact fun _ => settled_of_none (by simp [hlog])
  · simp [hlog]
  · simp [State.AtPoint, hpoint]

theorem query_invariant (h : Invariant s) : Invariant s.query := by
  unfold State.query
  cases hread : latestWatchdogTs s.db with
  | none => exact ⟨h.spaced, h.settled, h.seen, hread⟩
  | some latest => exact ⟨h.spaced, h.settled, h.seen, hread⟩

theorem engaged_of_signal {e : Entry} (h : e.Signal) : e.Engaged := by
  obtain ⟨age, rfl⟩ := h
  trivial

theorem seen_add {seen : Bool} {log : List Entry} {x : Entry}
    (h : (∃ e ∈ log, e.Engaged) → seen = true) (hx : x.Engaged → seen = true) :
    (∃ e ∈ log ++ [x], e.Engaged) → seen = true := by
  rintro ⟨e, he, hengaged⟩
  obtain he | he := List.mem_append.mp he
  · exact h ⟨e, he, hengaged⟩
  · rw [List.mem_singleton.mp he] at hengaged
    exact hx hengaged

theorem judge_invariant (h : Invariant s) (hpoint : s.point = .judging) :
    Invariant s.judge := by
  have hat := h.atPoint
  simp only [State.AtPoint, hpoint] at hat
  obtain ⟨hread, hsome⟩ := hat
  unfold State.judge
  split
  · rename_i hnone
    have hsilent : ∀ e ∈ s.log, ¬e.Signal := by
      intro e he hsignal
      have := h.seen ⟨e, he, engaged_of_signal hsignal⟩
      rw [hnone.2] at this
      cases this
    refine ⟨h.spaced.add (not_signal_cleared _ _), fun _ => ?_, ?_, ?_⟩
    · exact (settled_of_none hsilent).add (not_signal_cleared _ _)
    · exact seen_add h.seen False.elim
    · exact ⟨hread, hnone.1, hnone.2, rfl⟩
  · rename_i hengaged
    have hseen : s.seenFlag = true := by
      cases hlatest : s.latest with
      | none => simpa [hlatest] using hengaged
      | some latest => exact hsome (by simp [hlatest])
    split
    · rename_i hage
      exact ⟨h.spaced, h.settled, h.seen, hread, hseen,
        by simp [State.age] at hage; simp [State.age, hage], rfl⟩
    · rename_i age hage
      split
      · rename_i hle
        refine ⟨h.spaced.add (not_signal_cleared _ _), fun _ => ?_, ?_, ?_⟩
        · exact settled_reset (not_signal_cleared _ _) ⟨age, _, rfl, hle⟩
        · exact seen_add h.seen fun _ => hseen
        · exact ⟨hread, hage, hle, hseen, rfl⟩
      · rename_i hlt
        refine ⟨h.spaced, h.settled, h.seen, hread, hseen, fun a ha => ?_, rfl⟩
        have hsame : s.age = some a := ha
        rw [hage] at hsame
        obtain rfl := Option.some.inj hsame
        exact not_le.mp hlt

theorem notifying_invariant (h : Invariant s) (hpoint : s.point = .notifying) :
    Invariant { s with
      point := .leaving (.stale s.age)
      log := if s.transitioning && !s.args.quiet then s.log ++ [.notified s.age] else s.log } := by
  have hat := h.atPoint
  simp only [State.AtPoint, hpoint] at hat
  obtain ⟨hread, hseen, hstale, hlate, hsettled⟩ := hat
  refine ⟨?_, fun hdown => ?_, fun _ => hseen, hread, rfl, hlate, hseen, hstale⟩
  · dsimp only
    split
    · rename_i hfirst
      rw [Bool.and_eq_true] at hfirst
      exact h.spaced.add_signal (hsettled hfirst.1)
    · exact h.spaced
  · rw [hstale] at hdown
    cases hdown

theorem leaving_invariant (h : Invariant s) (report : Report) :
    Invariant { s with point := .idle, log := s.log ++ [.exited report.exitCode] } := by
  refine ⟨h.spaced.add (not_signal_exited _), fun hdown => ?_, ?_, trivial⟩
  · exact (h.settled hdown).add (not_signal_exited _)
  · exact seen_add h.seen False.elim

theorem proceed_invariant (h : Invariant s) (hstep : s.proceed = some t) : Invariant t := by
  unfold State.proceed at hstep
  have hat := h.atPoint
  cases hpoint : s.point with
  | idle =>
    rw [hpoint] at hstep
    cases hstep
  | querying =>
    rw [hpoint] at hstep
    cases hstep
    exact query_invariant h
  | clock =>
    rw [hpoint] at hstep
    cases hstep
  | engaging =>
    rw [hpoint] at hstep
    cases hstep
    simp only [State.AtPoint, hpoint] at hat
    refine ⟨h.spaced, h.settled, fun hsignal => ?_, hat, fun hsome => ?_⟩
    · rw [h.seen hsignal, Bool.true_or]
    · simp only [hsome, Bool.or_true]
  | judging =>
    rw [hpoint] at hstep
    cases hstep
    exact judge_invariant h hpoint
  | raising =>
    rw [hpoint] at hstep
    cases hstep
    simp only [State.AtPoint, hpoint] at hat
    obtain ⟨hread, hseen, hlate, htransition⟩ := hat
    refine ⟨h.spaced, fun hdown => ?_, h.seen, hread, hseen, rfl, hlate, fun hfirst => ?_⟩
    · cases hdown
    · refine h.settled ?_
      rw [htransition] at hfirst
      simpa using hfirst
  | notifying =>
    rw [hpoint] at hstep
    cases hstep
    exact notifying_invariant h hpoint
  | leaving report =>
    rw [hpoint] at hstep
    cases hstep
    exact leaving_invariant h report

theorem step_invariant (h : Invariant s) (hstep : watchdog.step s act = some t) :
    Invariant t := by
  cases act with
  | dbBecomes db =>
    cases hstep
    exact ⟨h.spaced, h.settled, h.seen, h.atPoint⟩
  | starts args =>
    simp only [watchdog, State.step] at hstep
    split at hstep
    · cases hstep
      exact ⟨h.spaced, h.settled, h.seen, trivial⟩
    · cases hstep
  | ticks now =>
    simp only [watchdog, State.step] at hstep
    split at hstep
    · rename_i hpoint
      cases hstep
      have hat := h.atPoint
      simp only [State.AtPoint, hpoint] at hat
      exact ⟨h.spaced, h.settled, h.seen, hat⟩
    · cases hstep
  | proceeds => exact proceed_invariant h hstep
  | killed =>
    cases hstep
    exact ⟨h.spaced, h.settled, h.seen, trivial⟩

theorem reach_invariant (h : Reachable watchdog s) : Invariant s :=
  h.invariant (fun _ => init_invariant) fun _ _ _ _ hs _ => step_invariant hs

end Invariant

section Results

variable {s : State}

theorem heartbeat_le_latest {store : Store} {row : Row} {latest : Int} (hrow : row ∈ store.rows)
    (htype : row.eventType = watchdogEventType) (hname : row.alertName = some watchdogAlertName)
    (hns : 1000000000000000 ≤ row.receivedAt.val)
    (hlatest : latestWatchdogTs (.table store) = some (some latest)) :
    row.receivedAt.val / 1000000000 ≤ latest := by
  obtain ⟨raw, hraw, rfl⟩ := Option.map_eq_some_iff.mp (Option.some.inj hlatest)
  have hmem : row.receivedAt.val ∈ heartbeats store :=
    List.mem_map_of_mem (List.mem_filter.mpr ⟨hrow, decide_eq_true ⟨htype, hname⟩⟩)
  have hle : row.receivedAt.val ≤ raw := (List.max?_eq_some_iff.mp hraw).2 _ hmem
  rw [epochSeconds, if_pos (hns.trans hle)]
  exact Int.ediv_le_ediv (by decide) hle

theorem latest_is_heartbeat {db : Db} {latest : Int}
    (hlatest : latestWatchdogTs db = some (some latest)) :
    ∃ store, db = .table store ∧ ∃ row ∈ store.rows, row.eventType = watchdogEventType ∧
      row.alertName = some watchdogAlertName ∧ epochSeconds row.receivedAt.val = latest := by
  cases db with
  | missing => cases hlatest
  | fails => cases hlatest
  | table store =>
    obtain ⟨raw, hraw, rfl⟩ := Option.map_eq_some_iff.mp (Option.some.inj hlatest)
    obtain ⟨row, hrow, rfl⟩ := List.mem_map.mp (List.max?_mem hraw)
    obtain ⟨hrow, hkind⟩ := List.mem_filter.mp hrow
    obtain ⟨htype, hname⟩ := of_decide_eq_true hkind
    exact ⟨store, rfl, row, hrow, htype, hname, rfl⟩

/-- However the checks are killed and whatever the database becomes, between two notifications a
check has taken the flag of staleness away on a heartbeat within its threshold. -/
theorem watchdog_notifies_once (h : Reachable watchdog s) {before between after : List Entry}
    {age age' : Option Int}
    (hlog : s.log = before ++ .notified age :: (between ++ .notified age' :: after)) :
    ∃ fresh threshold, .cleared (.fresh fresh) threshold ∈ between ∧ fresh ≤ threshold := by
  have hspaced := (reach_invariant h).spaced
  obtain ⟨e, he, fresh, threshold, rfl, hle⟩ :=
    hspaced before _ between _ after hlog ⟨age, rfl⟩ ⟨age', rfl⟩
  exact ⟨fresh, threshold, he, hle⟩

def sampleArgs : Args :=
  ⟨600, false⟩

def heartbeatAt (second : Int) : Db :=
  let event : EventInsert := { sampleEvent 1 with
    eventType := watchdogEventType
    receivedAt := second * 1000000000
    alertName := some watchdogAlertName }
  .table ((Store.empty.insertEvent event (ulidAt 1)).toOption.elim .empty (·.2))

def boot : State :=
  ⟨.missing, false, false, sampleArgs, none, 0, false, .idle, [], .missing⟩

/-- A whole check at a time, with as many calls as a stale one makes. -/
def checkAt (now : Int) : List Act :=
  [.starts sampleArgs, .proceeds, .ticks now] ++ List.replicate 5 .proceeds

def freshCheckAt (now : Int) : List Act :=
  [.starts sampleArgs, .proceeds, .ticks now] ++ List.replicate 3 .proceeds

theorem watchdog_notifies_once_run : ∃ s : State,
    s.log = [.cleared (.fresh 0) 600, .exited 0, .notified (some 1000), .exited 1, .exited 1,
      .cleared (.fresh 100) 600, .exited 0, .notified (some 601), .exited 1] ∧
    ∃ fresh threshold, .cleared (.fresh fresh) threshold ∈
      [Entry.exited 1, .exited 1, .cleared (.fresh 100) 600, .exited 0] ∧ fresh ≤ threshold := by
  let acts := .dbBecomes (heartbeatAt 2000000) :: freshCheckAt 2000000 ++ checkAt 2001000 ++
    checkAt 2001300 ++ .dbBecomes (heartbeatAt 2001400) :: freshCheckAt 2001500 ++
    checkAt 2002001
  obtain ⟨s, hrun, hlog⟩ : ∃ s ∈ watchdog.exec boot acts,
      s.log = [.cleared (.fresh 0) 600, .exited 0, .notified (some 1000), .exited 1, .exited 1,
        .cleared (.fresh 100) 600, .exited 0, .notified (some 601), .exited 1] := by
    decide +kernel
  have hstart : Reachable watchdog boot := .start ⟨rfl, rfl, rfl, rfl⟩
  have hsplit : s.log = [.cleared (.fresh 0) 600, .exited 0] ++ .notified (some 1000) ::
      ([.exited 1, .exited 1, .cleared (.fresh 100) 600, .exited 0] ++
        .notified (some 601) :: [.exited 1]) := hlog
  exact ⟨s, hlog, watchdog_notifies_once (hstart.exec hrun) hsplit⟩

def Attended (_ : State) : Act → Prop
  | .killed => False
  | .starts args => args.quiet = false
  | _ => True

instance decidableAttended : ∀ s act, Decidable (Attended s act)
  | _, .killed => isFalse id
  | _, .starts args => inferInstanceAs (Decidable (args.quiet = false))
  | _, .dbBecomes _ => isTrue trivial
  | _, .ticks _ => isTrue trivial
  | _, .proceeds => isTrue trivial

def Pending (log : List Entry) : Prop :=
  ∃ before age after, log = before ++ .notified age :: after ∧
    ∀ report threshold, .cleared report threshold ∉ after

theorem Pending.add {log : List Entry} {x : Entry} (h : Pending log)
    (hx : ∀ report threshold, x ≠ .cleared report threshold) : Pending (log ++ [x]) := by
  obtain ⟨before, age, after, rfl, hafter⟩ := h
  refine ⟨before, age, after ++ [x], by simp, fun report threshold hmem => ?_⟩
  obtain hmem | hmem := List.mem_append.mp hmem
  · exact hafter report threshold hmem
  · exact hx report threshold (List.mem_singleton.mp hmem).symm

structure Told (s : State) : Prop where
  loud : s.point ≠ .idle → s.args.quiet = false
  told : s.staleFlag = true →
    (s.point = .notifying ∧ s.transitioning = true) ∨ Pending s.log

theorem judge_told (h : Told s) (hpoint : s.point = .judging) : Told s.judge := by
  have hloud := h.loud (by simp [hpoint])
  have hpending : s.staleFlag = true → Pending s.log := by
    intro hstale
    obtain ⟨hnotifying, -⟩ | hpending := h.told hstale
    · rw [hpoint] at hnotifying
      cases hnotifying
    · exact hpending
  unfold State.judge
  split
  · exact ⟨fun _ => hloud, fun hdown => by cases hdown⟩
  · split
    · exact ⟨fun _ => hloud, fun hstale => .inr (hpending hstale)⟩
    · split
      · exact ⟨fun _ => hloud, fun hdown => by cases hdown⟩
      · exact ⟨fun _ => hloud, fun hstale => .inr (hpending hstale)⟩

theorem proceed_told {t : State} (hinv : Invariant s) (h : Told s)
    (hstep : s.proceed = some t) : Told t := by
  have hat := hinv.atPoint
  have hpending : s.point ≠ .notifying → s.staleFlag = true → Pending s.log := by
    intro hpoint hstale
    obtain ⟨hnotifying, -⟩ | hpending := h.told hstale
    · exact absurd hnotifying hpoint
    · exact hpending
  unfold State.proceed at hstep
  cases hpoint : s.point with
  | idle =>
    rw [hpoint] at hstep
    cases hstep
  | querying =>
    rw [hpoint] at hstep
    cases hstep
    have hloud := h.loud (by simp [hpoint])
    have hpending := hpending (by simp [hpoint])
    unfold State.query
    split
    · exact ⟨fun _ => hloud, fun hstale => .inr (hpending hstale)⟩
    · exact ⟨fun _ => hloud, fun hstale => .inr (hpending hstale)⟩
  | clock =>
    rw [hpoint] at hstep
    cases hstep
  | engaging =>
    rw [hpoint] at hstep
    cases hstep
    have hloud := h.loud (by simp [hpoint])
    exact ⟨fun _ => hloud, fun hstale => .inr (hpending (by simp [hpoint]) hstale)⟩
  | judging =>
    rw [hpoint] at hstep
    cases hstep
    exact judge_told h hpoint
  | raising =>
    rw [hpoint] at hstep
    cases hstep
    simp only [State.AtPoint, hpoint] at hat
    refine ⟨fun _ => h.loud (by simp [hpoint]), fun _ => ?_⟩
    cases hflag : s.staleFlag with
    | false => exact .inl ⟨rfl, by simp [hat.2.2.2, hflag]⟩
    | true => exact .inr (hpending (by simp [hpoint]) hflag)
  | notifying =>
    rw [hpoint] at hstep
    cases hstep
    simp only [State.AtPoint, hpoint] at hat
    have hloud := h.loud (by simp [hpoint])
    refine ⟨fun _ => hloud, fun _ => .inr ?_⟩
    dsimp only
    split
    · exact ⟨s.log, s.age, [], rfl, by simp⟩
    · rename_i hsilent
      obtain ⟨-, htransition⟩ | hpending := h.told hat.2.2.1
      · simp [htransition, hloud] at hsilent
      · exact hpending
  | leaving report =>
    rw [hpoint] at hstep
    cases hstep
    refine ⟨fun hidle => absurd rfl hidle, fun hstale => .inr ?_⟩
    exact (hpending (by simp [hpoint]) hstale).add (by simp)

theorem step_told {t : State} {act : Act} (hinv : Invariant s) (h : Told s)
    (hok : Attended s act) (hstep : watchdog.step s act = some t) : Told t := by
  cases act with
  | dbBecomes db =>
    cases hstep
    exact ⟨h.loud, h.told⟩
  | starts args =>
    simp only [watchdog, State.step] at hstep
    split at hstep
    · rename_i hidle
      cases hstep
      refine ⟨fun _ => hok, fun hstale => .inr ?_⟩
      obtain ⟨hnotifying, -⟩ | hpending := h.told hstale
      · rw [hidle] at hnotifying
        cases hnotifying
      · exact hpending
    · cases hstep
  | ticks now =>
    simp only [watchdog, State.step] at hstep
    split at hstep
    · rename_i hclock
      cases hstep
      refine ⟨fun _ => h.loud (by simp [hclock]), fun hstale => .inr ?_⟩
      obtain ⟨hnotifying, -⟩ | hpending := h.told hstale
      · rw [hclock] at hnotifying
        cases hnotifying
      · exact hpending
    · cases hstep
  | proceeds => exact proceed_told hinv h hstep
  | killed => exact hok.elim

/-- A check that could read the database exits 1 just where it leaves the flag of staleness, and 0
just where no heartbeat was ever known or the newest is within the threshold; a single heartbeat
within the threshold is enough. -/
theorem watchdog_exits (h : Reachable watchdog s) {report : Report}
    (hpoint : s.point = .leaving report) (hread : report ≠ .dbError) :
    (report.exitCode = 1 ↔ s.staleFlag = true) ∧
      (report.exitCode = 0 ↔ s.seenFlag = false ∨ ∃ latest,
        latestWatchdogTs s.asked = some (some latest) ∧ s.now - latest ≤ s.args.threshold) ∧
      (s.seenFlag = false → latestWatchdogTs s.asked = some none ∧ ∀ e ∈ s.log, ¬e.Engaged) ∧
      ∀ store row, s.asked = .table store → row ∈ store.rows →
        row.eventType = watchdogEventType → row.alertName = some watchdogAlertName →
        1000000000000000 ≤ row.receivedAt.val →
        s.now - row.receivedAt.val / 1000000000 ≤ s.args.threshold → report.exitCode = 0 := by
  have hinv := reach_invariant h
  have hat := hinv.atPoint
  have hunseen : s.seenFlag = false → ∀ e ∈ s.log, ¬e.Engaged := by
    intro hdown e he hengaged
    rw [hinv.seen ⟨e, he, hengaged⟩] at hdown
    cases hdown
  simp only [State.AtPoint, hpoint] at hat
  cases report with
  | dbError => exact absurd rfl hread
  | preBootstrap =>
    obtain ⟨hlatest, hnone, hseen, hstale⟩ := hat
    rw [hnone] at hlatest
    simp only [Report.exitCode, hseen, hstale, hlatest]
    exact ⟨by simp, by simp, fun _ => ⟨trivial, hunseen hseen⟩, fun _ _ _ _ _ _ _ _ => trivial⟩
  | fresh age =>
    obtain ⟨hlatest, hage, hle, hseen, hstale⟩ := hat
    obtain ⟨latest, hsome, rfl⟩ := Option.map_eq_some_iff.mp hage
    rw [hsome] at hlatest
    simp only [Report.exitCode, hseen, hstale, hlatest]
    refine ⟨by simp, ⟨fun _ => .inr ⟨latest, rfl, hle⟩, fun _ => trivial⟩, by simp, ?_⟩
    exact fun _ _ _ _ _ _ _ _ => trivial
  | stale age =>
    obtain ⟨hlatest, rfl, hlate, hseen, hstale⟩ := hat
    refine ⟨by simp [Report.exitCode, hstale], ?_, by simp [hseen], ?_⟩
    · simp only [Report.exitCode, hseen, one_ne_zero, Bool.true_eq_false, false_or, false_iff]
      rintro ⟨latest, hsome, hle⟩
      rw [hlatest, Option.some.injEq] at hsome
      exact absurd hle (not_le.mpr (hlate _ (by simp [State.age, hsome])))
    · intro store row hasked hrow htype hname hns hle
      rw [hasked] at hlatest
      cases hsome : s.latest with
      | none =>
        rw [hsome] at hlatest
        have hmem : row.receivedAt.val ∈ heartbeats store :=
          List.mem_map_of_mem (List.mem_filter.mpr ⟨hrow, decide_eq_true ⟨htype, hname⟩⟩)
        have hnone := Option.map_eq_none_iff.mp (Option.some.inj hlatest)
        rw [List.max?_eq_none_iff] at hnone
        rw [hnone] at hmem
        cases hmem
      | some latest =>
        rw [hsome] at hlatest
        have hnewest := heartbeat_le_latest hrow htype hname hns hlatest
        have := hlate (s.now - latest) (by simp [State.age, hsome])
        omega

/-- The table has emptied behind a heartbeat that a check has seen. -/
theorem watchdog_exits_run : ∃ s : State, s.staleFlag = true ∧ s.latest = none ∧
    (Report.stale none).exitCode = 1 ∧
    ((Report.stale none).exitCode = 0 ↔ s.seenFlag = false ∨ ∃ latest,
      latestWatchdogTs s.asked = some (some latest) ∧ s.now - latest ≤ s.args.threshold) := by
  let acts := .dbBecomes (heartbeatAt 2000000) :: freshCheckAt 2000000 ++
    .dbBecomes (.table .empty) :: (checkAt 2000100).take 7
  obtain ⟨s, hrun, hpoint, hstale, hlatest⟩ : ∃ s ∈ watchdog.exec boot acts,
      s.point = .leaving (.stale none) ∧ s.staleFlag = true ∧ s.latest = none := by
    decide +kernel
  have hstart : Reachable watchdog boot := .start ⟨rfl, rfl, rfl, rfl⟩
  have hexits := watchdog_exits (hstart.exec hrun) hpoint (by simp)
  exact ⟨s, hstale, hlatest, rfl, hexits.2.1⟩

end Results

end Waitbus.Watchdog
