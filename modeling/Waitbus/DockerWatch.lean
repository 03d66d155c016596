import Waitbus.Emit

/-! The watcher of the Docker events. It reads a stream of events, emits the containers' ends and,
when the stream is lost, asks for a new one from a second before the last event it has read. An
attempt that the Engine refuses ends it. -/

namespace Waitbus.DockerWatch
open Python EventStore Runs Emit

section Messages

/-- What is read of one line of the stream. The times are those that are integers, `exitCode` is
what `int` makes of the attribute, and `payload` the compact text of the whole message. -/
structure Message where
  type : Option String
  action : String
  containerId : String
  name : String
  exitCode : Option Int
  timeNano : Option Int
  time : Option Int
  payload : String

def nsPerSecond : Int := 1000000000

def terminalActions : List String := ["die", "stop", "kill"]

def eventEpochS (message : Message) : Option Int :=
  match message.timeNano.filter (0 < ·) with
  | some nanos => some (nanos / nsPerSecond)
  | none => message.time

def conclusionFor (action : String) (exitCode : Option Int) : String :=
  if action ≠ "die" then "cancelled"
  else if exitCode = some 0 then "success" else "failure"

/-- `_received_at_ns`; `wall` is `int(time.time())`. -/
def receivedAtNs (wall : Int) (message : Message) : Int :=
  match message.timeNano.filter (0 < ·) with
  | some nanos => nanos
  | none =>
    match eventEpochS message with
    | some second => second * nsPerSecond
    | none => wall * nsPerSecond

/-- The labels that the rows are stored under. -/
structure Labels where
  owner : String
  repo : String

def buildEvent (labels : Labels) (wall : Int) (message : Message) : Option EventInsert :=
  if message.type ≠ some "container" then none
  else if message.action ∉ terminalActions then none
  else
    let receivedAt := receivedAtNs wall message
    let container := if message.containerId = "" then message.name else message.containerId
    some {
      deliveryId := "docker:" ++ container ++ ":" ++ message.action ++ ":" ++ toString receivedAt
      source := "docker"
      eventType := "docker_container"
      owner := labels.owner
      repo := labels.repo
      receivedAt := receivedAt
      payloadJson := message.payload
      ingestMethod := "docker_events"
      status := some "completed"
      conclusion := some (conclusionFor message.action message.exitCode)
      workflowName := if message.name = "" then none else some message.name }

def advanceCursor (message : Message) (current : Option Int) : Option Int :=
  match eventEpochS message with
  | some second => some (second - 1)
  | none => current

end Messages

section Model

/-- An event of the Engine's, which stamps each with its time. -/
structure Event where
  message : Message
  second : Int
  clock : eventEpochS message = some second

/-- The events so far and the Engine's clock. -/
structure Engine where
  history : List Event
  now : Int
  ordered : history.Pairwise (·.second ≤ ·.second)
  past : ∀ event ∈ history, event.second ≤ now

def Engine.publish (engine : Engine) (event : Event) (h : engine.now ≤ event.second) : Engine where
  history := engine.history ++ [event]
  now := event.second
  ordered := by
    refine List.pairwise_append.mpr ⟨engine.ordered, List.pairwise_singleton _ _, ?_⟩
    intro x hx y hy
    rw [List.mem_singleton.mp hy]
    exact (engine.past x hx).trans h
  past := by
    intro x hx
    rcases List.mem_append.mp hx with hx | hx
    · exact (engine.past x hx).trans h
    · rw [List.mem_singleton.mp hx]

/-- What `GET /events` sends before the events to come. -/
def Engine.replay (engine : Engine) : Option Int → List Event
  | none => []
  | some since => engine.history.filter fun event => decide (since ≤ event.second)

inductive Ending where
  | returned (code : Nat)
  | raised

/-- Where `watch` is: at the top of its loop, reading a stream, or at its end. -/
inductive Link where
  | connecting
  | streaming (unread : List Event)
  | ended (ending : Ending)

/-- The watcher, its bus and the Engine. `connected` is whether a stream has been opened, and `due`
are the events since then and before a `stop`. -/
structure Watch where
  bus : Bus
  engine : Engine
  link : Link
  cursor : Option Int
  stopped : Bool
  connected : Bool
  due : List Event

/-- What a call of `emit` meets: the wall clock, the new id and what fails. -/
structure Weather where
  wall : Int
  eventId : Ulid
  fault : Option PyExc
  session : Session
  convert : Row → Except PyExc Unit

def Weather.call (weather : Weather) (insert : EventInsert) : Call :=
  .emit insert weather.eventId weather.fault weather.session weather.convert

def Link.send (event : Event) : Link → Link
  | .streaming unread => .streaming (unread ++ [event])
  | link => link

def Watch.occur (w : Watch) (event : Event) : Option Watch :=
  if h : w.engine.now ≤ event.second then some { w with
    engine := w.engine.publish event h
    link := w.link.send event
    due := if w.connected ∧ ¬w.stopped then w.due ++ [event] else w.due }
  else none

/-- Where the loop over the lines raises an `OSError` or the like: the connection is taken to be
lost, unless a stop has been asked for. -/
def Watch.reconnects (w : Watch) : Link :=
  if w.stopped then .ended (.returned 0) else .connecting

/-- The body of the loop over the lines, for one that is an event. An `OSError` of `emit` is no
different from one of the connection. -/
def Watch.read (labels : Labels) (w : Watch) (event : Event) (rest : List Event)
    (weather : Weather) : Option Watch :=
  let cursor := advanceCursor event.message w.cursor
  match buildEvent labels weather.wall event.message with
  | none => some { w with cursor, link := .streaming rest }
  | some insert =>
    if Fresh w.bus.store (weather.call insert).items then
      let outcome := run w.bus (weather.call insert)
      some { w with
        cursor
        bus := outcome.bus
        link := match outcome.returned with
          | .ok _ => .streaming rest
          | .error (.raised .osError) => w.reconnects
          | .error _ => .ended .raised }
    else none

inductive Act where
  | occur (event : Event)
  | accept
  | refuse
  | line (weather : Weather)
  | junk
  | eof
  | drop
  | stop
  | leave
  | interrupt
  | other (call : Call)

def Watch.step (labels : Labels) (w : Watch) : Act → Option Watch
  | .occur event => w.occur event
  | .accept =>
    match w.link, w.stopped with
    | .connecting, false =>
      some { w with link := .streaming (w.engine.replay w.cursor), connected := true }
    | _, _ => none
  -- No socket, no permission, a refused connection or a status that is not 200.
  | .refuse =>
    match w.link, w.stopped with
    | .connecting, false => some { w with link := .ended .raised }
    | _, _ => none
  | .line weather =>
    match w.link with
    | .streaming (event :: rest) => w.read labels event rest weather
    | _ => none
  | .junk =>
    match w.link with
    | .streaming _ => some w
    | _ => none
  | .eof =>
    match w.link with
    | .streaming _ => some { w with link := .connecting }
    | _ => none
  -- Also in the middle of a line, whose beginning is given up with the connection.
  | .drop =>
    match w.link with
    | .streaming _ => some { w with link := w.reconnects }
    | _ => none
  | .stop => some { w with stopped := true }
  | .leave =>
    match w.link, w.stopped with
    | .connecting, true => some { w with link := .ended (.returned 0) }
    | _, _ => none
  | .interrupt =>
    match w.link with
    | .ended _ => none
    | _ => some { w with link := .ended (.returned 130) }
  | .other call =>
    if Fresh w.bus.store call.items then some { w with bus := (run w.bus call).bus } else none

/-- `watch` is called with no `since`, or with one that is not ahead of the Engine's clock. -/
def watching (labels : Labels) : System Watch Act where
  init w := w.link = .connecting ∧ (∀ since ∈ w.cursor, since ≤ w.engine.now) ∧
    w.connected = false ∧ w.due = []
  step := Watch.step labels

def Watch.stored (w : Watch) : List String :=
  w.bus.store.rows.map (·.deliveryId)

def Watch.Running (w : Watch) : Prop :=
  match w.link with
  | .connecting => w.stopped = false
  | .streaming _ => True
  | .ended _ => False

/-- The event is still to be read, from the stream that is open or from the next one. -/
def Watch.Ahead (w : Watch) (event : Event) : Prop :=
  match w.link with
  | .connecting => event ∈ w.engine.replay w.cursor
  | .streaming unread => event ∈ unread
  | .ended _ => False

def Link.CaughtUp : Link → Prop
  | .streaming [] => True
  | _ => False

def Watch.StoredOnce (w : Watch) (deliveryId : String) : Prop :=
  w.stored.count deliveryId = 1

def Resumable (w : Watch) : Act → Prop
  | .eof | .drop => w.cursor ≠ none
  | _ => True

end Model

section Clocks

variable {labels : Labels} {wall : Int} {event : Event} {insert : EventInsert}

theorem buildEvent_wall (wall' : Int) (h : buildEvent labels wall event.message = some insert) :
    buildEvent labels wall' event.message = some insert := by
  have hsame : receivedAtNs wall' event.message = receivedAtNs wall event.message := by
    rw [receivedAtNs, receivedAtNs, event.clock]
  rw [← h, buildEvent, buildEvent, hsame]

theorem mem_replay {engine : Engine} {since : Option Int} :
    event ∈ engine.replay since ↔ event ∈ engine.history ∧ ∃ s ∈ since, s ≤ event.second := by
  cases since with
  | none => simp [Engine.replay]
  | some s => simp [Engine.replay]

end Clocks

section Steps

variable {labels : Labels} {w t : Watch}

def Watch.unread (w : Watch) : List Event :=
  match w.link with
  | .streaming unread => unread
  | _ => []

theorem running_of_streaming {unread : List Event} (hlink : w.link = .streaming unread) :
    w.Running := by
  rw [Watch.Running, hlink]
  trivial

theorem Link.CaughtUp.eq {link : Link} (h : link.CaughtUp) : link = .streaming [] := by
  unfold Link.CaughtUp at h
  split at h
  · rfl
  · exact h.elim

/-- What has been read is behind the cursor or within a second of it, so that a due event is stored,
or unread, or in the next replay. -/
structure Kept (labels : Labels) (w : Watch) : Prop where
  past : ∀ since ∈ w.cursor, since ≤ w.engine.now
  ordered : w.unread.Pairwise (·.second ≤ ·.second)
  sent : w.unread ⊆ w.engine.history
  behind : ∀ since ∈ w.cursor, ∀ event ∈ w.unread, since ≤ event.second
  resumes : w.link = .connecting → w.connected = true → w.cursor ≠ none
  occurred : w.due ⊆ w.engine.history
  undue : w.connected = false → w.due = []
  kept : w.Running → ∀ event ∈ w.due, ∀ wall insert,
    buildEvent labels wall event.message = some insert →
      insert.deliveryId ∈ w.stored ∨ w.Ahead event

theorem Kept.ended (h : Kept labels w) (ending : Ending) :
    Kept labels { w with link := .ended ending } where
  past := h.past
  ordered := List.Pairwise.nil
  sent := List.nil_subset _
  behind := fun _ _ _ hmem => absurd hmem List.not_mem_nil
  resumes := nofun
  occurred := h.occurred
  undue := h.undue
  kept := nofun

theorem Kept.stop (h : Kept labels w) : Kept labels { w with stopped := true } where
  past := h.past
  ordered := h.ordered
  sent := h.sent
  behind := h.behind
  resumes := h.resumes
  occurred := h.occurred
  undue := h.undue
  kept := by
    intro hrunning
    have hwas : w.Running := by
      unfold Watch.Running at hrunning ⊢
      cases hlink : w.link with
      | connecting => simp [hlink] at hrunning
      | streaming unread => trivial
      | ended ending => simp [hlink] at hrunning
    exact h.kept hwas

theorem Kept.grow (h : Kept labels w) {bus : Bus}
    (hrows : w.stored ⊆ bus.store.rows.map (·.deliveryId)) : Kept labels { w with bus } where
  past := h.past
  ordered := h.ordered
  sent := h.sent
  behind := h.behind
  resumes := h.resumes
  occurred := h.occurred
  undue := h.undue
  kept := fun hrunning event hevent wall insert hinsert =>
    (h.kept hrunning event hevent wall insert hinsert).imp_left (hrows ·)

/-- The state after an event: the Engine has it, and so has the stream that is open. -/
def Watch.after (w : Watch) (event : Event) (h : w.engine.now ≤ event.second) : Watch :=
  { w with
    engine := w.engine.publish event h
    link := w.link.send event
    due := if w.connected ∧ ¬w.stopped then w.due ++ [event] else w.due }

theorem occur_cases {event : Event} (h : w.occur event = some t) :
    ∃ hnow : w.engine.now ≤ event.second, t = w.after event hnow := by
  rw [Watch.occur] at h
  split at h
  · rename_i hnow
    exact ⟨hnow, (Option.some.inj h).symm⟩
  · nomatch h

section Occurrences

variable {event x : Event} {hnow : w.engine.now ≤ event.second}

theorem mem_unread_after (h : x ∈ (w.after event hnow).unread) : x ∈ w.unread ∨ x = event := by
  unfold Watch.after Watch.unread Link.send at h
  unfold Watch.unread
  cases hlink : w.link with
  | streaming unread => simpa [hlink] using h
  | _ => simp [hlink] at h

theorem ordered_after (h : Kept labels w) :
    (w.after event hnow).unread.Pairwise (·.second ≤ ·.second) := by
  have hold := h.ordered
  have hsent := h.sent
  unfold Watch.after Watch.unread Link.send
  unfold Watch.unread at hold hsent
  cases hlink : w.link with
  | streaming unread =>
    rw [hlink] at hold hsent
    refine List.pairwise_append.mpr ⟨hold, List.pairwise_singleton _ _, fun y hy z hz => ?_⟩
    rw [List.mem_singleton.mp hz]
    exact (w.engine.past y (hsent hy)).trans hnow
  | _ => exact List.Pairwise.nil

theorem running_after : (w.after event hnow).Running ↔ w.Running := by
  unfold Watch.after Watch.Running Link.send
  cases w.link with
  | _ => rfl

theorem ahead_after (h : w.Ahead x) : (w.after event hnow).Ahead x := by
  unfold Watch.after Watch.Ahead Link.send
  unfold Watch.Ahead at h
  cases hlink : w.link with
  | connecting =>
    rw [hlink] at h
    obtain ⟨hmem, hsince⟩ := mem_replay.mp h
    exact mem_replay.mpr ⟨List.mem_append_left _ hmem, hsince⟩
  | streaming unread =>
    rw [hlink] at h
    exact List.mem_append_left _ h
  | ended ending =>
    rw [hlink] at h
    exact h

/-- The new event is sent on the stream, or will be replayed since the cursor is behind it. -/
theorem ahead_after_self (h : Kept labels w) (hconnected : w.connected = true)
    (hrunning : w.Running) : (w.after event hnow).Ahead event := by
  unfold Watch.after Watch.Ahead Link.send
  unfold Watch.Running at hrunning
  cases hlink : w.link with
  | connecting =>
    obtain ⟨since, hsince⟩ := Option.ne_none_iff_exists'.mp (h.resumes hlink hconnected)
    exact mem_replay.mpr ⟨List.mem_append_right _ (List.mem_singleton_self _), since, hsince,
      (h.past since hsince).trans hnow⟩
  | streaming unread => exact List.mem_append_right _ (List.mem_singleton_self _)
  | ended ending =>
    rw [hlink] at hrunning
    exact hrunning

theorem mem_due_after (h : x ∈ (w.after event hnow).due) :
    x ∈ w.due ∨ x = event ∧ w.connected = true := by
  unfold Watch.after at h
  dsimp only at h
  split at h
  · rename_i hcounted
    exact (List.mem_append.mp h).imp_right fun hx => ⟨List.mem_singleton.mp hx, hcounted.1⟩
  · exact .inl h

theorem Kept.occur (h : Kept labels w) : Kept labels (w.after event hnow) where
  past := fun since hsince => (h.past since hsince).trans hnow
  ordered := ordered_after h
  sent := fun x hx => List.mem_append.mpr
    ((mem_unread_after hx).imp (h.sent ·) fun heq => List.mem_singleton.mpr heq)
  behind := by
    intro since hsince x hx
    rcases mem_unread_after hx with hx | rfl
    · exact h.behind since hsince x hx
    · exact (h.past since hsince).trans hnow
  resumes := by
    intro hlink
    refine h.resumes ?_
    unfold Watch.after Link.send at hlink
    cases hwas : w.link with
    | connecting => rfl
    | _ => simp [hwas] at hlink
  occurred := fun x hx => List.mem_append.mpr
    ((mem_due_after hx).imp (h.occurred ·) fun heq => List.mem_singleton.mpr heq.1)
  undue := by
    intro hconnected
    refine List.eq_nil_iff_forall_not_mem.mpr fun x hx => ?_
    have hfalse : w.connected = false := hconnected
    rcases mem_due_after hx with hx | ⟨-, htrue⟩
    · rw [h.undue hfalse] at hx
      exact List.not_mem_nil hx
    · rw [hfalse] at htrue
      nomatch htrue
  kept := by
    intro hrunning x hx wall insert hinsert
    have hwas := running_after.mp hrunning
    rcases mem_due_after hx with hx | ⟨rfl, hconnected⟩
    · exact (h.kept hwas x hx wall insert hinsert).imp_right ahead_after
    · exact .inr (ahead_after_self h hconnected hwas)

end Occurrences

theorem Kept.accept (h : Kept labels w) (hlink : w.link = .connecting)
    (hstopped : w.stopped = false) : Kept labels { w with
      link := .streaming (w.engine.replay w.cursor), connected := true } where
  past := h.past
  ordered := by
    unfold Watch.unread Engine.replay
    cases w.cursor with
    | none => exact List.Pairwise.nil
    | some since => exact w.engine.ordered.filter _
  sent := fun x hx => (mem_replay.mp hx).1
  behind := by
    intro since hsince x hx
    obtain ⟨-, since', hsince', hle⟩ := mem_replay.mp hx
    rwa [Option.mem_unique hsince hsince']
  resumes := nofun
  occurred := h.occurred
  undue := nofun
  kept := by
    intro _ x hx wall insert hinsert
    have hrunning : w.Running := by
      rw [Watch.Running, hlink]
      exact hstopped
    refine (h.kept hrunning x hx wall insert hinsert).imp_right fun hahead => ?_
    rw [Watch.Ahead, hlink] at hahead
    exact hahead

theorem Kept.lost (h : Kept labels w) {unread : List Event} (hlink : w.link = .streaming unread)
    (hcursor : w.cursor ≠ none) : Kept labels { w with link := .connecting } where
  past := h.past
  ordered := List.Pairwise.nil
  sent := List.nil_subset _
  behind := fun _ _ _ hmem => absurd hmem List.not_mem_nil
  resumes := fun _ _ => hcursor
  occurred := h.occurred
  undue := h.undue
  kept := by
    intro _ x hx wall insert hinsert
    have hrunning := running_of_streaming hlink
    refine (h.kept hrunning x hx wall insert hinsert).imp_right fun hahead => ?_
    have hunread : x ∈ w.unread := by
      rw [Watch.Ahead, hlink] at hahead
      rw [Watch.unread, hlink]
      exact hahead
    obtain ⟨since, hsince⟩ := Option.ne_none_iff_exists'.mp hcursor
    exact mem_replay.mpr ⟨h.sent hunread, since, hsince, h.behind since hsince x hunread⟩

section Lines

variable {event : Event} {rest : List Event} {weather : Weather}

theorem advanceCursor_event (current : Option Int) :
    advanceCursor event.message current = some (event.second - 1) := by
  rw [advanceCursor, event.clock]

/-- A line leaves the rest unread, or has lost the stream or ended the loop; and what there is to
store of it is stored where the stream goes on. -/
theorem read_cases (h : w.read labels event rest weather = some t) :
    ∃ bus link, t = { w with bus, link, cursor := some (event.second - 1) } ∧
      w.stored ⊆ bus.store.rows.map (·.deliveryId) ∧
      ((∃ ending, link = .ended ending) ∨ link = .connecting ∨ link = .streaming rest ∧
        ∀ insert, buildEvent labels weather.wall event.message = some insert →
          insert.deliveryId ∈ bus.store.rows.map (·.deliveryId)) := by
  rw [Watch.read, advanceCursor_event] at h
  dsimp only at h
  split at h
  · rename_i hskip
    refine ⟨w.bus, .streaming rest, (Option.some.inj h).symm, List.Subset.refl _,
      .inr (.inr ⟨rfl, fun insert hinsert => ?_⟩)⟩
    rw [hskip] at hinsert
    nomatch hinsert
  · rename_i insert hbuilt
    split at h
    · rename_i hfresh
      obtain ⟨hrows, hstored⟩ := run_keys (weather.call insert) hfresh
      refine ⟨_, _, (Option.some.inj h).symm, hrows, ?_⟩
      split
      · rename_i count hreturned
        refine .inr (.inr ⟨rfl, fun insert' hinsert' => ?_⟩)
        rw [← Option.some.inj (hbuilt.symm.trans hinsert')]
        exact hstored count hreturned insert (List.mem_singleton_self _)
      · rw [Watch.reconnects]
        split
        · exact .inl ⟨_, rfl⟩
        · exact .inr (.inl rfl)
      · exact .inl ⟨_, rfl⟩
    · nomatch h

theorem Kept.read (h : Kept labels w) (hlink : w.link = .streaming (event :: rest))
    (hstep : w.read labels event rest weather = some t) : Kept labels t := by
  have hunread : w.unread = event :: rest := by rw [Watch.unread, hlink]
  have hordered := List.pairwise_cons.mp (hunread ▸ h.ordered)
  have hsent := List.cons_subset.mp (hunread ▸ h.sent)
  have hpast : ∀ since ∈ some (event.second - 1), since ≤ w.engine.now := by
    intro since hsince
    have hnow := w.engine.past event hsent.1
    have heq := Option.mem_some_iff.mp hsince
    omega
  have hbehind : ∀ x ∈ event :: rest, event.second - 1 ≤ x.second := by
    intro x hx
    rcases List.mem_cons.mp hx with rfl | hx
    · omega
    · have hle := hordered.1 x hx
      omega
  obtain ⟨bus, link, rfl, hrows, ⟨ending, rfl⟩ | rfl | ⟨rfl, hstored⟩⟩ := read_cases hstep
  · exact {
      past := hpast
      ordered := List.Pairwise.nil
      sent := List.nil_subset _
      behind := fun _ _ _ hmem => absurd hmem List.not_mem_nil
      resumes := nofun
      occurred := h.occurred
      undue := h.undue
      kept := nofun }
  -- The event itself is in the next replay, as the cursor is a second behind it.
  · exact {
      past := hpast
      ordered := List.Pairwise.nil
      sent := List.nil_subset _
      behind := fun _ _ _ hmem => absurd hmem List.not_mem_nil
      resumes := fun _ _ => Option.some_ne_none _
      occurred := h.occurred
      undue := h.undue
      kept := by
        intro _ x hx wall insert hinsert
        have hwas := h.kept (running_of_streaming hlink) x hx wall insert hinsert
        refine hwas.imp (hrows ·) fun hahead => ?_
        rw [Watch.Ahead, hlink] at hahead
        exact mem_replay.mpr ⟨h.sent (hunread ▸ hahead), _, rfl, hbehind x hahead⟩ }
  · exact {
      past := hpast
      ordered := hordered.2
      sent := hsent.2
      behind := by
        intro since hsince x hx
        rw [← Option.mem_some_iff.mp hsince]
        exact hbehind x (List.mem_cons_of_mem _ hx)
      resumes := nofun
      occurred := h.occurred
      undue := h.undue
      kept := by
        intro _ x hx wall insert hinsert
        rcases h.kept (running_of_streaming hlink) x hx wall insert hinsert with hold | hahead
        · exact .inl (hrows hold)
        · rw [Watch.Ahead, hlink] at hahead
          rcases List.mem_cons.mp hahead with rfl | hrest
          · exact .inl (hstored insert (buildEvent_wall weather.wall hinsert))
          · exact .inr hrest }

end Lines

theorem Kept.step (h : Kept labels w) {act : Act} (hok : Resumable w act)
    (hstep : w.step labels act = some t) : Kept labels t := by
  cases act with
  | occur event =>
    obtain ⟨hnow, rfl⟩ := occur_cases hstep
    exact h.occur
  | accept =>
    rw [Watch.step] at hstep
    split at hstep
    · rename_i hlink hstopped
      rw [← Option.some.inj hstep]
      exact h.accept hlink hstopped
    · nomatch hstep
  | refuse =>
    rw [Watch.step] at hstep
    split at hstep
    · rw [← Option.some.inj hstep]
      exact h.ended _
    · nomatch hstep
  | line weather =>
    rw [Watch.step] at hstep
    split at hstep
    · rename_i hlink
      exact h.read hlink hstep
    · nomatch hstep
  | junk =>
    rw [Watch.step] at hstep
    split at hstep
    · rw [← Option.some.inj hstep]
      exact h
    · nomatch hstep
  | eof =>
    rw [Watch.step] at hstep
    split at hstep
    · rename_i hlink
      rw [← Option.some.inj hstep]
      exact h.lost hlink hok
    · nomatch hstep
  | drop =>
    rw [Watch.step] at hstep
    split at hstep
    · rename_i hlink
      rw [← Option.some.inj hstep, Watch.reconnects]
      split
      · exact h.ended _
      · exact h.lost hlink hok
    · nomatch hstep
  | stop =>
    rw [← Option.some.inj hstep]
    exact h.stop
  | leave =>
    rw [Watch.step] at hstep
    split at hstep
    · rw [← Option.some.inj hstep]
      exact h.ended _
    · nomatch hstep
  | interrupt =>
    rw [Watch.step] at hstep
    split at hstep
    · nomatch hstep
    · rw [← Option.some.inj hstep]
      exact h.ended _
  | other call =>
    obtain ⟨hfresh, hcalled⟩ := Option.ite_none_right_eq_some.mp hstep
    rw [← Option.some.inj hcalled]
    exact h.grow (run_keys call hfresh).1

end Steps

section Runs

variable {labels : Labels} {w t : Watch}

theorem kept_run (h : Reach (watching labels) Resumable w) : Kept labels w := by
  refine h.invariant ?_ fun s act t _ hkept hok hstep => hkept.step hok hstep
  intro s hinit
  obtain ⟨hlink, hsince, hconnected, hdue⟩ := hinit
  have hunread : s.unread = [] := by rw [Watch.unread, hlink]
  exact {
    past := hsince
    ordered := hunread ▸ List.Pairwise.nil
    sent := hunread ▸ List.nil_subset _
    behind := fun _ _ _ hmem => absurd (hunread ▸ hmem) List.not_mem_nil
    resumes := fun _ htrue => absurd (hconnected.symm.trans htrue) Bool.false_ne_true
    occurred := hdue ▸ List.nil_subset _
    undue := fun _ => hdue
    kept := fun _ _ hmem => absurd (hdue ▸ hmem) List.not_mem_nil }

def Alone (_ : Watch) : Act → Prop
  | .other _ => False
  | _ => True

theorem ended_step {ending : Ending} {act : Act} (hended : w.link = .ended ending)
    (halone : Alone w act) (hstep : w.step labels act = some t) :
    t.link = .ended ending ∧ t.stored = w.stored := by
  cases act with
  | occur event =>
    obtain ⟨hnow, rfl⟩ := occur_cases hstep
    exact ⟨by rw [Watch.after, hended]; rfl, rfl⟩
  | stop =>
    rw [← Option.some.inj hstep]
    exact ⟨hended, rfl⟩
  | other call => exact halone.elim
  | _ =>
    simp only [Watch.step, hended] at hstep
    nomatch hstep

theorem ended_run {ending : Ending} (hended : w.link = .ended ending)
    (h : Reach ⟨(· = w), Watch.step labels⟩ Alone t) : t.stored = w.stored := by
  have hkept : t.link = .ended ending ∧ t.stored = w.stored := by
    refine Reach.invariant (I := fun s => s.link = .ended ending ∧ s.stored = w.stored) ?_ ?_ h
    · rintro s rfl
      exact ⟨hended, rfl⟩
    · intro s act u _ hs halone hstep
      obtain ⟨hlink, hstored⟩ := ended_step hs.1 halone hstep
      exact ⟨hlink, hstored.trans hs.2⟩
  exact hkept.2

end Runs

section Samples

instance : ∀ link : Link, Decidable link.CaughtUp
  | .streaming [] => isTrue trivial
  | .streaming (_ :: _) | .connecting | .ended _ => isFalse id

instance (w : Watch) : ∀ act, Decidable (Resumable w act)
  | .eof | .drop => inferInstanceAs (Decidable (w.cursor ≠ none))
  | .occur _ | .accept | .refuse | .line _ | .junk | .stop | .leave | .interrupt | .other _ =>
    isTrue trivial

def sampleLabels : Labels :=
  ⟨"local", "docker"⟩

def sampleEnd (containerId : String) (n : Nat) : Event where
  message := {
    type := some "container"
    action := "die"
    containerId := containerId
    name := "job-" ++ containerId
    exitCode := some 0
    timeNano := none
    time := some (1700000042 + n)
    payload := "" }
  second := 1700000042 + n
  clock := rfl

def idleWatch : Watch :=
  ⟨⟨.empty, 0⟩, ⟨[], 1700000000, List.Pairwise.nil, nofun⟩, .connecting, none, false, false, []⟩

def calm (n : Nat) : Weather :=
  ⟨0, ulidAt n, none, sound, fun _ => .ok ()⟩

/-- The stream is lost between two ends, and the first is replayed with the second. -/
def sampleDrop : List Act :=
  [.accept, .occur (sampleEnd "a" 0), .line (calm 1), .drop, .occur (sampleEnd "b" 1), .accept,
    .line (calm 2), .line (calm 3)]

/-- The Engine is being restarted when the watcher asks for a new stream. -/
def sampleRestart : List Act :=
  [.accept, .occur (sampleEnd "a" 0), .line (calm 1), .drop, .occur (sampleEnd "b" 1), .refuse]

def Link.Raised : Link → Prop
  | .ended .raised => True
  | _ => False

instance : ∀ link : Link, Decidable link.Raised
  | .ended .raised => isTrue trivial
  | .ended (.returned _) | .connecting | .streaming _ => isFalse id

theorem Link.Raised.eq {link : Link} (h : link.Raised) : link = .ended .raised := by
  unfold Link.Raised at h
  split at h
  · rfl
  · exact h.elim

end Samples

end Waitbus.DockerWatch
