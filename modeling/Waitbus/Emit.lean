import Waitbus.Dedup
import Waitbus.EventStore
import Waitbus.Runs

/-! The producers' side: `emit` and `emit_batch`. A call works on its own view of the table, which
the commit makes the table; every call that fails before has changed nothing. Over a run, what is
stored are the rows of the calls that committed, each delivery id where it came first. -/

namespace Waitbus.Emit
open Python FrameCodec OrderedLog EventStore Dedup Runs

section Calls

/-- What the iteration over a batch yields: an event, with the id stamped on it and the error of its
statement, or the error of the iteration itself. -/
inductive Item where
  | event (event : EventInsert) (eventId : Ulid) (fault : Option PyExc)
  | raised (exc : PyExc)

/-- The errors of opening the connection and of `conn.commit()`. -/
structure Session where
  connect : Option PyExc
  commit : Option PyExc

/-- `vanished` is the RuntimeError of `_read_back`. -/
inductive Failure where
  | raised (exc : PyExc)
  | vanished

structure Bus where
  store : Store
  rings : Nat

/-- How a call leaves the bus, whether its commit took place, and what it returned or raised. -/
structure Outcome (ρ : Type) where
  bus : Bus
  committed : Bool
  returned : Except Failure ρ

/-- `insert_event(conn, event, commit=False)` on what the connection sees. -/
def insertEvent (view : Store) (event : EventInsert) (eventId : Ulid) (fault : Option PyExc) :
    Except PyExc (Bool × Store) :=
  match view.insertEvent event eventId, fault with
  | .ok result, none => .ok result
  | .ok _, some exc => .error exc
  | .error exc, _ => .error exc

def emitLoop (inserted : Nat) (view : Store) : List Item → Except PyExc (Nat × Store)
  | [] => .ok (inserted, view)
  | .raised exc :: _ => .error exc
  | .event event eventId fault :: rest =>
    match insertEvent view event eventId fault with
    | .error exc => .error exc
    | .ok (new, view) => emitLoop (if new then inserted + 1 else inserted) view rest

/-- Connect, run the body and commit: what the body made of the table, unless something failed. -/
def transact {ρ : Type} (session : Session) (body : Except PyExc (ρ × Store)) :
    Except PyExc (ρ × Store) :=
  match session.connect, body, session.commit with
  | some exc, _, _ => .error exc
  | none, .error exc, _ => .error exc
  | none, .ok _, some exc => .error exc
  | none, .ok result, none => .ok result

structure EmitResult where
  inserted : Bool
  event : List (String × SqlValue)

/-- `_read_back`; `convert` is whether `msgspec.convert` takes the row for an event. -/
def readBack (store : Store) (deliveryId : String) (convert : Row → Except PyExc Unit) :
    Except Failure (List (String × SqlValue)) :=
  match store.rows.find? (·.deliveryId = deliveryId) with
  | none => .error .vanished
  | some row =>
    match convert row with
    | .error exc => .error (.raised exc)
    | .ok () => .ok row.columns

/-- `emit`; the doorbell is rung between the commit and the reading back. -/
def emit (bus : Bus) (event : EventInsert) (eventId : Ulid) (fault : Option PyExc)
    (session : Session) (convert : Row → Except PyExc Unit) : Outcome EmitResult :=
  match transact session (insertEvent bus.store event eventId fault) with
  | .error exc => ⟨bus, false, .error (.raised exc)⟩
  | .ok (inserted, store) =>
    ⟨⟨store, if inserted then bus.rings + 1 else bus.rings⟩, true,
      (readBack store event.deliveryId convert).map fun columns => ⟨inserted, columns⟩⟩

def emitBatch (bus : Bus) (items : List Item) (session : Session) : Outcome Nat :=
  match transact session (emitLoop 0 bus.store items) with
  | .error exc => ⟨bus, false, .error (.raised exc)⟩
  | .ok (inserted, store) =>
    ⟨⟨store, if inserted ≠ 0 then bus.rings + 1 else bus.rings⟩, true, .ok inserted⟩

inductive Call where
  | emit (event : EventInsert) (eventId : Ulid) (fault : Option PyExc) (session : Session)
      (convert : Row → Except PyExc Unit)
  | batch (items : List Item) (session : Session)

/-- A call's outcome; of `emit`'s result only the flag, as a count. -/
def run (bus : Bus) : Call → Outcome Nat
  | .emit event eventId fault session convert =>
    let outcome := emit bus event eventId fault session convert
    ⟨outcome.bus, outcome.committed, outcome.returned.map (·.inserted.toNat)⟩
  | .batch items session => emitBatch bus items session

def Call.items : Call → List Item
  | .emit event eventId fault _ _ => [.event event eventId fault]
  | .batch items _ => items

def Item.write : Item → Option (EventInsert × Ulid)
  | .event e id _ => some (e, id)
  | .raised _ => none

def writes (items : List Item) : List (EventInsert × Ulid) :=
  items.filterMap Item.write

@[simp]
theorem writes_event (event : EventInsert) (eventId : Ulid) (fault : Option PyExc)
    (rest : List Item) :
    writes (.event event eventId fault :: rest) = (event, eventId) :: writes rest :=
  rfl

def rowsOf (items : List Item) : List Row :=
  (writes items).filterMap fun w => (w.1.row w.2).toOption

def Call.events (c : Call) : List EventInsert :=
  (writes c.items).map (·.1)

/-- `_ulid.new` returns no id twice, and none that the table has. -/
def Fresh (store : Store) (items : List Item) : Prop :=
  ((writes items).map (·.2)).Nodup ∧
    ∀ id ∈ (writes items).map (·.2), id ∉ store.rows.filterMap (·.eventId)

instance (store : Store) (items : List Item) : Decidable (Fresh store items) :=
  inferInstanceAs (Decidable (_ ∧ _))

/-- The bus, with the rows there at the start and the calls that have committed since. -/
structure State where
  bus : Bus
  origin : List Row
  committed : List Call

def emitting : System State Call where
  init s := s.origin = s.bus.store.rows ∧ s.committed = []
  step s c :=
    let outcome := run s.bus c
    some { s with
      bus := outcome.bus
      committed := if outcome.committed then s.committed ++ [c] else s.committed }

end Calls

section Contents

def content (row : Row) : Row :=
  { row with seq := 0 }

def contents (store : Store) : List Row :=
  store.rows.map content

theorem keys_contents (store : Store) :
    (contents store).map (·.deliveryId) = store.rows.map (·.deliveryId) := by
  rw [contents, List.map_map]
  rfl

variable {view t : Store} {event : EventInsert} {eventId : Ulid} {fault : Option PyExc}
  {new : Bool}

theorem insertEvent_returns (h : insertEvent view event eventId fault = .ok (new, t)) :
    view.insertEvent event eventId = .ok (new, t) := by
  unfold insertEvent at h
  split at h
  · rename_i hinsert
    rw [hinsert, Except.ok.inj h]
  · nomatch h
  · nomatch h

theorem insertEvent_contents (h : insertEvent view event eventId fault = .ok (new, t))
    (hid : eventId ∉ view.rows.filterMap (·.eventId)) : ∃ row, event.row eventId = .ok row ∧
      contents t = addNew (·.deliveryId) (contents view) row := by
  obtain ⟨row, hrow, -, -, hrows⟩ := insertEvent_rows (insertEvent_returns h) hid
  refine ⟨row, hrow, ?_⟩
  have hseq : content { row with seq := view.lastSeq + 1 } = row := by
    obtain ⟨runId, receivedAt, jobId, parentRunId, -, -, -, -, rfl⟩ := event_row hrow
    rfl
  rw [addNew, keys_contents, contents, hrows]
  split
  · rfl
  · rw [List.map_append, List.map_singleton, hseq, contents]

theorem Fresh.tail {rest : List Item}
    (fresh : Fresh view (.event event eventId fault :: rest))
    (h : insertEvent view event eventId fault = .ok (new, t)) : Fresh t rest := by
  obtain ⟨hnodup, hids⟩ := fresh
  rw [writes_event, List.map_cons] at hnodup hids
  rw [List.nodup_cons] at hnodup
  refine ⟨hnodup.2, ?_⟩
  intro id hid hstored
  obtain ⟨row, -, hevent, -, hrows⟩ :=
    insertEvent_rows (insertEvent_returns h) (hids eventId (List.mem_cons_self ..))
  rw [hrows] at hstored
  split at hstored
  · exact hids id (List.mem_cons_of_mem _ hid) hstored
  · rw [List.filterMap_append, List.mem_append] at hstored
    cases hstored with
    | inl hold => exact hids id (List.mem_cons_of_mem _ hid) hold
    | inr hnew =>
      rw [List.filterMap_cons_some (by exact hevent), List.filterMap_nil,
        List.mem_singleton] at hnew
      exact hnodup.1 (hnew ▸ hid)

theorem emitLoop_length {items : List Item} {n m : Nat}
    (h : emitLoop n view items = .ok (m, t)) : m + view.rows.length = n + t.rows.length := by
  induction items generalizing n view with
  | nil =>
    obtain ⟨rfl, rfl⟩ := Prod.mk.inj (Except.ok.inj h)
    rfl
  | cons item rest ih =>
    cases item with
    | raised exc => nomatch h
    | event event eventId fault =>
      rw [emitLoop] at h
      split at h
      · nomatch h
      · rename_i new u hinsert
        have hlength := insertEvent_length (insertEvent_returns hinsert)
        have hcount := ih h
        cases new with
        | false =>
          simp only [Bool.toNat_false, Bool.false_eq_true, ↓reduceIte] at hlength hcount
          omega
        | true =>
          simp only [Bool.toNat_true, ↓reduceIte] at hlength hcount
          omega

theorem emitLoop_contents {items : List Item} {n m : Nat} (fresh : Fresh view items)
    (h : emitLoop n view items = .ok (m, t)) :
    contents t = (rowsOf items).foldl (addNew (·.deliveryId)) (contents view) := by
  induction items generalizing n view with
  | nil => rw [(Prod.mk.inj (Except.ok.inj h)).2, rowsOf, writes, List.filterMap_nil,
      List.filterMap_nil, List.foldl_nil]
  | cons item rest ih =>
    cases item with
    | raised exc => cases h
    | event event eventId fault =>
      rw [emitLoop] at h
      split at h
      · cases h
      · rename_i new u hinsert
        have hid : eventId ∉ view.rows.filterMap (·.eventId) := by
          apply fresh.2
          rw [writes_event, List.map_cons]
          exact List.mem_cons_self ..
        obtain ⟨row, hrow, hcontents⟩ := insertEvent_contents hinsert hid
        rw [ih (fresh.tail hinsert) h, hcontents, rowsOf, rowsOf, writes_event,
          List.filterMap_cons_some (by rw [hrow]; rfl), List.foldl_cons]

theorem emitLoop_known {items : List Item} {n m : Nat}
    (hknown : ∀ w ∈ writes items, w.1.deliveryId ∈ view.rows.map (·.deliveryId))
    (h : emitLoop n view items = .ok (m, t)) : t = view := by
  induction items generalizing n with
  | nil => exact (Prod.mk.inj (Except.ok.inj h)).2.symm
  | cons item rest ih =>
    cases item with
    | raised exc => nomatch h
    | event event eventId fault =>
      rw [writes_event] at hknown
      rw [emitLoop] at h
      split at h
      · nomatch h
      · rename_i new u hinsert
        have hinsert := insertEvent_returns hinsert
        have hold := insertEvent_known hinsert (hknown _ (List.mem_cons_self ..))
        have hsame := insertEvent_ignored new hinsert hold
        rw [hsame] at h
        exact ih (fun w hw => hknown w (List.mem_cons_of_mem _ hw)) h

end Contents

section Outcomes

variable {bus : Bus}

theorem transact_ok {ρ : Type} {session : Session} {body : Except PyExc (ρ × Store)}
    {result : ρ × Store} (h : transact session body = .ok result) : body = .ok result := by
  unfold transact at h
  split at h
  · nomatch h
  · nomatch h
  · nomatch h
  · rw [Except.ok.inj h]

/-- A call either commits what the loop over its items comes to, and if it returns then the count,
or it raises and leaves the bus as it was. -/
theorem run_cases (bus : Bus) (c : Call) :
    ((run bus c).committed = false ∧ (run bus c).bus = bus ∧
        ∃ failure, (run bus c).returned = .error failure) ∨
      ∃ n store, emitLoop 0 bus.store c.items = .ok (n, store) ∧ (run bus c).committed = true ∧
        (run bus c).bus = ⟨store, if n = 0 then bus.rings else bus.rings + 1⟩ ∧
        ∀ m, (run bus c).returned = .ok m → m = n := by
  cases c with
  | emit event eventId fault session convert =>
    simp only [run, emit, Call.items, emitLoop]
    cases htransact : transact session (insertEvent bus.store event eventId fault) with
    | error exc => exact .inl ⟨rfl, rfl, _, rfl⟩
    | ok result =>
      obtain ⟨new, store⟩ := result
      rw [transact_ok htransact]
      refine .inr ⟨new.toNat, store, ?_, rfl, ?_, ?_⟩
      · cases new with
        | false => rfl
        | true => rfl
      · cases new with
        | false => rfl
        | true => rfl
      · intro m hm
        dsimp only at hm
        cases hread : readBack store event.deliveryId convert with
        | error failure =>
          rw [hread] at hm
          nomatch hm
        | ok columns =>
          rw [hread] at hm
          exact (Except.ok.inj hm).symm
  | batch items session =>
    simp only [run, emitBatch, Call.items]
    cases htransact : transact session (emitLoop 0 bus.store items) with
    | error exc => exact .inl ⟨rfl, rfl, _, rfl⟩
    | ok result =>
      obtain ⟨n, store⟩ := result
      refine .inr ⟨n, store, transact_ok htransact, rfl, ?_, fun m hm => (Except.ok.inj hm).symm⟩
      dsimp only
      rw [ite_not]

theorem emitBatch_error {items : List Item} {session : Session} {failure : Failure}
    (h : (emitBatch bus items session).returned = .error failure) :
    (emitBatch bus items session).bus = bus := by
  rw [emitBatch] at h ⊢
  split
  · rfl
  · rename_i n store htransact
    rw [htransact] at h
    nomatch h

theorem run_rings (bus : Bus) (c : Call) : (run bus c).bus.rings =
    if (run bus c).bus.store.rows.length = bus.store.rows.length then bus.rings
    else bus.rings + 1 := by
  cases run_cases bus c with
  | inl hfailed => rw [hfailed.2.1, if_pos rfl]
  | inr hdone =>
    obtain ⟨n, store, hloop, -, hbus, -⟩ := hdone
    have hlength := emitLoop_length hloop
    rw [hbus]
    dsimp only
    by_cases hnone : n = 0
    · rw [if_pos hnone, if_pos (by omega)]
    · rw [if_neg hnone, if_neg (by omega)]

theorem emit_found {event : EventInsert} {eventId : Ulid} {fault : Option PyExc}
    {session : Session} {convert : Row → Except PyExc Unit}
    (hid : eventId ∉ bus.store.rows.filterMap (·.eventId)) :
    (emit bus event eventId fault session convert).returned ≠ .error .vanished := by
  rw [emit]
  cases htransact : transact session (insertEvent bus.store event eventId fault) with
  | error exc => simp
  | ok result =>
    obtain ⟨new, store⟩ := result
    obtain ⟨row, -, -, hkey, hrows⟩ :=
      insertEvent_rows (insertEvent_returns (transact_ok htransact)) hid
    have hstored : event.deliveryId ∈ store.rows.map (·.deliveryId) := by
      rw [hrows, ← hkey]
      split
      · assumption
      · rw [List.map_append]
        exact List.mem_append_right _ (List.mem_singleton_self _)
    dsimp only
    rw [readBack]
    split
    · rename_i hnone
      obtain ⟨stored, hmem, hsame⟩ := List.mem_map.mp hstored
      exact absurd (decide_eq_true hsame) (List.find?_eq_none.mp hnone stored hmem)
    · split
      · simp [Except.map]
      · simp [Except.map]

end Outcomes

section Committed

/-- The rows of the calls that have committed, in their order, behind those of the start. -/
def State.log (s : State) : List Row :=
  s.origin.map content ++ s.committed.flatMap fun c => rowsOf c.items

def newlyAdded (store : Store) (c : Call) : Finset String :=
  ((rowsOf c.items).map (·.deliveryId)).toFinset \ (store.rows.map (·.deliveryId)).toFinset

def StampsFresh (s : State) (c : Call) : Prop :=
  Fresh s.bus.store c.items

/-- What is stored is what a log without repetitions holds of the committed rows. -/
structure Deduplicated (s : State) : Prop where
  contents : contents s.bus.store = firsts (·.deliveryId) s.log
  known : ∀ c ∈ s.committed, ∀ event ∈ c.events,
    event.deliveryId ∈ s.bus.store.rows.map (·.deliveryId)

theorem mem_rowsOf_of_loop {items : List Item} {view t : Store} {n m : Nat}
    (h : emitLoop n view items = .ok (m, t)) {w : EventInsert × Ulid} (hw : w ∈ writes items) :
    ∃ row ∈ rowsOf items, row.deliveryId = w.1.deliveryId := by
  induction items generalizing n view with
  | nil => nomatch hw
  | cons item rest ih =>
    cases item with
    | raised exc => nomatch h
    | event event eventId fault =>
      rw [emitLoop] at h
      split at h
      · nomatch h
      · rename_i new u hinsert
        obtain ⟨row, hrow, -⟩ := insertEvent_ok (insertEvent_returns hinsert)
        rw [rowsOf, writes_event, List.filterMap_cons_some (by rw [hrow]; rfl)]
        rw [writes_event, List.mem_cons] at hw
        cases hw with
        | inl hhead =>
          refine ⟨row, List.mem_cons_self .., ?_⟩
          obtain ⟨runId, receivedAt, jobId, parentRunId, -, -, -, -, rfl⟩ := event_row hrow
          rw [hhead]
        | inr htail =>
          obtain ⟨other, hother, hkey⟩ := ih h htail
          exact ⟨other, List.mem_cons_of_mem _ hother, hkey⟩

variable {s t : State}

theorem Deduplicated.keys (h : Deduplicated s) {id : String} :
    id ∈ s.bus.store.rows.map (·.deliveryId) ↔ id ∈ s.log.map (·.deliveryId) := by
  rw [← keys_contents, h.contents, mem_keys_firsts]

theorem deduplicated_start (h : emitting.init s) : Deduplicated s := by
  obtain ⟨horigin, hcommitted⟩ := h
  have hlog : s.log = contents s.bus.store := by
    rw [State.log, horigin, hcommitted, List.flatMap_nil, List.append_nil, contents]
  constructor
  · rw [hlog, firsts_of_nodup]
    rw [keys_contents]
    exact s.bus.store.deliveryIds
  · intro c hc
    rw [hcommitted] at hc
    nomatch hc

theorem Deduplicated.count (h : Deduplicated s) {c : Call} (fresh : StampsFresh s c) {n : Nat}
    {store : Store} (hloop : emitLoop 0 s.bus.store c.items = .ok (n, store)) :
    n = (newlyAdded s.bus.store c).card := by
  have hcontents := emitLoop_contents fresh hloop
  have hcount := emitLoop_length hloop
  have hlength := length_firsts_append (·.deliveryId) s.log (rowsOf c.items)
  rw [firsts_append, ← h.contents, ← hcontents, Emit.contents, Emit.contents,
    List.length_map, List.length_map] at hlength
  have hkeys : (s.log.map (·.deliveryId)).toFinset =
      (s.bus.store.rows.map (·.deliveryId)).toFinset := by
    ext id
    rw [List.mem_toFinset, List.mem_toFinset, h.keys]
  rw [newlyAdded, ← hkeys]
  omega

theorem Deduplicated.step (h : Deduplicated s) {c : Call} (fresh : StampsFresh s c)
    (hstep : emitting.step s c = some t) : Deduplicated t := by
  obtain rfl := Option.some.inj hstep
  cases run_cases s.bus c with
  | inl hfailed =>
    obtain ⟨hcommitted, hbus, -⟩ := hfailed
    simp only [hcommitted, hbus, Bool.false_eq_true, ↓reduceIte]
    exact h
  | inr hdone =>
    obtain ⟨n, store, hloop, hcommitted, hbus, -⟩ := hdone
    have hcontents := emitLoop_contents fresh hloop
    have hfirsts : Emit.contents store = firsts (·.deliveryId)
        (s.log ++ rowsOf c.items) := by
      rw [hcontents, h.contents, firsts_append]
    constructor
    · simp only [hcommitted, ↓reduceIte, hbus, State.log, List.flatMap_append,
        List.flatMap_singleton]
      rw [← List.append_assoc]
      exact hfirsts
    · simp only [hcommitted, ↓reduceIte, hbus]
      intro old hold event hevent
      rw [← keys_contents, hfirsts, mem_keys_firsts, List.map_append, List.mem_append]
      cases List.mem_append.mp hold with
      | inl hbefore => exact .inl (h.keys.mp (h.known old hbefore event hevent))
      | inr hnow =>
        rw [List.mem_singleton.mp hnow] at hevent
        obtain ⟨w, hw, rfl⟩ := List.mem_map.mp hevent
        obtain ⟨row, hrow, hkey⟩ := mem_rowsOf_of_loop hloop hw
        exact .inr (List.mem_map.mpr ⟨row, hrow, hkey⟩)

theorem deduplicated_reach (h : Reach emitting StampsFresh s) : Deduplicated s :=
  h.invariant (fun _ => deduplicated_start) fun _ _ _ _ hs fresh hstep => hs.step fresh hstep

theorem Deduplicated.repeated (h : Deduplicated s) {c again : Call} (hc : c ∈ s.committed)
    (hsame : again.events ⊆ c.events) : (run s.bus again).bus.store = s.bus.store := by
  cases run_cases s.bus again with
  | inl hfailed => rw [hfailed.2.1]
  | inr hdone =>
    obtain ⟨n, store, hloop, -, hbus, -⟩ := hdone
    rw [hbus]
    refine emitLoop_known ?_ hloop
    intro w hw
    exact h.known c hc w.1 (hsame (List.mem_map_of_mem hw))

theorem run_keys {bus : Bus} (c : Call) (fresh : Fresh bus.store c.items) :
    bus.store.rows.map (·.deliveryId) ⊆ (run bus c).bus.store.rows.map (·.deliveryId) ∧
      ∀ count, (run bus c).returned = .ok count → ∀ event ∈ c.events,
        event.deliveryId ∈ (run bus c).bus.store.rows.map (·.deliveryId) := by
  rcases run_cases bus c with ⟨-, hbus, failure, hfailed⟩ | ⟨n, store, hloop, -, hbus, -⟩
  · rw [hbus, hfailed]
    exact ⟨List.Subset.refl _, nofun⟩
  · have hcontents := emitLoop_contents fresh hloop
    rw [hbus, ← keys_contents, ← keys_contents, hcontents]
    refine ⟨List.map_subset _ (subset_foldl_addNew _ _), fun _ _ event hevent => ?_⟩
    obtain ⟨w, hw, rfl⟩ := List.mem_map.mp hevent
    obtain ⟨row, hrow, hkey⟩ := mem_rowsOf_of_loop hloop hw
    rw [← hkey]
    exact mem_keys_foldl_addNew.mpr (.inr (List.mem_map_of_mem hrow))

end Committed

section Idempotence

def sound : Session :=
  ⟨none, none⟩

def sampleItem (key id : Nat) : Item :=
  .event (sampleEvent key) (ulidAt id) none

/-- A batch with a repetition, one that fails at its third item, then an event that is known. -/
def sampleCalls : List Call :=
  [.batch [sampleItem 1 1, sampleItem 1 2, sampleItem 2 3] sound,
    .batch [sampleItem 3 4, sampleItem 4 5, .raised .valueError] sound,
    .emit (sampleEvent 2) (ulidAt 6) none sound fun _ => .ok ()]

instance (s : State) (c : Call) : Decidable (StampsFresh s c) :=
  inferInstanceAs (Decidable (Fresh s.bus.store c.items))

end Idempotence

end Waitbus.Emit
