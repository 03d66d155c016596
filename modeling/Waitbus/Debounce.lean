import Waitbus.Emit

/-! The debouncer of the filesystem source. The observer's thread adds inserts, the debouncer's own
thread takes what is pending every half second and emits it, and `stop` does so a last time. A batch
whose emit fails is gone, and `stop` may end while the other thread still has one in hand. -/

namespace Waitbus.Debounce
open Python EventStore Runs Compaction Emit

section Model

/-- The dict of the inserts that wait, in the order of its keys. -/
structure Pending where
  inserts : List EventInsert
  distinct : (inserts.map (·.deliveryId)).Nodup

def Pending.keys (p : Pending) : List String :=
  p.inserts.map (·.deliveryId)

def Pending.clear : Pending :=
  ⟨[], List.nodup_nil⟩

def replaceKey (insert x : EventInsert) : EventInsert :=
  if x.deliveryId = insert.deliveryId then insert else x

theorem replaceKey_deliveryId (insert x : EventInsert) :
    (replaceKey insert x).deliveryId = x.deliveryId := by
  rw [replaceKey]
  split
  · rename_i h
    exact h.symm
  · rfl

/-- `self._pending[insert.delivery_id] = insert`. -/
def Pending.set (p : Pending) (insert : EventInsert) : Pending :=
  if h : insert.deliveryId ∈ p.keys then
    ⟨p.inserts.map (replaceKey insert), by
      rw [List.map_map, Function.comp_def]
      simp only [replaceKey_deliveryId]
      exact p.distinct⟩
  else
    ⟨p.inserts ++ [insert], by
      rw [List.map_append]
      exact p.distinct.append (List.nodup_singleton _) (by simpa [Pending.keys] using h)⟩

/-- The debouncer's own thread: not started, in `wait`, about to flush, emitting a batch, over. -/
inductive Flusher where
  | unstarted
  | waiting
  | woken
  | emitting (batch : List EventInsert)
  | over

/-- The thread that calls `stop`. -/
inductive Stopper where
  | idle
  | joining
  | flushing
  | emitting (batch : List EventInsert)

def Flusher.batch : Flusher → List EventInsert
  | .emitting batch => batch
  | _ => []

def Stopper.batch : Stopper → List EventInsert
  | .emitting batch => batch
  | _ => []

/-- The debouncer and the bus it emits to. Behind `stopper` is what has been added so far, what had
been when `stop` was last called, and what had been at the calls that returned. -/
structure Debouncer where
  bus : Bus
  pending : Pending
  stopping : Bool
  flusher : Flusher
  stopper : Stopper
  added : List EventInsert
  due : List EventInsert
  settled : List EventInsert

/-- The id of each insert of a batch, and the error of its statement. -/
abbrev Stamps := List (Ulid × Option PyExc)

def itemsOf (batch : List EventInsert) (stamps : Stamps) : List Emit.Item :=
  batch.zipWith (fun insert stamp => .event insert stamp.1 stamp.2) stamps

/-- `emit_batch` of a batch, which is a list and so raises nothing itself. -/
def Debouncer.send (d : Debouncer) (batch : List EventInsert) (stamps : Stamps)
    (session : Session) : Option (Outcome Nat) :=
  if stamps.length = batch.length ∧ Fresh d.bus.store (itemsOf batch stamps) then
    some (emitBatch d.bus (itemsOf batch stamps) session)
  else none

inductive Act where
  | start
  | add (insert : EventInsert)
  | wake
  | leave
  | swap
  | emit (stamps : Stamps) (session : Session)
  | stop
  | join
  | drain
  | commit (stamps : Stamps) (session : Session)
  | other (call : Call)

def Debouncer.step (d : Debouncer) : Act → Option Debouncer
  | .start =>
    match d.flusher with
    | .unstarted => some { d with flusher := .waiting }
    | _ => none
  | .add insert =>
    some { d with pending := d.pending.set insert, added := d.added ++ [insert] }
  | .wake =>
    match d.flusher, d.stopping with
    | .waiting, false => some { d with flusher := .woken }
    | _, _ => none
  | .leave =>
    match d.flusher, d.stopping with
    | .waiting, true => some { d with flusher := .over }
    | _, _ => none
  | .swap =>
    match d.flusher with
    | .woken =>
      if d.pending.inserts = [] then some { d with flusher := .waiting }
      else some { d with flusher := .emitting d.pending.inserts, pending := .clear }
    | _ => none
  | .emit stamps session =>
    match d.flusher with
    | .emitting batch => (d.send batch stamps session).map fun outcome =>
      match outcome.returned with
      | .ok _ => { d with bus := outcome.bus, flusher := .waiting }
      -- The exception ends the thread.
      | .error _ => { d with bus := outcome.bus, flusher := .over }
    | _ => none
  | .stop =>
    match d.stopper with
    | .idle => some { d with stopping := true, stopper := .joining, due := d.added }
    | _ => none
  -- The join comes back when the thread is over, was never started, or five seconds have passed.
  | .join =>
    match d.stopper with
    | .joining => some { d with stopper := .flushing }
    | _ => none
  | .drain =>
    match d.stopper with
    | .flushing =>
      if d.pending.inserts = [] then
        some { d with stopper := .idle, settled := d.settled ++ d.due }
      else some { d with stopper := .emitting d.pending.inserts, pending := .clear }
    | _ => none
  | .commit stamps session =>
    match d.stopper with
    | .emitting batch => (d.send batch stamps session).map fun outcome =>
      match outcome.returned with
      | .ok _ =>
        { d with bus := outcome.bus, stopper := .idle, settled := d.settled ++ d.due }
      | .error _ => { d with bus := outcome.bus, stopper := .idle }
    | _ => none
  | .other call => if Fresh d.bus.store call.items then some { d with bus := (run d.bus call).bus }
    else none

def debouncing : System Debouncer Act where
  init d := d.pending.inserts = [] ∧ d.stopping = false ∧ d.flusher = .unstarted ∧
    d.stopper = .idle ∧ d.added = [] ∧ d.settled = []
  step := Debouncer.step

def Debouncer.stored (d : Debouncer) : List String :=
  d.bus.store.rows.map (·.deliveryId)

/-- The delivery ids of the batches that the two threads have in hand. -/
def Debouncer.inFlight (d : Debouncer) : List String :=
  (d.flusher.batch ++ d.stopper.batch).map (·.deliveryId)

/-- What was added is pending, on its way or stored, what is pending is the latest under its id, and
what was added before a `stop` that returned is stored. -/
structure LosesNothing (d : Debouncer) : Prop where
  kept : ∀ insert ∈ d.added, insert.deliveryId ∈ d.pending.keys ∨
    insert.deliveryId ∈ d.inFlight ∨ insert.deliveryId ∈ d.stored
  latest : ∀ insert ∈ d.pending.inserts,
    newest (some ·.deliveryId) insert.deliveryId d.added = some insert
  settled : ∀ insert ∈ d.settled, insert.deliveryId ∈ d.stored

/-- No emit fails, and when the flush of `stop` ends the other thread has no batch in hand. -/
def Undisturbed (d : Debouncer) : Act → Prop
  | .emit stamps session => ∀ outcome ∈ d.send d.flusher.batch stamps session,
    ∃ count, outcome.returned = .ok count
  | .drain => d.pending.inserts = [] → d.flusher.batch = []
  | .commit stamps session => d.flusher.batch = [] ∧
    ∀ outcome ∈ d.send d.stopper.batch stamps session, ∃ count, outcome.returned = .ok count
  | _ => True

end Model

section Emits

variable {d : Debouncer} {batch : List EventInsert} {stamps : Stamps}
  {session : Session} {outcome : Outcome Nat}

theorem writes_itemsOf (h : stamps.length = batch.length) :
    (writes (itemsOf batch stamps)).map (·.1) = batch := by
  induction batch generalizing stamps with
  | nil => rfl
  | cons insert rest ih =>
    cases stamps with
    | nil => nomatch h
    | cons stamp stamps =>
      rw [itemsOf, List.zipWith_cons_cons, writes_event, List.map_cons]
      exact congrArg (insert :: ·) (ih (Nat.succ.inj h))

theorem send_stored (h : d.send batch stamps session = some outcome) :
    d.stored ⊆ outcome.bus.store.rows.map (·.deliveryId) ∧
      ∀ count, outcome.returned = .ok count → ∀ insert ∈ batch,
        insert.deliveryId ∈ outcome.bus.store.rows.map (·.deliveryId) := by
  obtain ⟨⟨hlength, hfresh⟩, hsent⟩ := Option.ite_none_right_eq_some.mp h
  obtain rfl := Option.some.inj hsent
  obtain ⟨hkept, hstored⟩ := run_keys (.batch (itemsOf batch stamps) session) hfresh
  refine ⟨hkept, fun count hcount insert hinsert => hstored count hcount insert ?_⟩
  rw [Call.events, Call.items, writes_itemsOf hlength]
  exact hinsert

end Emits

section Pendings

variable {p : Pending} {insert : EventInsert} {added : List EventInsert}

theorem mem_keys_set {key : String} : key ∈ (p.set insert).keys ↔
    key ∈ p.keys ∨ key = insert.deliveryId := by
  rw [Pending.set]
  split
  · rename_i hknown
    rw [Pending.keys, List.map_map, Function.comp_def]
    simp only [replaceKey_deliveryId]
    exact ⟨.inl, fun h => h.elim id fun heq => heq ▸ hknown⟩
  · rw [Pending.keys, List.map_append, List.mem_append, List.map_singleton, List.mem_singleton]
    rfl

theorem latest_set
    (h : ∀ x ∈ p.inserts, newest (some ·.deliveryId) x.deliveryId added = some x) :
    ∀ x ∈ (p.set insert).inserts,
      newest (some ·.deliveryId) x.deliveryId (added ++ [insert]) = some x := by
  have hself : newest (some ·.deliveryId) insert.deliveryId (added ++ [insert]) = some insert := by
    rw [newest_append]
    simp [newest]
  have hother : ∀ x ∈ p.inserts, x.deliveryId ≠ insert.deliveryId →
      newest (some ·.deliveryId) x.deliveryId (added ++ [insert]) = some x := by
    intro x hx hne
    rw [newest_append, h x hx]
    simp [newest, hne.symm]
  intro x hx
  rw [Pending.set] at hx
  split at hx
  · obtain ⟨y, hy, rfl⟩ := List.mem_map.mp hx
    rw [replaceKey]
    split
    · exact hself
    · rename_i hne
      exact hother y hy hne
  · rename_i hnew
    rcases List.mem_append.mp hx with hx | hx
    · refine hother x hx fun heq => hnew ?_
      rw [← heq]
      exact List.mem_map_of_mem hx
    · rw [List.mem_singleton.mp hx]
      exact hself

end Pendings

section Runs

variable {d t : Debouncer}

/-- What was added before a `stop` that has taken its last batch is on its way or stored. -/
structure Accounted (d : Debouncer) : Prop extends LosesNothing d where
  due : d.stopper ≠ .idle → d.due ⊆ d.added
  claimed : ∀ batch, d.stopper = .emitting batch → ∀ insert ∈ d.due,
    insert.deliveryId ∈ d.inFlight ∨ insert.deliveryId ∈ d.stored

/-- The debouncer as it is where only what the threads are at has changed, but for their batches. -/
theorem Accounted.moved (h : Accounted d) (flusher : Flusher) (stopper : Stopper)
    (hflusher : flusher.batch = d.flusher.batch) (hstopper : stopper.batch = d.stopper.batch)
    (hidle : stopper ≠ .idle → d.stopper ≠ .idle)
    (hemitting : ∀ batch, stopper = .emitting batch → d.stopper = .emitting batch) :
    Accounted { d with flusher, stopper } := by
  have hflight : ({ d with flusher, stopper } : Debouncer).inFlight = d.inFlight := by
    rw [Debouncer.inFlight, Debouncer.inFlight, hflusher, hstopper]
  refine ⟨⟨?_, h.latest, h.settled⟩, fun hne => h.due (hidle hne), ?_⟩
  · rw [hflight]
    exact h.kept
  · intro batch hbatch
    rw [hflight]
    exact h.claimed batch (hemitting batch hbatch)

theorem Accounted.add (h : Accounted d) (insert : EventInsert) :
    Accounted { d with pending := d.pending.set insert, added := d.added ++ [insert] } := by
  refine ⟨⟨fun x hx => ?_, latest_set h.latest, h.settled⟩,
    fun hne => List.Subset.trans (h.due hne) (List.subset_append_left _ _), h.claimed⟩
  rcases List.mem_append.mp hx with hx | hx
  · exact (h.kept x hx).imp_left fun hpending => mem_keys_set.mpr (.inl hpending)
  · rw [List.mem_singleton.mp hx]
    exact .inl (mem_keys_set.mpr (.inr rfl))

theorem Accounted.swap (h : Accounted d) (hflusher : d.flusher.batch = []) :
    Accounted { d with flusher := .emitting d.pending.inserts, pending := .clear } := by
  have hflight : ∀ id ∈ d.inFlight, id ∈ ({ d with
      flusher := .emitting d.pending.inserts, pending := .clear } : Debouncer).inFlight := by
    intro id hid
    rw [Debouncer.inFlight, hflusher, List.nil_append] at hid
    rw [Debouncer.inFlight, List.map_append]
    exact List.mem_append_right _ hid
  refine ⟨⟨fun x hx => ?_, fun x hx => absurd hx List.not_mem_nil, h.settled⟩, h.due,
    fun batch hbatch x hx => ?_⟩
  · rcases h.kept x hx with hpending | hon | hstored
    · refine .inr (.inl ?_)
      rw [Debouncer.inFlight, List.map_append]
      exact List.mem_append_left _ hpending
    · exact .inr (.inl (hflight _ hon))
    · exact .inr (.inr hstored)
  · exact (h.claimed batch hbatch x hx).imp_left (hflight _)

theorem Accounted.drain (h : Accounted d) (hstopper : d.stopper = .flushing) :
    Accounted { d with stopper := .emitting d.pending.inserts, pending := .clear } := by
  have hkept : ∀ x ∈ d.added, x.deliveryId ∈ ({ d with
      stopper := .emitting d.pending.inserts, pending := .clear } : Debouncer).inFlight ∨
      x.deliveryId ∈ d.stored := by
    intro x hx
    rw [Debouncer.inFlight, List.map_append, List.mem_append]
    rcases h.kept x hx with hpending | hon | hstored
    · exact .inl (.inr hpending)
    · have hnone : d.stopper.batch = [] := by
        rw [hstopper]
        rfl
      rw [Debouncer.inFlight, hnone, List.append_nil] at hon
      exact .inl (.inl hon)
    · exact .inr hstored
  have hdue : d.due ⊆ d.added := h.due (by rw [hstopper]; nofun)
  exact ⟨⟨fun x hx => .inr (hkept x hx), fun x hx => absurd hx List.not_mem_nil, h.settled⟩,
    fun _ => hdue, fun batch _ x hx => hkept x (hdue hx)⟩

theorem Accounted.stored (h : Accounted d) (bus : Bus)
    (hstored : d.stored ⊆ bus.store.rows.map (·.deliveryId)) : Accounted { d with bus } :=
  ⟨⟨fun x hx => (h.kept x hx).imp_right fun hx => hx.imp_right fun hx => hstored hx, h.latest,
      fun x hx => hstored (h.settled x hx)⟩,
    h.due, fun batch hbatch x hx => (h.claimed batch hbatch x hx).imp_right fun hx => hstored hx⟩

theorem Accounted.emitted (h : Accounted d)
    (hbatch : ∀ x ∈ d.flusher.batch, x.deliveryId ∈ d.stored) :
    Accounted { d with flusher := .waiting } := by
  have hflight : ∀ id ∈ d.inFlight, id ∈ ({ d with flusher := .waiting } : Debouncer).inFlight ∨
      id ∈ d.stored := by
    intro id hid
    rw [Debouncer.inFlight, List.map_append, List.mem_append] at hid
    rcases hid with hid | hid
    · obtain ⟨x, hx, rfl⟩ := List.mem_map.mp hid
      exact .inr (hbatch x hx)
    · exact .inl hid
  refine ⟨⟨fun x hx => ?_, h.latest, h.settled⟩, h.due, fun batch hbatch x hx => ?_⟩
  · rcases h.kept x hx with hpending | hon | hstored
    · exact .inl hpending
    · exact .inr (hflight _ hon)
    · exact .inr (.inr hstored)
  · exact (h.claimed batch hbatch x hx).elim (hflight _) .inr

theorem Accounted.returned (h : Accounted d) (hflight : ∀ id ∈ d.inFlight, id ∈ d.stored)
    (hdue : ∀ x ∈ d.due, x.deliveryId ∈ d.stored) :
    Accounted { d with stopper := .idle, settled := d.settled ++ d.due } := by
  refine ⟨⟨fun x hx => ?_, h.latest, fun x hx => ?_⟩, fun hne => absurd rfl hne, nofun⟩
  · rcases h.kept x hx with hpending | hon | hold
    · exact .inl hpending
    · exact .inr (.inr (hflight _ hon))
    · exact .inr (.inr hold)
  · exact (List.mem_append.mp hx).elim (h.settled x) (hdue x)

theorem Accounted.step (h : Accounted d) {a : Act} (hok : Undisturbed d a)
    (hstep : d.step a = some t) : Accounted t := by
  cases a with
  | start =>
    rw [Debouncer.step] at hstep
    split at hstep
    · rename_i hflusher
      obtain rfl := Option.some.inj hstep
      exact h.moved .waiting d.stopper (by rw [hflusher]; rfl) rfl id fun _ => id
    · nomatch hstep
  | add insert =>
    obtain rfl := Option.some.inj hstep
    exact h.add insert
  | wake =>
    rw [Debouncer.step] at hstep
    split at hstep
    · rename_i hflusher _
      obtain rfl := Option.some.inj hstep
      exact h.moved .woken d.stopper (by rw [hflusher]; rfl) rfl id fun _ => id
    · nomatch hstep
  | leave =>
    rw [Debouncer.step] at hstep
    split at hstep
    · rename_i hflusher _
      obtain rfl := Option.some.inj hstep
      exact h.moved .over d.stopper (by rw [hflusher]; rfl) rfl id fun _ => id
    · nomatch hstep
  | swap =>
    rw [Debouncer.step] at hstep
    split at hstep
    · rename_i hflusher
      split at hstep
      · obtain rfl := Option.some.inj hstep
        exact h.moved .waiting d.stopper (by rw [hflusher]; rfl) rfl id fun _ => id
      · obtain rfl := Option.some.inj hstep
        exact h.swap (by rw [hflusher]; rfl)
    · nomatch hstep
  | emit stamps session =>
    rw [Debouncer.step] at hstep
    split at hstep
    · rename_i batch hflusher
      obtain ⟨outcome, hsend, ht⟩ := Option.map_eq_some_iff.mp hstep
      have hbatch : d.flusher.batch = batch := by rw [hflusher]; rfl
      obtain ⟨count, hcount⟩ := hok outcome (hbatch ▸ hsend)
      obtain ⟨hkept, hstored⟩ := send_stored hsend
      rw [hcount] at ht
      rw [← ht]
      exact (h.stored outcome.bus hkept).emitted (hbatch ▸ hstored count hcount)
    · nomatch hstep
  | stop =>
    rw [Debouncer.step] at hstep
    split at hstep
    · rename_i hstopper
      obtain rfl := Option.some.inj hstep
      have hflight : ({ d with stopping := true, stopper := .joining, due := d.added } :
          Debouncer).inFlight = d.inFlight := by
        rw [Debouncer.inFlight, Debouncer.inFlight, hstopper]
        rfl
      refine ⟨⟨?_, h.latest, h.settled⟩, fun _ => List.Subset.refl _, nofun⟩
      rw [hflight]
      exact h.kept
    · nomatch hstep
  | join =>
    rw [Debouncer.step] at hstep
    split at hstep
    · rename_i hstopper
      obtain rfl := Option.some.inj hstep
      exact h.moved d.flusher .flushing rfl (by rw [hstopper]; rfl)
        (fun _ => by rw [hstopper]; nofun) nofun
    · nomatch hstep
  | drain =>
    rw [Debouncer.step] at hstep
    split at hstep
    · rename_i hstopper
      have hnone : d.stopper.batch = [] := by rw [hstopper]; rfl
      split at hstep
      · rename_i hempty
        obtain rfl := Option.some.inj hstep
        have hflight : d.inFlight = [] := by
          rw [Debouncer.inFlight, hok hempty, hnone]
          rfl
        refine h.returned (fun id hid => ?_) fun x hx => ?_
        · rw [hflight] at hid
          nomatch hid
        · rcases h.kept x (h.due (by rw [hstopper]; nofun) hx) with hpending | hon | hstored
          · rw [Pending.keys, hempty] at hpending
            nomatch hpending
          · rw [hflight] at hon
            nomatch hon
          · exact hstored
      · obtain rfl := Option.some.inj hstep
        exact h.drain hstopper
    · nomatch hstep
  | commit stamps session =>
    rw [Debouncer.step] at hstep
    split at hstep
    · rename_i batch hstopper
      obtain ⟨outcome, hsend, ht⟩ := Option.map_eq_some_iff.mp hstep
      have hbatch : d.stopper.batch = batch := by rw [hstopper]; rfl
      obtain ⟨count, hcount⟩ := hok.2 outcome (hbatch ▸ hsend)
      obtain ⟨hkept, hstored⟩ := send_stored hsend
      have hflight : ∀ id ∈ d.inFlight, id ∈ outcome.bus.store.rows.map (·.deliveryId) := by
        intro id hid
        rw [Debouncer.inFlight, hok.1, hbatch, List.nil_append] at hid
        obtain ⟨x, hx, rfl⟩ := List.mem_map.mp hid
        exact hstored count hcount x hx
      rw [hcount] at ht
      rw [← ht]
      exact (h.stored outcome.bus hkept).returned hflight fun x hx =>
        (h.claimed batch hstopper x hx).elim (hflight _) fun hx => hkept hx
    · nomatch hstep
  | other call =>
    obtain ⟨hfresh, ht⟩ := Option.ite_none_right_eq_some.mp hstep
    rw [← Option.some.inj ht]
    exact h.stored _ (run_keys call hfresh).1

/-- While no emit fails and no `stop` ends before the other thread's batch is in, nothing that was
added is lost. -/
theorem debouncer_lossless (h : Reach debouncing Undisturbed d) : LosesNothing d := by
  have haccounted : Accounted d := by
    refine h.invariant (I := Accounted) (fun d hd => ?_) fun d a t _ hd hok => hd.step hok
    obtain ⟨hpending, -, -, hstopper, hadded, hsettled⟩ := hd
    refine ⟨⟨?_, ?_, ?_⟩, fun hne => absurd hstopper hne, fun batch hbatch => ?_⟩
    · rw [hadded]
      exact fun x hx => absurd hx List.not_mem_nil
    · rw [hpending]
      exact fun x hx => absurd hx List.not_mem_nil
    · rw [hsettled]
      exact fun x hx => absurd hx List.not_mem_nil
    · rw [hstopper] at hbatch
      nomatch hbatch
  exact haccounted.toLosesNothing

end Runs

section Samples

instance decidableSucceeds {ε α : Type} (result : Except ε α) : Decidable (∃ a, result = .ok a) :=
  match result with
  | .ok a => isTrue ⟨a, rfl⟩
  | .error _ => isFalse nofun

instance (d : Debouncer) : ∀ a, Decidable (Undisturbed d a)
  | .emit stamps session => inferInstanceAs (Decidable (∀ outcome ∈
      d.send d.flusher.batch stamps session, ∃ count, outcome.returned = .ok count))
  | .commit stamps session => inferInstanceAs (Decidable (d.flusher.batch = [] ∧ ∀ outcome ∈
      d.send d.stopper.batch stamps session, ∃ count, outcome.returned = .ok count))
  | .drain => inferInstanceAs (Decidable (_ → _))
  | .start | .add _ | .wake | .leave | .swap | .stop | .join | .other _ => isTrue trivial

def idleDebouncer : Debouncer :=
  ⟨⟨.empty, 0⟩, .clear, false, .unstarted, .idle, [], [], []⟩

/-- A save is flushed in time, another by `stop`. -/
def sampleFlushes : List Act :=
  [.start, .add (sampleEvent 1), .wake, .swap, .emit [(ulidAt 1, none)] sound,
    .add (sampleEvent 2), .stop, .leave, .join, .drain, .commit [(ulidAt 2, none)] sound]

theorem debouncer_lossless_run : ∃ d, d.settled.length = 2 ∧ LosesNothing d := by
  obtain ⟨d, hrun, htwo⟩ : ∃ d ∈ debouncing.exec idleDebouncer sampleFlushes,
      d.settled.length = 2 := by
    decide +kernel
  have hstart : Reach debouncing Undisturbed idleDebouncer := .start ⟨rfl, rfl, rfl, rfl, rfl, rfl⟩
  exact ⟨d, htwo, debouncer_lossless (hstart.exec hrun (by decide +kernel))⟩

/-- The table is locked when a save is flushed; then `stop` returns. -/
def lockedFlush : List Act :=
  [.start, .add (sampleEvent 1), .wake, .swap,
    .emit [(ulidAt 1, none)] ⟨none, some .sqliteError⟩, .stop, .join, .drain]

/-- The save is neither pending nor stored, and `stop` has returned without an error. -/
theorem failed_flush_loses : ∃ d, Reachable debouncing d ∧ ¬LosesNothing d := by
  obtain ⟨d, hrun, x, hx, hlost⟩ : ∃ d ∈ debouncing.exec idleDebouncer lockedFlush,
      ∃ x ∈ d.settled, x.deliveryId ∉ d.pending.keys ∧ x.deliveryId ∉ d.stored := by
    decide +kernel
  have hreach : Reachable debouncing d :=
    Reachable.exec (.start ⟨rfl, rfl, rfl, rfl, rfl, rfl⟩) hrun
  exact ⟨d, hreach, fun h => hlost.2 (h.settled x hx)⟩

end Samples

end Waitbus.Debounce
