import Mathlib
import Waitbus.Runs
import Waitbus.Schema
import Waitbus.WriteLock

/-! Runs of `ensure_schema` on one database. A run reads the columns before it asks for the write
lock, and again only after it was refused, so that it may work from columns that another run has
added to since. -/

namespace Waitbus.EnsureSchema
open Ddl Schema WriteLock Runs

section Steps

def ensureSchemaRetries : Nat := 15

inductive Raised where
  | busy
  | sql (e : SqlError)
  deriving DecidableEq

/-- Where a run stands: `existing` are the columns it read last, `migrating` is whether there were
any at first. -/
inductive Run where
  | connecting
  | trying (attempt : Nat) (migrating : Bool) (existing : List String)
  | sleeping (attempt : Nat) (migrating : Bool) (existing : List String)
  | inside (rest : List Stmt)
  | returned
  | raised (e : Raised)
  deriving DecidableEq

variable {ι ν : Type*}

/-- The database and the runs; `origin` is the events table at the start. -/
structure State (ι ν : Type*) where
  db : Shared ι (Database ν)
  runs : ι → Run
  origin : Table ν

/-- `PRAGMA table_info(events)`. -/
def readColumns (db : Database ν) : List String :=
  ((db.tables "events").map Table.names).getD []

variable [DecidableEq ι] [LinearOrder ν] [OrderBot ν]

def State.set (s : State ι ν) (p : ι) (run : Run) : State ι ν :=
  { s with runs := Function.update s.runs p run }

def step (sort : Sorter ν) (s : State ι ν) (p : ι) : Option (State ι ν) :=
  match s.runs p with
  | .connecting =>
    let existing := readColumns s.db.committed
    some (s.set p (.trying 0 (existing ≠ []) existing))
  | .trying attempt migrating existing =>
    match s.db.begin? p with
    | some db => some { s.set p (.inside (ensureScript migrating existing)) with db }
    | none =>
      some (s.set p (if attempt = ensureSchemaRetries - 1 then .raised .busy
        else .sleeping attempt migrating existing))
  | .sleeping attempt migrating existing =>
    some (s.set p (.trying (attempt + 1) migrating
      (if migrating then readColumns s.db.committed else existing)))
  | .inside [] =>
    (s.db.copyOf p).map fun copy => { s.set p .returned with db := .commit copy }
  | .inside (stmt :: rest) =>
    (s.db.copyOf p).map fun copy =>
      match exec sort copy stmt with
      | .error e => { s.set p (.raised (.sql e)) with db := s.db.rollback }
      | .ok copy => { s.set p (.inside rest) with db := s.db.work p copy }
  | .returned | .raised _ => none

/-- The runs start on a database whose events table may lack any of the columns that were added to
the schema later. -/
def ensuring (sort : Sorter ν) : System (State ι ν) ι where
  init s := s.db.writer = none ∧ s.db.committed.tables "events" = some s.origin ∧
    Legacy s.origin ∧ ∀ p, s.runs p = .connecting
  step := step sort

/-- A run that gets the lock finds no column that it has not read, and the last of its attempts is
not refused. -/
def UpToDate (s : State ι ν) (p : ι) : Prop :=
  match s.runs p with
  | .trying attempt _ existing =>
    match s.db.writer with
    | none => ∀ column ∈ expectedColumns, column.name ∈ readColumns s.db.committed →
        column.name ∈ existing
    | some _ => attempt + 1 < ensureSchemaRetries
  | _ => True

instance (s : State ι ν) (p : ι) : Decidable (UpToDate s p) := by
  unfold UpToDate
  split
  · split
    · infer_instance
    · infer_instance
  · infer_instance

def Run.remaining : Run → Nat
  | .connecting => 2 * ensureSchemaRetries + expectedColumns.length + schemaStmts.length + 4
  | .trying attempt _ _ =>
    2 * (ensureSchemaRetries - attempt) + expectedColumns.length + schemaStmts.length + 3
  | .sleeping attempt _ _ =>
    2 * (ensureSchemaRetries - attempt) + expectedColumns.length + schemaStmts.length + 2
  | .inside rest => rest.length + 1
  | .returned | .raised _ => 0

end Steps

section Inside

variable {ι ν : Type*} [DecidableEq ι] [LinearOrder ν] [OrderBot ν] {sort : Sorter ν}
  {s : State ι ν} {p : ι} {copy : Database ν}

theorem step_commit (hrun : s.runs p = .inside []) (hcopy : s.db.copyOf p = some copy) :
    step sort s p = some { s.set p .returned with db := .commit copy } := by
  simp only [step, hrun, hcopy, Option.map_some]

theorem step_exec {stmt : Stmt} {rest : List Stmt} {next : Database ν}
    (hrun : s.runs p = .inside (stmt :: rest)) (hcopy : s.db.copyOf p = some copy)
    (hexec : exec sort copy stmt = .ok next) :
    step sort s p = some { s.set p (.inside rest) with db := s.db.work p next } := by
  simp only [step, hrun, hcopy, Option.map_some, hexec]

end Inside

section Invariant

variable {ι ν : Type*} [LinearOrder ν] [OrderBot ν] {sort : Sorter ν} {s t : State ι ν} {p : ι}

/-- The table has been brought up to the schema. -/
structure Upgraded (before after : Table ν) : Prop where
  legacy : Legacy after
  keeps : Keeps before after
  complete : Complete after

/-- What a run at this point is sure of, `table` being the events table that is committed. -/
def Sure (sort : Sorter ν) (db : Shared ι (Database ν)) (table : Table ν) (p : ι) : Run → Prop
  | .connecting => True
  | .trying attempt migrating existing =>
    attempt < ensureSchemaRetries ∧ migrating = true ∧ existing ⊆ table.names
  | .sleeping attempt migrating existing =>
    attempt + 1 < ensureSchemaRetries ∧ migrating = true ∧ existing ⊆ table.names
  | .inside rest => ∃ copy final after, db.writer = some (p, copy) ∧
      execAll sort copy rest = .ok final ∧ final.tables "events" = some after ∧
      Upgraded table after
  | .returned => Complete table
  | .raised _ => False

structure Inv (sort : Sorter ν) (s : State ι ν) (table : Table ν) : Prop where
  found : s.db.committed.tables "events" = some table
  legacy : Legacy table
  keeps : Keeps s.origin table
  sure : ∀ p, Sure sort s.db table p (s.runs p)

theorem Sure.unlocked {db db' : Shared ι (Database ν)} {table : Table ν} {run : Run}
    (h : Sure sort db table p run) (houtside : ∀ rest, run ≠ .inside rest) :
    Sure sort db' table p run := by
  cases run with
  | inside rest => exact absurd rfl (houtside rest)
  | connecting => exact h
  | trying attempt migrating existing => exact h
  | sleeping attempt migrating existing => exact h
  | returned => exact h
  | raised e => exact h

theorem Sure.upgrade {db db' : Shared ι (Database ν)} {table after : Table ν} {run : Run}
    (h : Sure sort db table p run) (houtside : ∀ rest, run ≠ .inside rest)
    (up : Upgraded table after) : Sure sort db' after p run := by
  cases run with
  | inside rest => exact absurd rfl (houtside rest)
  | connecting => exact h
  | trying attempt migrating existing =>
    exact ⟨h.1, h.2.1, List.Subset.trans h.2.2 up.keeps.1⟩
  | sleeping attempt migrating existing =>
    exact ⟨h.1, h.2.1, List.Subset.trans h.2.2 up.keeps.1⟩
  | returned => exact up.complete
  | raised e => exact h

theorem Inv.outside {table : Table ν} (inv : Inv sort s table) {q : ι} {copy : Database ν}
    (hwriter : s.db.writer = some (p, copy)) (hne : q ≠ p) (rest : List Stmt) :
    s.runs q ≠ .inside rest := by
  intro hinside
  have hsure := inv.sure q
  rw [hinside] at hsure
  obtain ⟨other, -, -, hother, -⟩ := hsure
  exact hne (writer_unique hother hwriter).1

theorem Inv.outside_of_free {table : Table ν} (inv : Inv sort s table)
    (hfree : s.db.writer = none) (q : ι) (rest : List Stmt) : s.runs q ≠ .inside rest := by
  intro hinside
  have hsure := inv.sure q
  rw [hinside] at hsure
  obtain ⟨other, -, -, hother, -⟩ := hsure
  rw [hfree] at hother
  nomatch hother

theorem Inv.readColumns {table : Table ν} (inv : Inv sort s table) :
    readColumns s.db.committed = table.names := by
  rw [EnsureSchema.readColumns, inv.found]
  rfl

theorem Inv.names_ne {table : Table ν} (inv : Inv sort s table) : table.names ≠ [] := by
  intro hempty
  obtain ⟨column, hcolumn, hbase⟩ := base_expected
  have hmem := inv.legacy.base column hcolumn hbase
  rw [hempty] at hmem
  nomatch hmem

variable [DecidableEq ι]

theorem inv_set {table : Table ν} {db : Shared ι (Database ν)} {run : Run}
    (hfound : db.committed.tables "events" = some table) (legacy : Legacy table)
    (keeps : Keeps s.origin table) (hself : Sure sort db table p run)
    (hothers : ∀ q ≠ p, Sure sort db table q (s.runs q)) :
    Inv sort { s.set p run with db } table := by
  refine ⟨hfound, legacy, keeps, fun q => ?_⟩
  by_cases hq : q = p
  · subst hq
    simpa only [State.set, Function.update_self] using hself
  · simpa only [State.set, Function.update_of_ne hq] using hothers q hq

theorem Inv.move {table : Table ν} (inv : Inv sort s table) {run : Run}
    (hsure : Sure sort s.db table p run) : Inv sort (s.set p run) table :=
  inv_set inv.found inv.legacy inv.keeps hsure fun q _ => inv.sure q

theorem inv_trying {table : Table ν} (inv : Inv sort s table) {attempt : Nat} {migrating : Bool}
    {existing : List String} (hrun : s.runs p = .trying attempt migrating existing)
    (hok : UpToDate s p) (hstep : step sort s p = some t) : Inv sort t table := by
  have hsure := inv.sure p
  rw [hrun] at hsure
  obtain ⟨hattempt, rfl, hsub⟩ := hsure
  rw [UpToDate, hrun] at hok
  rw [step, hrun] at hstep
  dsimp only at hstep hok
  cases hbegin : s.db.begin? p with
  | some db =>
    obtain ⟨hfree, rfl⟩ := begin?_eq_some.mp hbegin
    rw [hbegin] at hstep
    rw [hfree, inv.readColumns] at hok
    obtain rfl := Option.some.inj hstep
    have current := current_of_read hsub hok
    have up : Upgraded table (extend table (missingColumns existing)) :=
      ⟨inv.legacy.extend current, extend_keeps current.fresh, current.complete⟩
    refine inv_set inv.found inv.legacy inv.keeps ?_ fun q _ =>
      (inv.sure q).unlocked (inv.outside_of_free hfree q)
    exact ⟨s.db.committed, _, _, rfl, execAll_ensureScript inv.found inv.legacy current,
      upgrade_events .., up⟩
  | none =>
    obtain ⟨writer, hwriter⟩ := Option.ne_none_iff_exists'.mp (begin?_eq_none.mp hbegin)
    rw [hbegin] at hstep
    rw [hwriter] at hok
    dsimp only at hok
    obtain rfl := Option.some.inj hstep
    have hnotLast : attempt ≠ ensureSchemaRetries - 1 := by
      have hretries : ensureSchemaRetries = 15 := rfl
      omega
    rw [if_neg hnotLast]
    exact inv.move ⟨hok, rfl, hsub⟩

theorem inv_inside {table : Table ν} (inv : Inv sort s table) {rest : List Stmt}
    (hrun : s.runs p = .inside rest) (hstep : step sort s p = some t) :
    ∃ after, Inv sort t after := by
  have hsure := inv.sure p
  rw [hrun] at hsure
  obtain ⟨copy, final, after, hwriter, hexec, hafter, up⟩ := hsure
  have hcopy := copyOf_eq_some.mpr hwriter
  cases rest with
  | nil =>
    rw [step_commit hrun hcopy] at hstep
    obtain rfl := Option.some.inj hstep
    obtain rfl := Except.ok.inj hexec
    refine ⟨after, inv_set hafter up.legacy (inv.keeps.trans up.keeps) up.complete ?_⟩
    intro q hq
    exact (inv.sure q).upgrade (inv.outside hwriter hq) up
  | cons stmt rest =>
    rw [execAll_cons] at hexec
    cases hstmt : exec sort copy stmt with
    | error e =>
      rw [hstmt] at hexec
      nomatch hexec
    | ok next =>
      rw [hstmt] at hexec
      rw [step_exec hrun hcopy hstmt] at hstep
      obtain rfl := Option.some.inj hstep
      refine ⟨table, inv_set inv.found inv.legacy inv.keeps ?_ ?_⟩
      · exact ⟨next, final, after, rfl, hexec, hafter, up⟩
      · intro q hq
        exact (inv.sure q).unlocked (inv.outside hwriter hq)

theorem inv_step {table : Table ν} (inv : Inv sort s table) (hok : UpToDate s p)
    (hstep : step sort s p = some t) : ∃ after, Inv sort t after := by
  cases hrun : s.runs p with
  | connecting =>
    rw [step, hrun] at hstep
    obtain rfl := Option.some.inj hstep
    rw [inv.readColumns]
    refine ⟨table, inv.move ⟨by decide, ?_, List.Subset.refl _⟩⟩
    exact decide_eq_true inv.names_ne
  | trying attempt migrating existing => exact ⟨table, inv_trying inv hrun hok hstep⟩
  | sleeping attempt migrating existing =>
    have hsure := inv.sure p
    rw [hrun] at hsure
    obtain ⟨hattempt, rfl, -⟩ := hsure
    rw [step, hrun] at hstep
    obtain rfl := Option.some.inj hstep
    rw [if_pos rfl, inv.readColumns]
    exact ⟨table, inv.move ⟨hattempt, rfl, List.Subset.refl _⟩⟩
  | inside rest => exact inv_inside inv hrun hstep
  | returned =>
    rw [step, hrun] at hstep
    nomatch hstep
  | raised e =>
    rw [step, hrun] at hstep
    nomatch hstep

theorem inv_reach (h : Reach (ensuring sort) UpToDate s) : ∃ table, Inv sort s table := by
  refine h.invariant (I := fun s => ∃ table, Inv sort s table) ?_ fun s p t _ hinv hok hstep => ?_
  · rintro s ⟨-, hfound, hlegacy, hruns⟩
    refine ⟨s.origin, hfound, hlegacy, Keeps.refl _, fun p => ?_⟩
    rw [hruns p]
    exact trivial
  · obtain ⟨table, inv⟩ := hinv
    exact inv_step inv hok hstep

theorem ensureScript_length (migrating : Bool) (existing : List String) :
    (ensureScript migrating existing).length ≤ expectedColumns.length + schemaStmts.length := by
  rw [ensureScript]
  split
  · rw [List.length_append, List.length_map]
    exact Nat.add_le_add_right (List.length_filter_le ..) _
  · exact Nat.le_add_left ..

theorem Inv.progress {table : Table ν} (inv : Inv sort s table) (hp : s.runs p ≠ .returned) :
    ∃ t, step sort s p = some t ∧ (t.runs p).remaining < (s.runs p).remaining ∧
      ∀ q ≠ p, t.runs q = s.runs q := by
  have hsure := inv.sure p
  have hset : ∀ (run : Run) (db : Shared ι (Database ν)), run.remaining < (s.runs p).remaining →
      step sort s p = some { s.set p run with db } → ∃ t, step sort s p = some t ∧
        (t.runs p).remaining < (s.runs p).remaining ∧ ∀ q ≠ p, t.runs q = s.runs q := by
    intro run db hless hstep
    refine ⟨_, hstep, ?_, fun q hq => Function.update_of_ne hq ..⟩
    simpa only [State.set, Function.update_self] using hless
  cases hrun : s.runs p with
  | connecting =>
    refine hrun ▸ hset _ s.db ?_ (by rw [step, hrun]; rfl)
    rw [hrun, Run.remaining, Run.remaining]
    omega
  | trying attempt migrating existing =>
    rw [hrun] at hsure
    have hlength := ensureScript_length migrating existing
    cases hbegin : s.db.begin? p with
    | some db =>
      refine hrun ▸ hset (.inside (ensureScript migrating existing)) db ?_ ?_
      · rw [hrun, Run.remaining, Run.remaining]
        omega
      · simp only [step, hrun, hbegin]
    | none =>
      refine hrun ▸ hset (if attempt = ensureSchemaRetries - 1 then .raised .busy
        else .sleeping attempt migrating existing) s.db ?_ ?_
      · rw [hrun]
        split
        · simp only [Run.remaining]
          omega
        · simp only [Run.remaining]
          omega
      · simp only [step, hrun, hbegin]
        rfl
  | sleeping attempt migrating existing =>
    rw [hrun] at hsure
    have hattempt := hsure.1
    refine hrun ▸ hset _ s.db ?_ (by rw [step, hrun]; rfl)
    rw [hrun, Run.remaining, Run.remaining]
    omega
  | inside rest =>
    rw [hrun] at hsure
    obtain ⟨copy, final, after, hwriter, hexec, -⟩ := hsure
    have hcopy := copyOf_eq_some.mpr hwriter
    cases rest with
    | nil =>
      refine hrun ▸ hset _ _ ?_ (step_commit hrun hcopy)
      rw [hrun, Run.remaining, Run.remaining]
      omega
    | cons stmt rest =>
      rw [execAll_cons] at hexec
      cases hstmt : exec sort copy stmt with
      | error e =>
        rw [hstmt] at hexec
        nomatch hexec
      | ok next =>
        refine hrun ▸ hset _ _ ?_ (step_exec hrun hcopy hstmt)
        rw [hrun, Run.remaining, Run.remaining, List.length_cons]
        omega
  | returned => exact absurd hrun hp
  | raised e =>
    rw [hrun] at hsure
    exact hsure.elim

end Invariant

section Concurrency

variable {ι ν : Type*} [DecidableEq ι] [LinearOrder ν] [OrderBot ν] {sort : Sorter ν}
  {s : State ι ν}

/-- As long as no run gets the lock with a column added that it has not read, no run fails, each
that is not over can go on, and has only so many steps to go; every row keeps its values, and
once a run has returned the table has every column that can be added. -/
theorem ensureSchema_concurrent (h : Reach (ensuring sort) UpToDate s) :
    (∃ table, s.db.committed.tables "events" = some table ∧ Keeps s.origin table ∧
        ((∃ p, s.runs p = .returned) → ∀ column ∈ expectedColumns, column.name ∈ table.names)) ∧
      (∀ p e, s.runs p ≠ .raised e) ∧
      ∀ p, s.runs p ≠ .returned → ∃ t, step sort s p = some t ∧
        (t.runs p).remaining < (s.runs p).remaining ∧ ∀ q ≠ p, t.runs q = s.runs q := by
  obtain ⟨table, inv⟩ := inv_reach h
  refine ⟨⟨table, inv.found, inv.keeps, ?_⟩, ?_, fun p hp => inv.progress hp⟩
  · rintro ⟨p, hreturned⟩
    have hsure := inv.sure p
    rw [hreturned] at hsure
    exact hsure
  · intro p e hraised
    have hsure := inv.sure p
    rw [hraised] at hsure
    exact hsure

/-- An events table of one row, from before there was a `msg_body`. -/
def sampleTable : Table (WithBot ℕ) where
  columns := eventsColumns.filter (·.name ≠ "msg_body")
  rows := [⟨1, fun name => some name.length⟩]

def sampleSorter : Sorter (WithBot ℕ) :=
  fun _ rows => rows

def twoRuns : State Bool (WithBot ℕ) where
  db := ⟨⟨fun name => if name = "events" then some sampleTable else none, []⟩, none⟩
  runs := fun _ => .connecting
  origin := sampleTable

theorem twoRuns_init : (ensuring sampleSorter).init twoRuns :=
  ⟨rfl, rfl, ⟨by decide +kernel, fun _ => by decide +kernel⟩, fun _ => rfl⟩

/-- A run is refused once, and after that reads what the other has committed. -/
theorem ensureSchema_concurrent_run : ∃ s : State Bool (WithBot ℕ),
    (∀ p, s.runs p = .returned) ∧
    (∃ table, s.db.committed.tables "events" = some table ∧ Keeps s.origin table ∧
        ((∃ p, s.runs p = .returned) → ∀ column ∈ expectedColumns, column.name ∈ table.names)) ∧
      (∀ p e, s.runs p ≠ .raised e) ∧
      ∀ p, s.runs p ≠ .returned → ∃ t, step sampleSorter s p = some t ∧
        (t.runs p).remaining < (s.runs p).remaining ∧ ∀ q ≠ p, t.runs q = s.runs q := by
  obtain ⟨s, hrun, hends⟩ : ∃ s ∈ (ensuring sampleSorter).exec twoRuns
      ([false, true, false, true] ++ List.replicate 13 false ++ List.replicate 14 true),
      ∀ p, s.runs p = .returned := by
    decide +kernel
  have hstart : Reach (ensuring sampleSorter) UpToDate twoRuns := .start twoRuns_init
  exact ⟨s, hends, ensureSchema_concurrent (hstart.exec hrun (by decide +kernel))⟩

/-- A run that read the columns before the other added one, and is not refused, adds it again. -/
theorem ensureSchema_stale : ∃ s, Reachable (ensuring sampleSorter) s ∧
    s.runs false = .returned ∧ s.runs true = .raised (.sql .duplicateColumn) := by
  obtain ⟨s, hrun, hends⟩ : ∃ s ∈ (ensuring sampleSorter).exec twoRuns
      ([false, true] ++ List.replicate 14 false ++ [true, true]),
      s.runs false = .returned ∧ s.runs true = .raised (.sql .duplicateColumn) := by
    decide +kernel
  exact ⟨s, Reachable.exec (.start twoRuns_init) hrun, hends⟩

end Concurrency

end Waitbus.EnsureSchema
