import Mathlib
import Waitbus.EnsureSchema

/-! Runs of `apply_pending` on one database, any of which may crash. What a statement does to the
schema is left open. A run plans outside the write lock and looks again inside it: every migration
takes effect once and with its tracking row, but a run reports those it only found applied, too. -/

namespace Waitbus.Migrations
open WriteLock Runs EnsureSchema

section Plans

/-- A migration; the last of its statements stands for the hook, if it has one. -/
structure Migration (τ : Type*) where
  sequenceNumber : Nat
  slug : String
  statements : List τ
  sha256 : String
  deriving DecidableEq

structure AppliedRow where
  sequenceNumber : Nat
  slug : String
  appliedAtNs : Int
  sha256 : String

/-- The RuntimeErrors of `plan`. -/
inductive PlanError where
  | drift
  | gap
  deriving DecidableEq

variable {σ τ ε : Type*}

def verifyNoDrift (applied : List AppliedRow) (discovered : List (Migration τ)) : Bool :=
  applied.all fun row =>
    match discovered.find? (·.sequenceNumber = row.sequenceNumber) with
    | none => false
    | some migration => migration.sha256 = row.sha256

def verifyNoGaps (discovered : List (Migration τ)) : Bool :=
  discovered.map (·.sequenceNumber) = List.range' 1 discovered.length

def upTo (target : Option Nat) (discovered : List (Migration τ)) : List (Migration τ) :=
  discovered.filter fun migration => target.all (migration.sequenceNumber ≤ ·)

def pendingMigrations (discovered : List (Migration τ)) (target : Option Nat)
    (applied : List AppliedRow) : Except PlanError (List (Migration τ)) :=
  if ¬verifyNoDrift applied discovered then .error .drift
  else if ¬verifyNoGaps discovered then .error .gap
  else .ok ((upTo target discovered).filter fun migration =>
    migration.sequenceNumber ∉ applied.map (·.sequenceNumber))

def execStatements (exec : σ → τ → Except ε σ) (schema : σ) : List τ → Except ε σ
  | [] => .ok schema
  | stmt :: rest => (exec schema stmt).bind fun schema => execStatements exec schema rest

/-- What these migrations make of the schema, one after the other. -/
def effect (exec : σ → τ → Except ε σ) (schema : σ) : List (Migration τ) → Except ε σ
  | [] => .ok schema
  | migration :: rest =>
    (execStatements exec schema migration.statements).bind fun schema => effect exec schema rest

end Plans

section Steps

variable {ι σ τ ε : Type*}

/-- The schema, and the rows of `schema_migrations` once there is such a table. -/
structure Db (σ : Type*) where
  schema : σ
  tracking : Option (List AppliedRow)

def Db.rows (db : Db σ) : List AppliedRow :=
  db.tracking.getD []

inductive Raised (ε : Type*) where
  | busy
  | plan (e : PlanError)
  | noSuchTable
  | duplicateRow
  | sql (e : ε)
  deriving DecidableEq

/-- Where a run stands; `done` is `applied_now`. -/
inductive Run (τ ε : Type*) where
  | connecting
  | creating
  | planning
  | trying (attempt : Nat) (migration : Migration τ) (rest done : List (Migration τ))
  | sleeping (attempt : Nat) (migration : Migration τ) (rest done : List (Migration τ))
  | checking (migration : Migration τ) (rest done : List (Migration τ))
  | executing (stmts : List τ) (migration : Migration τ) (rest done : List (Migration τ))
  | committing (migration : Migration τ) (rest done : List (Migration τ))
  | returned (done : List (Migration τ))
  | raised (e : Raised ε) (done : List (Migration τ))
  | crashed (done : List (Migration τ))
  deriving DecidableEq

def Run.done : Run τ ε → List (Migration τ)
  | .connecting | .creating | .planning => []
  | .trying _ _ _ done | .sleeping _ _ _ done | .checking _ _ done | .executing _ _ _ done
  | .committing _ _ done | .returned done | .raised _ done | .crashed done => done

def Run.over : Run τ ε → Bool
  | .returned _ | .raised .. | .crashed _ => true
  | _ => false

/-- The loop of `apply_pending` goes on. -/
def next (done : List (Migration τ)) : List (Migration τ) → Run τ ε
  | [] => .returned done
  | migration :: rest => .trying 0 migration rest done

/-- What the runs have in common, and the target that each was given. -/
structure Setting (ι σ τ ε : Type*) where
  exec : σ → τ → Except ε σ
  discovered : List (Migration τ)
  target : ι → Option Nat

/-- The database and the runs; `origin` is the database at the start. -/
structure State (ι σ τ ε : Type*) where
  db : Shared ι (Db σ)
  runs : ι → Run τ ε
  origin : Db σ

def State.applied (s : State ι σ τ ε) : Nat :=
  s.db.committed.rows.length

inductive Act (ι : Type*) where
  /-- The next step of a run; `now` is the clock. -/
  | step (p : ι) (now : Int)
  | crash (p : ι)

def Migration.row (migration : Migration τ) (now : Int) : AppliedRow :=
  ⟨migration.sequenceNumber, migration.slug, now, migration.sha256⟩

variable [DecidableEq ι]

def State.set (s : State ι σ τ ε) (p : ι) (run : Run τ ε) (db : Shared ι (Db σ)) :
    State ι σ τ ε :=
  { s with db, runs := Function.update s.runs p run }

/-- The next step inside the transaction, on the copy it works on. -/
def inside (c : Setting ι σ τ ε) (s : State ι σ τ ε) (p : ι) (now : Int) (copy : Db σ) :
    Run τ ε → Option (State ι σ τ ε)
  | .creating => some (s.set p .planning (.commit { copy with tracking := some [] }))
  | .checking migration rest done =>
    match copy.tracking with
    | none => some (s.set p (.raised .noSuchTable done) s.db.rollback)
    | some rows =>
      if migration.sequenceNumber ∈ rows.map (·.sequenceNumber) then
        some (s.set p (next (done ++ [migration]) rest) s.db.rollback)
      else some (s.set p (.executing migration.statements migration rest done) s.db)
  | .executing (stmt :: stmts) migration rest done =>
    match c.exec copy.schema stmt with
    | .error e => some (s.set p (.raised (.sql e) done) s.db.rollback)
    | .ok schema =>
      some (s.set p (.executing stmts migration rest done) (s.db.work p { copy with schema }))
  | .executing [] migration rest done =>
    match copy.tracking with
    | none => some (s.set p (.raised .noSuchTable done) s.db.rollback)
    | some rows =>
      if migration.sequenceNumber ∈ rows.map (·.sequenceNumber) then
        some (s.set p (.raised .duplicateRow done) s.db.rollback)
      else
        some (s.set p (.committing migration rest done)
          (s.db.work p { copy with tracking := some (rows ++ [migration.row now]) }))
  | .committing migration rest done =>
    some (s.set p (next (done ++ [migration]) rest) (.commit copy))
  | _ => none

def step (c : Setting ι σ τ ε) (s : State ι σ τ ε) : Act ι → Option (State ι σ τ ε)
  | .crash p =>
    if (s.runs p).over then none
    else some (s.set p (.crashed (s.runs p).done) (s.db.kill p))
  | .step p now =>
    match s.runs p with
    | .connecting =>
      -- CREATE TABLE IF NOT EXISTS, outside the retries
      match s.db.committed.tracking, s.db.begin? p with
      | some _, _ => some (s.set p .planning s.db)
      | none, some db => some (s.set p .creating db)
      | none, none => some (s.set p (.raised .busy []) s.db)
    | .planning =>
      match s.db.committed.tracking with
      | none => some (s.set p (.raised .noSuchTable []) s.db)
      | some rows =>
        match pendingMigrations c.discovered (c.target p) rows with
        | .error e => some (s.set p (.raised (.plan e) []) s.db)
        | .ok pending => some (s.set p (next [] pending) s.db)
    | .trying attempt migration rest done =>
      match s.db.begin? p with
      | some db => some (s.set p (.checking migration rest done) db)
      | none =>
        some (s.set p (if attempt = ensureSchemaRetries - 1 then .raised .busy done
          else .sleeping attempt migration rest done) s.db)
    | .sleeping attempt migration rest done =>
      some (s.set p (.trying (attempt + 1) migration rest done) s.db)
    | .returned _ | .raised .. | .crashed _ => none
    | run => (s.db.copyOf p).bind fun copy => inside c s p now copy run

def AppliedRow.key (row : AppliedRow) : Nat × String × String :=
  (row.sequenceNumber, row.slug, row.sha256)

def Migration.key (migration : Migration τ) : Nat × String × String :=
  (migration.sequenceNumber, migration.slug, migration.sha256)

def Records (rows : List AppliedRow) (migrations : List (Migration τ)) : Prop :=
  rows.map AppliedRow.key = migrations.map Migration.key

/-- The files are numbered without a gap, some of the first of them have been applied, and the
others can be. -/
def applying (c : Setting ι σ τ ε) : System (State ι σ τ ε) (Act ι) where
  init s := s.db.committed = s.origin ∧ s.db.writer = none ∧ (∀ p, s.runs p = .connecting) ∧
    verifyNoGaps c.discovered = true ∧
    Records s.origin.rows (c.discovered.take s.origin.rows.length) ∧
    ∃ final, effect c.exec s.origin.schema (c.discovered.drop s.origin.rows.length) = .ok final
  step := step c

/-- A run that gets the lock does not find its next migration applied; the tracking table is not
created while another run writes, and the last attempt is not refused. -/
def Undisturbed (s : State ι σ τ ε) : Act ι → Prop
  | .crash _ => True
  | .step p _ =>
    match s.runs p with
    | .connecting => s.db.committed.tracking.isNone → s.db.writer.isNone
    | .trying attempt migration _ _ =>
      match s.db.writer with
      | none => migration.sequenceNumber ∉ s.db.committed.rows.map (·.sequenceNumber)
      | some _ => attempt + 1 < ensureSchemaRetries
    | _ => True

end Steps

section Planning

variable {τ : Type*} {discovered : List (Migration τ)} {rows : List AppliedRow}

theorem filter_isPrefix {α : Type*} {l : List α} {keep : α → Bool}
    (h : l.Pairwise fun a b => keep b = true → keep a = true) : l.filter keep <+: l := by
  induction l with
  | nil => exact List.prefix_refl _
  | cons a l ih =>
    rw [List.pairwise_cons] at h
    cases ha : keep a with
    | true =>
      rw [List.filter_cons_of_pos ha]
      exact (List.prefix_cons_inj a).mpr (ih h.2)
    | false =>
      rw [List.filter_eq_nil_iff.mpr]
      · exact List.nil_prefix
      · intro b hb hkeep
        cases List.mem_cons.mp hb with
        | inl hsame =>
          rw [hsame, ha] at hkeep
          nomatch hkeep
        | inr htail =>
          have hhead := h.1 b htail hkeep
          rw [ha] at hhead
          nomatch hhead

theorem sequenceNumbers (h : verifyNoGaps discovered = true) :
    discovered.map (·.sequenceNumber) = List.range' 1 discovered.length :=
  of_decide_eq_true h

theorem sequenceNumbers_nodup (h : verifyNoGaps discovered = true) :
    (discovered.map (·.sequenceNumber)).Nodup := by
  rw [sequenceNumbers h]
  exact List.nodup_range'

theorem upTo_isPrefix (h : verifyNoGaps discovered = true) (target : Option Nat) :
    upTo target discovered <+: discovered := by
  have hincreasing : discovered.Pairwise fun a b => a.sequenceNumber < b.sequenceNumber := by
    rw [← List.pairwise_map (f := fun m : Migration τ => m.sequenceNumber), sequenceNumbers h]
    exact List.pairwise_lt_range'
  apply filter_isPrefix
  refine hincreasing.imp ?_
  intro a b hlt hb
  rw [Option.all_eq_true] at hb ⊢
  intro limit hlimit
  have hle := of_decide_eq_true (hb limit hlimit)
  exact decide_eq_true (by omega)

theorem Records.sequenceNumbers {migrations : List (Migration τ)} (h : Records rows migrations) :
    rows.map (·.sequenceNumber) = migrations.map (·.sequenceNumber) := by
  have hkeys := congrArg (List.map Prod.fst) h
  rwa [List.map_map, List.map_map] at hkeys

theorem take_drop_disjoint (h : verifyNoGaps discovered = true) (k : Nat) {migration : Migration τ}
    (hmem : migration ∈ discovered.drop k) :
    migration.sequenceNumber ∉ (discovered.take k).map (·.sequenceNumber) := by
  have hnodup := sequenceNumbers_nodup h
  rw [← List.take_append_drop k discovered, List.map_append, List.nodup_append'] at hnodup
  exact fun hearly => hnodup.2.2 hearly (List.mem_map_of_mem hmem)

theorem Records.noDrift (h : verifyNoGaps discovered = true) {k : Nat}
    (records : Records rows (discovered.take k)) : verifyNoDrift rows discovered = true := by
  rw [verifyNoDrift, List.all_eq_true]
  intro row hrow
  have hkey : row.key ∈ (discovered.take k).map Migration.key :=
    records ▸ List.mem_map_of_mem hrow
  obtain ⟨migration, hmem, hsame⟩ := List.mem_map.mp hkey
  have hdiscovered := List.mem_of_mem_take hmem
  have hnumber : migration.sequenceNumber = row.sequenceNumber := congrArg Prod.fst hsame
  have hsha : migration.sha256 = row.sha256 := congrArg (·.2.2) hsame
  cases hfound : discovered.find? (·.sequenceNumber = row.sequenceNumber) with
  | none =>
    have hno := List.find?_eq_none.mp hfound migration hdiscovered
    exact absurd (decide_eq_true hnumber) hno
  | some other =>
    have hother : other.sequenceNumber = row.sequenceNumber := by
      simpa using List.find?_some hfound
    have heq := List.inj_on_of_nodup_map (sequenceNumbers_nodup h)
      (List.mem_of_find?_eq_some hfound) hdiscovered (hother.trans hnumber.symm)
    exact decide_eq_true (heq ▸ hsha)

theorem pendingMigrations_ok (h : verifyNoGaps discovered = true) (target : Option Nat)
    (records : Records rows (discovered.take rows.length)) :
    pendingMigrations discovered target rows = .ok ((upTo target discovered).drop rows.length) := by
  rw [pendingMigrations, if_neg (not_not.mpr (records.noDrift h)), if_neg (not_not.mpr h),
    records.sequenceNumbers]
  congr 1
  obtain ⟨later, hlater⟩ := upTo_isPrefix h target
  generalize upTo target discovered = planned at hlater
  generalize rows.length = k
  have hearly : (planned.take k).filter (fun migration =>
      migration.sequenceNumber ∉ (discovered.take k).map (·.sequenceNumber)) = [] := by
    rw [List.filter_eq_nil_iff]
    intro migration hmem hno
    have htake : migration ∈ discovered.take k := by
      rw [← hlater, List.take_append]
      exact List.mem_append_left _ hmem
    exact of_decide_eq_true hno (List.mem_map_of_mem htake)
  have hlate : (planned.drop k).filter (fun migration =>
      migration.sequenceNumber ∉ (discovered.take k).map (·.sequenceNumber)) =
      planned.drop k := by
    rw [List.filter_eq_self]
    intro migration hmem
    apply decide_eq_true
    apply take_drop_disjoint h
    rw [← hlater, List.drop_append]
    exact List.mem_append_left _ hmem
  calc
    planned.filter _ = (planned.take k ++ planned.drop k).filter _ := by
      rw [List.take_append_drop]
    _ = planned.drop k := by rw [List.filter_append, hearly, hlate, List.nil_append]

end Planning

section Effects

variable {σ τ ε : Type*} {exec : σ → τ → Except ε σ}

theorem effect_append (schema : σ) (first second : List (Migration τ)) :
    effect exec schema (first ++ second) =
      (effect exec schema first).bind fun schema => effect exec schema second := by
  induction first generalizing schema with
  | nil => rfl
  | cons migration rest ih =>
    rw [List.cons_append, effect, effect]
    cases execStatements exec schema migration.statements with
    | error e => rfl
    | ok middle => exact ih middle

theorem effect_cons_ok {schema final : σ} {migration : Migration τ} {rest : List (Migration τ)}
    (h : effect exec schema (migration :: rest) = .ok final) :
    ∃ middle, execStatements exec schema migration.statements = .ok middle ∧
      effect exec middle rest = .ok final := by
  rw [effect] at h
  cases hfirst : execStatements exec schema migration.statements with
  | error e =>
    rw [hfirst] at h
    nomatch h
  | ok middle =>
    rw [hfirst] at h
    exact ⟨middle, rfl, h⟩

end Effects

section Alone

variable {σ τ ε : Type*} {exec : σ → τ → Except ε σ}

/-- The loop of `apply_pending` when nobody else is at the database. -/
def applyEach (exec : σ → τ → Except ε σ) (now : Int) (db : Db σ) :
    List (Migration τ) → Except (Raised ε) (Db σ)
  | [] => .ok db
  | migration :: rest =>
    if migration.sequenceNumber ∈ db.rows.map (·.sequenceNumber) then applyEach exec now db rest
    else
      match execStatements exec db.schema migration.statements with
      | .error e => .error (.sql e)
      | .ok schema =>
        applyEach exec now ⟨schema, some (db.rows ++ [migration.row now])⟩ rest

/-- `apply_pending` when nobody else is at the database. -/
def applyPending (exec : σ → τ → Except ε σ) (discovered : List (Migration τ))
    (target : Option Nat) (now : Int) (db : Db σ) :
    Except (Raised ε) (Db σ × List (Migration τ)) :=
  match pendingMigrations discovered target db.rows with
  | .error e => .error (.plan e)
  | .ok pending =>
    (applyEach exec now { db with tracking := some db.rows } pending).map fun db => (db, pending)

theorem applyEach_schema (now : Int) {db : Db σ} {pending : List (Migration τ)}
    (nodup : (pending.map (·.sequenceNumber)).Nodup)
    (fresh : ∀ migration ∈ pending,
      migration.sequenceNumber ∉ db.rows.map (·.sequenceNumber)) :
    (applyEach exec now db pending).toOption.map (·.schema) =
      (effect exec db.schema pending).toOption := by
  induction pending generalizing db with
  | nil => rfl
  | cons migration rest ih =>
    rw [List.map_cons, List.nodup_cons] at nodup
    rw [applyEach, if_neg (fresh migration (List.mem_cons_self ..)), effect]
    cases hstatements : execStatements exec db.schema migration.statements with
    | error e => rfl
    | ok schema =>
      refine ih nodup.2 fun other hother => ?_
      rw [Db.rows, Option.getD_some, List.map_append, List.mem_append, not_or]
      refine ⟨fresh other (List.mem_cons_of_mem _ hother), fun hsame => ?_⟩
      rw [List.map_singleton, List.mem_singleton] at hsame
      have hnumber : other.sequenceNumber = migration.sequenceNumber := hsame
      exact nodup.1 (hnumber ▸ List.mem_map_of_mem hother)

theorem applyPending_schema (now : Int) {discovered : List (Migration τ)} {db : Db σ}
    (gaps : verifyNoGaps discovered = true)
    (records : Records db.rows (discovered.take db.rows.length)) :
    (applyPending exec discovered none now db).toOption.map (·.1.schema) =
      (effect exec db.schema (discovered.drop db.rows.length)).toOption := by
  have hall : upTo none discovered = discovered := List.filter_eq_self.mpr fun _ _ => rfl
  have hschema : (applyEach exec now { db with tracking := some db.rows }
      (discovered.drop db.rows.length)).toOption.map (·.schema) =
      (effect exec db.schema (discovered.drop db.rows.length)).toOption := by
    refine applyEach_schema now
      ((sequenceNumbers_nodup gaps).sublist ((List.drop_sublist ..).map _)) ?_
    intro migration hmem
    rw [Db.rows, Option.getD_some, records.sequenceNumbers]
    exact take_drop_disjoint gaps _ hmem
  rw [applyPending, pendingMigrations_ok gaps none records, hall, ← hschema]
  dsimp only
  cases applyEach exec now { db with tracking := some db.rows }
    (discovered.drop db.rows.length) with
  | error e => rfl
  | ok db' => rfl

end Alone

section Invariant

variable {ι σ τ ε : Type*} {c : Setting ι σ τ ε} {s t : State ι σ τ ε} {p : ι}

def Setting.planned (c : Setting ι σ τ ε) (p : ι) : List (Migration τ) :=
  upTo (c.target p) c.discovered

/-- What is left for a run are the migrations behind one of the first that are not on record. -/
def Ahead (c : Setting ι σ τ ε) (db : Shared ι (Db σ)) (p : ι) (left : List (Migration τ)) : Prop :=
  db.committed.tracking.isSome = true ∧
    ∃ j ≤ db.committed.rows.length, (c.planned p).drop j = left

/-- What is left for a run are the migrations that are not on record. -/
def Due (c : Setting ι σ τ ε) (db : Shared ι (Db σ)) (p : ι) (left : List (Migration τ)) : Prop :=
  db.committed.tracking.isSome = true ∧
    (c.planned p).drop db.committed.rows.length = left

def Sure (c : Setting ι σ τ ε) (db : Shared ι (Db σ)) (p : ι) : Run τ ε → Prop
  | .connecting => True
  | .creating => db.writer = some (p, db.committed) ∧ db.committed.tracking = none
  | .planning => db.committed.tracking.isSome = true
  | .trying attempt migration rest _ =>
    attempt < ensureSchemaRetries ∧ Ahead c db p (migration :: rest)
  | .sleeping attempt migration rest _ =>
    attempt + 1 < ensureSchemaRetries ∧ Ahead c db p (migration :: rest)
  | .checking migration rest _ =>
    db.writer = some (p, db.committed) ∧ Ahead c db p (migration :: rest)
  | .executing stmts migration rest _ => ∃ copy schema, db.writer = some (p, copy) ∧
      copy.tracking = db.committed.tracking ∧ execStatements c.exec copy.schema stmts = .ok schema ∧
      execStatements c.exec db.committed.schema migration.statements = .ok schema ∧
      Due c db p (migration :: rest)
  | .committing migration rest _ => ∃ schema now, db.writer =
        some (p, ⟨schema, some (db.committed.rows ++ [migration.row now])⟩) ∧
      execStatements c.exec db.committed.schema migration.statements = .ok schema ∧
      Due c db p (migration :: rest)
  | .returned _ => Ahead c db p []
  | .crashed _ => True
  | .raised e _ => e = .busy

def Run.locked : Run τ ε → Bool
  | .creating | .checking .. | .executing .. | .committing .. => true
  | _ => false

structure Inv (c : Setting ι σ τ ε) (s : State ι σ τ ε) : Prop where
  gaps : verifyNoGaps c.discovered = true
  start : s.origin.rows.length ≤ s.applied
  records : Records s.db.committed.rows (c.discovered.take s.applied)
  effects : effect c.exec s.origin.schema
    ((c.discovered.take s.applied).drop s.origin.rows.length) = .ok s.db.committed.schema
  possible : ∃ final,
    effect c.exec s.db.committed.schema (c.discovered.drop s.applied) = .ok final
  sure : ∀ p, Sure c s.db p (s.runs p)

theorem Ahead.grow {db db' : Shared ι (Db σ)} {left : List (Migration τ)} (h : Ahead c db p left)
    (hrows : db.committed.rows.length ≤ db'.committed.rows.length)
    (htracking : db.committed.tracking.isSome = true → db'.committed.tracking.isSome = true) :
    Ahead c db' p left := by
  obtain ⟨htable, j, hj, hleft⟩ := h
  exact ⟨htracking htable, j, hj.trans hrows, hleft⟩

theorem Sure.grow {db db' : Shared ι (Db σ)} {run : Run τ ε} (h : Sure c db p run)
    (hunlocked : run.locked = false)
    (hrows : db.committed.rows.length ≤ db'.committed.rows.length)
    (htracking : db.committed.tracking.isSome = true → db'.committed.tracking.isSome = true) :
    Sure c db' p run := by
  cases run with
  | connecting => exact trivial
  | planning => exact htracking h
  | trying attempt migration rest done => exact ⟨h.1, h.2.grow hrows htracking⟩
  | sleeping attempt migration rest done => exact ⟨h.1, h.2.grow hrows htracking⟩
  | returned done => exact Ahead.grow h hrows htracking
  | crashed done => exact trivial
  | raised e done => exact h
  | creating => nomatch hunlocked
  | checking migration rest done => nomatch hunlocked
  | executing stmts migration rest done => nomatch hunlocked
  | committing migration rest done => nomatch hunlocked

theorem Sure.writer {db : Shared ι (Db σ)} {run : Run τ ε} (h : Sure c db p run)
    (hlocked : run.locked = true) : ∃ copy, db.writer = some (p, copy) := by
  cases run with
  | creating => exact ⟨_, h.1⟩
  | checking migration rest done => exact ⟨_, h.1⟩
  | executing stmts migration rest done =>
    obtain ⟨copy, schema, hwriter, -⟩ := h
    exact ⟨copy, hwriter⟩
  | committing migration rest done =>
    obtain ⟨schema, now, hwriter, -⟩ := h
    exact ⟨_, hwriter⟩
  | connecting => nomatch hlocked
  | planning => nomatch hlocked
  | trying attempt migration rest done => nomatch hlocked
  | sleeping attempt migration rest done => nomatch hlocked
  | returned done => nomatch hlocked
  | raised e done => nomatch hlocked
  | crashed done => nomatch hlocked

theorem sure_next {db : Shared ι (Db σ)} {done left : List (Migration τ)}
    (h : Ahead c db p left) : Sure (ε := ε) c db p (next done left) := by
  cases left with
  | nil => exact h
  | cons migration rest => exact ⟨by decide, h⟩

theorem Inv.unlocked (inv : Inv c s) {copy : Db σ} (hwriter : s.db.writer = some (p, copy)) {q : ι}
    (hne : q ≠ p) : (s.runs q).locked = false := by
  cases hlocked : (s.runs q).locked with
  | false => rfl
  | true =>
    obtain ⟨other, hother⟩ := (inv.sure q).writer hlocked
    exact absurd (writer_unique hother hwriter).1 hne

theorem Inv.unlocked_of_free (inv : Inv c s) (hfree : s.db.writer = none) (q : ι) :
    (s.runs q).locked = false := by
  cases hlocked : (s.runs q).locked with
  | false => rfl
  | true =>
    obtain ⟨other, hother⟩ := (inv.sure q).writer hlocked
    rw [hfree] at hother
    nomatch hother

theorem getElem?_of_drop {α : Type*} {l later : List α} {j : Nat} {a : α}
    (h : l.drop j = a :: later) : l[j]? = some a := by
  have hhead := congrArg List.head? h
  rwa [List.head?_drop, List.head?_cons] at hhead

theorem Inv.planned_drop (inv : Inv c s) {j : Nat} {migration : Migration τ}
    {rest : List (Migration τ)} (h : (c.planned p).drop j = migration :: rest) :
    (∃ later, c.discovered.drop j = migration :: later) ∧ (c.planned p).drop (j + 1) = rest := by
  constructor
  · obtain ⟨later, hlater⟩ := upTo_isPrefix inv.gaps (c.target p)
    refine ⟨rest ++ (later.drop (j - (c.planned p).length)), ?_⟩
    rw [← hlater, List.drop_append, ← Setting.planned, h, List.cons_append]
  · rw [← List.tail_drop, h, List.tail_cons]

theorem Inv.returned_planned (inv : Inv c s) {done : List (Migration τ)}
    (hrun : s.runs p = .returned done) {migration : Migration τ}
    (hmem : migration ∈ c.planned p) :
    migration.sequenceNumber ∈ s.db.committed.rows.map (·.sequenceNumber) := by
  have hsure := inv.sure p
  rw [hrun] at hsure
  obtain ⟨-, j, hj, hleft⟩ := hsure
  have hlength : (c.planned p).length ≤ s.applied := (List.drop_eq_nil_iff.mp hleft).trans hj
  obtain ⟨later, hlater⟩ := upTo_isPrefix inv.gaps (c.target p)
  have hfirst : (c.planned p).take s.applied = c.planned p := List.take_of_length_le hlength
  rw [inv.records.sequenceNumbers, ← hlater, ← Setting.planned, List.take_append, hfirst]
  exact List.mem_map_of_mem (List.mem_append_left _ hmem)

theorem Inv.mem_rows (inv : Inv c s) {j : Nat} {migration : Migration τ}
    {rest : List (Migration τ)} (hj : j ≤ s.applied)
    (h : (c.planned p).drop j = migration :: rest) :
    migration.sequenceNumber ∈ s.db.committed.rows.map (·.sequenceNumber) ↔ j ≠ s.applied := by
  obtain ⟨⟨later, hlater⟩, -⟩ := inv.planned_drop h
  rw [inv.records.sequenceNumbers]
  constructor
  · intro hmem hsame
    refine take_drop_disjoint inv.gaps s.applied ?_ hmem
    rw [← hsame, hlater]
    exact List.mem_cons_self ..
  · intro hbehind
    apply List.mem_map_of_mem
    obtain ⟨hlt, hvalue⟩ := List.getElem?_eq_some_iff.mp (getElem?_of_drop hlater)
    rw [← hvalue]
    exact List.mem_take_iff_getElem.mpr ⟨j, by omega, rfl⟩

end Invariant

section Preservation

variable {ι σ τ ε : Type*} [DecidableEq ι] {c : Setting ι σ τ ε} {s t : State ι σ τ ε} {p : ι}
  {now : Int}

theorem Inv.keep (inv : Inv c s) {run : Run τ ε} {db : Shared ι (Db σ)}
    (hdb : db.committed = s.db.committed) (hself : Sure c db p run)
    (hothers : ∀ q ≠ p, Sure c db q (s.runs q)) : Inv c (s.set p run db) := by
  have happlied : (s.set p run db).applied = s.applied := by
    rw [State.applied, State.set, hdb, State.applied]
  refine ⟨inv.gaps, ?_, ?_, ?_, ?_, fun q => ?_⟩
  · rw [happlied]
    exact inv.start
  · rw [happlied]
    simpa only [State.set, hdb] using inv.records
  · rw [happlied]
    simpa only [State.set, hdb] using inv.effects
  · rw [happlied]
    simpa only [State.set, hdb] using inv.possible
  · by_cases hq : q = p
    · subst hq
      simpa only [State.set, Function.update_self] using hself
    · simpa only [State.set, Function.update_of_ne hq] using hothers q hq

theorem Inv.move (inv : Inv c s) {run : Run τ ε} (hself : Sure c s.db p run) :
    Inv c (s.set p run s.db) :=
  inv.keep rfl hself fun q _ => inv.sure q

theorem Inv.lock (inv : Inv c s) {run : Run τ ε} {db : Shared ι (Db σ)}
    (hdb : db.committed = s.db.committed) (hself : Sure c db p run)
    (hothers : ∀ q ≠ p, (s.runs q).locked = false) : Inv c (s.set p run db) := by
  refine inv.keep hdb hself fun q hq => (inv.sure q).grow (hothers q hq) ?_ ?_
  · rw [hdb]
  · rw [hdb]
    exact id

theorem inv_connecting (inv : Inv c s) (hrun : s.runs p = .connecting)
    (hstep : step c s (.step p now) = some t) : Inv c t := by
  simp only [step, hrun] at hstep
  cases htracking : s.db.committed.tracking with
  | some rows =>
    rw [htracking] at hstep
    obtain rfl := Option.some.inj hstep
    exact inv.move (Option.isSome_iff_exists.mpr ⟨rows, htracking⟩)
  | none =>
    rw [htracking] at hstep
    cases hbegin : s.db.begin? p with
    | some db =>
      rw [hbegin] at hstep
      obtain ⟨hfree, rfl⟩ := begin?_eq_some.mp hbegin
      obtain rfl := Option.some.inj hstep
      exact inv.lock rfl ⟨rfl, htracking⟩ fun q _ => inv.unlocked_of_free hfree q
    | none =>
      rw [hbegin] at hstep
      obtain rfl := Option.some.inj hstep
      exact inv.move rfl

theorem inv_planning (inv : Inv c s) (hrun : s.runs p = .planning)
    (hstep : step c s (.step p now) = some t) : Inv c t := by
  have hsure := inv.sure p
  rw [hrun] at hsure
  obtain ⟨rows, hrows⟩ := Option.isSome_iff_exists.mp hsure
  have hsame : s.db.committed.rows = rows := by rw [Db.rows, hrows, Option.getD_some]
  have hrecords := inv.records
  rw [State.applied, hsame] at hrecords
  simp only [step, hrun, hrows, pendingMigrations_ok inv.gaps (c.target p) hrecords] at hstep
  obtain rfl := Option.some.inj hstep
  exact inv.move (sure_next ⟨hsure, _, le_refl _, by rw [hsame, Setting.planned]⟩)

theorem inv_trying (inv : Inv c s) {attempt : Nat} {migration : Migration τ}
    {rest done : List (Migration τ)} (hrun : s.runs p = .trying attempt migration rest done)
    (hstep : step c s (.step p now) = some t) : Inv c t := by
  have hsure := inv.sure p
  rw [hrun] at hsure
  simp only [step, hrun] at hstep
  cases hbegin : s.db.begin? p with
  | some db =>
    rw [hbegin] at hstep
    obtain ⟨hfree, rfl⟩ := begin?_eq_some.mp hbegin
    obtain rfl := Option.some.inj hstep
    exact inv.lock rfl ⟨rfl, hsure.2⟩ fun q _ => inv.unlocked_of_free hfree q
  | none =>
    rw [hbegin] at hstep
    obtain rfl := Option.some.inj hstep
    by_cases hlast : attempt = ensureSchemaRetries - 1
    · rw [if_pos hlast]
      exact inv.move rfl
    · rw [if_neg hlast]
      have hless : attempt + 1 < ensureSchemaRetries := by
        have hattempt := hsure.1
        omega
      exact inv.move ⟨hless, hsure.2⟩

theorem inv_creating (inv : Inv c s) (hrun : s.runs p = .creating)
    (hstep : step c s (.step p now) = some t) : Inv c t := by
  have hsure := inv.sure p
  rw [hrun] at hsure
  obtain ⟨hwriter, htracking⟩ := hsure
  simp only [step, hrun, copyOf_eq_some.mpr hwriter, Option.bind_some, inside] at hstep
  obtain rfl := Option.some.inj hstep
  have hnone : s.db.committed.rows = [] := by rw [Db.rows, htracking, Option.getD_none]
  have hzero : s.applied = 0 := by rw [State.applied, hnone, List.length_nil]
  have heffects := inv.effects
  have hpossible := inv.possible
  have hstart := inv.start
  rw [hzero] at heffects hpossible hstart
  refine ⟨inv.gaps, hstart, rfl, heffects, hpossible, fun q => ?_⟩
  by_cases hq : q = p
  · subst hq
    simp only [State.set, Function.update_self]
    exact rfl
  · simp only [State.set, Function.update_of_ne hq]
    refine (inv.sure q).grow (inv.unlocked hwriter hq) ?_ fun _ => rfl
    rw [hnone]
    exact Nat.zero_le _

theorem inv_checking (inv : Inv c s) {migration : Migration τ} {rest done : List (Migration τ)}
    (hrun : s.runs p = .checking migration rest done)
    (hstep : step c s (.step p now) = some t) : Inv c t := by
  have hsure := inv.sure p
  rw [hrun] at hsure
  obtain ⟨hwriter, htable, j, hj, hleft⟩ := hsure
  obtain ⟨⟨later, hlater⟩, hrest⟩ := inv.planned_drop hleft
  obtain ⟨rows, hrows⟩ := Option.isSome_iff_exists.mp htable
  have hsame : s.db.committed.rows = rows := by rw [Db.rows, hrows, Option.getD_some]
  have hknown := inv.mem_rows hj hleft
  rw [hsame] at hknown
  simp only [step, hrun, copyOf_eq_some.mpr hwriter, Option.bind_some, inside, hrows,
    hknown] at hstep
  have hothers : ∀ q ≠ p, (s.runs q).locked = false := fun q hq => inv.unlocked hwriter hq
  by_cases hbehind : j ≠ s.applied
  · rw [if_pos hbehind] at hstep
    obtain rfl := Option.some.inj hstep
    refine inv.lock rfl (sure_next ⟨htable, j + 1, ?_, hrest⟩) hothers
    change j + 1 ≤ s.applied
    have hle : j ≤ s.applied := hj
    omega
  · rw [if_neg hbehind] at hstep
    obtain rfl := Option.some.inj hstep
    obtain rfl := not_not.mp hbehind
    obtain ⟨final, hfinal⟩ := inv.possible
    rw [hlater] at hfinal
    obtain ⟨middle, hmiddle, -⟩ := effect_cons_ok hfinal
    exact inv.lock rfl ⟨s.db.committed, middle, hwriter, rfl, hmiddle, hmiddle, htable, hleft⟩
      hothers

theorem step_executing (inv : Inv c s) {stmts : List τ} {migration : Migration τ}
    {rest done : List (Migration τ)} (hrun : s.runs p = .executing stmts migration rest done)
    (hstep : step c s (.step p now) = some t) : ∃ run db, t = s.set p run db ∧
      db.committed = s.db.committed ∧ Sure c db p run ∧
      ((∃ stmts, run = .executing stmts migration rest done) ∨
        run = .committing migration rest done) := by
  have hsure := inv.sure p
  rw [hrun] at hsure
  obtain ⟨copy, schema, hwriter, htracking, hcopy, hschema, hdue⟩ := hsure
  simp only [step, hrun, copyOf_eq_some.mpr hwriter, Option.bind_some] at hstep
  cases stmts with
  | cons stmt stmts =>
    rw [inside] at hstep
    rw [execStatements] at hcopy
    cases hstmt : c.exec copy.schema stmt with
    | error e =>
      rw [hstmt] at hcopy
      cases hcopy
    | ok middle =>
      rw [hstmt] at hstep hcopy
      refine ⟨_, _, (Option.some.inj hstep).symm, rfl, ?_, .inl ⟨stmts, rfl⟩⟩
      exact ⟨{ copy with schema := middle }, schema, rfl, htracking, hcopy, hschema, hdue⟩
  | nil =>
    obtain ⟨rows, hrows⟩ := Option.isSome_iff_exists.mp hdue.1
    have hsame : s.db.committed.rows = rows := by rw [Db.rows, hrows, Option.getD_some]
    have hknown := inv.mem_rows (le_refl _) hdue.2
    rw [hsame] at hknown
    rw [inside, htracking, hrows] at hstep
    dsimp only at hstep
    rw [if_neg fun hmem => hknown.mp hmem rfl] at hstep
    refine ⟨_, _, (Option.some.inj hstep).symm, rfl, ?_, .inr rfl⟩
    refine ⟨copy.schema, now, ?_, hschema.trans hcopy.symm, hdue⟩
    rw [Shared.work, hsame]

theorem inv_executing (inv : Inv c s) {stmts : List τ} {migration : Migration τ}
    {rest done : List (Migration τ)} (hrun : s.runs p = .executing stmts migration rest done)
    (hstep : step c s (.step p now) = some t) : Inv c t := by
  have hsure := inv.sure p
  rw [hrun] at hsure
  obtain ⟨copy, schema, hwriter, -⟩ := hsure
  obtain ⟨run, db, rfl, hdb, hself, -⟩ := step_executing inv hrun hstep
  exact inv.lock hdb hself fun q hq => inv.unlocked hwriter hq

theorem inv_committing (inv : Inv c s) {migration : Migration τ} {rest done : List (Migration τ)}
    (hrun : s.runs p = .committing migration rest done)
    (hstep : step c s (.step p now) = some t) : Inv c t ∧ t.applied = s.applied + 1 ∧
      (∃ later, c.discovered.drop s.applied = migration :: later) ∧
      t.runs p = next (done ++ [migration]) rest ∧ (∀ q ≠ p, t.runs q = s.runs q) ∧
      t.origin = s.origin := by
  have hsure := inv.sure p
  rw [hrun] at hsure
  obtain ⟨schema, stamp, hwriter, hschema, htable, hleft⟩ := hsure
  obtain ⟨⟨later, hlater⟩, hrest⟩ := inv.planned_drop hleft
  rw [← State.applied] at hlater
  simp only [step, hrun, copyOf_eq_some.mpr hwriter, Option.bind_some, inside] at hstep
  obtain rfl := Option.some.inj hstep
  have happlied : (s.set p (next (done ++ [migration]) rest) (.commit
      ⟨schema, some (s.db.committed.rows ++ [migration.row stamp])⟩)).applied = s.applied + 1 := by
    simp only [State.applied, State.set, Shared.commit, Db.rows, Option.getD_some,
      List.length_append, List.length_singleton]
  have htake : c.discovered.take (s.applied + 1) = c.discovered.take s.applied ++ [migration] := by
    rw [List.take_add_one, getElem?_of_drop hlater, Option.toList_some]
  refine ⟨⟨inv.gaps, ?_, ?_, ?_, ?_, fun q => ?_⟩, happlied, ⟨later, hlater⟩, ?_, ?_, rfl⟩
  · rw [happlied]
    exact Nat.le_succ_of_le inv.start
  · rw [happlied, htake, Records, List.map_append, ← inv.records]
    simp only [State.set, Shared.commit, Db.rows, Option.getD_some, List.map_append]
    rfl
  · have hshort : s.origin.rows.length ≤ (c.discovered.take s.applied).length := by
      have hlength := congrArg List.length inv.records
      rw [List.length_map, List.length_map] at hlength
      rw [← hlength]
      exact inv.start
    rw [happlied, htake]
    change effect c.exec s.origin.schema (List.drop s.origin.rows.length _) = .ok schema
    rw [List.drop_append_of_le_length hshort, effect_append, inv.effects]
    simp only [Except.bind, effect, hschema]
  · obtain ⟨final, hfinal⟩ := inv.possible
    rw [hlater] at hfinal
    obtain ⟨middle, hmiddle, hrestOk⟩ := effect_cons_ok hfinal
    rw [hschema] at hmiddle
    obtain rfl := Except.ok.inj hmiddle
    refine ⟨final, ?_⟩
    rw [happlied, ← List.tail_drop, hlater, List.tail_cons]
    exact hrestOk
  · by_cases hq : q = p
    · subst hq
      simp only [State.set, Function.update_self]
      exact sure_next ⟨rfl, s.applied + 1, happlied.ge, hrest⟩
    · simp only [State.set, Function.update_of_ne hq]
      refine (inv.sure q).grow (inv.unlocked hwriter hq) ?_ fun _ => rfl
      change s.applied ≤ _
      exact Nat.le_of_succ_le happlied.ge
  · simp only [State.set, Function.update_self]
  · intro q hq
    simp only [State.set, Function.update_of_ne hq]

theorem inv_crash (inv : Inv c s) (hstep : step c s (.crash p) = some t) : Inv c t := by
  rw [step] at hstep
  split at hstep
  · nomatch hstep
  · obtain rfl := Option.some.inj hstep
    refine inv.keep (kill_committed ..) trivial fun q hq => ?_
    by_cases hlocked : (s.runs q).locked = true
    · -- the lock is not the crashed run's
      obtain ⟨copy, hwriter⟩ := (inv.sure q).writer hlocked
      rw [kill_writer_ne hq hwriter]
      exact inv.sure q
    · refine (inv.sure q).grow (Bool.eq_false_iff.mpr hlocked) ?_ ?_
      · rw [kill_committed]
      · rw [kill_committed]
        exact id

theorem inv_step {act : Act ι} (inv : Inv c s) (hstep : step c s act = some t) : Inv c t := by
  cases act with
  | crash p => exact inv_crash inv hstep
  | step p now =>
    cases hrun : s.runs p with
    | connecting => exact inv_connecting inv hrun hstep
    | creating => exact inv_creating inv hrun hstep
    | planning => exact inv_planning inv hrun hstep
    | trying attempt migration rest done => exact inv_trying inv hrun hstep
    | sleeping attempt migration rest done =>
      have hsure := inv.sure p
      rw [hrun] at hsure
      simp only [step, hrun] at hstep
      obtain rfl := Option.some.inj hstep
      exact inv.move hsure
    | checking migration rest done => exact inv_checking inv hrun hstep
    | executing stmts migration rest done => exact inv_executing inv hrun hstep
    | committing migration rest done => exact (inv_committing inv hrun hstep).1
    | returned done =>
      simp only [step, hrun] at hstep
      nomatch hstep
    | raised e done =>
      simp only [step, hrun] at hstep
      nomatch hstep
    | crashed done =>
      simp only [step, hrun] at hstep
      nomatch hstep

theorem inv_reach {ok : State ι σ τ ε → Act ι → Prop} (h : Reach (applying c) ok s) :
    Inv c s := by
  refine h.invariant (I := Inv c) ?_ fun _ _ _ _ inv _ hstep => inv_step inv hstep
  rintro s ⟨hcommitted, -, hruns, hgaps, hrecords, hpossible⟩
  have happlied : s.applied = s.origin.rows.length := by rw [State.applied, hcommitted]
  refine ⟨hgaps, happlied.ge, ?_, ?_, ?_, fun p => ?_⟩
  · rw [happlied, hcommitted]
    exact hrecords
  · rw [happlied, hcommitted, List.drop_eq_nil_of_le (List.length_take_le ..), effect]
  · rw [happlied, hcommitted]
    exact hpossible
  · rw [hruns p]
    exact trivial

end Preservation

section Lists

theorem next_done {τ ε : Type*} (done left : List (Migration τ)) :
    (next (ε := ε) done left).done = done := by
  cases left with
  | nil => rfl
  | cons migration rest => rfl

theorem next_ne_raised {τ ε : Type*} (done left : List (Migration τ)) (e : Raised ε)
    (other : List (Migration τ)) : next done left ≠ .raised e other := by
  cases left with
  | nil => nofun
  | cons migration rest => nofun

theorem next_unlocked {τ ε : Type*} (done left : List (Migration τ)) :
    (next (ε := ε) done left).locked = false := by
  cases left with
  | nil => rfl
  | cons migration rest => rfl

variable {ι σ τ ε : Type*} [DecidableEq ι] {c : Setting ι σ τ ε} {s t : State ι σ τ ε} {p : ι}
  {now : Int}

def newlyApplied (c : Setting ι σ τ ε) (s : State ι σ τ ε) : List (Migration τ) :=
  (c.discovered.take s.applied).drop s.origin.rows.length

/-- The lists of the runs divide what has been applied between them. -/
structure Divided (c : Setting ι σ τ ε) (s : State ι σ τ ε) : Prop where
  calm : ∀ p e done, s.runs p ≠ .raised e done
  due : ∀ p migration rest done, s.runs p = .checking migration rest done →
    (c.planned p).drop s.applied = migration :: rest
  disjoint : ∀ p q, p ≠ q → List.Disjoint (s.runs p).done (s.runs q).done
  nodup : ∀ p, (s.runs p).done.Nodup
  applied : ∀ migration, (∃ p, migration ∈ (s.runs p).done) ↔ migration ∈ newlyApplied c s

theorem Divided.set (h : Divided c s) {run : Run τ ε} {db : Shared ι (Db σ)}
    (hrows : db.committed.rows.length = s.applied) (hdone : run.done = (s.runs p).done)
    (hcalm : ∀ e done, run ≠ .raised e done)
    (hdue : ∀ migration rest done, run = .checking migration rest done →
      (c.planned p).drop s.applied = migration :: rest) : Divided c (s.set p run db) := by
  have happlied : (s.set p run db).applied = s.applied := hrows
  have hsame : ∀ q, ((s.set p run db).runs q).done = (s.runs q).done := by
    intro q
    by_cases hq : q = p
    · subst hq
      simpa only [State.set, Function.update_self] using hdone
    · simp only [State.set, Function.update_of_ne hq]
  refine ⟨fun q e done => ?_, fun q migration rest done => ?_, fun q r hne => ?_, fun q => ?_,
    fun migration => ?_⟩
  · by_cases hq : q = p
    · subst hq
      simpa only [State.set, Function.update_self] using hcalm e done
    · simpa only [State.set, Function.update_of_ne hq] using h.calm q e done
  · rw [happlied]
    by_cases hq : q = p
    · subst hq
      simpa only [State.set, Function.update_self] using hdue migration rest done
    · simpa only [State.set, Function.update_of_ne hq] using h.due q migration rest done
  · rw [hsame, hsame]
    exact h.disjoint q r hne
  · rw [hsame]
    exact h.nodup q
  · simp only [hsame, newlyApplied, happlied]
    exact h.applied migration

theorem Divided.commit (h : Divided c s) (inv : Inv c s) {migration : Migration τ}
    {rest done : List (Migration τ)} (hrun : s.runs p = .committing migration rest done)
    (hstep : step c s (.step p now) = some t) : Divided c t := by
  obtain ⟨-, happlied, ⟨later, hnext⟩, hrunt, hothers, horigin⟩ := inv_committing inv hrun hstep
  have hself : (t.runs p).done = (s.runs p).done ++ [migration] := by
    rw [hrunt, next_done, hrun, Run.done]
  have hnew : newlyApplied c t = newlyApplied c s ++ [migration] := by
    have hshort : s.origin.rows.length ≤ (c.discovered.take s.applied).length := by
      have hlength := congrArg List.length inv.records
      rw [List.length_map, List.length_map] at hlength
      rw [← hlength]
      exact inv.start
    rw [newlyApplied, newlyApplied, happlied, horigin, List.take_add_one,
      getElem?_of_drop hnext, Option.toList_some, List.drop_append_of_le_length hshort]
  have hfresh : ∀ q, migration ∉ (s.runs q).done := by
    intro q hmem
    have hold : migration ∈ c.discovered.take s.applied :=
      List.mem_of_mem_drop ((h.applied migration).mp ⟨q, hmem⟩)
    refine take_drop_disjoint inv.gaps s.applied ?_ (List.mem_map_of_mem hold)
    rw [hnext]
    exact List.mem_cons_self ..
  have hdisjoint : ∀ q ≠ p, List.Disjoint (t.runs p).done (t.runs q).done := by
    intro q hq
    rw [hself, hothers q hq, List.disjoint_append_left, List.singleton_disjoint]
    exact ⟨h.disjoint p q (Ne.symm hq), hfresh q⟩
  refine ⟨fun q e done => ?_, fun q first left list hchecking => ?_, fun q r hne => ?_,
    fun q => ?_, fun other => ?_⟩
  · by_cases hq : q = p
    · subst hq
      rw [hrunt]
      exact next_ne_raised _ _ e done
    · rw [hothers q hq]
      exact h.calm q e done
  · -- nobody else is inside, and this run has given up the lock
    by_cases hq : q = p
    · subst hq
      rw [hrunt] at hchecking
      have hout := next_unlocked (ε := ε) (done ++ [migration]) rest
      rw [hchecking] at hout
      nomatch hout
    · have hsure := inv.sure p
      rw [hrun] at hsure
      obtain ⟨schema, stamp, hwriter, -⟩ := hsure
      have hout := inv.unlocked hwriter hq
      rw [← hothers q hq, hchecking] at hout
      nomatch hout
  · by_cases hq : q = p
    · subst hq
      exact hdisjoint r (Ne.symm hne)
    · by_cases hr : r = p
      · subst hr
        exact List.disjoint_comm.mp (hdisjoint q hq)
      · rw [hothers q hq, hothers r hr]
        exact h.disjoint q r hne
  · by_cases hq : q = p
    · subst hq
      rw [hself]
      exact (h.nodup q).append (List.nodup_singleton _)
        (List.disjoint_singleton.mpr (hfresh q))
    · rw [hothers q hq]
      exact h.nodup q
  · rw [hnew, List.mem_append, List.mem_singleton, ← h.applied other]
    constructor
    · rintro ⟨q, hmem⟩
      by_cases hq : q = p
      · subst hq
        rw [hself, List.mem_append, List.mem_singleton] at hmem
        exact hmem.imp (fun hold => ⟨q, hold⟩) id
      · rw [hothers q hq] at hmem
        exact .inl ⟨q, hmem⟩
    · rintro (⟨q, hmem⟩ | rfl)
      · by_cases hq : q = p
        · subst hq
          exact ⟨q, by rw [hself]; exact List.mem_append_left _ hmem⟩
        · exact ⟨q, by rwa [hothers q hq]⟩
      · exact ⟨p, by rw [hself]; exact List.mem_append_right _ (List.mem_singleton_self _)⟩

theorem Divided.step {act : Act ι} (h : Divided c s) (inv : Inv c s) (hok : Undisturbed s act)
    (hstep : step c s act = some t) : Divided c t := by
  cases act with
  | crash p =>
    rw [Migrations.step] at hstep
    split at hstep
    · cases hstep
    · obtain rfl := Option.some.inj hstep
      exact h.set (by rw [kill_committed]; rfl) rfl (by simp) (by simp)
  | step p now =>
    have hsure := inv.sure p
    cases hrun : s.runs p with
    | connecting =>
      simp only [Undisturbed, hrun] at hok
      simp only [Migrations.step, hrun] at hstep
      cases htracking : s.db.committed.tracking with
      | some rows =>
        rw [htracking] at hstep
        obtain rfl := Option.some.inj hstep
        exact h.set rfl (by rw [hrun]; rfl) (by simp) (by simp)
      | none =>
        rw [htracking] at hstep hok
        have hfree := Option.isNone_iff_eq_none.mp (hok rfl)
        rw [begin?_eq_some.mpr ⟨hfree, rfl⟩] at hstep
        obtain rfl := Option.some.inj hstep
        exact h.set rfl (by rw [hrun]; rfl) (by simp) (by simp)
    | creating =>
      rw [hrun] at hsure
      simp only [Migrations.step, hrun, copyOf_eq_some.mpr hsure.1, Option.bind_some,
        inside] at hstep
      obtain rfl := Option.some.inj hstep
      refine h.set ?_ (by rw [hrun]; rfl) (by simp) (by simp)
      rw [State.applied, Db.rows, Db.rows, hsure.2]
      rfl
    | planning =>
      rw [hrun] at hsure
      obtain ⟨rows, hrows⟩ := Option.isSome_iff_exists.mp hsure
      have hsame : s.db.committed.rows = rows := by rw [Db.rows, hrows, Option.getD_some]
      have hrecords := inv.records
      rw [State.applied, hsame] at hrecords
      simp only [Migrations.step, hrun, hrows,
        pendingMigrations_ok inv.gaps (c.target p) hrecords] at hstep
      obtain rfl := Option.some.inj hstep
      refine h.set rfl (by rw [next_done, hrun]; rfl) (next_ne_raised _ _) ?_
      intro migration rest done hchecking
      have hout := next_unlocked (ε := ε) [] ((upTo (c.target p) c.discovered).drop rows.length)
      rw [hchecking] at hout
      cases hout
    | trying attempt migration rest done =>
      rw [hrun] at hsure
      simp only [Undisturbed, hrun] at hok
      simp only [Migrations.step, hrun] at hstep
      cases hwriter : s.db.writer with
      | none =>
        rw [hwriter] at hok
        rw [begin?_eq_some.mpr ⟨hwriter, rfl⟩] at hstep
        obtain rfl := Option.some.inj hstep
        refine h.set rfl (by rw [hrun]; rfl) (by simp) ?_
        rintro _ _ _ ⟨⟩
        obtain ⟨-, -, j, hj, hleft⟩ := hsure
        have hcaught : j = s.applied := by
          by_contra hbehind
          exact hok ((inv.mem_rows hj hleft).mpr hbehind)
        rw [← hcaught]
        exact hleft
      | some writer =>
        rw [hwriter] at hok
        have hbusy : s.db.begin? p = none := by
          rw [begin?_eq_none, hwriter]
          simp
        rw [hbusy] at hstep
        obtain rfl := Option.some.inj hstep
        have hnotLast : attempt ≠ ensureSchemaRetries - 1 := by
          dsimp only at hok
          omega
        rw [if_neg hnotLast]
        exact h.set rfl (by rw [hrun]; rfl) (by simp) (by simp)
    | sleeping attempt migration rest done =>
      simp only [Migrations.step, hrun] at hstep
      obtain rfl := Option.some.inj hstep
      exact h.set rfl (by rw [hrun]; rfl) (by simp) (by simp)
    | checking migration rest done =>
      have hleft := h.due p migration rest done hrun
      rw [hrun] at hsure
      obtain ⟨hwriter, htable, -⟩ := hsure
      obtain ⟨rows, hrows⟩ := Option.isSome_iff_exists.mp htable
      have hsame : s.db.committed.rows = rows := by rw [Db.rows, hrows, Option.getD_some]
      have hknown := inv.mem_rows (le_refl _) hleft
      rw [hsame] at hknown
      simp only [Migrations.step, hrun, copyOf_eq_some.mpr hwriter, Option.bind_some, inside,
        hrows] at hstep
      rw [if_neg fun hmem => hknown.mp hmem rfl] at hstep
      obtain rfl := Option.some.inj hstep
      exact h.set rfl (by rw [hrun]; rfl) (by simp) (by simp)
    | executing stmts migration rest done =>
      obtain ⟨run, db, rfl, hdb, -, hruns⟩ := step_executing inv hrun hstep
      have hrows : db.committed.rows.length = s.applied := by rw [hdb, State.applied]
      cases hruns with
      | inl hmore =>
        obtain ⟨stmts, rfl⟩ := hmore
        exact h.set hrows (by rw [hrun]; rfl) (by simp) (by simp)
      | inr hall =>
        rw [hall]
        exact h.set hrows (by rw [hrun]; rfl) (by simp) (by simp)
    | committing migration rest done => exact h.commit inv hrun hstep
    | returned done =>
      simp only [Migrations.step, hrun] at hstep
      cases hstep
    | raised e done =>
      simp only [Migrations.step, hrun] at hstep
      cases hstep
    | crashed done =>
      simp only [Migrations.step, hrun] at hstep
      cases hstep

end Lists

section Progress

variable {ι σ τ ε : Type*} {c : Setting ι σ τ ε} {s : State ι σ τ ε} {p : ι}

def Migration.cost (migration : Migration τ) : Nat :=
  migration.statements.length + 2 * ensureSchemaRetries + 4

def costs (migrations : List (Migration τ)) : Nat :=
  (migrations.map Migration.cost).sum

def remaining (c : Setting ι σ τ ε) : Run τ ε → Nat
  | .connecting => costs c.discovered + 3
  | .creating => costs c.discovered + 2
  | .planning => costs c.discovered + 1
  | .trying attempt migration rest _ =>
    2 * (ensureSchemaRetries - attempt) + migration.statements.length + 4 + costs rest
  | .sleeping attempt migration rest _ =>
    2 * (ensureSchemaRetries - attempt) + migration.statements.length + 3 + costs rest
  | .checking migration rest _ => migration.statements.length + 3 + costs rest
  | .executing stmts _ rest _ => stmts.length + 2 + costs rest
  | .committing _ rest _ => 1 + costs rest
  | .returned _ | .raised .. | .crashed _ => 0

theorem remaining_next (c : Setting ι σ τ ε) (done left : List (Migration τ)) :
    remaining c (next done left) = costs left := by
  cases left with
  | nil => rfl
  | cons migration rest =>
    rw [next, remaining, costs, costs, List.map_cons, List.sum_cons, Migration.cost]
    omega

theorem costs_sublist {first second : List (Migration τ)} (h : first.Sublist second) :
    costs first ≤ costs second := by
  induction h with
  | slnil => exact le_refl _
  | cons migration _ ih =>
    simp only [costs, List.map_cons, List.sum_cons] at ih ⊢
    omega
  | cons_cons migration _ ih =>
    simp only [costs, List.map_cons, List.sum_cons] at ih ⊢
    omega

variable [DecidableEq ι]

theorem Inv.progress (inv : Inv c s) (now : Int) (hp : (s.runs p).over = false) :
    ∃ t, step c s (.step p now) = some t ∧
      remaining c (t.runs p) < remaining c (s.runs p) ∧ ∀ q ≠ p, t.runs q = s.runs q := by
  have hsure := inv.sure p
  have hset : ∀ (run : Run τ ε) (db : Shared ι (Db σ)),
      step c s (.step p now) = some (s.set p run db) →
      remaining c run < remaining c (s.runs p) → ∃ t, step c s (.step p now) = some t ∧
        remaining c (t.runs p) < remaining c (s.runs p) ∧ ∀ q ≠ p, t.runs q = s.runs q := by
    intro run db hstep hless
    refine ⟨_, hstep, ?_, fun q hq => Function.update_of_ne hq ..⟩
    simpa only [State.set, Function.update_self] using hless
  cases hrun : s.runs p with
  | connecting =>
    rw [hrun] at hset
    cases htracking : s.db.committed.tracking with
    | some rows =>
      exact hset .planning s.db (by simp only [step, hrun, htracking]) (by simp [remaining])
    | none =>
      cases hbegin : s.db.begin? p with
      | some db =>
        exact hset .creating db (by simp only [step, hrun, htracking, hbegin])
          (by simp [remaining])
      | none =>
        exact hset (.raised .busy []) s.db (by simp only [step, hrun, htracking, hbegin])
          (by simp [remaining])
  | creating =>
    rw [hrun] at hset hsure
    refine hset .planning (.commit { s.db.committed with tracking := some [] }) ?_
      (by simp [remaining])
    simp only [step, hrun, copyOf_eq_some.mpr hsure.1, Option.bind_some, inside]
  | planning =>
    rw [hrun] at hset hsure
    obtain ⟨rows, hrows⟩ := Option.isSome_iff_exists.mp hsure
    have hsame : s.db.committed.rows = rows := by rw [Db.rows, hrows, Option.getD_some]
    have hrecords := inv.records
    rw [State.applied, hsame] at hrecords
    have hpending := pendingMigrations_ok inv.gaps (c.target p) hrecords
    refine hset (next [] ((upTo (c.target p) c.discovered).drop rows.length)) s.db ?_ ?_
    · simp only [step, hrun, hrows, hpending]
    · rw [remaining_next, remaining]
      have hcosts : costs ((upTo (c.target p) c.discovered).drop rows.length) ≤
          costs c.discovered :=
        costs_sublist ((List.drop_sublist ..).trans List.filter_sublist)
      omega
  | trying attempt migration rest done =>
    rw [hrun] at hset hsure
    cases hbegin : s.db.begin? p with
    | some db =>
      refine hset (.checking migration rest done) db (by simp only [step, hrun, hbegin]) ?_
      simp only [remaining]
      omega
    | none =>
      by_cases hlast : attempt = ensureSchemaRetries - 1
      · refine hset (.raised .busy done) s.db ?_ ?_
        · simp only [step, hrun, hbegin, if_pos hlast]
        · simp only [remaining]
          omega
      · refine hset (.sleeping attempt migration rest done) s.db ?_ ?_
        · simp only [step, hrun, hbegin, if_neg hlast]
        · simp only [remaining]
          omega
  | sleeping attempt migration rest done =>
    rw [hrun] at hset hsure
    have hattempt := hsure.1
    refine hset (.trying (attempt + 1) migration rest done) s.db (by simp only [step, hrun]) ?_
    simp only [remaining]
    omega
  | checking migration rest done =>
    rw [hrun] at hset hsure
    obtain ⟨hwriter, htable, -⟩ := hsure
    obtain ⟨rows, hrows⟩ := Option.isSome_iff_exists.mp htable
    by_cases hknown : migration.sequenceNumber ∈ rows.map (·.sequenceNumber)
    · refine hset (next (done ++ [migration]) rest) s.db.rollback ?_ ?_
      · simp only [step, hrun, copyOf_eq_some.mpr hwriter, Option.bind_some, inside, hrows,
          if_pos hknown]
      · rw [remaining_next, remaining]
        omega
    · refine hset (.executing migration.statements migration rest done) s.db ?_ ?_
      · simp only [step, hrun, copyOf_eq_some.mpr hwriter, Option.bind_some, inside, hrows,
          if_neg hknown]
      · simp only [remaining]
        omega
  | executing stmts migration rest done =>
    rw [hrun] at hset hsure
    obtain ⟨copy, schema, hwriter, htracking, hcopy, -, hdue⟩ := hsure
    cases stmts with
    | cons stmt stmts =>
      cases hstmt : c.exec copy.schema stmt with
      | error e =>
        rw [execStatements, hstmt] at hcopy
        cases hcopy
      | ok middle =>
        refine hset (.executing stmts migration rest done)
          (s.db.work p { copy with schema := middle }) ?_ ?_
        · simp only [step, hrun, copyOf_eq_some.mpr hwriter, Option.bind_some, inside, hstmt]
        · simp only [remaining, List.length_cons]
          omega
    | nil =>
      obtain ⟨rows, hrows⟩ := Option.isSome_iff_exists.mp hdue.1
      have hsame : s.db.committed.rows = rows := by rw [Db.rows, hrows, Option.getD_some]
      have hknown := inv.mem_rows (le_refl _) hdue.2
      rw [hsame] at hknown
      refine hset (.committing migration rest done)
        (s.db.work p { copy with tracking := some (rows ++ [migration.row now]) }) ?_ ?_
      · simp only [step, hrun, copyOf_eq_some.mpr hwriter, Option.bind_some, inside, htracking,
          hrows, if_neg fun hmem => hknown.mp hmem rfl]
      · simp only [remaining, List.length_nil]
        omega
  | committing migration rest done =>
    rw [hrun] at hset hsure
    obtain ⟨schema, stamp, hwriter, -⟩ := hsure
    refine hset (next (done ++ [migration]) rest) (.commit
      ⟨schema, some (s.db.committed.rows ++ [migration.row stamp])⟩) ?_ ?_
    · simp only [step, hrun, copyOf_eq_some.mpr hwriter, Option.bind_some, inside]
    · rw [remaining_next, remaining]
      omega
  | returned done =>
    rw [hrun] at hp
    cases hp
  | raised e done =>
    rw [hrun] at hp
    cases hp
  | crashed done =>
    rw [hrun] at hp
    cases hp

end Progress

section Concurrency

variable {ι σ τ ε : Type*} [DecidableEq ι] {c : Setting ι σ τ ε} {s : State ι σ τ ε}

instance (s : State ι σ τ ε) : ∀ act, Decidable (Undisturbed s act)
  | .crash _ => isTrue trivial
  | .step p _ => by
    unfold Undisturbed
    dsimp only
    split
    · infer_instance
    · split
      · infer_instance
      · infer_instance
    · infer_instance

/-- Two migrations on a schema that is the list of the statements run on it. -/
def sampleMigrations : List (Migration Nat) :=
  [⟨1, "initial_schema", [10], "a"⟩, ⟨2, "add_daemon_sequence", [20], "b"⟩]

def sampleSetting : Setting Bool (List Nat) Nat Unit where
  exec schema stmt := .ok (schema ++ [stmt])
  discovered := sampleMigrations
  target p := if p then none else some 1

def untouched : State Bool (List Nat) Nat Unit where
  db := ⟨⟨[], none⟩, none⟩
  runs := fun _ => .connecting
  origin := ⟨[], none⟩

theorem untouched_init : (applying sampleSetting).init untouched :=
  ⟨rfl, rfl, fun _ => rfl, by decide, rfl, [10, 20], rfl⟩

end Concurrency

end Waitbus.Migrations
