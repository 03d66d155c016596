import Waitbus.Prune
import Waitbus.EnsureSchema

/-! A `db prune --no-dry-run` among producers that go on writing. The selection, the `DELETE` and
the copy that replaces the database are on three connections, and nothing is locked from one to the
next. The log beside the database belongs to the path, and so the file that is renamed to it comes
under the log of the file that it replaces. -/

namespace Waitbus.PruneRun
open Python FrameCodec EventStore Runs Prune
open Paging (deleteIds mem_deleteIds row_of_eventId)
open EnsureSchema (ensureSchemaRetries)

section Model

/-- The database file, and the one `VACUUM INTO` writes. -/
inductive File where
  | original
  | target
  deriving DecidableEq

inductive Client where
  | pruner
  | producer (k : Nat)
  deriving DecidableEq

/-- A write transaction: the table as it found it, and as it would leave it. -/
structure Transaction where
  began : Store
  copy : Store

/-- Where the prune is; `deleting` is the attempt of `_delete_ids_with_retry` that is under way, and
in `detached` the connection of the `VACUUM INTO` is closed. -/
inductive Phase where
  | planning (views : List Store)
  | deleting (ids : List Ulid) (attempt : Nat)
  | purged
  | copied
  | detached
  | ended (failed : Bool)

/-- What SQLite keeps a table in. A transaction leaves images of the pages it changes, and those of
one file over the pages of another need not make a database at all. -/
structure Pager (Pages Frames : Type) where
  read : Pages → Option Store
  play : Pages → Frames → Pages
  write : Pages → Store → Frames
  vacuum : Store → Pages
  read_write : ∀ pages seen store, read pages = some seen →
    read (play pages (write pages store)) = some store
  read_vacuum : ∀ store, read (vacuum store) = some store

/-- The files, what `-wal` has beside the one the path names, the lock in `-shm`, and the file each
producer has open. `ever` and `selected` are history: the rows there were at the start or have been
committed since, and those that the plan selected. -/
structure State (Pages Frames : Type) where
  pages : File → Pages
  wal : List Frames
  writer : Option (Client × Transaction)
  path : File
  openOn : Nat → Option File
  phase : Phase
  deleted : Bool
  ever : List Row
  selected : List Row

inductive Act where
  | select
  | plan
  | begin
  | purge
  | busy
  | vacuumInto
  | detach
  | replace
  | stop
  | connect (k : Nat)
  | beginBy (k : Nat)
  | insert (k : Nat) (batch : List (EventInsert × Ulid))
  | commit (k : Nat)
  | close (k : Nat)
  /-- All frames are written back and the log is begun anew, or removed with the last connection. -/
  | writeBack (client : Client)

variable {Pages Frames : Type} (pager : Pager Pages Frames)

/-- The pages a connection to the file has before it: those of the file under the log's. -/
def State.layout (s : State Pages Frames) (file : File) : Pages :=
  s.wal.foldl pager.play (s.pages file)

def State.view (s : State Pages Frames) (file : File) : Option Store :=
  pager.read (s.layout pager file)

def State.transactionOf (s : State Pages Frames) (client : Client) : Option Transaction :=
  match s.writer with
  | some (holder, transaction) => if holder = client then some transaction else none
  | none => none

def State.fileOf (s : State Pages Frames) : Client → Option File
  | .producer k => s.openOn k
  | .pruner =>
    match s.phase with
    | .deleting _ _ | .purged | .copied => some s.path
    | .planning _ | .detached | .ended _ => none

def State.rollback (s : State Pages Frames) : State Pages Frames :=
  { s with writer := none }

def State.release (s : State Pages Frames) (client : Client) : State Pages Frames :=
  if s.writer.any (·.1 = client) then s.rollback else s

/-- `COMMIT` over a connection to the file. -/
def State.append (s : State Pages Frames) (file : File) (table : Store) : State Pages Frames :=
  { s with wal := s.wal ++ [pager.write (s.layout pager file) table], writer := none }

def State.retry (s : State Pages Frames) (ids : List Ulid) (attempt : Nat) : State Pages Frames :=
  { s with phase :=
    if attempt = ensureSchemaRetries - 1 then .ended true else .deleting ids (attempt + 1) }

/-- `_delete_ids_with_retry` has returned. -/
def State.purge (s : State Pages Frames) (vacuum : Bool) : State Pages Frames :=
  { s with deleted := true, phase := if vacuum then .purged else .ended false }

def State.plan (s : State Pages Frames) (maxVariables : Nat) (caps : Caps) (vacuum : Bool)
    (views : Views) : State Pages Frames :=
  match collectDoomedIds maxVariables caps views with
  | .error _ => { s with phase := .ended true }
  | .ok (ids, _) =>
    let rows := ((s.view pager s.path).map (·.rows)).getD []
    let s := { s with selected := rows.filter fun row => row.eventId.any (· ∈ ids) }
    if ids = [] then s.purge vacuum else { s with phase := .deleting ids 0 }

def State.step (maxVariables : Nat) (caps : Caps) (vacuum : Bool) (s : State Pages Frames) :
    Act → Option (State Pages Frames)
  | .select =>
    match s.phase, s.view pager s.path with
    | .planning views, some table => some { s with phase := .planning (views ++ [table]) }
    | _, _ => none
  | .plan =>
    match s.phase with
    | .planning [aged, aggregated, oversized, totalled, capped, freed] =>
      some (s.plan pager maxVariables caps vacuum
        ⟨aged, aggregated, oversized, totalled, capped, freed⟩)
    | _ => none
  | .begin =>
    match s.phase, s.transactionOf .pruner with
    | .deleting ids attempt, none =>
      match s.writer, s.view pager s.path with
      | none, some table => some { s with writer := some (.pruner, ⟨table, table⟩) }
      | none, none => none
      | some _, _ => some (s.retry ids attempt)
    | _, _ => none
  | .purge =>
    match s.phase, s.transactionOf .pruner with
    | .deleting ids _, some transaction =>
      if maxVariables < ids.length then some { s.rollback with phase := .ended true }
      else some ((s.append pager s.path (deleteIds transaction.copy ids)).purge vacuum)
    | _, _ => none
  | .busy =>
    match s.phase, s.transactionOf .pruner with
    | .deleting ids attempt, some _ => some (s.rollback.retry ids attempt)
    | _, _ => none
  | .vacuumInto =>
    match s.phase, s.view pager s.path with
    | .purged, some table => some { s with
        pages := Function.update s.pages .target (pager.vacuum table)
        phase := .copied }
    | _, _ => none
  | .detach =>
    match s.phase with
    | .copied => some { s with phase := .detached }
    | _ => none
  | .replace =>
    match s.phase with
    | .detached => some { s with path := .target, phase := .ended false }
    | _ => none
  -- an exception, also where no table can be read, or the end of the process
  | .stop =>
    match s.phase with
    | .ended _ => none
    | _ => some { s.release .pruner with phase := .ended true }
  | .connect k =>
    match s.openOn k with
    | none => some { s with openOn := Function.update s.openOn k (some s.path) }
    | some _ => none
  | .beginBy k =>
    match s.openOn k, s.writer with
    | some file, none =>
      (s.view pager file).map fun table =>
        { s with writer := some (.producer k, ⟨table, table⟩) }
    | _, _ => none
  | .insert k batch =>
    match s.transactionOf (.producer k) with
    | some transaction =>
      match transaction.copy.insertAll batch with
      | .ok (_, copy) => some { s with writer := some (.producer k, { transaction with copy }) }
      | .error _ => some s.rollback
    | none => none
  -- no page is written where no row has been added
  | .commit k =>
    match s.openOn k, s.transactionOf (.producer k) with
    | some file, some transaction =>
      if transaction.copy.lastSeq = transaction.began.lastSeq then some s.rollback
      else some { s.append pager file transaction.copy with
        ever := s.ever ++ transaction.copy.rows.filter (transaction.began.lastSeq < ·.seq) }
    | _, _ => none
  | .close k =>
    match s.openOn k with
    | some _ => some { s.release (.producer k) with openOn := Function.update s.openOn k none }
    | none => none
  | .writeBack client =>
    (s.fileOf client).map fun file =>
      { s with pages := Function.update s.pages file (s.layout pager file), wal := [] }

def pruning (maxVariables : Nat) (caps : Caps) (vacuum : Bool) :
    System (State Pages Frames) Act where
  init s := s.path = .original ∧ (∀ k, s.openOn k ≠ some .target) ∧ s.writer = none ∧
    s.phase = .planning [] ∧ s.deleted = false ∧ s.selected = [] ∧
      ∃ table, s.view pager s.path = some table ∧ s.ever = table.rows
  step := State.step pager maxVariables caps vacuum

/-- The copy that takes the place of the database has all that was committed to it and finds no
frames in the log, to which nothing comes and of which nothing goes over a connection to a file that
is not the database any more. -/
def Safe (s : State Pages Frames) : Act → Prop
  | .replace => s.wal = [] ∧
    (s.view pager .original).map (·.lastSeq) = (s.view pager .target).map (·.lastSeq)
  | .commit k => ∀ file ∈ s.openOn k, ∀ transaction ∈ s.transactionOf (.producer k),
    file = s.path ∨ transaction.copy.lastSeq = transaction.began.lastSeq
  | .writeBack client => ∀ file ∈ s.fileOf client, file = s.path ∨ s.wal = []
  | _ => True

instance Safe.decidable (s : State Pages Frames) (act : Act) : Decidable (Safe pager s act) := by
  unfold Safe
  split
  · have : Decidable (s.wal = []) := decidable_of_iff (s.wal.isEmpty = true) List.isEmpty_iff
    infer_instance
  · infer_instance
  · have : Decidable (s.wal = []) := decidable_of_iff (s.wal.isEmpty = true) List.isEmpty_iff
    infer_instance
  · infer_instance

/-- The table can be read, and has every row there ever was but those the plan selected, which are
all there until the `DELETE` and all gone after it; a prune that succeeds has made it. -/
structure Exact (s : State Pages Frames) : Prop where
  rows : ∃ table, s.view pager s.path = some table ∧
    ∀ row, row ∈ table.rows ↔ row ∈ s.ever ∧ ¬(s.deleted = true ∧ row ∈ s.selected)
  succeeded : s.phase = .ended false → s.deleted = true

end Model

section Invariant

variable {Pages Frames : Type} {pager : Pager Pages Frames} {s t : State Pages Frames}
  {maxVariables : Nat} {caps : Caps} {vacuum : Bool} {ids : List Ulid} {table : Store}

theorem transactionOf_eq_some {client : Client} {transaction : Transaction} :
    s.transactionOf client = some transaction ↔ s.writer = some (client, transaction) := by
  rw [State.transactionOf]
  split
  · rename_i holder other hwriter
    rw [hwriter]
    by_cases hholder : holder = client
    · simp [hholder]
    · simp [hholder]
  · rename_i hfree
    simp [hfree]

theorem release_writer {client other : Client} {transaction : Transaction}
    (h : (s.release client).writer = some (other, transaction)) :
    other ≠ client ∧ s.writer = some (other, transaction) := by
  rw [State.release] at h
  split_ifs at h with hheld
  · cases h
  · refine ⟨fun hsame => hheld ?_, h⟩
    rw [h, hsame, Option.any_some]
    exact decide_eq_true rfl

theorem release_eq (s : State Pages Frames) (client : Client) :
    s.release client = { s with writer := (s.release client).writer } := by
  rw [State.release]
  split_ifs
  · rfl
  · rfl

def Stage (pager : Pager Pages Frames) (deleted : Bool) (path : File) (selected : List Row)
    (table : Store) (target : Pages) : Phase → Prop
  | .planning views =>
    deleted = false ∧ path = .original ∧ ∀ view ∈ views, view.rows ⊆ table.rows
  | .deleting ids _ => deleted = false ∧ path = .original ∧
    (∀ id ∈ ids, ∃ row ∈ table.rows, row.eventId = some id) ∧
      ∀ row ∈ table.rows, row ∈ selected ↔ ∃ id ∈ ids, row.eventId = some id
  | .purged => deleted = true ∧ path = .original
  | .copied | .detached => deleted = true ∧ path = .original ∧
    ∃ copy, pager.read target = some copy ∧ copy.Grows table
  | .ended _ => True

structure Sound (pager : Pager Pages Frames) (s : State Pages Frames) (table : Store) :
    Prop where
  reads : s.view pager s.path = some table
  rows : ∀ row, row ∈ table.rows ↔ row ∈ s.ever ∧ ¬(s.deleted = true ∧ row ∈ s.selected)
  succeeded : s.phase = .ended false → s.deleted = true
  bounded : ∀ row ∈ s.ever, row.seq ≤ table.lastSeq
  chosen : s.selected ⊆ s.ever
  writing : ∀ k transaction, s.writer = some (.producer k, transaction) →
    ∃ file, s.openOn k = some file ∧
      (file = s.path → transaction.began = table ∧ table.Grows transaction.copy)
  opened : ∀ k, s.openOn k = some .target → s.path = .target
  holding : ∀ transaction, s.writer = some (.pruner, transaction) →
    transaction.copy = table ∧ ∃ ids attempt, s.phase = .deleting ids attempt
  stage : Stage pager s.deleted s.path s.selected table (s.pages .target) s.phase

theorem start_sound (h : (pruning pager maxVariables caps vacuum).init s) :
    ∃ table, Sound pager s table := by
  obtain ⟨hpath, hopen, hfree, hphase, hdeleted, hselected, table, hreads, hever⟩ := h
  refine ⟨table, ?_⟩
  constructor
  case reads => exact hreads
  case rows =>
    intro row
    simp [hever, hdeleted]
  case succeeded =>
    intro h
    rw [hphase] at h
    cases h
  case bounded => exact fun row hrow => (table.bounded row (hever ▸ hrow)).2
  case chosen =>
    rw [hselected]
    exact List.nil_subset _
  case writing =>
    intro k transaction h
    rw [hfree] at h
    cases h
  case opened => exact fun k h => absurd h (hopen k)
  case holding =>
    intro transaction h
    rw [hfree] at h
    cases h
  case stage =>
    rw [hphase]
    exact ⟨hdeleted, hpath, by simp⟩

theorem Sound.path_original (h : Sound pager s table)
    (hrunning : ∀ failed, s.phase ≠ .ended failed) : s.path = .original := by
  have hstage := h.stage
  cases hphase : s.phase with
  | ended failed => exact absurd hphase (hrunning failed)
  | purged =>
    rw [hphase] at hstage
    exact hstage.2
  | planning | deleting | copied | detached =>
    rw [hphase] at hstage
    exact hstage.2.1

/-- The lock is taken or dropped, and connections are opened and closed; nothing is committed. -/
theorem Sound.relock (h : Sound pager s table) {writer : Option (Client × Transaction)}
    {openOn : Nat → Option File}
    (hwriting : ∀ k transaction, writer = some (.producer k, transaction) →
      ∃ file, openOn k = some file ∧
        (file = s.path → transaction.began = table ∧ table.Grows transaction.copy))
    (hopened : ∀ k, openOn k = some .target → s.path = .target)
    (hholding : ∀ transaction, writer = some (.pruner, transaction) →
      transaction.copy = table ∧ ∃ ids attempt, s.phase = .deleting ids attempt) :
    Sound pager { s with writer, openOn } table where
  reads := h.reads
  rows := h.rows
  succeeded := h.succeeded
  bounded := h.bounded
  chosen := h.chosen
  writing := hwriting
  opened := hopened
  holding := hholding
  stage := h.stage

theorem Sound.hold (h : Sound pager s table) {k : Nat} {file : File} {transaction : Transaction}
    (hopen : s.openOn k = some file)
    (hgrows : file = s.path → transaction.began = table ∧ table.Grows transaction.copy) :
    Sound pager { s with writer := some (.producer k, transaction) } table := by
  refine h.relock (fun k' other hwriter => ?_) h.opened fun other hwriter => ?_
  · obtain ⟨hclient, rfl⟩ := Prod.mk.inj (Option.some.inj hwriter)
    obtain rfl := Client.producer.inj hclient
    exact ⟨file, hopen, hgrows⟩
  · cases hwriter

theorem Sound.rollback (h : Sound pager s table) : Sound pager s.rollback table :=
  h.relock (fun k transaction hwriter => by cases hwriter) h.opened
    fun transaction hwriter => by cases hwriter

theorem Sound.turn (h : Sound pager s table) {phase : Phase} {deleted : Bool}
    {selected : List Row} (hidle : ∀ transaction, s.writer ≠ some (.pruner, transaction))
    (hrows : ∀ row, row ∈ table.rows ↔ row ∈ s.ever ∧ ¬(deleted = true ∧ row ∈ selected))
    (hchosen : selected ⊆ s.ever) (hsucceeded : phase = .ended false → deleted = true)
    (hstage : Stage pager deleted s.path selected table (s.pages .target) phase) :
    Sound pager { s with phase, deleted, selected } table where
  reads := h.reads
  rows := hrows
  succeeded := hsucceeded
  bounded := h.bounded
  chosen := hchosen
  writing := h.writing
  opened := h.opened
  holding transaction hwriter := absurd hwriter (hidle transaction)
  stage := hstage

theorem Sound.rephase (h : Sound pager s table) {phase : Phase}
    (hidle : ∀ transaction, s.writer ≠ some (.pruner, transaction))
    (hsucceeded : phase = .ended false → s.deleted = true)
    (hstage : Stage pager s.deleted s.path s.selected table (s.pages .target) phase) :
    Sound pager { s with phase } table :=
  h.turn hidle h.rows h.chosen hsucceeded hstage

theorem Sound.idle (h : Sound pager s table)
    (hphase : ∀ ids attempt, s.phase ≠ .deleting ids attempt) (transaction : Transaction) :
    s.writer ≠ some (.pruner, transaction) := by
  intro hwriter
  obtain ⟨-, ids, attempt, hdeleting⟩ := h.holding transaction hwriter
  exact hphase ids attempt hdeleting

theorem Sound.retry (h : Sound pager s table) {attempt : Nat}
    (hphase : s.phase = .deleting ids attempt)
    (hidle : ∀ transaction, s.writer ≠ some (.pruner, transaction)) :
    Sound pager (s.retry ids attempt) table := by
  rw [State.retry]
  split_ifs
  · exact h.rephase hidle (by simp) trivial
  · refine h.rephase hidle (by simp) ?_
    have hstage := h.stage
    rw [hphase] at hstage
    exact hstage

theorem Sound.select (h : Sound pager s table) {views : List Store}
    (hphase : s.phase = .planning views) :
    Sound pager { s with phase := .planning (views ++ [table]) } table := by
  have hstage := h.stage
  rw [hphase] at hstage
  obtain ⟨hdeleted, hpath, hviews⟩ := hstage
  refine h.rephase (h.idle (by simp [hphase])) (by simp) ⟨hdeleted, hpath, ?_⟩
  intro view hview
  rcases List.mem_append.mp hview with hview | hview
  · exact hviews view hview
  · rw [List.mem_singleton.mp hview]
    exact List.Subset.refl _

theorem mem_plan {views : Views} {ids : List Ulid} {freed : Nat} {id : Ulid}
    (h : collectDoomedIds maxVariables caps views = .ok (ids, freed)) (hid : id ∈ ids) :
    id ∈ eventIds views.aged ∨ id ∈ eventIds views.oversized ∨ id ∈ eventIds views.capped := by
  obtain ⟨cutoff, hcutoff, rfl, -⟩ := collectDoomedIds_ok h
  rw [(sorted_perm _).mem_iff, Views.doomed, List.mem_dedup, List.mem_append, List.mem_append,
    mem_ageIds hcutoff] at hid
  rcases hid with (⟨row, hrow, heq, -⟩ | hsize) | hrows
  · exact .inl (mem_eventIds.mpr ⟨row, hrow, heq⟩)
  · exact .inr (.inl (mem_oldestIds.mp hsize).1)
  · exact .inr (.inr (mem_oldestIds.mp hrows).1)

theorem Sound.plan (h : Sound pager s table)
    {aged aggregated oversized totalled capped freed : Store}
    (hphase : s.phase = .planning [aged, aggregated, oversized, totalled, capped, freed]) :
    Sound pager (s.plan pager maxVariables caps vacuum
      ⟨aged, aggregated, oversized, totalled, capped, freed⟩) table := by
  have hstage := h.stage
  rw [hphase] at hstage
  obtain ⟨hdeleted, hpath, hviews⟩ := hstage
  have hidle := h.idle (by simp [hphase])
  rw [State.plan, h.reads, Option.map_some, Option.getD_some]
  split
  · exact h.rephase hidle (by simp) trivial
  rename_i ids bytes hplan
  have hseen : ∀ id ∈ ids, ∃ row ∈ table.rows, row.eventId = some id := by
    have hview : ∀ view ∈ [aged, aggregated, oversized, totalled, capped, freed], ∀ id,
        id ∈ eventIds view → ∃ row ∈ table.rows, row.eventId = some id := by
      intro view hview id hid
      obtain ⟨row, hrow, heq⟩ := mem_eventIds.mp hid
      exact ⟨row, hviews view hview (Store.mem_fanOutable.mp hrow).1, heq⟩
    intro id hid
    rcases mem_plan hplan hid with hid | hid | hid
    · exact hview aged (by simp) id hid
    · exact hview oversized (by simp) id hid
    · exact hview capped (by simp) id hid
  have hselected : ∀ row, row ∈ table.rows.filter (fun row => row.eventId.any (· ∈ ids)) ↔
      row ∈ table.rows ∧ ∃ id ∈ ids, row.eventId = some id := by
    intro row
    rw [List.mem_filter, Option.any_eq_true]
    simp only [decide_eq_true_eq, and_comm]
  have hchosen : table.rows.filter (fun row => row.eventId.any (· ∈ ids)) ⊆ s.ever :=
    fun row hrow => ((h.rows row).mp ((hselected row).mp hrow).1).1
  dsimp only
  split_ifs with hnone
  · have hnobody : ∀ row, row ∉ table.rows.filter (fun row => row.eventId.any (· ∈ ids)) := by
      intro row hrow
      obtain ⟨-, id, hid, -⟩ := (hselected row).mp hrow
      rw [hnone] at hid
      cases hid
    refine h.turn hidle (fun row => ?_) hchosen (fun _ => rfl) ?_
    · rw [h.rows row, hdeleted]
      simp only [Bool.false_eq_true, false_and, not_false_eq_true, and_true, hnobody row, and_false]
    · cases vacuum
      · trivial
      · exact ⟨rfl, hpath⟩
  · refine h.turn hidle (fun row => ?_) hchosen (by simp)
      ⟨hdeleted, hpath, hseen, fun row hrow => ?_⟩
    · rw [h.rows row, hdeleted]
      simp only [Bool.false_eq_true, false_and]
    · rw [hselected]
      exact and_iff_right hrow

/-- What is committed over a connection to a database that can be read is what is read there. -/
theorem view_append {file : File} (hreads : s.view pager file = some table) (copy : Store) :
    (s.append pager file copy).view pager file = some copy := by
  rw [State.view, State.layout, State.append, List.foldl_append]
  exact pager.read_write _ table copy hreads

theorem Sound.purge (h : Sound pager s table) {attempt : Nat}
    (hphase : s.phase = .deleting ids attempt) :
    Sound pager ((s.append pager s.path (deleteIds table ids)).purge vacuum)
      (deleteIds table ids) := by
  have hstage := h.stage
  rw [hphase] at hstage
  obtain ⟨hdeleted, hpath, -, hselected⟩ := hstage
  constructor
  case reads => exact view_append h.reads _
  case rows =>
    intro row
    rw [mem_deleteIds]
    have hrow := h.rows row
    rw [hdeleted] at hrow
    simp only [Bool.false_eq_true, false_and, not_false_eq_true, and_true] at hrow
    change _ ↔ row ∈ s.ever ∧ ¬(true = true ∧ row ∈ s.selected)
    rw [← hrow]
    refine and_congr_right fun hmem => ?_
    have hsel := hselected row hmem
    constructor
    · rintro hspared ⟨-, hin⟩
      obtain ⟨id, hid, heq⟩ := hsel.mp hin
      exact hspared id heq hid
    · intro hout id heq hid
      exact hout ⟨rfl, hsel.mpr ⟨id, hid, heq⟩⟩
  case succeeded => exact fun _ => rfl
  case bounded => exact h.bounded
  case chosen => exact h.chosen
  case writing =>
    intro k transaction hwriter
    cases hwriter
  case opened => exact h.opened
  case holding =>
    intro transaction hwriter
    cases hwriter
  case stage =>
    cases vacuum
    · trivial
    · exact ⟨rfl, hpath⟩

theorem Sound.vacuumInto (h : Sound pager s table) (hphase : s.phase = .purged) :
    Sound pager { s with
      pages := Function.update s.pages .target (pager.vacuum table)
      phase := .copied } table := by
  have hstage := h.stage
  rw [hphase] at hstage
  obtain ⟨hdeleted, hpath⟩ := hstage
  constructor
  case reads =>
    have hsame : Function.update s.pages .target (pager.vacuum table) s.path = s.pages s.path := by
      rw [hpath]
      exact Function.update_of_ne (by simp) ..
    change pager.read (s.wal.foldl pager.play
      (Function.update s.pages .target (pager.vacuum table) s.path)) = some table
    rw [hsame]
    exact h.reads
  case rows => exact h.rows
  case succeeded =>
    intro hended
    cases hended
  case bounded => exact h.bounded
  case chosen => exact h.chosen
  case writing => exact h.writing
  case opened => exact h.opened
  case holding =>
    intro transaction hwriter
    exact absurd hwriter (h.idle (by simp [hphase]) transaction)
  case stage =>
    refine ⟨hdeleted, hpath, table, ?_, Store.Grows.refl table⟩
    change pager.read (Function.update s.pages .target (pager.vacuum table) .target) = some table
    rw [Function.update_self]
    exact pager.read_vacuum table

theorem Sound.detach (h : Sound pager s table) (hphase : s.phase = .copied) :
    Sound pager { s with phase := .detached } table := by
  have hstage := h.stage
  rw [hphase] at hstage
  exact h.rephase (h.idle (by simp [hphase])) (by simp) hstage

theorem rows_of_grows {store store' : Store} (h : store.Grows store')
    (hlast : store'.lastSeq = store.lastSeq) : store'.rows = store.rows := by
  obtain ⟨new, hrows, -, hnew⟩ := h
  cases new with
  | nil => rw [hrows, List.append_nil]
  | cons row rest =>
    have hrow := store'.bounded row (hrows ▸ List.mem_append_right _ List.mem_cons_self)
    have := hnew row List.mem_cons_self
    omega

theorem Sound.replace (h : Sound pager s table) (hphase : s.phase = .detached)
    (hsafe : Safe pager s .replace) :
    ∃ copy, Sound pager { s with path := .target, phase := .ended false } copy := by
  have hstage := h.stage
  rw [hphase] at hstage
  obtain ⟨hdeleted, hpath, copy, hcopy, hgrows⟩ := hstage
  obtain ⟨hwal, hlast⟩ := hsafe
  have htarget : s.view pager .target = some copy := by
    rw [State.view, State.layout, hwal]
    exact hcopy
  have horiginal : s.view pager .original = some table := hpath ▸ h.reads
  rw [horiginal, htarget, Option.map_some, Option.map_some, Option.some.injEq] at hlast
  have hrows := rows_of_grows hgrows hlast
  refine ⟨copy, ?_⟩
  constructor
  case reads => exact htarget
  case rows => exact hrows ▸ h.rows
  case succeeded => exact fun _ => hdeleted
  case bounded => exact hlast ▸ h.bounded
  case chosen => exact h.chosen
  case writing =>
    intro k transaction hwriter
    obtain ⟨file, hopen, -⟩ := h.writing k transaction hwriter
    refine ⟨file, hopen, ?_⟩
    rintro rfl
    have htarget := h.opened k hopen
    rw [hpath] at htarget
    cases htarget
  case opened => exact fun _ _ => rfl
  case holding =>
    intro transaction hwriter
    exact absurd hwriter (h.idle (by simp [hphase]) transaction)
  case stage => trivial

theorem Grows.rows_eq {store copy : Store} (h : store.Grows copy) :
    copy.rows = store.rows ++ copy.rows.filter (store.lastSeq < ·.seq) := by
  obtain ⟨new, hrows, -, hnew⟩ := h
  have hold : store.rows.filter (store.lastSeq < ·.seq) = [] :=
    List.filter_eq_nil_iff.mpr fun row hrow => by
      have := (store.bounded row hrow).2
      simpa using this
  have hall : new.filter (store.lastSeq < ·.seq) = new :=
    List.filter_eq_self.mpr fun row hrow => decide_eq_true (hnew row hrow)
  rw [hrows, List.filter_append, hold, hall, List.nil_append]

theorem Sound.commit (h : Sound pager s table) {copy : Store} (hgrows : table.Grows copy) :
    Sound pager { s.append pager s.path copy with
      ever := s.ever ++ copy.rows.filter (table.lastSeq < ·.seq) } copy := by
  have hmem : ∀ row, row ∈ copy.rows ↔
      row ∈ table.rows ∨ row ∈ copy.rows.filter (table.lastSeq < ·.seq) := by
    intro row
    rw [← List.mem_append, ← Grows.rows_eq hgrows]
  have hfresh : ∀ row ∈ copy.rows.filter (table.lastSeq < ·.seq), row ∉ s.selected := by
    intro row hrow hsel
    have hlt := of_decide_eq_true (List.mem_filter.mp hrow).2
    have := h.bounded row (h.chosen hsel)
    omega
  have hgrown : table.rows ⊆ copy.rows := fun row hrow => (hmem row).mpr (.inl hrow)
  constructor
  case reads => exact view_append h.reads copy
  case rows =>
    intro row
    rw [hmem, h.rows row, List.mem_append, or_and_right]
    refine or_congr_right (iff_self_and.mpr ?_)
    rintro hrow ⟨-, hsel⟩
    exact hfresh row hrow hsel
  case succeeded => exact h.succeeded
  case bounded =>
    intro row hrow
    rcases List.mem_append.mp hrow with hrow | hrow
    · exact (h.bounded row hrow).trans hgrows.lastSeq_le
    · exact (copy.bounded row (List.mem_of_mem_filter hrow)).2
  case chosen => exact fun row hrow => List.mem_append_left _ (h.chosen hrow)
  case writing =>
    intro k transaction hwriter
    cases hwriter
  case opened => exact h.opened
  case holding =>
    intro transaction hwriter
    cases hwriter
  case stage =>
    have hstage := h.stage
    change Stage pager s.deleted s.path s.selected copy (s.pages .target) s.phase
    cases hphase : s.phase with
    | planning views =>
      rw [hphase] at hstage
      exact ⟨hstage.1, hstage.2.1, fun view hview =>
        List.Subset.trans (hstage.2.2 view hview) hgrown⟩
    | deleting ids attempt =>
      rw [hphase] at hstage
      obtain ⟨hdeleted, hpath, hseen, hselected⟩ := hstage
      refine ⟨hdeleted, hpath, fun id hid => ?_, fun row hrow => ?_⟩
      · obtain ⟨row, hrow, heq⟩ := hseen id hid
        exact ⟨row, hgrown hrow, heq⟩
      · rcases (hmem row).mp hrow with hold | hnew
        · exact hselected row hold
        · -- a new row cannot have the id of one that is still there
          refine ⟨fun hsel => absurd hsel (hfresh row hnew), ?_⟩
          rintro ⟨id, hid, heq⟩
          obtain ⟨old, hold, heq'⟩ := hseen id hid
          rw [row_of_eventId hrow (hgrown hold) heq heq']
          exact (hselected old hold).mpr ⟨id, hid, heq'⟩
    | purged =>
      rw [hphase] at hstage
      exact hstage
    | copied | detached =>
      rw [hphase] at hstage
      obtain ⟨hdeleted, hpath, seen, hseen, hold⟩ := hstage
      exact ⟨hdeleted, hpath, seen, hseen, hold.trans hgrows⟩
    | ended failed => trivial

theorem Sound.writeBack_path (h : Sound pager s table) :
    Sound pager { s with
      pages := Function.update s.pages s.path (s.layout pager s.path), wal := [] } table where
  reads := by
    change pager.read (Function.update s.pages s.path (s.layout pager s.path) s.path) = some table
    rw [Function.update_self]
    exact h.reads
  rows := h.rows
  succeeded := h.succeeded
  bounded := h.bounded
  chosen := h.chosen
  writing := h.writing
  opened := h.opened
  holding := h.holding
  stage := by
    change Stage pager s.deleted s.path s.selected table
      (Function.update s.pages s.path (s.layout pager s.path) .target) s.phase
    by_cases hended : ∃ failed, s.phase = .ended failed
    · obtain ⟨failed, hphase⟩ := hended
      rw [hphase]
      trivial
    · have hpath := h.path_original (not_exists.mp hended)
      rw [Function.update_of_ne (by simp [hpath])]
      exact h.stage

theorem Sound.writeBack (h : Sound pager s table) {file : File}
    (hsafe : file = s.path ∨ s.wal = []) :
    Sound pager { s with
      pages := Function.update s.pages file (s.layout pager file), wal := [] } table := by
  rcases hsafe with rfl | hwal
  · exact h.writeBack_path
  · -- an empty log leaves the file as it was
    have hsame : s.layout pager file = s.pages file := by rw [State.layout, hwal, List.foldl_nil]
    have hstill : { s with
        pages := Function.update s.pages file (s.layout pager file), wal := [] } = s := by
      rw [hsame, Function.update_eq_self, ← hwal]
    rw [hstill]
    exact h

end Invariant

section Result

variable {Pages Frames : Type} {pager : Pager Pages Frames} {s t : State Pages Frames}
  {maxVariables : Nat} {caps : Caps} {vacuum : Bool} {table : Store} {act : Act} {k : Nat}

theorem Sound.begin (h : Sound pager s table)
    (hstep : s.step pager maxVariables caps vacuum .begin = some t) : Sound pager t table := by
  simp only [State.step, h.reads] at hstep
  split at hstep
  · rename_i ids attempt hphase hnot
    split at hstep
    · rename_i found hfree hfound
      obtain rfl := Option.some.inj hstep
      obtain rfl := Option.some.inj hfound
      refine h.relock (fun k transaction hwriter => ?_) h.opened fun transaction hwriter => ?_
      · cases hwriter
      · obtain ⟨-, rfl⟩ := Prod.mk.inj (Option.some.inj hwriter)
        exact ⟨rfl, ids, attempt, hphase⟩
    · cases hstep
    · obtain rfl := Option.some.inj hstep
      refine h.retry hphase fun transaction hwriter => ?_
      rw [transactionOf_eq_some.mpr hwriter] at hnot
      cases hnot
  · cases hstep

theorem Sound.release (h : Sound pager s table) (client : Client) :
    Sound pager (s.release client) table := by
  rw [release_eq]
  exact h.relock (fun k transaction hwriter => h.writing k transaction (release_writer hwriter).2)
    h.opened fun transaction hwriter => h.holding transaction (release_writer hwriter).2

theorem Sound.stop (h : Sound pager s table)
    (hstep : s.step pager maxVariables caps vacuum .stop = some t) : Sound pager t table := by
  simp only [State.step] at hstep
  split at hstep
  · cases hstep
  · obtain rfl := Option.some.inj hstep
    refine (h.release .pruner).rephase (fun transaction hwriter => ?_) (by simp) trivial
    exact (release_writer hwriter).1 rfl

theorem Sound.beginBy (h : Sound pager s table)
    (hstep : s.step pager maxVariables caps vacuum (.beginBy k) = some t) :
    Sound pager t table := by
  simp only [State.step] at hstep
  split at hstep
  · rename_i file hopen hfree
    obtain ⟨found, hfound, rfl⟩ := Option.map_eq_some_iff.mp hstep
    refine h.hold hopen ?_
    rintro rfl
    obtain rfl := Option.some.inj (hfound.symm.trans h.reads)
    exact ⟨rfl, Store.Grows.refl _⟩
  · cases hstep

theorem Sound.insert (h : Sound pager s table) {batch : List (EventInsert × Ulid)}
    (hstep : s.step pager maxVariables caps vacuum (.insert k batch) = some t) :
    Sound pager t table := by
  simp only [State.step] at hstep
  split at hstep
  · rename_i transaction htransaction
    obtain ⟨file, hopen, hgrows⟩ := h.writing k transaction (transactionOf_eq_some.mp htransaction)
    split at hstep
    · rename_i count copy hbatch
      obtain rfl := Option.some.inj hstep
      refine h.hold hopen fun hpath => ?_
      obtain ⟨hbegan, hcopy⟩ := hgrows hpath
      exact ⟨hbegan, hcopy.trans (insertAll_grows hbatch)⟩
    · obtain rfl := Option.some.inj hstep
      exact h.rollback
  · cases hstep

theorem Sound.close (h : Sound pager s table)
    (hstep : s.step pager maxVariables caps vacuum (.close k) = some t) : Sound pager t table := by
  simp only [State.step] at hstep
  split at hstep
  · rename_i file hopen
    obtain rfl := Option.some.inj hstep
    have hrelease := h.release (.producer k)
    refine hrelease.relock (fun k' transaction hwriter => ?_) (fun k' htarget => ?_)
      hrelease.holding
    · obtain ⟨hne, hwriter⟩ := release_writer hwriter
      obtain ⟨file', hopen', hgrows⟩ := h.writing k' transaction hwriter
      refine ⟨file', ?_, ?_⟩
      · rw [Function.update_of_ne fun hsame => hne (congrArg Client.producer hsame), hopen']
      · rw [release_eq]
        exact hgrows
    · rw [release_eq]
      rcases eq_or_ne k' k with rfl | hk
      · rw [Function.update_self] at htarget
        cases htarget
      · rw [Function.update_of_ne hk] at htarget
        exact h.opened k' htarget
  · cases hstep

theorem Sound.connect (h : Sound pager s table)
    (hstep : s.step pager maxVariables caps vacuum (.connect k) = some t) :
    Sound pager t table := by
  simp only [State.step] at hstep
  split at hstep
  · rename_i hclosed
    obtain rfl := Option.some.inj hstep
    refine h.relock (fun k' transaction hwriter => ?_) (fun k' htarget => ?_) h.holding
    · obtain ⟨file, hopen, hgrows⟩ := h.writing k' transaction hwriter
      have hne : k' ≠ k := by
        rintro rfl
        rw [hclosed] at hopen
        cases hopen
      exact ⟨file, by rw [Function.update_of_ne hne, hopen], hgrows⟩
    · rcases eq_or_ne k' k with rfl | hne
      · rw [Function.update_self] at htarget
        exact Option.some.inj htarget
      · rw [Function.update_of_ne hne] at htarget
        exact h.opened k' htarget
  · cases hstep

theorem Sound.producer_commit (h : Sound pager s table) (hsafe : Safe pager s (.commit k))
    (hstep : s.step pager maxVariables caps vacuum (.commit k) = some t) :
    ∃ after, Sound pager t after := by
  simp only [State.step] at hstep
  split at hstep
  · rename_i file transaction hopen htransaction
    split_ifs at hstep with hnone
    · obtain rfl := Option.some.inj hstep
      exact ⟨table, h.rollback⟩
    · obtain rfl := Option.some.inj hstep
      obtain rfl := (hsafe file hopen transaction htransaction).resolve_right hnone
      obtain ⟨file, hopen', hgrows⟩ :=
        h.writing k transaction (transactionOf_eq_some.mp htransaction)
      obtain rfl := Option.some.inj (hopen.symm.trans hopen')
      obtain ⟨hbegan, hcopy⟩ := hgrows rfl
      rw [hbegan]
      exact ⟨transaction.copy, h.commit hcopy⟩
  · cases hstep

theorem Sound.step (h : Sound pager s table) (hsafe : Safe pager s act)
    (hstep : s.step pager maxVariables caps vacuum act = some t) :
    ∃ after, Sound pager t after := by
  cases act with
  | begin => exact ⟨table, h.begin hstep⟩
  | stop => exact ⟨table, h.stop hstep⟩
  | connect k => exact ⟨table, h.connect hstep⟩
  | beginBy k => exact ⟨table, h.beginBy hstep⟩
  | insert k batch => exact ⟨table, h.insert hstep⟩
  | commit k => exact h.producer_commit hsafe hstep
  | close k => exact ⟨table, h.close hstep⟩
  | select =>
    simp only [State.step, h.reads] at hstep
    split at hstep
    · rename_i views found hphase hfound
      obtain rfl := Option.some.inj hstep
      obtain rfl := Option.some.inj hfound
      exact ⟨table, h.select hphase⟩
    · cases hstep
  | plan =>
    simp only [State.step] at hstep
    split at hstep
    · rename_i hphase
      obtain rfl := Option.some.inj hstep
      exact ⟨table, h.plan hphase⟩
    · cases hstep
  | purge =>
    simp only [State.step] at hstep
    split at hstep
    · rename_i ids attempt transaction hphase htransaction
      obtain ⟨hcopy, -⟩ := h.holding transaction (transactionOf_eq_some.mp htransaction)
      split_ifs at hstep
      · obtain rfl := Option.some.inj hstep
        refine ⟨table, h.rollback.rephase (fun other hwriter => ?_) (by simp) trivial⟩
        cases hwriter
      · obtain rfl := Option.some.inj hstep
        rw [hcopy]
        exact ⟨deleteIds table ids, h.purge hphase⟩
    · cases hstep
  | busy =>
    simp only [State.step] at hstep
    split at hstep
    · rename_i ids attempt transaction hphase htransaction
      obtain rfl := Option.some.inj hstep
      refine ⟨table, h.rollback.retry hphase fun other hwriter => ?_⟩
      cases hwriter
    · cases hstep
  | vacuumInto =>
    simp only [State.step, h.reads] at hstep
    split at hstep
    · rename_i found hphase hfound
      obtain rfl := Option.some.inj hstep
      obtain rfl := Option.some.inj hfound
      exact ⟨table, h.vacuumInto hphase⟩
    · cases hstep
  | detach =>
    simp only [State.step] at hstep
    split at hstep
    · rename_i hphase
      obtain rfl := Option.some.inj hstep
      exact ⟨table, h.detach hphase⟩
    · cases hstep
  | replace =>
    simp only [State.step] at hstep
    split at hstep
    · rename_i hphase
      obtain rfl := Option.some.inj hstep
      exact h.replace hphase hsafe
    · cases hstep
  | writeBack client =>
    simp only [State.step] at hstep
    obtain ⟨file, hfile, rfl⟩ := Option.map_eq_some_iff.mp hstep
    exact ⟨table, h.writeBack (hsafe file hfile)⟩

theorem sound_run (h : Reach (pruning pager maxVariables caps vacuum) (Safe pager) s) :
    ∃ table, Sound pager s table := by
  refine h.invariant (fun _ => start_sound) ?_
  rintro s act t - ⟨table, hsound⟩ hsafe hstep
  exact hsound.step hsafe hstep

/-- A prune deletes what its plan selected and nothing else, and loses no row that others commit, in
every run in which its copy comes to the path with all there is and with no log beside it. -/
theorem prune_exact (pager : Pager Pages Frames) (maxVariables : Nat) (caps : Caps)
    (vacuum : Bool) {s : State Pages Frames}
    (h : Reach (pruning pager maxVariables caps vacuum) (Safe pager) s) : Exact pager s := by
  obtain ⟨table, hsound⟩ := sound_run h
  exact ⟨⟨table, hsound.reads, hsound.rows⟩, hsound.succeeded⟩

end Result

section Alone

variable {Pages Frames : Type} {pager : Pager Pages Frames} {s : State Pages Frames}
  {maxVariables : Nat} {caps : Caps} {table : Store}

def selects : List Act :=
  [.select, .select, .select, .select, .select, .select, .plan]

theorem exec_selects (maxVariables : Nat) (caps : Caps) (hphase : s.phase = .planning [])
    (hreads : s.view pager s.path = some table) :
    (pruning pager maxVariables caps false).exec s selects =
      some (s.plan pager maxVariables caps false (.still table)) := by
  have hselect : ∀ views, ({ s with phase := .planning views } : State Pages Frames).step pager
      maxVariables caps false .select =
        some { s with phase := .planning (views ++ [table]) } := by
    intro views
    have hread : ({ s with phase := .planning views } : State Pages Frames).view pager s.path =
        some table := hreads
    simp only [State.step, hread]
  have hstart : s = { s with phase := .planning [] } := by rw [← hphase]
  rw [hstart]
  simp only [selects, System.exec, pruning, hselect, Option.bind_some, List.nil_append,
    List.cons_append]
  rfl

theorem begin_free {ids : List Ulid} {attempt : Nat} {vacuum : Bool}
    (hphase : s.phase = .deleting ids attempt) (hfree : s.writer = none)
    (hreads : s.view pager s.path = some table) :
    s.step pager maxVariables caps vacuum .begin =
      some { s with writer := some (.pruner, ⟨table, table⟩) } := by
  have hnone : s.transactionOf .pruner = none := by rw [State.transactionOf, hfree]
  simp only [State.step, hphase, hnone, hfree, hreads]

theorem purge_held {ids : List Ulid} {attempt : Nat} {vacuum : Bool} {transaction : Transaction}
    (hphase : s.phase = .deleting ids attempt)
    (hheld : s.writer = some (.pruner, transaction)) (hfew : ids.length ≤ maxVariables) :
    s.step pager maxVariables caps vacuum .purge =
      some ((s.append pager s.path (deleteIds transaction.copy ids)).purge vacuum) := by
  simp only [State.step, hphase, transactionOf_eq_some.mpr hheld, if_neg (not_lt.mpr hfew)]

theorem exec_alone (h : (pruning pager maxVariables caps false).init s) :
    ∃ acts t failed before after, (pruning pager maxVariables caps false).exec s acts = some t ∧
      t.phase = .ended failed ∧ s.view pager s.path = some before ∧
        t.view pager t.path = some after ∧
          after.rows = (prune maxVariables false ⟨caps, false⟩ before).2.rows := by
  obtain ⟨-, -, hfree, hphase, -, -, table, hreads, -⟩ := h
  have hplan := exec_selects maxVariables caps hphase hreads
  rw [State.plan, hreads, Option.map_some, Option.getD_some] at hplan
  cases hids : collectDoomedIds maxVariables caps (.still table) with
  | error exc =>
    rw [hids] at hplan
    refine ⟨selects, _, true, table, table, hplan, rfl, hreads, hreads, ?_⟩
    rw [prune, if_neg Bool.false_ne_true, hids]
  | ok result =>
    obtain ⟨ids, freed⟩ := result
    rw [hids] at hplan
    dsimp only at hplan
    split_ifs at hplan with hnone
    · refine ⟨selects, _, false, table, table, hplan, rfl, hreads, hreads, ?_⟩
      rw [prune, if_neg Bool.false_ne_true, hids]
      refine (List.filter_eq_self.mpr fun row _ => ?_).symm
      rw [hnone, Option.all_eq_true]
      exact fun id _ => decide_eq_true List.not_mem_nil
    · obtain ⟨-, -, -, hfew⟩ := collectDoomedIds_ok hids
      let u : State Pages Frames := { s with
        phase := .deleting ids 0
        selected := table.rows.filter fun row => row.eventId.any (· ∈ ids) }
      let v : State Pages Frames := { u with writer := some (.pruner, ⟨table, table⟩) }
      have hbegin : u.step pager maxVariables caps false .begin = some v :=
        begin_free rfl hfree hreads
      let w : State Pages Frames := (v.append pager v.path (deleteIds table ids)).purge false
      have hheld : v.writer = some (.pruner, ⟨table, table⟩) := rfl
      have hpurge : v.step pager maxVariables caps false .purge = some w :=
        purge_held rfl hheld hfew
      refine ⟨selects ++ [.begin, .purge], w, false, table, deleteIds table ids, ?_, rfl, hreads,
        view_append hreads _, ?_⟩
      · rw [System.exec_append, hplan]
        change (u.step pager maxVariables caps false .begin).bind _ = _
        rw [hbegin]
        change (v.step pager maxVariables caps false .purge).bind _ = _
        rw [hpurge]
        rfl
      · rw [prune, if_neg Bool.false_ne_true, hids]
        rfl

end Alone

section Samples

/-- The pages of a table, which is on others once a `VACUUM` has closed its gaps. -/
structure Layout where
  compacted : Bool
  table : Option Store

/-- Images of pages of one layout make no table over those of the other. -/
def twoLayouts : Pager Layout (Bool × Store) where
  read pages := pages.table
  play pages frames := { pages with
    table := if frames.1 = pages.compacted then some frames.2 else none }
  write pages store := (pages.compacted, store)
  vacuum store := ⟨true, some store⟩
  read_write _ _ _ _ := if_pos rfl
  read_vacuum _ := rfl

def oneRow : Caps :=
  ⟨0, 2 ^ 30, some 1, 8192⟩

def sampleStart : State Layout (Bool × Store) where
  pages := fun _ => ⟨false, some (sampleStore 2)⟩
  wal := []
  writer := none
  path := .original
  openOn := fun _ => none
  phase := .planning []
  deleted := false
  ever := (sampleStore 2).rows
  selected := []

theorem sampleStart_init : (pruning twoLayouts 32766 oneRow true).init sampleStart :=
  ⟨rfl, fun _ => by simp [sampleStart], rfl, rfl, rfl, rfl, sampleStore 2, rfl, rfl⟩

/-- A producer writes a row of its own in one go, and the log is written back as it leaves. -/
def emits (k n : Nat) : List Act :=
  [.connect k, .beginBy k, .insert k [(sampleEvent n, ulidAt n)], .commit k,
    .writeBack (.producer k), .close k]

/-- The `DELETE` and the copy, to the point where its connection is closed. -/
def copies : List Act :=
  [.begin, .purge, .vacuumInto, .writeBack .pruner, .detach]

/-- One row is deleted; a producer commits while the prune waits for the lock, and again when the
copy is in place. -/
def sampleQuiet : List Act :=
  [.connect 0] ++ selects ++ [.beginBy 0, .insert 0 [(sampleEvent 3, ulidAt 3)], .begin, .commit 0,
    .close 0] ++ copies ++ [.replace] ++ emits 0 4

theorem prune_exact_run :
    ∃ s : State Layout (Bool × Store), s.path = .target ∧
      (s.view twoLayouts s.path).map (·.rows.length) = some 3 ∧ Exact twoLayouts s := by
  obtain ⟨s, hrun, hpath, hlength⟩ :
      ∃ s ∈ (pruning twoLayouts 32766 oneRow true).exec sampleStart sampleQuiet,
        s.path = .target ∧ (s.view twoLayouts s.path).map (·.rows.length) = some 3 := by
    decide +kernel
  have hstart : Reach (pruning twoLayouts 32766 oneRow true) (Safe twoLayouts) sampleStart :=
    .start sampleStart_init
  exact ⟨s, hpath, hlength,
    prune_exact twoLayouts 32766 oneRow true (hstart.exec hrun (by decide +kernel))⟩

/-- A producer comes and goes between `VACUUM INTO` and the rename. -/
def commitsBetween : List Act :=
  selects ++ copies ++ emits 0 3 ++ [.replace]

/-- A connection is open all along, so that the frames of the `DELETE` stay in the log. -/
def opensThroughout : List Act :=
  [.connect 0] ++ selects ++ [.begin, .purge, .vacuumInto, .detach, .replace]

theorem not_exact {s : State Layout (Bool × Store)}
    (h : ∃ row ∈ s.ever, (∀ other ∈ s.selected, other.seq ≠ row.seq) ∧
      ∀ table ∈ s.view twoLayouts s.path, ∀ other ∈ table.rows, other.seq ≠ row.seq) :
    ¬Exact twoLayouts s := by
  obtain ⟨row, hrow, hselected, hlost⟩ := h
  intro hexact
  obtain ⟨table, hreads, hrows⟩ := hexact.rows
  exact hlost table hreads row ((hrows row).mpr ⟨hrow, fun hsel => hselected row hsel.2 rfl⟩) rfl

/-- Both prunes succeed. After the one, the row that was committed is not in the file that the path
names; after the other, no table can be read there. -/
theorem commit_before_rename_lost :
    (∃ s, Reachable (pruning twoLayouts 32766 oneRow true) s ∧
        (pruning twoLayouts 32766 oneRow true).exec sampleStart commitsBetween = some s ∧
          ¬Exact twoLayouts s) ∧
      ∃ s, Reachable (pruning twoLayouts 32766 oneRow true) s ∧
        (pruning twoLayouts 32766 oneRow true).exec sampleStart opensThroughout = some s ∧
          ¬Exact twoLayouts s := by
  have hlost : ∀ acts ∈ [commitsBetween, opensThroughout],
      ∃ s ∈ (pruning twoLayouts 32766 oneRow true).exec sampleStart acts,
        ∃ row ∈ s.ever, (∀ other ∈ s.selected, other.seq ≠ row.seq) ∧
          ∀ table ∈ s.view twoLayouts s.path, ∀ other ∈ table.rows, other.seq ≠ row.seq := by
    decide +kernel
  obtain ⟨s, hrun, hs⟩ := hlost commitsBetween (by simp)
  obtain ⟨t, hrun', ht⟩ := hlost opensThroughout (by simp)
  have hstart : Reachable (pruning twoLayouts 32766 oneRow true) sampleStart :=
    .start sampleStart_init
  exact ⟨⟨s, hstart.exec hrun, hrun, not_exact hs⟩, t, hstart.exec hrun', hrun', not_exact ht⟩

end Samples

end Waitbus.PruneRun
