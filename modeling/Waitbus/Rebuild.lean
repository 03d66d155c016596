import Mathlib
import Waitbus.Migrations

/-! The two ways by which an events table of the first migration comes up to the schema: the second
migration, which rebuilds the table, and the columns that `ensure_schema` adds. The migration copies
columns that `ensure_schema` has to have added. The rebuilt table is in the order of the event ids,
with ties as the engine leaves them. -/

namespace Waitbus.Rebuild
open Ddl Schema EnsureSchema Migrations Dedup

section Scripts

def initialColumns : List Column :=
  [⟨"delivery_id", "TEXT PRIMARY KEY"⟩,
    ⟨"source", "TEXT NOT NULL"⟩,
    ⟨"event_type", "TEXT NOT NULL"⟩,
    ⟨"owner", "TEXT NOT NULL"⟩,
    ⟨"repo", "TEXT NOT NULL"⟩,
    ⟨"run_id", "INTEGER"⟩,
    ⟨"workflow_name", "TEXT"⟩,
    ⟨"head_branch", "TEXT"⟩,
    ⟨"head_sha", "TEXT"⟩,
    ⟨"status", "TEXT"⟩,
    ⟨"conclusion", "TEXT"⟩,
    ⟨"received_at", "INTEGER NOT NULL"⟩,
    ⟨"payload_json", "TEXT NOT NULL"⟩,
    ⟨"ingest_method", "TEXT NOT NULL"⟩,
    ⟨"job_id", "INTEGER"⟩,
    ⟨"job_name", "TEXT"⟩,
    ⟨"parent_run_id", "INTEGER"⟩,
    ⟨"alert_name", "TEXT"⟩,
    ⟨"alert_severity", "TEXT"⟩,
    ⟨"alert_fingerprint", "TEXT"⟩,
    ⟨"event_id", "TEXT"⟩]

def initialIndexes : List Index :=
  [idxOwnerRepoEvent, idxRunId, idxParentRunId, idxJobId, idxAlertLookup, idxAlertFingerprint,
    idxEventId, idxWorkflowJobHeadSha]

def initialStmts : List Stmt :=
  .createTable true "events" initialColumns :: initialIndexes.map .createIndex

/-- The columns of `events_new` in migration 0002. -/
def rebuiltColumns : List Column :=
  [⟨"seq", "INTEGER PRIMARY KEY AUTOINCREMENT"⟩,
    ⟨"delivery_id", "TEXT NOT NULL UNIQUE"⟩,
    ⟨"source", "TEXT NOT NULL"⟩,
    ⟨"event_type", "TEXT NOT NULL"⟩,
    ⟨"owner", "TEXT NOT NULL"⟩,
    ⟨"repo", "TEXT NOT NULL"⟩,
    ⟨"run_id", "INTEGER"⟩,
    ⟨"workflow_name", "TEXT"⟩,
    ⟨"head_branch", "TEXT"⟩,
    ⟨"head_sha", "TEXT"⟩,
    ⟨"status", "TEXT"⟩,
    ⟨"conclusion", "TEXT"⟩,
    ⟨"received_at", "INTEGER NOT NULL"⟩,
    ⟨"payload_json", "TEXT NOT NULL"⟩,
    ⟨"ingest_method", "TEXT NOT NULL"⟩,
    ⟨"job_id", "INTEGER"⟩,
    ⟨"job_name", "TEXT"⟩,
    ⟨"parent_run_id", "INTEGER"⟩,
    ⟨"alert_name", "TEXT"⟩,
    ⟨"alert_severity", "TEXT"⟩,
    ⟨"alert_fingerprint", "TEXT"⟩,
    ⟨"msg_to", "TEXT"⟩,
    ⟨"msg_from", "TEXT"⟩,
    ⟨"msg_correlation_id", "TEXT"⟩,
    ⟨"msg_reply_to", "TEXT"⟩,
    ⟨"msg_thread", "TEXT"⟩,
    ⟨"msg_body", "TEXT"⟩,
    ⟨"event_id", "TEXT"⟩]

def copiedNames : List String :=
  ["delivery_id", "source", "event_type", "owner", "repo", "run_id", "workflow_name",
    "head_branch", "head_sha", "status", "conclusion", "received_at", "payload_json",
    "ingest_method", "job_id", "job_name", "parent_run_id", "alert_name", "alert_severity",
    "alert_fingerprint", "msg_to", "msg_from", "msg_correlation_id", "msg_reply_to",
    "msg_thread", "msg_body", "event_id"]

def rebuiltIndexes : List Index :=
  [idxOwnerRepoEvent, idxRunId, idxParentRunId, idxJobId, idxAlertLookup, idxAlertFingerprint,
    idxEventId, idxMsgTo, idxMsgCorrelation, idxWorkflowJobHeadSha]

def rebuildStmts : List Stmt :=
  [.createTable false "events_new" rebuiltColumns,
    .insertSelect "events_new" copiedNames "events" "event_id",
    .dropTable "events",
    .renameTable "events_new" "events"] ++ rebuiltIndexes.map .createIndex

/-- The numbered files; what stands for their digests only has to differ. -/
def shippedMigrations : List (Migration Stmt) :=
  [⟨1, "initial_schema", initialStmts, "0001"⟩,
    ⟨2, "add_daemon_sequence", rebuildStmts, "0002"⟩]

def msgNames : List String :=
  ["msg_to", "msg_from", "msg_correlation_id", "msg_reply_to", "msg_thread", "msg_body"]

def msgColumns : List Column :=
  msgNames.map (⟨·, "TEXT"⟩)

theorem rebuiltIndexes_eq : rebuiltIndexes = schemaIndexes :=
  rfl

theorem copiedNames_eq : copiedNames = expectedColumns.map (·.name) := by
  decide +kernel

theorem copiedNames_split (name : String) : name ∈ copiedNames ↔
    name ∈ initialColumns.map (·.name) ∨ name ∈ msgNames := by
  have hcopied : copiedNames = (initialColumns.map (·.name)).take 20 ++ msgNames ++
      (initialColumns.map (·.name)).drop 20 :=
    rfl
  have hfirst : name ∈ initialColumns.map (·.name) ↔
      name ∈ (initialColumns.map (·.name)).take 20 ∨
        name ∈ (initialColumns.map (·.name)).drop 20 := by
    rw [← List.mem_append, List.take_append_drop]
  rw [hcopied, hfirst, List.mem_append, List.mem_append]
  exact or_right_comm

/-- The columns of the rebuilt table are those of the first but for `seq` and the delivery id. -/
theorem rebuiltColumns_cases : ∀ column ∈ rebuiltColumns,
    column = ⟨"seq", "INTEGER PRIMARY KEY AUTOINCREMENT"⟩ ∨
      column = ⟨"delivery_id", "TEXT NOT NULL UNIQUE"⟩ ∨ column ∈ initialColumns ∨
      column ∈ msgColumns := by
  have hsplit : rebuiltColumns = [⟨"seq", "INTEGER PRIMARY KEY AUTOINCREMENT"⟩,
      ⟨"delivery_id", "TEXT NOT NULL UNIQUE"⟩] ++ (initialColumns.drop 1).take 19 ++ msgColumns ++
      initialColumns.drop 20 :=
    rfl
  intro column hcolumn
  rw [hsplit, List.mem_append, List.mem_append, List.mem_append] at hcolumn
  rcases hcolumn with ((hcolumn | hcolumn) | hcolumn) | hcolumn
  · simp only [List.mem_cons, List.not_mem_nil, or_false] at hcolumn
    tauto
  · exact .inr (.inr (.inl (List.mem_of_mem_drop (List.mem_of_mem_take hcolumn))))
  · exact .inr (.inr (.inr hcolumn))
  · exact .inr (.inr (.inl (List.mem_of_mem_drop hcolumn)))

theorem msgColumns_names {column : Column} (h : column ∈ msgColumns) :
    column.name ∈ msgNames ∧ column.decl = "TEXT" := by
  obtain ⟨name, hname, rfl⟩ := List.mem_map.mp h
  exact ⟨hname, rfl⟩

theorem text_free {column : Column} (h : column.decl = "TEXT") :
    column.notNull = false ∧ column.unique = false := by
  simp only [Column.notNull, Column.unique, Column.says, h]
  decide +kernel

theorem eventId_initial : "event_id" ∈ initialColumns.map (·.name) := by
  decide +kernel

theorem deliveryId_initial :
    (⟨"delivery_id", "TEXT PRIMARY KEY"⟩ : Column) ∈ initialColumns :=
  List.mem_cons_self ..

theorem deliveryId_name : "delivery_id" ∈ initialColumns.map (·.name) :=
  List.mem_map_of_mem deliveryId_initial

end Scripts

section Upgrades

variable {ν : Type*} [LinearOrder ν] [OrderBot ν]

/-- `ensure_schema` when nobody else is at the database. -/
def ensureSchema (sort : Sorter ν) (db : Database ν) : Except SqlError (Database ν) :=
  execAll sort db (ensureScript (readColumns db ≠ []) (readColumns db))

def migrate (sort : Sorter ν) (now : Int) (db : Db (Database ν)) :
    Option (Database ν) :=
  (applyPending (exec sort) shippedMigrations none now db).toOption.map (·.1.schema)

def migrateThenEnsure (sort : Sorter ν) (now : Int) (db : Db (Database ν)) :
    Option (Database ν) :=
  (migrate sort now db).bind fun schema => (ensureSchema sort schema).toOption

def ensureThenMigrate (sort : Sorter ν) (now : Int) (db : Db (Database ν)) :
    Option (Database ν) :=
  (ensureSchema sort db.schema).toOption.bind fun schema => migrate sort now { db with schema }

/-- A database whose events table migration 0001 has made, some of the later columns added since. -/
structure Initial (db : Db (Database ν)) (table : Table ν) : Prop where
  found : db.schema.tables "events" = some table
  free : db.schema.tables "events_new" = none
  columns : ∃ added, table.columns = initialColumns ++ added ∧ (added.map (·.name)).Nodup ∧
    ∀ column ∈ added, column.name ∈ msgNames ∧ column.decl = "TEXT"
  initial : initialIndexes ⊆ db.schema.indexes
  elsewhere : ∀ index ∈ db.schema.indexes, index.on ≠ "events" →
    index.on ≠ "events_new" ∧ index.name ∉ schemaIndexes.map (·.name)
  satisfies : Satisfies table.columns table.rows
  eventIds : Distinct ["event_id"] table.rows
  rowids : table.rows.Pairwise fun a b => a.rowid < b.rowid
  records : Records db.rows (shippedMigrations.take db.rows.length)
  before : db.rows.length ≤ 1

/-- Every row has a delivery id, which the first migration does not ask for. -/
def Delivered (table : Table ν) : Prop :=
  ∀ row ∈ table.rows, row.cells "delivery_id" ≠ ⊥

instance (table : Table ν) : Decidable (Delivered table) :=
  inferInstanceAs (Decidable (∀ row ∈ table.rows, _))

def LikeFresh (sort : Sorter ν) (final : Database ν) : Prop :=
  ∃ fresh model after, ensureSchema sort ⟨fun _ => none, []⟩ = .ok fresh ∧
    fresh.tables "events" = some model ∧ final.tables "events" = some after ∧
    after.columns = model.columns ∧
    final.indexes.filter (·.on = "events") = fresh.indexes.filter (·.on = "events")

/-- The events are those of the table, with the values they had, numbered in the order of their
event ids. -/
def KeepsOrdered (table : Table ν) (final : Database ν) : Prop :=
  ∃ after ordered, final.tables "events" = some after ∧ ordered.Perm table.rows ∧
    ordered.Pairwise (fun a b => a.cells "event_id" ≤ b.cells "event_id") ∧
    List.Forall₂ (fun old new : Row ν => ∀ name ∈ table.names, new.cells name = old.cells name)
      ordered after.rows ∧
    after.rows.map (·.rowid) = List.range' 1 table.rows.length

end Upgrades

section Rebuilding

variable {ν : Type*} {table : Table ν}

theorem current_self (table : Table ν) : Current table.names table :=
  current_of_read (List.Subset.refl _) fun _ _ hmem => hmem

def rebuilt (schema : Database ν) (table : Table ν) : Database ν where
  tables :=
    Function.update (Function.update schema.tables "events_new" none) "events" (some table)
  indexes := schema.indexes.filter (·.on ≠ "events") ++ rebuiltIndexes

theorem rebuilt_events (schema : Database ν) (table : Table ν) :
    (rebuilt schema table).tables "events" = some table := by
  simp only [rebuilt, Function.update_self]

variable [LinearOrder ν] [OrderBot ν] {sort : Sorter ν} {db : Db (Database ν)}

def rebuiltTable (sort : Sorter ν) (table : Table ν) : Table ν :=
  ⟨rebuiltColumns, copyRows copiedNames (sort "event_id" table.rows)⟩

theorem expectedNames_rebuilt : expectedColumns.map (·.name) ⊆ rebuiltColumns.map (·.name) :=
  List.map_subset _ (List.filter_subset_self ..)

theorem rebuiltIndexes_nodup : (rebuiltIndexes.map (·.name)).Nodup := by
  decide +kernel

theorem mem_copiedNames {column : Column} (h : column ∈ rebuiltColumns)
    (hrowid : column.isRowid = false) : column.name ∈ copiedNames := by
  rw [copiedNames_eq]
  exact List.mem_map_of_mem (List.mem_filter.mpr ⟨h, by simpa using hrowid⟩)

theorem Initial.firstColumns (h : Initial db table) : initialColumns ⊆ table.columns := by
  obtain ⟨added, hcolumns, -⟩ := h.columns
  rw [hcolumns]
  exact List.subset_append_left ..

theorem Initial.firstNames (h : Initial db table) :
    initialColumns.map (·.name) ⊆ table.names :=
  List.map_subset _ h.firstColumns

theorem Initial.eventId_mem (h : Initial db table) : "event_id" ∈ table.names :=
  h.firstNames eventId_initial

theorem Initial.names_iff (h : Initial db table) :
    copiedNames ⊆ table.names ↔ msgNames ⊆ table.names := by
  constructor
  · intro hcopied name hname
    exact hcopied ((copiedNames_split name).mpr (.inr hname))
  · intro hmsg name hname
    rcases (copiedNames_split name).mp hname with hfirst | hlater
    · exact List.map_subset _ h.firstColumns hfirst
    · exact hmsg hlater

theorem Initial.names_copied (h : Initial db table) : table.names ⊆ copiedNames := by
  obtain ⟨added, hcolumns, -, hadded⟩ := h.columns
  intro name hname
  rw [Table.names, hcolumns, List.map_append, List.mem_append] at hname
  apply (copiedNames_split name).mpr
  refine hname.imp_right fun hname => ?_
  obtain ⟨column, hcolumn, rfl⟩ := List.mem_map.mp hname
  exact (hadded column hcolumn).1

theorem Initial.satisfies_rebuilt (h : Initial db table) (delivered : Delivered table)
    {rows : List (Row ν)} (hperm : rows.Perm table.rows) :
    Satisfies rebuiltColumns (copyRows copiedNames rows) := by
  intro column hcolumn hrowid
  have hcopied := mem_copiedNames hcolumn hrowid
  rw [notNull_copyRows hcopied, distinct_copyRows (by simpa using hcopied)]
  suffices hrows : (column.notNull = true → ∀ row ∈ table.rows, row.cells column.name ≠ ⊥) ∧
      (column.unique = true → Distinct [column.name] table.rows) from
    ⟨fun hnotNull row hrow => hrows.1 hnotNull row (hperm.subset hrow),
      fun hunique => (hrows.2 hunique).perm hperm.symm⟩
  rcases rebuiltColumns_cases column hcolumn with rfl | rfl | hfirst | hmsg
  · exact absurd hrowid (by decide +kernel)
  · exact ⟨fun _ => delivered, fun _ => (h.satisfies _ (h.firstColumns deliveryId_initial)
      (by decide +kernel)).2 (by decide +kernel)⟩
  · exact h.satisfies column (h.firstColumns hfirst) hrowid
  · have hfree := text_free (msgColumns_names hmsg).2
    exact ⟨fun hnotNull => absurd hnotNull (by simp [hfree.1]),
      fun hunique => absurd hunique (by simp [hfree.2])⟩

theorem Initial.eventIds_rebuilt (h : Initial db table) (sorts : Sorts sort) :
    Distinct ["event_id"] (rebuiltTable sort table).rows := by
  have hcopied : ["event_id"] ⊆ copiedNames := by
    simpa using (copiedNames_split "event_id").mpr (.inl eventId_initial)
  rw [rebuiltTable, distinct_copyRows hcopied]
  exact h.eventIds.perm (sorts.perm ..).symm

theorem rebuilt_fits {schema : Database ν} (hfound : schema.tables "events" = some table)
    (hcolumns : table.columns = rebuiltColumns) (hdistinct : Distinct ["event_id"] table.rows) :
    ∀ index ∈ rebuiltIndexes, index.Fits schema table := by
  intro index hindex
  constructor
  · rw [schemaIndexes_on index hindex]
    exact hfound
  · rw [Table.names, hcolumns]
    exact List.Subset.trans (schemaIndexes_columns index hindex) expectedNames_rebuilt
  · intro hunique
    rw [schemaIndexes_unique index hindex hunique]
    exact hdistinct

theorem Initial.execAll_copy (h : Initial db table) (sorts : Sorts sort)
    (delivered : Delivered table) (hmsg : msgNames ⊆ table.names) :
    execAll sort db.schema
      [.createTable false "events_new" rebuiltColumns,
        .insertSelect "events_new" copiedNames "events" "event_id",
        .dropTable "events", .renameTable "events_new" "events"] =
      .ok ⟨(rebuilt db.schema (rebuiltTable sort table)).tables,
        db.schema.indexes.filter (·.on ≠ "events")⟩ := by
  have hindexes : ∀ index ∈ db.schema.indexes, index.on ≠ "events_new" := by
    intro index hindex
    by_cases hon : index.on = "events"
    · rw [hon]
      decide
    · exact (h.elsewhere index hindex hon).1
  have hdrop : ∀ index ∈ db.schema.indexes.filter (·.on ≠ "events"), index.on ≠ "events_new" :=
    fun index hindex => hindexes index (List.mem_of_mem_filter hindex)
  have hcreate : exec sort db.schema (.createTable false "events_new" rebuiltColumns) =
      .ok (db.schema.put "events_new" ⟨rebuiltColumns, []⟩) := by
    rw [exec, h.free]
  -- the database after the old table has been dropped
  have hcopied : (⟨Function.update
      (db.schema.put "events_new" (rebuiltTable sort table)).tables "events" none,
      db.schema.indexes.filter (·.on ≠ "events")⟩ : Database ν).tables "events_new" =
      some (rebuiltTable sort table) := by
    dsimp only
    rw [Function.update_of_ne (by decide)]
    exact put_table ..
  have hfree : (⟨Function.update
      (db.schema.put "events_new" (rebuiltTable sort table)).tables "events" none,
      db.schema.indexes.filter (·.on ≠ "events")⟩ : Database ν).tables "events" = none := by
    dsimp only
    exact Function.update_self ..
  rw [execAll_cons, hcreate, Except.bind, execAll_cons,
    exec_insertSelect (put_table ..) ((put_other (by decide)).trans h.found)
      (copiedNames_eq ▸ expectedNames_rebuilt)
      (h.names_iff.mpr hmsg) h.eventId_mem hindexes
      (h.satisfies_rebuilt delivered (sorts.perm ..)),
    Except.bind, put_put, ← rebuiltTable, execAll_cons,
    exec_dropTable ((put_other (by decide)).trans h.found), put_indexes, Except.bind, execAll_cons,
    exec_renameTable hcopied hfree hdrop, Except.bind, execAll]
  congr 2
  funext name
  simp only [rebuilt, Database.put, Function.update_apply]
  split_ifs <;> rfl

theorem Initial.execAll_rebuild (h : Initial db table) (sorts : Sorts sort)
    (delivered : Delivered table) (hmsg : msgNames ⊆ table.names) :
    execAll sort db.schema rebuildStmts = .ok (rebuilt db.schema (rebuiltTable sort table)) := by
  have hfits : ∀ index ∈ rebuiltIndexes, index.Fits
      ⟨(rebuilt db.schema (rebuiltTable sort table)).tables,
        db.schema.indexes.filter (·.on ≠ "events")⟩ (rebuiltTable sort table) :=
    rebuilt_fits (rebuilt_events db.schema _) rfl (h.eventIds_rebuilt sorts)
  rw [rebuildStmts, execAll_append, h.execAll_copy sorts delivered hmsg, Except.bind,
    execAll_createIndexes hfits, foldl_addNew_fresh _ rebuiltIndexes_nodup]
  · rfl
  · intro index hindex hmem
    obtain ⟨other, hother, hname⟩ := List.mem_map.mp hmem
    rw [List.mem_filter] at hother
    apply (h.elsewhere other hother.1 (of_decide_eq_true hother.2)).2
    rw [hname, ← rebuiltIndexes_eq]
    exact List.mem_map_of_mem hindex

theorem Initial.execAll_initial (h : Initial db table) :
    execAll sort db.schema initialStmts = .ok db.schema := by
  rw [initialStmts, execAll_cons, exec_createTable_present h.found, Except.bind,
    execAll_createIndexes_known]
  intro index hindex
  exact List.mem_map_of_mem (h.initial hindex)

theorem execStatements_eq (schema : Database ν) (stmts : List Stmt) :
    execStatements (exec sort) schema stmts = execAll sort schema stmts := by
  induction stmts generalizing schema with
  | nil => rfl
  | cons stmt rest ih =>
    rw [execStatements, execAll_cons]
    congr 1
    funext schema
    exact ih schema

theorem Initial.migrate_eq (h : Initial db table) (now : Int) :
    migrate sort now db = (execAll sort db.schema rebuildStmts).toOption := by
  have hrecords : (applyPending (exec sort) shippedMigrations none now db).toOption.map
      (·.1.schema) =
      (effect (exec sort) db.schema (shippedMigrations.drop db.rows.length)).toOption :=
    applyPending_schema now (by decide) h.records
  rw [migrate, hrecords]
  rcases Nat.le_one_iff_eq_zero_or_eq_one.mp h.before with hlength | hlength
  · rw [hlength, List.drop_zero, shippedMigrations, effect, execStatements_eq, h.execAll_initial]
    simp only [Except.bind, effect, execStatements_eq]
    cases execAll sort db.schema rebuildStmts with
    | error e => rfl
    | ok schema => rfl
  · rw [hlength, shippedMigrations, List.drop_one, List.tail_cons, effect, execStatements_eq]
    cases execAll sort db.schema rebuildStmts with
    | error e => rfl
    | ok schema => rfl

theorem ensureSchema_eq {schema : Database ν} (hfound : schema.tables "events" = some table)
    (legacy : Legacy table) :
    ensureSchema sort schema = .ok (upgrade schema table table.names) := by
  have hread : readColumns schema = table.names := by
    rw [readColumns, hfound]
    rfl
  have hnames : table.names ≠ [] := by
    intro hempty
    obtain ⟨column, hcolumn, hbase⟩ := base_expected
    have hmem := legacy.base column hcolumn hbase
    rw [hempty] at hmem
    cases hmem
  rw [ensureSchema, hread, decide_eq_true hnames]
  exact execAll_ensureScript hfound legacy (current_self table)

theorem missingColumns_complete {existing : List String}
    (h : expectedColumns.map (·.name) ⊆ existing) : missingColumns existing = [] := by
  rw [missingColumns, List.filter_eq_nil_iff]
  intro column hcolumn hno
  exact of_decide_eq_true hno (h (List.mem_map_of_mem hcolumn))

theorem ensureSchema_complete {schema : Database ν} (hfound : schema.tables "events" = some table)
    (legacy : Legacy table) (hcolumns : expectedColumns.map (·.name) ⊆ table.names)
    (hindexes : ∀ index ∈ schemaIndexes, index.name ∈ schema.indexes.map (·.name)) :
    ensureSchema sort schema = .ok schema := by
  rw [ensureSchema_eq hfound legacy, upgrade, foldl_addNew_known hindexes,
    missingColumns_complete hcolumns, extend]
  congr 1
  have hrows : table.rows.map (·.clearAll (([] : List Column).map (·.name))) = table.rows :=
    List.map_id _
  rw [hrows, List.append_nil, put_self hfound]

theorem Initial.ensureSchema_rebuilt (h : Initial db table) (sorts : Sorts sort) :
    ensureSchema sort (rebuilt db.schema (rebuiltTable sort table)) =
      .ok (rebuilt db.schema (rebuiltTable sort table)) := by
  refine ensureSchema_complete (rebuilt_events ..) ⟨?_, ?_⟩ expectedNames_rebuilt ?_
  · intro column hcolumn _
    exact expectedNames_rebuilt (List.mem_map_of_mem hcolumn)
  · intro _
    exact h.eventIds_rebuilt sorts
  · intro index hindex
    rw [rebuilt, List.map_append, List.mem_append, rebuiltIndexes_eq]
    exact .inr (List.mem_map_of_mem hindex)

theorem ensureSchema_fresh :
    ensureSchema sort (⟨fun _ => none, []⟩ : Database ν) =
      .ok ⟨Function.update (fun _ => none) "events" (some ⟨rebuiltColumns, []⟩),
        rebuiltIndexes⟩ := by
  have hfits := rebuilt_fits (ν := ν)
    (put_table ⟨fun _ => none, []⟩ "events" ⟨rebuiltColumns, []⟩) rfl List.nodup_nil
  have hcreate : exec sort (⟨fun _ => none, []⟩ : Database ν)
      (.createTable true "events" eventsColumns) =
      .ok (Database.put ⟨fun _ => none, []⟩ "events" ⟨rebuiltColumns, []⟩) :=
    rfl
  rw [ensureSchema, readColumns, Option.map_none, Option.getD_none, ensureScript, if_neg (by simp),
    schemaStmts, execAll_cons, hcreate, Except.bind, ← rebuiltIndexes_eq,
    execAll_createIndexes hfits, foldl_addNew_fresh _ rebuiltIndexes_nodup]
  · rfl
  · intro index _ hmem
    cases hmem

theorem rebuilt_likeFresh (schema : Database ν) (table : Table ν) :
    LikeFresh sort (rebuilt schema (rebuiltTable sort table)) := by
  refine ⟨_, ⟨rebuiltColumns, []⟩, _, ensureSchema_fresh, ?_, rebuilt_events .., rfl, ?_⟩
  · simp only [Function.update_self]
  · rw [rebuilt, List.filter_append, List.filter_filter, List.filter_eq_nil_iff.mpr,
      List.nil_append]
    intro index _ hboth
    simp at hboth

theorem rebuilt_keepsOrdered {kept : Table ν} (sorts : Sorts sort) (hkeeps : Keeps table kept)
    (hcopied : table.names ⊆ copiedNames) (heventId : "event_id" ∈ table.names)
    (schema : Database ν) : KeepsOrdered table (rebuilt schema (rebuiltTable sort kept)) := by
  have hperm := sorts.perm "event_id" kept.rows
  obtain ⟨ordered, hsame, hordered⟩ :=
    List.perm_comp_forall₂ hperm (List.Forall₂.flip hkeeps.2)
  refine ⟨_, ordered, rebuilt_events .., hordered, ?_, ?_, ?_⟩
  · have heventIds : ordered.map (·.cells "event_id") =
        (sort "event_id" kept.rows).map (·.cells "event_id") := by
      rw [← List.forall₂_eq_eq_eq, List.forall₂_map_left_iff, List.forall₂_map_right_iff]
      exact (List.Forall₂.flip hsame).imp fun old new h => (h.2 _ heventId).symm
    have hsorted := sorts.sorted "event_id" kept.rows
    rw [← List.pairwise_map (f := fun row : Row ν => row.cells "event_id") (R := (· ≤ ·))]
      at hsorted ⊢
    rwa [heventIds]
  · refine forall₂_comp (List.Forall₂.flip hsame) (forall₂_copyRows ..) ?_
    intro a b c hab hbc name hname
    exact (hbc name (hcopied hname)).trans (hab.2 name hname)
  · rw [rebuiltTable, copyRows_rowids, hperm.length_eq, hkeeps.2.length_eq]

end Rebuilding

section Additions

variable {ν : Type*} [LinearOrder ν] [OrderBot ν] {sort : Sorter ν} {db : Db (Database ν)}
  {table : Table ν}

theorem expectedColumns_first : ∀ column ∈ expectedColumns,
    column.name ∈ initialColumns.map (·.name) ∨ column.name ∈ msgNames ∧ column.decl = "TEXT" := by
  intro column hcolumn
  obtain ⟨hmem, hrowid⟩ := List.mem_filter.mp hcolumn
  rcases rebuiltColumns_cases column hmem with rfl | rfl | hfirst | hmsg
  · exact absurd hrowid (by decide +kernel)
  · exact .inl deliveryId_name
  · exact .inl (List.mem_map_of_mem hfirst)
  · exact .inr (msgColumns_names hmsg)

theorem expectedColumns_base : ∀ column ∈ expectedColumns, column.addable = false →
    column.name ∈ initialColumns.map (·.name) := by
  intro column hcolumn hbase
  refine (expectedColumns_first column hcolumn).resolve_right fun hmsg => ?_
  rw [Column.addable, (text_free hmsg.2).1, (text_free hmsg.2).2] at hbase
  nomatch hbase

theorem msgNames_expected : msgNames ⊆ expectedColumns.map (·.name) := by
  intro name hname
  rw [← copiedNames_eq]
  exact (copiedNames_split name).mpr (.inr hname)

theorem Initial.legacy (h : Initial db table) : Legacy table where
  base column hcolumn hbase := h.firstNames (expectedColumns_base column hcolumn hbase)
  eventIds _ := h.eventIds

theorem Initial.missing_later (h : Initial db table) :
    ∀ column ∈ missingColumns table.names, column.name ∈ msgNames ∧ column.decl = "TEXT" := by
  intro column hcolumn
  obtain ⟨hexpected, hmissing⟩ := mem_missingColumns.mp hcolumn
  exact (expectedColumns_first column hexpected).resolve_left fun hfirst =>
    hmissing (h.firstNames hfirst)

theorem Initial.missing_apart (h : Initial db table) {name : String}
    (hname : name ∈ initialColumns.map (·.name)) :
    name ∉ (missingColumns table.names).map (·.name) := by
  intro hmissing
  obtain ⟨column, hcolumn, rfl⟩ := List.mem_map.mp hmissing
  exact (current_self table).fresh column hcolumn (h.firstNames hname)

theorem distinct_clearAll {keys names : List String} {rows : List (Row ν)}
    (h : ∀ key ∈ keys, key ∉ names) :
    Distinct keys (rows.map (·.clearAll names)) ↔ Distinct keys rows := by
  rw [Distinct, Distinct, List.map_map]
  have hkeys : (rows.map ((fun row => keys.map row.cells) ∘ (·.clearAll names))) =
      rows.map fun row => keys.map row.cells := by
    apply List.map_congr_left
    intro row _
    apply List.map_congr_left
    intro key hkey
    rw [clearAll_cells, if_neg (h key hkey)]
  rw [hkeys]

theorem satisfies_extend {columns : List Column} (h : Satisfies table.columns table.rows)
    (fresh : ∀ column ∈ columns, column.name ∉ table.names)
    (haddable : ∀ column ∈ columns, column.addable = true) :
    Satisfies (extend table columns).columns (extend table columns).rows := by
  intro column hcolumn hrowid
  rcases List.mem_append.mp hcolumn with hold | hnew
  · have hname : column.name ∉ columns.map (·.name) := by
      intro hmem
      obtain ⟨other, hother, hsame⟩ := List.mem_map.mp hmem
      exact fresh other hother (hsame ▸ List.mem_map_of_mem hold)
    constructor
    · intro hnotNull row hrow
      obtain ⟨before, hbefore, rfl⟩ := List.mem_map.mp hrow
      rw [clearAll_cells, if_neg hname]
      exact (h column hold hrowid).1 hnotNull before hbefore
    · intro hunique
      rw [extend, distinct_clearAll fun key hkey => List.mem_singleton.mp hkey ▸ hname]
      exact (h column hold hrowid).2 hunique
  · have hfree := haddable column hnew
    rw [Column.addable, Bool.and_eq_true, Bool.not_eq_true', Bool.not_eq_true'] at hfree
    exact ⟨fun hnotNull => absurd hnotNull (by simp [hfree.1]),
      fun hunique => absurd hunique (by simp [hfree.2])⟩

theorem upgrade_other (schema : Database ν) (table : Table ν) (existing : List String)
    {name : String} (h : name ≠ "events") :
    (upgrade schema table existing).tables name = schema.tables name := by
  simp only [upgrade, put_other h]

theorem upgrade_indexes (schema : Database ν) (table : Table ν) (existing : List String) :
    (upgrade schema table existing).indexes =
      schemaIndexes.foldl (addNew Index.name) schema.indexes := by
  rw [upgrade]

/-- After `ensure_schema` the table is still as migration 0001 made it, but for later columns. -/
theorem Initial.upgraded (h : Initial db table) :
    Initial ⟨upgrade db.schema table table.names, db.tracking⟩
      (extend table (missingColumns table.names)) := by
  have hlater := h.missing_later
  have hfresh := (current_self table).fresh
  constructor
  · exact upgrade_events db.schema table table.names
  · exact (upgrade_other db.schema table table.names (by decide)).trans h.free
  · obtain ⟨added, hcolumns, hnodup, hadded⟩ := h.columns
    refine ⟨added ++ missingColumns table.names, ?_, ?_, ?_⟩
    · rw [extend, hcolumns, List.append_assoc]
    · rw [List.map_append, List.nodup_append']
      refine ⟨hnodup, expectedColumns_nodup.sublist (List.filter_sublist.map _), ?_⟩
      intro name hname hmissing
      obtain ⟨column, hcolumn, rfl⟩ := List.mem_map.mp hmissing
      apply hfresh column hcolumn
      rw [Table.names, hcolumns, List.map_append]
      exact List.mem_append_right _ hname
    · intro column hcolumn
      exact (List.mem_append.mp hcolumn).elim (hadded column) (hlater column)
  · dsimp only
    rw [upgrade_indexes]
    exact List.Subset.trans h.initial (subset_foldl_addNew ..)
  · intro index hindex hon
    dsimp only at hindex
    rw [upgrade_indexes] at hindex
    refine h.elsewhere index ((mem_foldl_addNew hindex).resolve_right ?_) hon
    exact fun hadded => hon (schemaIndexes_on index hadded)
  · apply satisfies_extend h.satisfies hfresh
    intro column hcolumn
    obtain ⟨hnotNull, hunique⟩ := text_free (hlater column hcolumn).2
    rw [Column.addable, hnotNull, hunique]
    rfl
  · rw [extend, distinct_clearAll]
    · exact h.eventIds
    · intro key hkey
      rw [List.mem_singleton.mp hkey]
      exact h.missing_apart eventId_initial
  · rw [extend, List.pairwise_map]
    exact h.rowids.imp fun hlt => by rwa [clearAll_rowid, clearAll_rowid]
  · exact h.records
  · exact h.before

end Additions

section Agreement

variable {ν : Type*} [LinearOrder ν] [OrderBot ν] {sort : Sorter ν} {db : Db (Database ν)}
  {table : Table ν}

theorem Initial.migrateThenEnsure_eq (h : Initial db table) (sorts : Sorts sort)
    (delivered : Delivered table) (hmsg : msgNames ⊆ table.names) (now : Int) :
    migrateThenEnsure sort now db = some (rebuilt db.schema (rebuiltTable sort table)) := by
  rw [migrateThenEnsure, h.migrate_eq, h.execAll_rebuild sorts delivered hmsg, Except.toOption,
    Option.bind_some, h.ensureSchema_rebuilt sorts, Except.toOption]

theorem Initial.delivered_upgraded (h : Initial db table) (delivered : Delivered table) :
    Delivered (extend table (missingColumns table.names)) := by
  intro row hrow
  obtain ⟨before, hbefore, rfl⟩ := List.mem_map.mp hrow
  rw [clearAll_cells, if_neg (h.missing_apart deliveryId_name)]
  exact delivered before hbefore

theorem Initial.ensureThenMigrate_eq (h : Initial db table) (sorts : Sorts sort)
    (delivered : Delivered table) (now : Int) :
    ensureThenMigrate sort now db =
      some (rebuilt (upgrade db.schema table table.names)
        (rebuiltTable sort (extend table (missingColumns table.names)))) := by
  have hmsg : msgNames ⊆ (extend table (missingColumns table.names)).names := by
    intro name hname
    obtain ⟨column, hcolumn, rfl⟩ := List.mem_map.mp (msgNames_expected hname)
    exact (current_self table).complete column hcolumn
  rw [ensureThenMigrate, ensureSchema_eq h.found h.legacy, Except.toOption, Option.bind_some,
    h.upgraded.migrate_eq, h.upgraded.execAll_rebuild sorts (h.delivered_upgraded delivered) hmsg,
    Except.toOption]

/-- Whichever comes first, the events table ends up as in a fresh database and keeps the rows,
numbered by event id; for the migration to come first the later columns have to be there. -/
theorem migrated_agrees (h : Initial db table) (sorts : Sorts sort) (delivered : Delivered table)
    (now : Int) :
    (∃ final, ensureThenMigrate sort now db = some final ∧ LikeFresh sort final ∧
      KeepsOrdered table final) ∧
    (msgNames ⊆ table.names → ∃ final, migrateThenEnsure sort now db = some final ∧
      LikeFresh sort final ∧ KeepsOrdered table final) := by
  constructor
  · refine ⟨_, h.ensureThenMigrate_eq sorts delivered now, rebuilt_likeFresh .., ?_⟩
    exact rebuilt_keepsOrdered sorts (extend_keeps (current_self table).fresh) h.names_copied
      h.eventId_mem _
  · intro hmsg
    refine ⟨_, h.migrateThenEnsure_eq sorts delivered hmsg now, rebuilt_likeFresh .., ?_⟩
    exact rebuilt_keepsOrdered sorts (Keeps.refl table) h.names_copied h.eventId_mem _

def InOrder (table : Table ν) (final : Database ν) : Prop :=
  ∃ after, final.tables "events" = some after ∧
    List.Forall₂ (fun old new : Row ν => ∀ name ∈ table.names, new.cells name = old.cells name)
      table.rows after.rows

theorem Initial.deliveries_nodup (h : Initial db table) (delivered : Delivered table) :
    (table.rows.map (·.cells "delivery_id")).Nodup := by
  have hunique : Distinct ["delivery_id"] table.rows :=
    (h.satisfies _ (h.firstColumns deliveryId_initial) (by decide +kernel)).2 (by decide +kernel)
  rw [Distinct, List.filter_eq_self.mpr] at hunique
  · apply List.Nodup.of_map (fun cell => [cell])
    rwa [List.map_map]
  · intro keys hkeys
    obtain ⟨row, hrow, rfl⟩ := List.mem_map.mp hkeys
    simpa using (delivered row hrow).symm

theorem Initial.inOrder_iff (h : Initial db table) (sorts : Sorts sort)
    (delivered : Delivered table) (schema : Database ν) :
    InOrder table
        (rebuilt schema (rebuiltTable sort (extend table (missingColumns table.names)))) ↔
      sort "event_id" (extend table (missingColumns table.names)).rows =
        (extend table (missingColumns table.names)).rows := by
  have hkeeps := (extend_keeps (current_self table).fresh).2
  have hdelivery : "delivery_id" ∈ table.names :=
    h.firstNames deliveryId_name
  constructor
  · rintro ⟨after, hafter, hsame⟩
    rw [rebuilt_events, Option.some.injEq] at hafter
    subst hafter
    apply eq_of_perm_of_keys (sorts.perm ..)
      (h.upgraded.deliveries_nodup (h.delivered_upgraded delivered))
    calc
      _ = (rebuiltTable sort (extend table (missingColumns table.names))).rows.map
            (·.cells "delivery_id") :=
        (forall₂_cells (forall₂_copyRows ..) (h.names_copied hdelivery)).symm
      _ = table.rows.map (·.cells "delivery_id") := forall₂_cells hsame hdelivery
      _ = _ := (forall₂_cells (hkeeps.imp fun _ _ hrow => hrow.2) hdelivery).symm
  · intro hfixed
    refine ⟨_, rebuilt_events .., ?_⟩
    rw [rebuiltTable, hfixed]
    refine forall₂_comp hkeeps (forall₂_copyRows ..) ?_
    intro a b c hab hbc name hname
    exact (hbc name (h.names_copied hname)).trans (hab.2 name hname)

theorem insertion_order_iff (h : Initial db table) (delivered : Delivered table) (now : Int) :
    (∀ sort, Sorts sort → ∃ final, ensureThenMigrate sort now db = some final ∧
      InOrder table final) ↔
    table.rows.Pairwise fun a b => a.cells "event_id" < b.cells "event_id" := by
  have hnodup : (extend table (missingColumns table.names)).rows.Nodup :=
    h.upgraded.rowids.imp fun hlt heq => by rw [heq] at hlt; exact lt_irrefl _ hlt
  have hpairwise : (extend table (missingColumns table.names)).rows.Pairwise
      (fun a b => a.cells "event_id" < b.cells "event_id") ↔
      table.rows.Pairwise fun a b => a.cells "event_id" < b.cells "event_id" := by
    rw [extend, List.pairwise_map]
    simp only [clearAll_cells, if_neg (h.missing_apart eventId_initial)]
  rw [← hpairwise, ← sorts_fix_iff hnodup]
  refine forall_congr' fun sort => forall_congr' fun sorts => ?_
  rw [h.ensureThenMigrate_eq sorts delivered now,
    ← h.inOrder_iff sorts delivered (upgrade db.schema table table.names)]
  simp only [Option.some.injEq, exists_eq_left']

end Agreement

section Samples

def sampleRow (rowid deliveryId eventId : Nat) : Row Nat where
  rowid := rowid
  cells name :=
    if name = "delivery_id" then deliveryId else if name = "event_id" then eventId else 7

def sampleTable (added : List Column) (rows : List (Row Nat)) : Table Nat :=
  ⟨initialColumns ++ added, rows⟩

def sampleDb (table : Table Nat) : Db (Database Nat) where
  schema := ⟨Function.update (fun _ => none) "events" (some table), initialIndexes⟩
  tracking := none

theorem sample_initial {added : List Column} {rows : List (Row Nat)}
    (nodup : (added.map (·.name)).Nodup)
    (hadded : ∀ column ∈ added, column.name ∈ msgNames ∧ column.decl = "TEXT")
    (satisfies : Satisfies (initialColumns ++ added) rows) (eventIds : Distinct ["event_id"] rows)
    (rowids : rows.Pairwise fun a b => a.rowid < b.rowid) :
    Initial (sampleDb (sampleTable added rows)) (sampleTable added rows) where
  found := by simp only [sampleDb, Function.update_self]
  free := rfl
  columns := ⟨added, rfl, nodup, hadded⟩
  initial := List.Subset.refl _
  elsewhere := by
    have hon : ∀ index ∈ initialIndexes, index.on = "events" := by decide +kernel
    exact fun index hindex hother => absurd (hon index hindex) hother
  satisfies := satisfies
  eventIds := eventIds
  rowids := rowids
  records := rfl
  before := Nat.zero_le 1

/-- Rows without an event id, and rows whose event ids are out of order. -/
def mixedRows : List (Row Nat) :=
  [sampleRow 1 10 0, sampleRow 2 11 0, sampleRow 4 12 9, sampleRow 5 13 8]

theorem mixed_initial : Initial (sampleDb (sampleTable msgColumns mixedRows))
    (sampleTable msgColumns mixedRows) :=
  sample_initial (by decide +kernel) (by decide +kernel) (by decide +kernel) (by decide +kernel)
    (by decide +kernel)

theorem migrated_agrees_run :
    (∃ final, ensureThenMigrate stable 0 (sampleDb (sampleTable msgColumns mixedRows)) =
      some final ∧ LikeFresh stable final ∧
      KeepsOrdered (sampleTable msgColumns mixedRows) final) ∧
    ∃ final, migrateThenEnsure stable 0 (sampleDb (sampleTable msgColumns mixedRows)) =
      some final ∧ LikeFresh stable final ∧
      KeepsOrdered (sampleTable msgColumns mixedRows) final :=
  have h := migrated_agrees mixed_initial stable_sorts (by decide +kernel) 0
  ⟨h.1, h.2 (by decide +kernel)⟩

/-- A table without the later columns, one with a row that has no delivery id, and one whose event
ids are out of order. -/
theorem migrated_disagrees :
    (Initial (sampleDb (sampleTable [] [sampleRow 1 10 4])) (sampleTable [] [sampleRow 1 10 4]) ∧
      migrateThenEnsure stable 0 (sampleDb (sampleTable [] [sampleRow 1 10 4])) = none) ∧
    (Initial (sampleDb (sampleTable [] [sampleRow 1 0 4])) (sampleTable [] [sampleRow 1 0 4]) ∧
      ensureThenMigrate stable 0 (sampleDb (sampleTable [] [sampleRow 1 0 4])) = none) ∧
    ¬∀ sort, Sorts sort → ∃ final,
      ensureThenMigrate sort 0 (sampleDb (sampleTable msgColumns mixedRows)) = some final ∧
        InOrder (sampleTable msgColumns mixedRows) final := by
  have hinitial : ∀ delivery, Satisfies (initialColumns ++ []) [sampleRow 1 delivery 4] →
      Initial (sampleDb (sampleTable [] [sampleRow 1 delivery 4]))
        (sampleTable [] [sampleRow 1 delivery 4]) := by
    intro delivery satisfies
    refine sample_initial List.nodup_nil (fun _ h => nomatch h) satisfies ?_
      (List.pairwise_singleton ..)
    exact List.Nodup.filter _ (List.nodup_singleton _)
  refine ⟨⟨hinitial 10 (by decide +kernel), ?_⟩, ⟨hinitial 0 (by decide +kernel), ?_⟩, ?_⟩
  · exact Option.isNone_iff_eq_none.mp (by decide +kernel)
  · exact Option.isNone_iff_eq_none.mp (by decide +kernel)
  · rw [insertion_order_iff mixed_initial (by decide +kernel)]
    decide +kernel

end Samples

end Waitbus.Rebuild
