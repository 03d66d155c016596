import Waitbus.Ddl

/-! The events schema: the lines of the CREATE TABLE in `schema.sql` and its indexes, what
`ensure_schema` reads out of the lines, and the statements that it runs against a table that may
lack columns. Lines that hold only a comment are left out. -/

namespace Waitbus.Schema
open Ddl Dedup

section Lines

/-- The body of `CREATE TABLE IF NOT EXISTS events` in `schema.sql`. -/
def schemaBody : List String :=
  ["    seq INTEGER PRIMARY KEY AUTOINCREMENT,",
    "    delivery_id TEXT NOT NULL UNIQUE,",
    "    source TEXT NOT NULL,",
    "    event_type TEXT NOT NULL,",
    "    owner TEXT NOT NULL,",
    "    repo TEXT NOT NULL,",
    "    run_id INTEGER,",
    "    workflow_name TEXT,",
    "    head_branch TEXT,",
    "    head_sha TEXT,",
    "    status TEXT,",
    "    conclusion TEXT,",
    "    received_at INTEGER NOT NULL,  -- epoch nanoseconds; see waitbus/_types.py",
    "    payload_json TEXT NOT NULL,",
    "    ingest_method TEXT NOT NULL,",
    "    job_id INTEGER,",
    "    job_name TEXT,",
    "    parent_run_id INTEGER,",
    "    alert_name TEXT,",
    "    alert_severity TEXT,",
    "    alert_fingerprint TEXT,",
    "    msg_to TEXT,",
    "    msg_from TEXT,",
    "    msg_correlation_id TEXT,",
    "    msg_reply_to TEXT,",
    "    msg_thread TEXT,",
    "    msg_body TEXT,",
    "    event_id TEXT"]

/-- `raw_line.split("--", 1)[0]`. -/
def cutComment : List Char → List Char
  | '-' :: '-' :: _ => []
  | c :: rest => c :: cutComment rest
  | [] => []

def isBlank (c : Char) : Bool :=
  c = ' ' || (0x09 ≤ c.toNat && c.toNat ≤ 0x0d) || (0x1c ≤ c.toNat && c.toNat ≤ 0x1f)

def strip (line : List Char) : List Char :=
  ((line.dropWhile isBlank).reverse.dropWhile isBlank).reverse

def stripCommas (line : List Char) : List Char :=
  (line.reverse.dropWhile (· = ',')).reverse

def tableConstraintKeywords : List String :=
  ["CHECK", "FOREIGN", "PRIMARY", "UNIQUE", "CONSTRAINT"]

def isIdentifierStart (c : Char) : Bool :=
  c.isAlpha || c = '_'

/-- `_IDENTIFIER_RE.match`, of a text without line breaks. -/
def isIdentifier : List Char → Bool
  | [] => false
  | c :: rest => isIdentifierStart c && rest.all fun c => isIdentifierStart c || c.isDigit

inductive ParsedLine where
  | skipped
  | column (column : Column)
  | unparseable
  deriving DecidableEq

def parseColumnLine (rawLine : String) : ParsedLine :=
  let line := stripCommas (strip (cutComment rawLine.toList))
  if line = [] then .skipped
  else if tableConstraintKeywords.any fun keyword =>
      keyword.toList.isPrefixOf (line.map Char.toUpper) then .skipped
  else
    let head := strip (line.takeWhile (· ≠ ' '))
    let decl := strip ((line.dropWhile (· ≠ ' ')).drop 1)
    if ¬isIdentifier head ∨ decl = [] then .unparseable
    else if "AUTOINCREMENT".toList <:+: decl.map Char.toUpper then .skipped
    else .column ⟨String.ofList head, String.ofList decl⟩

/-- `_expected_event_columns`, of the lines of the body; `none` is its RuntimeError. -/
def expectedEventColumns (body : List String) : Option (List Column) :=
  let parsed := body.map parseColumnLine
  if .unparseable ∈ parsed then none
  else
    match parsed.filterMap fun | .column column => some column | _ => none with
    | [] => none
    | columns => some columns

end Lines

section Statements

/-- The columns of the table that `schema.sql` creates. -/
def eventsColumns : List Column :=
  [⟨"seq", "INTEGER PRIMARY KEY AUTOINCREMENT"⟩,
    ⟨"delivery_id", "TEXT NOT NULL UNIQUE"⟩,
    ⟨"source", "TEXT NOT NULL"⟩,
    ⟨"event_type", "TEXT NOT NULL"⟩,
    ⟨"owner", "TEXT NOT NULL"⟩,
    ⟨"repo", "TEXT NOT NULL"⟩,
    ⟨"run_id", "INTEGER"⟩,
    ⟨"workflow_name", "TEXT"⟩,
    ⟨"head_branch", "TEXT"⟩,
    ⟨"head_sha", "TEXT"⟩,
    ⟨"status", "TEXT"⟩,
    ⟨"conclusion", "TEXT"⟩,
    ⟨"received_at", "INTEGER NOT NULL"⟩,
    ⟨"payload_json", "TEXT NOT NULL"⟩,
    ⟨"ingest_method", "TEXT NOT NULL"⟩,
    ⟨"job_id", "INTEGER"⟩,
    ⟨"job_name", "TEXT"⟩,
    ⟨"parent_run_id", "INTEGER"⟩,
    ⟨"alert_name", "TEXT"⟩,
    ⟨"alert_severity", "TEXT"⟩,
    ⟨"alert_fingerprint", "TEXT"⟩,
    ⟨"msg_to", "TEXT"⟩,
    ⟨"msg_from", "TEXT"⟩,
    ⟨"msg_correlation_id", "TEXT"⟩,
    ⟨"msg_reply_to", "TEXT"⟩,
    ⟨"msg_thread", "TEXT"⟩,
    ⟨"msg_body", "TEXT"⟩,
    ⟨"event_id", "TEXT"⟩]

def index (name : String) (keys : List (String × Bool)) (filter : List Condition) : Index :=
  ⟨name, false, "events", keys, filter⟩

def idxOwnerRepoEvent : Index :=
  index "idx_owner_repo_event"
    [("owner", false), ("repo", false), ("event_type", false), ("received_at", true)] []

def idxRunId : Index :=
  index "idx_run_id" [("run_id", false)] [.isNotNull "run_id"]

def idxParentRunId : Index :=
  index "idx_parent_run_id" [("parent_run_id", false)] [.isNotNull "parent_run_id"]

def idxJobId : Index :=
  index "idx_job_id" [("job_id", false)] [.isNotNull "job_id"]

def idxAlertLookup : Index :=
  index "idx_alert_lookup" [("event_type", false), ("alert_name", false), ("received_at", true)]
    [.isIn "event_type" ["prometheus_alert", "prometheus_watchdog"]]

def idxAlertFingerprint : Index :=
  index "idx_alert_fingerprint" [("alert_fingerprint", false)] [.isNotNull "alert_fingerprint"]

def idxEventId : Index :=
  ⟨"idx_event_id", true, "events", [("event_id", false)], [.isNotNull "event_id"]⟩

def idxMsgTo : Index :=
  index "idx_msg_to" [("msg_to", false), ("received_at", true)] [.isNotNull "msg_to"]

def idxMsgCorrelation : Index :=
  index "idx_msg_correlation" [("msg_correlation_id", false)] [.isNotNull "msg_correlation_id"]

def idxWorkflowJobHeadSha : Index :=
  index "idx_workflow_job_head_sha"
    [("head_sha", false), ("owner", false), ("repo", false), ("received_at", true)]
    [.equals "event_type" "workflow_job", .isNotNull "head_sha"]

def schemaIndexes : List Index :=
  [idxOwnerRepoEvent, idxRunId, idxParentRunId, idxJobId, idxAlertLookup, idxAlertFingerprint,
    idxEventId, idxMsgTo, idxMsgCorrelation, idxWorkflowJobHeadSha]

/-- The statements of `schema.sql`. -/
def schemaStmts : List Stmt :=
  .createTable true "events" eventsColumns :: schemaIndexes.map .createIndex

/-- The columns that `ensure_schema` adds where they are missing. -/
def expectedColumns : List Column :=
  eventsColumns.filter (!·.isRowid)

def missingColumns (existing : List String) : List Column :=
  expectedColumns.filter (·.name ∉ existing)

def ensureScript (migrating : Bool) (existing : List String) : List Stmt :=
  if migrating then (missingColumns existing).map (.addColumn "events") ++ schemaStmts
  else schemaStmts

theorem expectedColumns_nodup : (expectedColumns.map (·.name)).Nodup := by
  decide

theorem schemaIndexes_on : ∀ index ∈ schemaIndexes, index.on = "events" := by
  decide

theorem schemaIndexes_columns :
    ∀ index ∈ schemaIndexes, index.columns ⊆ expectedColumns.map (·.name) := by
  decide

theorem schemaIndexes_unique :
    ∀ index ∈ schemaIndexes, index.unique = true → index = idxEventId := by
  decide

theorem eventId_expected : ∃ column ∈ expectedColumns, column.name = "event_id" := by
  decide

theorem base_expected : ∃ column ∈ expectedColumns, column.addable = false := by
  decide

theorem expectedEventColumns_schemaBody :
    expectedEventColumns schemaBody = some expectedColumns := by
  decide +kernel

end Statements

section Tables

variable {ν : Type*} {table : Table ν} {existing : List String}

/-- Every row of the first table is in the second, with the values it had. -/
def Keeps (before after : Table ν) : Prop :=
  before.names ⊆ after.names ∧ List.Forall₂ (fun a b : Row ν =>
    b.rowid = a.rowid ∧ ∀ name ∈ before.names, b.cells name = a.cells name) before.rows after.rows

theorem Keeps.refl (table : Table ν) : Keeps table table :=
  ⟨List.Subset.refl _, List.forall₂_same.mpr fun _ _ => ⟨rfl, fun _ _ => rfl⟩⟩

theorem Keeps.trans {first second third : Table ν} (h : Keeps first second)
    (h' : Keeps second third) : Keeps first third := by
  refine ⟨List.Subset.trans h.1 h'.1, forall₂_comp h.2 h'.2 ?_⟩
  intro a b c hab hbc
  refine ⟨hbc.1.trans hab.1, fun name hname => ?_⟩
  exact (hbc.2 name (h.1 hname)).trans (hab.2 name hname)

/-- The snapshot has those of the schema's columns that the table has. -/
structure Current (existing : List String) (table : Table ν) : Prop where
  there : ∀ column ∈ expectedColumns, column.name ∈ existing → column.name ∈ table.names
  missing : ∀ column ∈ expectedColumns, column.name ∉ existing → column.name ∉ table.names

theorem mem_missingColumns {column : Column} :
    column ∈ missingColumns existing ↔ column ∈ expectedColumns ∧ column.name ∉ existing := by
  simp [missingColumns]

theorem Current.fresh (h : Current existing table) :
    ∀ column ∈ missingColumns existing, column.name ∉ table.names := by
  intro column hcolumn
  rw [mem_missingColumns] at hcolumn
  exact h.missing column hcolumn.1 hcolumn.2

/-- Columns read from the table are current as long as none has been added that they lack. -/
theorem current_of_read (hsub : existing ⊆ table.names)
    (hread : ∀ column ∈ expectedColumns, column.name ∈ table.names → column.name ∈ existing) :
    Current existing table where
  there _ _ hmem := hsub hmem
  missing column hcolumn hno hmem := hno (hread column hcolumn hmem)

end Tables

section Upgrades

variable {ν : Type*} [LinearOrder ν] [OrderBot ν] {sort : Sorter ν} {db : Database ν}
  {table : Table ν} {existing : List String}

/-- An events table of some earlier schema: what it lacks can be added, and where it has event ids
they are distinct. -/
structure Legacy (table : Table ν) : Prop where
  base : ∀ column ∈ expectedColumns, column.addable = false → column.name ∈ table.names
  eventIds : "event_id" ∈ table.names → Distinct ["event_id"] table.rows

def Complete (table : Table ν) : Prop :=
  ∀ column ∈ expectedColumns, column.name ∈ table.names

def extend (table : Table ν) (columns : List Column) : Table ν :=
  ⟨table.columns ++ columns, table.rows.map (·.clearAll (columns.map (·.name)))⟩

theorem extend_names (table : Table ν) (columns : List Column) :
    (extend table columns).names = table.names ++ columns.map (·.name) :=
  List.map_append

theorem extend_keeps {columns : List Column}
    (fresh : ∀ column ∈ columns, column.name ∉ table.names) :
    Keeps table (extend table columns) := by
  constructor
  · rw [extend_names]
    exact List.subset_append_left ..
  · rw [extend, List.forall₂_map_right_iff, List.forall₂_same]
    intro row _
    refine ⟨clearAll_rowid .., fun name hname => ?_⟩
    rw [clearAll_cells, if_neg]
    intro hadded
    obtain ⟨column, hcolumn, rfl⟩ := List.mem_map.mp hadded
    exact fresh column hcolumn hname

theorem Current.complete (h : Current existing table) :
    Complete (extend table (missingColumns existing)) := by
  intro column hcolumn
  rw [extend_names, List.mem_append]
  by_cases hexisting : column.name ∈ existing
  · exact .inl (h.there column hcolumn hexisting)
  · exact .inr (List.mem_map_of_mem (mem_missingColumns.mpr ⟨hcolumn, hexisting⟩))

theorem Legacy.extend (legacy : Legacy table) (h : Current existing table) :
    Legacy (extend table (missingColumns existing)) := by
  constructor
  · intro column hcolumn _
    exact h.complete column hcolumn
  · intro _
    rw [Schema.extend, Distinct, List.map_map]
    by_cases hadded : "event_id" ∈ (missingColumns existing).map (·.name)
    · -- every row has NULL in a column that has just been added
      rw [List.filter_eq_nil_iff.mpr]
      · exact List.nodup_nil
      · intro keys hkeys
        obtain ⟨row, -, rfl⟩ := List.mem_map.mp hkeys
        simp [clearAll_cells, hadded]
    · have hkept : "event_id" ∈ table.names := by
        obtain ⟨column, hcolumn, hname⟩ := eventId_expected
        rw [← hname]
        apply h.there column hcolumn
        by_contra hmissing
        exact hadded (hname ▸ List.mem_map_of_mem (mem_missingColumns.mpr ⟨hcolumn, hmissing⟩))
      have hdistinct := legacy.eventIds hkept
      rw [Distinct] at hdistinct
      convert hdistinct using 2
      apply List.map_congr_left
      intro row _
      simp [clearAll_cells, hadded]

/-- The database with the columns and the indexes that were missing. -/
def upgrade (db : Database ν) (table : Table ν) (existing : List String) : Database ν where
  tables := (db.put "events" (extend table (missingColumns existing))).tables
  indexes := schemaIndexes.foldl (addNew Index.name) db.indexes

theorem upgrade_events (db : Database ν) (table : Table ν) (existing : List String) :
    (upgrade db table existing).tables "events" =
      some (extend table (missingColumns existing)) := by
  simp only [upgrade, put_table]

theorem execAll_ensureScript (h : db.tables "events" = some table) (legacy : Legacy table)
    (current : Current existing table) :
    execAll sort db (ensureScript true existing) = .ok (upgrade db table existing) := by
  have hadded : execAll sort db ((missingColumns existing).map (.addColumn "events")) =
      .ok (db.put "events" (extend table (missingColumns existing))) := by
    refine execAll_addColumns h ?_ current.fresh ?_
    · exact expectedColumns_nodup.sublist (List.filter_sublist.map _)
    · intro column hcolumn
      have hfresh := current.fresh column hcolumn
      by_contra hno
      exact hfresh (legacy.base column (mem_missingColumns.mp hcolumn).1 (by simpa using hno))
  have hfits : ∀ index ∈ schemaIndexes, index.Fits
      (db.put "events" (extend table (missingColumns existing)))
      (extend table (missingColumns existing)) := by
    intro index hindex
    constructor
    · rw [schemaIndexes_on index hindex]
      exact put_table ..
    · intro name hname
      obtain ⟨column, hcolumn, rfl⟩ := List.mem_map.mp (schemaIndexes_columns index hindex hname)
      exact current.complete column hcolumn
    · intro hunique
      rw [schemaIndexes_unique index hindex hunique]
      apply (legacy.extend current).eventIds
      obtain ⟨column, hcolumn, hname⟩ := eventId_expected
      rw [← hname]
      exact current.complete column hcolumn
  rw [ensureScript, if_pos rfl, execAll_append, hadded, Except.bind, schemaStmts, execAll_cons,
    exec_createTable_present (put_table ..), Except.bind, execAll_createIndexes hfits, upgrade,
    put_indexes]

end Upgrades

end Waitbus.Schema
