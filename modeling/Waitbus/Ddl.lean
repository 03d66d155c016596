import Mathlib
import Waitbus.Dedup

/-! The SQL statements that schemas are made and changed with, on tables whose cells are of any
linear order with a least value, which stands for NULL. A script is a list of statements; it stops
at the first that fails. How rows of one sort key are ordered is left to the engine. -/

namespace Waitbus.Ddl
open Dedup

section Tables

structure Column where
  name : String
  decl : String
  deriving DecidableEq

def Column.says (column : Column) (words : String) : Bool :=
  decide (words.toList <:+: column.decl.toList)

def Column.notNull (column : Column) : Bool :=
  column.says "NOT NULL"

def Column.unique (column : Column) : Bool :=
  column.says "UNIQUE" || column.says "PRIMARY KEY"

def Column.isRowid (column : Column) : Bool :=
  column.says "INTEGER PRIMARY KEY"

/-- `ALTER TABLE ADD COLUMN` takes the column. -/
def Column.addable (column : Column) : Bool :=
  !column.notNull && !column.unique

inductive Condition where
  | isNotNull (column : String)
  | equals (column text : String)
  | isIn (column : String) (texts : List String)
  deriving DecidableEq

def Condition.column : Condition → String
  | .isNotNull column | .equals column _ | .isIn column _ => column

/-- An index of the table `on`; a key says whether it descends. -/
structure Index where
  name : String
  unique : Bool
  on : String
  keys : List (String × Bool)
  filter : List Condition
  deriving DecidableEq

def Index.columns (index : Index) : List String :=
  index.keys.map (·.1) ++ index.filter.map Condition.column

/-- Rows are in the order of their rowids, which is the order they were inserted in. -/
structure Row (ν : Type*) where
  rowid : Nat
  cells : String → ν

structure Table (ν : Type*) where
  columns : List Column
  rows : List (Row ν)

structure Database (ν : Type*) where
  tables : String → Option (Table ν)
  indexes : List Index

variable {ν : Type*}

def Table.names (table : Table ν) : List String :=
  table.columns.map (·.name)

variable [LinearOrder ν] [OrderBot ν]

/-- No two rows have the same keys, rows with a NULL among them apart. -/
def Distinct (keys : List String) (rows : List (Row ν)) : Prop :=
  ((rows.map fun row => keys.map row.cells).filter (⊥ ∉ ·)).Nodup

instance (keys : List String) (rows : List (Row ν)) : Decidable (Distinct keys rows) :=
  inferInstanceAs (Decidable (List.Nodup _))

/-- The rows keep the constraints that the columns declare; a rowid is never NULL. -/
def Satisfies (columns : List Column) (rows : List (Row ν)) : Prop :=
  ∀ column ∈ columns, column.isRowid = false →
    (column.notNull = true → ∀ row ∈ rows, row.cells column.name ≠ ⊥) ∧
      (column.unique = true → Distinct [column.name] rows)

instance (columns : List Column) (rows : List (Row ν)) : Decidable (Satisfies columns rows) :=
  inferInstanceAs (Decidable (∀ column ∈ columns, column.isRowid = false → _))

end Tables

section Execution

inductive Stmt where
  | createTable (ifNotExists : Bool) (name : String) (columns : List Column)
  /-- `CREATE INDEX IF NOT EXISTS`, or with UNIQUE. -/
  | createIndex (index : Index)
  | addColumn (table : String) (column : Column)
  /-- `INSERT INTO … SELECT … FROM … ORDER BY …`, of the same columns. -/
  | insertSelect (into : String) (names : List String) (source orderBy : String)
  | dropTable (name : String)
  | renameTable (name newName : String)
  deriving DecidableEq

inductive SqlError where
  | tableExists
  | noSuchTable
  | duplicateColumn
  | cannotAddColumn
  | noSuchColumn
  | constraintFailed
  deriving DecidableEq

variable {ν : Type*}

/-- What the engine makes of `ORDER BY` on one column. -/
abbrev Sorter (ν : Type*) :=
  String → List (Row ν) → List (Row ν)

/-- New rows get the rowids from `next` on. -/
def number (next : Nat) : List (String → ν) → List (Row ν)
  | [] => []
  | cells :: rest => ⟨next, cells⟩ :: number (next + 1) rest

def nextRowid (rows : List (Row ν)) : Nat :=
  (rows.getLast?.map (·.rowid)).getD 0 + 1

def Database.put (db : Database ν) (name : String) (table : Table ν) : Database ν :=
  { db with tables := Function.update db.tables name (some table) }

section Puts

variable {db : Database ν} {table : Table ν} {name : String}

theorem put_put (db : Database ν) (name : String) (first second : Table ν) :
    (db.put name first).put name second = db.put name second := by
  rw [Database.put, Database.put, Database.put, Function.update_idem]

theorem put_indexes (db : Database ν) (name : String) (table : Table ν) :
    (db.put name table).indexes = db.indexes :=
  rfl

theorem put_self (h : db.tables name = some table) : db.put name table = db := by
  rw [Database.put, ← h, Function.update_eq_self]

theorem put_table (db : Database ν) (name : String) (table : Table ν) :
    (db.put name table).tables name = some table :=
  Function.update_self ..

theorem put_other {other : String} (h : other ≠ name) :
    (db.put name table).tables other = db.tables other :=
  Function.update_of_ne h ..

end Puts

variable [LinearOrder ν] [OrderBot ν]

structure Sorts (sort : Sorter ν) : Prop where
  perm : ∀ column rows, (sort column rows).Perm rows
  sorted : ∀ column rows, (sort column rows).Pairwise fun a b => a.cells column ≤ b.cells column

def Row.restrict (row : Row ν) (names : List String) : String → ν :=
  fun name => if name ∈ names then row.cells name else ⊥

def Row.clear (row : Row ν) (name : String) : Row ν :=
  { row with cells := Function.update row.cells name ⊥ }

def exec (sort : Sorter ν) (db : Database ν) : Stmt → Except SqlError (Database ν)
  | .createTable ifNotExists name columns =>
    match db.tables name with
    | some _ => if ifNotExists then .ok db else .error .tableExists
    | none => .ok (db.put name ⟨columns, []⟩)
  | .createIndex index =>
    if index.name ∈ db.indexes.map (·.name) then .ok db
    else
      match db.tables index.on with
      | none => .error .noSuchTable
      | some table =>
        if ¬index.columns ⊆ table.names then .error .noSuchColumn
        else if index.unique ∧ ¬Distinct (index.keys.map (·.1)) table.rows then
          .error .constraintFailed
        else .ok { db with indexes := db.indexes ++ [index] }
  | .addColumn name column =>
    match db.tables name with
    | none => .error .noSuchTable
    | some table =>
      if column.name ∈ table.names then .error .duplicateColumn
      else if ¬column.addable then .error .cannotAddColumn
      else .ok (db.put name ⟨table.columns ++ [column], table.rows.map (·.clear column.name)⟩)
  | .insertSelect into names source orderBy =>
    match db.tables into, db.tables source with
    | some target, some table =>
      if ¬names ⊆ target.names ∨ ¬names ⊆ table.names ∨ orderBy ∉ table.names then
        .error .noSuchColumn
      else
        let rows := target.rows ++
          number (nextRowid target.rows) ((sort orderBy table.rows).map (·.restrict names))
        if ¬Satisfies target.columns rows ∨ ∃ index ∈ db.indexes, index.on = into ∧
            index.unique ∧ ¬Distinct (index.keys.map (·.1)) rows then .error .constraintFailed
        else .ok (db.put into ⟨target.columns, rows⟩)
    | _, _ => .error .noSuchTable
  | .dropTable name =>
    match db.tables name with
    | none => .error .noSuchTable
    | some _ => .ok
      { tables := Function.update db.tables name none
        indexes := db.indexes.filter (·.on ≠ name) }
  | .renameTable name newName =>
    match db.tables name, db.tables newName with
    | none, _ => .error .noSuchTable
    | some _, some _ => .error .tableExists
    | some table, none => .ok
      { tables := Function.update (Function.update db.tables name none) newName (some table)
        indexes := db.indexes.map fun index =>
          if index.on = name then { index with on := newName } else index }

def execAll (sort : Sorter ν) (db : Database ν) : List Stmt → Except SqlError (Database ν)
  | [] => .ok db
  | stmt :: rest =>
    match exec sort db stmt with
    | .error e => .error e
    | .ok db => execAll sort db rest

end Execution

section Scripts

variable {ν : Type*} [LinearOrder ν] [OrderBot ν] {sort : Sorter ν} {db db' : Database ν}
  {table : Table ν} {name : String}

theorem execAll_cons (stmt : Stmt) (rest : List Stmt) :
    execAll sort db (stmt :: rest) = (exec sort db stmt).bind fun db => execAll sort db rest := by
  rw [execAll]
  cases exec sort db stmt with
  | error e => rfl
  | ok db => rfl

theorem execAll_append (first second : List Stmt) :
    execAll sort db (first ++ second) =
      (execAll sort db first).bind fun db => execAll sort db second := by
  induction first generalizing db with
  | nil => rfl
  | cons stmt rest ih =>
    rw [List.cons_append, execAll_cons, execAll_cons]
    cases exec sort db stmt with
    | error e => rfl
    | ok db => exact ih

theorem exec_createTable_present {columns : List Column} (h : db.tables name = some table) :
    exec sort db (.createTable true name columns) = .ok db := by
  rw [exec, h]
  rfl

theorem exec_dropTable (h : db.tables name = some table) :
    exec sort db (.dropTable name) =
      .ok ⟨Function.update db.tables name none, db.indexes.filter (·.on ≠ name)⟩ := by
  rw [exec, h]

theorem exec_renameTable {newName : String} (h : db.tables name = some table)
    (free : db.tables newName = none) (hindexes : ∀ index ∈ db.indexes, index.on ≠ name) :
    exec sort db (.renameTable name newName) =
      .ok ⟨Function.update (Function.update db.tables name none) newName (some table),
        db.indexes⟩ := by
  rw [exec, h, free]
  dsimp only
  rw [List.map_congr_left (g := id), List.map_id]
  intro index hindex
  exact if_neg (hindexes index hindex)

/-- An index whose columns are there, and whose keys are distinct if it is unique, can be made. -/
structure Index.Fits (index : Index) (db : Database ν) (table : Table ν) : Prop where
  found : db.tables index.on = some table
  columns : index.columns ⊆ table.names
  distinct : index.unique = true → Distinct (index.keys.map (·.1)) table.rows

theorem exec_createIndex {index : Index} (h : index.Fits db table) :
    exec sort db (.createIndex index) =
      .ok { db with indexes := addNew Index.name db.indexes index } := by
  rw [exec, addNew]
  split
  · rfl
  · rw [h.found]
    dsimp only
    rw [if_neg (not_not.mpr h.columns), if_neg fun hbad => hbad.2 (h.distinct hbad.1)]

theorem execAll_createIndexes {indexes : List Index} (h : ∀ index ∈ indexes, index.Fits db table) :
    execAll sort db (indexes.map .createIndex) =
      .ok { db with indexes := indexes.foldl (addNew Index.name) db.indexes } := by
  induction indexes generalizing db with
  | nil => rfl
  | cons index rest ih =>
    rw [List.map_cons, execAll_cons, exec_createIndex (h index (List.mem_cons_self ..))]
    refine ih ?_
    intro other hother
    have hfits := h other (List.mem_cons_of_mem _ hother)
    exact ⟨hfits.found, hfits.columns, hfits.distinct⟩

theorem exec_addColumn {column : Column} (h : db.tables name = some table)
    (fresh : column.name ∉ table.names) (haddable : column.addable = true) :
    exec sort db (.addColumn name column) =
      .ok (db.put name ⟨table.columns ++ [column], table.rows.map (·.clear column.name)⟩) := by
  rw [exec, h]
  dsimp only
  rw [if_neg fresh, if_neg (not_not.mpr haddable)]

def Row.clearAll (row : Row ν) (names : List String) : Row ν :=
  names.foldl Row.clear row

theorem clearAll_rowid (row : Row ν) (names : List String) :
    (row.clearAll names).rowid = row.rowid := by
  induction names generalizing row with
  | nil => rfl
  | cons name rest ih => exact ih (row.clear name)

theorem clearAll_cells (row : Row ν) (names : List String) (name : String) :
    (row.clearAll names).cells name = if name ∈ names then ⊥ else row.cells name := by
  induction names generalizing row with
  | nil => rfl
  | cons first rest ih =>
    rw [Row.clearAll, List.foldl_cons, ← Row.clearAll, ih, Row.clear]
    by_cases hfirst : name = first
    · simp [hfirst]
    · simp [hfirst]

theorem execAll_createIndexes_known {indexes : List Index}
    (h : ∀ index ∈ indexes, index.name ∈ db.indexes.map (·.name)) :
    execAll sort db (indexes.map .createIndex) = .ok db := by
  induction indexes with
  | nil => rfl
  | cons index rest ih =>
    rw [List.map_cons, execAll_cons, exec, if_pos (h index (List.mem_cons_self ..))]
    exact ih fun other hother => h other (List.mem_cons_of_mem _ hother)

theorem execAll_addColumns {columns : List Column} (h : db.tables name = some table)
    (names : (columns.map (·.name)).Nodup)
    (fresh : ∀ column ∈ columns, column.name ∉ table.names)
    (haddable : ∀ column ∈ columns, column.addable = true) :
    execAll sort db (columns.map (.addColumn name)) =
      .ok (db.put name ⟨table.columns ++ columns,
        table.rows.map (·.clearAll (columns.map (·.name)))⟩) := by
  induction columns generalizing db table with
  | nil =>
    rw [List.map_nil, List.append_nil, execAll, List.map_nil, List.map_congr_left (g := id)]
    · rw [List.map_id, put_self h]
    · intro row _
      rfl
  | cons column rest ih =>
    rw [List.map_cons, List.nodup_cons] at names
    rw [List.map_cons, execAll_cons, exec_addColumn h (fresh column (List.mem_cons_self ..))
      (haddable column (List.mem_cons_self ..)), Except.bind, ih (put_table ..) names.2]
    · rw [put_put, List.append_assoc, List.map_map]
      rfl
    · intro other hother
      rw [Table.names, List.map_append, List.mem_append, not_or]
      refine ⟨fresh other (List.mem_cons_of_mem _ hother), ?_⟩
      intro hsame
      rw [List.map_singleton, List.mem_singleton] at hsame
      exact names.1 (hsame ▸ List.mem_map_of_mem hother)
    · intro other hother
      exact haddable other (List.mem_cons_of_mem _ hother)

end Scripts

section Copies

theorem forall₂_comp {α β γ : Type*} {R : α → β → Prop} {S : β → γ → Prop} {T : α → γ → Prop}
    {first : List α} {second : List β} {third : List γ} (h : List.Forall₂ R first second)
    (h' : List.Forall₂ S second third) (hcomp : ∀ a b c, R a b → S b c → T a c) :
    List.Forall₂ T first third := by
  induction h generalizing third with
  | nil =>
    cases h'
    exact .nil
  | cons hhead _ ih =>
    cases h' with
    | cons hhead' htail' => exact .cons (hcomp _ _ _ hhead hhead') (ih htail')

variable {ν : Type*}

theorem number_cells (next : Nat) (copied : List (String → ν)) :
    (number next copied).map (·.cells) = copied := by
  induction copied generalizing next with
  | nil => rfl
  | cons cells rest ih => rw [number, List.map_cons, ih]

theorem number_rowids (next : Nat) (copied : List (String → ν)) :
    (number next copied).map (·.rowid) = List.range' next copied.length := by
  induction copied generalizing next with
  | nil => rfl
  | cons cells rest ih => rw [number, List.map_cons, ih, List.length_cons, List.range'_succ]

theorem forall₂_cells {names : List String} {rows rows' : List (Row ν)} {name : String}
    (h : List.Forall₂ (fun old new : Row ν => ∀ name ∈ names, new.cells name = old.cells name)
      rows rows') (hname : name ∈ names) :
    rows'.map (·.cells name) = rows.map (·.cells name) := by
  rw [← List.forall₂_eq_eq_eq, List.forall₂_map_left_iff, List.forall₂_map_right_iff]
  exact List.Forall₂.flip (h.imp fun old new hsame => hsame name hname)

variable [LinearOrder ν] [OrderBot ν] {rows : List (Row ν)} {names : List String}

/-- The rows that `INSERT INTO … SELECT` puts into an empty table. -/
def copyRows (names : List String) (rows : List (Row ν)) : List (Row ν) :=
  number 1 (rows.map (·.restrict names))

theorem copyRows_rowids (names : List String) (rows : List (Row ν)) :
    (copyRows names rows).map (·.rowid) = List.range' 1 rows.length := by
  rw [copyRows, number_rowids, List.length_map]

theorem copyRows_cells (names : List String) (rows : List (Row ν)) :
    (copyRows names rows).map (·.cells) = rows.map (·.restrict names) :=
  number_cells ..

theorem restrict_cells {name : String} (row : Row ν) (h : name ∈ names) :
    row.restrict names name = row.cells name :=
  if_pos h

theorem forall₂_copyRows (names : List String) (rows : List (Row ν)) :
    List.Forall₂ (fun old new : Row ν => ∀ name ∈ names, new.cells name = old.cells name)
      rows (copyRows names rows) := by
  rw [copyRows]
  generalize 1 = next
  induction rows generalizing next with
  | nil => exact .nil
  | cons row rest ih =>
    rw [List.map_cons, number]
    exact .cons (fun name hname => restrict_cells row hname) (ih (next + 1))

theorem distinct_copyRows {keys : List String} (h : keys ⊆ names) :
    Distinct keys (copyRows names rows) ↔ Distinct keys rows := by
  have hkeys : (copyRows names rows).map (fun row => keys.map row.cells) =
      rows.map fun row => keys.map row.cells := by
    calc
      _ = ((copyRows names rows).map (·.cells)).map fun cells => keys.map cells := by
        rw [List.map_map]
        rfl
      _ = rows.map fun row => keys.map row.cells := by
        rw [copyRows_cells, List.map_map]
        apply List.map_congr_left
        intro row _
        apply List.map_congr_left
        intro name hname
        exact restrict_cells row (h hname)
  rw [Distinct, Distinct, hkeys]

theorem notNull_copyRows {name : String} (h : name ∈ names) :
    (∀ row ∈ copyRows names rows, row.cells name ≠ ⊥) ↔ ∀ row ∈ rows, row.cells name ≠ ⊥ := by
  have hcells := forall₂_cells (forall₂_copyRows names rows) h
  simpa only [List.forall_mem_map] using
    (congrArg (fun cells => ∀ cell ∈ cells, cell ≠ ⊥) hcells).to_iff

theorem Distinct.perm {keys : List String} {rows' : List (Row ν)} (h : Distinct keys rows)
    (hperm : rows.Perm rows') : Distinct keys rows' := by
  rw [Distinct] at h ⊢
  exact (((hperm.map _).filter _).nodup_iff).mp h

variable {sort : Sorter ν} {db : Database ν} {table : Table ν} {columns : List Column}
  {into source orderBy : String}

theorem exec_insertSelect (hinto : db.tables into = some ⟨columns, []⟩)
    (hsource : db.tables source = some table) (htarget : names ⊆ columns.map (·.name))
    (hnames : names ⊆ table.names) (horder : orderBy ∈ table.names)
    (hindexes : ∀ index ∈ db.indexes, index.on ≠ into)
    (hsatisfies : Satisfies columns (copyRows names (sort orderBy table.rows))) :
    exec sort db (.insertSelect into names source orderBy) =
      .ok (db.put into ⟨columns, copyRows names (sort orderBy table.rows)⟩) := by
  rw [exec, hinto, hsource]
  dsimp only
  rw [if_neg]
  · rw [List.nil_append]
    refine if_neg (not_or.mpr ⟨not_not.mpr hsatisfies, ?_⟩)
    rintro ⟨index, hindex, hon, -⟩
    exact hindexes index hindex hon
  · simp only [not_or, not_not]
    exact ⟨htarget, hnames, horder⟩

end Copies

section Sorting

variable {ν : Type*} [LinearOrder ν] {rows : List (Row ν)} {column : String}

def stable : Sorter ν :=
  fun column rows => rows.mergeSort fun a b => decide (a.cells column ≤ b.cells column)

def unstable : Sorter ν :=
  fun column rows => stable column rows.reverse

theorem le_trans' (column : String) (a b c : Row ν)
    (hab : decide (a.cells column ≤ b.cells column) = true)
    (hbc : decide (b.cells column ≤ c.cells column) = true) :
    decide (a.cells column ≤ c.cells column) = true :=
  decide_eq_true ((of_decide_eq_true hab).trans (of_decide_eq_true hbc))

theorem le_total' (column : String) (a b : Row ν) :
    (decide (a.cells column ≤ b.cells column) || decide (b.cells column ≤ a.cells column)) =
      true := by
  simpa using le_total (a.cells column) (b.cells column)

theorem stable_sorts : Sorts (stable (ν := ν)) where
  perm column rows := List.mergeSort_perm ..
  sorted column rows := by
    have hsorted := List.pairwise_mergeSort (le_trans' column) (le_total' column) rows
    exact hsorted.imp of_decide_eq_true

theorem unstable_sorts : Sorts (unstable (ν := ν)) where
  perm column rows := (stable_sorts.perm column rows.reverse).trans (List.reverse_perm rows)
  sorted column rows := stable_sorts.sorted column rows.reverse

theorem not_both_ways {α : Type*} {l : List α} {a b : α} (nodup : l.Nodup)
    (hab : [a, b].Sublist l) (hba : [b, a].Sublist l) : False := by
  obtain ⟨early, late, hsplit, ha, hb⟩ := List.cons_sublist_iff.mp hab
  obtain ⟨early', late', hsplit', hb', ha'⟩ := List.cons_sublist_iff.mp hba
  rw [List.singleton_sublist] at hb ha'
  have hapart := (List.nodup_append'.mp (hsplit ▸ nodup)).2.2
  rw [hsplit, List.append_eq_append_iff] at hsplit'
  rcases hsplit' with ⟨between, -, hlate⟩ | ⟨between, hearly, -⟩
  · rw [hlate] at hapart
    exact hapart ha (List.mem_append_right _ ha')
  · rw [hearly] at hapart
    exact hapart (List.mem_append_left _ hb') hb

/-- Rows that differ are left where they are by every sort just where their keys increase. -/
theorem sorts_fix_iff (nodup : rows.Nodup) :
    (∀ sort, Sorts sort → sort column rows = rows) ↔
      rows.Pairwise fun a b => a.cells column < b.cells column := by
  constructor
  · intro hfix
    have hsorted : rows.Pairwise fun a b => a.cells column ≤ b.cells column := by
      have h := stable_sorts.sorted column rows
      rwa [hfix _ stable_sorts] at h
    rw [List.pairwise_iff_forall_sublist]
    intro a b hab
    have hle := List.pairwise_iff_forall_sublist.mp hsorted hab
    refine lt_of_le_of_ne hle fun htie => ?_
    -- a tie is turned around by the second sort, which fixes the rows as well
    have hreversed : [b, a].Sublist rows.reverse := by
      have h := List.reverse_sublist.mpr hab
      rwa [List.reverse_cons, List.reverse_singleton, List.singleton_append] at h
    have hba : [b, a].Sublist rows := by
      have h := List.pair_sublist_mergeSort (le_trans' column) (le_total' column)
        (decide_eq_true htie.ge) hreversed
      have hsame := hfix _ unstable_sorts
      rw [unstable, stable] at hsame
      rwa [hsame] at h
    exact not_both_ways nodup hab hba
  · intro hincreasing sort hsorts
    refine List.Perm.eq_of_pairwise ?_ (hsorts.sorted column rows)
      (hincreasing.imp fun h => le_of_lt h) (hsorts.perm column rows)
    intro a b ha hb hab hba
    have hkeys : (rows.map (·.cells column)).Nodup := by
      rw [List.Nodup, List.pairwise_map]
      exact hincreasing.imp fun h => ne_of_lt h
    exact List.inj_on_of_nodup_map hkeys ((hsorts.perm column rows).subset ha) hb
      (le_antisymm hab hba)

theorem eq_of_perm_of_keys {α κ : Type*} {key : α → κ} {l l' : List α} (hperm : l'.Perm l)
    (nodup : (l.map key).Nodup) (hkeys : l'.map key = l.map key) : l' = l := by
  apply List.ext_getElem hperm.length_eq
  intro i hi hi'
  apply List.inj_on_of_nodup_map nodup (hperm.subset (List.getElem_mem hi)) (List.getElem_mem hi')
  have hat := congrArg (·[i]?) hkeys
  simpa [hi, hi'] using hat

end Sorting

end Waitbus.Ddl
