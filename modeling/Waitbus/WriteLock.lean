import Mathlib

/-! A database that one client writes at a time. A write transaction works on a copy, which its
commit makes the database and its rollback, or the end of its process, drops. -/

namespace Waitbus.WriteLock

variable {ι δ : Type*}

/-- The database, and who holds the write lock with the copy that is being worked on. -/
structure Shared (ι δ : Type*) where
  committed : δ
  writer : Option (ι × δ)

/-- `BEGIN IMMEDIATE`; it is refused while another transaction writes. -/
def Shared.begin? (db : Shared ι δ) (p : ι) : Option (Shared ι δ) :=
  match db.writer with
  | none => some { db with writer := some (p, db.committed) }
  | some _ => none

def Shared.work (db : Shared ι δ) (p : ι) (copy : δ) : Shared ι δ :=
  { db with writer := some (p, copy) }

/-- `COMMIT` of a copy. -/
def Shared.commit (copy : δ) : Shared ι δ :=
  ⟨copy, none⟩

def Shared.rollback (db : Shared ι δ) : Shared ι δ :=
  { db with writer := none }

def Shared.kill [DecidableEq ι] (db : Shared ι δ) (p : ι) : Shared ι δ :=
  if db.writer.any (·.1 = p) then db.rollback else db

def Shared.copyOf [DecidableEq ι] (db : Shared ι δ) (p : ι) : Option δ :=
  match db.writer with
  | some (q, copy) => if q = p then some copy else none
  | none => none

theorem begin?_eq_some {db db' : Shared ι δ} {p : ι} :
    db.begin? p = some db' ↔ db.writer = none ∧ db' = db.work p db.committed := by
  rw [Shared.begin?]
  split
  · rename_i hfree
    rw [Option.some.injEq, hfree]
    exact ⟨fun h => ⟨rfl, h.symm⟩, fun h => h.2.symm⟩
  · rename_i hbusy
    rw [hbusy]
    simp

theorem begin?_eq_none {db : Shared ι δ} {p : ι} : db.begin? p = none ↔ db.writer ≠ none := by
  rw [Shared.begin?]
  split
  · rename_i hfree
    simp [hfree]
  · rename_i hbusy
    simp [hbusy]

theorem copyOf_eq_some [DecidableEq ι] {db : Shared ι δ} {p : ι} {copy : δ} :
    db.copyOf p = some copy ↔ db.writer = some (p, copy) := by
  rw [Shared.copyOf]
  split
  · rename_i q other hwriter
    rw [hwriter]
    by_cases hq : q = p
    · simp [hq]
    · simp [hq]
  · rename_i hfree
    simp [hfree]

theorem writer_unique {db : Shared ι δ} {p q : ι} {copy other : δ}
    (hp : db.writer = some (p, copy)) (hq : db.writer = some (q, other)) :
    p = q ∧ copy = other := by
  rw [hp] at hq
  exact Prod.mk.inj (Option.some.inj hq)

theorem kill_writer_ne [DecidableEq ι] {db : Shared ι δ} {p q : ι} {copy : δ} (hne : q ≠ p)
    (h : db.writer = some (q, copy)) : db.kill p = db := by
  rw [Shared.kill, h, Option.any_some, if_neg (by simpa using hne)]

theorem kill_committed [DecidableEq ι] (db : Shared ι δ) (p : ι) :
    (db.kill p).committed = db.committed := by
  rw [Shared.kill]
  split
  · rfl
  · rfl

end Waitbus.WriteLock
