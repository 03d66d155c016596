import Mathlib

/-! Append-only logs whose entries carry strictly increasing keys, and readers that walk such a
log one entry at a time behind a cursor. -/

namespace Waitbus.OrderedLog

variable {α κ : Type*} [LinearOrder κ] (key : α → κ)

def Increasing (log : List α) : Prop :=
  log.Pairwise fun a b => key a < key b

/-- What a reader at `cursor` has still to read. -/
def above (cursor : κ) (log : List α) : List α :=
  log.filter (cursor < key ·)

variable {key} {log : List α} {cursor : κ}

theorem mem_above {x : α} : x ∈ above key cursor log ↔ x ∈ log ∧ cursor < key x := by
  simp [above]

theorem Increasing.sublist {part : List α} (h : Increasing key log) (hs : part.Sublist log) :
    Increasing key part :=
  List.Pairwise.sublist hs h

theorem Increasing.above (h : Increasing key log) : Increasing key (above key cursor log) :=
  h.sublist List.filter_sublist

theorem increasing_append {l₁ l₂ : List α} :
    Increasing key (l₁ ++ l₂) ↔
      Increasing key l₁ ∧ Increasing key l₂ ∧ ∀ a ∈ l₁, ∀ b ∈ l₂, key a < key b :=
  List.pairwise_append

theorem Increasing.concat {x : α} (h : Increasing key log) (hx : ∀ y ∈ log, key y < key x) :
    Increasing key (log ++ [x]) := by
  refine increasing_append.mpr ⟨h, List.pairwise_singleton _ _, fun a ha b hb => ?_⟩
  rw [List.mem_singleton.mp hb]
  exact hx a ha

theorem Increasing.eq_of_key_eq {x y : α} (h : Increasing key log) (hx : x ∈ log) (hy : y ∈ log)
    (hkey : key x = key y) : x = y := by
  induction log with
  | nil => cases hx
  | cons a rest ih =>
    obtain ⟨ha, hrest⟩ := List.pairwise_cons.mp h
    rcases List.mem_cons.mp hx with hxa | hxr <;> rcases List.mem_cons.mp hy with hya | hyr
    · rw [hxa, hya]
    · exact absurd (ha y hyr) (by rw [← hxa, hkey]; exact lt_irrefl _)
    · exact absurd (ha x hxr) (by rw [← hya, hkey]; exact lt_irrefl _)
    · exact ih hrest hxr hyr

theorem above_cons {x : α} {rest : List α} (h : Increasing key log)
    (hx : above key cursor log = x :: rest) :
    above key (key x) log = rest ∧ cursor < key x ∧
      ∀ y ∈ log, key y ≤ key x → key y ≤ cursor ∨ y = x := by
  have hmem : ∀ y, y ∈ x :: rest ↔ y ∈ log ∧ cursor < key y := fun y => by
    rw [← hx]
    exact mem_above
  have hlt : cursor < key x := ((hmem x).mp List.mem_cons_self).2
  have hinc : Increasing key (x :: rest) := hx ▸ h.above
  have hrest := (List.pairwise_cons.mp hinc).1
  refine ⟨?_, hlt, fun y hy hle => ?_⟩
  · calc above key (key x) log
        = (above key cursor log).filter (key x < key ·) := by
          rw [above, above, List.filter_filter]
          refine List.filter_congr fun y _ => ?_
          by_cases hy : key x < key y
          · simp [hy, hlt.trans hy]
          · simp [hy]
      _ = rest := by
          rw [hx, List.filter_cons_of_neg (by simp), List.filter_eq_self]
          simpa using hrest
  · by_contra hne
    push Not at hne
    have hin : y ∈ x :: rest := (hmem y).mpr ⟨hy, hne.1⟩
    rcases List.mem_cons.mp hin with rfl | hin
    · exact hne.2 rfl
    · exact absurd (hrest y hin) (not_lt.mpr hle)

theorem above_eq_nil : above key cursor log = [] ↔ ∀ y ∈ log, key y ≤ cursor := by
  simp [above, List.filter_eq_nil_iff]

theorem Increasing.mem_take {x : α} {n : Nat} (h : Increasing key log) (hx : x ∈ log)
    (hn : (log.filter (key · < key x)).length < n) : x ∈ log.take n := by
  induction log generalizing n with
  | nil => cases hx
  | cons a rest ih =>
    obtain ⟨ha, hrest⟩ := List.pairwise_cons.mp h
    obtain ⟨k, rfl⟩ : ∃ k, n = k + 1 := ⟨n - 1, by omega⟩
    rcases List.mem_cons.mp hx with rfl | hx
    · exact List.mem_cons_self
    · rw [List.filter_cons_of_pos (by simpa using ha x hx), List.length_cons] at hn
      exact List.mem_cons_of_mem _ (ih hrest hx (by omega))

theorem Increasing.mem_take_iff {x : α} {n : Nat} (h : Increasing key log) :
    x ∈ log.take n ↔ x ∈ log ∧ (log.filter (key · < key x)).length < n := by
  refine ⟨fun hx => ⟨List.mem_of_mem_take hx, ?_⟩, fun hx => h.mem_take hx.1 hx.2⟩
  induction log generalizing n with
  | nil => simp at hx
  | cons a rest ih =>
    obtain ⟨ha, hrest⟩ := List.pairwise_cons.mp h
    cases n with
    | zero => simp at hx
    | succ n =>
      rcases List.mem_cons.mp hx with rfl | hx
      · have hnone : rest.filter (key · < key x) = [] :=
          List.filter_eq_nil_iff.mpr fun y hy => by simpa using (ha y hy).le
        rw [List.filter_cons_of_neg (by simp), hnone]
        exact Nat.succ_pos n
      · rw [List.filter_cons_of_pos (by simpa using ha x (List.mem_of_mem_take hx))]
        exact Nat.succ_lt_succ (ih hrest hx)

end Waitbus.OrderedLog
