import Mathlib
import Waitbus.Compaction

/-! Logs that ignore an entry whose key they have: what is kept are the entries under a key that
none before them had. -/

namespace Waitbus.Dedup
open Compaction

variable {α κ : Type*} [DecidableEq κ] {key : α → κ}

def addNew (key : α → κ) (kept : List α) (x : α) : List α :=
  if key x ∈ kept.map key then kept else kept ++ [x]

def firsts (key : α → κ) (log : List α) : List α :=
  log.foldl (addNew key) []

section Firsts

variable {log : List α} {x : α}

theorem firsts_concat (key : α → κ) (log : List α) (x : α) :
    firsts key (log ++ [x]) = addNew key (firsts key log) x := by
  rw [firsts, List.foldl_append]
  rfl

theorem mem_keys_addNew {kept : List α} {k : κ} :
    k ∈ (addNew key kept x).map key ↔ k ∈ kept.map key ∨ k = key x := by
  rw [addNew]
  split
  · rename_i hx
    exact ⟨.inl, fun h => h.elim id fun h => h ▸ hx⟩
  · rw [List.map_append, List.mem_append, List.map_singleton, List.mem_singleton]

theorem mem_keys_foldl_addNew {kept more : List α} {k : κ} :
    k ∈ (more.foldl (addNew key) kept).map key ↔ k ∈ kept.map key ∨ k ∈ more.map key := by
  induction more generalizing kept with
  | nil => simp
  | cons x rest ih =>
    rw [List.foldl_cons, ih, mem_keys_addNew, List.map_cons, List.mem_cons, or_assoc]

theorem mem_keys_firsts {k : κ} : k ∈ (firsts key log).map key ↔ k ∈ log.map key := by
  rw [firsts, mem_keys_foldl_addNew, List.map_nil, or_iff_right List.not_mem_nil]

theorem firsts_concat_known (h : key x ∈ log.map key) :
    firsts key (log ++ [x]) = firsts key log := by
  rw [firsts_concat, addNew, if_pos (mem_keys_firsts.mpr h)]

theorem firsts_concat_new (h : key x ∉ log.map key) :
    firsts key (log ++ [x]) = firsts key log ++ [x] := by
  rw [firsts_concat, addNew, if_neg (mt mem_keys_firsts.mp h)]

theorem firsts_append (key : α → κ) (log more : List α) :
    firsts key (log ++ more) = more.foldl (addNew key) (firsts key log) :=
  List.foldl_append

theorem mem_foldl_addNew {kept more : List α} (h : x ∈ more.foldl (addNew key) kept) :
    x ∈ kept ∨ x ∈ more := by
  induction more generalizing kept with
  | nil => exact .inl h
  | cons y rest ih =>
    rcases ih h with hkept | hrest
    · rw [addNew] at hkept
      split at hkept
      · exact .inl hkept
      · refine (List.mem_append.mp hkept).imp_right fun hx => ?_
        rw [List.mem_singleton.mp hx]
        exact List.mem_cons_self ..
    · exact .inr (List.mem_cons_of_mem _ hrest)

theorem subset_foldl_addNew (kept more : List α) : kept ⊆ more.foldl (addNew key) kept := by
  induction more generalizing kept with
  | nil => exact List.Subset.refl _
  | cons y rest ih =>
    refine List.Subset.trans ?_ (ih _)
    rw [addNew]
    split
    · exact List.Subset.refl _
    · exact List.subset_append_left ..

theorem foldl_addNew_known {kept more : List α} (h : ∀ x ∈ more, key x ∈ kept.map key) :
    more.foldl (addNew key) kept = kept := by
  induction more with
  | nil => rfl
  | cons x rest ih =>
    rw [List.foldl_cons, addNew, if_pos (h x (List.mem_cons_self ..))]
    exact ih fun y hy => h y (List.mem_cons_of_mem _ hy)

theorem foldl_addNew_fresh {kept more : List α} (h : ∀ x ∈ more, key x ∉ kept.map key)
    (nodup : (more.map key).Nodup) : more.foldl (addNew key) kept = kept ++ more := by
  induction more generalizing kept with
  | nil => rw [List.foldl_nil, List.append_nil]
  | cons x rest ih =>
    rw [List.map_cons, List.nodup_cons] at nodup
    rw [List.foldl_cons, addNew, if_neg (h x (List.mem_cons_self ..)), ih ?_ nodup.2,
      List.append_assoc, List.singleton_append]
    intro y hy
    rw [List.map_append, List.mem_append, not_or]
    refine ⟨h y (List.mem_cons_of_mem _ hy), ?_⟩
    intro hsame
    rw [List.map_singleton, List.mem_singleton] at hsame
    exact nodup.1 (hsame ▸ List.mem_map_of_mem hy)

theorem nodup_keys_firsts (key : α → κ) (log : List α) : ((firsts key log).map key).Nodup := by
  induction log using List.reverseRecOn with
  | nil => exact List.nodup_nil
  | append_singleton log x ih =>
    rw [firsts_concat, addNew]
    split
    · exact ih
    · rename_i hnew
      rw [List.map_append]
      exact ih.append (List.nodup_singleton _) (by simpa using hnew)

theorem firsts_of_nodup (h : (log.map key).Nodup) : firsts key log = log := by
  induction log using List.reverseRecOn with
  | nil => rfl
  | append_singleton log x ih =>
    rw [List.map_append, List.nodup_append'] at h
    rw [firsts_concat_new (fun hx => h.2.2 hx (List.mem_singleton_self _)), ih h.1]

theorem length_firsts (key : α → κ) (log : List α) :
    (firsts key log).length = (log.map key).toFinset.card := by
  have hkeys : ((firsts key log).map key).toFinset = (log.map key).toFinset := by
    ext k
    simp only [List.mem_toFinset, mem_keys_firsts]
  rw [← hkeys, List.toFinset_card_of_nodup (nodup_keys_firsts key log), List.length_map]

theorem length_firsts_append (key : α → κ) (log more : List α) :
    (firsts key (log ++ more)).length =
      (firsts key log).length + ((more.map key).toFinset \ (log.map key).toFinset).card := by
  rw [length_firsts, length_firsts, List.map_append, List.toFinset_append, Finset.union_comm,
    ← Finset.card_sdiff_add_card, Nat.add_comm]

theorem firsts_subset : firsts key log ⊆ log := fun _ hx =>
  (mem_foldl_addNew hx).elim (fun h => absurd h List.not_mem_nil) id

theorem firsts_before {R : α → α → Prop} (h : log.Pairwise R) {y : α} (hx : x ∈ firsts key log)
    (hy : y ∈ log) (hkey : key y = key x) : x = y ∨ R x y := by
  induction log using List.reverseRecOn with
  | nil => nomatch hy
  | append_singleton log z ih =>
    obtain ⟨hlog, -, hlast⟩ := List.pairwise_append.mp h
    rw [firsts_concat, addNew] at hx
    split at hx
    · rcases List.mem_append.mp hy with hy | hy
      · exact ih hlog hx hy
      · exact .inr (hlast x (firsts_subset hx) y hy)
    · rename_i hnew
      rcases List.mem_append.mp hx with hx | hx
      · rcases List.mem_append.mp hy with hy | hy
        · exact ih hlog hx hy
        · exact .inr (hlast x (firsts_subset hx) y hy)
      · obtain rfl := List.mem_singleton.mp hx
        rcases List.mem_append.mp hy with hy | hy
        · exact absurd (mem_keys_firsts.mpr (hkey ▸ List.mem_map_of_mem hy)) hnew
        · exact .inl (List.mem_singleton.mp hy).symm

end Firsts

section Views

variable {β γ : Type*} [DecidableEq γ] {view : α → Option β} {group : α → Option γ}
  {group' : β → Option γ} {g : γ}

theorem newest_view (log : List α) (hview : ∀ x y, view x = some y → group x = group' y)
    (hnone : ∀ x, view x = none → group x = none) :
    (newest group g log).bind view = newest group' g (log.filterMap view) := by
  induction log using List.reverseRecOn with
  | nil => rfl
  | append_singleton log x ih =>
    rw [newest_append, List.filterMap_append, newest_append, ← ih]
    cases hx : view x with
    | none =>
      have hgroup : newest group g [x] = none :=
        newest_eq_none.mpr fun y hy => by simp [List.mem_singleton.mp hy, hnone x hx]
      rw [hgroup, List.filterMap_cons_none hx]
      rfl
    | some y =>
      rw [List.filterMap_cons_some hx, List.filterMap_nil]
      by_cases hg : group x = some g
      · have hg' : group' y = some g := (hview x y hx).symm.trans hg
        simp [newest, hg, hg', hx]
      · have hg' : group' y ≠ some g := fun h => hg ((hview x y hx).trans h)
        simp [newest, hg, hg']

end Views

end Waitbus.Dedup
