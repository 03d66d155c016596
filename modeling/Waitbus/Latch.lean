import Mathlib

/-! Logs of a latch: signals that are given once, until the latch has been reset. -/

namespace Waitbus.Latch

variable {α : Type*} {signal reset : α → Prop} {log : List α} {x : α}

def Settled (signal reset : α → Prop) (log : List α) : Prop :=
  ∀ before x after, log = before ++ x :: after → signal x → ∃ y ∈ after, reset y

def Spaced (signal reset : α → Prop) (log : List α) : Prop :=
  ∀ before x between y after, log = before ++ x :: (between ++ y :: after) →
    signal x → signal y → ∃ z ∈ between, reset z

theorem concat_eq_split {before after : List α} {y : α} (h : log ++ [x] = before ++ y :: after) :
    (after = [] ∧ x = y ∧ log = before) ∨
      ∃ init, after = init ++ [x] ∧ log = before ++ y :: init := by
  obtain rfl | ⟨init, z, rfl⟩ := after.eq_nil_or_concat'
  · obtain ⟨hlog, hx⟩ := List.append_inj' h rfl
    exact .inl ⟨rfl, List.singleton_inj.mp hx, hlog⟩
  · have hsplit : log ++ [x] = (before ++ y :: init) ++ [z] := by
      rw [h, List.append_assoc, List.cons_append]
    obtain ⟨hlog, hx⟩ := List.append_inj' hsplit rfl
    obtain rfl : x = z := List.singleton_inj.mp hx
    exact .inr ⟨init, rfl, hlog⟩

theorem settled_of_none (h : ∀ x ∈ log, ¬signal x) : Settled signal reset log := by
  intro before x after hlog hx
  exact absurd hx (h x (by simp [hlog]))

theorem Settled.add (h : Settled signal reset log) (hx : ¬signal x) :
    Settled signal reset (log ++ [x]) := by
  intro before y after hlog hy
  obtain ⟨-, rfl, -⟩ | ⟨init, rfl, hold⟩ := concat_eq_split hlog
  · exact absurd hy hx
  · obtain ⟨z, hz, hreset⟩ := h before y init hold hy
    exact ⟨z, List.mem_append_left _ hz, hreset⟩

theorem settled_reset (hsignal : ¬signal x) (hreset : reset x) :
    Settled signal reset (log ++ [x]) := by
  intro before y after hlog hy
  obtain ⟨-, rfl, -⟩ | ⟨init, rfl, -⟩ := concat_eq_split hlog
  · exact absurd hy hsignal
  · exact ⟨x, List.mem_append_right _ (List.mem_singleton_self x), hreset⟩

theorem Spaced.add (h : Spaced signal reset log) (hx : ¬signal x) :
    Spaced signal reset (log ++ [x]) := by
  intro before y between z after hlog hy hz
  obtain ⟨hnil, -⟩ | ⟨init, hinit, hold⟩ := concat_eq_split hlog
  · cases between with
    | nil => cases hnil
    | cons => cases hnil
  · obtain ⟨-, rfl, -⟩ | ⟨rest, -, rfl⟩ := concat_eq_split hinit.symm
    · exact absurd hz hx
    · exact h before y between z rest hold hy hz

theorem Spaced.add_signal (h : Spaced signal reset log) (settled : Settled signal reset log) :
    Spaced signal reset (log ++ [x]) := by
  intro before y between z after hlog hy hz
  obtain ⟨hnil, -⟩ | ⟨init, hinit, hold⟩ := concat_eq_split hlog
  · cases between with
    | nil => cases hnil
    | cons => cases hnil
  · obtain ⟨-, -, rfl⟩ | ⟨rest, -, rfl⟩ := concat_eq_split hinit.symm
    · exact settled before y _ hold hy
    · exact h before y between z rest hold hy hz

end Waitbus.Latch
