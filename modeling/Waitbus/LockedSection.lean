import Mathlib

/-! A shared cell that is rewritten inside an exclusive lock. Whoever has read the cell since it
took the lock still knows what is in it. -/

namespace Waitbus.LockedSection

variable {ι γ : Type*}

/-- Where a party stands in the section. -/
inductive Stage (γ : Type*) where
  | outside
  | inside
  | loaded (seen : γ)

/-- The holder alone is in the section, and what it has loaded is what the cell holds. -/
structure Guarded (holder : Option ι) (stage : ι → Stage γ) (cell : γ) : Prop where
  owner : ∀ p, stage p ≠ .outside → holder = some p
  fresh : ∀ p seen, stage p = .loaded seen → seen = cell

section Steps

variable {holder : Option ι} {stage : ι → Stage γ} {cell : γ} {p : ι}

theorem Guarded.start : Guarded (none : Option ι) (fun _ => Stage.outside) cell where
  owner _ h := absurd rfl h
  fresh _ _ h := nomatch h

theorem Guarded.outside (h : Guarded holder stage cell) {q : ι} (hp : holder = some p)
    (hne : q ≠ p) : stage q = .outside := by
  by_contra hq
  have hholder := h.owner q hq
  rw [hp] at hholder
  exact hne (Option.some.inj hholder).symm

variable [DecidableEq ι]

theorem Guarded.enter (h : Guarded none stage cell) (p : ι) :
    Guarded (some p) (Function.update stage p .inside) cell where
  owner q hq := by
    by_cases hqp : q = p
    · rw [hqp]
    · rw [Function.update_of_ne hqp] at hq
      exact absurd (h.owner q hq) (Option.some_ne_none q).symm
  fresh q seen hq := by
    by_cases hqp : q = p
    · rw [hqp, Function.update_self] at hq
      nomatch hq
    · rw [Function.update_of_ne hqp] at hq
      exact h.fresh q seen hq

theorem Guarded.load (h : Guarded holder stage cell) (hp : stage p = .inside) :
    Guarded holder (Function.update stage p (.loaded cell)) cell where
  owner q hq := by
    by_cases hqp : q = p
    · rw [hqp]
      exact h.owner p (hp ▸ nofun)
    · rw [Function.update_of_ne hqp] at hq
      exact h.owner q hq
  fresh q seen hq := by
    by_cases hqp : q = p
    · rw [hqp, Function.update_self] at hq
      exact (Stage.loaded.inj hq).symm
    · rw [Function.update_of_ne hqp] at hq
      exact h.fresh q seen hq

theorem Guarded.stay (h : Guarded holder stage cell) (hp : stage p = .outside) :
    Guarded holder (Function.update stage p .outside) cell := by
  rw [← hp, Function.update_eq_self]
  exact h

theorem Guarded.leave (h : Guarded (some p) stage cell) (cell' : γ) :
    Guarded none (Function.update stage p .outside) cell' := by
  have hout : Function.update stage p .outside = fun _ => .outside := by
    funext q
    by_cases hqp : q = p
    · rw [hqp, Function.update_self]
    · rw [Function.update_of_ne hqp]
      exact h.outside rfl hqp
  rw [hout]
  exact .start

theorem Guarded.drop (h : Guarded holder stage cell) (p : ι) :
    Guarded (if holder = some p then none else holder) (Function.update stage p .outside) cell := by
  by_cases hp : holder = some p
  · rw [if_pos hp]
    rw [hp] at h
    exact h.leave cell
  · rw [if_neg hp]
    refine h.stay ?_
    by_contra hstage
    exact hp (h.owner p hstage)

end Steps

end Waitbus.LockedSection
