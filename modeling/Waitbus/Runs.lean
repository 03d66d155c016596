import Mathlib

/-! Labelled transition systems whose step is a partial function of the state and the label.
`Reach S ok` holds of the states of those runs all of whose steps meet `ok`, a condition on
the state before the step and on its label. Every safety result is then two small goals. -/

namespace Waitbus.Runs

structure System (σ α : Type*) where
  init : σ → Prop
  step : σ → α → Option σ

variable {σ τ α β : Type*}

inductive Reach (S : System σ α) (ok : σ → α → Prop) : σ → Prop where
  | start {s : σ} : S.init s → Reach S ok s
  | next {s t : σ} {a : α} : Reach S ok s → ok s a → S.step s a = some t → Reach S ok t

abbrev Reachable (S : System σ α) : σ → Prop :=
  Reach S fun _ _ => True

/-- What one step preserves, every run preserves; the step may use that its source is reached. -/
theorem Reach.invariant {S : System σ α} {ok : σ → α → Prop} {I : σ → Prop}
    (base : ∀ s, S.init s → I s)
    (step : ∀ s a t, Reach S ok s → I s → ok s a → S.step s a = some t → I t)
    {s : σ} (h : Reach S ok s) : I s := by
  induction h with
  | start hs => exact base _ hs
  | next hr hok hstep ih => exact step _ _ _ hr ih hok hstep

theorem Reach.mono {S : System σ α} {ok ok' : σ → α → Prop}
    (weaker : ∀ s a, ok s a → ok' s a) {s : σ} (h : Reach S ok s) : Reach S ok' s := by
  induction h with
  | start hs => exact .start hs
  | next _ hok hstep ih => exact .next ih (weaker _ _ hok) hstep

theorem Reach.reachable {S : System σ α} {ok : σ → α → Prop} {s : σ} (h : Reach S ok s) :
    Reachable S s :=
  h.mono fun _ _ _ => trivial

/-- The state a list of labels leads to, when every one of them is enabled in its turn. -/
def System.exec (S : System σ α) : σ → List α → Option σ
  | s, [] => some s
  | s, a :: rest => (S.step s a).bind (S.exec · rest)

theorem System.exec_append (S : System σ α) (s : σ) (l l' : List α) :
    S.exec s (l ++ l') = (S.exec s l).bind (S.exec · l') := by
  induction l generalizing s with
  | nil => rfl
  | cons a rest ih =>
    simp only [List.cons_append, System.exec, Option.bind_assoc, ih]

def System.Meets (S : System σ α) (ok : σ → α → Prop) : σ → List α → Prop
  | _, [] => True
  | s, a :: rest => ok s a ∧ ∀ t ∈ S.step s a, S.Meets ok t rest

instance System.decidableMeets (S : System σ α) (ok : σ → α → Prop)
    [∀ s a, Decidable (ok s a)] : ∀ s labels, Decidable (S.Meets ok s labels)
  | _, [] => isTrue trivial
  | s, a :: rest =>
    have := fun t => S.decidableMeets ok t rest
    inferInstanceAs (Decidable (ok s a ∧ ∀ t ∈ S.step s a, S.Meets ok t rest))

theorem Reach.exec {S : System σ α} {ok : σ → α → Prop} {s t : σ} {l : List α}
    (h : Reach S ok s) (run : S.exec s l = some t) (meets : S.Meets ok s l) :
    Reach S ok t := by
  induction l generalizing s with
  | nil =>
    cases run
    exact h
  | cons a rest ih =>
    simp only [System.exec, Option.bind_eq_some_iff] at run
    obtain ⟨u, hstep, hrest⟩ := run
    exact ih (h.next meets.1 hstep) hrest (meets.2 u hstep)

theorem Reachable.exec {S : System σ α} {s t : σ} {l : List α} (h : Reachable S s)
    (run : S.exec s l = some t) : Reachable S t := by
  refine Reach.exec h run ?_
  clear run h
  induction l generalizing s with
  | nil => exact trivial
  | cons a rest ih => exact ⟨trivial, fun u _ => ih⟩

/-- `abs` maps every step of `S` to a step of `T`, or to no step where `label` gives none. -/
structure Refines (S : System σ α) (T : System τ β) (ok : σ → α → Prop) (ok' : τ → β → Prop)
    (abs : σ → τ) (label : σ → α → Option β) : Prop where
  init : ∀ s, S.init s → T.init (abs s)
  stutter : ∀ s a t, S.step s a = some t → label s a = none → abs t = abs s
  step : ∀ s a b t, S.step s a = some t → label s a = some b → T.step (abs s) b = some (abs t)
  cond : ∀ s a b, ok s a → label s a = some b → ok' (abs s) b

theorem Refines.reach {S : System σ α} {T : System τ β} {ok : σ → α → Prop}
    {ok' : τ → β → Prop} {abs : σ → τ} {label : σ → α → Option β}
    (h : Refines S T ok ok' abs label) {s : σ} (hs : Reach S ok s) : Reach T ok' (abs s) := by
  induction hs with
  | start hs => exact .start (h.init _ hs)
  | @next s t a _ hok hstep ih =>
    cases hl : label s a with
    | none =>
      rw [h.stutter s a t hstep hl]
      exact ih
    | some b => exact ih.next (h.cond s a b hok hl) (h.step s a b t hstep hl)

end Waitbus.Runs
