import Waitbus.Python

/-! `re.sub` with a pattern that matches no empty text, over texts whose elements have a character
for a face. -/

namespace Waitbus.PatternSub
open Python

variable {α : Type*} (face : α → PyChar)

/-- `matchLen` is the length of the match at the start of a text. The first characters are those of
a match that has been replaced. -/
def resub (matchLen : PyStr → Option Nat) (repl : List α) : Nat → List α → List α
  | _, [] => []
  | left + 1, _ :: rest => resub matchLen repl left rest
  | 0, x :: rest =>
    match matchLen ((x :: rest).map face) with
    | some (n + 1) => repl ++ resub matchLen repl n rest
    | _ => x :: resub matchLen repl 0 rest

variable {face} {matchLen : PyStr → Option Nat} {repl : List α} {x y : α} {xs : List α} {n : Nat}

theorem resub_skip (n : Nat) (xs : List α) :
    resub face matchLen repl n xs = resub face matchLen repl 0 (xs.drop n) := by
  induction n generalizing xs with
  | zero => rw [List.drop_zero]
  | succ n ih =>
    cases xs with
    | nil => rfl
    | cons x rest => rw [resub, ih, List.drop_succ_cons]

theorem resub_none (h : matchLen ((x :: xs).map face) = none) :
    resub face matchLen repl 0 (x :: xs) = x :: resub face matchLen repl 0 xs := by
  rw [resub, h]

theorem resub_match (h : matchLen ((x :: xs).map face) = some (n + 1)) :
    resub face matchLen repl 0 (x :: xs) = repl ++ resub face matchLen repl n xs := by
  rw [resub, h]

theorem resub_some (h : matchLen ((x :: xs).map face) = some (n + 1)) :
    resub face matchLen repl 0 (x :: xs) = repl ++ resub face matchLen repl 0 (xs.drop n) := by
  rw [resub_match h, resub_skip]

theorem mem_resub (h : y ∈ resub face matchLen repl n xs) : y ∈ repl ∨ y ∈ xs.drop n := by
  induction xs generalizing n with
  | nil => nomatch h
  | cons x xs ih =>
    cases n with
    | succ n => exact ih h
    | zero =>
      rw [resub] at h
      split at h
      · rename_i n hmatch
        rcases List.mem_append.mp h with h | h
        · exact .inl h
        · exact (ih h).imp_right fun hy => List.mem_cons_of_mem _ (List.mem_of_mem_drop hy)
      · rcases List.mem_cons.mp h with rfl | h
        · exact .inr List.mem_cons_self
        · exact (ih h).imp_right fun hy => List.mem_cons_of_mem _ hy

theorem map_resub (n : Nat) (xs : List α) : (resub face matchLen repl n xs).map face =
    resub id matchLen (repl.map face) n (xs.map face) := by
  induction xs generalizing n with
  | nil =>
    rw [resub, List.map_nil, resub]
  | cons x xs ih =>
    cases n with
    | succ n => exact ih n
    | zero =>
      rw [List.map_cons, resub, resub, List.map_cons, List.map_id]
      split
      · rw [List.map_append, ih]
      · rw [List.map_cons, ih]

end Waitbus.PatternSub
