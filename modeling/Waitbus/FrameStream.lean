import Mathlib

/-! Frames written to a byte stream through a queue whose head may be partly written. `Tiled`
relates the frames a sender has kept, the bytes that went out and the queue of what has not;
`Whole` is what it means for the reader of those bytes. -/

namespace Waitbus.FrameStream

variable {β : Type*}

/-- The bytes are whole frames out of `offered`, in order; one more may be cut at the end. -/
def Whole (offered : List (List β)) (bytes : List β) : Prop :=
  ∃ whole tip, bytes = whole.flatten ++ tip ∧
    (tip = [] ∧ whole.Sublist offered ∨ ∃ cut, tip <+: cut ∧ (whole ++ [cut]).Sublist offered)

theorem Whole.exists_kept {offered : List (List β)} {bytes : List β} (h : Whole offered bytes) :
    ∃ kept : List (List β), kept.Sublist offered ∧ bytes <+: kept.flatten := by
  obtain ⟨whole, tip, rfl, ⟨rfl, hs⟩ | ⟨cut, ⟨rest, hcut⟩, hs⟩⟩ := h
  · exact ⟨whole, hs, by simp⟩
  · exact ⟨whole ++ [cut], hs, rest, by simp [← hcut]⟩

theorem Whole.mono {offered offered' : List (List β)} {bytes : List β} (h : Whole offered bytes)
    (hs : offered.Sublist offered') : Whole offered' bytes := by
  obtain ⟨whole, tip, hbytes, ⟨htip, hw⟩ | ⟨cut, hcut, hw⟩⟩ := h
  · exact ⟨whole, tip, hbytes, .inl ⟨htip, hw.trans hs⟩⟩
  · exact ⟨whole, tip, hbytes, .inr ⟨cut, hcut, hw.trans hs⟩⟩

/-- A view of the part of a frame that is still to be written. -/
structure Entry (β : Type*) where
  frame : List β
  sent : Nat

def Entry.rest (e : Entry β) : List β :=
  e.frame.drop e.sent

def Entry.ofFrame (frame : List β) : Entry β :=
  ⟨frame, 0⟩

def headSent : List (Entry β) → List β
  | [] => []
  | e :: _ => e.frame.take e.sent

structure Tiled (kept : List (List β)) (bytes : List β) (queue : List (Entry β)) : Prop where
  covers : ∃ done, kept = done ++ queue.map (·.frame) ∧ bytes = done.flatten ++ headSent queue
  unsent : ∀ e ∈ queue.tail, e.sent = 0

variable {kept offered : List (List β)} {bytes : List β} {queue : List (Entry β)}

theorem Tiled.start : Tiled (β := β) [] [] [] :=
  ⟨⟨[], rfl, rfl⟩, by simp⟩

theorem Tiled.whole (h : Tiled kept bytes queue) (hs : kept.Sublist offered) :
    Whole offered bytes := by
  obtain ⟨⟨done, hkept, hbytes⟩, -⟩ := h
  subst hkept
  cases queue with
  | nil => exact ⟨done, [], hbytes, .inl ⟨rfl, by simpa using hs⟩⟩
  | cons e rest =>
    refine ⟨done, e.frame.take e.sent, hbytes, .inr ⟨e.frame, List.take_prefix _ _, ?_⟩⟩
    refine List.Sublist.trans ?_ hs
    simp

theorem Tiled.bytes_eq (h : Tiled kept bytes []) : bytes = kept.flatten := by
  obtain ⟨⟨done, hkept, hbytes⟩, -⟩ := h
  simpa [headSent, hkept] using hbytes

theorem Tiled.push (h : Tiled kept bytes queue) (frame : List β) :
    Tiled (kept ++ [frame]) bytes (queue ++ [.ofFrame frame]) := by
  obtain ⟨⟨done, hkept, hbytes⟩, hunsent⟩ := h
  refine ⟨⟨done, by simp [hkept, Entry.ofFrame], ?_⟩, ?_⟩
  · rw [hbytes]
    cases queue with
    | nil => simp [headSent, Entry.ofFrame]
    | cons e rest => rfl
  · cases queue with
    | nil => simp
    | cons e rest =>
      intro x hx
      rw [List.cons_append, List.tail_cons, List.mem_append, List.mem_singleton] at hx
      rcases hx with hx | rfl
      · exact hunsent x hx
      · rfl

theorem Tiled.send (h : Tiled kept bytes []) (frame : List β) (n : Nat) :
    Tiled (kept ++ [frame]) (bytes ++ frame.take n) [⟨frame, n⟩] := by
  refine ⟨⟨kept, by simp, ?_⟩, by simp⟩
  rw [h.bytes_eq]
  rfl

theorem Tiled.sendWhole (h : Tiled kept bytes []) (frame : List β) :
    Tiled (kept ++ [frame]) (bytes ++ frame) [] := by
  refine ⟨⟨kept ++ [frame], by simp, ?_⟩, by simp⟩
  rw [h.bytes_eq]
  simp [headSent]

theorem Tiled.advance {e : Entry β} {rest : List (Entry β)} (h : Tiled kept bytes (e :: rest))
    (n : Nat) : Tiled kept (bytes ++ e.rest.take n) (⟨e.frame, e.sent + n⟩ :: rest) := by
  obtain ⟨⟨done, hkept, hbytes⟩, hunsent⟩ := h
  refine ⟨⟨done, hkept, ?_⟩, hunsent⟩
  rw [hbytes, List.append_assoc]
  simp only [headSent, Entry.rest, List.take_add]

theorem Tiled.finish {e : Entry β} {rest : List (Entry β)} (h : Tiled kept bytes (e :: rest)) :
    Tiled kept (bytes ++ e.rest) rest := by
  obtain ⟨⟨done, hkept, hbytes⟩, hunsent⟩ := h
  have hhead : headSent rest = [] := by
    cases rest with
    | nil => rfl
    | cons next rest => simp [headSent, hunsent next (by simp)]
  refine ⟨⟨done ++ [e.frame], by simp [hkept], ?_⟩, fun x hx => hunsent x (List.mem_of_mem_tail hx)⟩
  rw [hbytes, hhead]
  simp [headSent, Entry.rest]

/-- Dropping the queue is harmless only while its head is untouched: then the frames that were
written whole are what is left. -/
theorem Tiled.discard (h : Tiled kept bytes queue) (hhead : headSent queue = []) :
    ∃ done, done <+: kept ∧ Tiled done bytes [] := by
  obtain ⟨⟨done, hkept, hbytes⟩, -⟩ := h
  refine ⟨done, ⟨_, hkept.symm⟩, ⟨⟨done, by simp, ?_⟩, by simp⟩⟩
  rw [hbytes, hhead]
  rfl

section Merge

/-- The bytes of `wire` are those of `a` and of `b`, each in its own order. -/
inductive Merge : List β → List β → List β → Prop where
  | nil : Merge [] [] []
  | left {a b wire : List β} (x : List β) : Merge a b wire → Merge (a ++ x) b (wire ++ x)
  | right {a b wire : List β} (x : List β) : Merge a b wire → Merge a (b ++ x) (wire ++ x)

end Merge

end Waitbus.FrameStream
