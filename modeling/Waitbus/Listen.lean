import Waitbus.Bookmark

/-! The read engine without a bookmark, as a function of what its socket brings: the frames it
hands to the caller, and how it ends. -/

namespace Waitbus.Listen
open Python Json Await Bookmark

variable {σ : Type*}

/-- `await_predicate` over what the reads come to; none is a SIGINT, and after the last one the
deadline passes. -/
def awaitPredicate (decide : σ → Value → Except Failure (σ × FrameDecision)) :
    List (Option Arrival) → σ → Ending × σ
  | [], s => (.timedOut, s)
  | none :: _, s => (.cancelled, s)
  | some .undecodable :: rest, s => awaitPredicate decide rest s
  | some (.fails exc) :: _, s => (.raised (.python exc), s)
  | some .framingError :: _, s => (.framingEof, s)
  | some .eof :: _, s => (.cleanEof, s)
  | some (.frame v) :: rest, s =>
    match handling v with
    | .drained => awaitPredicate decide rest s
    | .failed failure => (.raised failure, s)
    | .handed =>
      match decide s v with
      | .error failure => (.raised failure, s)
      | .ok (s, .continue) => awaitPredicate decide rest s
      | .ok (s, .matched) => (.matched, s)

def takeDown (frames : List Value) (frame : Value) : Except Failure (List Value × FrameDecision) :=
  .ok (frames ++ [frame], .continue)

def heard (reads : List (Option Arrival)) : List Value :=
  (awaitPredicate takeDown reads []).2

def ending (reads : List (Option Arrival)) : Ending :=
  (awaitPredicate takeDown reads []).1

section Frames

variable {decide : σ → Value → Except Failure (σ × FrameDecision)} {reads : List (Option Arrival)}

theorem takeDown_from (reads : List (Option Arrival)) (frames : List Value) :
    awaitPredicate takeDown reads frames = (ending reads, frames ++ heard reads) := by
  have hall : ∀ before frames, awaitPredicate takeDown reads (before ++ frames) =
      ((awaitPredicate takeDown reads frames).1,
        before ++ (awaitPredicate takeDown reads frames).2) := by
    intro before
    induction reads with
    | nil => exact fun _ => rfl
    | cons read rest ih =>
      intro frames
      cases read with
      | none => rfl
      | some arrival =>
        cases arrival with
        | undecodable => exact ih frames
        | fails exc => rfl
        | framingError => rfl
        | eof => rfl
        | frame v =>
          simp only [awaitPredicate]
          split
          · exact ih frames
          · rfl
          · simp only [takeDown, List.append_assoc]
            exact ih _
  simpa [ending, heard] using hall frames []

theorem ending_frame (reads : List (Option Arrival)) {v : Value} (h : handling v = .handed) :
    heard (some (.frame v) :: reads) = v :: heard reads ∧
      ending (some (.frame v) :: reads) = ending reads := by
  have hrest := takeDown_from reads [v]
  have hstep : awaitPredicate takeDown (some (.frame v) :: reads) [] =
      awaitPredicate takeDown reads [v] := by
    rw [awaitPredicate, h]
    rfl
  rw [heard, ending, hstep, hrest]
  exact ⟨rfl, rfl⟩

theorem awaitPredicate_continues {step : σ → Value → σ} (I : List Value → σ → Prop)
    (hstep : ∀ frames s v rest, heard reads = frames ++ v :: rest → I frames s →
      decide s v = .ok (step s v, .continue) ∧ I (frames ++ [v]) (step s v))
    {s : σ} (hinit : I [] s) :
    awaitPredicate decide reads s = (ending reads, (heard reads).foldl step s) ∧
      I (heard reads) ((heard reads).foldl step s) := by
  suffices hall : ∀ (reads' : List (Option Arrival)) (frames : List Value) (s : σ),
      heard reads = frames ++ heard reads' → I frames s →
      awaitPredicate decide reads' s = (ending reads', (heard reads').foldl step s) ∧
        I (frames ++ heard reads') ((heard reads').foldl step s) by
    have h := hall reads [] s rfl hinit
    simpa using h
  intro reads'
  induction reads' with
  | nil =>
    intro frames s _ hI
    exact ⟨rfl, by simpa [heard, awaitPredicate] using hI⟩
  | cons read rest ih =>
    intro frames s hsplit hI
    have hquiet : ∀ e, heard (read :: rest) = [] → ending (read :: rest) = e →
        awaitPredicate decide (read :: rest) s = (e, s) →
        awaitPredicate decide (read :: rest) s =
            (ending (read :: rest), (heard (read :: rest)).foldl step s) ∧
          I (frames ++ heard (read :: rest)) ((heard (read :: rest)).foldl step s) := by
      intro e hheard hending heq
      rw [hheard, hending, heq, List.append_nil]
      exact ⟨rfl, hI⟩
    cases read with
    | none => exact hquiet _ rfl rfl rfl
    | some arrival =>
      cases arrival with
      | undecodable => exact ih frames s hsplit hI
      | fails exc => exact hquiet _ rfl rfl rfl
      | framingError => exact hquiet _ rfl rfl rfl
      | eof => exact hquiet _ rfl rfl rfl
      | frame v =>
        cases hv : handling v with
        | drained =>
          have hskip : heard (some (.frame v) :: rest) = heard rest ∧
              ending (some (.frame v) :: rest) = ending rest := by
            simp only [heard, ending, awaitPredicate, hv, and_self]
          rw [hskip.1] at hsplit ⊢
          rw [hskip.2, awaitPredicate, hv]
          exact ih frames s hsplit hI
        | failed failure =>
          refine hquiet (.raised failure) ?_ ?_ ?_ <;>
            simp only [heard, ending, awaitPredicate, hv]
        | handed =>
          obtain ⟨hheard, hending⟩ := ending_frame rest hv
          rw [hheard] at hsplit ⊢
          obtain ⟨hdecide, hI'⟩ := hstep frames s v (heard rest) hsplit hI
          have hrest := ih (frames ++ [v]) (step s v) (by simpa using hsplit) hI'
          rw [hending, awaitPredicate, hv]
          simp only [hdecide, List.foldl_cons]
          simpa using hrest

end Frames

end Waitbus.Listen
