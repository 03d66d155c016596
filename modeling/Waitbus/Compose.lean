import Waitbus.Predicate
import Waitbus.SubscribeStream

/-! Waits on several clauses at once. A conjunction keeps for each clause whether some event has
satisfied it; `wait_for(all_of=…)` and `waitbus wait --all-of` drive the same tracker. -/

namespace Waitbus.Compose
open Python Json Await Bookmark Listen AwaitStream
open SubscribeStream hiding awaitPredicate

section Clauses

structure Clause where
  source : PyStr
  spec : PyStr
  text : PyStr

/-- A predicate with the text it is reported by. -/
structure Predicate where
  evaluate : Message → Bool
  source : PyStr

def isNameChar (c : PyChar) : Bool :=
  match c with
  | .scalar c => ('a' ≤ c && c ≤ 'z') || ('0' ≤ c && c ≤ '9') || c = '_' || c = '-'
  | .surrogate _ => false

/-- `_SOURCE_NAME.match`; its `$` stands before a last newline too. -/
def sourceName (s : PyStr) : Bool :=
  let name := if s.getLast? = some (.scalar '\n') then s.dropLast else s
  match name with
  | .scalar first :: rest =>
    'a' ≤ first && first ≤ 'z' && rest.length ≤ 31 && rest.all isNameChar
  | _ => false

def parseClause (text : PyStr) : Except PyExc Clause :=
  let source := text.takeWhile (· ≠ .scalar ':')
  let spec := (text.dropWhile (· ≠ .scalar ':')).tail
  if .scalar ':' ∉ text then .error .valueError
  else if !sourceName source then .error .valueError
  else if spec = [] then .error .valueError
  else .ok ⟨source, spec, text⟩

/-- `parse_match` of the clause's source and its spec, under the text of the clause. -/
def clausePredicate (decimal : Char → Option Nat) (depth : Nat) (clause : Clause) :
    Except PyExc Predicate :=
  let scope := ofText "fields.source=" ++ (quotedText clause.source).map .scalar
  (Waitbus.Predicate.parseMatch depth [scope, clause.spec]).map fun items =>
    ⟨fun frame => Waitbus.Predicate.evaluate decimal items (.obj frame), clause.text⟩

def clausePredicates (decimal : Char → Option Nat) (depth : Nat) (specs : List PyStr) :
    Except PyExc (List Predicate) :=
  if specs = [] then .error .valueError
  else specs.mapM fun spec => do clausePredicate decimal depth (← parseClause spec)

theorem map_of_mapM {α β : Type} {f : α → Except PyExc β} {back : β → α}
    (hback : ∀ x y, f x = .ok y → back y = x) {xs : List α} {ys : List β}
    (h : xs.mapM f = .ok ys) : ys.map back = xs := by
  induction xs generalizing ys with
  | nil =>
    obtain rfl := Except.ok.inj h
    rfl
  | cons x rest ih =>
    rw [List.mapM_cons] at h
    cases hx : f x with
    | error e =>
      rw [hx] at h
      nomatch h
    | ok y =>
      cases hrest : rest.mapM f with
      | error e =>
        rw [hx, hrest] at h
        nomatch h
      | ok more =>
        rw [hx, hrest] at h
        obtain rfl := Except.ok.inj h
        rw [List.map_cons, hback x y hx, ih hrest]

theorem parseClause_text {spec : PyStr} {clause : Clause} (h : parseClause spec = .ok clause) :
    clause.text = spec := by
  simp only [parseClause] at h
  split at h
  · nomatch h
  split at h
  · nomatch h
  split at h
  · nomatch h
  · obtain rfl := Except.ok.inj h
    rfl

theorem clausePredicate_text {decimal : Char → Option Nat} {depth : Nat} {clause : Clause}
    {predicate : Predicate} (h : clausePredicate decimal depth clause = .ok predicate) :
    predicate.source = clause.text := by
  rw [clausePredicate] at h
  cases hparse : Waitbus.Predicate.parseMatch depth _ with
  | error e =>
    rw [hparse] at h
    nomatch h
  | ok items =>
    rw [hparse] at h
    obtain rfl := Except.ok.inj h
    rfl

theorem lowered_text {decimal : Char → Option Nat} {depth : Nat} {spec : PyStr}
    {predicate : Predicate}
    (h : (do clausePredicate decimal depth (← parseClause spec)) = .ok predicate) :
    predicate.source = spec := by
  cases hclause : parseClause spec with
  | error e =>
    rw [hclause] at h
    nomatch h
  | ok clause =>
    rw [hclause] at h
    exact (clausePredicate_text h).trans (parseClause_text hclause)

theorem clausePredicates_texts {decimal : Char → Option Nat} {depth : Nat} {specs : List PyStr}
    {clauses : List Predicate} (h : clausePredicates decimal depth specs = .ok clauses) :
    clauses ≠ [] ∧ clauses.map (·.source) = specs := by
  rw [clausePredicates] at h
  split at h
  · nomatch h
  · rename_i hspecs
    have htexts := map_of_mapM (fun _ _ => lowered_text) h
    exact ⟨fun hnil => hspecs (by rw [← htexts, hnil]; rfl), htexts⟩

end Clauses

section Tracker

structure AllOfTracker where
  clauses : List Predicate
  satisfied : List Bool
  aligned : satisfied.length = clauses.length

def AllOfTracker.start (clauses : List Predicate) : AllOfTracker :=
  ⟨clauses, List.replicate clauses.length false, List.length_replicate⟩

def AllOfTracker.update (tracker : AllOfTracker) (frame : Message) : Bool × AllOfTracker :=
  let satisfied := List.zipWith (fun clause done => if !done && clause.evaluate frame then true
    else done) tracker.clauses tracker.satisfied
  (satisfied.all id, ⟨tracker.clauses, satisfied, by simp [satisfied, tracker.aligned]⟩)

def AllOfTracker.outstanding (tracker : AllOfTracker) : List PyStr :=
  (tracker.clauses.zip tracker.satisfied).filterMap fun (clause, done) =>
    if done then none else some clause.source

end Tracker

section FrontEnds

variable {ε : Type*}

/-- The `_decide` of `_drain_all_of`, with what it captures. -/
def drainDecide (s : AllOfTracker × List Message) (frame : Message) :
    (AllOfTracker × List Message) × FrameDecision :=
  match lookup "fields" frame with
  | some (.obj _) =>
    match s.1.update frame with
    | (true, tracker) => ((tracker, s.2 ++ [frame]), .matched)
    | (false, tracker) => ((tracker, s.2), .continue)
  | _ => (s, .continue)

def drainWait (clauses : List Predicate) (reads : List (Option Arrival)) :
    Ending × AllOfTracker × List Message :=
  awaitPredicate (onObjects drainDecide) reads (.start clauses, [])

def drainAllOf (toEvent : Message → Option ε) (clauses : List Predicate)
    (reads : List (Option Arrival)) : Except StreamError (Option ε) :=
  let (outcome, _, captured) := drainWait clauses reads
  finishDrain toEvent true outcome captured

def composeAny (clauses : List Predicate) (frame : Message) : Bool :=
  clauses.any (·.evaluate frame)

/-- `_build_composed_decide`, with the source of the matched frame. -/
def composedDecide (clauses : List Predicate) (conjunction : Bool)
    (s : AllOfTracker × Option PyStr) (frame : Message) :
    (AllOfTracker × Option PyStr) × FrameDecision :=
  match lookup "fields" frame with
  | some (.obj fields) =>
    let (done, tracker) :=
      if conjunction then s.1.update frame else (composeAny clauses frame, s.1)
    let source := match lookup "source" fields with
      | some (.str source) => some source
      | _ => none
    if done then ((tracker, source), .matched) else ((tracker, s.2), .continue)
  | _ => (s, .continue)

def composedWait (clauses : List Predicate) (conjunction : Bool)
    (reads : List (Option Arrival)) : Ending × AllOfTracker × Option PyStr :=
  awaitPredicate (onObjects (composedDecide clauses conjunction)) reads (.start clauses, none)

/-- What the command says before it exits. -/
inductive Report where
  | interrupted
  | timedOut (label : String) (pending : List PyStr)
  | allSatisfied
  | matchedOn (source : PyStr)
  | closed
  deriving DecidableEq

def Report.exitCode : Report → Nat
  | .interrupted => 130
  | .timedOut _ _ => 124
  | .allSatisfied | .matchedOn _ => 0
  | .closed => 2

/-- `_dispatch_composed_outcome`; an exception of the engine goes past it. -/
def dispatchComposedOutcome (outcome : Ending) (conjunction : Bool) (tracker : AllOfTracker)
    (clauses : List Predicate) (matchedSource : Option PyStr) : Except Failure Report :=
  match outcome with
  | .raised failure => .error failure
  | .cancelled => .ok .interrupted
  | .timedOut =>
    if conjunction then .ok (.timedOut "outstanding clauses" tracker.outstanding)
    else .ok (.timedOut "clauses" (clauses.map (·.source)))
  | .matched =>
    if conjunction then .ok .allSatisfied
    else .ok (.matchedOn (match matchedSource with
      | none | some [] => ofText "(unknown)"
      | some source => source))
  | .framingEof | .cleanEof => .ok .closed

def waitComposed (clauses : List Predicate) (conjunction : Bool) (reads : List (Option Arrival)) :
    Except Failure Report :=
  let (outcome, tracker, source) := composedWait clauses conjunction reads
  dispatchComposedOutcome outcome conjunction tracker clauses source

end FrontEnds

section Sticky

variable {σ : Type*} {clauses : List Predicate} {reads : List (Option Arrival)}

/-- The event frame that a read brings to `decide`, if it brings one. -/
def eventFrame : Option Arrival → Option Message
  | some (.frame (.obj msg)) =>
    match handling (.obj msg), lookup "fields" msg with
    | .handed, some (.obj _) => some msg
    | _, _ => none
  | _ => none

def stops : Option Arrival → Bool
  | none | some (.fails _) | some .framingError | some .eof => true
  | some .undecodable => false
  | some (.frame v) =>
    match handling v with
    | .failed _ => true
    | .drained | .handed => false

def before (reads : List (Option Arrival)) : List (Option Arrival) :=
  reads.takeWhile (!stops ·)

/-- The clause is satisfied by an event frame at this position or an earlier one. -/
def SatisfiedBy (reads : List (Option Arrival)) (k : Nat) (clause : Predicate) : Prop :=
  ∃ i ≤ k, ∃ frame, reads[i]?.bind eventFrame = some frame ∧ clause.evaluate frame = true

/-- The least position by which every clause is satisfied. -/
structure CompletesAt (clauses : List Predicate) (reads : List (Option Arrival)) (k : Nat) :
    Prop where
  complete : ∀ clause ∈ clauses, SatisfiedBy reads k clause
  least : ∀ j < k, ∃ clause ∈ clauses, ¬SatisfiedBy reads j clause

def unsatisfied (clauses : List Predicate) (reads : List (Option Arrival)) : List PyStr :=
  (clauses.filter fun clause => !(reads.filterMap eventFrame).any clause.evaluate).map (·.source)

/-- A wait that matches with the read that completes the conjunction, and otherwise ends as the
stream does, with the clauses outstanding that nothing has satisfied. -/
structure Sticky (clauses : List Predicate) (reads : List (Option Arrival))
    (wait : List (Option Arrival) → Ending × AllOfTracker) : Prop where
  matches_at : ∀ k, (wait (reads.take (k + 1))).1 = .matched ∧ (wait (reads.take k)).1 ≠ .matched ↔
    CompletesAt clauses (before reads) k
  matched : (wait reads).1 = .matched ↔ ∃ k, CompletesAt clauses (before reads) k
  stopped : (wait reads).1 ≠ .matched →
    (wait reads).1 = ending reads ∧
      (wait reads).2.outstanding = unsatisfied clauses (before reads)

def complete (clauses : List Predicate) (seen : List Message) : Bool :=
  clauses.all fun clause => seen.any clause.evaluate

/-- The tracker of these clauses once it has been updated with these frames. -/
def trackerOf (clauses : List Predicate) (seen : List Message) : AllOfTracker :=
  ⟨clauses, clauses.map fun clause => seen.any clause.evaluate, List.length_map ..⟩

theorem start_eq (clauses : List Predicate) :
    AllOfTracker.start clauses = trackerOf clauses [] := by
  simp [AllOfTracker.start, trackerOf]

theorem update_eq (clauses : List Predicate) (seen : List Message) (frame : Message) :
    (trackerOf clauses seen).update frame =
      (complete clauses (seen ++ [frame]), trackerOf clauses (seen ++ [frame])) := by
  have hflags : List.zipWith (fun (clause : Predicate) done =>
      if !done && clause.evaluate frame then true else done) clauses
      (clauses.map fun clause => seen.any clause.evaluate) =
      clauses.map fun clause => (seen ++ [frame]).any clause.evaluate := by
    rw [List.zipWith_map_right, List.zipWith_self]
    refine List.map_congr_left fun clause _ => ?_
    cases hseen : seen.any clause.evaluate <;> cases hframe : clause.evaluate frame <;>
      simp [hseen, hframe]
  simp only [AllOfTracker.update, trackerOf, hflags, complete, List.all_map]
  rfl

theorem outstanding_eq (clauses : List Predicate) (seen : List Message) :
    (trackerOf clauses seen).outstanding =
      (clauses.filter fun clause => !seen.any clause.evaluate).map (·.source) := by
  simp only [AllOfTracker.outstanding, trackerOf]
  induction clauses with
  | nil => rfl
  | cons clause rest ih =>
    rw [List.map_cons, List.zip_cons_cons, List.filterMap_cons, ih, List.filter_cons]
    cases seen.any clause.evaluate <;> rfl

theorem complete_mono {seen more : List Message} (h : complete clauses seen = true) :
    complete clauses (seen ++ more) = true := by
  simp only [complete, List.all_eq_true, List.any_append, Bool.or_eq_true] at h ⊢
  exact fun clause hclause => .inl (h clause hclause)

theorem complete_nil (hclauses : clauses ≠ []) : complete clauses [] = false := by
  cases clauses with
  | nil => exact absurd rfl hclauses
  | cons clause rest => rfl

/-- Up to this position the clauses are complete with these frames seen before, and before it
they are not. -/
def Turns (clauses : List Predicate) (seen : List Message) (reads : List (Option Arrival))
    (k : Nat) : Prop :=
  complete clauses (seen ++ (reads.take (k + 1)).filterMap eventFrame) = true ∧
    complete clauses (seen ++ (reads.take k).filterMap eventFrame) = false

theorem Turns.cons {read : Option Arrival} {seen : List Message} {k : Nat}
    (h : Turns clauses (seen ++ [read].filterMap eventFrame) reads k) :
    Turns clauses seen (read :: reads) (k + 1) := by
  rw [Turns, List.append_assoc, List.append_assoc, ← List.filterMap_append,
    ← List.filterMap_append] at h
  exact h

/-- A `decide` that folds the event frames into a tracker, matches when it is told to, and keeps
the rest of its state until then. -/
structure Drives {τ : Type*} (tracker : σ → AllOfTracker) (rest : σ → τ)
    (decide : σ → Message → σ × FrameDecision) : Prop where
  other : ∀ s frame, (∀ fields, lookup "fields" frame ≠ some (.obj fields)) →
    decide s frame = (s, .continue)
  event : ∀ s frame fields, lookup "fields" frame = some (.obj fields) →
    tracker (decide s frame).1 = ((tracker s).update frame).2 ∧
      ((decide s frame).2 = .matched ↔ ((tracker s).update frame).1 = true) ∧
      ((decide s frame).2 = .continue → rest (decide s frame).1 = rest s)

variable {τ : Type*} {tracker : σ → AllOfTracker} {rest : σ → τ}
  {decide : σ → Message → σ × FrameDecision} {seen : List Message}

/-- What a wait comes to that begins in this state with these frames seen. -/
structure Folds (clauses : List Predicate) (tracker : σ → AllOfTracker) (rest : σ → τ)
    (decide : σ → Message → σ × FrameDecision) (seen : List Message)
    (reads : List (Option Arrival)) (s : σ) (result : Ending × σ) : Prop where
  matched : result.1 = .matched ↔
    complete clauses (seen ++ (before reads).filterMap eventFrame) = true
  stopped : result.1 ≠ .matched → result.1 = ending reads ∧
    tracker result.2 = trackerOf clauses (seen ++ (before reads).filterMap eventFrame)
  last : result.1 = .matched → ∃ k frame s', (before reads)[k]?.bind eventFrame = some frame ∧
    rest s' = rest s ∧ decide s' frame = (result.2, .matched) ∧
    Turns clauses seen (before reads) k

theorem before_cons {read : Option Arrival} (h : stops read = false) :
    before (read :: reads) = read :: before reads :=
  List.takeWhile_cons_of_pos (by simp [h])

theorem Folds.cons {read : Option Arrival} {s s' : σ} {result : Ending × σ}
    (h : Folds clauses tracker rest decide (seen ++ [read].filterMap eventFrame) reads s' result)
    (hread : stops read = false) (hending : ending (read :: reads) = ending reads)
    (hrest : rest s' = rest s) :
    Folds clauses tracker rest decide seen (read :: reads) s result := by
  have hseen : seen ++ (before (read :: reads)).filterMap eventFrame =
      (seen ++ [read].filterMap eventFrame) ++ (before reads).filterMap eventFrame := by
    rw [before_cons hread, List.append_assoc, ← List.filterMap_append, List.singleton_append]
  refine ⟨by rw [hseen]; exact h.matched, by rw [hseen, hending]; exact h.stopped, fun hm => ?_⟩
  obtain ⟨k, frame, t, hframe, ht, hdecide, hturns⟩ := h.last hm
  rw [before_cons hread]
  exact ⟨k + 1, frame, t, hframe, ht.trans hrest, hdecide, hturns.cons⟩

theorem Folds.quiet {read : Option Arrival} {s : σ} {result : Ending × σ}
    (h : Folds clauses tracker rest decide seen reads s result) (hread : stops read = false)
    (hframe : eventFrame read = none) (hending : ending (read :: reads) = ending reads) :
    Folds clauses tracker rest decide seen (read :: reads) s result := by
  refine Folds.cons ?_ hread hending rfl
  rwa [List.filterMap_cons_none hframe, List.filterMap_nil, List.append_nil]

theorem Folds.stop {read : Option Arrival} {s : σ} {e : Ending}
    (hs : tracker s = trackerOf clauses seen) (hopen : complete clauses seen = false)
    (hread : stops read = true) (hending : ending (read :: reads) = e) (hne : e ≠ .matched) :
    Folds clauses tracker rest decide seen (read :: reads) s (e, s) := by
  have hbefore : before (read :: reads) = [] := List.takeWhile_cons_of_neg (by simp [hread])
  refine ⟨?_, fun _ => ⟨hending.symm, ?_⟩, fun hm => absurd hm hne⟩
  · simp [hbefore, hopen, hne]
  · simpa [hbefore] using hs

theorem eventFrame_handed {msg : Message} (hv : handling (.obj msg) = .handed) :
    eventFrame (some (.frame (.obj msg))) =
      match lookup "fields" msg with
      | some (.obj _) => some msg
      | _ => none := by
  simp only [eventFrame, hv]
  cases lookup "fields" msg with
  | none => rfl
  | some v => cases v <;> rfl

/-- The whole wait, by induction on what the socket brings: nothing matches until the frames
seen are complete. -/
theorem Drives.folds (h : Drives tracker rest decide) (reads : List (Option Arrival)) {s : σ}
    (hs : tracker s = trackerOf clauses seen) (hopen : complete clauses seen = false) :
    Folds clauses tracker rest decide seen reads s
      (awaitPredicate (onObjects decide) reads s) := by
  induction reads generalizing s seen with
  | nil =>
    refine ⟨?_, fun _ => ⟨rfl, ?_⟩, fun h => by cases h⟩
    · simp [awaitPredicate, before, hopen]
    · simpa [awaitPredicate, before] using hs
  | cons read later ih =>
    cases read with
    | none => exact .stop hs hopen rfl rfl (by simp)
    | some arrival =>
      cases arrival with
      | undecodable => exact (ih hs hopen).quiet rfl rfl rfl
      | fails exc => exact .stop hs hopen rfl rfl (by simp)
      | framingError => exact .stop hs hopen rfl rfl (by simp)
      | eof => exact .stop hs hopen rfl rfl (by simp)
      | frame v =>
        cases hv : handling v with
        | drained =>
          rw [awaitPredicate, hv]
          refine (ih hs hopen).quiet (by simp [stops, hv]) ?_ ?_
          · cases v <;> simp [eventFrame, hv]
          · simp only [ending, awaitPredicate, hv]
        | failed failure =>
          rw [awaitPredicate, hv]
          refine .stop hs hopen (by simp [stops, hv]) ?_ (by simp)
          simp only [ending, awaitPredicate, hv]
        | handed =>
          obtain ⟨msg, rfl⟩ : ∃ msg, v = .obj msg := by
            cases v <;> first | exact ⟨_, rfl⟩ | cases hv
          have hgoes : stops (some (.frame (.obj msg))) = false := by simp [stops, hv]
          have hending := (ending_frame later hv).2
          rw [awaitPredicate, hv]
          simp only [onObjects]
          by_cases hfields : ∃ fields, lookup "fields" msg = some (.obj fields)
          · obtain ⟨fields, hfields⟩ := hfields
            have hevent : eventFrame (some (.frame (.obj msg))) = some msg := by
              rw [eventFrame_handed hv, hfields]
            have hone : [some (.frame (.obj msg))].filterMap eventFrame = [msg] := by
              rw [List.filterMap_cons_some hevent, List.filterMap_nil]
            obtain ⟨htracker, hmatched, hkept⟩ := h.event s msg fields hfields
            rw [hs, update_eq] at htracker hmatched
            rcases hdecide : decide s msg with ⟨s', decision⟩
            rw [hdecide] at htracker hmatched hkept
            cases decision with
            | matched =>
              have hdone := hmatched.mp rfl
              refine ⟨?_, fun hne => absurd rfl hne, fun _ => ⟨0, msg, s, ?_, rfl, hdecide, ?_⟩⟩
              · rw [before_cons hgoes, ← List.singleton_append, List.filterMap_append, hone,
                  ← List.append_assoc]
                simpa using complete_mono hdone
              · rw [before_cons hgoes]
                exact hevent
              · rw [before_cons hgoes, Turns, List.take_succ_cons, List.take_zero, hone]
                simpa using ⟨hdone, hopen⟩
            | «continue» =>
              have hmore : complete clauses (seen ++ [msg]) = false :=
                Bool.eq_false_iff.mpr fun hdone => by cases hmatched.mpr hdone
              refine Folds.cons ?_ hgoes hending (hkept rfl)
              rw [hone]
              exact ih htracker hmore
          · rw [h.other s msg (not_exists.mp hfields)]
            refine (ih hs hopen).quiet hgoes ?_ hending
            rw [eventFrame_handed hv]
            split
            · exact absurd ⟨_, ‹_›⟩ hfields
            · rfl

end Sticky

section Positions

variable {σ : Type*} {clauses : List Predicate} {reads : List (Option Arrival)} {k : Nat}

theorem satisfiedBy_iff {clause : Predicate} : SatisfiedBy reads k clause ↔
    ((reads.take (k + 1)).filterMap eventFrame).any clause.evaluate = true := by
  simp only [SatisfiedBy, List.any_eq_true, List.mem_filterMap, Option.bind_eq_some_iff]
  constructor
  · rintro ⟨i, hi, frame, ⟨read, hread, hframe⟩, hsat⟩
    refine ⟨frame, ⟨read, List.mem_iff_getElem?.mpr ⟨i, ?_⟩, hframe⟩, hsat⟩
    rw [List.getElem?_take_of_lt (by omega), hread]
  · rintro ⟨frame, ⟨read, hmem, hframe⟩, hsat⟩
    obtain ⟨i, hread⟩ := List.mem_iff_getElem?.mp hmem
    have hi := (List.getElem?_eq_some_iff.mp hread).1
    rw [List.length_take] at hi
    rw [List.getElem?_take_of_lt (by omega)] at hread
    exact ⟨i, by omega, frame, ⟨read, hread, hframe⟩, hsat⟩

theorem complete_iff : complete clauses ((reads.take (k + 1)).filterMap eventFrame) = true ↔
    ∀ clause ∈ clauses, SatisfiedBy reads k clause := by
  simp only [complete, List.all_eq_true, satisfiedBy_iff]

theorem SatisfiedBy.mono {clause : Predicate} {j : Nat} (h : SatisfiedBy reads j clause)
    (hle : j ≤ k) : SatisfiedBy reads k clause := by
  obtain ⟨i, hi, frame, hframe⟩ := h
  exact ⟨i, hi.trans hle, frame, hframe⟩

theorem completesAt_iff (hclauses : clauses ≠ []) :
    CompletesAt clauses reads k ↔ Turns clauses [] reads k := by
  rw [Turns, List.nil_append, List.nil_append, complete_iff]
  constructor
  · rintro ⟨hall, hleast⟩
    refine ⟨hall, ?_⟩
    cases k with
    | zero => exact complete_nil hclauses
    | succ k =>
      obtain ⟨clause, hclause, hnot⟩ := hleast k (Nat.lt_succ_self k)
      exact Bool.eq_false_iff.mpr fun hdone => hnot (complete_iff.mp hdone clause hclause)
  · rintro ⟨hall, hopen⟩
    refine ⟨hall, fun j hj => ?_⟩
    by_contra hno
    push Not at hno
    have hdone : complete clauses ((reads.take (k - 1 + 1)).filterMap eventFrame) = true :=
      complete_iff.mpr fun clause hclause => (hno clause hclause).mono (by omega)
    rw [Nat.sub_add_cancel (by omega), hopen] at hdone
    nomatch hdone

theorem exists_completesAt (hclauses : clauses ≠ []) :
    (∃ k, CompletesAt clauses reads k) ↔
      complete clauses (reads.filterMap eventFrame) = true := by
  simp only [completesAt_iff hclauses]
  constructor
  · rintro ⟨k, hdone, -⟩
    rw [← List.take_append_drop (k + 1) reads, List.filterMap_append]
    exact complete_mono hdone
  · intro hdone
    have hexists : ∃ n, complete clauses ((reads.take n).filterMap eventFrame) = true :=
      ⟨reads.length, by rwa [List.take_length]⟩
    have hpos : Nat.find hexists ≠ 0 := by
      intro hzero
      have hnone := Nat.find_spec hexists
      rw [hzero, List.take_zero, List.filterMap_nil, complete_nil hclauses] at hnone
      nomatch hnone
    refine ⟨Nat.find hexists - 1, ?_, ?_⟩
    · rw [Nat.sub_add_cancel (by omega)]
      exact Nat.find_spec hexists
    · exact Bool.eq_false_iff.mpr (Nat.find_min hexists (by omega))

theorem CompletesAt.unique {j : Nat} (h : CompletesAt clauses reads k)
    (h' : CompletesAt clauses reads j) : k = j := by
  rcases Nat.lt_trichotomy k j with hlt | heq | hlt
  · obtain ⟨clause, hclause, hnot⟩ := h'.least k hlt
    exact absurd (h.complete clause hclause) hnot
  · exact heq
  · obtain ⟨clause, hclause, hnot⟩ := h.least j hlt
    exact absurd (h'.complete clause hclause) hnot

theorem Sticky.intro {τ : Type*} {tracker : σ → AllOfTracker} {rest : σ → τ}
    {decide : σ → Message → σ × FrameDecision} (h : Drives tracker rest decide) {s : σ}
    (hs : tracker s = .start clauses) (hclauses : clauses ≠ []) (reads : List (Option Arrival)) :
    Sticky clauses reads fun reads =>
      Prod.map id tracker (awaitPredicate (onObjects decide) reads s) := by
  have hfolds := fun reads => h.folds reads (hs.trans (start_eq clauses)) (complete_nil hclauses)
  have hmatched : ∀ reads, (awaitPredicate (onObjects decide) reads s).1 = .matched ↔
      complete clauses ((before reads).filterMap eventFrame) = true := fun reads =>
    (hfolds reads).matched
  refine ⟨fun k => ?_, ?_, fun hne => ?_⟩
  · simp only [Prod.map_fst, id, ne_eq, hmatched, before, ← List.take_takeWhile]
    rw [completesAt_iff hclauses, Turns, List.nil_append, List.nil_append, Bool.not_eq_true]
  · exact (hmatched reads).trans (exists_completesAt hclauses).symm
  · obtain ⟨hending, htracker⟩ := (hfolds reads).stopped hne
    refine ⟨hending, ?_⟩
    rw [Prod.map_snd, htracker, outstanding_eq]
    rfl

theorem drainDecide_drives : Drives Prod.fst Prod.snd drainDecide where
  other s frame h := by
    rcases hfields : lookup "fields" frame with _ | _ | _ | _ | _ | _ | _ | fields
    case some.obj => exact absurd hfields (h fields)
    all_goals simp only [drainDecide, hfields]
  event s frame fields h := by
    simp only [drainDecide, h]
    rcases s.1.update frame with ⟨done, tracker⟩
    cases done <;> simp

theorem composedDecide_drives (clauses : List Predicate) :
    Drives Prod.fst Prod.snd (composedDecide clauses true) where
  other s frame h := by
    rcases hfields : lookup "fields" frame with _ | _ | _ | _ | _ | _ | _ | fields
    case some.obj => exact absurd hfields (h fields)
    all_goals simp only [composedDecide, hfields]
  event s frame fields h := by
    simp only [composedDecide, h, if_true]
    rcases s.1.update frame with ⟨done, tracker⟩
    cases done <;> simp

end Positions

section Waits

variable {ε : Type*} {clauses : List Predicate}

theorem drain_last (hclauses : clauses ≠ []) {reads : List (Option Arrival)} {k : Nat}
    (h : CompletesAt clauses (before reads) k) : ∃ frame tracker,
      (before reads)[k]?.bind eventFrame = some frame ∧
      drainWait clauses reads = (.matched, tracker, [frame]) := by
  have hfolds := drainDecide_drives.folds reads
    (s := (.start clauses, [])) (start_eq clauses) (complete_nil hclauses)
  have hmatched := hfolds.matched.mpr ((exists_completesAt hclauses).mp ⟨k, h⟩)
  obtain ⟨j, frame, s', hframe, hrest, hdecide, hturns⟩ := hfolds.last hmatched
  obtain rfl := h.unique ((completesAt_iff hclauses).mpr hturns)
  have hcaptured : (drainDecide s' frame).1.2 = [frame] := by
    have hdone : (drainDecide s' frame).2 = .matched := by rw [hdecide]
    simp only [drainDecide] at hdone ⊢
    split at hdone
    · split at hdone
      · simp only [hrest, List.nil_append]
      · nomatch hdone
    · nomatch hdone
  rw [hdecide] at hcaptured
  exact ⟨frame, _, hframe, Prod.ext hmatched (Prod.ext rfl hcaptured)⟩

/-- Both front ends match with the frame that satisfies the last clause, which is what the call
returns; a command that times out lists the clauses that no frame satisfied, as they were
typed. -/
theorem allOf_sticky (toEvent : Message → Option ε) (hclauses : clauses ≠ [])
    (reads : List (Option Arrival)) :
    (Sticky clauses reads fun reads => Prod.map id Prod.fst (drainWait clauses reads)) ∧
    (Sticky clauses reads fun reads => Prod.map id Prod.fst (composedWait clauses true reads)) ∧
    (∀ k, CompletesAt clauses (before reads) k → ∃ frame,
      (before reads)[k]?.bind eventFrame = some frame ∧
      drainAllOf toEvent clauses reads = (match toEvent frame with
        | some event => .ok (some event)
        | none => .error .validation) ∧
      waitComposed clauses true reads = .ok .allSatisfied) ∧
    ((∀ k, ¬CompletesAt clauses (before reads) k) →
      drainAllOf toEvent clauses reads = finishDrain toEvent true (ending reads) [] ∧
      waitComposed clauses true reads = (match ending reads with
        | .raised failure => .error failure
        | .cancelled => .ok .interrupted
        | .timedOut =>
          .ok (.timedOut "outstanding clauses" (unsatisfied clauses (before reads)))
        | _ => .ok .closed)) := by
  have hdrain : Sticky clauses reads fun reads => Prod.map id Prod.fst (drainWait clauses reads) :=
    .intro drainDecide_drives rfl hclauses reads
  have hcomposed : Sticky clauses reads fun reads =>
      Prod.map id Prod.fst (composedWait clauses true reads) :=
    .intro (composedDecide_drives clauses) rfl hclauses reads
  refine ⟨hdrain, hcomposed, fun k hk => ?_, fun hnone => ⟨?_, ?_⟩⟩
  · obtain ⟨frame, tracker, hframe, hwait⟩ := drain_last hclauses hk
    have hmatched := hcomposed.matched.mpr ⟨k, hk⟩
    refine ⟨frame, hframe, ?_, ?_⟩
    · rw [drainAllOf, hwait]
      rfl
    · simp only [Prod.map_fst, id] at hmatched
      simp only [waitComposed, dispatchComposedOutcome, hmatched, if_true]
  · have hne : (drainWait clauses reads).1 ≠ .matched := fun h =>
      (hdrain.matched.mp h).elim hnone
    have hending : (drainWait clauses reads).1 = ending reads := (hdrain.stopped hne).1
    rw [hending] at hne
    simp only [drainAllOf, hending]
    cases hend : ending reads with
    | matched => exact absurd hend hne
    | timedOut | framingEof | cleanEof | cancelled | raised => rfl
  · have hne : (composedWait clauses true reads).1 ≠ .matched := fun h =>
      (hcomposed.matched.mp h).elim hnone
    obtain ⟨hending, houtstanding⟩ := hcomposed.stopped hne
    simp only [Prod.map_fst, id, Prod.map_snd] at hending houtstanding
    rw [hending] at hne
    simp only [waitComposed, dispatchComposedOutcome, hending, houtstanding, if_true]
    cases hend : ending reads with
    | matched => exact absurd hend hne
    | timedOut | framingEof | cleanEof | cancelled | raised => rfl

def frameOf (source key value : String) : Message :=
  [(ofText "fields", .obj [(ofText "source", .str (ofText source)),
    (ofText key, .str (ofText value))])]

def sampleReads : List (Option Arrival) :=
  [some (.frame (.obj (frameOf "pytest" "conclusion" "success"))), some .undecodable,
    some (.frame (.obj (frameOf "docker" "action" "die")))]

/-- `pytest:fields.conclusion="success"` and `docker:fields.action="die"`. -/
def sampleClauses : List Predicate :=
  [("pytest", "conclusion", "success"), ("docker", "action", "die")].map
    fun (source, key, value) =>
      ⟨fun frame => Waitbus.Predicate.evaluate digit
        [(ofText "fields.source", [.str (ofText source)]),
          (ofText ("fields." ++ key), [.str (ofText value)])] (.obj frame),
        ofText (source ++ ":fields." ++ key ++ "=\"" ++ value ++ "\"")⟩

theorem allOf_sticky_run : CompletesAt sampleClauses (before sampleReads) 2 ∧
    waitComposed sampleClauses true sampleReads = .ok .allSatisfied := by
  have hclauses : sampleClauses ≠ [] := List.cons_ne_nil _ _
  have hcompletes : CompletesAt sampleClauses (before sampleReads) 2 :=
    (completesAt_iff hclauses).mpr ⟨by decide, by decide⟩
  obtain ⟨-, -, hmatch, -⟩ := allOf_sticky (some : Message → _) hclauses sampleReads
  obtain ⟨frame, -, -, hreport⟩ := hmatch 2 hcompletes
  exact ⟨hcompletes, hreport⟩

end Waits

end Waitbus.Compose
