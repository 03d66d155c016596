import Mathlib
import Waitbus.Runs
import Waitbus.Await

/-! Resuming from a bookmark. The engine stores a frame's id before it calls `decide`, so what
happens between the two is what a resumed run never sees again. -/

namespace Waitbus.Bookmark
open Python Json FrameCodec EventStore Runs Await

/-- An event frame that the daemon sends to this subscriber, with the id it is sent under. -/
structure Sent where
  id : Ulid
  frame : Value
  named : cursorId frame = some (ofText id.val)
  handed : handling frame = .handed

/-- What one read of the socket comes to; `undecodable` is a JSONDecodeError or a
UnicodeDecodeError, `fails` any other exception of the decoding. -/
inductive Arrival where
  | frame (v : Value)
  | undecodable
  | fails (exc : PyExc)
  | framingError
  | eof

inductive Point where
  | reading
  | advancing (frame : Value)
  | deciding (frame : Value)
  | ended (ending : Ending)

/-- A subscriber with a bookmark over several runs of `await_predicate`. `log` is all that the
daemon has for it and `pending` what this run has still to be sent; `start` and `decided` are
history: where the bookmark stood at first, and the frames whose `decide` call completed. -/
structure Session where
  start : Ulid
  stored : PyStr
  point : Point
  log : List Sent
  pending : List Sent
  decided : List Value

/-- What the daemon replays for `since`: all that it has, when it does not know the id. -/
def after (id : PyStr) (log : List Sent) : List Sent :=
  if log.any (ofText ·.id.val = id) then (log.dropWhile fun s => ofText s.id.val ≠ id).tail
  else log

def Session.resumed (s : Session) : List Sent :=
  match load s.stored with
  | none => []
  | some id => after id s.log

def Session.owed (s : Session) : List Sent :=
  after (ofText s.start.val) s.log

inductive Act where
  | publish (sent : Sent)
  | resume
  | timeout
  /-- The next frame of the daemon's. -/
  | receive
  /-- Anything else on the socket. -/
  | read (arrival : Arrival)
  | advance (fault : Bool)
  | decide (result : Option FrameDecision)
  | interrupt

def handle (frame : Value) : Point :=
  match handling frame with
  | .drained => .reading
  | .handed => .advancing frame
  | .failed failure => .ended (.raised failure)

def Arrival.point : Arrival → Point
  | .frame v => handle v
  | .undecodable => .reading
  | .fails exc => .ended (.raised (.python exc))
  | .framingError => .ended .framingEof
  | .eof => .ended .cleanEof

/-- `BookmarkCursor.advance`: the file is replaced as a whole, or it stays as it is. -/
def Session.advance (s : Session) (frame : Value) (fault : Bool) : Session :=
  match cursorId frame with
  | none => { s with point := .deciding frame }
  | some id =>
    if ¬Scalar id then { s with point := .ended (.raised (.python .unicodeEncodeError)) }
    else if fault then { s with point := .ended (.raised .osError) }
    else { s with stored := id, point := .deciding frame }

def Session.step (s : Session) : Act → Option Session
  | .publish sent =>
    if sent.id = s.start ∨ sent.id ∈ s.log.map (·.id) then none
    else
      let pending := match s.point with
        | .ended _ => s.pending
        | _ => s.pending ++ [sent]
      some { s with log := s.log ++ [sent], pending }
  | .resume =>
    match s.point with
    | .ended _ => some { s with point := .reading, pending := s.resumed }
    | _ => none
  | .timeout =>
    match s.point with
    | .reading => some { s with point := .ended .timedOut }
    | _ => none
  | .receive =>
    match s.point, s.pending with
    | .reading, sent :: pending => some { s with point := handle sent.frame, pending }
    | _, _ => none
  | .read arrival =>
    match s.point with
    | .reading => some { s with point := arrival.point }
    | _ => none
  | .advance fault =>
    match s.point with
    | .advancing frame => some (s.advance frame fault)
    | _ => none
  | .decide result =>
    match s.point with
    | .deciding frame =>
      match result with
      | none => some { s with point := .ended (.raised .decide) }
      | some .continue => some { s with point := .reading, decided := s.decided ++ [frame] }
      | some .matched =>
        some { s with point := .ended .matched, decided := s.decided ++ [frame] }
    | _ => none
  | .interrupt =>
    match s.point with
    | .ended _ => none
    | _ => some { s with point := .ended .cancelled }

def session : System Session Act where
  init s := s.stored = ofText s.start.val ∧ s.decided = [] ∧ (s.log.map (·.id)).Nodup ∧
    s.pending = s.resumed ∧ s.point = .reading
  step := Session.step

/-- Nothing comes between the storing of a frame's id and the end of its `decide` call. -/
def Undisturbed (s : Session) : Act → Prop
  | .interrupt | .decide none => ∀ frame, s.point = .deciding frame → cursorId frame = none
  | _ => True

/-- What the daemon itself puts on the wire beside its event frames names no event. -/
def FromDaemon : Act → Prop
  | .read (.frame v) => cursorId v = none
  | _ => True

section Windows

variable {id : PyStr} {log rest : List Sent} {sent : Sent}

theorem after_suffix (id : PyStr) (log : List Sent) : after id log <:+ log := by
  unfold after
  split
  · exact (List.tail_suffix _).trans (List.dropWhile_suffix _)
  · exact List.suffix_refl _

theorem after_next (hnodup : (log.map (·.id)).Nodup) (h : after id log = sent :: rest) :
    after (ofText sent.id.val) log = rest := by
  obtain ⟨before, hsplit⟩ := after_suffix id log
  rw [h] at hsplit
  have hfresh : ∀ x ∈ before, x.id ≠ sent.id := by
    rw [← hsplit, List.map_append, List.map_cons, List.nodup_append] at hnodup
    exact fun x hx => hnodup.2.2 _ (List.mem_map_of_mem hx) _ List.mem_cons_self
  have hskip : ∀ x ∈ before, decide (ofText x.id.val ≠ ofText sent.id.val) = true :=
    fun x hx => decide_eq_true fun heq => hfresh x hx (ulid_ofText_inj heq)
  have hknown : log.any (ofText ·.id.val = ofText sent.id.val) = true := by
    refine List.any_eq_true.mpr ⟨sent, ?_, by simp⟩
    rw [← hsplit]
    exact List.mem_append_right _ List.mem_cons_self
  rw [after, if_pos hknown, ← hsplit, List.dropWhile_append_of_pos hskip,
    List.dropWhile_cons_of_neg (by simp), List.tail_cons]

theorem after_publish (h : ofText sent.id.val ≠ id) :
    after id (log ++ [sent]) = after id log ++ [sent] := by
  have hany : (log ++ [sent]).any (ofText ·.id.val = id) = log.any (ofText ·.id.val = id) := by
    simp [h]
  unfold after
  rw [hany]
  split
  · rename_i hknown
    obtain ⟨x, hx, heq⟩ := List.any_eq_true.mp hknown
    have hne : log.dropWhile (fun s => ofText s.id.val ≠ id) ≠ [] := by
      intro hnil
      have hall := List.dropWhile_eq_nil_iff.mp hnil x hx
      simp [of_decide_eq_true heq] at hall
    rw [List.dropWhile_append, if_neg (by simpa using hne), List.tail_append_of_ne_nil hne]
  · rfl

end Windows

section Resume

variable {s t : Session} {act : Act}

/-- The bookmark is where it was at first or names a frame whose `decide` call completed. -/
def Named (s : Session) : Prop :=
  s.stored = ofText s.start.val ∨ ∃ frame ∈ s.decided, cursorId frame = some s.stored

/-- What is owed has been decided, or a resumed run would be sent it, or its `decide` call is under
way; between two frames it has been decided, or this run is still to be sent it. -/
def AtLeastOnce (s : Session) : Prop :=
  (∀ f ∈ s.owed, f.frame ∈ s.decided ∨ f ∈ s.resumed ∨ s.point = .deciding f.frame) ∧
    (s.point = .reading → ∀ f ∈ s.owed, f.frame ∈ s.decided ∨ f ∈ s.pending)

/-- The bookmark lags behind by the frame that is being decided only. -/
structure Follows (s : Session) : Prop where
  deciding : ∀ frame, s.point = .deciding frame → Named s ∨ cursorId frame = some s.stored
  named : (∀ frame, s.point ≠ .deciding frame) → Named s

theorem follows_of_named (h : Named s) : Follows s :=
  ⟨fun _ _ => .inl h, fun _ => h⟩

theorem Follows.leave (h : Follows s) (hpoint : ∀ frame, s.point ≠ .deciding frame)
    (point : Point) (pending : List Sent) : Follows { s with point, pending } :=
  follows_of_named (h.named hpoint)

theorem Follows.advance (h : Follows s) {frame : Value} (hpoint : s.point = .advancing frame)
    (fault : Bool) : Follows (s.advance frame fault) := by
  have hnamed := h.named (by simp [hpoint])
  unfold Session.advance
  split
  · exact follows_of_named hnamed
  · rename_i id hid
    split
    · exact follows_of_named hnamed
    split
    · exact follows_of_named hnamed
    · refine ⟨fun v hv => .inr ?_, fun hno => absurd rfl (hno frame)⟩
      cases hv
      exact hid

theorem Follows.undecided (h : Follows s) {frame : Value} (hpoint : s.point = .deciding frame)
    (hfree : cursorId frame = none) : Named s := by
  refine (h.deciding frame hpoint).resolve_right fun hid => ?_
  rw [hfree] at hid
  cases hid

theorem Follows.decided (h : Follows s) {frame : Value} (hpoint : s.point = .deciding frame)
    (point : Point) : Named { s with point, decided := s.decided ++ [frame] } := by
  rcases h.deciding frame hpoint with (hstart | ⟨v, hv, hid⟩) | hid
  · exact .inl hstart
  · exact .inr ⟨v, List.mem_append_left _ hv, hid⟩
  · exact .inr ⟨frame, List.mem_append_right _ (List.mem_singleton_self _), hid⟩

theorem Follows.step (h : Follows s) (hok : Undisturbed s act) (hstep : s.step act = some t) :
    Follows t := by
  cases act with
  | publish sent =>
    simp only [Session.step] at hstep
    split at hstep
    · cases hstep
    · rw [← Option.some.inj hstep]
      exact ⟨h.deciding, h.named⟩
  | resume | timeout | receive | read =>
    simp only [Session.step] at hstep
    split at hstep
    · rw [← Option.some.inj hstep]
      exact h.leave (by simp [*]) _ _
    · cases hstep
  | advance fault =>
    simp only [Session.step] at hstep
    split at hstep
    · rename_i hpoint
      rw [← Option.some.inj hstep]
      exact h.advance hpoint fault
    · cases hstep
  | decide result =>
    simp only [Session.step] at hstep
    split at hstep
    · rename_i frame hpoint
      split at hstep <;> rw [← Option.some.inj hstep]
      · exact follows_of_named (h.undecided hpoint (hok frame hpoint))
      · exact follows_of_named (h.decided hpoint _)
      · exact follows_of_named (h.decided hpoint _)
    · cases hstep
  | interrupt =>
    simp only [Session.step] at hstep
    split at hstep
    · cases hstep
    · rw [← Option.some.inj hstep]
      refine follows_of_named ?_
      by_cases hpoint : ∃ frame, s.point = .deciding frame
      · obtain ⟨frame, hpoint⟩ := hpoint
        exact h.undecided hpoint (hok frame hpoint)
      · exact h.named fun frame hframe => hpoint ⟨frame, hframe⟩

/-- Where the run stands against the bookmark: what it is still to be sent comes after it, but for
the frame that is just being stored. -/
def Placed (s : Session) : Prop :=
  match s.point with
  | .reading | .deciding _ => s.resumed = s.pending
  | .advancing frame => (∃ sent : Sent, frame = sent.frame ∧ s.resumed = sent :: s.pending) ∨
      cursorId frame = none ∧ s.resumed = s.pending
  | .ended _ => True

/-- What is owed has been decided, is being decided, or comes after the bookmark. -/
structure Covers (s : Session) : Prop where
  nodup : (s.log.map (·.id)).Nodup
  known : ∃ id : Ulid, s.stored = ofText id.val ∧ (id = s.start ∨ id ∈ s.log.map (·.id))
  owed : ∀ f ∈ s.owed, f.frame ∈ s.decided ∨ f ∈ s.resumed ∨ s.point = .deciding f.frame
  placed : Placed s

theorem resumed_eq {id : Ulid} (h : s.stored = ofText id.val) :
    s.resumed = after (ofText id.val) s.log := by
  rw [Session.resumed, h, load_ulid]

theorem Covers.undecided (h : Covers s) (hfree : ∀ frame, s.point = .deciding frame →
    cursorId frame = none) : ∀ f ∈ s.owed, f.frame ∈ s.decided ∨ f ∈ s.resumed := by
  intro f hf
  rcases h.owed f hf with hdone | hres | hpoint
  · exact .inl hdone
  · exact .inr hres
  · have hnone := hfree _ hpoint
    rw [f.named] at hnone
    cases hnone

theorem Covers.leave (h : Covers s) (hfree : ∀ frame, s.point = .deciding frame →
    cursorId frame = none) (point : Point) (pending : List Sent)
    (hplaced : Placed { s with point, pending }) : Covers { s with point, pending } :=
  ⟨h.nodup, h.known, fun f hf => (h.undecided hfree f hf).imp_right .inl, hplaced⟩

theorem Covers.publish (h : Covers s) {sent : Sent} (hstart : sent.id ≠ s.start)
    (hfresh : sent.id ∉ s.log.map (·.id)) :
    Covers { s with
      log := s.log ++ [sent]
      pending := match s.point with | .ended _ => s.pending | _ => s.pending ++ [sent] } := by
  obtain ⟨id, hid, hknown⟩ := h.known
  have hne : sent.id ≠ id := by
    rintro rfl
    exact hknown.elim hstart hfresh
  have howed : ∀ pending, Session.owed { s with log := s.log ++ [sent], pending } =
      s.owed ++ [sent] :=
    fun _ => after_publish fun heq => hstart (ulid_ofText_inj heq)
  have hresumed : ∀ pending, Session.resumed { s with log := s.log ++ [sent], pending } =
      s.resumed ++ [sent] := fun pending => by
    rw [resumed_eq (s := s) hid, resumed_eq (s := { s with log := s.log ++ [sent], pending }) hid]
    exact after_publish fun heq => hne (ulid_ofText_inj heq)
  refine ⟨?_, ⟨id, hid, ?_⟩, fun f hf => ?_, ?_⟩
  · simp only [List.map_append, List.map_cons, List.map_nil]
    exact h.nodup.append (List.nodup_singleton _) (by simpa using hfresh)
  · simp only [List.map_append, List.mem_append]
    exact hknown.imp_right .inl
  · rw [howed] at hf
    rw [hresumed]
    rcases List.mem_append.mp hf with hf | hf
    · exact (h.owed f hf).imp_right fun hr => hr.imp_left (List.mem_append_left _)
    · exact .inr (.inl (List.mem_append_right _ hf))
  · have hplaced := h.placed
    unfold Placed at hplaced ⊢
    rw [hresumed]
    cases hpoint : s.point with
    | reading | deciding =>
      rw [hpoint] at hplaced
      simp only [hplaced]
    | advancing frame =>
      rw [hpoint] at hplaced
      rcases hplaced with ⟨next, heq, hres⟩ | ⟨hnone, hres⟩
      · exact .inl ⟨next, heq, by simp [hres]⟩
      · exact .inr ⟨hnone, by simp [hres]⟩
    | ended => trivial

theorem Covers.advance (h : Covers s) {frame : Value} (hpoint : s.point = .advancing frame)
    (fault : Bool) : Covers (s.advance frame fault) := by
  have hfree : ∀ v, s.point = .deciding v → cursorId v = none := by simp [hpoint]
  have hplaced := h.placed
  rw [Placed, hpoint] at hplaced
  unfold Session.advance
  split
  · rename_i hnone
    refine h.leave hfree (.deciding frame) s.pending ?_
    rcases hplaced with ⟨sent, rfl, -⟩ | ⟨-, hres⟩
    · rw [sent.named] at hnone
      cases hnone
    · exact hres
  · rename_i id hid
    split
    · exact h.leave hfree _ s.pending trivial
    split
    · exact h.leave hfree _ s.pending trivial
    · rcases hplaced with ⟨sent, rfl, hres⟩ | ⟨hnone, -⟩
      swap
      · rw [hnone] at hid
        cases hid
      rw [sent.named] at hid
      obtain rfl := Option.some.inj hid
      obtain ⟨old, hold, -⟩ := h.known
      rw [resumed_eq hold] at hres
      have hrest : Session.resumed { s with
          stored := ofText sent.id.val, point := .deciding sent.frame } = s.pending :=
        (resumed_eq rfl).trans (after_next h.nodup hres)
      have hsent : sent ∈ s.log := (after_suffix _ s.log).subset (hres ▸ List.mem_cons_self)
      refine ⟨h.nodup, ⟨sent.id, rfl, .inr (List.mem_map_of_mem hsent)⟩, fun f hf => ?_, hrest⟩
      rw [hrest]
      rcases h.undecided hfree f hf with hdone | hf
      · exact .inl hdone
      · rw [resumed_eq hold, hres] at hf
        rcases List.mem_cons.mp hf with rfl | hf
        · exact .inr (.inr rfl)
        · exact .inr (.inl hf)

theorem Covers.decided (h : Covers s) {frame : Value} (hpoint : s.point = .deciding frame)
    {point : Point} (hends : point = .reading ∨ ∃ ending, point = .ended ending) :
    Covers { s with point, decided := s.decided ++ [frame] } := by
  have hplaced := h.placed
  rw [Placed, hpoint] at hplaced
  refine ⟨h.nodup, h.known, fun f hf => ?_, ?_⟩
  · rcases h.owed f hf with hdone | hres | hdec
    · exact .inl (List.mem_append_left _ hdone)
    · exact .inr (.inl hres)
    · rw [hpoint] at hdec
      injection hdec with hdec
      exact .inl (List.mem_append_right _ (hdec ▸ List.mem_singleton_self _))
  · rcases hends with rfl | ⟨ending, rfl⟩
    · exact hplaced
    · trivial

theorem Covers.step (h : Covers s) (hok : Undisturbed s act) (hdaemon : FromDaemon act)
    (hstep : s.step act = some t) : Covers t := by
  have hplaced := h.placed
  unfold Placed at hplaced
  cases act with
  | publish sent =>
    simp only [Session.step] at hstep
    split at hstep
    · cases hstep
    · rename_i hfresh
      rw [not_or] at hfresh
      rw [← Option.some.inj hstep]
      exact h.publish hfresh.1 hfresh.2
  | resume =>
    simp only [Session.step] at hstep
    split at hstep
    · rename_i hpoint
      rw [← Option.some.inj hstep]
      exact h.leave (by simp [hpoint]) _ _ rfl
    · cases hstep
  | timeout =>
    simp only [Session.step] at hstep
    split at hstep
    · rename_i hpoint
      rw [← Option.some.inj hstep]
      exact h.leave (by simp [hpoint]) _ s.pending trivial
    · cases hstep
  | receive =>
    simp only [Session.step] at hstep
    split at hstep
    · rename_i sent pending hpoint hpending
      rw [← Option.some.inj hstep]
      rw [hpoint, hpending] at hplaced
      refine h.leave (by simp [hpoint]) _ _ ?_
      rw [handle, sent.handed]
      exact .inl ⟨sent, rfl, hplaced⟩
    · cases hstep
  | read arrival =>
    simp only [Session.step] at hstep
    split at hstep
    · rename_i hpoint
      rw [← Option.some.inj hstep]
      rw [hpoint] at hplaced
      refine h.leave (by simp [hpoint]) _ s.pending ?_
      cases arrival with
      | undecodable => exact hplaced
      | fails | framingError | eof => trivial
      | frame v =>
        simp only [Arrival.point, handle]
        split
        · exact hplaced
        · exact .inr ⟨hdaemon, hplaced⟩
        · trivial
    · cases hstep
  | advance fault =>
    simp only [Session.step] at hstep
    split at hstep
    · rename_i hpoint
      rw [← Option.some.inj hstep]
      exact h.advance hpoint fault
    · cases hstep
  | decide result =>
    simp only [Session.step] at hstep
    split at hstep
    · rename_i frame hpoint
      split at hstep <;> rw [← Option.some.inj hstep]
      · exact h.leave hok _ s.pending trivial
      · exact h.decided hpoint (.inl rfl)
      · exact h.decided hpoint (.inr ⟨_, rfl⟩)
    · cases hstep
  | interrupt =>
    simp only [Session.step] at hstep
    split at hstep
    · cases hstep
    · rw [← Option.some.inj hstep]
      exact h.leave hok _ s.pending trivial

theorem covers_init (h : session.init s) : Covers s := by
  obtain ⟨hstored, -, hnodup, hpending, hpoint⟩ := h
  have hres := resumed_eq hstored
  refine ⟨hnodup, ⟨s.start, hstored, .inl rfl⟩, fun f hf => .inr (.inl ?_), ?_⟩
  · rw [hres]
    exact hf
  · rw [Placed, hpoint]
    exact hpending.symm

/-- In every sequence of runs that nothing disturbs between the bookmark and `decide`, whatever
arrives, the bookmark names only frames that were decided; and when the frames that name an event
are the daemon's, each of these is decided or still to come. -/
theorem bookmark_resumes (s : Session) :
    (Reach session Undisturbed s → (∀ frame, s.point ≠ .deciding frame) → Named s) ∧
      (Reach session (fun s act => Undisturbed s act ∧ FromDaemon act) s → AtLeastOnce s) := by
  refine ⟨fun h => ?_, fun h => ?_⟩
  · have hfollows : Follows s := h.invariant (I := Follows)
      (fun _ hinit => follows_of_named (.inl (And.left hinit)))
      fun _ _ _ _ h hok hstep => h.step hok hstep
    exact hfollows.named
  · have hcovers : Covers s := h.invariant (I := Covers) (fun _ => covers_init)
      fun _ _ _ _ h hok hstep => h.step hok.1 hok.2 hstep
    have hplaced := hcovers.placed
    unfold Placed at hplaced
    refine ⟨hcovers.owed, fun hpoint f hf => ?_⟩
    rw [hpoint] at hplaced
    rw [← hplaced]
    exact hcovers.undecided (by simp [hpoint]) f hf

end Resume

section Samples

instance (p : Point) (P : Value → Prop) [∀ v, Decidable (P v)] :
    Decidable (∀ frame, p = .deciding frame → P frame) :=
  match p with
  | .deciding frame => decidable_of_iff (P frame)
      ⟨fun h v hv => by cases hv; exact h, fun h => h frame rfl⟩
  | .reading | .advancing _ | .ended _ => isTrue fun _ h => nomatch h

instance (s : Session) : ∀ act, Decidable (Undisturbed s act)
  | .interrupt | .decide none =>
    inferInstanceAs (Decidable (∀ frame, s.point = .deciding frame → _))
  | .publish _ | .resume | .timeout | .receive | .read _ | .advance _ | .decide (some _) =>
    isTrue trivial

instance : ∀ act, Decidable (FromDaemon act)
  | .read (.frame v) => inferInstanceAs (Decidable (cursorId v = none))
  | .read .undecodable | .read (.fails _) | .read .framingError | .read .eof | .publish _
  | .resume | .timeout | .receive | .advance _ | .decide _ | .interrupt => isTrue trivial

def sampleSent (id : Ulid) : Sent where
  id := id
  frame := record [("kind", text "event"), ("event_id", text id.val)]
  named := by
    have hfield : field (record [("kind", text "event"), ("event_id", text id.val)]) "event_id" =
      some (.str (ofText id.val)) := by
      have hne : ofText "kind" ≠ ofText "event_id" := by decide
      simp [field, record, lookup, text, hne]
    have hbeat : fieldIs (record [("kind", text "event"), ("event_id", text id.val)]) "kind"
      "daemon_heartbeat" = false := rfl
    rw [cursorId, hbeat, hfield]
    cases hid : ofText id.val with
    | nil => exact absurd hid (ofText_ulid_ne id)
    | cons => rfl
  handed := rfl

def sampleSession : Session where
  start := ulidAt 0
  stored := ofText (ulidAt 0).val
  point := .reading
  log := [sampleSent (ulidAt 1), sampleSent (ulidAt 2)]
  pending := [sampleSent (ulidAt 1), sampleSent (ulidAt 2)]
  decided := []

theorem sampleSession_init : session.init sampleSession := by
  have hresumed : sampleSession.resumed = after (ofText (ulidAt 0).val) sampleSession.log :=
    resumed_eq rfl
  refine ⟨rfl, rfl, by decide +kernel, ?_, rfl⟩
  rw [hresumed, after, if_neg (by decide +kernel)]
  rfl

/-- A run that is interrupted between two frames, and one that decides the second. -/
theorem bookmark_resumes_run : ∃ s : Session, s.decided.length = 2 ∧ s.pending.length = 0 ∧
    Named s ∧ AtLeastOnce s := by
  obtain ⟨s, hrun, hdecided, hpending, hpoint⟩ : ∃ s ∈ session.exec sampleSession
      [.receive, .advance false, .decide (some .continue), .interrupt, .resume, .receive,
        .advance false, .decide (some .matched)],
      s.decided.length = 2 ∧ s.pending.length = 0 ∧
        ∀ frame, s.point = .deciding frame → False := by
    decide +kernel
  have hstart : Reach session (fun s act => Undisturbed s act ∧ FromDaemon act) sampleSession :=
    .start sampleSession_init
  have hreach := hstart.exec hrun (by decide +kernel)
  exact ⟨s, hdecided, hpending,
    (bookmark_resumes s).1 (hreach.mono fun _ _ h => h.1) hpoint, (bookmark_resumes s).2 hreach⟩

/-- The first frame's `decide` call raises: the bookmark names it all the same, and a resumed run
is not sent it. -/
theorem bookmark_skips : ∃ s, Reachable session s ∧ s.point = .ended (.raised .decide) ∧
    ¬Named s ∧ ¬AtLeastOnce s := by
  obtain ⟨s, hrun, hpoint, hdecided, hstored, first, howed, hlost⟩ :
      ∃ s ∈ session.exec sampleSession [.receive, .advance false, .decide none],
      (match s.point with | .ended (.raised .decide) => true | _ => false) = true ∧
        s.decided.length = 0 ∧ s.stored ≠ ofText s.start.val ∧
        ∃ f ∈ s.owed, ∀ g ∈ s.resumed, g.id ≠ f.id := by
    decide +kernel
  have hreach : Reachable session s := Reachable.exec (.start sampleSession_init) hrun
  have hpoint : s.point = .ended (.raised .decide) := by
    split at hpoint
    · assumption
    · cases hpoint
  have hnone : s.decided = [] := List.length_eq_zero_iff.mp hdecided
  refine ⟨s, hreach, hpoint, ?_, ?_⟩
  · rintro (hstart | ⟨frame, hframe, -⟩)
    · exact hstored hstart
    · rw [hnone] at hframe
      cases hframe
  · rintro ⟨hall, -⟩
    rcases hall first howed with hdone | hres | hdec
    · rw [hnone] at hdone
      cases hdone
    · exact hlost first hres rfl
    · rw [hpoint] at hdec
      cases hdec

end Samples

end Waitbus.Bookmark
