import Waitbus.Runs

/-! The stop seam of the Docker watcher. `stop` sets the flag before it looks at the slot, and
`_register` fills the slot before it looks at the flag, so whichever of them comes second finds what
the other one left. What it finds is a connection; the socket may be the response's by then. -/

namespace Waitbus.WatchStopper
open Runs

section Model

abbrev Conn := Nat

/-- Where the watcher's thread is: between two connections, before or after the locked section of
`_register`, or by what it waits for in the `try` that `_clear` follows. -/
inductive Watcher where
  | disconnected
  | registering (conn : Conn)
  | checking (conn : Conn) (lostRace : Bool)
  | requesting (conn : Conn)
  | reading (conn : Conn)
  | leaving (conn : Conn)
  deriving DecidableEq

/-- Where the stopping thread is: outside of `stop`, past the flag, or past the locked section. -/
inductive Stopping where
  | idle
  | flagged
  | taken (conn : Option Conn)
  deriving DecidableEq

/-- The stopper and its two threads. `opened` counts the attempts, `sockless` has the connections
whose `sock` is `None`; the other lists are history, and `returned` is whether a `stop` has. -/
structure Seam where
  event : Bool
  slot : Option Conn
  watcher : Watcher
  stopping : Stopping
  opened : Nat
  sockless : List Conn
  registered : List Conn
  cleared : List Conn
  shutDown : List Conn
  closed : List Conn
  returned : Bool

inductive Act where
  | connect
  | registerLocked
  | registerChecked
  | respond (willClose : Bool)
  | reset
  | atEnd
  | clear
  | setFlag
  | stopLocked
  | wake

def Seam.shutdownSocket (s : Seam) (conn : Conn) : List Conn :=
  if conn ∈ s.sockless then s.shutDown else conn :: s.shutDown

def Seam.step (s : Seam) : Act → Option Seam
  | .connect =>
    match s.watcher with
    | .disconnected => some { s with watcher := .registering s.opened, opened := s.opened + 1 }
    | _ => none
  | .registerLocked =>
    match s.watcher with
    | .registering conn => some { s with
        slot := some conn
        watcher := .checking conn s.event
        registered := conn :: s.registered }
    | _ => none
  | .registerChecked =>
    match s.watcher with
    | .checking conn lostRace => some { s with
        watcher := .requesting conn
        shutDown := if lostRace then s.shutdownSocket conn else s.shutDown }
    | _ => none
  -- `getresponse` hands the socket over to a response that will close it, one without a length
  | .respond willClose =>
    match s.watcher with
    | .requesting conn => some { s with
        watcher := .reading conn
        sockless := if willClose then conn :: s.sockless else s.sockless }
    | _ => none
  -- and closes it on a `ConnectionError`
  | .reset =>
    match s.watcher with
    | .requesting conn => some { s with
        watcher := .leaving conn
        sockless := conn :: s.sockless
        closed := conn :: s.closed }
    | _ => none
  -- a response that owns the socket closes it where the body ends
  | .atEnd =>
    match s.watcher with
    | .reading conn => some { s with
        watcher := .leaving conn
        closed := if conn ∈ s.sockless then conn :: s.closed else s.closed }
    | _ => none
  | .clear =>
    match s.watcher with
    | .requesting conn | .reading conn | .leaving conn => some { s with
        slot := none
        watcher := .disconnected
        cleared := conn :: s.cleared }
    | _ => none
  | .setFlag =>
    match s.stopping with
    | .idle => some { s with event := true, stopping := .flagged }
    | _ => none
  | .stopLocked =>
    match s.stopping with
    | .flagged => some { s with slot := none, stopping := .taken s.slot }
    | _ => none
  | .wake =>
    match s.stopping with
    | .taken conn => some { s with
        stopping := .idle
        shutDown := conn.elim s.shutDown s.shutdownSocket
        returned := true }
    | _ => none

def Seam.fresh : Seam :=
  ⟨false, none, .disconnected, .idle, 0, [], [], [], [], [], false⟩

def seam : System Seam Act where
  init s := s = .fresh
  step := Seam.step

/-- No call of `_register` is under way. -/
def Watcher.Settled : Watcher → Prop
  | .disconnected | .requesting _ | .reading _ | .leaving _ => True
  | .registering _ | .checking _ _ => False

/-- Once a `stop` has returned, no connection is left open to be read. -/
def RaceFree (s : Seam) : Prop :=
  s.returned = true → s.watcher.Settled →
    ∀ conn ∈ s.registered, conn ∉ s.cleared → conn ∈ s.shutDown ∨ conn ∈ s.closed

/-- The connection that `stop` has taken from the slot still has its socket, or is done with. -/
def Attached (s : Seam) : Act → Prop
  | .wake =>
    match s.stopping with
    | .taken (some conn) => conn ∈ s.sockless →
      conn ∈ s.cleared ∨ conn ∈ s.shutDown ∨ conn ∈ s.closed
    | _ => True
  | _ => True

instance Attached.decidable (s : Seam) (act : Act) : Decidable (Attached s act) := by
  unfold Attached
  split
  · split
    · infer_instance
    · infer_instance
  · infer_instance

end Model

section Races

variable {s t : Seam} {act : Act} {conn : Conn}

def Watcher.attempt : Watcher → Option Conn
  | .disconnected => none
  | .registering conn | .checking conn _ | .requesting conn | .reading conn | .leaving conn =>
    some conn

def Watcher.unanswered : Watcher → Option Conn
  | .disconnected | .reading _ | .leaving _ => none
  | .registering conn | .checking conn _ | .requesting conn => some conn

def Watcher.held : Watcher → Option Conn
  | .disconnected | .registering _ => none
  | .checking conn _ | .requesting conn | .reading conn | .leaving conn => some conn

/-- No number is given twice, and a connection keeps its socket until there is a response. -/
structure Numbered (s : Seam) : Prop where
  attempt : ∀ conn, s.watcher.attempt = some conn → conn < s.opened ∧ conn ∉ s.cleared
  unanswered : ∀ conn, s.watcher.unanswered = some conn → conn ∉ s.sockless
  sockless : ∀ conn ∈ s.sockless, conn < s.opened
  cleared : ∀ conn ∈ s.cleared, conn < s.opened

theorem Numbered.connect (h : Numbered s) :
    Numbered { s with watcher := .registering s.opened, opened := s.opened + 1 } where
  attempt conn hconn := by
    obtain rfl := Option.some.inj hconn
    exact ⟨Nat.lt_succ_self _, fun hmem => (h.cleared _ hmem).false⟩
  unanswered conn hconn := by
    obtain rfl := Option.some.inj hconn
    exact fun hmem => (h.sockless _ hmem).false
  sockless conn hconn := (h.sockless conn hconn).trans (Nat.lt_succ_self _)
  cleared conn hconn := (h.cleared conn hconn).trans (Nat.lt_succ_self _)

theorem Numbered.answered (h : Numbered s) (hattempt : s.watcher.attempt = some conn)
    {watcher : Watcher} (hwatcher : watcher.attempt = some conn)
    (hanswered : watcher.unanswered = none) {sockless : List Conn}
    (hsockless : sockless ⊆ conn :: s.sockless) : Numbered { s with watcher, sockless } where
  attempt other hother := h.attempt other (hattempt.trans (hwatcher.symm.trans hother))
  unanswered other hother := by
    rw [hanswered] at hother
    cases hother
  sockless other hother := by
    rcases List.mem_cons.mp (hsockless hother) with rfl | hmem
    · exact (h.attempt other hattempt).1
    · exact h.sockless other hmem
  cleared := h.cleared

theorem Numbered.clear (h : Numbered s) (hattempt : s.watcher.attempt = some conn) :
    Numbered { s with watcher := .disconnected, cleared := conn :: s.cleared } where
  attempt other hother := by cases hother
  unanswered other hother := by cases hother
  sockless := h.sockless
  cleared other hother := by
    rcases List.mem_cons.mp hother with rfl | hmem
    · exact (h.attempt other hattempt).1
    · exact h.cleared other hmem

theorem Numbered.same (h : Numbered s) (hattempt : t.watcher.attempt = s.watcher.attempt)
    (hunanswered : t.watcher.unanswered = s.watcher.unanswered) (hopened : t.opened = s.opened)
    (hsockless : t.sockless = s.sockless) (hcleared : t.cleared = s.cleared) : Numbered t := by
  constructor
  · rw [hattempt, hopened, hcleared]
    exact h.attempt
  · rw [hunanswered, hsockless]
    exact h.unanswered
  · rw [hsockless, hopened]
    exact h.sockless
  · rw [hcleared, hopened]
    exact h.cleared

theorem Numbered.step (h : Numbered s) (hstep : s.step act = some t) : Numbered t := by
  cases act with
  | connect =>
    simp only [Seam.step] at hstep
    split at hstep
    · rw [← Option.some.inj hstep]
      exact h.connect
    · cases hstep
  | registerLocked | registerChecked =>
    simp only [Seam.step] at hstep
    split at hstep
    · rename_i hwatcher
      rw [← Option.some.inj hstep]
      exact h.same (by rw [hwatcher]; rfl) (by rw [hwatcher]; rfl) rfl rfl rfl
    · cases hstep
  | respond willClose =>
    simp only [Seam.step] at hstep
    split at hstep
    · rename_i hwatcher
      rw [← Option.some.inj hstep]
      refine h.answered (by rw [hwatcher]; rfl) rfl rfl ?_
      cases willClose
      · exact List.subset_cons_self _ _
      · exact List.Subset.refl _
    · cases hstep
  | reset =>
    simp only [Seam.step] at hstep
    split at hstep
    · rename_i conn hwatcher
      rw [← Option.some.inj hstep]
      have hleft : Numbered { s with watcher := .leaving conn, sockless := conn :: s.sockless } :=
        h.answered (by rw [hwatcher]; rfl) rfl rfl (List.Subset.refl _)
      exact hleft.same rfl rfl rfl rfl rfl
    · cases hstep
  | atEnd =>
    simp only [Seam.step] at hstep
    split at hstep
    · rename_i hwatcher
      rw [← Option.some.inj hstep]
      exact h.same (by rw [hwatcher]; rfl) (by rw [hwatcher]; rfl) rfl rfl rfl
    · cases hstep
  | clear =>
    simp only [Seam.step] at hstep
    split at hstep
    iterate 3
      · rename_i hwatcher
        rw [← Option.some.inj hstep]
        exact Numbered.same (h.clear (by rw [hwatcher]; rfl)) rfl rfl rfl rfl rfl
    · cases hstep
  | setFlag | stopLocked | wake =>
    simp only [Seam.step] at hstep
    split at hstep
    · rw [← Option.some.inj hstep]
      exact h.same rfl rfl rfl rfl rfl
    · cases hstep

def Ended (s : Seam) (conn : Conn) : Prop :=
  conn ∈ s.shutDown ∨ conn ∈ s.closed

/-- The first `stop` has still to come or to reach the connection. -/
def Due (s : Seam) (conn : Conn) : Prop :=
  s.returned = false ∧
    ((∀ taken, s.stopping ≠ .taken taken) ∧ s.slot = some conn ∨ s.stopping = .taken (some conn))

structure Safe (s : Seam) : Prop where
  flag : s.event = true ↔ s.returned = true ∨ s.stopping ≠ .idle
  current : ∀ conn ∈ s.registered, conn ∉ s.cleared → s.watcher.held = some conn
  guarded : ∀ conn, s.watcher.held = some conn →
    s.watcher = .checking conn true ∨ Ended s conn ∨ Due s conn

theorem held_attempt {watcher : Watcher} (h : watcher.held = some conn) :
    watcher.attempt = some conn := by
  cases watcher with
  | disconnected | registering => cases h
  | checking | requesting | reading | leaving => exact h

theorem mem_shutdownSocket (h : conn ∈ s.shutDown ∨ conn ∉ s.sockless) :
    conn ∈ s.shutdownSocket conn := by
  rw [Seam.shutdownSocket]
  split_ifs with hsockless
  · exact h.resolve_right (not_not.mpr hsockless)
  · exact List.mem_cons_self

theorem subset_shutdownSocket (s : Seam) (conn : Conn) : s.shutDown ⊆ s.shutdownSocket conn := by
  rw [Seam.shutdownSocket]
  split_ifs
  · exact List.Subset.refl _
  · exact List.subset_cons_self _ _

theorem Safe.keep (h : Safe s) (hheld : t.watcher.held = s.watcher.held)
    (hchecking : ∀ conn, s.watcher = .checking conn true → Ended t conn)
    (hended : ∀ conn, Ended s conn → Ended t conn) (hevent : t.event = s.event)
    (hslot : t.slot = s.slot) (hstopping : t.stopping = s.stopping)
    (hreturned : t.returned = s.returned) (hregistered : t.registered = s.registered)
    (hcleared : t.cleared = s.cleared) : Safe t where
  flag := by
    rw [hevent, hreturned, hstopping]
    exact h.flag
  current := by
    rw [hregistered, hcleared, hheld]
    exact h.current
  guarded conn hconn := by
    rw [hheld] at hconn
    rcases h.guarded conn hconn with hlost | hend | hdue
    · exact .inr (.inl (hchecking conn hlost))
    · exact .inr (.inl (hended conn hend))
    · refine .inr (.inr ?_)
      rw [Due, hreturned, hstopping, hslot]
      exact hdue

theorem Safe.registerLocked (h : Safe s) (hwatcher : s.watcher = .registering conn) :
    Safe { s with
      slot := some conn
      watcher := .checking conn s.event
      registered := conn :: s.registered } where
  flag := h.flag
  current := by
    intro c hc hclear
    rcases List.mem_cons.mp hc with rfl | hc
    · rfl
    · have hheld := h.current c hc hclear
      rw [hwatcher] at hheld
      cases hheld
  guarded := by
    intro c hc
    obtain rfl := Option.some.inj hc
    cases hevent : s.event with
    | true => exact .inl rfl
    | false =>
      have hquiet : ¬(s.returned = true ∨ s.stopping ≠ .idle) := by
        rw [← h.flag, hevent]
        exact Bool.false_ne_true
      rw [not_or, not_not, Bool.not_eq_true] at hquiet
      refine .inr (.inr ⟨hquiet.1, .inl ⟨fun taken htaken => ?_, rfl⟩⟩)
      rw [hquiet.2] at htaken
      cases htaken

theorem Safe.unheld (h : Safe s) {watcher : Watcher} (hheld : watcher.held = none)
    {slot : Option Conn} {opened : Nat} {cleared : List Conn}
    (hcleared : ∀ conn, s.watcher.held = some conn → conn ∈ cleared)
    (hsubset : s.cleared ⊆ cleared) : Safe { s with slot, watcher, opened, cleared } where
  flag := h.flag
  current conn hconn hclear :=
    absurd (hcleared conn (h.current conn hconn fun hmem => hclear (hsubset hmem))) hclear
  guarded conn hconn := by
    rw [hheld] at hconn
    cases hconn

theorem Safe.stopStep (h : Safe s) {event : Bool} {slot : Option Conn} {stopping : Stopping}
    {shutDown : List Conn} {returned : Bool}
    (hflag : event = true ↔ returned = true ∨ stopping ≠ .idle) (hshut : s.shutDown ⊆ shutDown)
    (hdue : ∀ conn, s.watcher.held = some conn → Due s conn →
      Ended { s with event, slot, stopping, shutDown, returned } conn ∨
        Due { s with event, slot, stopping, shutDown, returned } conn) :
    Safe { s with event, slot, stopping, shutDown, returned } where
  flag := hflag
  current := h.current
  guarded conn hconn := by
    rcases h.guarded conn hconn with hlost | (hmem | hmem) | hd
    · exact .inl hlost
    · exact .inr (.inl (.inl (hshut hmem)))
    · exact .inr (.inl (.inr hmem))
    · exact .inr (hdue conn hconn hd)

theorem Safe.watcher_step (h : Safe s) (hn : Numbered s) (hact : act ≠ .setFlag)
    (hact' : act ≠ .stopLocked) (hact'' : act ≠ .wake) (hstep : s.step act = some t) : Safe t := by
  cases act with
  | setFlag => exact absurd rfl hact
  | stopLocked => exact absurd rfl hact'
  | wake => exact absurd rfl hact''
  | connect =>
    simp only [Seam.step] at hstep
    split at hstep
    · rename_i hwatcher
      rw [← Option.some.inj hstep]
      refine h.unheld rfl (fun conn hconn => ?_) (List.Subset.refl _)
      rw [hwatcher] at hconn
      cases hconn
    · cases hstep
  | registerLocked =>
    simp only [Seam.step] at hstep
    split at hstep
    · rename_i hwatcher
      rw [← Option.some.inj hstep]
      exact h.registerLocked hwatcher
    · cases hstep
  | registerChecked =>
    simp only [Seam.step] at hstep
    split at hstep
    · rename_i conn lostRace hwatcher
      rw [← Option.some.inj hstep]
      refine h.keep (by rw [hwatcher]; rfl) (fun c hc => .inl ?_) (fun c hend => ?_) rfl rfl rfl rfl
        rfl rfl
      · obtain ⟨rfl, rfl⟩ := Watcher.checking.inj (hwatcher.symm.trans hc)
        exact mem_shutdownSocket (.inr (hn.unanswered _ (by rw [hwatcher]; rfl)))
      · refine hend.imp (fun hmem => ?_) id
        cases lostRace
        · exact hmem
        · exact subset_shutdownSocket s conn hmem
    · cases hstep
  | respond willClose =>
    simp only [Seam.step] at hstep
    split at hstep
    · rename_i hwatcher
      rw [← Option.some.inj hstep]
      refine h.keep (by rw [hwatcher]; rfl) (fun c hc => ?_) (fun c hend => hend) rfl rfl rfl rfl
        rfl rfl
      rw [hwatcher] at hc
      cases hc
    · cases hstep
  | reset =>
    simp only [Seam.step] at hstep
    split at hstep
    · rename_i hwatcher
      rw [← Option.some.inj hstep]
      refine h.keep (by rw [hwatcher]; rfl) (fun c hc => ?_)
        (fun c hend => hend.imp id (List.mem_cons_of_mem _)) rfl rfl rfl rfl rfl rfl
      rw [hwatcher] at hc
      cases hc
    · cases hstep
  | atEnd =>
    simp only [Seam.step] at hstep
    split at hstep
    · rename_i hwatcher
      rw [← Option.some.inj hstep]
      refine h.keep (by rw [hwatcher]; rfl) (fun c hc => ?_)
        (fun c hend => hend.imp id fun hmem => ?_) rfl rfl rfl rfl rfl rfl
      · rw [hwatcher] at hc
        cases hc
      · dsimp only
        split_ifs
        · exact List.mem_cons_of_mem _ hmem
        · exact hmem
    · cases hstep
  | clear =>
    simp only [Seam.step] at hstep
    split at hstep
    iterate 3
      · rename_i hwatcher
        rw [← Option.some.inj hstep]
        refine h.unheld rfl (fun c hc => ?_) (List.subset_cons_self _ _)
        rw [hwatcher] at hc
        obtain rfl := Option.some.inj hc
        exact List.mem_cons_self
    · cases hstep

theorem Safe.step (h : Safe s) (hn : Numbered s) (hattached : Attached s act)
    (hstep : s.step act = some t) : Safe t := by
  cases act with
  | connect | registerLocked | registerChecked | respond | reset | atEnd | clear =>
    exact h.watcher_step hn (by simp) (by simp) (by simp) hstep
  | setFlag =>
    simp only [Seam.step] at hstep
    split at hstep
    · rename_i hidle
      rw [← Option.some.inj hstep]
      refine h.stopStep (by simp) (List.Subset.refl _) fun c _ => ?_
      rintro ⟨hreturned, ⟨-, hslot⟩ | htaken⟩
      · exact .inr ⟨hreturned, .inl ⟨by simp, hslot⟩⟩
      · rw [hidle] at htaken
        cases htaken
    · cases hstep
  | stopLocked =>
    simp only [Seam.step] at hstep
    split at hstep
    · rename_i hflagged
      rw [← Option.some.inj hstep]
      refine h.stopStep ?_ (List.Subset.refl _) fun c _ => ?_
      · rw [h.flag, hflagged]
        simp
      rintro ⟨hreturned, ⟨-, hslot⟩ | htaken⟩
      · exact .inr ⟨hreturned, .inr (by rw [hslot])⟩
      · rw [hflagged] at htaken
        cases htaken
    · cases hstep
  | wake =>
    simp only [Seam.step] at hstep
    split at hstep
    · rename_i taken htaken
      rw [← Option.some.inj hstep]
      refine h.stopStep ?_ ?_ fun c hc => ?_
      · rw [h.flag, htaken]
        simp
      · cases taken with
        | none => exact List.Subset.refl _
        | some conn => exact subset_shutdownSocket s conn
      rintro ⟨-, ⟨hnot, -⟩ | hdue⟩
      · exact absurd htaken (hnot _)
      · obtain rfl := Stopping.taken.inj (htaken.symm.trans hdue)
        -- what the connection of a response would not be woken from is over already
        refine .inl ?_
        by_cases hsockless : c ∈ s.sockless
        · rw [Attached, hdue] at hattached
          rcases hattached hsockless with hclear | hshut | hclosed
          · exact absurd hclear (hn.attempt c (held_attempt hc)).2
          · exact .inl (mem_shutdownSocket (.inl hshut))
          · exact .inr hclosed
        · exact .inl (mem_shutdownSocket (.inr hsockless))
    · cases hstep

theorem numbered_run {ok : Seam → Act → Prop} (h : Reach seam ok s) : Numbered s := by
  refine h.invariant ?_ fun _ _ _ _ hn _ hstep => hn.step hstep
  rintro _ rfl
  exact ⟨by simp [Seam.fresh, Watcher.attempt], by simp [Seam.fresh], by simp [Seam.fresh],
    by simp [Seam.fresh]⟩

theorem safe_run (h : Reach seam Attached s) : Safe s := by
  refine h.invariant ?_ fun _ _ _ hr hsafe hok hstep => hsafe.step (numbered_run hr) hok hstep
  rintro _ rfl
  exact ⟨by decide, by simp [Seam.fresh], by simp [Seam.fresh, Watcher.held]⟩

/-- In every interleaving of the two threads, over any number of connections and calls of `stop`, as
long as no `stop` comes too late for the socket. -/
theorem stop_race_free (h : Reach seam Attached s) : RaceFree s := by
  intro hreturned hsettled conn hregistered hclear
  have hsafe := safe_run h
  rcases hsafe.guarded conn (hsafe.current conn hregistered hclear) with hlost | hend | ⟨hno, -⟩
  · rw [hlost] at hsettled
    exact hsettled.elim
  · exact hend
  · rw [hreturned] at hno
    cases hno

/-- The response that owns the first socket ends while `stop` looks for that socket; the connection
of the reconnect finds the flag set. -/
theorem stop_race_free_run : ∃ s, Reach seam Attached s ∧ s.returned = true ∧ RaceFree s ∧
    s.registered = [1, 0] ∧ s.cleared = [0] ∧ s.closed = [0] ∧ s.shutDown = [1] := by
  let acts : List Act := [.connect, .registerLocked, .registerChecked, .respond true, .setFlag,
    .stopLocked, .atEnd, .wake, .clear, .connect, .registerLocked, .registerChecked, .respond false]
  obtain ⟨s, hrun, hreturned, hregistered, hcleared, hclosed, hshut⟩ :
      ∃ s ∈ seam.exec .fresh acts, s.returned = true ∧ s.registered = [1, 0] ∧
        s.cleared = [0] ∧ s.closed = [0] ∧ s.shutDown = [1] := by
    decide
  have hattached : seam.Meets Attached .fresh acts := by decide
  have hreach : Reach seam Attached s := Reach.exec (.start rfl) hrun hattached
  exact ⟨s, hreach, hreturned, stop_race_free hreach, hregistered, hcleared, hclosed, hshut⟩

/-- The response has no length, so that it owns the socket when `stop` looks for it: the connection
stays open, and its reader in the read. -/
theorem response_keeps_reading :
    ∃ s, Reachable seam s ∧ s.watcher = .reading 0 ∧ ¬RaceFree s := by
  obtain ⟨s, hrun, hreading, hreturned, hregistered, hlists⟩ :
      ∃ s ∈ seam.exec .fresh [.connect, .registerLocked, .registerChecked, .respond true, .setFlag,
        .stopLocked, .wake],
        s.watcher = .reading 0 ∧ s.returned = true ∧ s.registered = [0] ∧
          s.cleared ++ s.shutDown ++ s.closed = [] := by
    decide
  simp only [List.append_eq_nil_iff] at hlists
  obtain ⟨⟨hcleared, hshut⟩, hclosed⟩ := hlists
  refine ⟨s, Reachable.exec (.start rfl) hrun, hreading, fun hfree => ?_⟩
  have hended := hfree hreturned (by rw [hreading]; trivial) 0 (by simp [hregistered])
    (by simp [hcleared])
  simp [hshut, hclosed] at hended

end Races

end Waitbus.WatchStopper
