import Waitbus.Classify
import Waitbus.Envelope
import Waitbus.McpReads

/-! The long poll of `tail_events`. One request is compiled twice, to the subscription that wakes it
and to the query that answers it. The subscription knows only the supported event types, and without
a cursor it begins where the daemon is when it registers it. -/

namespace Waitbus.LongPoll
open Python Json FrameCodec EventStore RowFrame TxQueue Runs OrderedLog Daemon Delivery Classify
open SourceRegistry Envelope McpReads Untrusted
open Subscriptions (segments segments_eq_pair)

section Model

/-- `s <= t`, by code points. -/
def textLe : PyStr → PyStr → Bool
  | [], _ => true
  | _ :: _, [] => false
  | a :: s, b :: t => PyChar.code a < PyChar.code b || (PyChar.code a = PyChar.code b && textLe s t)

/-- `sorted` of a set of texts. -/
def sortedSet (texts : List PyStr) : List PyStr :=
  texts.dedup.insertionSort fun s t => textLe s t = true

def agentMessage : PyStr :=
  ofText "agent_message"

def subscribeEventTypes (registry : Registry) (eventTypes : Option (List String)) : List PyStr :=
  let supported := eventTypesSupported registry
  let keep :=
    if eventTypes.getD [] = [] then sortedSet (supported.filter (· ≠ agentMessage))
    else sortedSet (((eventTypes.getD []).map ofText).filter (· ∈ supported))
  if keep = [] then sortedSet supported else keep

/-- The frame that `_tail_events_blocking` has `open_subscriber` send. -/
def subscribeMessage (registry : Registry) (arguments : TailArguments) : List (PyStr × Value) :=
  let filters := (splitRepo arguments.repo).map fun repo =>
    (ofText "filters", Value.arr [.str (repo.1 ++ .scalar '/' :: repo.2)])
  let eventTypes := (subscribeEventTypes registry arguments.eventTypes).map Value.str
  let since := arguments.sinceCursor.map fun since => (ofText "since", Value.str (ofText since))
  (ofText "proto", .int Envelope.frameProtoVersion) :: filters.toList ++
    (ofText "event_types", .arr eventTypes) :: since.toList

/-- The connection has the subscription that the daemon makes of the request's frame. -/
def Asked (registry : Registry) (arguments : TailArguments) (c : Conn) : Prop :=
  ∃ sub ∈ (validateFields registry (subscribeMessage registry arguments)).toOption,
    sub.filters = c.sub.filters.map ofText ∧ sub.eventTypes = c.sub.eventTypes.map ofText ∧
    sub.since = c.since.map fun id => ofText id.val

/-- The rows that the query of `_tail_events_read` has before its LIMIT. -/
def queried (store : Store) (arguments : TailArguments) : List Row :=
  store.fanOutable.filter fun row =>
    store.seqForEventId (arguments.sinceCursor.getD "") < row.seq &&
      ((splitRepo arguments.repo).map fun repo => ofRepo repo row).getD true &&
      eventTypeFilter (arguments.eventTypes.getD []) row

def Supported (registry : Registry) (eventType : String) : Prop :=
  ofText eventType ∈ eventTypesSupported registry

/-- The repository asked for is not one that the daemon reads as all of its owner's. -/
def OneRepo (arguments : TailArguments) : Prop :=
  ∀ repo ∈ splitRepo arguments.repo, repo.2 ≠ ofText "*"

/-- Of the event types asked for, if any are, there is one that is supported. -/
def SomeSupported (registry : Registry) (arguments : TailArguments) : Prop :=
  arguments.eventTypes.getD [] = [] ∨ ∃ t ∈ arguments.eventTypes.getD [], Supported registry t

/-- No new row gets the event id that a subscriber has asked to resume from. -/
def IdsUnasked (hub : Hub) : Label → Prop
  | .commit batch => ∀ c ∈ hub.conns, ∀ id ∈ c.since, id ∉ batch.map (·.2)
  | _ => True

/-- Besides, no replay is cut short by `REPLAY_LIMIT`. -/
def Undisturbed (hub : Hub) (label : Label) : Prop :=
  ReplaysCover hub label ∧ IdsUnasked hub label

end Model

section Filters

variable {registry : Registry} {arguments : TailArguments} {c : Conn}

@[simp]
theorem mem_sortedSet {texts : List PyStr} {t : PyStr} : t ∈ sortedSet texts ↔ t ∈ texts := by
  rw [sortedSet, List.mem_insertionSort, List.mem_dedup]

theorem sortedSet_ne_nil {texts : List PyStr} {t : PyStr} (h : t ∈ texts) :
    sortedSet texts ≠ [] :=
  List.ne_nil_of_mem (mem_sortedSet.mpr h)

theorem workflowRun_supported (registry : Registry) :
    ofText "workflow_run" ∈ eventTypesSupported registry := by
  refine List.mem_flatMap.mpr ⟨_, List.mem_append_left _ List.mem_cons_self, ?_⟩
  decide

/-- The event types that the subscription names are the supported ones that the query reads. -/
theorem mem_subscribeEventTypes (hsome : SomeSupported registry arguments) {row : Row} :
    ofText row.eventType ∈ subscribeEventTypes registry arguments.eventTypes ↔
      Supported registry row.eventType ∧ eventTypeFilter (arguments.eventTypes.getD []) row := by
  rw [subscribeEventTypes, eventTypeFilter]
  by_cases hnone : arguments.eventTypes.getD [] = []
  · have hkept : ofText "workflow_run" ∈
        (eventTypesSupported registry).filter (· ≠ agentMessage) :=
      List.mem_filter.mpr ⟨workflowRun_supported registry, by decide⟩
    rw [if_pos hnone, if_pos hnone]
    rw [if_neg (sortedSet_ne_nil hkept)]
    simp [Supported, agentMessage, ofText_inj]
  · obtain ⟨t, ht, hsupported⟩ := hsome.resolve_left hnone
    have hkept : ofText t ∈ ((arguments.eventTypes.getD []).map ofText).filter
        (· ∈ eventTypesSupported registry) :=
      List.mem_filter.mpr ⟨List.mem_map_of_mem ht, decide_eq_true hsupported⟩
    rw [if_neg hnone, if_neg hnone]
    rw [if_neg (sortedSet_ne_nil hkept)]
    simp [Supported, ofText_inj, and_comm]

theorem subscribeEventTypes_supported (registry : Registry) (eventTypes : Option (List String)) :
    subscribeEventTypes registry eventTypes ⊆ eventTypesSupported registry := by
  intro t ht
  rw [subscribeEventTypes] at ht
  split at ht
  · split at ht
    · exact mem_sortedSet.mp ht
    · exact (List.mem_filter.mp (mem_sortedSet.mp ht)).1
  · split at ht
    · exact mem_sortedSet.mp ht
    · exact of_decide_eq_true (List.mem_filter.mp (mem_sortedSet.mp ht)).2

theorem subscribeMessage_fields (registry : Registry) (arguments : TailArguments) :
    lookup "filters" (subscribeMessage registry arguments) =
        (splitRepo arguments.repo).map (fun repo =>
          .arr [.str (repo.1 ++ .scalar '/' :: repo.2)]) ∧
      lookup "event_types" (subscribeMessage registry arguments) =
        some (.arr ((subscribeEventTypes registry arguments.eventTypes).map .str)) ∧
      lookup "since" (subscribeMessage registry arguments) =
        arguments.sinceCursor.map fun since => .str (ofText since) := by
  rw [subscribeMessage]
  cases splitRepo arguments.repo with
  | none =>
    cases arguments.sinceCursor with
    | none => simp [lookup, ofText_inj]
    | some since => simp [lookup, ofText_inj]
  | some repo =>
    cases arguments.sinceCursor with
    | none => simp [lookup, ofText_inj]
    | some since => simp [lookup, ofText_inj]

theorem validateFields_ok {msg : List (PyStr × Value)} {sub : Subscription}
    (h : sub ∈ (validateFields registry msg).toOption) :
    validateSubscribeFilters (lookup "filters" msg) = .ok sub.filters ∧
      validateSubscribeEventTypes registry (lookup "event_types" msg) = .ok sub.eventTypes ∧
      validateSinceCursor (lookup "since" msg) = .ok sub.since := by
  unfold validateFields at h
  cases hfilters : validateSubscribeFilters (lookup "filters" msg) with
  | error e =>
    rw [hfilters] at h
    nomatch h
  | ok filters =>
    rw [hfilters] at h
    cases htypes : validateSubscribeEventTypes registry (lookup "event_types" msg) with
    | error e =>
      rw [htypes] at h
      nomatch h
    | ok eventTypes =>
      rw [htypes] at h
      cases hsince : validateSinceCursor (lookup "since" msg) with
      | error e =>
        rw [hsince] at h
        nomatch h
      | ok since =>
        rw [hsince] at h
        cases henvelope : validateSubscribeEnvelope (lookup "envelope" msg) with
        | error e =>
          rw [henvelope] at h
          nomatch h
        | ok =>
          rw [henvelope] at h
          obtain rfl := Option.some.inj h
          exact ⟨rfl, rfl, rfl⟩

theorem asked_filters (h : Asked registry arguments c) : c.sub.filters.map ofText =
    [((splitRepo arguments.repo).map fun repo => repo.1 ++ .scalar '/' :: repo.2).getD
      (ofText "*")] := by
  obtain ⟨sub, hvalid, hfilters, -, -⟩ := h
  obtain ⟨hsent, -, -⟩ := validateFields_ok hvalid
  rw [(subscribeMessage_fields registry arguments).1] at hsent
  rw [← hfilters]
  cases hsplit : splitRepo arguments.repo with
  | none =>
    rw [hsplit] at hsent
    exact (Except.ok.inj hsent).symm
  | some repo =>
    rw [hsplit, Option.map_some, validateSubscribeFilters,
      if_neg (by simp [maxFiltersPerSubscriber]), checkFilters] at hsent
    split at hsent
    · exact (Except.ok.inj hsent).symm
    · cases hsent

theorem validateSubscribeEventTypes_supported {texts : List PyStr}
    (h : texts ⊆ eventTypesSupported registry) :
    validateSubscribeEventTypes registry (some (.arr (texts.map .str))) =
      if texts = [] then .error .noEventTypes else .ok texts := by
  have hall : texts.filterMap (fun t =>
      if t ∈ eventTypesSupported registry then some t else none) = texts :=
    (List.filterMap_congr fun t ht => if_pos (h ht)).trans (List.filterMap_some ..)
  simp only [validateSubscribeEventTypes, List.filterMap_map, Function.comp_def, hall]

theorem asked_eventTypes (h : Asked registry arguments c) :
    c.sub.eventTypes.map ofText = subscribeEventTypes registry arguments.eventTypes := by
  obtain ⟨sub, hvalid, -, htypes, -⟩ := h
  obtain ⟨-, hsent, -⟩ := validateFields_ok hvalid
  rw [(subscribeMessage_fields registry arguments).2.1,
    validateSubscribeEventTypes_supported (subscribeEventTypes_supported _ _)] at hsent
  rw [← htypes]
  split at hsent
  · nomatch hsent
  · exact (Except.ok.inj hsent).symm

theorem asked_since (h : Asked registry arguments c) :
    arguments.sinceCursor = c.since.map (·.val) := by
  obtain ⟨sub, hvalid, -, -, hsince⟩ := h
  obtain ⟨-, -, hsent⟩ := validateFields_ok hvalid
  rw [(subscribeMessage_fields registry arguments).2.2, hsince] at hsent
  cases hcursor : arguments.sinceCursor with
  | none =>
    rw [hcursor] at hsent
    cases hid : c.since with
    | none => rfl
    | some id =>
      rw [hid] at hsent
      cases hsent
  | some since =>
    rw [hcursor, Option.map_some, validateSinceCursor] at hsent
    split at hsent
    · cases hid : c.since with
      | none =>
        rw [hid] at hsent
        cases hsent
      | some id =>
        rw [hid] at hsent
        exact congrArg some (ofText_inj.mp (Option.some.inj (Except.ok.inj hsent)))
    · cases hsent

theorem splitRepo_some {repo : Option PyStr} {split : PyStr × PyStr}
    (h : splitRepo repo = some split) : .scalar '/' ∉ split.1 ∧ .scalar '/' ∉ split.2 := by
  unfold splitRepo at h
  split at h
  · rename_i owner name hsegments
    split at h
    · obtain rfl := Option.some.inj h
      obtain ⟨path, -, hpair⟩ := Option.map_eq_some_iff.mp hsegments
      obtain ⟨howner, hname, -⟩ := segments_eq_pair.mp hpair
      exact ⟨howner, hname⟩
    · nomatch h
  · nomatch h

theorem ofText_slash (owner rest : String) :
    ofText (owner ++ "/" ++ rest) = ofText owner ++ .scalar '/' :: ofText rest := by
  simp [ofText]

theorem filter_matches {f : String} {split : PyStr × PyStr} {row : Row}
    (hf : ofText f = split.1 ++ .scalar '/' :: split.2)
    (hslash : .scalar '/' ∉ split.1 ∧ .scalar '/' ∉ split.2) (hone : split.2 ≠ ofText "*") :
    (f = "*" ∨ f = row.owner ++ "/" ++ row.repo ∨ f = row.owner ++ "/*") ↔
      ofRepo split row = true := by
  have hparts : ∀ rest, f = row.owner ++ "/" ++ rest ↔
      ofText row.owner = split.1 ∧ ofText rest = split.2 := by
    intro rest
    rw [← ofText_inj, hf, ofText_slash, List.append_cons_inj_of_notMem hslash.1 hslash.2]
    exact ⟨fun h => ⟨h.1.symm, h.2.2.symm⟩, fun h => ⟨h.1.symm, rfl, h.2.symm⟩⟩
  have hstar : f ≠ "*" := by
    rintro rfl
    have hmem : PyChar.scalar '/' ∈ ofText "*" := by
      rw [hf]
      exact List.mem_append_right _ List.mem_cons_self
    exact absurd hmem (by decide)
  have hwhole : f ≠ row.owner ++ "/*" := by
    intro heq
    rw [show row.owner ++ "/*" = row.owner ++ "/" ++ "*" from by rw [String.append_assoc]; rfl]
      at heq
    exact hone ((hparts "*").mp heq).2.symm
  rw [or_iff_right hstar, or_iff_left hwhole, hparts, ofRepo, decide_eq_true_iff]

/-- A row passes the subscription just where the query reads it and its type is supported. -/
theorem wants_iff (h : Asked registry arguments c) (hone : OneRepo arguments)
    (hsome : SomeSupported registry arguments) (row : Row) : wants c row ↔
      ((splitRepo arguments.repo).map fun repo => ofRepo repo row).getD true = true ∧
        eventTypeFilter (arguments.eventTypes.getD []) row = true ∧
        Supported registry row.eventType := by
  have htype : row.eventType ∈ c.sub.eventTypes ↔ Supported registry row.eventType ∧
      eventTypeFilter (arguments.eventTypes.getD []) row = true := by
    rw [← mem_subscribeEventTypes hsome, ← asked_eventTypes h]
    refine ⟨fun hmem => List.mem_map_of_mem hmem, fun hmem => ?_⟩
    obtain ⟨t, ht, hsame⟩ := List.mem_map.mp hmem
    exact ofText_inj.mp hsame ▸ ht
  obtain ⟨f, hfilters, hf⟩ : ∃ f, c.sub.filters = [f] ∧ ofText f =
      ((splitRepo arguments.repo).map fun repo => repo.1 ++ .scalar '/' :: repo.2).getD
        (ofText "*") := by
    obtain ⟨f, rest, hfilters, hf, hrest⟩ := List.map_eq_cons_iff.mp (asked_filters h)
    rw [List.map_eq_nil_iff.mp hrest] at hfilters
    exact ⟨f, hfilters, hf⟩
  have hrepo : (f = "*" ∨ f = row.owner ++ "/" ++ row.repo ∨ f = row.owner ++ "/*") ↔
      ((splitRepo arguments.repo).map fun repo => ofRepo repo row).getD true = true := by
    cases hsplit : splitRepo arguments.repo with
    | none =>
      rw [hsplit] at hf
      exact iff_of_true (.inl (ofText_inj.mp hf)) rfl
    | some split =>
      rw [hsplit] at hf
      exact filter_matches hf (splitRepo_some hsplit) (hone split hsplit)
  rw [wants, Subscriber.matches, hfilters, ← hrepo, and_comm (a := eventTypeFilter _ _ = true),
    ← htype, and_comm]
  simp [or_assoc]

end Filters

section Sources

variable {R : Runtime} {store : Store} {cursor : Nat} {c c' : Conn}

/-- What a row has to be to reach a connection: wanted, and committed above where it begins. -/
structure Selected (store : Store) (c : Conn) (row : Row) : Prop where
  stored : row ∈ store.fanOutable
  wanted : wants c row
  joined : c.since = none → c.joinedAt < row.seq
  resumed : ∀ id ∈ c.since, ∀ u ∈ c.untilSeq, store.seqForEventId id.val < row.seq

/-- What a connection holds was selected for it. -/
structure Sourced (store : Store) (cursor : Nat) (c : Conn) : Prop where
  joinedAt_le : c.joinedAt ≤ cursor
  unbounded : c.since = none → c.untilSeq = none
  placed : ∀ id ∈ c.since, ∀ u ∈ c.untilSeq, store.seqForEventId id.val ≤ u
  sources : ∀ blob ∈ c.sub.handed ++ buffer c, ∀ row ∈ blob.row, Selected store c row

/-- The second connection has the subscription of the first. -/
structure SameRequest (c c' : Conn) : Prop where
  matches_eq : c'.sub.matches = c.sub.matches
  since : c'.since = c.since
  untilSeq : c'.untilSeq = c.untilSeq
  joinedAt : c'.joinedAt = c.joinedAt

theorem SameRequest.selected (hs : SameRequest c c') {row : Row} (h : Selected store c row) :
    Selected store c' row where
  stored := h.stored
  wanted := by
    rw [wants, hs.matches_eq]
    exact h.wanted
  joined := by
    rw [hs.since, hs.joinedAt]
    exact h.joined
  resumed := by
    rw [hs.since, hs.untilSeq]
    exact h.resumed

theorem Sourced.more (h : Sourced store cursor c) (hs : SameRequest c c')
    (hmore : ∀ blob ∈ c'.sub.handed ++ buffer c', blob ∈ c.sub.handed ++ buffer c ∨
      ∀ row ∈ blob.row, Selected store c row) : Sourced store cursor c' where
  joinedAt_le := by
    rw [hs.joinedAt]
    exact h.joinedAt_le
  unbounded := by
    rw [hs.since, hs.untilSeq]
    exact h.unbounded
  placed := by
    rw [hs.since, hs.untilSeq]
    exact h.placed
  sources := by
    intro blob hblob row hrow
    rcases hmore blob hblob with hold | hnew
    · exact hs.selected (h.sources blob hold row hrow)
    · exact hs.selected (hnew row hrow)

theorem Sourced.same (h : Sourced store cursor c) (hs : SameEvents c c') :
    Sourced store cursor c' := by
  obtain ⟨control, hhanded, hcontrol⟩ := hs.handed
  refine h.more ⟨hs.matches_eq, hs.since, hs.untilSeq, hs.joinedAt⟩ fun blob hblob => ?_
  rw [hhanded, hs.buffer_eq, List.append_assoc, List.mem_append, List.mem_append] at hblob
  rcases hblob with hblob | hblob | hblob
  · exact .inl (List.mem_append_left _ hblob)
  · rw [row_none_of_seqs hcontrol hblob]
    exact .inr fun row hrow => absurd hrow (Option.not_mem_none row)
  · exact .inl (List.mem_append_right _ hblob)

theorem Sourced.turn {hub : Hub} {row : Row} {bytes : Bytes}
    (h : Sourced hub.store hub.cursor c) (ho : Ordered hub.cursor c) (hnext : hub.Next row) :
    Sourced hub.store row.seq (c.sendEach R .lagLimitExceeded (offer row ⟨bytes, some row⟩)) := by
  obtain ⟨hcursor, hstored⟩ := hnext.lt
  have hlater : Sourced hub.store row.seq c :=
    ⟨h.joinedAt_le.trans hcursor.le, h.unbounded, h.placed, h.sources⟩
  simp only [Conn.sendEach]
  split
  swap
  · exact hlater
  have hsent : Sourced hub.store row.seq
      { c with sub := (offer row ⟨bytes, some row⟩ c.sub).2 } := by
    have hmatch := (offer_frame row ⟨bytes, some row⟩ c.sub).1
    refine hlater.more ⟨hmatch, rfl, rfl, rfl⟩ fun blob hblob => ?_
    rcases mem_offer hblob with hold | ⟨hrow, hw, hwatermark⟩
    · exact .inl hold
    · have habove := (ho.below hcursor hwatermark).2
      refine .inr fun r hr => ?_
      obtain rfl : row = r := Option.some.inj (hrow.symm.trans hr)
      exact {
        stored := hstored
        wanted := hw
        joined := fun _ => lt_of_le_of_lt h.joinedAt_le hcursor
        resumed := fun id hid u hu => lt_of_le_of_lt (h.placed id hid u hu) (habove u hu) }
  split
  · exact hsent.same (evict_same _ _)
  · exact hsent

theorem drainPreAck_request (c : Conn) : SameRequest c c.drainPreAck.1 := by
  obtain ⟨sub, -, henv, -, -, ⟨-, heq⟩ | heq⟩ := drainPreAck_spec c <;> rw [heq] <;>
    exact ⟨henv.matches_eq, rfl, rfl, rfl⟩

theorem Sourced.replay (h : Sourced store cursor c) {since : Ulid} (hsince : c.since = some since)
    {outcome : Replayed} {sub : Subscriber}
    (heq : replayRows R (store.iterEventsAbove (store.seqForEventId since.val) c.untilSeq
      replayLimit) c.sub = (outcome, sub)) (task : Task) :
    Sourced store cursor { c with sub, task } := by
  have henv := (replayRows_spec (R := R)
    (store.iterEventsAbove (store.seqForEventId since.val) c.untilSeq replayLimit) c.sub).1
  rw [heq] at henv
  refine h.more ⟨henv.matches_eq, rfl, rfl, rfl⟩ fun blob hblob => ?_
  rw [buffer, henv.preAckBuffer, List.mem_append] at hblob
  rcases hblob with hblob | hblob
  · have hsent : blob ∈ (replayRows R (store.iterEventsAbove
        (store.seqForEventId since.val) c.untilSeq replayLimit) c.sub).2.handed := by rwa [heq]
    rcases mem_replayRows _ _ hsent with hblob | ⟨row, hwindow, hrow, hw⟩
    · exact .inl (List.mem_append_left _ hblob)
    · obtain ⟨hstored, habove, -⟩ := Store.mem_iterEventsAbove hwindow
      refine .inr fun r hr => ?_
      obtain rfl : row = r := Option.some.inj (hrow.symm.trans hr)
      exact {
        stored := hstored
        wanted := hw
        joined := fun hnone => absurd (hsince.symm.trans hnone) (Option.some_ne_none _)
        resumed := fun id hid _ _ => by
          rwa [Option.some.inj (hid.symm.trans hsince)] }
  · exact .inl (List.mem_append_right _ hblob)

theorem Sourced.resume (h : Sourced store cursor c) {fault : Bool}
    {r : Conn × Option CloseReason} (hr : c.resume R store fault = some r) :
    Sourced store cursor r.1 := by
  have hquit : ∀ task, Sourced store cursor { c with task } :=
    fun task => h.more ⟨rfl, rfl, rfl, rfl⟩ fun blob hblob => .inl hblob
  have hdrain : ∀ c : Conn, Sourced store cursor c → Sourced store cursor c.drainPreAck.1 :=
    fun c h => h.more (drainPreAck_request c) fun blob hblob => .inl (mem_drainPreAck hblob)
  cases resume_cases hr with
  | ackFailed | faulted => exact hquit _
  | live => exact hdrain c h
  | replayed _ hsince heq => exact hdrain _ (h.replay hsince heq c.task)
  | lagged _ hsince heq | raised _ hsince heq => exact h.replay hsince heq _

theorem seqForEventId_le_snapshot (store : Store) (id : Ulid) :
    store.seqForEventId id.val ≤ store.currentMaxSnapshot.1 := by
  unfold Store.seqForEventId
  split
  · exact Nat.zero_le _
  · cases hfind : store.rows.find? fun row => row.eventId.map (·.val) = some id.val with
    | none => exact Nat.zero_le _
    | some row =>
      have hid : row.eventId.map (·.val) = some id.val := by
        simpa using List.find?_some hfind
      refine Store.seq_le_snapshot (Store.mem_fanOutable.mpr ⟨List.mem_of_find?_eq_some hfind, ?_⟩)
      rw [← Option.isSome_map, hid]
      rfl

theorem Sourced.join {hub : Hub} {env : Daemon.Envelope} {fault : Bool} :
    Sourced hub.store hub.cursor (hub.register R env fault) := by
  have hplaced : ∀ id : Ulid, ∀ u ∈ (if env.since.isSome then
      some hub.store.currentMaxSnapshot.1 else none), hub.store.seqForEventId id.val ≤ u := by
    intro id u hu
    split at hu
    · rw [← Option.some.inj hu]
      exact seqForEventId_le_snapshot _ id
    · nomatch hu
  have hunbounded : env.since = none → (if env.since.isSome then
      some hub.store.currentMaxSnapshot.1 else none) = none := by
    intro hnone
    rw [hnone]
    rfl
  simp only [Hub.register]
  split
  · exact ⟨le_refl _, fun _ => rfl, fun _ _ u hu => absurd hu (Option.not_mem_none u),
      fun blob hblob => absurd hblob List.not_mem_nil⟩
  · split
    · exact ⟨le_refl _, hunbounded, fun id _ u hu => hplaced id u hu,
        fun blob hblob => absurd hblob List.not_mem_nil⟩
    · exact ⟨le_refl _, hunbounded, fun id _ u hu => hplaced id u hu,
        fun blob hblob => absurd hblob List.not_mem_nil⟩

theorem seqForEventId_insertAll {t : Store} {batch : List (EventInsert × Ulid)} {count : Nat}
    (h : store.insertAll batch = .ok (count, t)) {id : Ulid} (hid : id ∉ batch.map (·.2)) :
    t.seqForEventId id.val = store.seqForEventId id.val := by
  obtain ⟨new, hrows, -, hnew⟩ := insertAll_new h
  have hnone : (new.find? fun row => row.eventId.map (·.val) = some id.val) = none := by
    refine List.find?_eq_none.mpr fun row hrow hsame => hid ?_
    obtain ⟨entry, hentry, stored, hstored, heq⟩ := hnew row hrow
    obtain ⟨runId, receivedAt, jobId, parentRunId, -, -, -, -, rfl⟩ := event_row hstored
    rw [heq] at hsame
    have hval : entry.2.val = id.val := by simpa using hsame
    exact Subtype.ext hval ▸ List.mem_map_of_mem hentry
  rw [Store.seqForEventId, Store.seqForEventId, hrows, List.find?_append, hnone, Option.or_none]

theorem Sourced.grows {t : Store} {batch : List (EventInsert × Ulid)} {count : Nat}
    (h : Sourced store cursor c) (hall : store.insertAll batch = .ok (count, t))
    (hids : ∀ id ∈ c.since, id ∉ batch.map (·.2)) : Sourced t cursor c where
  joinedAt_le := h.joinedAt_le
  unbounded := h.unbounded
  placed := by
    intro id hid u hu
    rw [seqForEventId_insertAll hall (hids id hid)]
    exact h.placed id hid u hu
  sources := by
    intro blob hblob row hrow
    have hold := h.sources blob hblob row hrow
    exact {
      stored := (insertAll_grows hall).fanOutable_subset hold.stored
      wanted := hold.wanted
      joined := hold.joined
      resumed := fun id hid u hu => by
        rw [seqForEventId_insertAll hall (hids id hid)]
        exact hold.resumed id hid u hu }

theorem sourced_invariant : ConnInvariant R IdsUnasked fun store cursor c =>
    Ordered cursor c ∧ Sourced store cursor c where
  grows _ hok hall hc h := ⟨h.1, h.2.grows hall (hok _ hc)⟩
  pass _ _ hwf _ hQ := pass_of_turn
    (Q := fun store cursor c => Ordered cursor c ∧ Sourced store cursor c)
    (fun _ hnext _ _ h => ⟨h.1.turn hnext.lt.1 _, h.2.turn h.1 hnext⟩) _ _ hwf hQ
  beat _ _ _ _ h := ⟨h.1.same (beat_same _ _), h.2.same (beat_same _ _)⟩
  join _ _ _ := ⟨.join, .join⟩
  ackSend _ _ _ hsend h := ⟨h.1.same (ackSend_same hsend), h.2.same (ackSend_same hsend)⟩
  ackTimeout _ _ _ hsend h :=
    ⟨h.1.same (ackTimeout_same hsend), h.2.same (ackTimeout_same hsend)⟩
  resume _ _ _ hr h :=
    ⟨(h.1.resume hr).same (settle_same _ _), (h.2.resume hr).same (settle_same _ _)⟩
  writable _ _ _ hsend h := ⟨h.1.same (writable_same hsend), h.2.same (writable_same hsend)⟩
  cancel h := ⟨h.1.same (cancel_same _), h.2.same (cancel_same _)⟩
  shut h := ⟨h.1.same (settle_same _ _), h.2.same (settle_same _ _)⟩

end Sources

section Runs

variable {R : Runtime} {registry : SourceRegistry.Registry} {arguments : TailArguments} {hub : Hub}
  {c : Conn}

theorem mem_queried (h : Asked registry arguments c) (hone : OneRepo arguments)
    (hsome : SomeSupported registry arguments) {store : Store} {row : Row} :
    row ∈ queried store arguments ∧ Supported registry row.eventType ↔
      row ∈ store.fanOutable ∧ wants c row ∧
        ∀ id ∈ c.since, store.seqForEventId id.val < row.seq := by
  have hplace : row ∈ store.fanOutable →
      (store.seqForEventId (arguments.sinceCursor.getD "") < row.seq ↔
        ∀ id ∈ c.since, store.seqForEventId id.val < row.seq) := by
    intro hrow
    rw [asked_since h]
    cases c.since with
    | none =>
      have hpos := (store.bounded row (Store.mem_fanOutable.mp hrow).1).1
      exact iff_of_true hpos fun id hid => absurd hid (Option.not_mem_none id)
    | some id => exact ⟨fun hlt id' hid => Option.some.inj hid ▸ hlt, fun hall => hall id rfl⟩
  rw [wants_iff h hone hsome, queried, List.mem_filter, Bool.and_eq_true, Bool.and_eq_true,
    decide_eq_true_iff]
  constructor
  · rintro ⟨⟨hrow, ⟨hlt, hrepo⟩, htype⟩, hsupported⟩
    exact ⟨hrow, ⟨hrepo, htype, hsupported⟩, (hplace hrow).mp hlt⟩
  · rintro ⟨hrow, ⟨hrepo, htype, hsupported⟩, hall⟩
    exact ⟨⟨hrow, ⟨(hplace hrow).mpr hall, hrepo⟩, htype⟩, hsupported⟩

/-- What wakes the wait is what the query reads, and what the query reads of the supported event
types wakes it as far as the passes have come: with a cursor all of it, and without one what is
above the daemon's place at the registration. -/
theorem long_poll_agrees (h : Reach (hubSystem R) Undisturbed hub) (hc : c ∈ hub.conns)
    (hreg : c.registered = true) (hserved : c.task = .served) (hasked : Asked registry arguments c)
    (hone : OneRepo arguments) (hsome : SomeSupported registry arguments) :
    (∀ blob ∈ c.sub.handed, ∀ row ∈ blob.row, row ∈ queried hub.store arguments) ∧
      ∀ row ∈ queried hub.store arguments, row.seq ≤ hub.cursor →
        (Holds R c.sub.handed row ↔ Supported registry row.eventType ∧
          (arguments.sinceCursor = none → c.joinedAt < row.seq)) := by
  have hcovered := h.mono fun hub label hok => hok.1
  obtain ⟨hordered, hsourced⟩ := sourced_invariant.reach (h.mono fun hub label hok => hok.2) c hc
  have hmem : ∀ {row}, row ∈ queried hub.store arguments ∧ Supported registry row.eventType ↔ _ :=
    mem_queried hasked hone hsome
  have hselected : ∀ blob ∈ c.sub.handed, ∀ row ∈ blob.row,
      (row ∈ queried hub.store arguments ∧ Supported registry row.eventType) ∧
        (c.since = none → c.joinedAt < row.seq) := by
    intro blob hblob row hrow
    have hsource := hsourced.sources blob (List.mem_append_left _ hblob) row hrow
    refine ⟨hmem.mpr ⟨hsource.stored, hsource.wanted, fun id hid => ?_⟩, hsource.joined⟩
    obtain ⟨u, hu⟩ := Option.isSome_iff_exists.mp
      (hordered.snapshot (.inr hserved) (Option.isSome_of_mem hid))
    exact hsource.resumed id hid u hu
  have hcursor : arguments.sinceCursor = none ↔ c.since = none := by
    rw [asked_since hasked, Option.map_eq_none_iff]
  refine ⟨fun blob hblob row hrow => (hselected blob hblob row hrow).1.1, fun row hrow hle => ?_⟩
  rw [hcursor]
  constructor
  · rintro ⟨blob, hblob, hheld, -⟩
    exact ⟨(hselected blob hblob row hheld).1.2, (hselected blob hblob row hheld).2⟩
  · rintro ⟨hsupported, hjoined⟩
    obtain ⟨hstored, hwanted, hplace⟩ := hmem.mp ⟨hrow, hsupported⟩
    cases hsince : c.since with
    | some id =>
      exact replay_complete hcovered hc hreg hserved hsince row hstored hwanted
        (hplace id hsince) hle
    | none =>
      have hcomplete := (complete_invariant.reach hcovered c hc).2
      have hbase : base c < row.seq := by
        rw [base, hsourced.unbounded hsince]
        exact hjoined hsince
      have hheld := hcomplete.live hreg (.inr hserved) row hstored hwanted hbase hle
      rwa [buffer, hcomplete.drained hserved, Option.getD_none, List.append_nil] at hheld

end Runs

section Samples

instance (hub : Hub) : ∀ label, Decidable (Undisturbed hub label)
  | .commit batch => inferInstanceAs (Decidable (ReplaysCover hub (.commit batch) ∧
      ∀ c ∈ hub.conns, ∀ id ∈ c.since, id ∉ batch.map (·.2)))
  | .broadcastPass _ | .heartbeat _ _ | .subscribe _ _ | .ackSend _ | .ackTimeout _ | .resume _ _
  | .writable _ | .cancelHandshakes | .shutdown _ => inferInstanceAs (Decidable (_ ∧ True))

instance (registry : SourceRegistry.Registry) (eventType : String) :
    Decidable (Supported registry eventType) :=
  inferInstanceAs (Decidable (_ ∈ _))

def sampleArguments (since : Option String) (eventTypes : List String) : TailArguments :=
  ⟨some (ofText "local/agents"), since, ⟨100, by decide⟩, 5, some eventTypes⟩

instance (registry : SourceRegistry.Registry) (arguments : TailArguments) (c : Conn) :
    Decidable (Asked registry arguments c) :=
  inferInstanceAs (Decidable (∃ sub ∈ (validateFields registry _).toOption, _ ∧ _ ∧ _))

theorem sample_oneRepo (since : Option String) (eventTypes : List String) :
    OneRepo (sampleArguments since eventTypes) := by
  intro repo hrepo
  obtain rfl := Option.some.inj hrepo
  decide

/-- A message is committed before the handshake ends, and wakes the wait. -/
def sampleWake : List Label :=
  [.subscribe (sampleEnvelope 3 [] (some (ulidAt 9))) false, .ackSend 0,
    .commit [(sampleEvent 2, ulidAt 2)], .resume 0 false, .broadcastPass false]

theorem long_poll_agrees_run : ∃ (hub : Hub) (c : Conn) (row : Row),
    row ∈ queried hub.store (sampleArguments (some (ulidAt 9).val) ["agent_message"]) ∧
      row.seq = 2 ∧ Holds .reference c.sub.handed row := by
  obtain ⟨hub, hrun, c, hc, hreg, hserved, hasked, row, hrow, hseq, hle, hsupported⟩ :
      ∃ hub ∈ (hubSystem .reference).exec (Hub.seeded (sampleStore 1)) sampleWake,
      ∃ c ∈ hub.conns, c.registered = true ∧ c.task = .served ∧
      Asked .empty (sampleArguments (some (ulidAt 9).val) ["agent_message"]) c ∧
      ∃ row ∈ queried hub.store (sampleArguments (some (ulidAt 9).val) ["agent_message"]),
      row.seq = 2 ∧ row.seq ≤ hub.cursor ∧ Supported .empty row.eventType := by
    decide +kernel
  have hstart : Reach (hubSystem .reference) Undisturbed (Hub.seeded (sampleStore 1)) :=
    .start (seeded_init _ _)
  have hagrees := long_poll_agrees (hstart.exec hrun (by decide +kernel)) hc hreg hserved hasked
    (sample_oneRepo _ _) (.inr ⟨"agent_message", List.mem_singleton_self _, by decide +kernel⟩)
  exact ⟨hub, c, row, hrow, hseq, (hagrees.2 row hrow hle).mpr ⟨hsupported, nofun⟩⟩

def sampleMissed : List Label :=
  [.commit [(sampleEvent 1, ulidAt 1)], .broadcastPass false,
    .subscribe (sampleEnvelope 3 [] none) false, .ackSend 0, .resume 0 false]

/-- The subscription of a wait for event types of which none is supported. -/
def sampleEverything : Daemon.Envelope :=
  { sampleEnvelope 3 [] none with
    eventTypes := ["agent_claim", "agent_message", "agent_task_failed", "docker_container",
      "fs_change", "prometheus_alert", "prometheus_watchdog", "pytest_session", "workflow_job",
      "workflow_run"] }

def sampleWoken : List Label :=
  [.subscribe sampleEverything false, .ackSend 0, .resume 0 false,
    .commit [(sampleEvent 1, ulidAt 1)], .broadcastPass false]

/-- After a first read of an empty table a wait without a cursor misses a message that the query
reads, and a wait for an unsupported event type is woken by one that it does not read. -/
theorem long_poll_disagrees :
    (tailRows .empty (sampleArguments none ["agent_message"]) = [] ∧
      ∃ hub c row, (hubSystem .reference).exec (Hub.seeded .empty) sampleMissed = some hub ∧
        c ∈ hub.conns ∧ c.registered = true ∧ c.task = .served ∧
        Asked .empty (sampleArguments none ["agent_message"]) c ∧
        row ∈ queried hub.store (sampleArguments none ["agent_message"]) ∧
        row.seq ≤ hub.cursor ∧ ¬Holds .reference c.sub.handed row) ∧
      tailRows .empty (sampleArguments none ["push"]) = [] ∧
      ∃ hub c blob row, (hubSystem .reference).exec (Hub.seeded .empty) sampleWoken = some hub ∧
        c ∈ hub.conns ∧ c.registered = true ∧ c.task = .served ∧
        Asked .empty (sampleArguments none ["push"]) c ∧ blob ∈ c.sub.handed ∧
        blob.row = some row ∧ row ∉ queried hub.store (sampleArguments none ["push"]) := by
  refine ⟨⟨by decide +kernel, ?_⟩, by decide +kernel, ?_⟩
  · obtain ⟨hub, hrun, c, hc, hreg, hserved, hasked, row, hrow, hle, hno⟩ :
        ∃ hub ∈ (hubSystem .reference).exec (Hub.seeded .empty) sampleMissed,
        ∃ c ∈ hub.conns, c.registered = true ∧ c.task = .served ∧
        Asked .empty (sampleArguments none ["agent_message"]) c ∧
        ∃ row ∈ queried hub.store (sampleArguments none ["agent_message"]),
        row.seq ≤ hub.cursor ∧ ∀ blob ∈ c.sub.handed, blob.row.map (·.seq) ≠ some row.seq := by
      decide +kernel
    refine ⟨hub, c, row, hrun, hc, hreg, hserved, hasked, hrow, hle, ?_⟩
    rintro ⟨blob, hblob, hheld, -⟩
    exact hno blob hblob (by rw [hheld]; rfl)
  · obtain ⟨hub, hrun, c, hc, hreg, hserved, hasked, hnone, blob, hblob, hevent⟩ :
        ∃ hub ∈ (hubSystem .reference).exec (Hub.seeded .empty) sampleWoken,
        ∃ c ∈ hub.conns, c.registered = true ∧ c.task = .served ∧
        Asked .empty (sampleArguments none ["push"]) c ∧
        queried hub.store (sampleArguments none ["push"]) = [] ∧
        ∃ blob ∈ c.sub.handed, blob.row.isSome := by
      decide +kernel
    obtain ⟨row, hrow⟩ := Option.isSome_iff_exists.mp hevent
    refine ⟨hub, c, blob, row, hrun, hc, hreg, hserved, hasked, hblob, hrow, ?_⟩
    rw [hnone]
    exact List.not_mem_nil

end Samples

end Waitbus.LongPoll
