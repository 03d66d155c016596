import Mathlib
import Waitbus.Await
import Waitbus.Envelope
import Waitbus.FrameReaders
import Waitbus.JsonDumps
import Waitbus.Subscriptions

/-! Both ends of a subscription: the frame that `open_subscriber` sends for its arguments, the
bookmark file among them, and the subscription that the daemon makes of that frame. -/

namespace Waitbus.Subscribing
open Python Json FrameCodec FrameReaders SourceRegistry Envelope Await

section Client

abbrev Cursors := String → Option Bytes

structure Request where
  filters : Option (List String)
  eventTypes : Option (List String)
  since : Option String
  bookmark : Option String

/-- What becomes of the calls on the socket. -/
inductive Dial where
  | unavailable
  | sendFails
  | sends
  deriving DecidableEq

inductive Refusal where
  | emptyName
  | badName
  | undecodable
  | connectionError
  | raised (exc : PyExc)
  deriving DecidableEq

def validateName (name : String) : Except Refusal Unit :=
  if name = "" then .error .emptyName
  else if lineMatch (fun s => s ≠ [] && s.all isNameChar) (ofText name) then .ok ()
  else .error .badName

/-- `BookmarkCursor.load`. -/
def loadCursor (cursors : Cursors) (name : String) : Except Refusal (Option PyStr) :=
  match cursors name with
  | none => .ok none
  | some bytes =>
    match decodeUtf8 bytes with
    | none => .error .undecodable
    | some text => .ok (load (ofText text))

/-- The cursor of `BookmarkCursor.resolve_since`. -/
def resolveSince (cursors : Cursors) (explicit name : Option String) :
    Except Refusal (Option PyStr) :=
  match explicit, name with
  | some since, _ => .ok (some (ofText since))
  | none, some name => do
    validateName name
    loadCursor cursors name
  | none, none => .ok none

def texts (l : List String) : Value :=
  .arr (l.map fun s => .str (ofText s))

/-- The object `subscribe`. -/
def subscribe (request : Request) (since : Option PyStr) : List (PyStr × Value) :=
  (ofText "proto", .int Envelope.frameProtoVersion) ::
    (request.filters.map fun l => (ofText "filters", texts l)).toList ++
    (request.eventTypes.map fun l => (ofText "event_types", texts l)).toList ++
    (since.map fun s => (ofText "since", .str s)).toList

/-- `encode_frame(json.dumps(message).encode("utf-8"))`. -/
def sentFrame (message : List (PyStr × Value)) : Except PyExc Bytes :=
  encodeFrame (utf8 (dumps none (.obj message)))

/-- `open_subscriber`, up to the bytes that it has sent. The encoding is no `OSError` when it
fails. -/
def openSubscriber (cursors : Cursors) (dial : Dial) (request : Request) :
    Except Refusal Bytes := do
  let since ← resolveSince cursors request.since request.bookmark
  if dial = .unavailable then throw .connectionError
  match sentFrame (subscribe request since) with
  | .error exc => throw (.raised exc)
  | .ok blob => if dial = .sendFails then throw .connectionError else return blob

/-- The text as the file of a bookmark has it; a lone surrogate cannot be written. -/
def encoded (s : PyStr) : Option Bytes :=
  (s.mapM PyChar.toScalar).map utf8

/-- `BookmarkCursor.advance`; `none` is the exception of a text that cannot be encoded. -/
def advance (name : String) (cursors : Cursors) (frame : Value) : Option Cursors :=
  match cursorId frame with
  | none => some cursors
  | some id => (encoded id).map fun bytes => Function.update cursors name (some bytes)

end Client

section Reading

variable {registry : Registry} {depth : Nat} {request : Request} {since : Option PyStr}
  {sub : Subscription} {message : List (PyStr × Value)} {blob : Bytes}

/-- What the daemon is asked for, in its own terms. Unknown event types are dropped, and of the
filters and of the cursor it looks at the text before a line feed. -/
structure Understood (registry : Registry) (request : Request) (since : Option PyStr)
    (sub : Subscription) : Prop where
  few : (request.filters.getD []).length ≤ 64
  patterns : ∀ f ∈ request.filters.getD [], Filter (cutNewline (ofText f))
  filters_eq : sub.filters =
    if request.filters.getD [] = [] then [ofText "*"] else (request.filters.getD []).map ofText
  types_eq : sub.eventTypes = match request.eventTypes with
    | none => eventTypesSupported registry
    | some types => (types.map ofText).filter (· ∈ eventTypesSupported registry)
  supported : request.eventTypes.isSome → sub.eventTypes ≠ []
  since_eq : sub.since = since
  cursor : ∀ s ∈ since, Ulid (cutNewline s)

theorem lookup_subscribe (request : Request) (since : Option PyStr) :
    lookup "proto" (subscribe request since) = some (.int Envelope.frameProtoVersion) ∧
      lookup "filters" (subscribe request since) = request.filters.map texts ∧
      lookup "event_types" (subscribe request since) = request.eventTypes.map texts ∧
      lookup "since" (subscribe request since) = since.map .str ∧
      lookup "envelope" (subscribe request since) = none := by
  obtain ⟨filters, eventTypes, explicit, bookmark⟩ := request
  cases filters <;> cases eventTypes <;> cases since <;>
    simp [subscribe, lookup, ofText_inj]

theorem checkFilters_texts {l : List String} {out : List PyStr}
    (h : checkFilters (l.map fun s => .str (ofText s)) = .ok out) : out = l.map ofText := by
  induction l generalizing out with
  | nil =>
    cases h
    rfl
  | cons s rest ih =>
    rw [List.map_cons, checkFilters] at h
    split at h
    · cases hrest : checkFilters (rest.map fun s => .str (ofText s)) with
      | error e =>
        rw [hrest] at h
        cases h
      | ok out =>
        rw [hrest] at h
        cases h
        rw [ih hrest, List.map_cons]
    · cases h

theorem filters_texts (filters : Option (List String)) (out : List PyStr) :
    validateSubscribeFilters (filters.map texts) = .ok out ↔
      (filters.getD []).length ≤ 64 ∧ (∀ f ∈ filters.getD [], Filter (cutNewline (ofText f))) ∧
      out = if filters.getD [] = [] then [ofText "*"] else (filters.getD []).map ofText := by
  cases filters with
  | none => simp [validateSubscribeFilters, eq_comm]
  | some l =>
    have hok : (∃ found, checkFilters (l.map fun s => .str (ofText s)) = .ok found) ↔ _ :=
      checkFilters_ok
    rw [List.forall_mem_map] at hok
    simp only [Value.str.injEq, exists_eq_left'] at hok
    simp only [Option.map_some, texts, validateSubscribeFilters, Option.getD_some,
      List.length_map]
    by_cases hmany : maxFiltersPerSubscriber < l.length
    · rw [if_pos hmany]
      have hlength : ¬l.length ≤ 64 := not_le.mpr hmany
      simp [hlength]
    · rw [if_neg hmany, ← hok]
      have hlength : l.length ≤ 64 := not_lt.mp hmany
      cases hcheck : checkFilters (l.map fun s => .str (ofText s)) with
      | error e => simp [Except.map]
      | ok found =>
        rw [checkFilters_texts hcheck]
        simp [Except.map, hlength, eq_comm]

/-- The test of one item of `event_types`. -/
def accepts (registry : Registry) : Value → Option PyStr
  | .str t => if t ∈ eventTypesSupported registry then some t else none
  | _ => none

theorem validateSubscribeEventTypes_arr (items : List Value) :
    validateSubscribeEventTypes registry (some (.arr items)) =
      if items.filterMap (accepts registry) = [] then .error .noEventTypes
      else .ok (items.filterMap (accepts registry)) :=
  rfl

theorem eventTypes_texts (eventTypes : Option (List String)) (out : List PyStr) :
    validateSubscribeEventTypes registry (eventTypes.map texts) = .ok out ↔
      (out = match eventTypes with
        | none => eventTypesSupported registry
        | some types => (types.map ofText).filter (· ∈ eventTypesSupported registry)) ∧
      (eventTypes.isSome → out ≠ []) := by
  cases eventTypes with
  | none => simp [validateSubscribeEventTypes, eq_comm]
  | some types =>
    have haccepted : (types.map fun s => Value.str (ofText s)).filterMap (accepts registry) =
        (types.map ofText).filter (· ∈ eventTypesSupported registry) := by
      induction types with
      | nil => rfl
      | cons s rest ih =>
        rw [List.map_cons, List.map_cons, List.filterMap_cons, List.filter_cons, accepts, ih]
        by_cases hs : ofText s ∈ eventTypesSupported registry
        · simp [hs]
        · simp [hs]
    rw [Option.map_some, texts, validateSubscribeEventTypes_arr, haccepted]
    split
    · rename_i hnone
      simp [hnone]
    · rename_i hsome
      constructor
      · intro h
        cases h
        exact ⟨rfl, fun _ => hsome⟩
      · rintro ⟨rfl, -⟩
        rfl

theorem since_texts (since : Option PyStr) (out : Option PyStr) :
    validateSinceCursor (since.map .str) = .ok out ↔
      out = since ∧ ∀ s ∈ since, Ulid (cutNewline s) := by
  cases since with
  | none => simp [validateSinceCursor, eq_comm]
  | some s =>
    rw [Option.map_some, validateSinceCursor, lineMatch]
    split
    · rename_i hulid
      simp [isUlid_iff.mp hulid, eq_comm]
    · rename_i hulid
      have hno := mt isUlid_iff.mpr hulid
      simp [hno]

theorem validateFields_subscribe :
    validateFields registry (subscribe request since) = .ok sub ↔
      Understood registry request since sub := by
  obtain ⟨-, hfilters, htypes, hsince, henvelope⟩ := lookup_subscribe request since
  have hparts : validateFields registry (subscribe request since) = .ok sub ↔
      validateSubscribeFilters (request.filters.map texts) = .ok sub.filters ∧
      validateSubscribeEventTypes registry (request.eventTypes.map texts) = .ok sub.eventTypes ∧
      validateSinceCursor (since.map .str) = .ok sub.since := by
    rw [validateFields, hfilters, htypes, hsince, henvelope]
    obtain ⟨filters, eventTypes, cursor⟩ := sub
    cases validateSubscribeFilters (request.filters.map texts) with
    | error e => simp [bind, Except.bind]
    | ok filters =>
      cases validateSubscribeEventTypes registry (request.eventTypes.map texts) with
      | error e => simp [bind, Except.bind]
      | ok eventTypes =>
        cases validateSinceCursor (since.map .str) with
        | error e => simp [bind, Except.bind]
        | ok cursor => simp [bind, Except.bind, validateSubscribeEnvelope, pure, Except.pure]
  rw [hparts, filters_texts, eventTypes_texts, since_texts]
  constructor
  · rintro ⟨⟨hfew, hpatterns, hf⟩, ⟨ht, hsome⟩, hs, hcursor⟩
    exact ⟨hfew, hpatterns, hf, ht, hsome, hs, hcursor⟩
  · rintro ⟨hfew, hpatterns, hf, ht, hsome, hs, hcursor⟩
    exact ⟨⟨hfew, hpatterns, hf⟩, ⟨ht, hsome⟩, hs, hcursor⟩

/-- What arrives of an object that the daemon can decode, under the protocol that it supports. -/
theorem readSubscribe_sent (registry : Registry) (hlegible : (Value.obj message).Legible depth)
    (hproto : lookup "proto" message = some (.int Envelope.frameProtoVersion))
    (h : sentFrame message = .ok blob) (trailing : Bytes) :
    ∃ payload, nextFrame (blob ++ trailing) = .payload payload trailing ∧
      readSubscribe registry depth (some payload) =
        match validateFields registry message with
        | .error _ => .closed
        | .ok sub => .registered sub := by
  have hloads := loads_dumps none hlegible (List.forall_mem_nil fun c => isWhite c = true)
  rw [List.append_nil] at hloads
  have hdecoded : decoded depth (utf8 (dumps none (.obj message))) = some (.ok (.obj message)) := by
    rw [decoded, decodeUtf8_utf8, Option.map_some, hloads]
  have hne : utf8 (dumps none (.obj message)) ≠ [] := by
    intro hnil
    rw [hnil] at hdecoded
    cases hdecoded
  refine ⟨utf8 (dumps none (.obj message)), ?_, ?_⟩
  · rw [nextFrame_encodeFrame h, if_neg hne]
  · have hsupported : unsupportedProto (lookup "proto" message) = false := by
      rw [hproto]
      rfl
    rw [readSubscribe, recvSubscribeFrame, Option.bind_some, hdecoded]
    dsimp only
    rw [hsupported]
    cases validateFields registry message with
    | error e => rfl
    | ok sub => rfl

theorem legible_texts {room : Nat} (l : List String) : (texts l).Legible (room + 1) := by
  refine ⟨Nat.succ_pos _, ?_⟩
  induction l with
  | nil => exact trivial
  | cons s rest ih => exact ⟨scalar_ofText s, ih⟩

theorem legiblePairs_append {room : Nat} {front back : List (PyStr × Value)}
    (hfront : legiblePairs room front) (hback : legiblePairs room back) :
    legiblePairs room (front ++ back) := by
  induction front with
  | nil => exact hback
  | cons p rest ih => exact ⟨hfront.1, hfront.2.1, ih hfront.2.2⟩

theorem legiblePairs_field {α : Type*} {room : Nat} (key : String) {value : α → Value}
    {field : Option α} (h : ∀ a ∈ field, (value a).Legible room) :
    legiblePairs room (field.map fun a => (ofText key, value a)).toList := by
  cases field with
  | none => exact trivial
  | some a => exact ⟨scalar_ofText key, h a rfl, trivial⟩

theorem legible_subscribe (request : Request) (hdepth : 2 ≤ depth)
    (hscalar : ∀ s ∈ since, Scalar s) :
    (Value.obj (subscribe request since)).Legible depth := by
  obtain ⟨room, rfl⟩ := Nat.exists_eq_add_of_le' hdepth
  refine ⟨Nat.succ_pos _, ?_, ?_⟩
  · obtain ⟨filters, eventTypes, explicit, bookmark⟩ := request
    cases filters <;> cases eventTypes <;> cases since <;>
      simp [subscribe, ofText_inj]
  · refine ⟨scalar_ofText _, ?_, ?_⟩
    · show (1 : Int).natAbs < 10 ^ intMaxStrDigits
      exact Nat.one_lt_pow (by decide) (by decide)
    · refine legiblePairs_append (legiblePairs_append ?_ ?_) ?_
      · exact legiblePairs_field "filters" fun l _ => legible_texts l
      · exact legiblePairs_field "event_types" fun l _ => legible_texts l
      · exact legiblePairs_field "since" hscalar

theorem scalar_load {s t : PyStr} (h : load s = some t) (hs : Scalar s) : Scalar t := by
  unfold load at h
  split at h
  · cases h
  · obtain rfl := Option.some.inj h
    refine hs.sublist ?_
    rw [strip]
    refine (List.reverse_sublist.mpr (List.dropWhile_sublist _)).trans ?_
    rw [List.reverse_reverse]
    exact List.dropWhile_sublist _

theorem resolveSince_scalar {cursors : Cursors} {explicit name : Option String}
    (h : resolveSince cursors explicit name = .ok since) : ∀ s ∈ since, Scalar s := by
  unfold resolveSince at h
  split at h
  · cases h
    intro s hs
    cases hs
    exact scalar_ofText _
  · rename_i name
    cases hname : validateName name with
    | error e =>
      rw [hname] at h
      cases h
    | ok =>
      rw [hname] at h
      replace h : loadCursor cursors name = .ok since := h
      unfold loadCursor at h
      split at h
      · cases h
        simp
      · split at h
        · cases h
        · intro s hs
          cases h
          exact scalar_load hs (scalar_ofText _)
  · cases h
    simp

end Reading

section Results

variable {registry : Registry} {depth : Nat} {cursors cursors' : Cursors} {dial : Dial}
  {request : Request} {blob : Bytes}

theorem openSubscriber_ok (h : openSubscriber cursors dial request = .ok blob) :
    ∃ since, resolveSince cursors request.since request.bookmark = .ok since ∧
      sentFrame (subscribe request since) = .ok blob := by
  unfold openSubscriber at h
  cases hsince : resolveSince cursors request.since request.bookmark with
  | error e =>
    rw [hsince] at h
    cases h
  | ok since =>
    rw [hsince] at h
    cases hsent : sentFrame (subscribe request since) with
    | error exc =>
      cases dial <;> simp [hsent, bind, Except.bind, throw, throwThe, MonadExceptOf.throw] at h
    | ok sent =>
      cases dial <;>
        simp [hsent, bind, Except.bind, throw, throwThe, MonadExceptOf.throw, pure,
          Except.pure] at h
      exact ⟨since, rfl, by rw [hsent, h]⟩

/-- Whatever the caller asks for, the daemon reads the frame off the wire whole. It registers
exactly the subscription that was asked for, and where there is none it closes the connection: it
neither rejects the frame nor fails on it. -/
theorem open_subscriber_registers (registry : Registry) (hdepth : 2 ≤ depth)
    (h : openSubscriber cursors dial request = .ok blob) (trailing : Bytes) :
    ∃ since payload, resolveSince cursors request.since request.bookmark = .ok since ∧
      nextFrame (blob ++ trailing) = .payload payload trailing ∧
      (∀ sub, readSubscribe registry depth (some payload) = .registered sub ↔
        Understood registry request since sub) ∧
      ((∀ sub, ¬Understood registry request since sub) →
        readSubscribe registry depth (some payload) = .closed) := by
  obtain ⟨since, hsince, hsent⟩ := openSubscriber_ok h
  have hlegible := legible_subscribe request hdepth (resolveSince_scalar hsince)
  obtain ⟨payload, hframe, hreading⟩ := readSubscribe_sent registry hlegible
    (lookup_subscribe request since).1 hsent trailing
  have hvalid : ∀ sub, validateFields registry (subscribe request since) = .ok sub ↔
      Understood registry request since sub := fun _ => validateFields_subscribe
  refine ⟨since, payload, hsince, hframe, fun sub => ?_, fun hnone => ?_⟩
  · rw [hreading, ← hvalid]
    cases validateFields registry (subscribe request since) with
    | error e => simp
    | ok found => simp
  · rw [hreading]
    cases hfields : validateFields registry (subscribe request since) with
    | error e => rfl
    | ok found => exact absurd ((hvalid found).mp hfields) (hnone found)

def sampleRequest : Request :=
  ⟨some ["octo/*"], some ["workflow_run", "unheard_of"], none, some "ci"⟩

def sampleCursors : Cursors :=
  fun _ => none

theorem ok_of_toBool {ε α : Type*} {e : Except ε α} (h : e.toBool = true) : ∃ a, e = .ok a := by
  cases e with
  | error err => cases h
  | ok a => exact ⟨a, rfl⟩

theorem sample_opens : (openSubscriber sampleCursors .sends sampleRequest).toBool = true := by
  decide +kernel

def sampleSubscription : Subscription :=
  ⟨[ofText "octo/*"], [ofText "workflow_run"], none⟩

theorem sample_understood : Understood .empty sampleRequest none sampleSubscription where
  few := by decide
  patterns f hf := by
    obtain rfl := List.mem_singleton.mp hf
    exact isFilter_iff.mp (by decide)
  filters_eq := rfl
  types_eq := by decide
  supported _ := by decide
  since_eq := rfl
  cursor := by simp

theorem open_subscriber_registers_run : ∃ blob payload,
    nextFrame (blob ++ [0x20]) = .payload payload [0x20] ∧
    readSubscribe .empty 990 (some payload) = .registered sampleSubscription := by
  obtain ⟨blob, hblob⟩ := ok_of_toBool sample_opens
  obtain ⟨since, payload, hsince, hframe, hreading, -⟩ :=
    open_subscriber_registers .empty (show 2 ≤ 990 by decide) hblob [0x20]
  obtain rfl : none = since := Except.ok.inj hsince
  exact ⟨blob, payload, hframe, (hreading _).mpr sample_understood⟩

theorem advance_last {name : String} {frames : List Value}
    (h : frames.foldlM (advance name) cursors = some cursors') :
    cursors' name = match (frames.filterMap cursorId).getLast? with
      | none => cursors name
      | some id => encoded id := by
  induction frames using List.reverseRecOn generalizing cursors' with
  | nil =>
    cases h
    rfl
  | append_singleton init frame ih =>
    rw [List.foldlM_append] at h
    obtain ⟨before, hbefore, hframe⟩ := Option.bind_eq_some_iff.mp h
    rw [List.foldlM_cons] at hframe
    obtain ⟨after, hafter, hnil⟩ := Option.bind_eq_some_iff.mp hframe
    cases hnil
    unfold advance at hafter
    cases hid : cursorId frame with
    | none =>
      rw [hid] at hafter
      cases hafter
      rw [List.filterMap_append, List.filterMap_cons_none hid, List.filterMap_nil,
        List.append_nil]
      exact ih hbefore
    | some id =>
      rw [hid] at hafter
      obtain ⟨bytes, hbytes, rfl⟩ := Option.map_eq_some_iff.mp hafter
      rw [List.filterMap_append, List.filterMap_cons_some hid, List.filterMap_nil,
        List.getLast?_concat, Function.update_self]
      exact hbytes.symm

theorem encoded_ofText (s : String) : encoded (ofText s) = some (utf8 s.toList) := by
  have hall : ∀ l : List Char, (l.map PyChar.scalar).mapM PyChar.toScalar = some l := by
    intro l
    induction l with
    | nil => rfl
    | cons c rest ih =>
      rw [List.map_cons, List.mapM_cons, ih]
      rfl
  rw [encoded, ofText, hall, Option.map_some]

theorem loadCursor_ulid {name : String} {id : EventStore.Ulid}
    (h : cursors name = encoded (ofText id.val)) :
    loadCursor cursors name = .ok (some (ofText id.val)) := by
  rw [loadCursor, h, encoded_ofText]
  dsimp only
  rw [decodeUtf8_utf8, String.ofList_toList]
  dsimp only
  rw [load_ulid]

/-- A subscriber that comes back under its bookmark is registered to resume behind the last frame
with an id that it had advanced over, whatever came between the two connections. -/
theorem bookmark_registers (registry : Registry) (hdepth : 2 ≤ depth) {name : String}
    {frames : List Value} {id : EventStore.Ulid}
    (hrun : frames.foldlM (advance name) cursors = some cursors')
    (hlast : (frames.filterMap cursorId).getLast? = some (ofText id.val))
    (hexplicit : request.since = none) (hname : request.bookmark = some name)
    (h : openSubscriber cursors' dial request = .ok blob) (trailing : Bytes) :
    ∃ payload, nextFrame (blob ++ trailing) = .payload payload trailing ∧
      ∀ sub, readSubscribe registry depth (some payload) = .registered sub →
        sub.since = some (ofText id.val) := by
  obtain ⟨since, payload, hsince, hframe, hreading, -⟩ :=
    open_subscriber_registers registry hdepth h trailing
  refine ⟨payload, hframe, fun sub hsub => ?_⟩
  have hfile := advance_last hrun
  rw [hlast] at hfile
  rw [hexplicit, hname, resolveSince] at hsince
  cases hvalid : validateName name with
  | error e =>
    rw [hvalid] at hsince
    cases hsince
  | ok =>
    rw [hvalid] at hsince
    replace hsince : loadCursor cursors' name = .ok since := hsince
    rw [loadCursor_ulid hfile] at hsince
    rw [((hreading sub).mp hsub).since_eq]
    exact (Except.ok.inj hsince).symm

def sampleId : EventStore.Ulid :=
  EventStore.ulidAt 7

def sampleFrames : List Value :=
  [.obj [(ofText "kind", .str (ofText "event")), (ofText "event_id", .str (ofText sampleId.val))],
    .obj [(ofText "kind", .str (ofText "daemon_heartbeat")),
      (ofText "event_id", .str (ofText "later"))]]

def advancedCursors : Cursors :=
  Function.update sampleCursors "ci" (some (utf8 sampleId.val.toList))

theorem sample_advances : sampleFrames.foldlM (advance "ci") sampleCursors =
    some advancedCursors := by
  have hevent : cursorId (.obj [(ofText "kind", .str (ofText "event")),
      (ofText "event_id", .str (ofText sampleId.val))]) = some (ofText sampleId.val) := by
    decide +kernel
  have hbeat : cursorId (.obj [(ofText "kind", .str (ofText "daemon_heartbeat")),
      (ofText "event_id", .str (ofText "later"))]) = none := by
    decide +kernel
  simp [sampleFrames, advance, hevent, hbeat, encoded_ofText, advancedCursors]

theorem advanced_opens : (openSubscriber advancedCursors .sends sampleRequest).toBool = true := by
  decide +kernel

theorem bookmark_registers_run : ∃ blob payload, nextFrame (blob ++ []) = .payload payload [] ∧
    ∀ sub, readSubscribe .empty 990 (some payload) = .registered sub →
      sub.since = some (ofText sampleId.val) := by
  obtain ⟨blob, hblob⟩ := ok_of_toBool advanced_opens
  exact ⟨blob, bookmark_registers .empty (by decide) sample_advances (by decide +kernel) rfl rfl
    hblob []⟩

end Results

end Waitbus.Subscribing
