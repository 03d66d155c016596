import Waitbus.JsonText
import Waitbus.SourceRegistry

/-! The subscribe frame as the daemon reads it: which payloads register a subscriber, which close
the connection, and which raise past every handler. The patterns end in `$`, which also stands
before a line feed that ends the text. -/

namespace Waitbus.Envelope
open Python Json SourceRegistry

section Patterns

/-- `[A-Za-z0-9_.-]`. -/
def isNameChar : PyChar → Bool
  | .scalar c =>
    (0x41 ≤ c.toNat && c.toNat ≤ 0x5a) || (0x61 ≤ c.toNat && c.toNat ≤ 0x7a) ||
      (0x30 ≤ c.toNat && c.toNat ≤ 0x39) || c = '_' || c = '.' || c = '-'
  | .surrogate _ => false

/-- `[0-9A-HJKMNP-TV-Z]`. -/
def isCrockford : PyChar → Bool
  | .scalar c =>
    (0x30 ≤ c.toNat && c.toNat ≤ 0x39) || (0x41 ≤ c.toNat && c.toNat ≤ 0x48) || c = 'J' ||
      c = 'K' || c = 'M' || c = 'N' || (0x50 ≤ c.toNat && c.toNat ≤ 0x54) ||
      (0x56 ≤ c.toNat && c.toNat ≤ 0x5a)
  | .surrogate _ => false

/-- What `FILTER_RE` has between its anchors. -/
def isFilter (s : PyStr) : Bool :=
  match s.takeWhile isNameChar, s.dropWhile isNameChar with
  | [], rest => rest = ofText "*"
  | _ :: _, .scalar '/' :: repo => repo = ofText "*" || (repo ≠ [] && repo.all isNameChar)
  | _ :: _, _ => false

/-- What `ULID_RE` has between its anchors. -/
def isUlid (s : PyStr) : Bool :=
  s.length = 26 && s.all isCrockford

def cutNewline (s : PyStr) : PyStr :=
  if s.getLast? = some (.scalar '\n') then s.dropLast else s

/-- `re.match` of a pattern between `^` and `$` that no text with a line feed at its end is of. -/
def lineMatch (pattern : PyStr → Bool) (s : PyStr) : Bool :=
  pattern (cutNewline s)

/-- The filters of the documentation. -/
inductive Filter : PyStr → Prop where
  | repo {owner repo : PyStr} (owner_ne : owner ≠ []) (owner_ok : ∀ c ∈ owner, isNameChar c = true)
    (repo_ne : repo ≠ []) (repo_ok : ∀ c ∈ repo, isNameChar c = true) :
    Filter (owner ++ .scalar '/' :: repo)
  | owner {owner : PyStr} (owner_ne : owner ≠ []) (owner_ok : ∀ c ∈ owner, isNameChar c = true) :
    Filter (owner ++ ofText "/*")
  | all : Filter (ofText "*")

structure Ulid (s : PyStr) : Prop where
  length : s.length = 26
  chars : ∀ c ∈ s, isCrockford c = true

end Patterns

section Validators

def maxFiltersPerSubscriber : Nat := 64

/-- The ValueErrors of the validators. -/
inductive FieldError where
  | filtersNotArray
  | tooManyFilters (count : Nat)
  | invalidFilter (item : Value)
  | eventTypesNotArray
  | noEventTypes
  | sinceNotString
  | malformedSince
  | envelopeReserved
  | envelopeNotString
  | unknownEnvelope (envelope : PyStr)

def checkFilters : List Value → Except FieldError (List PyStr)
  | [] => .ok []
  | .str s :: rest =>
    if lineMatch isFilter s then (checkFilters rest).map (s :: ·)
    else .error (.invalidFilter (.str s))
  | item :: _ => .error (.invalidFilter item)

def validateSubscribeFilters : Option Value → Except FieldError (List PyStr)
  | none | some .null => .ok [ofText "*"]
  | some (.arr items) =>
    if maxFiltersPerSubscriber < items.length then .error (.tooManyFilters items.length)
    else (checkFilters items).map fun out => if out = [] then [ofText "*"] else out
  | some _ => .error .filtersNotArray

def eventTypesSupported (registry : Registry) : List PyStr :=
  registry.knownSources.flatMap (·.2.eventTypes)

def validateSubscribeEventTypes (registry : Registry) :
    Option Value → Except FieldError (List PyStr)
  | none | some .null => .ok (eventTypesSupported registry)
  | some (.arr items) =>
    let accepted := items.filterMap fun
      | .str t => if t ∈ eventTypesSupported registry then some t else none
      | _ => none
    if accepted = [] then .error .noEventTypes else .ok accepted
  | some _ => .error .eventTypesNotArray

def validateSubscribeEnvelope : Option Value → Except FieldError Unit
  | none | some .null => .ok ()
  | some (.str s) =>
    if s = ofText "diffs" then .ok ()
    else if s = ofText "upsert" then .error .envelopeReserved
    else .error (.unknownEnvelope s)
  | some _ => .error .envelopeNotString

def validateSinceCursor : Option Value → Except FieldError (Option PyStr)
  | none | some .null => .ok none
  | some (.str s) => if lineMatch isUlid s then .ok (some s) else .error .malformedSince
  | some _ => .error .sinceNotString

end Validators

section Reading

structure Subscription where
  filters : List PyStr
  eventTypes : List PyStr
  since : Option PyStr

/-- What comes of a connection: `rejected` is closed after the version reject frame. -/
inductive Reading where
  | registered (sub : Subscription)
  | closed
  | rejected
  | escaped (e : PyExc)

/-- `_recv_subscribe_frame`; `data` is `None` at an end of the stream, a timeout or an error. -/
def recvSubscribeFrame (depth : Nat) (data : Option Bytes) :
    Except PyExc (Option (List (PyStr × Value))) :=
  match data.bind (decoded depth) with
  | none | some (.error .jsonDecodeError) => .ok none
  | some (.error e) => .error e
  | some (.ok (.obj msg)) => .ok (some msg)
  | some (.ok _) => .ok none

def frameProtoVersion : Int := 1

def unsupportedProto : Option Value → Bool
  | none | some .null => false
  | some (.int n) => n ≠ frameProtoVersion
  | some _ => true

def validateFields (registry : Registry) (msg : List (PyStr × Value)) :
    Except FieldError Subscription := do
  let filters ← validateSubscribeFilters (lookup "filters" msg)
  let eventTypes ← validateSubscribeEventTypes registry (lookup "event_types" msg)
  let since ← validateSinceCursor (lookup "since" msg)
  validateSubscribeEnvelope (lookup "envelope" msg)
  return ⟨filters, eventTypes, since⟩

/-- `_read_subscribe` up to the registration. -/
def readSubscribe (registry : Registry) (depth : Nat) (data : Option Bytes) : Reading :=
  match recvSubscribeFrame depth data with
  | .error e => .escaped e
  | .ok none => .closed
  | .ok (some msg) =>
    if unsupportedProto (lookup "proto" msg) then .rejected
    else
      match validateFields registry msg with
      | .error _ => .closed
      | .ok sub => .registered sub

end Reading

section Grammar

variable {registry : Registry} {depth : Nat} {msg : List (PyStr × Value)}

def Absent (key : String) (msg : List (PyStr × Value)) : Prop :=
  lookup key msg = none ∨ lookup key msg = some .null

/-- The documented grammar, where `read` is what of a filter and of the cursor is looked at. -/
structure Grammar (registry : Registry) (read : PyStr → PyStr) (msg : List (PyStr × Value)) :
    Prop where
  proto : Absent "proto" msg ∨ lookup "proto" msg = some (.int 1)
  filters : Absent "filters" msg ∨ ∃ items, lookup "filters" msg = some (.arr items) ∧
    items.length ≤ 64 ∧ ∀ item ∈ items, ∃ s, item = .str s ∧ Filter (read s)
  eventTypes : Absent "event_types" msg ∨ ∃ items, lookup "event_types" msg = some (.arr items) ∧
    ∃ t ∈ eventTypesSupported registry, .str t ∈ items
  since : Absent "since" msg ∨ ∃ s, lookup "since" msg = some (.str s) ∧ Ulid (read s)
  envelope : Absent "envelope" msg ∨ lookup "envelope" msg = some (.str (ofText "diffs"))

def InGrammar (registry : Registry) (depth : Nat) (payload : Bytes) : Prop :=
  ∃ msg, decoded depth payload = some (.ok (.obj msg)) ∧ Grammar registry id msg

/-- The payload is an object whose `proto` is another than the supported one. -/
def ProtoFault (depth : Nat) (payload : Bytes) : Prop :=
  ∃ msg, decoded depth payload = some (.ok (.obj msg)) ∧
    ¬(Absent "proto" msg ∨ lookup "proto" msg = some (.int 1))

theorem isFilter_append {owner repo : PyStr} (owner_ne : owner ≠ [])
    (owner_ok : ∀ c ∈ owner, isNameChar c = true) :
    isFilter (owner ++ .scalar '/' :: repo) =
      (repo = ofText "*" || (repo ≠ [] && repo.all isNameChar) : Bool) := by
  have htake : (owner ++ .scalar '/' :: repo).takeWhile isNameChar = owner := by
    rw [List.takeWhile_append_of_pos owner_ok, List.takeWhile_cons_of_neg (by decide),
      List.append_nil]
  have hdrop : (owner ++ .scalar '/' :: repo).dropWhile isNameChar = .scalar '/' :: repo := by
    rw [List.dropWhile_append_of_pos owner_ok, List.dropWhile_cons_of_neg (by decide)]
  rw [isFilter, htake, hdrop]
  cases owner with
  | nil => exact absurd rfl owner_ne
  | cons c rest => rfl

theorem isFilter_iff {s : PyStr} : isFilter s = true ↔ Filter s := by
  constructor
  · intro h
    have hsplit := List.takeWhile_append_dropWhile (p := isNameChar) (l := s)
    have howner : ∀ c ∈ s.takeWhile isNameChar, isNameChar c = true :=
      List.all_eq_true.mp List.all_takeWhile
    rw [isFilter] at h
    split at h
    · rename_i htake
      rw [htake, List.nil_append, of_decide_eq_true h] at hsplit
      rw [← hsplit]
      exact .all
    · rename_i htake hdrop
      rw [htake, hdrop] at hsplit
      rw [htake] at howner
      rw [← hsplit]
      rw [Bool.or_eq_true, Bool.and_eq_true, decide_eq_true_iff, decide_eq_true_iff,
        List.all_eq_true] at h
      rcases h with rfl | ⟨hne, hall⟩
      · exact .owner (List.cons_ne_nil _ _) howner
      · exact .repo (List.cons_ne_nil _ _) howner hne hall
    · nomatch h
  · intro h
    cases h with
    | repo owner_ne owner_ok repo_ne repo_ok =>
      rw [isFilter_append owner_ne owner_ok, Bool.or_eq_true, Bool.and_eq_true, List.all_eq_true]
      exact .inr ⟨decide_eq_true repo_ne, repo_ok⟩
    | owner owner_ne owner_ok => exact isFilter_append owner_ne owner_ok
    | all => rfl

theorem isUlid_iff {s : PyStr} : isUlid s = true ↔ Ulid s := by
  rw [isUlid, Bool.and_eq_true, decide_eq_true_iff, List.all_eq_true]
  exact ⟨fun h => ⟨h.1, h.2⟩, fun h => ⟨h.length, h.chars⟩⟩

theorem unsupportedProto_iff {proto : Option Value} :
    unsupportedProto proto = false ↔
      (proto = none ∨ proto = some .null) ∨ proto = some (.int 1) := by
  cases proto with
  | none => simp [unsupportedProto]
  | some v =>
    cases v with
    | int n =>
      rw [unsupportedProto, decide_eq_false_iff_not, not_not]
      simp [frameProtoVersion]
    | null | bool | float | str | arr | obj => simp [unsupportedProto]

theorem checkFilters_ok {items : List Value} : (∃ out, checkFilters items = .ok out) ↔
    ∀ item ∈ items, ∃ s, item = .str s ∧ Filter (cutNewline s) := by
  induction items with
  | nil => simp [checkFilters]
  | cons item rest ih =>
    rw [List.forall_mem_cons, ← ih]
    cases item with
    | str s =>
      rw [checkFilters, lineMatch]
      split
      · rename_i hmatch
        have hfilter := isFilter_iff.mp hmatch
        cases hrest : checkFilters rest with
        | error e => simp [Except.map]
        | ok out => simpa [Except.map] using hfilter
      · rename_i hmatch
        have hfilter := mt isFilter_iff.mpr hmatch
        simp [hfilter]
    | null | bool | int | float | arr | obj => simp [checkFilters]

theorem validateSubscribeFilters_ok {filters : Option Value} :
    (∃ out, validateSubscribeFilters filters = .ok out) ↔
      (filters = none ∨ filters = some .null) ∨ ∃ items, filters = some (.arr items) ∧
        items.length ≤ 64 ∧ ∀ item ∈ items, ∃ s, item = .str s ∧ Filter (cutNewline s) := by
  cases filters with
  | none => simp [validateSubscribeFilters]
  | some v =>
    cases v with
    | arr items =>
      rw [validateSubscribeFilters]
      simp only [Option.some.injEq, Value.arr.injEq, exists_eq_left', reduceCtorEq, or_false,
        false_or, ← checkFilters_ok]
      split
      · rename_i hmany
        have hlength : ¬items.length ≤ 64 := not_le.mpr hmany
        simp [hlength]
      · rename_i hfew
        have hlength : items.length ≤ 64 := not_lt.mp hfew
        cases checkFilters items with
        | error e => simp [Except.map]
        | ok out => simp [Except.map, hlength]
    | null | bool | int | float | str | obj => simp [validateSubscribeFilters]

theorem validateSubscribeEventTypes_ok {types : Option Value} :
    (∃ out, validateSubscribeEventTypes registry types = .ok out) ↔
      (types = none ∨ types = some .null) ∨ ∃ items, types = some (.arr items) ∧
        ∃ t ∈ eventTypesSupported registry, .str t ∈ items := by
  cases types with
  | none => simp [validateSubscribeEventTypes]
  | some v =>
    cases v with
    | arr items =>
      rw [validateSubscribeEventTypes]
      have haccepted : items.filterMap (fun
          | .str t => if t ∈ eventTypesSupported registry then some t else none
          | _ => none) = [] ↔ ¬∃ t ∈ eventTypesSupported registry, .str t ∈ items := by
        rw [List.filterMap_eq_nil_iff]
        constructor
        · rintro h ⟨t, ht, hitem⟩
          have hnone := h _ hitem
          simp [ht] at hnone
        · intro h item hitem
          cases item with
          | str t => simpa using fun ht => h ⟨t, ht, hitem⟩
          | null | bool | int | float | arr | obj => rfl
      split
      · rename_i hnone
        simpa using haccepted.mp hnone
      · rename_i hsome
        simpa using not_not.mp (mt haccepted.mpr hsome)
    | null | bool | int | float | str | obj => simp [validateSubscribeEventTypes]

theorem validateSinceCursor_ok {since : Option Value} :
    (∃ out, validateSinceCursor since = .ok out) ↔
      (since = none ∨ since = some .null) ∨
        ∃ s, since = some (.str s) ∧ Ulid (cutNewline s) := by
  cases since with
  | none => simp [validateSinceCursor]
  | some v =>
    cases v with
    | str s =>
      rw [validateSinceCursor, lineMatch]
      split
      · rename_i hmatch
        simpa using isUlid_iff.mp hmatch
      · rename_i hmatch
        simpa using mt isUlid_iff.mpr hmatch
    | null | bool | int | float | arr | obj => simp [validateSinceCursor]

theorem validateSubscribeEnvelope_ok {envelope : Option Value} :
    validateSubscribeEnvelope envelope = .ok () ↔
      (envelope = none ∨ envelope = some .null) ∨ envelope = some (.str (ofText "diffs")) := by
  cases envelope with
  | none => simp [validateSubscribeEnvelope]
  | some v =>
    cases v with
    | str s =>
      rw [validateSubscribeEnvelope]
      split
      · simp_all
      · split <;> simp_all
    | null | bool | int | float | arr | obj => simp [validateSubscribeEnvelope]

/-- The validators let through just what the grammar has once a last line feed is cut off. -/
theorem validated_iff : (unsupportedProto (lookup "proto" msg) = false ∧
    ∃ sub, validateFields registry msg = .ok sub) ↔ Grammar registry cutNewline msg := by
  have hfields : (∃ sub, validateFields registry msg = .ok sub) ↔
      (∃ filters, validateSubscribeFilters (lookup "filters" msg) = .ok filters) ∧
      (∃ eventTypes, validateSubscribeEventTypes registry (lookup "event_types" msg) =
        .ok eventTypes) ∧
      (∃ since, validateSinceCursor (lookup "since" msg) = .ok since) ∧
      validateSubscribeEnvelope (lookup "envelope" msg) = .ok () := by
    rw [validateFields]
    cases validateSubscribeFilters (lookup "filters" msg) with
    | error e => simp [bind, Except.bind]
    | ok filters =>
    cases validateSubscribeEventTypes registry (lookup "event_types" msg) with
    | error e => simp [bind, Except.bind]
    | ok eventTypes =>
    cases validateSinceCursor (lookup "since" msg) with
    | error e => simp [bind, Except.bind]
    | ok since =>
    cases validateSubscribeEnvelope (lookup "envelope" msg) with
    | error e => simp [bind, Except.bind]
    | ok u => simp [bind, Except.bind, pure, Except.pure]
  rw [hfields, unsupportedProto_iff, validateSubscribeFilters_ok, validateSubscribeEventTypes_ok,
    validateSinceCursor_ok, validateSubscribeEnvelope_ok]
  constructor
  · rintro ⟨hproto, hfilters, htypes, hsince, henvelope⟩
    exact ⟨hproto, hfilters, htypes, hsince, henvelope⟩
  · rintro ⟨hproto, hfilters, htypes, hsince, henvelope⟩
    exact ⟨hproto, hfilters, htypes, hsince, henvelope⟩

/-- No filter and no cursor of the message ends in a line feed. -/
structure NoNewline (msg : List (PyStr × Value)) : Prop where
  filters : ∀ items s, lookup "filters" msg = some (.arr items) → .str s ∈ items →
    s.getLast? ≠ some (.scalar '\n')
  since : ∀ s, lookup "since" msg = some (.str s) → s.getLast? ≠ some (.scalar '\n')

theorem Filter.noNewline {s : PyStr} (h : Filter s) : s.getLast? ≠ some (.scalar '\n') := by
  cases h with
  | repo owner_ne owner_ok repo_ne repo_ok =>
    rename_i owner repo
    intro hlast
    rw [List.getLast?_append_of_ne_nil _ (List.cons_ne_nil _ _),
      List.getLast?_cons_of_ne_nil repo_ne] at hlast
    exact absurd (repo_ok _ (List.mem_of_getLast? hlast)) (by decide)
  | owner owner_ne owner_ok =>
    rw [List.getLast?_append_of_ne_nil _ (by decide)]
    decide
  | all => decide

theorem Ulid.noNewline {s : PyStr} (h : Ulid s) : s.getLast? ≠ some (.scalar '\n') := by
  intro hlast
  exact absurd (h.chars _ (List.mem_of_getLast? hlast)) (by decide)

theorem cutNewline_eq {s : PyStr} (h : s.getLast? ≠ some (.scalar '\n')) : cutNewline s = s :=
  if_neg h

theorem grammar_iff :
    Grammar registry id msg ↔ Grammar registry cutNewline msg ∧ NoNewline msg := by
  constructor
  · intro h
    refine ⟨⟨h.proto, h.filters.imp_right ?_, h.eventTypes, h.since.imp_right ?_, h.envelope⟩,
      ⟨?_, ?_⟩⟩
    · rintro ⟨items, hitems, hlength, hall⟩
      refine ⟨items, hitems, hlength, fun item hitem => ?_⟩
      obtain ⟨s, hs, hfilter⟩ := hall item hitem
      rw [id_eq] at hfilter
      exact ⟨s, hs, by rwa [cutNewline_eq hfilter.noNewline]⟩
    · rintro ⟨s, hs, hulid⟩
      rw [id_eq] at hulid
      exact ⟨s, hs, by rwa [cutNewline_eq hulid.noNewline]⟩
    · intro items s hitems hs
      rcases h.filters with habsent | ⟨others, hothers, -, hall⟩
      · simp [Absent, hitems] at habsent
      · rw [hitems, Option.some.injEq, Value.arr.injEq] at hothers
        obtain ⟨t, ht, hfilter⟩ := hall _ (hothers ▸ hs)
        rw [id_eq, ← Value.str.inj ht] at hfilter
        exact hfilter.noNewline
    · intro s hs
      rcases h.since with habsent | ⟨t, ht, hulid⟩
      · simp [Absent, hs] at habsent
      · rw [hs, Option.some.injEq, Value.str.injEq] at ht
        rw [id_eq, ← ht] at hulid
        exact hulid.noNewline
  · rintro ⟨h, hplain⟩
    refine ⟨h.proto, h.filters.imp_right ?_, h.eventTypes, h.since.imp_right ?_, h.envelope⟩
    · rintro ⟨items, hitems, hlength, hall⟩
      refine ⟨items, hitems, hlength, fun item hitem => ?_⟩
      obtain ⟨s, hs, hfilter⟩ := hall item hitem
      rw [cutNewline_eq (hplain.filters items s hitems (hs ▸ hitem))] at hfilter
      exact ⟨s, hs, hfilter⟩
    · rintro ⟨s, hs, hulid⟩
      rw [cutNewline_eq (hplain.since s hs)] at hulid
      exact ⟨s, hs, hulid⟩

/-- What the payload has to be for the daemon to read it by the documented grammar. -/
structure Plain (registry : Registry) (depth : Nat) (payload : Bytes) : Prop where
  decodes : ∀ e, decoded depth payload = some (.error e) → e = .jsonDecodeError
  noNewline : ∀ msg, decoded depth payload = some (.ok (.obj msg)) →
    Grammar registry cutNewline msg → NoNewline msg

end Grammar

section Acceptance

variable {registry : Registry} {depth : Nat} {payload : Bytes}

/-- What the documentation says of a payload. -/
structure Exact (registry : Registry) (depth : Nat) (payload : Bytes) (reading : Reading) :
    Prop where
  registers : (∃ sub, reading = .registered sub) ↔ InGrammar registry depth payload
  closes : ¬InGrammar registry depth payload → reading = .closed ∨ reading = .rejected
  rejects : reading = .rejected ↔ ProtoFault depth payload
  contained : ∀ e, reading ≠ .escaped e

theorem exact_closed (h : ∀ msg, decoded depth payload ≠ some (.ok (.obj msg))) :
    Exact registry depth payload .closed where
  registers := by
    constructor
    · rintro ⟨sub, hsub⟩
      nomatch hsub
    · rintro ⟨msg, hmsg, -⟩
      exact absurd hmsg (h msg)
  closes _ := .inl rfl
  rejects := by
    constructor
    · intro hsub
      nomatch hsub
    · rintro ⟨msg, hmsg, -⟩
      exact absurd hmsg (h msg)
  contained _ h := nomatch h

theorem inGrammar_iff {msg : List (PyStr × Value)}
    (h : decoded depth payload = some (.ok (.obj msg))) :
    InGrammar registry depth payload ↔ Grammar registry id msg := by
  rw [InGrammar, h]
  simp

theorem protoFault_iff {msg : List (PyStr × Value)}
    (h : decoded depth payload = some (.ok (.obj msg))) :
    ProtoFault depth payload ↔ unsupportedProto (lookup "proto" msg) = true := by
  rw [ProtoFault, h, ← Bool.not_eq_false, unsupportedProto_iff]
  simp [Absent]

theorem plain_iff {msg : List (PyStr × Value)}
    (h : decoded depth payload = some (.ok (.obj msg))) :
    Plain registry depth payload ↔ (Grammar registry cutNewline msg → NoNewline msg) := by
  constructor
  · intro hplain
    exact hplain.noNewline msg h
  · intro hnewline
    refine ⟨fun e he => ?_, fun other hother => ?_⟩
    · rw [h] at he
      nomatch he
    · rw [h, Option.some.injEq, Except.ok.injEq, Value.obj.injEq] at hother
      exact hother ▸ hnewline

theorem exact_object {msg : List (PyStr × Value)}
    (h : decoded depth payload = some (.ok (.obj msg))) :
    Exact registry depth payload (readSubscribe registry depth (some payload)) ↔
      Plain registry depth payload := by
  have hrecv : recvSubscribeFrame depth (some payload) = .ok (some msg) := by
    rw [recvSubscribeFrame, Option.bind_some, h]
  have hgrammar : Grammar registry id msg ↔ (unsupportedProto (lookup "proto" msg) = false ∧
      ∃ sub, validateFields registry msg = .ok sub) ∧ NoNewline msg := by
    rw [grammar_iff, validated_iff]
  rw [plain_iff h, ← validated_iff, readSubscribe, hrecv]
  dsimp only
  cases hproto : unsupportedProto (lookup "proto" msg) with
  | true =>
    rw [hproto] at hgrammar
    refine iff_of_true ⟨?_, ?_, ?_, ?_⟩ (by simp)
    · simp [inGrammar_iff h, hgrammar]
    · exact fun _ => .inr rfl
    · simp [protoFault_iff h, hproto]
    · exact fun _ hescape => nomatch hescape
  | false =>
    rw [hproto] at hgrammar
    cases hfields : validateFields registry msg with
    | error e =>
      rw [hfields] at hgrammar
      refine iff_of_true ⟨?_, ?_, ?_, ?_⟩ (by simp)
      · simp [inGrammar_iff h, hgrammar]
      · exact fun _ => .inl rfl
      · simp [protoFault_iff h, hproto]
      · exact fun _ hescape => nomatch hescape
    | ok sub =>
      rw [hfields] at hgrammar
      have hnewline : Grammar registry id msg ↔ NoNewline msg := by simp [hgrammar]
      constructor
      · intro hexact _
        have hin := hexact.registers.mp ⟨sub, rfl⟩
        exact hnewline.mp ((inGrammar_iff h).mp hin)
      · intro hplain
        have hin : InGrammar registry depth payload :=
          (inGrammar_iff h).mpr (hnewline.mpr (hplain ⟨rfl, sub, rfl⟩))
        refine ⟨⟨fun _ => hin, fun _ => ⟨sub, rfl⟩⟩, fun hnot => absurd hin hnot, ?_, ?_⟩
        · simp [protoFault_iff h, hproto]
        · exact fun _ hescape => nomatch hescape

/-- A payload that holds no object has the connection closed, unless `json.loads` raises
something that the handler does not expect. -/
theorem readSubscribe_other (registry : Registry)
    (h : ∀ msg, decoded depth payload ≠ some (.ok (.obj msg))) :
    (readSubscribe registry depth (some payload) = .closed ∧
      ∀ e, decoded depth payload = some (.error e) → e = .jsonDecodeError) ∨
    ∃ e, readSubscribe registry depth (some payload) = .escaped e ∧
      decoded depth payload = some (.error e) ∧ e ≠ .jsonDecodeError := by
  rw [readSubscribe, recvSubscribeFrame, Option.bind_some]
  cases hdecoded : decoded depth payload with
  | none => exact .inl ⟨rfl, fun _ h => nomatch h⟩
  | some outcome =>
    cases outcome with
    | error e =>
      by_cases he : e = .jsonDecodeError
      · subst he
        exact .inl ⟨rfl, fun e he => (Except.error.inj (Option.some.inj he)).symm⟩
      · refine .inr ⟨e, ?_, rfl, he⟩
        cases e with
        | jsonDecodeError => exact absurd rfl he
        | _ => rfl
    | ok v =>
      cases v with
      | obj msg => exact absurd hdecoded (h msg)
      | _ => exact .inl ⟨rfl, fun _ h => nomatch h⟩

/-- The daemon reads a payload as documented if and only if the payload is plain. -/
theorem readSubscribe_exact (registry : Registry) (depth : Nat) (payload : Bytes) :
    Exact registry depth payload (readSubscribe registry depth (some payload)) ↔
      Plain registry depth payload := by
  by_cases hobject : ∃ msg, decoded depth payload = some (.ok (.obj msg))
  · obtain ⟨msg, hmsg⟩ := hobject
    exact exact_object hmsg
  · have hother := not_exists.mp hobject
    rcases readSubscribe_other registry hother with
      ⟨hclosed, hdecodes⟩ | ⟨e, hescaped, hraises, he⟩
    · rw [hclosed]
      exact iff_of_true (exact_closed hother)
        ⟨hdecodes, fun msg hmsg => absurd hmsg (hother msg)⟩
    · rw [hescaped]
      refine iff_of_false (fun hexact => hexact.contained e rfl) fun hplain => ?_
      exact he (hplain.decodes e hraises)

/-- `{"filters":["a/b\n"]}`, with the line feed escaped. -/
def newlineFilter : Bytes :=
  utf8 ['{', '"', 'f', 'i', 'l', 't', 'e', 'r', 's', '"', ':', '[', '"', 'a', '/', 'b', '\\', 'n',
    '"', ']', '}']

theorem newlineFilter_decoded : decoded 990 newlineFilter =
    some (.ok (.obj [(ofText "filters", .arr [.str (ofText "a/b\n")])])) := by
  rw [newlineFilter, decoded_utf8]
  rfl

theorem scan_bracket {mode : Mode} (hmode : mode = .value ∨ mode = .firstItem)
    (stack : List Container) :
    scanChar depth ⟨mode, stack⟩ '[' = startValue depth stack '[' := by
  rcases hmode with rfl | rfl
  · rfl
  · cases stack with
    | nil => rfl
    | cons container rest =>
      cases container with
      | array items => rfl
      | object pairs key => rfl

theorem scan_brackets {mode : Mode} (hmode : mode = .value ∨ mode = .firstItem) (n : Nat)
    {stack : List Container} (h : stack.length + n = depth) :
    (List.replicate (n + 1) '[').foldlM (scanChar depth) ⟨mode, stack⟩ =
      .error .recursionError := by
  induction n generalizing stack mode with
  | zero =>
    rw [List.replicate_one, List.foldlM_cons, scan_bracket hmode, startValue, if_pos (by omega)]
    rfl
  | succ n ih =>
    rw [List.replicate_succ, List.foldlM_cons, scan_bracket hmode, startValue,
      if_neg (by omega)]
    exact ih (.inr rfl) (by rw [List.length_cons]; omega)

def brackets (depth : Nat) : Bytes :=
  utf8 (List.replicate (depth + 1) '[')

theorem brackets_escape (registry : Registry) (depth : Nat) :
    readSubscribe registry depth (some (brackets depth)) = .escaped .recursionError := by
  have hdecoded : decoded depth (brackets depth) = some (.error .recursionError) := by
    rw [brackets, decoded_utf8,
      scan_brackets (.inl rfl) depth (by rw [List.length_nil, Nat.zero_add])]
    rfl
  rw [readSubscribe, recvSubscribeFrame, Option.bind_some, hdecoded]

/-- A filter with a line feed at its end registers, and brackets alone are not even refused. -/
theorem readSubscribe_loose :
    ¬Exact .empty 990 newlineFilter (readSubscribe .empty 990 (some newlineFilter)) ∧
      ¬Exact .empty 990 (brackets 990) (readSubscribe .empty 990 (some (brackets 990))) := by
  constructor
  · rw [readSubscribe, recvSubscribeFrame, Option.bind_some, newlineFilter_decoded]
    intro hexact
    have hin := (inGrammar_iff newlineFilter_decoded).mp (hexact.registers.mp ⟨_, rfl⟩)
    have hplain := (grammar_iff.mp hin).2.filters _ (ofText "a/b\n") rfl (List.mem_cons_self ..)
    exact hplain (by decide)
  · rw [brackets_escape]
    exact fun h => h.contained _ rfl

end Acceptance

end Waitbus.Envelope
