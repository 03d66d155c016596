import Mathlib
import Waitbus.Coalesce
import Waitbus.JsonDumps
import Waitbus.Runs
import Waitbus.Subscriptions

/-! The secrets file: several runs of `install-credentials` beside the daemons that read it. A run
reads the whole object, and later replaces the file by the object with its own entry; nothing locks
the time between. -/

namespace Waitbus.Credentials
open Python Json Runs

section Text

mutual

/-- The order that `sort_keys` writes the keys of every object in. -/
def sortKeys : Value → Value
  | .arr items => .arr (sortKeysItems items)
  | .obj pairs => .obj ((sortKeysPairs pairs).mergeSort fun p q =>
      decide (Coalesce.codes p.1 ≤ Coalesce.codes q.1))
  | v => v

def sortKeysItems : List Value → List Value
  | [] => []
  | item :: rest => sortKeys item :: sortKeysItems rest

def sortKeysPairs : List (PyStr × Value) → List (PyStr × Value)
  | [] => []
  | (key, v) :: rest => (key, sortKeys v) :: sortKeysPairs rest

end

/-- What a text without an object in it is refused for. -/
inductive Malformed where
  | notJson
  | notObject
  | raised
  deriving DecidableEq

/-- `json.loads` of what a file holds; `raised` are the exceptions that neither reader expects. -/
def readObject (depth : Nat) (bytes : Bytes) : Except Malformed (List (PyStr × Value)) :=
  match decoded depth bytes with
  | none => .error .raised
  | some (.error .jsonDecodeError) => .error .notJson
  | some (.error _) => .error .raised
  | some (.ok (.obj pairs)) => .ok pairs
  | some (.ok _) => .error .notObject

/-- `json.dumps(existing, indent=2, sort_keys=True) + "\n"`. -/
def payloadText (existing : List (PyStr × Value)) : List Char :=
  dumps (some 2) (sortKeys (.obj existing)) ++ ['\n']

/-- `plaintext.rstrip("\r\n")`. -/
def stripped (text : String) : String :=
  String.ofList (text.toList.rdropWhile fun c => c = '\r' ∨ c = '\n')

end Text

section System

/-- A file as its readers see it. -/
structure File where
  mode : Nat
  bytes : Bytes
  deriving DecidableEq

inductive Outcome where
  | staged
  | empty
  | unreadable
  | malformed (why : Malformed)
  | osError
  deriving DecidableEq

/-- The call of `_atomic_merge_write` that comes next, with what it has in hand. -/
inductive Phase where
  | idle
  | entered
  | found
  | serialized (payload : Bytes)
  | created (temp : File) (payload : Bytes)
  | writing (temp : File) (rest : Bytes)
  | ended (outcome : Outcome)
  deriving DecidableEq

/-- One run of `install-credentials`; `seen` is history: how many entries had been staged when it
read the file. -/
structure Writer where
  name : String
  value : String
  phase : Phase
  seen : Nat

inductive Failure where
  | notConfigured
  | raised
  deriving DecidableEq

/-- A daemon with the cache of `_load_secrets`; `opening` is past the check of the mode. `born` is
history: how many entries had been staged when the process started. -/
structure Reader where
  cache : Option (List (PyStr × Value))
  opening : Option String
  answers : List (String × Except Failure (Option PyStr))
  born : Nat

/-- The file, the processes, and as history the entries in the order of their `os.replace`. -/
structure State (ι κ : Type*) where
  file : Option File
  writers : ι → Writer
  readers : κ → Reader
  staged : List (String × String)

inductive Act (ι κ : Type*) where
  | begins (i : ι) (name text : String)
  | looks (i : ι)
  | reads (i : ι)
  | creates (i : ι) (mode : Nat)
  | chmods (i : ι)
  | writes (i : ι) (n : Nat)
  | replaces (i : ι)
  | fails (i : ι)
  | starts (k : κ)
  | asks (k : κ) (name : String)
  | opens (k : κ)

def merged (depth : Nat) (existing : List (PyStr × Value)) (name value : String) : Phase :=
  let payload := payloadText (setItem existing (ofText name) (.str (ofText value)))
  match loads depth (String.ofList payload) with
  | .ok _ => .serialized (utf8 payload)
  | .error .jsonDecodeError => .ended (.malformed .notJson)
  | .error _ => .ended (.malformed .raised)

def loaded (depth : Nat) (file : Option File) (name value : String) : Phase :=
  match file with
  | none => .ended .unreadable
  | some file =>
    match readObject depth file.bytes with
    | .error why => .ended (.malformed why)
    | .ok existing => merged depth existing name value

/-- `str` of a value that is not text is a parameter. -/
def getSecret (str : Value → PyStr) (data : List (PyStr × Value)) (name : String) :
    Option PyStr :=
  match lookup name data with
  | none | some .null => none
  | some (.str value) => some value
  | some value => some (str value)

def Reader.answer (reader : Reader) (name : String) (result : Except Failure (Option PyStr)) :
    Reader :=
  { reader with opening := none, answers := reader.answers ++ [(name, result)] }

def Reader.load (reader : Reader) (str : Value → PyStr) (name : String)
    (data : List (PyStr × Value)) : Reader :=
  { reader with cache := some data }.answer name (.ok (getSecret str data name))

/-- `get_secret` up to the opening of the file. -/
def Reader.ask (reader : Reader) (str : Value → PyStr) (file : Option File) (name : String) :
    Reader :=
  match reader.cache with
  | some data => reader.answer name (.ok (getSecret str data name))
  | none =>
    match file with
    | none => reader.load str name []
    | some file =>
      if file.mode = 0o600 then { reader with opening := some name }
      else reader.answer name (.error .notConfigured)

/-- The rest of `_load_secrets` and of `get_secret`. -/
def Reader.open (reader : Reader) (depth : Nat) (str : Value → PyStr) (file : Option File)
    (name : String) : Reader :=
  match file with
  | none => reader.answer name (.error .notConfigured)
  | some file =>
    match readObject depth file.bytes with
    | .error .raised => reader.answer name (.error .raised)
    | .error _ => reader.answer name (.error .notConfigured)
    | .ok data => reader.load str name data

variable {ι κ : Type*} [DecidableEq ι] [DecidableEq κ]

def State.setPhase (s : State ι κ) (i : ι) (phase : Phase) : State ι κ :=
  { s with writers := Function.update s.writers i { s.writers i with phase } }

def State.setRead (s : State ι κ) (i : ι) (phase : Phase) : State ι κ :=
  { s with
    writers := Function.update s.writers i { s.writers i with phase, seen := s.staged.length } }

def State.setReader (s : State ι κ) (k : κ) (reader : Reader) : State ι κ :=
  { s with readers := Function.update s.readers k reader }

def State.step (depth : Nat) (str : Value → PyStr) (s : State ι κ) :
    Act ι κ → Option (State ι κ)
  | .begins i name text =>
    match (s.writers i).phase with
    | .idle | .ended _ =>
      some { s with
        writers := Function.update s.writers i
          ⟨name, stripped text, if stripped text = "" then .ended .empty else .entered, 0⟩ }
    | _ => none
  | .looks i =>
    match (s.writers i).phase with
    | .entered =>
      some (if s.file.isSome then s.setPhase i .found
        else s.setRead i (merged depth [] (s.writers i).name (s.writers i).value))
    | _ => none
  | .reads i =>
    match (s.writers i).phase with
    | .found =>
      some (s.setRead i (loaded depth s.file (s.writers i).name (s.writers i).value))
    | _ => none
  | .creates i mode =>
    match (s.writers i).phase with
    | .serialized payload => some (s.setPhase i (.created ⟨mode, []⟩ payload))
    | _ => none
  | .chmods i =>
    match (s.writers i).phase with
    | .created temp payload => some (s.setPhase i (.writing { temp with mode := 0o600 } payload))
    | _ => none
  | .writes i n =>
    match (s.writers i).phase with
    | .writing temp rest =>
      some (s.setPhase i
        (.writing { temp with bytes := temp.bytes ++ rest.take n } (rest.drop n)))
    | _ => none
  | .replaces i =>
    match (s.writers i).phase with
    | .writing temp [] =>
      some { s.setPhase i (.ended .staged) with
        file := some temp
        staged := s.staged ++ [((s.writers i).name, (s.writers i).value)] }
    | _ => none
  | .fails i =>
    match (s.writers i).phase with
    | .idle | .ended _ => none
    | .found => some (s.setPhase i (.ended .unreadable))
    | _ => some (s.setPhase i (.ended .osError))
  | .starts k => some (s.setReader k ⟨none, none, [], s.staged.length⟩)
  | .asks k name =>
    if (s.readers k).opening = none then
      some (s.setReader k ((s.readers k).ask str s.file name))
    else none
  | .opens k =>
    match (s.readers k).opening with
    | some name => some (s.setReader k ((s.readers k).open depth str s.file name))
    | none => none

def credentials (ι κ : Type*) [DecidableEq ι] [DecidableEq κ] (depth : Nat)
    (str : Value → PyStr) : System (State ι κ) (Act ι κ) where
  init s := s.file = none ∧ s.staged = [] ∧ (∀ i, (s.writers i).phase = .idle) ∧
    ∀ k, s.readers k = ⟨none, none, [], 0⟩
  step := State.step depth str

end System

section Objects

theorem fst_of_find? {α β : Type*} [DecidableEq α] {l : List (α × β)} {key : α} {p : α × β}
    (h : l.find? (·.1 = key) = some p) : p.1 = key := by
  simpa using List.find?_some h

def latest (log : List (String × String)) (name : String) : Option String :=
  (log.reverse.find? (·.1 = name)).map (·.2)

theorem latest_append (log : List (String × String)) (name value name' : String) :
    latest (log ++ [(name, value)]) name' =
      if name = name' then some value else latest log name' := by
  unfold latest
  rw [List.reverse_append, List.reverse_singleton, List.singleton_append, List.find?_cons]
  split
  · rename_i h
    rw [if_pos (of_decide_eq_true h)]
    rfl
  · rename_i h
    rw [if_neg (of_decide_eq_false h)]

variable {pairs pairs' : List (PyStr × Value)} {key k : PyStr} {p : PyStr × Value}

theorem keys_setItem (pairs : List (PyStr × Value)) (key : PyStr) (v : Value) :
    (setItem pairs key v).map (·.1) =
      if key ∈ pairs.map (·.1) then pairs.map (·.1) else pairs.map (·.1) ++ [key] := by
  by_cases h : key ∈ pairs.map (·.1)
  · rw [if_pos h, setItem, if_pos (by simpa using h), List.map_map]
    refine List.map_congr_left fun p _ => ?_
    dsimp only [Function.comp]
    split
    · rename_i hp
      exact hp.symm
    · rfl
  · rw [if_neg h, setItem_fresh v h, List.map_append]
    rfl

theorem find?_setItem (pairs : List (PyStr × Value)) (key k : PyStr) (v : Value) :
    (setItem pairs key v).find? (·.1 = k) =
      if key = k then some (key, v) else pairs.find? (·.1 = k) := by
  by_cases h : key ∈ pairs.map (·.1)
  · have hany : pairs.any (·.1 = key) = true := by simpa using h
    have hkeys : ((fun p : PyStr × Value => decide (p.1 = k)) ∘
        fun p => if p.1 = key then (key, v) else p) = fun p => decide (p.1 = k) := by
      funext p
      dsimp only [Function.comp]
      split
      · rename_i hp
        rw [hp]
      · rfl
    rw [setItem, if_pos hany, List.find?_map, hkeys]
    cases hfind : pairs.find? (·.1 = k) with
    | none =>
      rw [if_neg, Option.map_none]
      rintro rfl
      obtain ⟨p, hp, hkey⟩ := List.mem_map.mp h
      exact List.find?_eq_none.mp hfind p hp (decide_eq_true hkey)
    | some p =>
      have hp : p.1 = k := fst_of_find? hfind
      rw [Option.map_some, hp]
      by_cases hk : key = k
      · rw [if_pos hk, if_pos hk.symm]
      · rw [if_neg hk, if_neg (Ne.symm hk)]
  · rw [setItem_fresh v h, List.find?_append, List.find?_singleton]
    by_cases hk : key = k
    · subst hk
      have hnone : pairs.find? (·.1 = key) = none := by
        refine List.find?_eq_none.mpr fun p hp hkey => h ?_
        exact List.mem_map.mpr ⟨p, hp, of_decide_eq_true hkey⟩
      rw [hnone, Option.none_or, if_pos rfl, if_pos (decide_eq_true rfl)]
    · rw [if_neg hk, if_neg (by simpa using hk), Option.or_none]

theorem find?_key (h : (pairs.map (·.1)).Nodup) :
    pairs.find? (·.1 = k) = some p ↔ p ∈ pairs ∧ p.1 = k := by
  constructor
  · intro hfind
    exact ⟨List.mem_of_find?_eq_some hfind, fst_of_find? hfind⟩
  · rintro ⟨hp, hk⟩
    have hsome : (pairs.find? (·.1 = k)).isSome :=
      List.find?_isSome.mpr ⟨p, hp, decide_eq_true hk⟩
    obtain ⟨q, hq⟩ := Option.isSome_iff_exists.mp hsome
    have hsame : q.1 = p.1 := (fst_of_find? hq).trans hk.symm
    rw [hq, List.inj_on_of_nodup_map h (List.mem_of_find?_eq_some hq) hp hsame]

/-- The object of the entries of a log: text for text, under each name what it was staged with
last. -/
structure Texts (log : List (String × String)) (pairs : List (PyStr × Value)) : Prop where
  nodup : (pairs.map (·.1)).Nodup
  entries : ∀ p ∈ pairs, ∃ name value, p = (ofText name, .str (ofText value))
  lookup : ∀ name, lookup name pairs = (latest log name).map fun value => .str (ofText value)

variable {log : List (String × String)}

theorem texts_nil : Texts [] [] :=
  ⟨List.nodup_nil, by simp, fun _ => rfl⟩

theorem Texts.set (h : Texts log pairs) (name value : String) :
    Texts (log ++ [(name, value)]) (setItem pairs (ofText name) (.str (ofText value))) := by
  refine ⟨?_, fun p hp => ?_, fun name' => ?_⟩
  · rw [keys_setItem]
    split
    · exact h.nodup
    · rename_i hfresh
      refine List.nodup_append.mpr ⟨h.nodup, List.nodup_singleton _, ?_⟩
      rintro a ha b hb rfl
      exact hfresh (List.mem_singleton.mp hb ▸ ha)
  · unfold setItem at hp
    split at hp
    · obtain ⟨q, hq, rfl⟩ := List.mem_map.mp hp
      split
      · exact ⟨name, value, rfl⟩
      · exact h.entries q hq
    · obtain hp | hp := List.mem_append.mp hp
      · exact h.entries p hp
      · exact ⟨name, value, List.mem_singleton.mp hp⟩
  · rw [Json.lookup, find?_setItem, latest_append]
    by_cases hname : name = name'
    · rw [if_pos (congrArg ofText hname), if_pos hname]
      rfl
    · rw [if_neg (fun hkey => hname (ofText_inj.mp hkey)), if_neg hname]
      exact h.lookup name'

theorem Texts.perm (h : Texts log pairs) (hperm : pairs.Perm pairs') : Texts log pairs' := by
  have hnodup : (pairs'.map (·.1)).Nodup := (hperm.map _).nodup_iff.mp h.nodup
  refine ⟨hnodup, fun p hp => h.entries p (hperm.mem_iff.mpr hp), fun name => ?_⟩
  rw [← h.lookup, Json.lookup, Json.lookup]
  congr 1
  ext p
  rw [find?_key hnodup, find?_key h.nodup, hperm.mem_iff]

theorem sortKeysPairs_texts : ∀ {pairs : List (PyStr × Value)},
    (∀ p ∈ pairs, ∃ name value, p = (ofText name, .str (ofText value))) →
    sortKeysPairs pairs = pairs
  | [], _ => rfl
  | (key, v) :: rest, h => by
    obtain ⟨name, value, hp⟩ := h _ List.mem_cons_self
    cases hp
    rw [sortKeysPairs, sortKeysPairs_texts fun p hp => h p (List.mem_cons_of_mem _ hp)]
    rfl

theorem legiblePairs_texts {room : Nat} : ∀ {pairs : List (PyStr × Value)},
    (∀ p ∈ pairs, ∃ name value, p = (ofText name, .str (ofText value))) →
    legiblePairs room pairs
  | [], _ => trivial
  | (key, v) :: rest, h => by
    obtain ⟨name, value, hp⟩ := h _ List.mem_cons_self
    cases hp
    exact ⟨scalar_ofText _, scalar_ofText _,
      legiblePairs_texts fun p hp => h p (List.mem_cons_of_mem _ hp)⟩

theorem Texts.legible {depth : Nat} (hdepth : 0 < depth) (h : Texts log pairs) :
    (Value.obj pairs).Legible depth :=
  ⟨hdepth, h.nodup, legiblePairs_texts h.entries⟩

theorem getSecret_texts (h : Texts log pairs) (str : Value → PyStr) (name : String) :
    getSecret str pairs name = (latest log name).map ofText := by
  rw [getSecret, h.lookup]
  cases latest log name with
  | none => rfl
  | some value => rfl

def Holds (depth : Nat) (log : List (String × String)) (bytes : Bytes) : Prop :=
  ∃ pairs, Texts log pairs ∧ readObject depth bytes = .ok pairs

theorem merged_texts {depth : Nat} (hdepth : 0 < depth) (h : Texts log pairs)
    (name value : String) :
    ∃ payload, merged depth pairs name value = .serialized payload ∧
      Holds depth (log ++ [(name, value)]) payload := by
  let existing := setItem pairs (ofText name) (.str (ofText value))
  have hset : Texts (log ++ [(name, value)]) existing := h.set name value
  let written := existing.mergeSort fun p q => decide (Coalesce.codes p.1 ≤ Coalesce.codes q.1)
  have hwritten : Texts (log ++ [(name, value)]) written :=
    hset.perm (List.mergeSort_perm _ _).symm
  have hsort : sortKeys (.obj existing) = .obj written := by
    rw [sortKeys, sortKeysPairs_texts hset.entries]
  have hloads : loads depth (String.ofList (payloadText existing)) = .ok (.obj written) := by
    rw [payloadText, hsort]
    exact loads_dumps (some 2) (hwritten.legible hdepth) (by simp [isWhite])
  refine ⟨utf8 (payloadText existing), ?_, written, hwritten, ?_⟩
  · simp only [merged]
    rw [hloads]
  · have hdecoded : decoded depth (utf8 (payloadText existing)) = some (.ok (.obj written)) := by
      rw [decoded, decodeUtf8_utf8, Option.map_some, hloads]
    rw [readObject, hdecoded]

end Objects

section Invariant

abbrev Log := List (String × String)

variable {ι κ : Type*} {depth : Nat} {str : Value → PyStr} {R : Log → Log → Prop}
  {ok : State ι κ → Act ι κ → Prop} {s t : State ι κ} {act : Act ι κ}

/-- `R kept staged`: of the entries `staged`, a file may hold `kept` only. It is enough to know so
of the file that a run has read. -/
structure Keeps (R : Log → Log → Prop) (ok : State ι κ → Act ι κ → Prop) : Prop where
  start : R [] []
  replace : ∀ s i kept entry, ok s (.replaces i) → (s.writers i).seen ≤ s.staged.length →
    R kept (s.staged.take (s.writers i).seen) → R (kept ++ [entry]) (s.staged ++ [entry])

/-- What a run is about to write holds what it read, and its own entry. -/
def Writer.Carries (depth : Nat) (R : Log → Log → Prop) (staged : Log) (w : Writer)
    (payload : Bytes) : Prop :=
  w.seen ≤ staged.length ∧ ∃ kept, R kept (staged.take w.seen) ∧
    Holds depth (kept ++ [(w.name, w.value)]) payload

def Writer.Sound (depth : Nat) (R : Log → Log → Prop) (file : Option File) (staged : Log)
    (w : Writer) : Prop :=
  match w.phase with
  | .idle | .entered => True
  | .found => file.isSome
  | .serialized payload => w.Carries depth R staged payload
  | .created temp payload => temp.bytes = [] ∧ w.Carries depth R staged payload
  | .writing temp rest => temp.mode = 0o600 ∧ w.Carries depth R staged (temp.bytes ++ rest)
  | .ended outcome => ∀ why, outcome ≠ .malformed why

/-- What a process has answered, from what there was in the file when it read it. -/
def Reader.Faithful (R : Log → Log → Prop) (staged : Log) (reader : Reader) (kept : Log) (n : Nat) :
    Prop :=
  reader.born ≤ n ∧ n ≤ staged.length ∧ R kept (staged.take n) ∧
    ∀ a ∈ reader.answers, a.2 = .ok ((latest kept a.1).map ofText)

structure Reader.Sound (R : Log → Log → Prop) (file : Option File) (staged : Log)
    (reader : Reader) : Prop where
  born : reader.born ≤ staged.length
  fresh : reader.cache = none → reader.answers = []
  cached : ∀ data ∈ reader.cache, ∃ kept n, Texts kept data ∧ reader.Faithful R staged kept n
  opening : reader.opening.isSome → reader.cache = none ∧ file.isSome

structure Invariant (depth : Nat) (R : Log → Log → Prop) (s : State ι κ) : Prop where
  absent : s.file = none → s.staged = []
  file : ∀ file ∈ s.file, file.mode = 0o600 ∧ ∃ kept, R kept s.staged ∧ Holds depth kept file.bytes
  writers : ∀ i, (s.writers i).Sound depth R s.file s.staged
  readers : ∀ k, (s.readers k).Sound R s.file s.staged

theorem init_invariant [DecidableEq ι] [DecidableEq κ] (h : (credentials ι κ depth str).init s) :
    Invariant depth R s := by
  obtain ⟨hfile, hstaged, hwriters, hreaders⟩ := h
  refine ⟨fun _ => hstaged, by simp [hfile], fun i => ?_, fun k => ?_⟩
  · simp [Writer.Sound, hwriters i]
  · rw [hreaders k]
    exact ⟨Nat.zero_le _, fun _ => rfl, by simp, by simp⟩

theorem setWriter_invariant [DecidableEq ι] (h : Invariant depth R s) {i : ι} {w : Writer}
    (hw : w.Sound depth R s.file s.staged) :
    Invariant depth R { s with writers := Function.update s.writers i w } := by
  refine ⟨h.absent, h.file, fun j => ?_, h.readers⟩
  dsimp only
  by_cases hj : j = i
  · rw [hj, Function.update_self]
    exact hw
  · rw [Function.update_of_ne hj]
    exact h.writers j

theorem setReader_invariant [DecidableEq κ] (h : Invariant depth R s) {k : κ} {reader : Reader}
    (hreader : reader.Sound R s.file s.staged) : Invariant depth R (s.setReader k reader) := by
  refine ⟨h.absent, h.file, h.writers, fun j => ?_⟩
  dsimp only [State.setReader]
  by_cases hj : j = k
  · rw [hj, Function.update_self]
    exact hreader
  · rw [Function.update_of_ne hj]
    exact h.readers j

theorem merged_sound (hdepth : 0 < depth) {kept : Log} {pairs : List (PyStr × Value)}
    (hkept : R kept s.staged) (htexts : Texts kept pairs) (w : Writer) :
    ({ w with phase := merged depth pairs w.name w.value, seen := s.staged.length } :
      Writer).Sound depth R s.file s.staged := by
  obtain ⟨payload, hmerged, hholds⟩ := merged_texts hdepth htexts w.name w.value
  rw [hmerged]
  exact ⟨le_rfl, kept, by rwa [List.take_length], hholds⟩

theorem looks_invariant [DecidableEq ι] (hdepth : 0 < depth) (hkeeps : Keeps R ok)
    (h : Invariant depth R s) (i : ι) :
    Invariant depth R (if s.file.isSome then s.setPhase i .found
      else s.setRead i (merged depth [] (s.writers i).name (s.writers i).value)) := by
  split
  · rename_i hthere
    exact setWriter_invariant h hthere
  · rename_i hnone
    have hempty : s.staged = [] := h.absent (by simpa using hnone)
    refine setWriter_invariant h (merged_sound hdepth ?_ texts_nil (s.writers i))
    rw [hempty]
    exact hkeeps.start

theorem reads_invariant [DecidableEq ι] (hdepth : 0 < depth) (h : Invariant depth R s) {i : ι}
    (hphase : (s.writers i).phase = .found) :
    Invariant depth R
      (s.setRead i (loaded depth s.file (s.writers i).name (s.writers i).value)) := by
  have hthere := h.writers i
  simp only [Writer.Sound, hphase] at hthere
  obtain ⟨file, hfile⟩ := Option.isSome_iff_exists.mp hthere
  obtain ⟨-, kept, hkept, pairs, htexts, hread⟩ := h.file file hfile
  have hloaded : loaded depth s.file (s.writers i).name (s.writers i).value =
      merged depth pairs (s.writers i).name (s.writers i).value := by
    rw [hfile]
    simp only [loaded]
    rw [hread]
  rw [hloaded]
  exact setWriter_invariant h (merged_sound hdepth hkept htexts (s.writers i))

theorem Writer.Carries.add {staged : Log} {w : Writer} {payload : Bytes}
    (h : w.Carries depth R staged payload) (entry : String × String) :
    w.Carries depth R (staged ++ [entry]) payload := by
  obtain ⟨hseen, kept, hkept, hholds⟩ := h
  refine ⟨by rw [List.length_append]; omega, kept, ?_, hholds⟩
  rwa [List.take_append_of_le_length hseen]

theorem Writer.Sound.add {file : Option File} {staged : Log} {w : Writer}
    (h : w.Sound depth R file staged) (file' : File) (entry : String × String) :
    w.Sound depth R (some file') (staged ++ [entry]) := by
  unfold Writer.Sound at h ⊢
  split
  · trivial
  · trivial
  · rfl
  · rename_i hphase
    simp only [hphase] at h
    exact h.add entry
  · rename_i hphase
    simp only [hphase] at h
    exact ⟨h.1, h.2.add entry⟩
  · rename_i hphase
    simp only [hphase] at h
    exact ⟨h.1, h.2.add entry⟩
  · rename_i hphase
    simp only [hphase] at h
    exact h

theorem Reader.Sound.add {file : Option File} {staged : Log} {reader : Reader}
    (h : reader.Sound R file staged) (file' : File) (entry : String × String) :
    reader.Sound R (some file') (staged ++ [entry]) := by
  have hlength : (staged ++ [entry]).length = staged.length + 1 := by simp
  refine ⟨by rw [hlength]; exact Nat.le_succ_of_le h.born, h.fresh, fun data hdata => ?_,
    fun hopen => ⟨(h.opening hopen).1, rfl⟩⟩
  obtain ⟨kept, n, htexts, hborn, hn, hkept, hanswers⟩ := h.cached data hdata
  refine ⟨kept, n, htexts, hborn, by omega, ?_, hanswers⟩
  rwa [List.take_append_of_le_length hn]

/-- The one step that publishes: the temporary file is whole, and its mode was set before. -/
theorem replaces_invariant [DecidableEq ι] (hkeeps : Keeps R ok) (h : Invariant depth R s) {i : ι}
    (hok : ok s (.replaces i)) {temp : File} (hphase : (s.writers i).phase = .writing temp []) :
    Invariant depth R { s.setPhase i (.ended .staged) with
      file := some temp
      staged := s.staged ++ [((s.writers i).name, (s.writers i).value)] } := by
  have hsound := h.writers i
  simp only [Writer.Sound, hphase, List.append_nil] at hsound
  obtain ⟨hmode, hseen, kept, hkept, hholds⟩ := hsound
  refine ⟨by simp, fun file hfile => ?_, fun j => ?_, fun k => ?_⟩
  · cases hfile
    exact ⟨hmode, _, hkeeps.replace s i kept _ hok hseen hkept, hholds⟩
  · dsimp only [State.setPhase]
    by_cases hj : j = i
    · rw [hj, Function.update_self]
      intro why
      simp
    · rw [Function.update_of_ne hj]
      exact (h.writers j).add temp _
  · exact (h.readers k).add temp _

theorem load_sound (h : Invariant depth R s) {k : κ} (hcache : (s.readers k).cache = none)
    (name : String) {kept : Log} {data : List (PyStr × Value)} (hkept : R kept s.staged)
    (htexts : Texts kept data) :
    ((s.readers k).load str name data).Sound R s.file s.staged := by
  have hreader := h.readers k
  refine ⟨hreader.born, by simp [Reader.load, Reader.answer], fun data' hdata => ?_,
    by simp [Reader.load, Reader.answer]⟩
  cases hdata
  refine ⟨kept, s.staged.length, htexts, hreader.born, le_rfl, ?_, fun a ha => ?_⟩
  · rwa [List.take_length]
  · simp only [Reader.load, Reader.answer, hreader.fresh hcache, List.nil_append,
      List.mem_singleton] at ha
    rw [ha, getSecret_texts htexts]

theorem ask_sound (hkeeps : Keeps R ok) (h : Invariant depth R s) (k : κ) (name : String) :
    ((s.readers k).ask str s.file name).Sound R s.file s.staged := by
  have hreader := h.readers k
  unfold Reader.ask
  cases hcache : (s.readers k).cache with
  | some data =>
    refine ⟨hreader.born, by simp [Reader.answer, hcache], fun data' hdata => ?_,
      by simp [Reader.answer]⟩
    obtain ⟨kept, n, htexts, hborn, hn, hkept, hanswers⟩ := hreader.cached data' hdata
    refine ⟨kept, n, htexts, hborn, hn, hkept, fun a ha => ?_⟩
    obtain rfl : data = data' := Option.some.inj (hcache.symm.trans hdata)
    obtain ha | ha := List.mem_append.mp ha
    · exact hanswers a ha
    · rw [List.mem_singleton.mp ha, getSecret_texts htexts]
  | none =>
    cases hfile : s.file with
    | none =>
      have hempty : R [] s.staged := by
        rw [h.absent hfile]
        exact hkeeps.start
      have hsound : ((s.readers k).load str name []).Sound R s.file s.staged :=
        load_sound h hcache name hempty texts_nil
      rwa [hfile] at hsound
    | some file =>
      dsimp only
      rw [if_pos (h.file file hfile).1]
      exact ⟨hreader.born, fun _ => hreader.fresh hcache, by simp, fun _ => ⟨rfl, rfl⟩⟩

theorem open_sound (h : Invariant depth R s) {k : κ} {name : String}
    (hopening : (s.readers k).opening = some name) :
    ((s.readers k).open depth str s.file name).Sound R s.file s.staged := by
  obtain ⟨hcache, hthere⟩ := (h.readers k).opening (by rw [hopening]; rfl)
  obtain ⟨file, hfile⟩ := Option.isSome_iff_exists.mp hthere
  obtain ⟨-, kept, hkept, data, htexts, hread⟩ := h.file file hfile
  have hload : (s.readers k).open depth str s.file name = (s.readers k).load str name data := by
    rw [hfile]
    simp only [Reader.open]
    rw [hread]
  rw [hload]
  exact load_sound h hcache name hkept htexts

variable [DecidableEq ι] [DecidableEq κ]

theorem step_invariant (hdepth : 0 < depth) (hkeeps : Keeps R ok) (h : Invariant depth R s)
    (hok : ok s act) (hstep : (credentials ι κ depth str).step s act = some t) :
    Invariant depth R t := by
  cases act with
  | begins i name text =>
    have hw : Writer.Sound depth R s.file s.staged ⟨name, stripped text,
        if stripped text = "" then .ended .empty else .entered, 0⟩ := by
      unfold Writer.Sound
      split_ifs
      · intro why
        simp
      · trivial
    simp only [credentials, State.step] at hstep
    split at hstep
    · cases hstep
      exact setWriter_invariant h hw
    · cases hstep
      exact setWriter_invariant h hw
    · cases hstep
  | looks i =>
    simp only [credentials, State.step] at hstep
    split at hstep
    · cases hstep
      exact looks_invariant hdepth hkeeps h i
    · cases hstep
  | reads i =>
    simp only [credentials, State.step] at hstep
    split at hstep
    · rename_i hphase
      cases hstep
      exact reads_invariant hdepth h hphase
    · cases hstep
  | creates i mode =>
    simp only [credentials, State.step] at hstep
    split at hstep
    · rename_i payload hphase
      cases hstep
      have hw := h.writers i
      simp only [Writer.Sound, hphase] at hw
      exact setWriter_invariant h ⟨rfl, hw⟩
    · cases hstep
  | chmods i =>
    simp only [credentials, State.step] at hstep
    split at hstep
    · rename_i temp payload hphase
      cases hstep
      have hw := h.writers i
      simp only [Writer.Sound, hphase] at hw
      refine setWriter_invariant h ⟨rfl, ?_⟩
      dsimp only
      rw [hw.1]
      exact hw.2
    · cases hstep
  | writes i n =>
    simp only [credentials, State.step] at hstep
    split at hstep
    · rename_i temp rest hphase
      cases hstep
      have hw := h.writers i
      simp only [Writer.Sound, hphase] at hw
      refine setWriter_invariant h ⟨hw.1, ?_⟩
      rw [List.append_assoc, List.take_append_drop]
      exact hw.2
    · cases hstep
  | replaces i =>
    simp only [credentials, State.step] at hstep
    split at hstep
    · rename_i temp hphase
      cases hstep
      exact replaces_invariant hkeeps h hok hphase
    · cases hstep
  | fails i =>
    simp only [credentials, State.step] at hstep
    split at hstep
    · cases hstep
    · cases hstep
    · cases hstep
      exact setWriter_invariant h fun why => by simp
    · cases hstep
      exact setWriter_invariant h fun why => by simp
  | starts k =>
    cases hstep
    exact setReader_invariant h ⟨le_rfl, fun _ => rfl, by simp, by simp⟩
  | asks k name =>
    simp only [credentials, State.step] at hstep
    split at hstep
    · cases hstep
      exact setReader_invariant h (ask_sound hkeeps h k name)
    · cases hstep
  | opens k =>
    simp only [credentials, State.step] at hstep
    split at hstep
    · rename_i name hopening
      cases hstep
      exact setReader_invariant h (open_sound h hopening)
    · cases hstep

theorem reach_invariant (hdepth : 0 < depth) (hkeeps : Keeps R ok)
    (h : Reach (credentials ι κ depth str) ok s) : Invariant depth R s :=
  h.invariant (fun _ => init_invariant) fun _ _ _ _ hs hok => step_invariant hdepth hkeeps hs hok

end Invariant

section Results

variable {ι κ : Type*} {depth : Nat} {str : Value → PyStr} {s : State ι κ}

/-- What a file keeps under any interleaving: some of the entries in their order, and the last. -/
def Survives (kept staged : Log) : Prop :=
  kept.Sublist staged ∧ kept.getLast? = staged.getLast?

theorem keeps_survives : Keeps Survives fun (_ : State ι κ) _ => True := by
  refine ⟨⟨List.Sublist.refl _, rfl⟩, fun s i kept entry _ _ hkept => ⟨?_, ?_⟩⟩
  · exact (hkept.1.trans (List.take_sublist _ _)).append (List.Sublist.refl _)
  · rw [List.getLast?_concat, List.getLast?_concat]

def Unraced (s : State ι κ) : Act ι κ → Prop
  | .replaces i => (s.writers i).seen = s.staged.length
  | _ => True

instance decidableUnraced (s : State ι κ) : ∀ act, Decidable (Unraced s act)
  | .replaces i => inferInstanceAs (Decidable ((s.writers i).seen = s.staged.length))
  | .begins .. | .looks _ | .reads _ | .creates .. | .chmods _ | .writes .. | .fails _ | .starts _
  | .asks .. | .opens _ => isTrue trivial

theorem keeps_unraced : Keeps (· = ·) (Unraced (ι := ι) (κ := κ)) := by
  refine ⟨rfl, fun s i kept entry hok _ hkept => ?_⟩
  have hseen : (s.writers i).seen = s.staged.length := hok
  rw [hseen, List.take_length] at hkept
  rw [hkept]

variable [DecidableEq ι] [DecidableEq κ]

/-- However runs of `install-credentials` interleave, stop or fail: what a process answers under
all names comes from one list of entries, in the order in which they were staged, that goes on to
the last one staged before it read the file, and it read no earlier than it started. No run finds
the file malformed. -/
theorem secrets_survive (hdepth : 0 < depth) (h : Reachable (credentials ι κ depth str) s) :
    (∀ i why, (s.writers i).phase ≠ .ended (.malformed why)) ∧
    ∀ k, ∃ kept n, (s.readers k).born ≤ n ∧ n ≤ s.staged.length ∧
      kept.Sublist (s.staged.take n) ∧ kept.getLast? = (s.staged.take n).getLast? ∧
      ∀ a ∈ (s.readers k).answers, a.2 = .ok ((latest kept a.1).map ofText) := by
  have hinv := reach_invariant hdepth keeps_survives h
  refine ⟨fun i why hphase => ?_, fun k => ?_⟩
  · have hw := hinv.writers i
    simp only [Writer.Sound, hphase] at hw
    exact hw why rfl
  · cases hcache : (s.readers k).cache with
    | none =>
      refine ⟨s.staged, s.staged.length, (hinv.readers k).born, le_rfl, ?_, ?_, ?_⟩
      · rw [List.take_length]
      · rw [List.take_length]
      · simp [(hinv.readers k).fresh hcache]
    | some data =>
      obtain ⟨kept, n, -, hborn, hn, hkept, hanswers⟩ := (hinv.readers k).cached data hcache
      exact ⟨kept, n, hborn, hn, hkept.1, hkept.2, hanswers⟩

abbrev Sample := State Bool Unit

def sampleSystem : System Sample (Act Bool Unit) :=
  credentials Bool Unit 9 fun _ => []

def sampleStart : Sample :=
  ⟨none, fun _ => ⟨"", "", .idle, 0⟩, fun _ => ⟨none, none, [], 0⟩, []⟩

theorem sample_init : sampleSystem.init sampleStart :=
  ⟨rfl, rfl, fun _ => rfl, fun _ => rfl⟩

def sampleAnswers (s : Sample) : List (String × Option (Option PyStr)) :=
  (s.readers ()).answers.map fun a => (a.1, a.2.toOption)

/-- Both runs find no file, so the second replacement loses the first entry. -/
def raceActs : List (Act Bool Unit) :=
  [.begins true "alert" "first\n", .begins false "hook" "second", .looks true, .looks false,
    .creates true 0o640, .chmods true, .writes true 3, .writes true 100, .creates false 0,
    .replaces true, .starts (), .asks () "alert", .chmods false, .writes false 100,
    .replaces false, .opens (), .asks () "hook"]

theorem race_staged : (sampleSystem.exec sampleStart raceActs).map (·.staged) =
    some [("alert", "first"), ("hook", "second")] := by
  decide +kernel

theorem race_answers : (sampleSystem.exec sampleStart raceActs).map sampleAnswers =
    some [("alert", some none), ("hook", some (some (ofText "second")))] := by
  decide +kernel

theorem secrets_survive_run : ∃ s : Sample,
    s.staged = [("alert", "first"), ("hook", "second")] ∧
    sampleAnswers s = [("alert", some none), ("hook", some (some (ofText "second")))] ∧
    ∃ kept n, kept.Sublist (s.staged.take n) ∧
      kept.getLast? = (s.staged.take n).getLast? ∧
      ∀ a ∈ (s.readers ()).answers, a.2 = .ok ((latest kept a.1).map ofText) := by
  obtain ⟨s, hrun, hstaged⟩ := Option.map_eq_some_iff.mp race_staged
  have hanswers := race_answers
  rw [hrun] at hanswers
  have hreach : Reachable sampleSystem s := Reachable.exec (.start sample_init) hrun
  obtain ⟨kept, n, -, -, hsub, hlast, hall⟩ := (secrets_survive (by decide) hreach).2 ()
  exact ⟨s, hstaged, Option.some.inj hanswers, kept, n, hsub, hlast, hall⟩

/-- Where no other run comes between the reading and the replacement, no entry is lost: a process
answers with the value staged last under the name. -/
theorem secrets_latest (hdepth : 0 < depth) (h : Reach (credentials ι κ depth str) Unraced s)
    (k : κ) : ∃ n, (s.readers k).born ≤ n ∧ n ≤ s.staged.length ∧
      ∀ a ∈ (s.readers k).answers, a.2 = .ok ((latest (s.staged.take n) a.1).map ofText) := by
  have hinv := reach_invariant hdepth keeps_unraced h
  cases hcache : (s.readers k).cache with
  | none =>
    refine ⟨s.staged.length, (hinv.readers k).born, le_rfl, ?_⟩
    simp [(hinv.readers k).fresh hcache]
  | some data =>
    obtain ⟨kept, n, -, hborn, hn, rfl, hanswers⟩ := (hinv.readers k).cached data hcache
    exact ⟨n, hborn, hn, hanswers⟩

/-- The second run reads the file of the first; a daemon that started between them keeps to what it
read then. -/
def turnActs : List (Act Bool Unit) :=
  [.begins true "alert" "first\n", .looks true, .creates true 0o600, .chmods true,
    .writes true 100, .replaces true, .starts (), .asks () "alert", .opens (),
    .begins false "alert" "second", .looks false, .reads false, .creates false 0o600,
    .chmods false, .writes false 100, .replaces false, .asks () "alert", .asks () "hook"]

theorem turn_staged : (sampleSystem.exec sampleStart turnActs).map (·.staged) =
    some [("alert", "first"), ("alert", "second")] := by
  decide +kernel

theorem turn_answers : (sampleSystem.exec sampleStart turnActs).map sampleAnswers =
    some [("alert", some (some (ofText "first"))), ("alert", some (some (ofText "first"))),
      ("hook", some none)] := by
  decide +kernel

theorem turn_unraced : sampleSystem.Meets Unraced sampleStart turnActs := by
  decide +kernel

theorem secrets_latest_run : ∃ s : Sample,
    s.staged = [("alert", "first"), ("alert", "second")] ∧
    sampleAnswers s = [("alert", some (some (ofText "first"))),
      ("alert", some (some (ofText "first"))), ("hook", some none)] ∧
    ∃ n, ∀ a ∈ (s.readers ()).answers, a.2 = .ok ((latest (s.staged.take n) a.1).map ofText) := by
  obtain ⟨s, hrun, hstaged⟩ := Option.map_eq_some_iff.mp turn_staged
  have hanswers := turn_answers
  rw [hrun] at hanswers
  have hreach : Reach sampleSystem Unraced s := .exec (.start sample_init) hrun turn_unraced
  obtain ⟨n, -, -, hall⟩ := secrets_latest (by decide) hreach ()
  exact ⟨s, hstaged, Option.some.inj hanswers, n, hall⟩

end Results

end Waitbus.Credentials
