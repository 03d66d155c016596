import Mathlib
import Waitbus.PublisherPins
import Waitbus.Runs

/-! The registry of one process over a run of registrations, those of entry points and those made in
process. The allowlist is a file that others write as well, also between the two times a single
registration reads it. -/

namespace Waitbus.Registration
open Python SourceRegistry PublisherPins Runs

section Dicts

variable {κ β : Type*} [DecidableEq κ]

/-- `d[key] = value`. -/
def assign (entries : List (κ × β)) (key : κ) (value : β) : List (κ × β) :=
  if key ∈ entries.map (·.1) then
    entries.map fun entry => if entry.1 = key then (key, value) else entry
  else entries ++ [(key, value)]

/-- `d.get(key)`. -/
def get (entries : List (κ × β)) (key : κ) : Option β :=
  (entries.find? (·.1 = key)).map (·.2)

theorem assign_fresh {entries : List (κ × β)} {key : κ} (value : β)
    (fresh : key ∉ entries.map (·.1)) : assign entries key value = entries ++ [(key, value)] :=
  if_neg fresh

theorem get_eq_none {entries : List (κ × β)} {key : κ} :
    get entries key = none ↔ key ∉ entries.map (·.1) := by
  simp only [get, Option.map_eq_none_iff, List.find?_eq_none, decide_eq_true_eq, List.mem_map,
    not_exists, not_and]

theorem get_of_mem {entries : List (κ × β)} (keys : (entries.map (·.1)).Nodup) {entry : κ × β}
    (h : entry ∈ entries) : get entries entry.1 = some entry.2 := by
  rw [get, Option.map_eq_some_iff]
  cases hfound : entries.find? (·.1 = entry.1) with
  | none =>
    have hno := List.find?_eq_none.mp hfound entry h
    simp only [decide_true, not_true_eq_false] at hno
  | some other =>
    have hkey : other.1 = entry.1 := by simpa using List.find?_some hfound
    rw [List.inj_on_of_nodup_map keys (List.mem_of_find?_eq_some hfound) h hkey]
    exact ⟨entry, rfl, rfl⟩

end Dicts

section Calls

/-- What `load_allowlist` comes to. -/
inductive Loaded where
  | pins (allowlist : Allowlist)
  | corrupt
  | failed

/-- What a registration meets on disk: the file as others leave it in the meantime, if any has
written, and whether writing succeeds; `now` is the clock. -/
structure Disk where
  meanwhile : Option Loaded
  writable : Bool
  now : PyStr

/-- `append_publisher_pin`, with what the file holds after it. -/
def recordPin (file : Loaded) (disk : Disk) (name : PyStr) (publisher : VerifiedPublisher) :
    Loaded × Except Rejection Unit :=
  match file with
  | .corrupt | .failed => (file, .error .raised)
  | .pins existing =>
    match appendPublisherPin existing name publisher.publisherKind publisher.publisherIdentity
      disk.now with
    | .error rejection => (file, .error rejection)
    | .ok (_, none) => (file, .ok ())
    | .ok (_, some written) =>
      if disk.writable then (.pins written, .ok ()) else (file, .error .raised)

/-- `_enforce_tofu`, which takes a corrupt file for one without pins. -/
def enforce (file : Loaded) (disk : Disk) (name : PyStr) (verified : Option VerifiedPublisher) :
    Loaded × Except Rejection Unit :=
  let prior :=
    match file with
    | .pins allowlist => some (allowlist.forSource name)
    | .corrupt => some none
    | .failed => none
  match prior with
  | none => (file, .error .raised)
  | some prior =>
    match enforceTofu prior verified with
    | .allow => (file, .ok ())
    | .reject => (file, .error .shadow)
    | .pin publisher => recordPin (disk.meanwhile.getD file) disk name publisher

/-- `_PLUGIN_SOURCES[spec.name] = spec`, and then the same for the publisher. -/
def write (registry : Registry) (spec : SourceSpec) (verified : Option VerifiedPublisher) :
    Registry where
  sources := assign registry.sources spec.name spec
  publishers := assign registry.publishers spec.name verified

structure State where
  registry : Registry
  file : Loaded

/-- What is given to `register_source`. -/
inductive Given where
  | spec (spec : SourceSpec)
  | other

inductive Call where
  | registerPlugin (ep : EntryPoint) (plugin : Plugin) (disk : Disk)
  | registerSource (given : Given)

def registerPlugin (s : State) (ep : EntryPoint) (plugin : Plugin) (disk : Disk) :
    State × Except Rejection SourceSpec :=
  match prepare s.registry ep plugin with
  | .error rejection => (s, .error rejection)
  | .ok (spec, verified) =>
    match enforce s.file disk spec.name verified with
    | (file, .error rejection) => ({ s with file }, .error rejection)
    | (file, .ok ()) => (⟨write s.registry spec verified, file⟩, .ok spec)

def registerSource (s : State) : Given → State × Except Rejection SourceSpec
  | .other => (s, .error .contract)
  | .spec spec =>
    match validateCommon s.registry spec with
    | .error rejection => (s, .error rejection)
    | .ok () => ({ s with registry := write s.registry spec none }, .ok spec)

def call (s : State) : Call → State × Except Rejection SourceSpec
  | .registerPlugin ep plugin disk => registerPlugin s ep plugin disk
  | .registerSource given => registerSource s given

inductive Act where
  | call (c : Call)
  /-- Somebody else changes the allowlist. -/
  | edit (file : Loaded)

def registration : System State Act where
  init s := s.registry = .empty
  step s
    | .call c => some (call s c).1
    | .edit file => some { s with file }

end Calls

section Soundness

variable {registry : Registry} {spec : SourceSpec}

/-- What the maps satisfy between two calls. -/
structure Sound (registry : Registry) : Prop where
  named : ∀ entry ∈ registry.sources, entry.1 = entry.2.name
  names : (registry.knownSources.map (·.1)).Nodup
  eventTypes : registry.knownSources.Pairwise fun a b =>
    List.Disjoint a.2.eventTypes b.2.eventTypes
  keys : registry.publishers.map (·.1) = registry.sources.map (·.1)

theorem sound_empty : Sound .empty where
  named := nofun
  names := by decide
  eventTypes := by
    change builtinSources.Pairwise fun a b => ∀ eventType ∈ a.2.eventTypes,
      eventType ∉ b.2.eventTypes
    decide
  keys := rfl

/-- A spec that passes the checks shares neither its name nor an event type with a known source. -/
theorem validateCommon_ok (h : validateCommon registry spec = .ok ()) :
    spec.name ∉ registry.knownSources.map (·.1) ∧
      ∀ other ∈ registry.knownSources, List.Disjoint other.2.eventTypes spec.eventTypes := by
  rw [validateCommon] at h
  split at h
  · nomatch h
  split at h
  · nomatch h
  split at h
  · nomatch h
  split at h
  · nomatch h
  · rename_i _ hbuiltin hplugin hcollisions
    have hname : spec.name ∉ registry.knownSources.map (·.1) := by
      rw [Registry.knownSources, List.map_append, List.mem_append, not_or]
      exact ⟨hbuiltin, hplugin⟩
    refine ⟨hname, ?_⟩
    intro other hother eventType hclaimed hdeclared
    have hdiffers : other.1 ≠ spec.name := by
      rintro hsame
      exact hname (hsame ▸ List.mem_map_of_mem hother)
    have hnone := List.filter_eq_nil_iff.mp (not_not.mp hcollisions) eventType hdeclared
    simp only [List.any_eq_true, not_exists, not_and] at hnone
    exact hnone other hother (by simpa using ⟨hdiffers, hclaimed⟩)

theorem knownSources_record (registry : Registry) (spec : SourceSpec)
    (verified : Option VerifiedPublisher) :
    (registry.record spec verified).knownSources =
      registry.knownSources ++ [(spec.name, spec)] :=
  (List.append_assoc ..).symm

theorem write_eq_record (sound : Sound registry) (verified : Option VerifiedPublisher)
    (fresh : spec.name ∉ registry.knownSources.map (·.1)) :
    write registry spec verified = registry.record spec verified := by
  have hsources : spec.name ∉ registry.sources.map (·.1) := by
    intro h
    apply fresh
    rw [Registry.knownSources, List.map_append]
    exact List.mem_append_right _ h
  have hpublishers : spec.name ∉ registry.publishers.map (·.1) := by
    rwa [sound.keys]
  rw [write, assign_fresh _ hsources, assign_fresh _ hpublishers, Registry.record]

theorem Sound.write (sound : Sound registry) (verified : Option VerifiedPublisher)
    (valid : validateCommon registry spec = .ok ()) :
    Sound (write registry spec verified) := by
  have ⟨hname, htypes⟩ := validateCommon_ok valid
  rw [write_eq_record sound verified hname]
  constructor
  · intro entry hentry
    rw [Registry.record, List.mem_append, List.mem_singleton] at hentry
    cases hentry with
    | inl hold => exact sound.named entry hold
    | inr hnew => rw [hnew]
  · rw [knownSources_record, List.map_append]
    exact sound.names.append (List.nodup_singleton _)
      (by simpa only [List.map_singleton, List.disjoint_singleton] using hname)
  · rw [knownSources_record, List.pairwise_append]
    refine ⟨sound.eventTypes, List.pairwise_singleton _ _, ?_⟩
    intro other hother entry hentry
    rw [List.mem_singleton.mp hentry]
    exact htypes other hother
  · simp only [Registry.record, List.map_append, sound.keys, List.map_singleton]

theorem prepare_valid {ep : EntryPoint} {plugin : Plugin} {verified : Option VerifiedPublisher}
    (h : prepare registry ep plugin = .ok (spec, verified)) :
    validateCommon registry spec = .ok () := by
  rw [prepare] at h
  split at h
  · cases h
  split at h
  · cases h
  · cases h
  split at h
  · cases h
  · rename_i s _ _
    cases hvalid : validateCommon registry s with
    | error rejection =>
      rw [hvalid] at h
      cases h
    | ok =>
      rw [hvalid] at h
      cases hverified : verifyPublisher ep.verification with
      | error rejection =>
        rw [hverified] at h
        cases h
      | ok publisher =>
        rw [hverified] at h
        rw [← (Prod.mk.inj (Except.ok.inj h)).1]
        exact hvalid

/-- A call writes both maps, once it has passed every check, or it raises and writes neither. -/
theorem call_cases (s : State) (c : Call) :
    (∃ rejection, (call s c).2 = .error rejection ∧ (call s c).1.registry = s.registry) ∨
      ∃ spec verified, (call s c).2 = .ok spec ∧ validateCommon s.registry spec = .ok () ∧
        (call s c).1.registry = write s.registry spec verified := by
  cases c with
  | registerPlugin ep plugin disk =>
    rw [call, registerPlugin]
    cases hprepared : prepare s.registry ep plugin with
    | error rejection => exact .inl ⟨rejection, rfl, rfl⟩
    | ok prepared =>
      obtain ⟨spec, verified⟩ := prepared
      dsimp only
      split
      · rename_i file rejection _
        exact .inl ⟨rejection, rfl, rfl⟩
      · exact .inr ⟨spec, verified, rfl, prepare_valid hprepared, rfl⟩
  | registerSource given =>
    rw [call]
    cases given with
    | other => exact .inl ⟨.contract, rfl, rfl⟩
    | spec spec =>
      rw [registerSource]
      cases hvalid : validateCommon s.registry spec with
      | error rejection => exact .inl ⟨rejection, rfl, rfl⟩
      | ok => exact .inr ⟨spec, none, rfl, hvalid, rfl⟩

theorem sound_call {s : State} (sound : Sound s.registry) (c : Call) :
    Sound (call s c).1.registry := by
  cases call_cases s c with
  | inl h =>
    obtain ⟨_, _, hsame⟩ := h
    rwa [hsame]
  | inr h =>
    obtain ⟨_, verified, _, hvalid, hwritten⟩ := h
    rw [hwritten]
    exact sound.write verified hvalid

theorem sound_reachable {s : State} (h : Reachable registration s) : Sound s.registry := by
  refine h.invariant (I := fun s => Sound s.registry) ?_ ?_
  · intro s hempty
    rw [hempty]
    exact sound_empty
  · intro s act t _ sound _ hstep
    cases act with
    | call c =>
      rw [← Option.some.inj hstep]
      exact sound_call sound c
    | edit file =>
      rw [← Option.some.inj hstep]
      exact sound

instance : Std.Symm fun a b : PyStr × SourceSpec =>
    List.Disjoint a.2.eventTypes b.2.eventTypes where
  symm _ _ h := List.disjoint_comm.mp h

theorem Sound.apart (sound : Sound registry) :
    List.Disjoint (builtinSources.map (·.1)) (registry.sources.map (·.1)) := by
  have hnodup := sound.names
  rw [Registry.knownSources, List.map_append] at hnodup
  exact (List.nodup_append'.mp hnodup).2.2

theorem Sound.builtin (sound : Sound registry) {entry : PyStr × SourceSpec}
    (h : entry ∈ builtinSources) :
    get registry.knownSources entry.1 = some entry.2 ∧ get registry.publishers entry.1 = none := by
  constructor
  · exact get_of_mem sound.names (List.mem_append_left _ h)
  · rw [get_eq_none, sound.keys]
    exact sound.apart (List.mem_map_of_mem h)

end Soundness

section Registrations

/-- The built-in sources keep their specs and get no publisher, the plugins' names are apart from
theirs, no two sources share an event type, the two maps have the same names, and a call that
raises leaves both maps as they were. -/
theorem registration_sound {s : State} (h : Reachable registration s) :
    (∀ entry ∈ builtinSources, get s.registry.knownSources entry.1 = some entry.2 ∧
        get s.registry.publishers entry.1 = none) ∧
      List.Disjoint (s.registry.sources.map (·.1)) (builtinSources.map (·.1)) ∧
      (∀ a ∈ s.registry.knownSources, ∀ b ∈ s.registry.knownSources, a.1 ≠ b.1 →
        List.Disjoint a.2.eventTypes b.2.eventTypes) ∧
      s.registry.publishers.map (·.1) = s.registry.sources.map (·.1) ∧
      ∀ c rejection, (call s c).2 = .error rejection → (call s c).1.registry = s.registry := by
  have sound := sound_reachable h
  refine ⟨fun entry hentry => sound.builtin hentry, ?_, ?_, sound.keys, ?_⟩
  · exact List.disjoint_comm.mp sound.apart
  · intro a ha b hb hdiffer
    exact sound.eventTypes.forall ha hb fun hsame => hdiffer (congrArg _ hsame)
  · intro c rejection hraised
    cases call_cases s c with
    | inl h =>
      obtain ⟨_, _, hsame⟩ := h
      exact hsame
    | inr h =>
      obtain ⟨_, _, hok, _⟩ := h
      rw [hok] at hraised
      nomatch hraised

def ciSpec : SourceSpec :=
  ⟨ofText "ci", [ofText "ci_run"], 1, by decide, by decide, by decide, Nat.one_pos⟩

def deploysPlugin : Plugin :=
  ⟨true, .spec ⟨ofText "deploys", [ofText "deploy"], 1, deploys_name, deploy_types, deploy_names,
    Nat.one_pos⟩⟩

def deploysEntryPoint : EntryPoint :=
  ⟨ofText "deploys", some deploysPlugin, .returned (some ⟨ofText "GitHub", ofText "acme/deploys",
    ofText "publish"⟩)⟩

def emptyFile : State :=
  ⟨.empty, .pins ⟨[], List.nodup_nil⟩⟩

/-- A source in process, a plugin whose pin cannot be written, then the same once it can, and the
source a second time. -/
theorem registration_sound_run : ∃ s, s.registry.publishers.length = 2 ∧
    (∀ entry ∈ builtinSources, get s.registry.knownSources entry.1 = some entry.2 ∧
        get s.registry.publishers entry.1 = none) ∧
      List.Disjoint (s.registry.sources.map (·.1)) (builtinSources.map (·.1)) ∧
      (∀ a ∈ s.registry.knownSources, ∀ b ∈ s.registry.knownSources, a.1 ≠ b.1 →
        List.Disjoint a.2.eventTypes b.2.eventTypes) ∧
      s.registry.publishers.map (·.1) = s.registry.sources.map (·.1) ∧
      ∀ c rejection, (call s c).2 = .error rejection → (call s c).1.registry = s.registry := by
  obtain ⟨s, hrun, htwo⟩ : ∃ s ∈ registration.exec emptyFile
      [.call (.registerSource (.spec ciSpec)),
        .call (.registerPlugin deploysEntryPoint deploysPlugin ⟨none, false, ofText "now"⟩),
        .call (.registerPlugin deploysEntryPoint deploysPlugin ⟨none, true, ofText "now"⟩),
        .call (.registerSource (.spec ciSpec))],
      s.registry.publishers.length = 2 := by
    decide +kernel
  have hstart : Reachable registration emptyFile := .start rfl
  exact ⟨s, htwo, registration_sound (hstart.exec hrun)⟩

end Registrations

end Waitbus.Registration
