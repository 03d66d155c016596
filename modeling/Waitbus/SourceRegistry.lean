import Waitbus.Python

/-! The sources a process knows: those built in, and those it has registered for plugins. An entry
point that discovery meets carries what comes of importing it, of calling its `spec`, and of
verifying the wheel it came in. -/

namespace Waitbus.SourceRegistry
open Python

section Specs

def isLower : PyChar → Bool
  | .scalar c => 0x61 ≤ c.toNat && c.toNat ≤ 0x7a
  | .surrogate _ => false

def isNamePart : PyChar → Bool
  | .scalar c => isLower (.scalar c) || (0x30 ≤ c.toNat && c.toNat ≤ 0x39) || c = '_'
  | .surrogate _ => false

/-- `_SOURCE_NAME_RE.match`, whose `$` also stands before a line break that ends the text. -/
def isSourceName (name : PyStr) : Bool :=
  match if name.getLast? = some (.scalar '\n') then name.dropLast else name with
  | first :: rest => isLower first && rest.all isNamePart
  | [] => false

/-- `SourceSpec`, with what its `__post_init__` checks. -/
structure SourceSpec where
  name : PyStr
  eventTypes : List PyStr
  apiVersion : Nat
  name_ok : isSourceName name = true
  eventTypes_ne : eventTypes ≠ []
  eventTypes_ok : eventTypes.all isSourceName = true
  apiVersion_pos : 0 < apiVersion

def sourcePluginApiVersion : Nat := 1

def builtinSources : List (PyStr × SourceSpec) :=
  [⟨ofText "github", ⟨ofText "github", [ofText "workflow_run", ofText "workflow_job"], 1,
      by decide, by decide, by decide, by decide⟩⟩,
    ⟨ofText "alertmanager", ⟨ofText "alertmanager",
      [ofText "prometheus_alert", ofText "prometheus_watchdog"], 1,
      by decide, by decide, by decide, by decide⟩⟩,
    ⟨ofText "pytest", ⟨ofText "pytest", [ofText "pytest_session"], 1,
      by decide, by decide, by decide, by decide⟩⟩,
    ⟨ofText "docker", ⟨ofText "docker", [ofText "docker_container"], 1,
      by decide, by decide, by decide, by decide⟩⟩,
    ⟨ofText "fs", ⟨ofText "fs", [ofText "fs_change"], 1,
      by decide, by decide, by decide, by decide⟩⟩,
    ⟨ofText "agent", ⟨ofText "agent",
      [ofText "agent_message", ofText "agent_claim", ofText "agent_task_failed"], 1,
      by decide, by decide, by decide, by decide⟩⟩]

structure VerifiedPublisher where
  publisherKind : PyStr
  publisherIdentity : PyStr
  predicateType : PyStr
  deriving DecidableEq

end Specs

section Registering

/-- `_PLUGIN_SOURCES` and `_PLUGIN_PUBLISHERS`. -/
structure Registry where
  sources : List (PyStr × SourceSpec)
  publishers : List (PyStr × Option VerifiedPublisher)

def Registry.empty : Registry :=
  ⟨[], []⟩

def Registry.knownSources (registry : Registry) : List (PyStr × SourceSpec) :=
  builtinSources ++ registry.sources

/-- The errors registration raises, those of other kinds in one. -/
inductive Rejection where
  | contract
  | versionMismatch
  | shadow
  | duplicate
  | raised
  deriving DecidableEq

/-- The clause of `discover_plugins` that keeps the error for the end. -/
def Rejection.isPolicyFailure : Rejection → Bool
  | .raised => false
  | _ => true

def eventTypeCollisions (registry : Registry) (spec : SourceSpec) : List PyStr :=
  spec.eventTypes.filter fun eventType =>
    registry.knownSources.any fun other =>
      other.1 ≠ spec.name && other.2.eventTypes.contains eventType

def validateCommon (registry : Registry) (spec : SourceSpec) : Except Rejection Unit :=
  if spec.apiVersion ≠ sourcePluginApiVersion then .error .versionMismatch
  else if spec.name ∈ builtinSources.map (·.1) then .error .shadow
  else if spec.name ∈ registry.sources.map (·.1) then .error .duplicate
  else if eventTypeCollisions registry spec ≠ [] then .error .contract
  else .ok ()

/-- `_PLUGIN_SOURCES[spec.name] = spec`, and the same for the publisher. -/
def Registry.record (registry : Registry) (spec : SourceSpec)
    (verified : Option VerifiedPublisher) : Registry where
  sources := registry.sources ++ [(spec.name, spec)]
  publishers := registry.publishers ++ [(spec.name, verified)]

/-- What the call of `spec()` comes to. -/
inductive SpecCall where
  | raises
  | other
  | spec (spec : SourceSpec)

/-- An imported plugin; `callable` is whether `_validate_plugin_callable` lets it pass. -/
structure Plugin where
  callable : Bool
  spec : SpecCall

/-- What comes of `verify_distribution` on the wheel. -/
inductive Verification where
  | noDistribution
  | returned (publisher : Option VerifiedPublisher)
  | failed
  | toolingMissing
  | raised

/-- An installed entry point; it has no plugin where its import fails. -/
structure EntryPoint where
  name : PyStr
  plugin : Option Plugin
  verification : Verification

def verifyPublisher : Verification → Except Rejection (Option VerifiedPublisher)
  | .noDistribution | .failed | .toolingMissing => .ok none
  | .returned publisher => .ok publisher
  | .raised => .error .raised

/-- `register_plugin` up to the allowlist: what is to be registered, and who signed it. -/
def prepare (registry : Registry) (ep : EntryPoint) (plugin : Plugin) :
    Except Rejection (SourceSpec × Option VerifiedPublisher) :=
  if ¬plugin.callable then .error .contract
  else
    match plugin.spec with
    | .raises => .error .raised
    | .other => .error .contract
    | .spec spec =>
      if ep.name ≠ spec.name then .error .contract
      else do
        validateCommon registry spec
        let verified ← verifyPublisher ep.verification
        return (spec, verified)

theorem prepare_name {registry : Registry} {ep : EntryPoint} {plugin : Plugin} {spec : SourceSpec}
    {verified : Option VerifiedPublisher}
    (h : prepare registry ep plugin = .ok (spec, verified)) : spec.name = ep.name := by
  rw [prepare] at h
  split at h
  · nomatch h
  split at h
  · nomatch h
  · nomatch h
  split at h
  · nomatch h
  · rename_i s _ hname
    cases hvalid : validateCommon registry s with
    | error rejection =>
      rw [hvalid] at h
      nomatch h
    | ok _ =>
      rw [hvalid] at h
      cases hverified : verifyPublisher ep.verification with
      | error rejection =>
        rw [hverified] at h
        nomatch h
      | ok publisher =>
        rw [hverified] at h
        obtain ⟨rfl, -⟩ := Prod.mk.inj (Except.ok.inj h)
        exact (not_not.mp hname).symm

end Registering

section Policies

structure PluginPolicy where
  autoload : Bool
  allow : List PyStr
  deny : List PyStr

/-- The `[plugins]` table as far as it has values of the right kinds. -/
structure PluginsSection where
  autoload : Option Bool
  allow : Option (List PyStr)
  deny : Option (List PyStr)

/-- `WAITBUS_DISABLE_SOURCE_AUTOLOAD` and `WAITBUS_PLUGINS`. -/
structure Environment where
  disableAutoload : Option PyStr
  plugins : Option PyStr

def loadPluginPolicy (config : Option PluginsSection) (env : Environment) : PluginPolicy where
  autoload :=
    if env.disableAutoload.any (· ≠ []) then false else ((config.bind (·.autoload)).getD true)
  allow :=
    match env.plugins with
    | some plugins => ((plugins.splitOn (.scalar ',')).map strip).filter (· ≠ [])
    | none => (config.bind (·.allow)).getD []
  deny := (config.bind (·.deny)).getD []

def selectEntryPoints (policy : PluginPolicy) (discovered : List EntryPoint) : List EntryPoint :=
  if ¬policy.autoload then
    if policy.allow = [] then []
    else discovered.filter fun ep => policy.allow.contains ep.name
  else if policy.deny ≠ [] then discovered.filter fun ep => !policy.deny.contains ep.name
  else discovered

def Admits (policy : PluginPolicy) (name : PyStr) : Prop :=
  name ∉ policy.deny ∧ (policy.autoload = true ∨ name ∈ policy.allow)

/-- Without autoloading, no installed plugin is both allowed and denied. -/
def Decided (policy : PluginPolicy) (installed : List EntryPoint) : Prop :=
  policy.autoload = true ∨ ∀ ep ∈ installed, ep.name ∈ policy.allow → ep.name ∉ policy.deny

instance (policy : PluginPolicy) (installed : List EntryPoint) :
    Decidable (Decided policy installed) :=
  inferInstanceAs (Decidable (_ ∨ _))

/-- The filter lets through what the policy admits, except that without autoloading it does not
look at the names denied. -/
theorem mem_selectEntryPoints {policy : PluginPolicy} {installed : List EntryPoint}
    {ep : EntryPoint} :
    ep ∈ selectEntryPoints policy installed ↔ ep ∈ installed ∧
      if policy.autoload then ep.name ∉ policy.deny else ep.name ∈ policy.allow := by
  rw [selectEntryPoints]
  cases hauto : policy.autoload with
  | false =>
    by_cases hallow : policy.allow = []
    · simp [hallow]
    · simp [hallow]
  | true =>
    by_cases hdeny : policy.deny = []
    · simp [hdeny]
    · simp [hdeny]

theorem admits_of_selected {policy : PluginPolicy} {installed : List EntryPoint}
    (hdecided : Decided policy installed) {ep : EntryPoint}
    (h : ep ∈ selectEntryPoints policy installed) : Admits policy ep.name := by
  obtain ⟨hmem, hselected⟩ := mem_selectEntryPoints.mp h
  cases hauto : policy.autoload with
  | true =>
    rw [hauto, if_pos rfl] at hselected
    exact ⟨hselected, .inl hauto⟩
  | false =>
    rw [hauto, if_neg Bool.false_ne_true] at hselected
    rcases hdecided with hdecided | hdecided
    · rw [hauto] at hdecided
      exact absurd hdecided Bool.false_ne_true
    · exact ⟨hdecided ep hmem hselected, .inr hselected⟩

end Policies

section Names

theorem deploys_name : isSourceName (ofText "deploys") = true := by decide

theorem deploy_types : [ofText "deploy"] ≠ [] := by decide

theorem deploy_names : [ofText "deploy"].all isSourceName = true := by decide

end Names

end Waitbus.SourceRegistry
