import Waitbus.AllowlistFile

/-! `discover_plugins` over an allowlist file that cannot be read. A plugin without a publisher is
registered as if there were no file; one with a publisher is to be pinned, and for that the file is
read again. -/

namespace Waitbus.Fallback
open Python SourceRegistry PublisherPins AllowlistFile
open Registration (Loaded Sound write)

/-- The allowlist's file; one that is not UTF-8 raises an error of another kind when it is read. -/
inductive File where
  | absent
  | text (s : PyStr)
  | undecodable

/-- A selected entry point, and what its registration meets: whether the disk takes a file, and the
clock. -/
structure Candidate where
  entryPoint : EntryPoint
  writable : Bool
  now : Time

structure State where
  registry : Registry
  file : File
  registered : List SourceSpec
  failures : List Rejection

section Discovering

variable (other : PyStr → Parsed)

def File.load : File → Loaded
  | .absent => loadAllowlist other none
  | .text s => loadAllowlist other (some s)
  | .undecodable => .failed

def Malformed (file : File) : Prop :=
  ∀ allowlist, file.load other ≠ .pins allowlist

/-- `append_publisher_pin`. -/
def recordPin (file : File) (c : Candidate) (name : PyStr) (publisher : VerifiedPublisher) :
    File × Except Rejection Unit :=
  match file.load other with
  | .pins existing =>
    match appendPublisherPin existing name publisher.publisherKind publisher.publisherIdentity
      c.now with
    | .error rejection => (file, .error rejection)
    | .ok (_, none) => (file, .ok ())
    | .ok (_, some written) =>
      if c.writable ∧ Scalar (renderAllowlist written) then
        (.text (renderAllowlist written), .ok ())
      else (file, .error .raised)
  | .corrupt | .failed => (file, .error .raised)

/-- `_enforce_tofu`. -/
def enforce (file : File) (c : Candidate) (name : PyStr) (verified : Option VerifiedPublisher) :
    File × Except Rejection Unit :=
  let goOn (allowlist : Allowlist) :=
    match enforceTofu (allowlist.forSource name) verified with
    | .allow => (file, .ok ())
    | .reject => (file, .error .shadow)
    | .pin publisher => recordPin other file c name publisher
  match file.load other with
  | .pins allowlist => goOn allowlist
  | .corrupt => goOn noPins
  | .failed => (file, .error .raised)

def State.reject (s : State) (rejection : Rejection) : State :=
  { s with failures := s.failures ++ if rejection.isPolicyFailure then [rejection] else [] }

/-- One turn of the loop of `discover_plugins`. -/
def turn (s : State) (c : Candidate) : State :=
  match c.entryPoint.plugin with
  | none => s
  | some plugin =>
    match prepare s.registry c.entryPoint plugin with
    | .error rejection => s.reject rejection
    | .ok (spec, verified) =>
      match enforce other s.file c spec.name verified with
      | (file, .error rejection) => State.reject { s with file } rejection
      | (file, .ok ()) =>
        ⟨write s.registry spec verified, file, s.registered ++ [spec], s.failures⟩

def State.outcome (s : State) : Registry × Except (List Rejection) (List SourceSpec) :=
  (s.registry, if s.failures = [] then .ok s.registered else .error s.failures)

def discoverPlugins (registry : Registry) (file : File) (selected : List Candidate) :
    Registry × Except (List Rejection) (List SourceSpec) :=
  (selected.foldl (turn other) ⟨registry, file, [], []⟩).outcome

end Discovering

section Conditions

def Takes (c : Candidate) (name : PyStr) (publisher : VerifiedPublisher) : Prop :=
  c.writable ∧ Scalar (renderAllowlist (noPins.insert
    ⟨name, publisher.publisherKind, publisher.publisherIdentity, c.now⟩ rfl))

instance (c : Candidate) (name : PyStr) (publisher : VerifiedPublisher) :
    Decidable (Takes c name publisher) :=
  inferInstanceAs (Decidable (_ ∧ _))

/-- No plugin that passes the checks before its pin's has a publisher that could be pinned; and none
passes them without a publisher, if reading the file raises an error that is not for its text. -/
def Unaffected (other : PyStr → Parsed) (file : File) (registry : Registry) :
    List Candidate → Prop
  | [] => True
  | c :: rest =>
    match c.entryPoint.plugin with
    | none => Unaffected other file registry rest
    | some plugin =>
      match prepare registry c.entryPoint plugin with
      | .error _ => Unaffected other file registry rest
      | .ok (spec, some publisher) =>
        ¬Takes c spec.name publisher ∧ Unaffected other file registry rest
      | .ok (spec, none) =>
        file.load other ≠ .failed ∧ Unaffected other file (write registry spec none) rest

end Conditions

section Turns

variable {other : PyStr → Parsed} {file : File} {c : Candidate} {s : State}
  {selected : List Candidate} {name : PyStr} {verified : Option VerifiedPublisher}

theorem enforce_absent_none : enforce other .absent c name none = (.absent, .ok ()) := rfl

theorem enforce_absent_some (publisher : VerifiedPublisher) :
    enforce other .absent c name (some publisher) =
      if Takes c name publisher then
        (.text (renderAllowlist (noPins.insert
          ⟨name, publisher.publisherKind, publisher.publisherIdentity, c.now⟩ rfl)), .ok ())
      else (.absent, .error .raised) := rfl

theorem enforce_corrupt_none (h : file.load other = .corrupt) :
    enforce other file c name none = (file, .ok ()) := by
  rw [enforce, h]
  rfl

theorem enforce_corrupt_some (h : file.load other = .corrupt) (publisher : VerifiedPublisher) :
    enforce other file c name (some publisher) = (file, .error .raised) := by
  simp only [enforce, h]
  change recordPin other file c name publisher = _
  rw [recordPin, h]

theorem enforce_failed (h : file.load other = .failed) :
    enforce other file c name verified = (file, .error .raised) := by
  rw [enforce, h]

theorem load_of_malformed (malformed : Malformed other file) :
    file.load other = .corrupt ∨ file.load other = .failed := by
  cases hload : file.load other with
  | pins allowlist => exact absurd hload (malformed allowlist)
  | corrupt => exact .inl rfl
  | failed => exact .inr rfl

theorem enforce_malformed_some (malformed : Malformed other file) (publisher : VerifiedPublisher) :
    enforce other file c name (some publisher) = (file, .error .raised) := by
  rcases load_of_malformed malformed with hcorrupt | hfailed
  · exact enforce_corrupt_some hcorrupt publisher
  · exact enforce_failed hfailed

theorem enforce_malformed (malformed : Malformed other file) :
    (enforce other file c name verified).1 = file ∧
      ((enforce other file c name verified).2 = .ok () →
        verified = none ∧ file.load other ≠ .failed) := by
  cases verified with
  | some publisher =>
    rw [enforce_malformed_some malformed publisher]
    exact ⟨rfl, nofun⟩
  | none =>
    rcases load_of_malformed malformed with hcorrupt | hfailed
    · rw [enforce_corrupt_none hcorrupt, hcorrupt]
      exact ⟨rfl, fun _ => ⟨rfl, nofun⟩⟩
    · rw [enforce_failed hfailed]
      exact ⟨rfl, nofun⟩

theorem turn_cases (other : PyStr → Parsed) (s : State) (c : Candidate) :
    (turn other s c).registry = s.registry ∨
      ∃ spec verified, validateCommon s.registry spec = .ok () ∧
        (enforce other s.file c spec.name verified).2 = .ok () ∧
        (turn other s c).registry = write s.registry spec verified := by
  rw [turn]
  split
  · exact .inl rfl
  split
  · exact .inl rfl
  · rename_i spec verified hprepared
    split
    · exact .inl rfl
    · rename_i file henforce
      exact .inr ⟨spec, verified, Registration.prepare_valid hprepared, by rw [henforce], rfl⟩

theorem turn_file (malformed : Malformed other s.file) : (turn other s c).file = s.file := by
  rw [turn]
  split
  · rfl
  split
  · rfl
  · rename_i spec verified _
    have hfile : (enforce other s.file c spec.name verified).1 = s.file :=
      (enforce_malformed malformed).1
    split
    · rename_i file _ henforce
      rw [henforce] at hfile
      exact hfile
    · rename_i file henforce
      rw [henforce] at hfile
      exact hfile

theorem write_publishers {registry : Registry} {spec : SourceSpec} (sound : Sound registry)
    (valid : validateCommon registry spec = .ok ()) (verified : Option VerifiedPublisher) :
    (write registry spec verified).publishers =
      registry.publishers ++ [(spec.name, verified)] := by
  rw [Registration.write_eq_record sound verified (Registration.validateCommon_ok valid).1]
  rfl

theorem publishers_foldl (other : PyStr → Parsed)
    (sound : Sound s.registry) (selected : List Candidate) :
    ∃ added, (selected.foldl (turn other) s).registry.publishers =
      s.registry.publishers ++ added := by
  induction selected generalizing s with
  | nil => exact ⟨[], (List.append_nil _).symm⟩
  | cons c rest ih =>
    rw [List.foldl_cons]
    rcases turn_cases other s c with hsame | ⟨spec, verified, hvalid, -, hwritten⟩
    · rw [← hsame]
      exact ih (hsame ▸ sound)
    · obtain ⟨added, hadded⟩ := ih (s := turn other s c) (hwritten ▸ sound.write verified hvalid)
      refine ⟨(spec.name, verified) :: added, ?_⟩
      rw [hadded, hwritten, write_publishers sound hvalid, List.append_assoc]
      rfl

theorem publishers_malformed (malformed : Malformed other s.file) (sound : Sound s.registry)
    (selected : List Candidate) :
    ∃ added, (selected.foldl (turn other) s).registry.publishers =
        s.registry.publishers ++ added ∧
      ∀ entry ∈ added, entry.2 = none ∧ s.file.load other ≠ .failed := by
  induction selected generalizing s with
  | nil => exact ⟨[], (List.append_nil _).symm, nofun⟩
  | cons c rest ih =>
    have hfile := turn_file (c := c) malformed
    have hmalformed : Malformed other (turn other s c).file := by rwa [hfile]
    rw [List.foldl_cons]
    rcases turn_cases other s c with hsame | ⟨spec, verified, hvalid, hpasses, hwritten⟩
    · rw [← hsame, ← hfile]
      exact ih hmalformed (hsame ▸ sound)
    · obtain ⟨added, hadded, hnone⟩ := ih hmalformed (hwritten ▸ sound.write verified hvalid)
      have hunverified := (enforce_malformed malformed).2 hpasses
      refine ⟨(spec.name, verified) :: added, ?_, ?_⟩
      · rw [hadded, hwritten, write_publishers sound hvalid, List.append_assoc]
        rfl
      · rw [hfile] at hnone
        exact List.forall_mem_cons.mpr ⟨hunverified, hnone⟩

end Turns

section Outcomes

variable {other : PyStr → Parsed} {file : File} {registry : Registry}

theorem outcomes_differ (malformed : Malformed other file) (sound : Sound registry)
    {spec : SourceSpec} (valid : validateCommon registry spec = .ok ())
    (verified : Option VerifiedPublisher)
    (kept : ¬(verified = none ∧ file.load other ≠ .failed)) (s t : State)
    (hs : s.registry = registry ∧ s.file = file) (ht : t.registry = write registry spec verified)
    (selected : List Candidate) :
    (selected.foldl (turn other) s).outcome ≠ (selected.foldl (turn other) t).outcome := by
  intro hsame
  obtain ⟨rfl, rfl⟩ := hs
  obtain ⟨added, hadded, hnone⟩ := publishers_malformed malformed sound selected
  obtain ⟨more, hmore⟩ := publishers_foldl other (s := t) (ht ▸ sound.write verified valid) selected
  have hpublishers := congrArg (fun outcome => outcome.1.publishers) hsame
  change (selected.foldl (turn other) s).registry.publishers =
    (selected.foldl (turn other) t).registry.publishers at hpublishers
  rw [hadded, hmore, ht, write_publishers sound valid, List.append_assoc,
    List.append_right_inj] at hpublishers
  exact kept (hnone (spec.name, verified) (hpublishers ▸ List.mem_cons_self))

theorem outcome_iff (malformed : Malformed other file) (sound : Sound registry)
    (registered : List SourceSpec) (failures : List Rejection) (selected : List Candidate) :
    (selected.foldl (turn other) ⟨registry, file, registered, failures⟩).outcome =
        (selected.foldl (turn other) ⟨registry, .absent, registered, failures⟩).outcome ↔
      Unaffected other file registry selected := by
  induction selected generalizing registry registered failures with
  | nil => exact iff_of_true rfl trivial
  | cons c rest ih =>
    rw [List.foldl_cons, List.foldl_cons, Unaffected, turn, turn]
    cases hplugin : c.entryPoint.plugin with
    | none => exact ih sound registered failures
    | some plugin =>
      dsimp only
      cases hprepared : prepare registry c.entryPoint plugin with
      | error rejection => exact ih sound registered _
      | ok prepared =>
        obtain ⟨spec, verified⟩ := prepared
        have hvalid := Registration.prepare_valid hprepared
        cases verified with
        | none =>
          simp only [enforce_absent_none]
          rcases load_of_malformed malformed with hcorrupt | hfailed
          · simp only [enforce_corrupt_none hcorrupt]
            refine (ih (sound.write none hvalid) _ _).trans (and_iff_right ?_).symm
            rw [hcorrupt]
            nofun
          · simp only [enforce_failed hfailed]
            refine iff_of_false ?_ fun h => h.1 hfailed
            exact outcomes_differ malformed sound hvalid none (fun h => h.2 hfailed) _ _ ⟨rfl, rfl⟩
              rfl rest
        | some publisher =>
          simp only [enforce_malformed_some malformed, enforce_absent_some]
          by_cases htakes : Takes c spec.name publisher
          · rw [if_pos htakes]
            refine iff_of_false ?_ fun h => h.1 htakes
            exact outcomes_differ malformed sound hvalid (some publisher)
              (fun h => Option.some_ne_none _ h.1) _ _ ⟨rfl, rfl⟩ rfl rest
          · rw [if_neg htakes]
            exact (ih sound _ _).trans (and_iff_right htakes).symm

/-- A malformed file changes what discovery does unless no plugin comes to be pinned. -/
theorem discoverPlugins_malformed_iff (malformed : Malformed other file) (sound : Sound registry)
    (selected : List Candidate) :
    discoverPlugins other registry file selected =
        discoverPlugins other registry .absent selected ↔
      Unaffected other file registry selected :=
  outcome_iff malformed sound [] [] selected

def deploys (verification : Verification) : Candidate :=
  ⟨⟨ofText "deploys", some Registration.deploysPlugin, verification⟩, true,
    ⟨ofText "2026-01-02T03:04:05+00:00", stamp_timeParts⟩⟩

def brokenFile : File :=
  .text (ofText "[[source]\n")

theorem brokenFile_malformed (other : PyStr → Parsed) :
    Malformed other brokenFile := by
  have hload : brokenFile.load other = .corrupt := rfl
  intro allowlist
  rw [hload]
  nofun

/-- A plugin without a publisher, over a file that is no TOML. -/
theorem discoverPlugins_malformed_unsigned :
    discoverPlugins (fun _ => .decodeError) .empty brokenFile [deploys .noDistribution] =
      discoverPlugins (fun _ => .decodeError) .empty .absent [deploys .noDistribution] :=
  (discoverPlugins_malformed_iff (brokenFile_malformed _) Registration.sound_empty _).mpr
    ⟨nofun, trivial⟩

/-- A plugin with a publisher is registered and pinned where there is no file, and dropped without a
word to the caller where the file is corrupt. -/
theorem signed_plugin_dropped : ¬∀ other file registry selected, Malformed other file →
    Sound registry → discoverPlugins other registry file selected =
      discoverPlugins other registry .absent selected := by
  intro hclaim
  have hsame := hclaim (fun _ => .decodeError) brokenFile .empty
    [deploys (.returned (some ⟨ofText "GitHub", ofText "acme/deploys", ofText "publish"⟩))]
    (brokenFile_malformed _) Registration.sound_empty
  have hlength := congrArg (fun outcome => outcome.1.publishers.length) hsame
  revert hlength
  decide +kernel

end Outcomes

end Waitbus.Fallback
