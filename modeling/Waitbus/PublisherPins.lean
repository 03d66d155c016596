import Mathlib
import Waitbus.SourceRegistry

/-! The publishers a source name is pinned to. A list of pins has one pin for a name at most; the
file on disk holds such a list, in an order that nothing depends on. -/

namespace Waitbus.PublisherPins
open Python SourceRegistry

structure PublisherPin where
  name : PyStr
  publisherKind : PyStr
  publisherIdentity : PyStr
  firstPinnedAt : PyStr
  deriving DecidableEq

structure Allowlist where
  pins : List PublisherPin
  names : (pins.map (·.name)).Nodup

def Allowlist.forSource (allowlist : Allowlist) (name : PyStr) : Option PublisherPin :=
  allowlist.pins.find? (·.name = name)

def Allowlist.Same (a b : Allowlist) : Prop :=
  a.pins.Perm b.pins

instance (a b : Allowlist) : Decidable (a.Same b) :=
  inferInstanceAs (Decidable (a.pins.Perm b.pins))

def PublisherPin.binds (pin : PublisherPin) (kind identity : PyStr) : Bool :=
  pin.publisherKind = kind && pin.publisherIdentity = identity

theorem forSource_eq_some {allowlist : Allowlist} {name : PyStr} {pin : PublisherPin} :
    allowlist.forSource name = some pin ↔ pin ∈ allowlist.pins ∧ pin.name = name := by
  constructor
  · intro h
    exact ⟨List.mem_of_find?_eq_some h, by simpa using List.find?_some h⟩
  · rintro ⟨hmem, rfl⟩
    cases hfound : allowlist.forSource pin.name with
    | none =>
      have hno := List.find?_eq_none.mp hfound pin hmem
      simp only [decide_true, not_true_eq_false] at hno
    | some other =>
      have hname : other.name = pin.name := by simpa using List.find?_some hfound
      rw [List.inj_on_of_nodup_map allowlist.names (List.mem_of_find?_eq_some hfound) hmem hname]

theorem forSource_eq_none {allowlist : Allowlist} {name : PyStr} :
    allowlist.forSource name = none ↔ name ∉ allowlist.pins.map (·.name) := by
  simp [Allowlist.forSource]

theorem Allowlist.Same.forSource {a b : Allowlist} (h : a.Same b) (name : PyStr) :
    a.forSource name = b.forSource name := by
  cases hb : b.forSource name with
  | none =>
    rw [forSource_eq_none] at hb ⊢
    exact fun hmem => hb ((h.map _).subset hmem)
  | some pin =>
    rw [forSource_eq_some] at hb ⊢
    exact ⟨h.symm.subset hb.1, hb.2⟩

def Allowlist.insert (allowlist : Allowlist) (pin : PublisherPin)
    (h : allowlist.forSource pin.name = none) : Allowlist where
  pins := allowlist.pins ++ [pin]
  names := by
    rw [List.map_append]
    refine allowlist.names.append (List.nodup_singleton _) ?_
    intro name hname hpin
    rw [List.map_singleton, List.mem_singleton] at hpin
    rw [hpin] at hname
    exact forSource_eq_none.mp h hname

def Allowlist.erase (allowlist : Allowlist) (name : PyStr) : Allowlist where
  pins := allowlist.pins.filter (·.name ≠ name)
  names := allowlist.names.sublist (List.filter_sublist.map _)

theorem forSource_insert (allowlist : Allowlist) (pin : PublisherPin)
    (h : allowlist.forSource pin.name = none) (name : PyStr) :
    (allowlist.insert pin h).forSource name =
      if name = pin.name then some pin else allowlist.forSource name := by
  split
  · rename_i hname
    rw [forSource_eq_some]
    exact ⟨List.mem_append_right _ (List.mem_singleton_self _), hname.symm⟩
  · rename_i hname
    simp only [Allowlist.forSource, Allowlist.insert, List.find?_append]
    rw [List.find?_cons_of_neg (by simpa using Ne.symm hname), List.find?_nil, Option.or_none]

theorem forSource_erase (allowlist : Allowlist) (erased name : PyStr) :
    (allowlist.erase erased).forSource name =
      if name = erased then none else allowlist.forSource name := by
  split
  · rename_i hname
    rw [forSource_eq_none, hname]
    simp [Allowlist.erase]
  · rename_i hname
    simp only [Allowlist.forSource, Allowlist.erase, List.find?_filter]
    congr 1
    funext pin
    by_cases hpin : pin.name = name
    · simp [hpin, hname]
    · simp [hpin]

/-- `append_publisher_pin`, with the list it writes where it writes one. -/
def appendPublisherPin (existing : Allowlist) (name kind identity now : PyStr) :
    Except Rejection (PublisherPin × Option Allowlist) :=
  match h : existing.forSource name with
  | some prior => if prior.binds kind identity then .ok (prior, none) else .error .raised
  | none => .ok (⟨name, kind, identity, now⟩, some (existing.insert ⟨name, kind, identity, now⟩ h))

/-- `remove_publisher_pin`, with the list it writes where it writes one. -/
def removePublisherPin (existing : Allowlist) (name : PyStr) : Option Allowlist :=
  if (existing.forSource name).isSome then some (existing.erase name) else none

/-- What `_enforce_tofu` makes of the pin of a source and of who signed it. -/
inductive Tofu where
  | allow
  | pin (publisher : VerifiedPublisher)
  | reject
  deriving DecidableEq

def enforceTofu (prior : Option PublisherPin) (verified : Option VerifiedPublisher) : Tofu :=
  match prior, verified with
  | none, some publisher => .pin publisher
  | none, none => .allow
  | some _, none => .reject
  | some prior, some publisher =>
    if prior.binds publisher.publisherKind publisher.publisherIdentity then .allow else .reject

section Writing

variable {existing : Allowlist} {name kind identity now : PyStr} {pin : PublisherPin}

/-- Appending leaves the name pinned to the publisher: it had that pin, or it has a new one. -/
theorem appendPublisherPin_ok {written : Option Allowlist}
    (h : appendPublisherPin existing name kind identity now = .ok (pin, written)) :
    pin.name = name ∧ pin.binds kind identity = true ∧
      (existing.forSource name = some pin ∧ written = none ∨
        existing.forSource name = none ∧ ∃ w, written = some w ∧
          ∀ other, w.forSource other =
            if other = name then some pin else existing.forSource other) := by
  unfold appendPublisherPin at h
  split at h
  · rename_i prior hprior
    split at h
    · rename_i hbinds
      obtain ⟨rfl, rfl⟩ := Prod.mk.inj (Except.ok.inj h)
      exact ⟨(forSource_eq_some.mp hprior).2, hbinds, .inl ⟨hprior, rfl⟩⟩
    · nomatch h
  · rename_i hnone
    obtain ⟨rfl, rfl⟩ := Prod.mk.inj (Except.ok.inj h)
    exact ⟨rfl, by simp [PublisherPin.binds],
      .inr ⟨hnone, _, rfl, forSource_insert existing _ hnone⟩⟩

theorem appendPublisherPin_written {written : Allowlist}
    (h : appendPublisherPin existing name kind identity now = .ok (pin, some written)) :
    written.pins = existing.pins ++ [⟨name, kind, identity, now⟩] := by
  unfold appendPublisherPin at h
  split at h
  · split at h
    · nomatch h
    · nomatch h
  · have hwritten := (Prod.mk.inj (Except.ok.inj h)).2
    rw [← Option.some.inj hwritten]
    rfl

theorem removePublisherPin_written {written : Allowlist}
    (h : removePublisherPin existing name = some written) :
    written.pins = existing.pins.filter (·.name ≠ name) := by
  rw [removePublisherPin] at h
  split at h
  · rw [← Option.some.inj h]
    rfl
  · nomatch h

theorem removePublisherPin_some {written : Allowlist}
    (h : removePublisherPin existing name = some written) (other : PyStr) :
    written.forSource other = if other = name then none else existing.forSource other := by
  rw [removePublisherPin] at h
  split at h
  · rw [← Option.some.inj h]
    exact forSource_erase existing name other
  · nomatch h

theorem enforceTofu_allow {prior : Option PublisherPin} {verified : Option VerifiedPublisher}
    (h : enforceTofu prior verified = .allow) :
    ∀ pin ∈ prior, ∃ publisher ∈ verified,
      pin.binds publisher.publisherKind publisher.publisherIdentity = true := by
  intro pin hpin
  obtain rfl := Option.mem_def.mp hpin
  cases verified with
  | none => nomatch h
  | some publisher =>
    rw [enforceTofu] at h
    split at h
    · rename_i hbinds
      exact ⟨publisher, rfl, hbinds⟩
    · nomatch h

end Writing

end Waitbus.PublisherPins
