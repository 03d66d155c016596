import Waitbus.Runs
import Waitbus.Await
import Waitbus.Envelope

/-! The bookmarks of `--watch`. The name of one is made of the owner and the repository with a dash
between them, and either of the two may have dashes of its own. -/

namespace Waitbus.WatchCursors
open Python Json FrameCodec EventStore Runs Await Envelope

section Model

/-- A non-empty text over `[A-Za-z0-9._-]`. -/
abbrev Component := { s : PyStr // s ≠ [] ∧ ∀ c ∈ s, isNameChar c = true }

structure Slug where
  owner : Component
  repo : Component
  deriving DecidableEq

/-- `_BOOKMARK_ID_RE.match`. -/
def bookmarkIdMatch (name : PyStr) : Bool :=
  lineMatch (fun s => s ≠ [] && s.all isNameChar) name

def validateName (name : PyStr) : Except PyExc Unit :=
  if name = [] then .error .valueError
  else if ¬bookmarkIdMatch name then .error .valueError
  else .ok ()

def watchBookmarkName (owner repo : PyStr) : PyStr :=
  ofText "watch-" ++ owner ++ ofText "-" ++ repo

def Slug.name (slug : Slug) : PyStr :=
  watchBookmarkName slug.owner.val slug.repo.val

/-- The file in `cursors_dir()`. -/
def path (name : PyStr) : PyStr :=
  ofText "bookmark-" ++ name ++ ofText ".txt"

/-- The cursor files, and the watches that have been started. The two logs are history: the event
ids that watches have stored, and the cursors that they have loaded. -/
structure World where
  files : PyStr → Option PyStr
  watches : List Slug
  stored : List (Slug × PyStr)
  loaded : List (Slug × PyStr)

inductive Act where
  /-- `_resolve_mode`, with the `--since` that was given. -/
  | start (slug : Slug) (since : Option PyStr)
  /-- The engine hands a frame to the cursor of a watch. -/
  | advance (watch : Nat) (frame : Value) (fault : Bool)

def World.start (w : World) (slug : Slug) (since : Option PyStr) : World :=
  match validateName slug.name with
  | .error _ => w
  | .ok () =>
    let cursor := match since with
      | some _ => none
      | none => (w.files (path slug.name)).bind load
    { w with
      watches := w.watches ++ [slug]
      loaded := w.loaded ++ cursor.toList.map (slug, ·) }

/-- `BookmarkCursor.advance`: the file is replaced as a whole, or it stays as it is. -/
def World.advance (w : World) (slug : Slug) (frame : Value) (fault : Bool) : World :=
  match cursorId frame with
  | none => w
  | some id =>
    if ¬Scalar id ∨ fault then w
    else { w with
      files := Function.update w.files (path slug.name) (some id)
      stored := w.stored ++ [(slug, id)] }

def World.step (w : World) : Act → Option World
  | .start slug since => some (w.start slug since)
  | .advance watch frame fault => w.watches[watch]?.map (w.advance · frame fault)

def World.empty : World :=
  ⟨fun _ => none, [], [], []⟩

def watching : System World Act where
  init w := w = .empty
  step := World.step

/-- Each cursor that a watch has loaded was stored by one of the same slug. -/
def OwnCursors (w : World) : Prop :=
  ∀ slug cursor, (slug, cursor) ∈ w.loaded → ∃ id, (slug, id) ∈ w.stored ∧ load id = some cursor

/-- The start of one's repository is, behind a dash, the end of the other's owner. -/
def Shifted (a b : Slug) : Prop :=
  ∃ mid, b.owner.val = a.owner.val ++ ofText "-" ++ mid ∧
    a.repo.val = mid ++ ofText "-" ++ b.repo.val

def Among (P : Slug → Prop) (_ : World) : Act → Prop
  | .start slug _ => P slug
  | .advance _ _ _ => True

end Model

section Names

variable {a b slug : Slug}

theorem validateName_slug (slug : Slug) : validateName slug.name = .ok () := by
  have hname : slug.name ≠ [] := by simp [Slug.name, watchBookmarkName]
  have hchars : ∀ c ∈ slug.name, isNameChar c = true := by
    intro c hc
    simp only [Slug.name, watchBookmarkName, List.mem_append] at hc
    rcases hc with ((hc | hc) | hc) | hc
    · revert c
      decide
    · exact slug.owner.property.2 c hc
    · revert c
      decide
    · exact slug.repo.property.2 c hc
  have hlast : slug.name.getLast? ≠ some (.scalar '\n') := by
    intro h
    have hdash := hchars _ (List.mem_of_getLast? h)
    revert hdash
    decide
  have hmatch : bookmarkIdMatch slug.name = true := by
    rw [bookmarkIdMatch, lineMatch, cutNewline, if_neg hlast]
    simpa [hname] using hchars
  rw [validateName, if_neg hname, if_neg (not_not.mpr hmatch)]

theorem path_inj {m n : PyStr} : path m = path n ↔ m = n := by
  rw [path, path, List.append_cancel_right_eq, List.append_cancel_left_eq]

theorem shifted_of_append {mid : PyStr} (hmid : mid ≠ [])
    (howner : b.owner.val = a.owner.val ++ mid)
    (hrepo : ofText "-" ++ a.repo.val = mid ++ (ofText "-" ++ b.repo.val)) : Shifted a b := by
  have hdash : ofText "-" = [.scalar '-'] := by decide
  obtain ⟨c, rest, rfl⟩ := List.exists_cons_of_ne_nil hmid
  simp only [hdash, List.cons_append, List.nil_append, List.cons.injEq] at hrepo
  refine ⟨rest, ?_, ?_⟩
  · rw [howner, hdash, ← hrepo.1, List.append_assoc]
    rfl
  · rw [hrepo.2, hdash, List.append_assoc]
    rfl

theorem name_eq_iff : a.name = b.name ↔ a = b ∨ Shifted a b ∨ Shifted b a := by
  have hparts : a.name = b.name ↔ a.owner.val ++ (ofText "-" ++ a.repo.val) =
      b.owner.val ++ (ofText "-" ++ b.repo.val) := by
    rw [Slug.name, Slug.name, watchBookmarkName, watchBookmarkName]
    simp only [List.append_assoc, List.append_cancel_left_eq]
  rw [hparts]
  constructor
  · intro h
    rcases List.append_eq_append_iff.mp h with ⟨mid, howner, hrepo⟩ | ⟨mid, howner, hrepo⟩
    · by_cases hmid : mid = []
      · subst hmid
        rw [List.append_nil] at howner
        rw [List.nil_append, List.append_cancel_left_eq] at hrepo
        refine .inl ?_
        obtain ⟨owner, repo⟩ := a
        obtain ⟨owner', repo'⟩ := b
        exact congrArg₂ Slug.mk (Subtype.ext howner.symm) (Subtype.ext hrepo)
      · exact .inr (.inl (shifted_of_append hmid howner hrepo))
    · by_cases hmid : mid = []
      · subst hmid
        rw [List.append_nil] at howner
        rw [List.nil_append, List.append_cancel_left_eq] at hrepo
        refine .inl ?_
        obtain ⟨owner, repo⟩ := a
        obtain ⟨owner', repo'⟩ := b
        exact congrArg₂ Slug.mk (Subtype.ext howner) (Subtype.ext hrepo.symm)
      · exact .inr (.inr (shifted_of_append hmid howner hrepo))
  · rintro (rfl | ⟨mid, howner, hrepo⟩ | ⟨mid, howner, hrepo⟩)
    · rfl
    · rw [howner, hrepo]
      simp only [List.append_assoc]
    · rw [howner, hrepo]
      simp only [List.append_assoc]

theorem Shifted.ne (h : Shifted a b) : a ≠ b := by
  rintro rfl
  obtain ⟨mid, howner, -⟩ := h
  have hlen := congrArg List.length howner
  have hdash : (ofText "-").length = 1 := by decide
  simp only [List.length_append, hdash] at hlen
  omega

end Names

section Runs

variable {P : Slug → Prop} {w t : World} {slug : Slug}

/-- The files hold what watches have stored, and each loaded cursor is an own one. -/
structure Owned (P : Slug → Prop) (w : World) : Prop where
  files : ∀ name text, w.files (path name) = some text →
    ∃ slug, (slug, text) ∈ w.stored ∧ slug.name = name
  known : ∀ entry ∈ w.stored, P entry.1
  watches : ∀ slug ∈ w.watches, P slug
  own : OwnCursors w

def World.resume (w : World) (slug : Slug) (since : Option PyStr) : Option PyStr :=
  match since with
  | some _ => none
  | none => (w.files (path slug.name)).bind load

theorem start_eq (w : World) (slug : Slug) (since : Option PyStr) : w.start slug since = { w with
    watches := w.watches ++ [slug]
    loaded := w.loaded ++ (w.resume slug since).toList.map (slug, ·) } := by
  unfold World.start
  simp only [validateName_slug]
  rfl

theorem Owned.start (h : Owned P w) (hapart : ∀ a b, P a → P b → ¬Shifted a b) (hslug : P slug)
    (since : Option PyStr) : Owned P (w.start slug since) := by
  rw [start_eq]
  refine ⟨h.files, h.known, ?_, fun s cursor hmem => ?_⟩
  · intro s hs
    rcases List.mem_append.mp hs with hs | hs
    · exact h.watches s hs
    · rw [List.mem_singleton.mp hs]
      exact hslug
  · rcases List.mem_append.mp hmem with hmem | hmem
    · exact h.own s cursor hmem
    · obtain ⟨found, hfound, heq⟩ := List.mem_map.mp hmem
      obtain ⟨rfl, rfl⟩ := Prod.mk.inj heq
      cases since with
      | some explicit => nomatch hfound
      | none =>
        obtain ⟨text, htext, hload⟩ := Option.bind_eq_some_iff.mp (Option.mem_toList.mp hfound)
        obtain ⟨other, hstored, hname⟩ := h.files _ text htext
        have hother := h.known _ hstored
        rcases name_eq_iff.mp hname with rfl | hshift | hshift
        · exact ⟨text, hstored, hload⟩
        · exact absurd hshift (hapart _ _ hother hslug)
        · exact absurd hshift (hapart _ _ hslug hother)

theorem Owned.advance (h : Owned P w) (hslug : P slug) (frame : Value) (fault : Bool) :
    Owned P (w.advance slug frame fault) := by
  rw [World.advance]
  split
  · exact h
  rename_i id hid
  split
  · exact h
  refine ⟨fun name text hfile => ?_, ?_, h.watches, fun s cursor hmem => ?_⟩
  · dsimp only at hfile
    by_cases hpath : path name = path slug.name
    · rw [hpath, Function.update_self] at hfile
      rw [← Option.some.inj hfile]
      exact ⟨slug, List.mem_append_right _ (List.mem_singleton_self _), (path_inj.mp hpath).symm⟩
    · rw [Function.update_of_ne hpath] at hfile
      obtain ⟨other, hstored, hname⟩ := h.files name text hfile
      exact ⟨other, List.mem_append_left _ hstored, hname⟩
  · intro entry hentry
    rcases List.mem_append.mp hentry with hentry | hentry
    · exact h.known entry hentry
    · rw [List.mem_singleton.mp hentry]
      exact hslug
  · obtain ⟨text, hstored, hload⟩ := h.own s cursor hmem
    exact ⟨text, List.mem_append_left _ hstored, hload⟩

theorem owned_run (hapart : ∀ a b, P a → P b → ¬Shifted a b) (h : Reach watching (Among P) w) :
    Owned P w := by
  refine h.invariant ?_ fun s act t _ howned hok hstep => ?_
  · rintro _ rfl
    exact ⟨nofun, nofun, nofun, nofun⟩
  cases act with
  | start slug since =>
    rw [← Option.some.inj hstep]
    exact howned.start hapart hok since
  | advance watch frame fault =>
    obtain ⟨slug, hwatch, rfl⟩ := Option.map_eq_some_iff.mp hstep
    exact howned.advance (howned.watches slug (List.mem_of_getElem? hwatch)) frame fault

theorem exists_frame : ∃ frame id, cursorId frame = some id ∧ Scalar id ∧ load id = some id :=
  ⟨record [("kind", text "event"), ("event_id", text (ulidAt 1).val)], ofText (ulidAt 1).val,
    by decide +kernel, scalar_ofText _, load_ulid _⟩

def storedBy (slug : Slug) (id : PyStr) : World where
  files := Function.update (fun _ => none) (path slug.name) (some id)
  watches := [slug]
  stored := [(slug, id)]
  loaded := []

theorem storedBy_reach {slug : Slug} (h : P slug) {frame : Value} {id : PyStr}
    (hid : cursorId frame = some id) (hscalar : Scalar id) :
    Reach watching (Among P) (storedBy slug id) := by
  have hstart : World.empty.start slug none = { World.empty with watches := [slug] } := by
    rw [start_eq]
    rfl
  have hadvance : World.advance { World.empty with watches := [slug] } slug frame false =
      storedBy slug id := by
    rw [World.advance, hid]
    exact if_neg (by simp [hscalar])
  have hfirst : Reach watching (Among P) { World.empty with watches := [slug] } :=
    .next (a := .start slug none) (.start rfl) h (congrArg some hstart)
  exact hfirst.next (a := .advance 0 frame false) trivial (congrArg some hadvance)

theorem shifted_shares {a b : Slug} (h : Shifted a b) (ha : P a) (hb : P b) :
    ∃ w, Reach watching (Among P) w ∧ ¬OwnCursors w := by
  have hname : a.name = b.name := name_eq_iff.mpr (.inr (.inl h))
  obtain ⟨frame, id, hid, hscalar, hload⟩ := exists_frame
  have hresume : (storedBy a id).resume b none = some id := by
    simp only [World.resume, storedBy, hname, Function.update_self]
    exact hload
  have hreach : Reach watching (Among P) ((storedBy a id).start b none) :=
    (storedBy_reach ha hid hscalar).next (a := .start b none) hb rfl
  refine ⟨_, hreach, fun hown => ?_⟩
  rw [start_eq, hresume] at hown
  obtain ⟨text, hmem, -⟩ := hown b id (List.mem_singleton_self _)
  exact h.ne (Prod.mk.inj (List.mem_singleton.mp hmem)).1.symm

/-- Every name is one that a bookmark can have, the same for two slugs only where one is the other
shifted; and over all runs of watches of some slugs, loaded cursors are own ones just where no two
of the slugs are so. -/
theorem own_cursors_iff (P : Slug → Prop) :
    (∀ slug : Slug, validateName slug.name = .ok ()) ∧
    (∀ a b : Slug, a.name = b.name ↔ a = b ∨ Shifted a b ∨ Shifted b a) ∧
    ((∀ w, Reach watching (Among P) w → OwnCursors w) ↔ ∀ a b, P a → P b → ¬Shifted a b) := by
  refine ⟨validateName_slug, fun _ _ => name_eq_iff, fun h a b ha hb hshift => ?_,
    fun hapart w hreach => (owned_run hapart hreach).own⟩
  obtain ⟨w, hreach, hshares⟩ := shifted_shares hshift ha hb
  exact hshares (h w hreach)

def component (s : String) (h : ofText s ≠ [] ∧ ∀ c ∈ ofText s, isNameChar c = true) : Component :=
  ⟨ofText s, h⟩

/-- The watch of `a/b-c` loads the cursor of the watch of `a-b/c`. -/
theorem dashes_share : ∃ a b : Slug, a.owner.val = ofText "a" ∧ a.repo.val = ofText "b-c" ∧
    b.owner.val = ofText "a-b" ∧ b.repo.val = ofText "c" ∧ a.name = b.name ∧
    ∃ w, Reachable watching w ∧ ¬OwnCursors w := by
  let a : Slug := ⟨component "a" (by decide), component "b-c" (by decide)⟩
  let b : Slug := ⟨component "a-b" (by decide), component "c" (by decide)⟩
  have hshift : Shifted a b := ⟨ofText "b", by decide, by decide⟩
  obtain ⟨w, hreach, hshares⟩ := shifted_shares (P := fun _ => True) hshift trivial trivial
  exact ⟨a, b, rfl, rfl, rfl, rfl, by decide, w, hreach.reachable, hshares⟩

end Runs

end Waitbus.WatchCursors
