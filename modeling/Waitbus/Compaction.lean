import Mathlib

/-! Compaction of a log. Of the items that share a key the one of greatest rank is kept, items
without a key are all kept, and what is kept goes out in the order of ranks. A consumer that is cut
off meanwhile, and goes on behind the item it has stored, misses nothing exactly when ranks and
positions agree around the cut. -/

namespace Waitbus.Compaction

variable {α κ ρ : Type*} [DecidableEq κ] [LinearOrder ρ] {key : α → Option κ} {rank : α → ρ}

/-- An assignment to a dictionary that keeps the order of its insertions. -/
def put (k : κ) (x : α) (latest : List (κ × α)) : List (κ × α) :=
  if latest.any (·.1 = k) then latest.map fun p => if p.1 = k then (k, x) else p
  else latest ++ [(k, x)]

def get (k : κ) (latest : List (κ × α)) : Option α :=
  (latest.find? (·.1 = k)).map (·.2)

structure Backlog (α κ : Type*) where
  snapshot : List (κ × α)
  passthrough : List α

def Backlog.add (key : α → Option κ) (rank : α → ρ) (b : Backlog α κ) (x : α) : Backlog α κ :=
  match key x with
  | none => { b with passthrough := b.passthrough ++ [x] }
  | some k =>
    match get k b.snapshot with
    | none => { b with snapshot := put k x b.snapshot }
    | some y => if rank y < rank x then { b with snapshot := put k x b.snapshot } else b

def Backlog.items (b : Backlog α κ) : List α :=
  b.snapshot.map (·.2) ++ b.passthrough

def gather (key : α → Option κ) (rank : α → ρ) (items : List α) : Backlog α κ :=
  items.foldl (Backlog.add key rank) ⟨[], []⟩

def compact (key : α → Option κ) (rank : α → ρ) (items : List α) : List α :=
  (gather key rank items).items.insertionSort fun x y => rank x ≤ rank y

section Dictionary

variable {k k' : κ} {x y : α} {latest : List (κ × α)}

theorem get_eq_some (h : (latest.map (·.1)).Nodup) :
    get k latest = some y ↔ (k, y) ∈ latest := by
  simp only [get, Option.map_eq_some_iff]
  constructor
  · rintro ⟨p, hp, rfl⟩
    have hk : p.1 = k := by simpa using List.find?_some hp
    exact hk ▸ List.mem_of_find?_eq_some hp
  · intro hmem
    cases hfind : latest.find? (·.1 = k) with
    | none => exact absurd (List.find?_eq_none.mp hfind _ hmem) (by simp)
    | some p =>
      have hk : p.1 = k := by simpa using List.find?_some hfind
      have hp := List.mem_of_find?_eq_some hfind
      exact ⟨p, rfl, congrArg Prod.snd (List.inj_on_of_nodup_map h hp hmem hk)⟩

theorem put_keys (h : (latest.map (·.1)).Nodup) :
    ((put k x latest).map (·.1)).Nodup := by
  unfold put
  split
  · have hsame : (latest.map fun p => if p.1 = k then (k, x) else p).map (·.1) =
        latest.map (·.1) := by
      rw [List.map_map]
      refine List.map_congr_left fun p _ => ?_
      simp only [Function.comp_apply]
      split
      · rename_i hp
        exact hp.symm
      · rfl
    rw [hsame]
    exact h
  · rename_i hno
    have hfresh : k ∉ latest.map (·.1) := by simpa using hno
    rw [List.map_append]
    exact List.nodup_append.mpr ⟨h, by simp, fun a ha b hb hab => hfresh (by
      rw [List.map_singleton, List.mem_singleton] at hb
      rwa [hab, hb] at ha)⟩

theorem mem_put :
    (k', y) ∈ put k x latest ↔ (k' = k ∧ y = x) ∨ (k' ≠ k ∧ (k', y) ∈ latest) := by
  unfold put
  split
  · rename_i hany
    obtain ⟨p, hp, hk⟩ := List.any_eq_true.mp hany
    rw [List.mem_map]
    constructor
    · rintro ⟨q, hq, heq⟩
      split at heq
      · cases heq
        exact .inl ⟨rfl, rfl⟩
      · rename_i hne
        rw [heq] at hne hq
        exact .inr ⟨hne, hq⟩
    · rintro (⟨rfl, rfl⟩ | ⟨hne, hmem⟩)
      · exact ⟨p, hp, by rw [if_pos (of_decide_eq_true hk)]⟩
      · exact ⟨(k', y), hmem, by rw [if_neg hne]⟩
  · rename_i hno
    have hfresh : ∀ z, (k, z) ∉ latest := fun z hz =>
      hno (List.any_eq_true.mpr ⟨_, hz, decide_eq_true rfl⟩)
    simp only [List.mem_append, List.mem_singleton, Prod.mk.injEq]
    constructor
    · rintro (hmem | heq)
      · exact .inr ⟨fun heq => hfresh y (heq ▸ hmem), hmem⟩
      · exact .inl heq
    · rintro (heq | ⟨-, hmem⟩)
      · exact .inr heq
      · exact .inl hmem

end Dictionary

/-- The item of greatest rank among those of its key; an item without a key is one. -/
def Survives (key : α → Option κ) (rank : α → ρ) (items : List α) (x : α) : Prop :=
  x ∈ items ∧ ∀ k, key x = some k → ∀ y ∈ items, key y = some k → rank y ≤ rank x

section Gather

variable {items : List α} {x y : α} {b : Backlog α κ}

theorem exists_survivor (rank : α → ρ) {k : κ} (hx : x ∈ items) (hk : key x = some k) :
    ∃ m, key m = some k ∧ Survives key rank items m := by
  have hx' : x ∈ items.filter fun z => key z = some k :=
    List.mem_filter.mpr ⟨hx, decide_eq_true hk⟩
  cases hm : (items.filter fun z => key z = some k).argmax rank with
  | none =>
    rw [List.argmax_eq_none.mp hm] at hx'
    cases hx'
  | some m =>
    obtain ⟨hmem, hmk⟩ := List.mem_filter.mp (List.argmax_mem hm)
    have hmk := of_decide_eq_true hmk
    refine ⟨m, hmk, hmem, fun k' hk' y hy hyk => ?_⟩
    obtain rfl : k = k' := Option.some.inj (hmk.symm.trans hk')
    exact List.le_of_mem_argmax (List.mem_filter.mpr ⟨hy, decide_eq_true hyk⟩) hm

structure Gathers (key : α → Option κ) (rank : α → ρ) (items : List α) (b : Backlog α κ) :
    Prop where
  keys : (b.snapshot.map (·.1)).Nodup
  latest : ∀ k y, (k, y) ∈ b.snapshot ↔ key y = some k ∧ Survives key rank items y
  unkeyed : b.passthrough = items.filter fun x => (key x).isNone

omit [DecidableEq κ] in
theorem survives_snoc_of_ne {k : κ} (hy : key y = some k) (hx : key x ≠ some k) :
    Survives key rank (items ++ [x]) y ↔ Survives key rank items y := by
  have hne : y ≠ x := fun heq => hx (heq ▸ hy)
  simp only [Survives, List.mem_append, List.mem_singleton, hne, or_false, hy, Option.some.injEq,
    forall_eq']
  refine and_congr_right fun _ => ⟨fun h z hz => h z (.inl hz), fun h z hz hzk => ?_⟩
  rcases hz with hz | rfl
  · exact h z hz hzk
  · exact absurd hzk hx

theorem Gathers.add (h : Gathers key rank items b) (hdistinct : ((items ++ [x]).map rank).Nodup) :
    Gathers key rank (items ++ [x]) (b.add key rank x) := by
  obtain ⟨hkeys, hlatest, hunkeyed⟩ := h
  have hfresh : ∀ z ∈ items, rank z ≠ rank x := by
    rw [List.map_append, List.nodup_append] at hdistinct
    exact fun z hz => hdistinct.2.2 _ (List.mem_map_of_mem hz) _ (by simp)
  unfold Backlog.add
  cases hx : key x with
  | none =>
    refine ⟨hkeys, fun k y => ?_, by simp [hunkeyed, hx]⟩
    rw [hlatest]
    exact and_congr_right fun hy => (survives_snoc_of_ne hy (by simp [hx])).symm
  | some k =>
    have hfilter : b.passthrough = (items ++ [x]).filter fun x => (key x).isNone := by
      simp [hunkeyed, hx]
    -- With `x` as the new greatest of its key, the entries of other keys stay.
    have hput : (∀ z ∈ items, key z = some k → rank z ≤ rank x) →
        Gathers key rank (items ++ [x]) { b with snapshot := put k x b.snapshot } := by
      intro hgreatest
      refine ⟨put_keys hkeys, fun k' y => ?_, hfilter⟩
      rw [mem_put, hlatest]
      constructor
      · rintro (⟨rfl, rfl⟩ | ⟨hne, hy, hs⟩)
        · refine ⟨hx, by simp, fun k'' hk'' z hz hzk => ?_⟩
          obtain rfl : k' = k'' := Option.some.inj (hx.symm.trans hk'')
          rcases List.mem_append.mp hz with hz | hz
          · exact hgreatest z hz hzk
          · rw [List.mem_singleton.mp hz]
        · have hxk : key x ≠ some k' := fun hxk => hne (Option.some.inj (hxk.symm.trans hx))
          exact ⟨hy, (survives_snoc_of_ne hy hxk).mpr hs⟩
      · rintro ⟨hy, hs⟩
        by_cases hk : k' = k
        · subst hk
          refine .inl ⟨rfl, ?_⟩
          have hle := hs.2 k' hy x (by simp) hx
          rcases List.mem_append.mp hs.1 with hmem | hmem
          · exact absurd (le_antisymm (hgreatest y hmem hy) hle) (hfresh y hmem)
          · exact List.mem_singleton.mp hmem
        · have hxk : key x ≠ some k' := fun hxk => hk (Option.some.inj (hxk.symm.trans hx))
          exact .inr ⟨hk, hy, (survives_snoc_of_ne hy hxk).mp hs⟩
    simp only
    cases hprev : get k b.snapshot with
    | none =>
      refine hput fun z hz hzk => ?_
      -- A key that has no entry has had no item.
      obtain ⟨m, hm⟩ := exists_survivor rank hz hzk
      rw [← hlatest, ← get_eq_some hkeys, hprev] at hm
      cases hm
    | some prev =>
      obtain ⟨hprevk, hprevs⟩ := (hlatest k prev).mp ((get_eq_some hkeys).mp hprev)
      simp only
      split
      · rename_i hlt
        exact hput fun z hz hzk => (hprevs.2 k hprevk z hz hzk).trans (le_of_lt hlt)
      · rename_i hle
        refine ⟨hkeys, fun k' y => ?_, hfilter⟩
        rw [hlatest]
        by_cases hk : k' = k
        · subst hk
          refine and_congr_right fun hy => ⟨fun hs => ?_, fun hs => ?_⟩
          · refine ⟨List.mem_append_left _ hs.1, fun k'' hk'' z hz hzk => ?_⟩
            obtain rfl : k' = k'' := Option.some.inj (hy.symm.trans hk'')
            rcases List.mem_append.mp hz with hz | hz
            · exact hs.2 k' hy z hz hzk
            · rw [List.mem_singleton.mp hz]
              exact (not_lt.mp hle).trans (hs.2 k' hy prev hprevs.1 hprevk)
          · have hprevle := hs.2 k' hy prev (List.mem_append_left _ hprevs.1) hprevk
            rcases List.mem_append.mp hs.1 with hmem | hmem
            · exact ⟨hmem, fun k'' hk'' z hz => hs.2 k'' hk'' z (List.mem_append_left _ hz)⟩
            · rw [List.mem_singleton.mp hmem] at hprevle
              exact absurd (le_antisymm hprevle (not_lt.mp hle)) (hfresh prev hprevs.1)
        · have hxk : key x ≠ some k' := fun hxk => hk (Option.some.inj (hxk.symm.trans hx))
          exact and_congr_right fun hy => (survives_snoc_of_ne hy hxk).symm

theorem gather_gathers (key : α → Option κ) (h : (items.map rank).Nodup) :
    Gathers key rank items (gather key rank items) := by
  induction items using List.reverseRecOn with
  | nil => exact ⟨List.nodup_nil, by simp [gather, Survives], rfl⟩
  | append_singleton items x ih =>
    rw [gather, List.foldl_append]
    have hinit : (items.map rank).Nodup := by
      rw [List.map_append] at h
      exact (List.nodup_append.mp h).1
    exact (ih hinit).add h

theorem mem_compact (h : (items.map rank).Nodup) :
    x ∈ compact key rank items ↔ Survives key rank items x := by
  obtain ⟨-, hlatest, hunkeyed⟩ := gather_gathers key h
  simp only [compact, List.mem_insertionSort, Backlog.items, List.mem_append, List.mem_map,
    Prod.exists, exists_eq_right, hlatest, hunkeyed, List.mem_filter]
  constructor
  · rintro (⟨k, -, hs⟩ | ⟨hx, hk⟩)
    · exact hs
    · exact ⟨hx, fun k hk' => by simp [hk'] at hk⟩
  · intro hs
    cases hk : key x with
    | none => exact .inr ⟨hs.1, rfl⟩
    | some k => exact .inl ⟨k, rfl, hs⟩

theorem compact_sorted (key : α → Option κ) (h : (items.map rank).Nodup) :
    (compact key rank items).Pairwise fun x y => rank x < rank y := by
  obtain ⟨hkeys, hlatest, hunkeyed⟩ := gather_gathers key h
  have hsorted := List.pairwise_insertionSort (fun x y => rank x ≤ rank y)
    (gather key rank items).items
  have hinj : ∀ x ∈ items, ∀ y ∈ items, rank x = rank y → x = y :=
    fun x hx y hy => List.inj_on_of_nodup_map h hx hy
  have hnodup : (compact key rank items).Nodup := by
    rw [compact, (List.perm_insertionSort _ _).nodup_iff, Backlog.items, List.nodup_append]
    refine ⟨?_, ?_, ?_⟩
    · refine List.Nodup.map_on (fun p hp q hq hpq => ?_) (List.Nodup.of_map _ hkeys)
      have hpk := ((hlatest p.1 p.2).mp hp).1
      have hqk := ((hlatest q.1 q.2).mp hq).1
      rw [hpq, hqk] at hpk
      exact Prod.ext (Option.some.inj hpk).symm hpq
    · rw [hunkeyed]
      exact (List.Nodup.of_map _ h).filter _
    · rintro y hy z hz rfl
      obtain ⟨p, hp, rfl⟩ := List.mem_map.mp hy
      have hpk := ((hlatest p.1 p.2).mp hp).1
      rw [hunkeyed, List.mem_filter, hpk] at hz
      exact absurd hz.2 (by simp)
  refine (hsorted.and hnodup).imp_of_mem fun {x y} hx hy ⟨hle, hne⟩ => ?_
  have hx := ((mem_compact h).mp hx).1
  have hy := ((mem_compact h).mp hy).1
  exact lt_of_le_of_ne hle fun heq => hne (hinj x hx y hy heq)

end Gather

section Resume

variable {items read rest window taken left : List α} {x y : α} {k : κ}

def newest (key : α → Option κ) (k : κ) (items : List α) : Option α :=
  (items.filter fun x => key x = some k).getLast?

theorem newest_append (a b : List α) :
    newest key k (a ++ b) = (newest key k b).or (newest key k a) := by
  rw [newest, List.filter_append, List.getLast?_append]
  rfl

theorem mem_of_newest (h : newest key k items = some x) : x ∈ items ∧ key x = some k := by
  have hmem := List.mem_filter.mp (List.mem_of_getLast? h)
  exact ⟨hmem.1, of_decide_eq_true hmem.2⟩

theorem newest_eq_none : newest key k items = none ↔ ∀ x ∈ items, key x ≠ some k := by
  rw [newest, List.getLast?_eq_none_iff, List.filter_eq_nil_iff]
  simp

theorem newest_eq_some
    (honly : ∀ x ∈ items, ∀ y ∈ items, key x = some k → key y = some k → x = y) :
    newest key k items = some x ↔ x ∈ items ∧ key x = some k := by
  refine ⟨mem_of_newest, fun ⟨hx, hk⟩ => ?_⟩
  cases hnew : newest key k items with
  | none => exact absurd hk (newest_eq_none.mp hnew x hx)
  | some y =>
    obtain ⟨hy, hyk⟩ := mem_of_newest hnew
    rw [honly x hx y hy hk hyk]

theorem compact_once (h : (items.map rank).Nodup) : ∀ x ∈ compact key rank items,
    ∀ y ∈ compact key rank items, key x = some k → key y = some k → x = y := by
  intro x hx y hy hxk hyk
  have hx := (mem_compact h).mp hx
  have hy := (mem_compact h).mp hy
  exact List.inj_on_of_nodup_map h hx.1 hy.1
    (le_antisymm (hy.2 k hyk x hx.1 hxk) (hx.2 k hxk y hy.1 hyk))

/-- The rank of the last item that was handed over is at least that of `x`. -/
def Reached (rank : α → ρ) (taken : List α) (x : α) : Prop :=
  ∃ z ∈ taken.getLast?, rank x ≤ rank z

theorem mem_taken (h : (window.map rank).Nodup) (hsplit : compact key rank window = taken ++ left) :
    x ∈ taken ↔ Survives key rank window x ∧ Reached rank taken x := by
  have hsorted := compact_sorted key h
  rw [hsplit, List.pairwise_append] at hsorted
  obtain ⟨htaken, -, hleft⟩ := hsorted
  rw [← mem_compact h, hsplit, List.mem_append]
  constructor
  · intro hx
    obtain ⟨z, hz⟩ := Option.isSome_iff_exists.mp (List.getLast?_isSome.mpr (List.ne_nil_of_mem hx))
    refine ⟨.inl hx, z, hz, ?_⟩
    obtain ⟨init, rfl⟩ := List.getLast?_eq_some_iff.mp hz
    rcases List.mem_append.mp hx with hx | hx
    · exact le_of_lt ((List.pairwise_append.mp htaken).2.2 x hx z (by simp))
    · rw [List.mem_singleton.mp hx]
  · rintro ⟨hx | hx, z, hz, hle⟩
    · exact hx
    · exact absurd (hleft z (List.mem_of_getLast? hz) x hx) (not_lt.mpr hle)

/-- Every item without a key is handed over by one of two runs, and the last that they hand over
of each key is its newest. -/
def Covers (key : α → Option κ) (all handed : List α) : Prop :=
  (∀ x ∈ all, key x = none → x ∈ handed) ∧ ∀ k, newest key k handed = newest key k all

/-- Behind the cut nothing has been passed over, and of the items ahead of it the newest of each
key has the greatest rank. -/
structure InOrder (key : α → Option κ) (rank : α → ρ) (window taken read rest : List α) : Prop where
  unkeyed : ∀ x ∈ read, key x = none → Reached rank taken x
  behind : ∀ k x, newest key k (read ++ rest) = some x → x ∈ read →
    Reached rank taken x ∧ ∀ y ∈ window, key y = some k → rank y ≤ rank x
  ahead : ∀ k x, newest key k rest = some x → ∀ y ∈ rest, key y = some k → rank y ≤ rank x

/-- The first run compacts a `window` and is cut off after `taken`; the second compacts all the
`rest` behind the items that the cursor has gone past. -/
theorem covers_iff (hall : ((read ++ rest).map rank).Nodup) (hwindow : (window.map rank).Nodup)
    (hread : read ⊆ window) (hwithin : window ⊆ read ++ rest)
    (hsplit : compact key rank window = taken ++ left) :
    Covers key (read ++ rest) (taken ++ compact key rank rest) ↔
      InOrder key rank window taken read rest := by
  obtain ⟨-, hrest, hapart⟩ := List.nodup_append.mp (List.map_append ▸ hall)
  have hnotRest : ∀ x ∈ read, x ∉ rest := fun x hx hx' =>
    hapart _ (List.mem_map_of_mem hx) _ (List.mem_map_of_mem hx') rfl
  have htaken : ∀ k, ∀ x ∈ taken, ∀ y ∈ taken, key x = some k → key y = some k → x = y :=
    fun k x hx y hy => compact_once hwindow x (hsplit ▸ List.mem_append_left _ hx) y
      (hsplit ▸ List.mem_append_left _ hy)
  -- What the second run hands over of a key is its greatest item ahead of the cut.
  have hsecond : ∀ k x, newest key k (compact key rank rest) = some x ↔
      key x = some k ∧ Survives key rank rest x := fun k x => by
    rw [newest_eq_some (compact_once hrest), mem_compact hrest, and_comm]
  have hsecondNone : ∀ k, newest key k rest = none →
      newest key k (compact key rank rest) = none := fun k hnone =>
    newest_eq_none.mpr fun x hx => newest_eq_none.mp hnone x ((mem_compact hrest).mp hx).1
  have hbehind : ∀ k x, newest key k (read ++ rest) = some x → x ∈ read →
      newest key k rest = none := by
    intro k x hnew hx
    rw [newest_append] at hnew
    cases hr : newest key k rest with
    | none => rfl
    | some y =>
      rw [hr, Option.some_or, Option.some.injEq] at hnew
      exact absurd (hnew ▸ (mem_of_newest hr).1) (hnotRest x hx)
  constructor
  · rintro ⟨hunkeyed, hnewest⟩
    refine ⟨fun x hx hk => ?_, fun k x hnew hx => ?_, fun k x hnew => ?_⟩
    · rcases List.mem_append.mp (hunkeyed x (List.mem_append_left _ hx) hk) with hmem | hmem
      · exact ((mem_taken hwindow hsplit).mp hmem).2
      · exact absurd ((mem_compact hrest).mp hmem).1 (hnotRest x hx)
    · have hnone := hsecondNone k (hbehind k x hnew hx)
      have heq := hnewest k
      rw [hnew, newest_append, hnone, Option.none_or] at heq
      obtain ⟨hmem, hk⟩ := mem_of_newest heq
      obtain ⟨hs, hreached⟩ := (mem_taken hwindow hsplit).mp hmem
      exact ⟨hreached, hs.2 k hk⟩
    · obtain ⟨hx, hk⟩ := mem_of_newest hnew
      obtain ⟨m, hm⟩ := exists_survivor rank hx hk
      have heq := hnewest k
      rw [newest_append, newest_append, hnew, (hsecond k m).mpr hm, Option.some_or, Option.some_or,
        Option.some.injEq] at heq
      exact heq ▸ hm.2.2 k hm.1
  · rintro ⟨hunkeyed, hnewest, hahead⟩
    refine ⟨fun x hx hk => ?_, fun k => ?_⟩
    · have hs : ∀ l : List α, x ∈ l → Survives key rank l x := fun l hmem =>
        ⟨hmem, fun k hk' => by rw [hk] at hk'; cases hk'⟩
      rcases List.mem_append.mp hx with hx | hx
      · exact List.mem_append_left _
          ((mem_taken hwindow hsplit).mpr ⟨hs _ (hread hx), hunkeyed x hx hk⟩)
      · exact List.mem_append_right _ ((mem_compact hrest).mpr (hs _ hx))
    · rw [newest_append, newest_append]
      cases hr : newest key k rest with
      | some x =>
        obtain ⟨hx, hk⟩ := mem_of_newest hr
        have hs : Survives key rank rest x := ⟨hx, fun k' hk' => by
          obtain rfl : k = k' := Option.some.inj (hk.symm.trans hk')
          exact hahead k x hr⟩
        rw [(hsecond k x).mpr ⟨hk, hs⟩, Option.some_or, Option.some_or]
      | none =>
        rw [hsecondNone k hr, Option.none_or, Option.none_or]
        cases hb : newest key k read with
        | some x =>
          obtain ⟨hx, hk⟩ := mem_of_newest hb
          have hnew : newest key k (read ++ rest) = some x := by
            rw [newest_append, hr, hb, Option.none_or]
          obtain ⟨hreached, hgreatest⟩ := hnewest k x hnew hx
          have hs : Survives key rank window x := ⟨hread hx, fun k' hk' => by
            obtain rfl : k = k' := Option.some.inj (hk.symm.trans hk')
            exact hgreatest⟩
          exact (newest_eq_some (htaken k)).mpr
            ⟨(mem_taken hwindow hsplit).mpr ⟨hs, hreached⟩, hk⟩
        | none =>
          refine newest_eq_none.mpr fun x hx => ?_
          have hx := hwithin ((mem_taken hwindow hsplit).mp hx).1.1
          rcases List.mem_append.mp hx with hx | hx
          · exact newest_eq_none.mp hb x hx
          · exact newest_eq_none.mp hr x hx

end Resume

end Waitbus.Compaction
