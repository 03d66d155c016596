import Waitbus.EventsQuery

/-! What `_strip_comments` makes of a statement, against SQLite's tokens. Its patterns know no
quotes, and look for the end of a block that began in a line comment. -/

namespace Waitbus.CommentStrip
open Python SqliteLexer PatternSub EventsQuery

section Condition

/-- Neither comment pattern matches from within the token, which `rest` follows. -/
def NoMark : PyStr → PyStr → Prop
  | [], _ => True
  | c :: token, rest => blockComment? (c :: token ++ rest) = none ∧
    lineComment? (c :: token ++ rest) = none ∧ NoMark token rest

/-- What the block pattern matches from within the token ends in it; the first characters are those
of a match that began before. -/
def Enclosed : Nat → PyStr → PyStr → Prop
  | left, [], _ => left = 0
  | left + 1, _ :: token, rest => Enclosed left token rest
  | 0, c :: token, rest =>
    match blockComment? (c :: token ++ rest) with
    | some (n + 1) => Enclosed n token rest
    | _ => Enclosed 0 token rest

/-- A token that is not a comment holds no comment mark, a line comment no start of a block that
goes on behind it, and a block comment is closed. -/
def Unmistaken : Kind → PyStr → PyStr → Prop
  | .lineComment, token, rest => Enclosed 0 token rest
  | .blockComment, token, rest => blockComment? (token ++ rest) ≠ none
  | _, token, rest => NoMark token rest

def Told : List (Kind × PyStr) → Prop
  | [] => True
  | (kind, token) :: later =>
    Unmistaken kind token (later.map (·.2)).flatten ∧ Told later

instance decidableNoMark : ∀ token rest, Decidable (NoMark token rest)
  | [], _ => isTrue trivial
  | _ :: token, rest =>
    have := decidableNoMark token rest
    inferInstanceAs (Decidable (_ ∧ _ ∧ _))

instance decidableEnclosed : ∀ left token rest, Decidable (Enclosed left token rest)
  | left, [], _ => inferInstanceAs (Decidable (left = 0))
  | left + 1, _ :: token, rest => decidableEnclosed left token rest
  | 0, c :: token, rest => by
    have := fun n => decidableEnclosed n token rest
    unfold Enclosed
    split <;> infer_instance

instance (kind : Kind) (token rest : PyStr) : Decidable (Unmistaken kind token rest) := by
  unfold Unmistaken
  split <;> infer_instance

instance decidableTold : ∀ tokens, Decidable (Told tokens)
  | [] => isTrue trivial
  | (kind, token) :: later =>
    have := decidableTold later
    inferInstanceAs (Decidable (Unmistaken kind token _ ∧ Told later))

/-- A character of a statement, and its place; a blank that was put in has none. -/
abbrev Placed := PyChar × Option Nat

def placed (sql : PyStr) : List Placed :=
  sql.zipIdx.map fun (c, place) => (c, some place)

def placedBlank : Placed :=
  (.scalar ' ', none)

/-- What `validate` returns, but for the white space around it, is place for place the statement
without its comments. -/
structure Faithful (sql out : PyStr) : Prop where
  kept : withoutComments Prod.fst placedBlank (placed sql) =
    uncomment Prod.fst placedBlank (placed sql)
  returned : out = strip (uncomment id (.scalar ' ') sql)

end Condition

section Passes

variable {α : Type*} {face : α → PyChar} {blank : α} {x : α} {xs u r : List α} {n : Nat}

theorem blockEnd_le {text : PyStr} (h : blockEnd text = some n) : n ≤ text.length := by
  induction text generalizing n with
  | nil => nomatch h
  | cons c rest ih =>
    cases rest with
    | nil => nomatch h
    | cons d rest =>
      rw [blockEnd] at h
      split_ifs at h
      · rw [← Option.some.inj h, List.length_cons, List.length_cons]
        omega
      · obtain ⟨m, hm, rfl⟩ := Option.map_eq_some_iff.mp h
        exact Nat.succ_le_succ (ih hm)

theorem blockComment?_eq_some {text : PyStr} : blockComment? text = some n ↔
    ∃ inside m, text = .scalar '/' :: .scalar '*' :: inside ∧ blockEnd inside = some m ∧
      n = m + 2 := by
  constructor
  · intro h
    match text, h with
    | c :: d :: rest, h =>
      rw [blockComment?] at h
      split_ifs at h with hmark
      obtain ⟨m, hm, rfl⟩ := Option.map_eq_some_iff.mp h
      exact ⟨rest, m, by rw [hmark.1, hmark.2], hm, rfl⟩
  · rintro ⟨inside, m, rfl, hm, rfl⟩
    rw [blockComment?, if_pos ⟨rfl, rfl⟩, hm]
    rfl

theorem lineComment?_eq_none {c d : PyChar} {rest : PyStr} :
    lineComment? (c :: d :: rest) = none ↔ ¬(c = .scalar '-' ∧ d = .scalar '-') := by
  rw [lineComment?]
  split_ifs with h <;> simp [h]

theorem lineComment?_blocks (hblank : face blank = .scalar ' ')
    (hline : lineComment? ((x :: xs).map face) = none) :
    lineComment? ((x :: resub face blockComment? [blank] 0 xs).map face) = none := by
  cases xs with
  | nil => rfl
  | cons y ys =>
    cases hblock : blockComment? ((y :: ys).map face) with
    | none =>
      rw [resub_none hblock]
      exact lineComment?_eq_none.mpr (lineComment?_eq_none.mp hline)
    | some n =>
      obtain ⟨-, m, -, -, rfl⟩ := blockComment?_eq_some.mp hblock
      rw [resub_some hblock]
      exact lineComment?_eq_none.mpr fun h => absurd (hblank.symm.trans h.2) (by decide)

theorem strip_none (hblank : face blank = .scalar ' ')
    (hblock : blockComment? ((x :: xs).map face) = none)
    (hline : lineComment? ((x :: xs).map face) = none) :
    withoutComments face blank (x :: xs) = x :: withoutComments face blank xs := by
  rw [withoutComments, resub_none hblock, resub_none (lineComment?_blocks hblank hline)]
  rfl

theorem strip_block (hblank : face blank = .scalar ' ')
    (hblock : blockComment? ((x :: xs).map face) = some (n + 1)) :
    withoutComments face blank (x :: xs) = blank :: withoutComments face blank (xs.drop n) := by
  have hline : lineComment? ((blank :: xs.drop n).map face) = none := by
    cases xs.drop n with
    | nil => rfl
    | cons y ys =>
      exact lineComment?_eq_none.mpr fun h => absurd (hblank.symm.trans h.1) (by decide)
  rw [withoutComments, resub_some hblock, List.singleton_append,
    resub_none (lineComment?_blocks hblank hline)]
  rfl

theorem blockComment?_dash {text : PyStr} {c : PyChar} (hc : c = .scalar '-') :
    blockComment? (c :: text) = none := by
  cases hblock : blockComment? (c :: text) with
  | none => rfl
  | some n =>
    obtain ⟨inside, m, heq, -⟩ := blockComment?_eq_some.mp hblock
    exact absurd (hc.symm.trans (List.cons.inj heq).1) (by decide)

theorem strip_line (hline : lineComment? ((x :: xs).map face) ≠ none) (hx : x ∉ xs)
    (hne : x ≠ blank) : x ∉ withoutComments face blank (x :: xs) := by
  cases xs with
  | nil => exact absurd rfl hline
  | cons y ys =>
    obtain ⟨hdash, hdash'⟩ : face x = .scalar '-' ∧ face y = .scalar '-' := by
      by_contra hno
      exact hline (lineComment?_eq_none.mpr hno)
    have hmatch : ∃ n, lineComment? ((x :: y :: resub face blockComment? [blank] 0 ys).map face) =
        some (n + 1) :=
      ⟨_, if_pos ⟨hdash, hdash'⟩⟩
    obtain ⟨n, hmatch⟩ := hmatch
    rw [withoutComments, resub_none (blockComment?_dash hdash),
      resub_none (blockComment?_dash hdash'), resub_some hmatch, List.nil_append]
    intro hmem
    rcases mem_resub hmem with hmem | hmem
    · nomatch hmem
    · rcases List.mem_cons.mp (List.mem_of_mem_drop hmem) with rfl | hmem
      · exact hx List.mem_cons_self
      · rcases mem_resub hmem with hmem | hmem
        · exact hne (List.mem_singleton.mp hmem)
        · exact hx (List.mem_cons_of_mem _ hmem)

/-- A token that is not a comment stays as it is if no comment pattern matches from within it. -/
theorem strip_append (hblank : face blank = .scalar ' ') (hnodup : (u ++ r).Nodup)
    (hfresh : blank ∉ u) (later : List α) :
    withoutComments face blank (u ++ r) = u ++ later ↔
      NoMark (u.map face) (r.map face) ∧ withoutComments face blank r = later := by
  induction u with
  | nil => exact (iff_of_eq (true_and _)).symm
  | cons x u ih =>
    obtain ⟨hx, hnodup⟩ := List.nodup_cons.mp hnodup
    have hne : x ≠ blank := fun heq => hfresh (heq ▸ List.mem_cons_self)
    specialize ih hnodup fun hmem => hfresh (List.mem_cons_of_mem _ hmem)
    have hfaces : (x :: (u ++ r)).map face = face x :: u.map face ++ r.map face := by
      rw [List.map_cons, List.map_append, List.cons_append]
    rw [List.map_cons, NoMark, List.cons_append, List.cons_append, ← hfaces]
    cases hblock : blockComment? ((x :: (u ++ r)).map face) with
    | some n =>
      obtain ⟨-, m, -, -, rfl⟩ := blockComment?_eq_some.mp hblock
      rw [strip_block hblank hblock]
      exact ⟨fun h => absurd (List.cons.inj h).1.symm hne, fun h => nomatch h.1.1⟩
    | none =>
      cases hline : lineComment? ((x :: (u ++ r)).map face) with
      | some n =>
        have hmarked : lineComment? ((x :: (u ++ r)).map face) ≠ none := by
          rw [hline]
          nofun
        have hgone := strip_line hmarked hx hne
        exact ⟨fun h => absurd (h ▸ List.mem_cons_self) hgone, fun h => nomatch h.1.2.1⟩
      | none =>
        rw [strip_none hblank hblock hline, List.cons_inj_right, ih]
        simp only [true_and]

theorem enclosed_match (h : blockComment? ((x :: (u ++ r)).map face) = some (n + 1)) :
    Enclosed 0 ((x :: u).map face) (r.map face) ↔ Enclosed n (u.map face) (r.map face) := by
  rw [List.map_cons, List.map_append] at h
  rw [List.map_cons, Enclosed, List.cons_append, h]

theorem enclosed_copy (h : blockComment? ((x :: (u ++ r)).map face) = none) :
    Enclosed 0 ((x :: u).map face) (r.map face) ↔ Enclosed 0 (u.map face) (r.map face) := by
  rw [List.map_cons, List.map_append] at h
  rw [List.map_cons, Enclosed, List.cons_append, h]

theorem blocks_enclosed (hblank : face blank = .scalar ' ')
    (henclosed : Enclosed n (u.map face) (r.map face)) (hu : ∀ y ∈ u, face y ≠ .scalar '\n') :
    ∃ u', resub face blockComment? [blank] n (u ++ r) =
        u' ++ resub face blockComment? [blank] 0 r ∧ ∀ y ∈ u', face y ≠ .scalar '\n' := by
  induction u generalizing n with
  | nil =>
    obtain rfl : n = 0 := by simpa only [List.map_nil, Enclosed] using henclosed
    exact ⟨[], rfl, nofun⟩
  | cons x u ih =>
    have hu' : ∀ y ∈ u, face y ≠ .scalar '\n' := fun y hy => hu y (List.mem_cons_of_mem _ hy)
    cases n with
    | succ n => exact ih henclosed hu'
    | zero =>
      cases hblock : blockComment? ((x :: (u ++ r)).map face) with
      | none =>
        obtain ⟨v, heq, hv⟩ := ih ((enclosed_copy hblock).mp henclosed) hu'
        refine ⟨x :: v, by rw [List.cons_append, resub_none hblock, heq, List.cons_append], ?_⟩
        exact List.forall_mem_cons.mpr ⟨hu x List.mem_cons_self, hv⟩
      | some n =>
        obtain ⟨-, m, -, -, rfl⟩ := blockComment?_eq_some.mp hblock
        obtain ⟨v, heq, hv⟩ := ih ((enclosed_match hblock).mp henclosed) hu'
        refine ⟨blank :: v, by rw [List.cons_append, resub_match hblock, heq]; rfl, ?_⟩
        exact List.forall_mem_cons.mpr ⟨by rw [hblank]; decide, hv⟩

theorem blockComment?_le {text : PyStr} (h : blockComment? text = some n) : n ≤ text.length := by
  obtain ⟨inside, m, rfl, hm, rfl⟩ := blockComment?_eq_some.mp h
  exact Nat.add_le_add_right (blockEnd_le hm) 2

theorem blocks_not_enclosed (hn : n ≤ (u ++ r).length)
    (henclosed : ¬Enclosed n (u.map face) (r.map face)) :
    ∃ z r', r = z :: r' ∧ ∀ y ∈ resub face blockComment? [blank] n (u ++ r),
      y = blank ∨ y ∈ u ∨ y ∈ r' := by
  induction u generalizing n with
  | nil =>
    cases n with
    | zero => exact absurd rfl henclosed
    | succ n =>
      cases r with
      | nil => nomatch hn
      | cons z r' =>
        refine ⟨z, r', rfl, fun y hy => ?_⟩
        rcases mem_resub hy with hy | hy
        · exact .inl (List.mem_singleton.mp hy)
        · exact .inr (.inr (List.mem_of_mem_drop hy))
  | cons x u ih =>
    cases n with
    | succ n =>
      obtain ⟨z, r', rfl, hmem⟩ := ih (Nat.le_of_succ_le_succ hn) henclosed
      exact ⟨z, r', rfl, fun y hy => (hmem y hy).imp_right (Or.imp_left (List.mem_cons_of_mem _))⟩
    | zero =>
      cases hblock : blockComment? ((x :: (u ++ r)).map face) with
      | none =>
        obtain ⟨z, r', rfl, hmem⟩ := ih (Nat.zero_le _) (mt (enclosed_copy hblock).mpr henclosed)
        refine ⟨z, r', rfl, fun y hy => ?_⟩
        rw [List.cons_append, resub_none hblock] at hy
        rcases List.mem_cons.mp hy with rfl | hy
        · exact .inr (.inl List.mem_cons_self)
        · exact (hmem y hy).imp_right (Or.imp_left (List.mem_cons_of_mem _))
      | some n =>
        have hlen := blockComment?_le hblock
        obtain ⟨-, m, -, -, rfl⟩ := blockComment?_eq_some.mp hblock
        rw [List.length_map, List.length_cons] at hlen
        obtain ⟨z, r', rfl, hmem⟩ := ih (Nat.le_of_succ_le_succ hlen)
          (mt (enclosed_match hblock).mpr henclosed)
        refine ⟨z, r', rfl, fun y hy => ?_⟩
        rw [List.cons_append, resub_match hblock] at hy
        rcases List.mem_cons.mp hy with rfl | hy
        · exact .inl rfl
        · exact (hmem y hy).imp_right (Or.imp_left (List.mem_cons_of_mem _))

/-- A line comment that encloses its blocks goes, and what is behind it is left to itself. -/
theorem strip_enclosed (hblank : face blank = .scalar ' ') {y : α}
    (hx : face x = .scalar '-') (hy : face y = .scalar '-') (hu : ∀ z ∈ u, face z ≠ .scalar '\n')
    (hr : ∀ z ∈ r.head?, face z = .scalar '\n')
    (henclosed : Enclosed 0 ((x :: y :: u).map face) (r.map face)) :
    withoutComments face blank (x :: y :: u ++ r) = withoutComments face blank r := by
  have hx' : blockComment? ((x :: y :: (u ++ r)).map face) = none := blockComment?_dash hx
  have hy' : blockComment? ((y :: (u ++ r)).map face) = none := blockComment?_dash hy
  obtain ⟨v, heq, hv⟩ := blocks_enclosed hblank
    ((enclosed_copy hy').mp ((enclosed_copy (u := y :: u) hx').mp henclosed)) hu
  have hends : ∀ z ∈ (resub face blockComment? [blank] 0 r).head?, face z = .scalar '\n' := by
    cases r with
    | nil => nofun
    | cons z r =>
      have hz := hr z rfl
      have hcopy : blockComment? ((z :: r).map face) = none := by
        cases hblock : blockComment? ((z :: r).map face) with
        | none => rfl
        | some n =>
          obtain ⟨inside, m, hslash, -⟩ := blockComment?_eq_some.mp hblock
          exact absurd (hz.symm.trans (List.cons.inj hslash).1) (by decide)
      rw [resub_none hcopy]
      exact fun w hw => Option.some.inj hw ▸ hz
  have hspan : span (· ≠ .scalar '\n')
      ((v ++ resub face blockComment? [blank] 0 r).map face) = v.length := by
    rw [List.map_append, span_append, List.length_map]
    · intro c hc
      obtain ⟨z, hz, rfl⟩ := List.mem_map.mp hc
      exact decide_eq_true (hv z hz)
    · intro c hc
      rw [List.head?_map] at hc
      obtain ⟨z, hz, rfl⟩ := Option.map_eq_some_iff.mp hc
      exact decide_eq_false (not_not.mpr (hends z hz))
  have hmatch : lineComment? ((x :: y :: (v ++ resub face blockComment? [blank] 0 r)).map face) =
      some (v.length + 1 + 1) := by
    rw [← hspan]
    exact if_pos ⟨hx, hy⟩
  rw [withoutComments, List.cons_append, List.cons_append, resub_none hx', resub_none hy', heq,
    resub_some hmatch, List.nil_append, List.drop_succ_cons, List.drop_left]
  rfl

end Passes

section Result

variable {α : Type*} {face : α → PyChar} {blank : α}

variable {x : α} {xs : List α} {kind : Kind} {n : Nat}

theorem told_cons (htoken : getToken ((x :: xs).map face) = (kind, n)) :
    Told (tokens id 0 ((x :: xs).map face)) ↔
      Unmistaken kind (((x :: xs).take n).map face) (((x :: xs).drop n).map face) ∧
        Told (tokens id 0 (((x :: xs).drop n).map face)) := by
  have hcons : tokens id 0 ((x :: xs).map face) = (kind, ((x :: xs).map face).take n) ::
      tokens id 0 (((x :: xs).map face).drop n) := by
    rw [List.map_cons, tokens_cons, List.map_id, ← List.map_cons, htoken]
  rw [hcons, Told, tokens_flatten, List.map_take, List.map_drop]

theorem uncomment_cons (htoken : getToken ((x :: xs).map face) = (kind, n)) :
    uncomment face blank (x :: xs) =
      kept blank kind ((x :: xs).take n) ++ uncomment face blank ((x :: xs).drop n) := by
  rw [uncomment, tokens_cons, List.flatMap_cons, htoken]
  rfl

theorem break_kept {z : α} (hz : face z = .scalar '\n') : z ∈ uncomment face blank (z :: xs) := by
  have htoken : getToken ((z :: xs).map face) = (.blank, span isBlank (xs.map face) + 1) := by
    rw [List.map_cons, hz]
    rcases getToken_cases (.scalar '\n') (xs.map face) with ⟨h, -⟩ | ⟨h, -⟩ | ⟨-, -, h⟩
    · exact absurd h (by decide)
    · exact absurd h (by decide)
    · exact h
  rw [uncomment_cons htoken, List.take_succ_cons]
  exact List.mem_append_left _ List.mem_cons_self

theorem line_iff_told (hblank : face blank = .scalar ' ') {y : α} {ys : List α}
    (hx : face x = .scalar '-') (hy : face y = .scalar '-') (hnodup : (x :: y :: ys).Nodup)
    (hfresh : blank ∉ x :: y :: ys) {n : Nat}
    (hn : n = span (· ≠ .scalar '\n') (ys.map face))
    (ih : withoutComments face blank (ys.drop n) = uncomment face blank (ys.drop n) ↔
      Told (tokens id 0 ((ys.drop n).map face))) :
    withoutComments face blank (x :: y :: ys) = uncomment face blank (ys.drop n) ↔
      Enclosed 0 ((x :: y :: ys.take n).map face) ((ys.drop n).map face) ∧
        Told (tokens id 0 ((ys.drop n).map face)) := by
  have hwhole : x :: y :: ys.take n ++ ys.drop n = x :: y :: ys :=
    congrArg (x :: y :: ·) (List.take_append_drop n ys)
  have hline : ∀ z ∈ ys.take n, face z ≠ .scalar '\n' := by
    intro z hz
    have hmem := List.mem_map_of_mem (f := face) hz
    rw [List.map_take, hn] at hmem
    exact of_decide_eq_true (of_mem_take_span hmem)
  have hbreak : ∀ z ∈ (ys.drop n).head?, face z = .scalar '\n' := by
    intro z hz
    have hhead : ((ys.map face).dropWhile (· ≠ .scalar '\n')).head? = some (face z) := by
      rw [← drop_span, ← hn, ← List.map_drop, List.head?_map, hz]
      rfl
    have hnot := List.head?_dropWhile_not (· ≠ .scalar '\n') (ys.map face)
    rw [hhead] at hnot
    simpa using hnot
  by_cases henclosed : Enclosed 0 ((x :: y :: ys.take n).map face) ((ys.drop n).map face)
  · rw [← hwhole, strip_enclosed hblank hx hy hline hbreak henclosed, ih]
    exact (and_iff_right henclosed).symm
  · refine ⟨fun h => ?_, fun h => absurd h.1 henclosed⟩
    obtain ⟨z, r', hr, hmem⟩ := @blocks_not_enclosed _ _ blank _ _ _ (Nat.zero_le _) henclosed
    have hz : z ∈ withoutComments face blank (x :: y :: ys) := by
      rw [h, hr]
      exact break_kept (hbreak z (by rw [hr]; rfl))
    rw [hr] at hwhole
    rw [← hwhole] at hnodup hfresh
    obtain ⟨-, hlater, hapart⟩ := List.nodup_append.mp hnodup
    rcases mem_resub hz with hz | hz
    · nomatch hz
    · rw [List.drop_zero, ← hwhole, ← hr] at hz
      rcases hmem z hz with rfl | hz | hz
      · exact absurd (List.mem_append_right _ List.mem_cons_self) hfresh
      · exact absurd rfl (hapart z hz z List.mem_cons_self)
      · exact absurd hz (List.nodup_cons.mp hlater).1

theorem strip_iff_told (hblank : face blank = .scalar ' ') {xs : List α} (hnodup : xs.Nodup)
    (hfresh : blank ∉ xs) : withoutComments face blank xs = uncomment face blank xs ↔
      Told (tokens id 0 (xs.map face)) := by
  induction xs using token_induction face with
  | nil => exact ⟨fun _ => trivial, fun _ => rfl⟩
  | cons x xs ih =>
    specialize ih (hnodup.sublist (List.drop_sublist _ _))
      fun hmem => hfresh (List.mem_of_mem_drop hmem)
    have hne : x ≠ blank := fun heq => hfresh (heq ▸ List.mem_cons_self)
    rcases getToken_cases (face x) (xs.map face) with
      ⟨hdash, hhead, htoken⟩ | ⟨hslash, inside, hrest, -, htoken⟩ | ⟨-, -, htoken⟩
    · cases xs with
      | nil => nomatch hhead
      | cons y ys =>
        have hdash' : face y = .scalar '-' := Option.some.inj hhead
        have hlen : span (· ≠ .scalar '\n') (face x :: (y :: ys).map face) =
            span (· ≠ .scalar '\n') (ys.map face) + 2 := by
          rw [List.map_cons, hdash, hdash']
          rfl
        rw [hlen, ← List.map_cons] at htoken
        rw [htoken] at ih
        rw [told_cons htoken, uncomment_cons htoken]
        exact line_iff_told hblank hdash hdash' hnodup hfresh rfl ih
    · rw [← List.map_cons] at htoken
      rw [htoken] at ih
      rw [told_cons htoken, uncomment_cons htoken]
      have hfaces : (x :: xs).map face = .scalar '/' :: .scalar '*' :: inside := by
        rw [List.map_cons, hslash, hrest]
      have hwhole : ∀ n, ((x :: xs).take n).map face ++ ((x :: xs).drop n).map face =
          (x :: xs).map face := fun n => by rw [← List.map_append, List.take_append_drop]
      rw [Unmistaken, hwhole]
      cases hend : blockEnd inside with
      | some m =>
        have hblock : blockComment? ((x :: xs).map face) = some (m + 1 + 1) :=
          blockComment?_eq_some.mpr ⟨inside, m, hfaces, hend, rfl⟩
        rw [hend] at ih
        change withoutComments face blank (xs.drop (m + 1)) =
          uncomment face blank (xs.drop (m + 1)) ↔
            Told (tokens id 0 ((xs.drop (m + 1)).map face)) at ih
        rw [strip_block hblank hblock, hblock]
        change blank :: _ = blank :: uncomment face blank (xs.drop (m + 1)) ↔
          _ ∧ Told (tokens id 0 ((xs.drop (m + 1)).map face))
        rw [List.cons_inj_right, ih]
        exact (and_iff_right nofun).symm
      | none =>
        have hblock : blockComment? ((x :: xs).map face) = none := by
          rw [hfaces, blockComment?, if_pos ⟨rfl, rfl⟩, hend]
          rfl
        have hline : lineComment? ((x :: xs).map face) = none := by
          rw [hfaces]
          exact lineComment?_eq_none.mpr (by decide)
        rw [strip_none hblank hblock hline, hblock]
        exact ⟨fun h => absurd (List.cons.inj h).1 hne, fun h => absurd rfl h.1⟩
    · rw [← List.map_cons] at htoken
      obtain ⟨hline, hblock⟩ := plainToken_kind (face x) (xs.map face)
      generalize plainToken (face x) (xs.map face) = token at *
      obtain ⟨kind, n⟩ := token
      rw [told_cons htoken, uncomment_cons htoken]
      rw [htoken] at ih
      have hsplit := List.take_append_drop n (x :: xs)
      have happend := strip_append hblank (by rwa [hsplit])
        (fun hmem => hfresh (List.mem_of_mem_take hmem)) (uncomment face blank ((x :: xs).drop n))
      rw [hsplit, ih] at happend
      cases kind with
      | lineComment => exact absurd rfl hline
      | blockComment => exact absurd rfl hblock
      | _ => exact happend

theorem placed_faces (sql : PyStr) : (placed sql).map Prod.fst = sql := by
  rw [placed, List.map_map]
  exact List.zipIdx_map_fst 0 sql

theorem placed_nodup (sql : PyStr) : (placed sql).Nodup := by
  refine List.Nodup.of_map Prod.snd ?_
  have hplaces : (placed sql).map Prod.snd = (List.range' 0 sql.length).map some := by
    rw [← List.zipIdx_map_snd 0 sql, placed, List.map_map, List.map_map]
    rfl
  rw [hplaces]
  exact (List.nodup_range' (h := by omega)).map (Option.some_injective _)

theorem blank_not_placed (sql : PyStr) : placedBlank ∉ placed sql := by
  intro h
  obtain ⟨entry, -, heq⟩ := List.mem_map.mp h
  exact nomatch (Prod.mk.inj heq).2

theorem stripComments_eq (sql : PyStr) : stripComments sql =
    (withoutComments Prod.fst placedBlank (placed sql)).map Prod.fst := by
  rw [withoutComments, map_resub, map_resub, placed_faces]
  rfl

/-- The statement that is executed is the one that was given without its comments exactly when no
token of it misleads the patterns. -/
theorem faithful_iff_told {U : Unicode} {sql out : PyStr} (h : validate U sql = .ok out) :
    Faithful sql out ↔ Told (tokens id 0 sql) := by
  have htold : withoutComments Prod.fst placedBlank (placed sql) =
      uncomment Prod.fst placedBlank (placed sql) ↔ Told (tokens id 0 sql) := by
    have hblank : Prod.fst placedBlank = .scalar ' ' := rfl
    have hplaced := strip_iff_told hblank (placed_nodup sql) (blank_not_placed sql)
    rwa [placed_faces] at hplaced
  rw [← htold]
  refine ⟨Faithful.kept, fun hkept => ⟨hkept, ?_⟩⟩
  rw [(validate_ok h).1, stripComments_eq, hkept, map_uncomment, placed_faces]
  rfl

theorem faithful_iff_told_sample :
    Faithful (ofText "SELECT 1 /* '-- */ -- '") (ofText "SELECT 1") :=
  (faithful_iff_told (U := .reference) (by decide)).mpr (by decide)

/-- A comment within a literal is taken out of it. -/
theorem literal_emptied : ∃ out, validate .reference (ofText "SELECT '/*x*/'") = .ok out ∧
    ¬Faithful (ofText "SELECT '/*x*/'") out := by
  refine ⟨ofText "SELECT ' '", by decide, fun h => ?_⟩
  have := h.returned
  revert this
  decide

end Result

end Waitbus.CommentStrip
