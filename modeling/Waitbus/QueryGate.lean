import Waitbus.EventsQuery

/-! What `validate` lets through, as SQLite reads it. The checks see no character that the
single-quote pattern matches, and that pattern begins at any single quote, be it of a quoted
identifier. -/

namespace Waitbus.QueryGate
open Python SqliteLexer PatternSub EventsQuery

section Condition

/-- A character of a text, and whether the single-quote pattern matches it. -/
abbrev Marked := PyChar × Bool

def maskStrings : Nat → PyStr → List Marked
  | _, [] => []
  | left + 1, c :: rest => (c, true) :: maskStrings left rest
  | 0, c :: rest =>
    match stringLiteral? (c :: rest) with
    | some (n + 1) => (c, true) :: maskStrings n rest
    | _ => (c, false) :: maskStrings 0 rest

def significant (text : PyStr) : List (Kind × PyStr) :=
  (tokens id 0 text).filter fun token => Kind.significant token.1

def isKeyword (keywords : List String) (word : PyStr) : Bool :=
  keywords.any fun keyword => word.map asciiUpper = ofText keyword

/-- One statement at most, a `SELECT` or a `WITH`, and no forbidden keyword. -/
structure Sound (out : PyStr) : Prop where
  single : ∀ before run after,
    significant out = before ++ (.semicolon, run) :: after → after = []
  leading : ∃ word, (significant out).head? = some (.word, word) ∧
    isKeyword allowedLeadingKeywords word = true
  calm : ∀ word, (.word, word) ∈ significant out → isKeyword forbiddenTokens word = false

/-- A `;` that the pattern matches has no token after it, and none that it matches is after one that
it does not. -/
def Ended : List (Kind × List Marked) → Prop
  | [] => True
  | (kind, run) :: later =>
    (kind = .semicolon →
      if run.all (·.2) then ∀ token ∈ later, Kind.significant token.1 = false
      else ∀ token ∈ later, ∀ x ∈ token.2, x.2 = false) ∧ Ended later

/-- No forbidden keyword has a character that the pattern matches, or the digit of a variable right
before it. -/
def Bared : Bool → List (Kind × List Marked) → Prop
  | _, [] => True
  | afterDigit, (kind, run) :: later =>
    (kind = .word → isKeyword forbiddenTokens (run.map Prod.fst) = true →
      afterDigit = false ∧ ∀ x ∈ run, x.2 = false) ∧
      Bared (kind = .variable && run.getLast?.any fun x => isDigit x.1) later

/-- The first word is of ASCII, and no character beyond ASCII ends it. -/
def Plain (text : PyStr) : Prop :=
  (∀ c ∈ firstWord text, PyChar.code c < 0x80) ∧
    ∀ c ∈ (text.drop (firstWord text).length).head?, PyChar.code c < 0x80

/-- No token misleads the checks. -/
structure Evident (text : PyStr) : Prop where
  ended : Ended (tokens Prod.fst 0 (maskStrings 0 text))
  plain : Plain text
  bared : Bared false (tokens Prod.fst 0 (maskStrings 0 text))

instance decidableEnded : ∀ tokens, Decidable (Ended tokens)
  | [] => isTrue trivial
  | (kind, run) :: later =>
    have := decidableEnded later
    inferInstanceAs (Decidable ((kind = .semicolon → if run.all (·.2) then _ else _) ∧ Ended later))

instance decidableBared : ∀ afterDigit tokens, Decidable (Bared afterDigit tokens)
  | _, [] => isTrue trivial
  | _, (kind, run) :: later =>
    have := decidableBared (kind = .variable && run.getLast?.any fun x => isDigit x.1) later
    by
      unfold Bared
      infer_instance

instance (text : PyStr) : Decidable (Plain text) :=
  inferInstanceAs (Decidable (_ ∧ _))

end Condition

section Trim

variable {t : PyStr} {c : PyChar}

theorem strip_front (t : PyStr) :
    ∃ after, t.dropWhile isSpace = strip t ++ after ∧ ∀ c ∈ after, isSpace c = true := by
  refine ⟨((t.dropWhile isSpace).reverse.takeWhile isSpace).reverse, ?_,
    fun c hc => List.mem_takeWhile_imp (List.mem_reverse.mp hc)⟩
  have hback := List.takeWhile_append_dropWhile (p := isSpace) (l := (t.dropWhile isSpace).reverse)
  rw [strip, ← List.reverse_append, hback, List.reverse_reverse]

theorem strip_split (t : PyStr) : ∃ before after, t = before ++ strip t ++ after ∧
    (∀ c ∈ before, isSpace c = true) ∧ ∀ c ∈ after, isSpace c = true := by
  obtain ⟨after, hback, hafter⟩ := strip_front t
  have hfront := List.takeWhile_append_dropWhile (p := isSpace) (l := t)
  refine ⟨t.takeWhile isSpace, after, ?_, fun c hc => List.mem_takeWhile_imp hc, hafter⟩
  rw [List.append_assoc, ← hback, hfront]

theorem strip_last (hc : c ∈ (strip t).getLast?) : isSpace c = false := by
  rw [strip, List.getLast?_reverse] at hc
  have hnot := List.head?_dropWhile_not isSpace (t.dropWhile isSpace).reverse
  rw [Option.mem_def.mp hc] at hnot
  simpa using hnot

theorem spaces_of_strip_nil (h : strip t = []) : ∀ c ∈ t, isSpace c = true := by
  obtain ⟨before, after, heq, hbefore, hafter⟩ := strip_split t
  rw [h, List.append_nil] at heq
  intro c hc
  rw [heq] at hc
  rcases List.mem_append.mp hc with hc | hc
  · exact hbefore c hc
  · exact hafter c hc

end Trim

section Masks

variable {t u : PyStr} {c : PyChar} {n : Nat}

theorem maskStrings_faces (n : Nat) (t : PyStr) : (maskStrings n t).map Prod.fst = t := by
  fun_induction maskStrings n t with
  | case1 => rfl
  | case2 left c rest ih => rw [List.map_cons, ih]
  | case3 c rest n hmatch ih => rw [List.map_cons, ih]
  | case4 c rest hnone ih => rw [List.map_cons, ih]

theorem masked_tokens (t : PyStr) : tokens id 0 t =
    (tokens Prod.fst 0 (maskStrings 0 t)).map fun token => (token.1, token.2.map Prod.fst) := by
  rw [← map_tokens, maskStrings_faces]

theorem stringLiteral?_none_or (c : PyChar) (rest : PyStr) : stringLiteral? (c :: rest) = none ∨
    (c = .scalar '\'' ∧ ∃ n, stringLiteral? (c :: rest) = some (n + 1)) := by
  rw [stringLiteral?]
  split_ifs with hquote
  · cases closing rest with
    | none => exact .inl rfl
    | some n => exact .inr ⟨hquote, n, rfl⟩
  · exact .inl rfl

theorem maskStrings_none (h : stringLiteral? (c :: t) = none) :
    maskStrings 0 (c :: t) = (c, false) :: maskStrings 0 t := by
  rw [maskStrings, h]

theorem maskStrings_match (h : stringLiteral? (c :: t) = some (n + 1)) :
    maskStrings 0 (c :: t) = (c, true) :: maskStrings n t := by
  rw [maskStrings, h]

theorem stripStrings_none (h : stringLiteral? (c :: t) = none) :
    stripStrings (c :: t) = c :: stripStrings t :=
  resub_none (by rwa [List.map_id])

/-- A character that the pattern does not match is left, and so is what the pattern leaves of the
text behind it. The last of what is left before it is a blank or the character that stands there. -/
theorem visible_split {q : PyChar} {p : Marked} {before after : List Marked}
    (hq : q = .scalar ' ' ∨ (n = 0 ∧ p = (q, false)))
    (h : maskStrings n t = before ++ (c, false) :: after) :
    ∃ shown, resub id stringLiteral? [.scalar ' '] n t =
        shown ++ c :: stripStrings (after.map Prod.fst) ∧
      maskStrings 0 (after.map Prod.fst) = after ∧
      ∀ z ∈ (q :: shown).getLast?, z = .scalar ' ' ∨ (z, false) ∈ (p :: before).getLast? := by
  induction t generalizing n before p q with
  | nil => exact absurd h.symm (List.append_ne_nil_of_right_ne_nil before (List.cons_ne_nil _ _))
  | cons x rest ih =>
    cases n with
    | succ n =>
      have hblank : q = .scalar ' ' := hq.resolve_right fun hzero => nomatch hzero.1
      cases before with
      | nil => nomatch (Prod.mk.inj (List.cons.inj h).1).2
      | cons m before =>
        obtain ⟨rfl, hrest⟩ := List.cons.inj h
        obtain ⟨shown, hresub, hafter, hlast⟩ := ih (p := (x, true)) (.inl hblank) hrest
        refine ⟨shown, hresub, hafter, fun z hz => ?_⟩
        rw [List.getLast?_cons_cons]
        exact hlast z hz
    | zero =>
      rcases stringLiteral?_none_or x rest with hnone | ⟨-, n, hmatch⟩
      · rw [maskStrings_none hnone] at h
        rw [resub_none (by rwa [List.map_id])]
        cases before with
        | nil =>
          obtain ⟨hx, rfl⟩ := List.cons.inj h
          obtain ⟨rfl, -⟩ := Prod.mk.inj hx
          rw [maskStrings_faces]
          refine ⟨[], rfl, rfl, fun z hz => ?_⟩
          obtain rfl : q = z := Option.some.inj hz
          exact hq.imp_right fun hp => congrArg some hp.2
        | cons m before =>
          obtain ⟨rfl, hrest⟩ := List.cons.inj h
          obtain ⟨shown, hresub, hafter, hlast⟩ := ih (p := (x, false)) (.inr ⟨rfl, rfl⟩) hrest
          refine ⟨x :: shown, congrArg (x :: ·) hresub, hafter, fun z hz => ?_⟩
          rw [List.getLast?_cons_cons] at hz ⊢
          exact hlast z hz
      · rw [maskStrings_match hmatch] at h
        rw [resub_match (by rwa [List.map_id])]
        cases before with
        | nil => nomatch (Prod.mk.inj (List.cons.inj h).1).2
        | cons m before =>
          obtain ⟨rfl, hrest⟩ := List.cons.inj h
          obtain ⟨shown, hresub, hafter, hlast⟩ := ih (p := (x, true)) (.inl rfl) hrest
          refine ⟨.scalar ' ' :: shown, by rw [hresub]; rfl, hafter, fun z hz => ?_⟩
          rw [List.getLast?_cons_cons] at hz ⊢
          exact hlast z hz

theorem bare_split {before after : List Marked} (hbare : ∀ m ∈ before, m.2 = false)
    (h : maskStrings 0 t = before ++ after) :
    stripStrings t = before.map Prod.fst ++ stripStrings (after.map Prod.fst) ∧
      maskStrings 0 (after.map Prod.fst) = after := by
  induction before generalizing t with
  | nil =>
    rw [List.nil_append] at h
    rw [← h, maskStrings_faces]
    exact ⟨rfl, rfl⟩
  | cons m before ih =>
    obtain ⟨c, matched⟩ := m
    obtain rfl : matched = false := hbare _ List.mem_cons_self
    cases t with
    | nil => nomatch h
    | cons x rest =>
      rcases stringLiteral?_none_or x rest with hnone | ⟨-, n, hmatch⟩
      · rw [maskStrings_none hnone] at h
        obtain ⟨hx, hrest⟩ := List.cons.inj h
        obtain ⟨rfl, -⟩ := Prod.mk.inj hx
        obtain ⟨hstrip, hafter⟩ := ih (fun m hm => hbare m (List.mem_cons_of_mem _ hm)) hrest
        rw [stripStrings_none hnone, hstrip]
        exact ⟨rfl, hafter⟩
      · rw [maskStrings_match hmatch] at h
        nomatch (Prod.mk.inj (List.cons.inj h).1).2

theorem stripStrings_head (h : c ∈ (stripStrings t).head?) : c = .scalar ' ' ∨ c ∈ t.head? := by
  cases t with
  | nil => nomatch h
  | cons x rest =>
    rcases stringLiteral?_none_or x rest with hnone | ⟨-, n, hmatch⟩
    · rw [stripStrings_none hnone] at h
      exact .inr h
    · rw [stripStrings, withoutStrings, resub_match (by rwa [List.map_id])] at h
      exact .inl (Option.some.inj h).symm

theorem closing_none {w : PyStr} (hw : ∀ c ∈ w, c ≠ .scalar '\'') : closing w = none := by
  fun_induction closing w with
  | case1 rest ih => exact absurd rfl (hw _ List.mem_cons_self)
  | case2 d rest hd => exact absurd rfl (hw _ List.mem_cons_self)
  | case3 c d rest hc ih =>
    rw [ih fun e he => hw e (List.mem_cons_of_mem _ he)]
    rfl
  | case4 => exact absurd rfl (hw _ List.mem_cons_self)
  | case5 => rfl
  | case6 => rfl

theorem closing_append {w : PyStr} (hw : ∀ c ∈ w, c ≠ .scalar '\'') (t : PyStr) :
    closing (t ++ w) = closing t := by
  fun_induction closing t with
  | case1 rest ih =>
    change closing (.scalar '\'' :: .scalar '\'' :: (rest ++ w)) = _
    rw [closing, if_pos rfl, if_pos rfl, ih]
  | case2 d rest hd =>
    change closing (.scalar '\'' :: d :: (rest ++ w)) = _
    rw [closing, if_pos rfl, if_neg hd]
  | case3 c d rest hc ih =>
    change closing (c :: d :: (rest ++ w)) = _
    rw [closing, if_neg hc]
    exact congrArg _ ih
  | case4 =>
    cases w with
    | nil => rfl
    | cons d w =>
      change closing (.scalar '\'' :: d :: w) = _
      rw [closing, if_pos rfl, if_neg (hw d List.mem_cons_self)]
  | case5 c hc =>
    cases w with
    | nil => exact if_neg hc
    | cons d w =>
      change closing (c :: d :: w) = _
      rw [closing, if_neg hc, closing_none hw]
      rfl
  | case6 => exact closing_none hw

theorem closing_le (h : closing t = some n) : n ≤ t.length := by
  fun_induction closing t generalizing n with
  | case1 rest ih =>
    cases hrest : closing rest with
    | none =>
      rw [hrest] at h
      obtain rfl : 1 = n := Option.some.inj h
      exact Nat.le_add_left ..
    | some m =>
      rw [hrest] at h
      obtain rfl : m + 2 = n := Option.some.inj h
      exact Nat.add_le_add_right (ih hrest) 2
  | case2 => exact Option.some.inj h ▸ Nat.le_add_left ..
  | case3 c d rest hc ih =>
    obtain ⟨m, hm, rfl⟩ := Option.map_eq_some_iff.mp h
    exact Nat.succ_le_succ (ih hm)
  | case4 => exact Option.some.inj h ▸ Nat.le_refl 1
  | case5 => nomatch h
  | case6 => nomatch h

theorem stringLiteral?_append {w : PyStr} (hw : ∀ c ∈ w, c ≠ .scalar '\'') (c : PyChar)
    (t : PyStr) : stringLiteral? (c :: t ++ w) = stringLiteral? (c :: t) := by
  rw [List.cons_append, stringLiteral?, closing_append hw, stringLiteral?]

theorem stringLiteral?_le (h : stringLiteral? (c :: t) = some (n + 1)) : n ≤ t.length := by
  rw [stringLiteral?] at h
  split_ifs at h
  obtain ⟨m, hm, heq⟩ := Option.map_eq_some_iff.mp h
  obtain rfl : m = n := by omega
  exact closing_le hm

theorem stripStrings_match (h : stringLiteral? (c :: t) = some (n + 1)) :
    stripStrings (c :: t) = .scalar ' ' :: stripStrings (t.drop n) :=
  resub_some (by rwa [List.map_id])

theorem stripStrings_prefix {w : PyStr} (hw : ∀ c ∈ w, c ≠ .scalar '\'') (t : PyStr) :
    stripStrings (w ++ t) = w ++ stripStrings t := by
  induction w with
  | nil => rfl
  | cons c w ih =>
    have hnone : stringLiteral? (c :: (w ++ t)) = none := if_neg (hw c List.mem_cons_self)
    rw [List.cons_append, stripStrings_none hnone, ih fun d hd => hw d (List.mem_cons_of_mem _ hd)]
    rfl

theorem stripStrings_append {w : PyStr} (hw : ∀ c ∈ w, c ≠ .scalar '\'') (t : PyStr) :
    stripStrings (t ++ w) = stripStrings t ++ w := by
  induction hlen : t.length using Nat.strong_induction_on generalizing t with
  | _ len ih =>
    cases t with
    | nil =>
      have hwhole : stripStrings (w ++ []) = w ++ [] := stripStrings_prefix hw []
      rwa [List.append_nil] at hwhole
    | cons c t =>
      have happend := stringLiteral?_append hw c t
      rw [List.cons_append] at happend ⊢
      rcases stringLiteral?_none_or c t with hnone | ⟨-, n, hmatch⟩
      · rw [stripStrings_none hnone, stripStrings_none (happend.trans hnone), List.cons_append,
          ih t.length (by simp [← hlen]) t rfl]
      · have hle := stringLiteral?_le hmatch
        rw [stripStrings_match hmatch, stripStrings_match (happend.trans hmatch), List.cons_append,
          List.drop_append_of_le_length hle, ih (t.drop n).length _ (t.drop n) rfl]
        rw [← hlen, List.length_drop, List.length_cons]
        omega

end Masks

section Single

variable {text t : PyStr}

theorem ended_iff {ts : List (Kind × List Marked)} : Ended ts ↔
    ∀ before run later, ts = before ++ (.semicolon, run) :: later →
      if run.all (·.2) then ∀ token ∈ later, Kind.significant token.1 = false
      else ∀ token ∈ later, ∀ x ∈ token.2, x.2 = false := by
  induction ts with
  | nil => exact ⟨fun _ before _ _ h => absurd h.symm (by simp), fun _ => trivial⟩
  | cons token ts ih =>
    obtain ⟨kind, run⟩ := token
    rw [Ended, ih]
    constructor
    · rintro ⟨hfirst, hlater⟩ before run later h
      cases before with
      | nil =>
        obtain ⟨htoken, rfl⟩ := List.cons.inj h
        obtain ⟨rfl, rfl⟩ := Prod.mk.inj htoken
        exact hfirst rfl
      | cons _ before => exact hlater before run later (List.cons.inj h).2
    · intro h
      refine ⟨fun hkind => ?_, fun before run' later hts => ?_⟩
      · rw [hkind] at h
        exact h [] run ts rfl
      · exact h ((kind, run) :: before) run' later (by rw [hts]; rfl)

theorem single_iff {ts : List (Kind × PyStr)} :
    (∀ before run after, ts.filter (fun token => Kind.significant token.1) =
        before ++ (.semicolon, run) :: after → after = []) ↔
      ∀ before run later, ts = before ++ (.semicolon, run) :: later →
        ∀ token ∈ later, Kind.significant token.1 = false := by
  constructor
  · rintro h before run later rfl token htoken
    rw [List.filter_append, List.filter_cons_of_pos rfl] at h
    have hnil := h _ run _ rfl
    exact Bool.eq_false_iff.mpr (List.filter_eq_nil_iff.mp hnil token htoken)
  · intro h before run after hfilter
    obtain ⟨front, back, rfl, -, hback⟩ := List.filter_eq_append_iff.mp hfilter
    obtain ⟨skipped, later, rfl, -, -, rfl⟩ := List.filter_eq_cons_iff.mp hback
    rw [List.filter_eq_nil_iff]
    intro token htoken
    rw [h (front ++ skipped) run later (by rw [List.append_assoc]) token htoken]
    decide

theorem mem_tail_dropWhile {p : PyChar → Bool} {c stop : PyChar} (hstop : p stop = false)
    {before after : PyStr} (hc : c ∈ after) :
    c ∈ ((before ++ stop :: after).dropWhile p).tail := by
  induction before with
  | nil => rwa [List.nil_append, List.dropWhile_cons_of_neg (by simp [hstop])]
  | cons d before ih =>
    rw [List.cons_append, List.dropWhile_cons]
    split
    · exact ih
    · exact List.mem_append_right _ (List.mem_cons_of_mem _ hc)

theorem stripStrings_strip (text : PyStr) : ∃ front back,
    stripStrings text = front ++ stripStrings (strip text) ++ back ∧
      (∀ c ∈ front, isSpace c = true) ∧ ∀ c ∈ back, isSpace c = true := by
  obtain ⟨front, back, htext, hfront, hback⟩ := strip_split text
  have hquote : ∀ s : PyStr, (∀ c ∈ s, isSpace c = true) → ∀ c ∈ s, c ≠ .scalar '\'' := by
    rintro s hs _ hc rfl
    exact absurd (hs _ hc) (by decide)
  refine ⟨front, back, ?_, hfront, hback⟩
  calc stripStrings text = stripStrings (front ++ strip text ++ back) := by rw [← htext]
    _ = front ++ stripStrings (strip text) ++ back := by
      rw [stripStrings_append (hquote back hback), stripStrings_prefix (hquote front hfront)]

theorem behind_semicolon (hcheck : checkSingleStatement text = .ok ()) {before after : List Marked}
    (h : maskStrings 0 (strip text) = before ++ (.scalar ';', false) :: after) :
    ∀ c ∈ stripStrings (after.map Prod.fst), isSpace c = true := by
  obtain ⟨front, back, hstripped, -, -⟩ := stripStrings_strip text
  obtain ⟨shown, hshown, -, -⟩ := visible_split (p := (.scalar ' ', false)) (.inl rfl) h
  have hwhole : stripStrings text =
      front ++ shown ++ .scalar ';' :: (stripStrings (after.map Prod.fst) ++ back) := by
    have hshown : stripStrings (strip text) =
      shown ++ .scalar ';' :: stripStrings (after.map Prod.fst) := hshown
    rw [hstripped, hshown]
    simp only [List.append_assoc, List.cons_append]
  intro c hc
  rw [checkSingleStatement, hwhole] at hcheck
  split at hcheck
  · rename_i hnil
    refine spaces_of_strip_nil hnil c (mem_tail_dropWhile (by decide) ?_)
    exact List.mem_append_left _ hc
  · nomatch hcheck

theorem first_quote (hspaces : ∀ c ∈ stripStrings t, isSpace c = true)
    (hmatch : ∃ m ∈ maskStrings 0 t, m.2 = true) :
    ∃ s r, t = s ++ .scalar '\'' :: r ∧ ∀ c ∈ s, isSpace c = true := by
  induction t with
  | nil =>
    obtain ⟨m, hm, -⟩ := hmatch
    nomatch hm
  | cons c t ih =>
    rcases stringLiteral?_none_or c t with hnone | ⟨rfl, -⟩
    · rw [stripStrings_none hnone] at hspaces
      rw [maskStrings_none hnone] at hmatch
      obtain ⟨m, hm, htrue⟩ := hmatch
      rcases List.mem_cons.mp hm with rfl | hm
      · nomatch htrue
      · obtain ⟨s, r, rfl, hs⟩ :=
          ih (fun d hd => hspaces d (List.mem_cons_of_mem _ hd)) ⟨m, hm, htrue⟩
        refine ⟨c :: s, r, rfl, fun d hd => ?_⟩
        rcases List.mem_cons.mp hd with rfl | hd
        · exact hspaces d List.mem_cons_self
        · exact hs d hd
    · exact ⟨[], t, rfl, nofun⟩

theorem span_le {p : PyChar → Bool} {stop : PyChar} (hstop : p stop = false) {s r : PyStr} :
    span p (s ++ stop :: r) ≤ s.length := by
  rw [span, List.takeWhile_append, List.takeWhile_cons_of_neg (by simp [hstop])]
  split
  · rw [List.append_nil]
  · exact (List.takeWhile_sublist p).length_le

/-- White space, be it SQLite's or not, is no comment, so that a quote behind it begins a token or
is behind one. -/
theorem quote_significant {s r : PyStr} (hs : ∀ c ∈ s, isSpace c = true) :
    ∃ token ∈ tokens id 0 (s ++ .scalar '\'' :: r), Kind.significant token.1 = true := by
  have hquoted : ∀ close (r : PyStr), Kind.significant (quotedToken close r).1 = true := by
    intro close r
    cases close <;> rfl
  induction hlen : s.length using Nat.strong_induction_on generalizing s with
  | _ len ih =>
    cases s with
    | nil =>
      have htoken : getToken (.scalar '\'' :: r) = quotedToken (quotedEnd (.scalar '\'') r) r := by
        rcases getToken_cases (.scalar '\'') r with ⟨h, -⟩ | ⟨h, -⟩ | ⟨-, -, h⟩
        · exact absurd h (by decide)
        · exact absurd h (by decide)
        · exact h
      rw [List.nil_append, tokens_cons, List.map_id, htoken]
      exact ⟨_, List.mem_cons_self, hquoted _ _⟩
    | cons c s =>
      have hlater : ∀ n, n ≤ s.length → ∃ token ∈ tokens id 0 ((s ++ .scalar '\'' :: r).drop n),
          Kind.significant token.1 = true := by
        intro n hn
        rw [List.drop_append_of_le_length hn]
        refine ih (s.drop n).length ?_ (fun d hd => hs d ?_) rfl
        · rw [← hlen, List.length_drop, List.length_cons]
          omega
        · exact List.mem_cons_of_mem _ (List.mem_of_mem_drop hd)
      have hc := hs c List.mem_cons_self
      rw [List.cons_append, tokens_cons, List.map_id]
      rcases getToken_cases c (s ++ .scalar '\'' :: r) with ⟨rfl, -⟩ | ⟨rfl, -⟩ | ⟨-, -, h⟩
      · exact absurd hc (by decide)
      · exact absurd hc (by decide)
      · rw [h]
        have hcut := plainToken_cut c (s ++ .scalar '\'' :: r)
        generalize plainToken c (s ++ .scalar '\'' :: r) = token at hcut
        cases hcut with
        | blank h =>
          have hquote : isBlank (.scalar '\'') = false := by decide
          obtain ⟨token, htoken, hsignificant⟩ := hlater _ (span_le hquote)
          exact ⟨token, List.mem_cons_of_mem _ htoken, hsignificant⟩
        | mark h =>
          obtain ⟨token, htoken, hsignificant⟩ := hlater 0 (Nat.zero_le _)
          exact ⟨token, List.mem_cons_of_mem _ htoken, hsignificant⟩
        | quote h htoken => exact ⟨_, List.mem_cons_self, htoken ▸ hquoted _ _⟩
        | bracket h htoken => exact ⟨_, List.mem_cons_self, htoken ▸ hquoted _ _⟩
        | _ => exact ⟨_, List.mem_cons_self, rfl⟩

theorem mem_of_tokens {α : Type*} {face : α → PyChar} {xs : List α} {token : Kind × List α} {x : α}
    (htoken : token ∈ tokens face 0 xs) (hx : x ∈ token.2) : x ∈ xs := by
  have hflat : ((tokens face 0 xs).map (·.2)).flatten = xs := tokens_flatten xs
  rw [← hflat]
  exact List.mem_flatten.mpr ⟨token.2, List.mem_map_of_mem htoken, hx⟩

theorem exists_of_mem {α : Type*} (face : α → PyChar) {xs : List α} {x : α} (hx : x ∈ xs) :
    ∃ token ∈ tokens face 0 xs, x ∈ token.2 := by
  have hflat : ((tokens face 0 xs).map (·.2)).flatten = xs := tokens_flatten xs
  rw [← hflat] at hx
  obtain ⟨run, hrun, hx⟩ := List.mem_flatten.mp hx
  obtain ⟨token, htoken, rfl⟩ := List.mem_map.mp hrun
  exact ⟨token, htoken, hx⟩

/-- Behind a `;` that the pattern does not match there is a token exactly when the pattern matches
something there. -/
theorem visible_semicolon (hcheck : checkSingleStatement text = .ok ()) {before xs : List Marked}
    (h : maskStrings 0 (strip text) = before ++ (.scalar ';', false) :: xs) :
    (∀ token ∈ tokens Prod.fst 0 xs, ∀ x ∈ token.2, x.2 = false) ↔
      ∀ token ∈ tokens Prod.fst 0 xs, Kind.significant token.1 = false := by
  obtain ⟨-, -, hxs, -⟩ := visible_split (p := (.scalar ' ', false)) (.inl rfl) h
  have hspaces := behind_semicolon hcheck h
  constructor
  · intro hbare
    have hall : ∀ x ∈ xs, x.2 = false := by
      intro x hx
      obtain ⟨token, htoken, hmem⟩ := exists_of_mem Prod.fst hx
      exact hbare token htoken x hmem
    obtain ⟨hstrip, -⟩ := bare_split hall (hxs.trans (List.append_nil xs).symm)
    have hnil : xs = [] := by
      by_contra hne
      obtain ⟨z, hz⟩ := Option.isSome_iff_exists.mp (List.getLast?_isSome.mpr hne)
      have hlast : z.1 ∈ (strip text).getLast? := by
        rw [← maskStrings_faces 0 (strip text), h, Option.mem_def, List.getLast?_map,
          List.getLast?_append, List.getLast?_cons, hz]
        rfl
      have hspace : isSpace z.1 = true := by
        refine hspaces z.1 ?_
        rw [hstrip]
        exact List.mem_append_left _ (List.mem_map_of_mem (List.mem_of_getLast? hz))
      rw [strip_last hlast] at hspace
      nomatch hspace
    rw [hnil]
    exact nofun
  · intro hcalm token htoken x hx
    by_contra hmatched
    have hmatch : ∃ m ∈ maskStrings 0 (xs.map Prod.fst), m.2 = true :=
      ⟨x, by rw [hxs]; exact mem_of_tokens htoken hx, by simpa using hmatched⟩
    obtain ⟨s, r, hquote, hs⟩ := first_quote hspaces hmatch
    obtain ⟨later, hlater, hsignificant⟩ := quote_significant (r := r) hs
    rw [← hquote, map_tokens] at hlater
    obtain ⟨token, htoken, rfl⟩ := List.mem_map.mp hlater
    rw [hcalm token htoken] at hsignificant
    nomatch hsignificant

theorem single_iff_ended (hcheck : checkSingleStatement text = .ok ()) :
    (∀ before run after, significant (strip text) = before ++ (.semicolon, run) :: after →
      after = []) ↔ Ended (tokens Prod.fst 0 (maskStrings 0 (strip text))) := by
  have htokens := masked_tokens (strip text)
  have hstep : ∀ before run later, tokens Prod.fst 0 (maskStrings 0 (strip text)) =
      before ++ (.semicolon, run) :: later →
      ((if run.all (·.2) then ∀ token ∈ later, Kind.significant token.1 = false
        else ∀ token ∈ later, ∀ x ∈ token.2, x.2 = false) ↔
          ∀ token ∈ later, Kind.significant token.1 = false) := by
    intro before run later h
    obtain ⟨⟨c, matched⟩, xs, n, hmask, htoken, rfl, rfl⟩ := tokens_split h
    obtain ⟨rfl, rfl⟩ := semicolon_token htoken
    cases matched with
    | true => exact Iff.rfl
    | false => exact visible_semicolon hcheck hmask
  rw [significant, single_iff, ended_iff, htokens]
  constructor
  · intro h before run later hmask
    refine (hstep before run later hmask).mpr fun token htoken => ?_
    rw [hmask, List.map_append, List.map_cons] at h
    exact h _ _ _ rfl _ (List.mem_map_of_mem htoken)
  · intro h before run later hmap token htoken
    obtain ⟨front, back, hmask, -, hback⟩ := List.map_eq_append_iff.mp hmap
    obtain ⟨⟨kind, marks⟩, rest, rfl, hkind, rfl⟩ := List.map_eq_cons_iff.mp hback
    obtain ⟨rfl, -⟩ := Prod.mk.inj hkind
    obtain ⟨marked, hmarked, rfl⟩ := List.mem_map.mp htoken
    exact (hstep front marks rest hmask).mp (h front marks rest hmask) marked hmarked

end Single

section Leading

variable {U : Unicode} {text : PyStr}

theorem firstWord_strip (text : PyStr) :
    firstWord (text.dropWhile isSpace) = firstWord (strip text) := by
  obtain ⟨back, hback, hspaces⟩ := strip_front text
  rw [hback, firstWord, List.takeWhile_append, firstWord]
  split
  · rename_i hall
    have hnil :
        back.takeWhile (fun c => !(isSpace c || c = .scalar '(' || c = .scalar ';')) = [] := by
      cases back with
      | nil => rfl
      | cons c back => exact List.takeWhile_cons_of_neg (by simp [hspaces c List.mem_cons_self])
    rw [hnil, List.append_nil, (List.takeWhile_prefix _).eq_of_length hall]
  · rfl

theorem ascii_of_letter {c : PyChar} (h : isLetter c = true) : PyChar.code c < 0x80 := by
  simp only [isLetter, Bool.or_eq_true, Bool.and_eq_true, decide_eq_true_eq] at h
  omega

theorem letters_of_keyword : ∀ keyword ∈ allowedLeadingKeywords ++ forbiddenTokens,
    ∀ c ∈ ofText keyword, isLetter c = true := by
  decide

theorem upper_append (s t : PyStr) : upper U (s ++ t) = upper U s ++ upper U t :=
  List.flatMap_append

theorem upper_ascii_eq {word : PyStr} (hascii : ∀ c ∈ word, PyChar.code c < 0x80) :
    upper U word = word.map asciiUpper := by
  induction word with
  | nil => rfl
  | cons c word ih =>
    have hrest := ih fun d hd => hascii d (List.mem_cons_of_mem _ hd)
    rw [upper, List.flatMap_cons, U.upper_ascii c (hascii c List.mem_cons_self)]
    exact congrArg (asciiUpper c :: ·) hrest

theorem leading_keyword (hcheck : checkLeadingKeyword U text = .ok ()) :
    ∃ keyword ∈ allowedLeadingKeywords, upper U (firstWord (strip text)) = ofText keyword := by
  simp only [checkLeadingKeyword, firstWord_strip] at hcheck
  split_ifs at hcheck with hempty hany
  obtain ⟨keyword, hmem, heq⟩ := List.any_eq_true.mp hany
  exact ⟨keyword, hmem, of_decide_eq_true heq⟩

/-- What is of ASCII at the start of a word that is a keyword in upper case is of letters. -/
theorem letters_of_leading {p q : PyStr}
    (hupper : ∃ keyword ∈ allowedLeadingKeywords, upper U (p ++ q) = ofText keyword)
    (hascii : ∀ c ∈ p, PyChar.code c < 0x80) : ∀ c ∈ p, isLetter c = true := by
  obtain ⟨keyword, hmem, heq⟩ := hupper
  intro c hc
  refine letter_of_upper (letters_of_keyword keyword (List.mem_append_left _ hmem) _ ?_)
  rw [← heq, upper_append, upper_ascii_eq hascii]
  exact List.mem_append_left _ (List.mem_map_of_mem hc)

theorem firstWord_prefix (text : PyStr) :
    text = firstWord text ++ text.drop (firstWord text).length := by
  have hprefix : firstWord text <+: text := List.takeWhile_prefix _
  rw [List.prefix_iff_eq_take.mp hprefix, List.length_take, Nat.min_eq_left hprefix.length_le,
    List.take_append_drop]

theorem first_token {out : PyStr}
    (hupper : ∃ keyword ∈ allowedLeadingKeywords, upper U (firstWord out) = ofText keyword) :
    (significant out).head? = some (.word, out.takeWhile isIdChar) := by
  obtain ⟨keyword, hmem, heq⟩ := hupper
  have hsplit := firstWord_prefix out
  cases hword : firstWord out with
  | nil =>
    rw [hword] at heq
    have hnil : ofText keyword = [] := heq.symm
    rw [ofText_eq_nil] at hnil
    rw [hnil] at hmem
    exact absurd hmem (by decide)
  | cons c word =>
    rw [hword] at heq hsplit
    have hbegins : isIdChar c = true ∧ isDigit c = false ∧ c ≠ .scalar '$' ∧
        PyChar.code c ≠ 0xfeff := by
      by_cases hlow : PyChar.code c < 0x80
      · have hletter : isLetter c = true :=
          letters_of_leading (p := [c]) ⟨keyword, hmem, heq⟩ (by simpa using hlow) c
            List.mem_cons_self
        refine ⟨idChar_of_letter hletter, ?_, ?_, by omega⟩
        · simp only [isLetter, Bool.or_eq_true, Bool.and_eq_true, decide_eq_true_eq] at hletter
          simp only [isDigit, Bool.and_eq_false_iff, decide_eq_false_iff_not]
          omega
        · rintro rfl
          exact absurd hletter (by decide)
      · refine ⟨idChar_of_high (Nat.not_lt.mp hlow), ?_, ?_, ?_⟩
        · simp only [isDigit, Bool.and_eq_false_iff, decide_eq_false_iff_not]
          omega
        · rintro rfl
          exact absurd (by decide) hlow
        · intro hbom
          have hgap : isGap c = true := by simp [isGap, hbom]
          rw [upper, List.flatMap_cons, U.upper_gap c hgap] at heq
          have hletter := letters_of_keyword keyword (List.mem_append_left _ hmem) c
            (by rw [← heq]; exact List.mem_cons_self)
          rw [(gap_not_word hgap).1] at hletter
          cases hletter
    rw [hsplit, List.cons_append, significant, tokens_cons, List.map_id,
      word_begins hbegins.1 hbegins.2.1 hbegins.2.2.1 hbegins.2.2.2, List.filter_cons_of_pos rfl,
      List.head?_cons, List.take_succ_cons, take_span, List.takeWhile_cons_of_pos hbegins.1]

theorem exists_high {t : PyStr} (h : ¬∀ c ∈ t, PyChar.code c < 0x80) :
    ∃ p e q, t = p ++ e :: q ∧ (∀ c ∈ p, PyChar.code c < 0x80) ∧ 0x80 ≤ PyChar.code e := by
  induction t with
  | nil => exact absurd nofun h
  | cons c t ih =>
    by_cases hc : PyChar.code c < 0x80
    · obtain ⟨p, e, q, rfl, hp, he⟩ := ih fun hall => h (List.forall_mem_cons.mpr ⟨hc, hall⟩)
      exact ⟨c :: p, e, q, rfl, List.forall_mem_cons.mpr ⟨hc, hp⟩, he⟩
    · exact ⟨[], c, t, rfl, nofun, Nat.not_lt.mp hc⟩

theorem plain_of_keyword {out : PyStr}
    (hupper : ∃ keyword ∈ allowedLeadingKeywords, upper U (firstWord out) = ofText keyword)
    (hkeyword : isKeyword allowedLeadingKeywords (out.takeWhile isIdChar) = true) : Plain out := by
  have hsplit := firstWord_prefix out
  have hletters : ∀ c ∈ out.takeWhile isIdChar, isLetter c = true := by
    obtain ⟨keyword, hmem, heq⟩ := List.any_eq_true.mp hkeyword
    intro c hc
    refine letter_of_upper (letters_of_keyword keyword (List.mem_append_left _ hmem) _ ?_)
    rw [← of_decide_eq_true heq]
    exact List.mem_map_of_mem hc
  -- a character beyond ASCII right behind letters is of SQLite's word
  have hlow : ∀ p e z, out = p ++ e :: z → (∀ c ∈ p, isLetter c = true) →
      PyChar.code e < 0x80 := by
    intro p e z hout hp
    by_contra hhigh
    refine hhigh (ascii_of_letter (hletters e ?_))
    rw [hout, List.takeWhile_append_of_pos fun c hc => idChar_of_letter (hp c hc),
      List.takeWhile_cons_of_pos (idChar_of_high (Nat.not_lt.mp hhigh))]
    exact List.mem_append_right _ List.mem_cons_self
  have hascii : ∀ c ∈ firstWord out, PyChar.code c < 0x80 := by
    by_contra hno
    obtain ⟨p, e, q, hword, hp, he⟩ := exists_high hno
    rw [hword] at hsplit hupper
    rw [List.append_assoc] at hsplit
    exact absurd (hlow p e _ hsplit (letters_of_leading hupper hp)) (Nat.not_lt.mpr he)
  refine ⟨hascii, fun d hd => ?_⟩
  obtain ⟨z, hz⟩ := List.head?_eq_some_iff.mp hd
  rw [hz] at hsplit
  refine hlow _ d z hsplit (letters_of_leading (U := U) (q := []) ?_ hascii)
  rwa [List.append_nil]

theorem keyword_of_plain {out : PyStr}
    (hupper : ∃ keyword ∈ allowedLeadingKeywords, upper U (firstWord out) = ofText keyword)
    (hplain : Plain out) : isKeyword allowedLeadingKeywords (out.takeWhile isIdChar) = true := by
  have hletters : ∀ c ∈ firstWord out, isLetter c = true := by
    refine letters_of_leading (U := U) (q := []) ?_ hplain.1
    rwa [List.append_nil]
  have hend : ∀ d ∈ (out.drop (firstWord out).length).head?, isIdChar d = false := by
    intro d hd
    have hlow := hplain.2 d hd
    have hstop := head_drop_span hd
    simp only [Bool.not_eq_false', Bool.or_eq_true, decide_eq_true_eq] at hstop
    rcases hstop with (hspace | rfl) | rfl
    · refine idChar_of_low ?_
      have hcode := space_code hspace
      simp only [List.mem_cons, List.not_mem_nil, or_false] at hcode
      omega
    · decide
    · decide
  have hword : out.takeWhile isIdChar = firstWord out := by
    have hnone : (out.drop (firstWord out).length).takeWhile isIdChar = [] := by
      cases hrest : out.drop (firstWord out).length with
      | nil => rfl
      | cons d rest =>
        exact List.takeWhile_cons_of_neg (by simp [hend d (by rw [hrest]; rfl)])
    calc out.takeWhile isIdChar
        = (firstWord out ++ out.drop (firstWord out).length).takeWhile isIdChar := by
          rw [← firstWord_prefix]
      _ = firstWord out := by
          rw [List.takeWhile_append_of_pos fun c hc => idChar_of_letter (hletters c hc), hnone,
            List.append_nil]
  obtain ⟨keyword, hmem, heq⟩ := hupper
  rw [upper_ascii_eq hplain.1] at heq
  rw [hword]
  exact List.any_eq_true.mpr ⟨keyword, hmem, decide_eq_true heq⟩

theorem leading_iff_plain (hcheck : checkLeadingKeyword U text = .ok ()) :
    (∃ word, (significant (strip text)).head? = some (.word, word) ∧
      isKeyword allowedLeadingKeywords word = true) ↔ Plain (strip text) := by
  have hupper := leading_keyword hcheck
  rw [first_token hupper]
  constructor
  · rintro ⟨word, hword, hkeyword⟩
    obtain ⟨-, rfl⟩ := Prod.mk.inj (Option.some.inj hword)
    exact plain_of_keyword hupper hkeyword
  · intro hplain
    exact ⟨_, rfl, keyword_of_plain hupper hplain⟩

end Leading

section Calm

variable {U : Unicode} {text : PyStr}

theorem findsToken_found {token pre post : PyStr} {afterWord : Bool} (hne : token ≠ [])
    (hfirst : pre = [] → afterWord = false) (hpre : ∀ z ∈ pre.getLast?, U.isWord z = false)
    (hpost : ∀ d ∈ post.head?, U.isWord d = false) :
    findsToken U token afterWord (pre ++ (token ++ post)) = true := by
  induction pre generalizing afterWord with
  | nil =>
    obtain ⟨c, rest, rfl⟩ := List.exists_cons_of_ne_nil hne
    have hbehind : ((c :: rest ++ post).drop (c :: rest).length).head?.any U.isWord = false := by
      rw [List.drop_left]
      cases post with
      | nil => rfl
      | cons d post => exact hpost d rfl
    have hprefix : (c :: rest).isPrefixOf (c :: rest ++ post) = true :=
      List.isPrefixOf_iff_prefix.mpr (List.prefix_append ..)
    rw [List.nil_append, List.cons_append, findsToken, ← List.cons_append, hfirst rfl, hprefix,
      hbehind]
    rfl
  | cons c pre ih =>
    rw [List.cons_append, findsToken, ih, Bool.or_true]
    · rintro rfl
      exact hpre c rfl
    · cases pre with
      | nil => nofun
      | cons d pre =>
        rw [List.getLast?_cons_cons] at hpre
        exact hpre

/-- What is no character of an identifier, and what is a gap, ends a word for the pattern. -/
theorem boundary_upper {z : PyChar} (h : isIdChar z = false ∨ isGap z = true) :
    U.upper z = [z] ∧ U.isWord z = false := by
  rcases h with h | h
  · have hlow : PyChar.code z < 0x80 := by
      by_contra hhigh
      rw [idChar_of_high (Nat.not_lt.mp hhigh)] at h
      nomatch h
    simp only [isIdChar, Bool.or_eq_false_iff] at h
    obtain ⟨⟨⟨⟨hletter, hdigit⟩, hscore⟩, -⟩, -⟩ := h
    rw [U.upper_ascii z hlow, asciiUpper_of_not_letter hletter, U.isWord_ascii z hlow, hletter,
      hdigit, hscore]
    exact ⟨rfl, rfl⟩
  · exact ⟨U.upper_gap z h, U.isWord_gap z h⟩

theorem forbidden_ne_nil : ∀ keyword ∈ forbiddenTokens, ofText keyword ≠ [] := by
  decide

theorem forbidden_found {pre word post : PyStr}
    (hcheck : checkForbiddenTokens U text = .ok ()) (hword : isKeyword forbiddenTokens word = true)
    (htext : stripStrings text = pre ++ (word ++ post))
    (hpre : ∀ z ∈ pre.getLast?, isIdChar z = false ∨ isGap z = true)
    (hpost : ∀ d ∈ post.head?, isIdChar d = false ∨ isGap d = true) : False := by
  obtain ⟨keyword, hmem, heq⟩ := List.any_eq_true.mp hword
  have heq := of_decide_eq_true heq
  have hletters : ∀ c ∈ word, isLetter c = true := by
    intro c hc
    refine letter_of_upper (letters_of_keyword keyword (List.mem_append_right _ hmem) _ ?_)
    rw [← heq]
    exact List.mem_map_of_mem hc
  have hupper : upper U (stripStrings text) = upper U pre ++ (ofText keyword ++ upper U post) := by
    rw [htext, upper_append, upper_append, ← heq,
      upper_ascii_eq fun c hc => ascii_of_letter (hletters c hc)]
  have hnone : findsToken U (ofText keyword) false (upper U (stripStrings text)) = false := by
    rw [checkForbiddenTokens] at hcheck
    split at hcheck
    · nomatch hcheck
    · rename_i hfind
      exact Bool.eq_false_iff.mpr (List.find?_eq_none.mp hfind keyword hmem)
  have hfound : findsToken U (ofText keyword) false (upper U (stripStrings text)) = true := by
    rw [hupper]
    refine findsToken_found (forbidden_ne_nil keyword hmem) (fun _ => rfl) ?_ ?_
    · intro z hz
      rcases List.eq_nil_or_concat' pre with rfl | ⟨init, y, rfl⟩
      · nomatch hz
      · obtain ⟨hy, hword⟩ := boundary_upper (U := U) (hpre y List.getLast?_concat)
        have hlast : upper U [y] = [y] := by rw [upper, List.flatMap_singleton, hy]
        rw [upper_append, hlast, List.getLast?_concat] at hz
        rwa [← Option.some.inj hz]
    · intro d hd
      cases post with
      | nil => nomatch hd
      | cons y post =>
        obtain ⟨hy, hword⟩ := boundary_upper (U := U) (hpost y rfl)
        rw [upper, List.flatMap_cons, hy] at hd
        rwa [← Option.some.inj hd]
  rw [hfound] at hnone
  nomatch hnone

theorem bared_of_calm {ts : List (Kind × List Marked)} {afterDigit : Bool}
    (h : ∀ run, (.word, run) ∈ ts → isKeyword forbiddenTokens (run.map Prod.fst) = false) :
    Bared afterDigit ts := by
  induction ts generalizing afterDigit with
  | nil => trivial
  | cons token ts ih =>
    obtain ⟨kind, run⟩ := token
    refine ⟨?_, ih fun run hrun => h run (List.mem_cons_of_mem _ hrun)⟩
    rintro rfl hkeyword
    rw [h run List.mem_cons_self] at hkeyword
    nomatch hkeyword

theorem bared_split {before later : List (Kind × List Marked)} {run : List Marked}
    {afterDigit : Bool} (h : Bared afterDigit (before ++ (.word, run) :: later))
    (hkeyword : isKeyword forbiddenTokens (run.map Prod.fst) = true) :
    (∀ x ∈ run, x.2 = false) ∧ ∀ token ∈ before.getLast?,
      (token.1 = .variable && token.2.getLast?.any fun x => isDigit x.1) = false := by
  induction before generalizing afterDigit with
  | nil => exact ⟨(h.1 rfl hkeyword).2, nofun⟩
  | cons token before ih =>
    obtain ⟨hbare, hlast⟩ := ih h.2
    refine ⟨hbare, ?_⟩
    cases before with
    | nil =>
      intro last hlast
      obtain rfl : token = last := Option.some.inj hlast
      exact (h.2.1 rfl hkeyword).1
    | cons next before =>
      rw [List.getLast?_cons_cons]
      exact hlast

theorem calm_of_bared (hcheck : checkForbiddenTokens U text = .ok ())
    {before later : List (Kind × List Marked)} {run : List Marked}
    (h : tokens Prod.fst 0 (maskStrings 0 (strip text)) = before ++ (.word, run) :: later)
    (hbared : Bared false (before ++ (.word, run) :: later))
    (hkeyword : isKeyword forbiddenTokens (run.map Prod.fst) = true) : False := by
  obtain ⟨hbare, hlast⟩ := bared_split hbared hkeyword
  have hbefore := fun z hz d => last_before (z := z) (d := d) h hz
  obtain ⟨⟨c, matched⟩, xs, n, hmask, htoken, rfl, rfl⟩ := tokens_split h
  obtain ⟨hid, rfl⟩ := word_token htoken
  obtain rfl : matched = false := hbare _ List.mem_cons_self
  set k := span isIdChar (xs.map Prod.fst) with hk
  obtain ⟨shown, hshown, hxs, hend⟩ := visible_split (p := (.scalar ' ', false)) (.inl rfl) hmask
  obtain ⟨hrun, -⟩ := bare_split (fun x hx => hbare x (List.mem_cons_of_mem _ hx))
    (hxs.trans (List.take_append_drop k xs).symm)
  obtain ⟨front, back, hstripped, hfront, hback⟩ := stripStrings_strip text
  have hwhole : stripStrings text = front ++ shown ++
      ((((c, false) :: xs).take (k + 1)).map Prod.fst ++
        (stripStrings ((xs.drop k).map Prod.fst) ++ back)) := by
    have hshown : stripStrings (strip text) = shown ++ c :: stripStrings (xs.map Prod.fst) := hshown
    rw [hstripped, hshown, hrun, List.take_succ_cons, List.map_cons]
    simp only [List.append_assoc, List.cons_append]
  refine forbidden_found hcheck hkeyword hwhole ?_ ?_
  · intro z hz
    rw [List.getLast?_append] at hz
    cases hshownLast : shown.getLast? with
    | none =>
      rw [hshownLast] at hz
      exact .inr (by simp [isGap, hfront z (List.mem_of_getLast? hz)])
    | some y =>
      rw [hshownLast] at hz
      obtain rfl : y = z := Option.some.inj hz
      rcases hend y (by rw [List.getLast?_cons, hshownLast]; rfl) with rfl | hmem
      · exact .inr (by decide)
      · rw [List.getLast?_cons] at hmem
        cases hflat : ((before.map (·.2)).flatten).getLast? with
        | none =>
          rw [hflat] at hmem
          obtain rfl := (Prod.mk.inj (Option.some.inj hmem)).1
          exact .inr (by decide)
        | some m =>
          rw [hflat] at hmem
          obtain rfl : m = (y, false) := Option.some.inj hmem
          obtain ⟨token, htokenLast, hy, hcase⟩ := hbefore _ hflat (c, false) rfl hid
          rcases hcase with hcase | hbom | ⟨hvariable, hdigit⟩
          · exact .inl hcase
          · exact .inr (by simp [isGap, hbom])
          · have hno := hlast token htokenLast
            rw [hvariable, Option.mem_def.mp hy, Option.any_some, hdigit] at hno
            cases hno
  · intro d hd
    rw [List.head?_append] at hd
    cases hhead : (stripStrings ((xs.drop k).map Prod.fst)).head? with
    | none =>
      rw [hhead] at hd
      exact .inr (by simp [isGap, hback d (List.mem_of_head? hd)])
    | some e =>
      rw [hhead] at hd
      obtain rfl : e = d := Option.some.inj hd
      rcases stripStrings_head hhead with rfl | hnext
      · exact .inr (by decide)
      · rw [List.map_drop] at hnext
        exact .inl (head_drop_span hnext)

theorem calm_iff_bared (hcheck : checkForbiddenTokens U text = .ok ()) :
    (∀ word, (.word, word) ∈ significant (strip text) → isKeyword forbiddenTokens word = false) ↔
      Bared false (tokens Prod.fst 0 (maskStrings 0 (strip text))) := by
  have htokens := masked_tokens (strip text)
  rw [significant, htokens]
  constructor
  · intro hcalm
    refine bared_of_calm fun run hrun => hcalm _ (List.mem_filter.mpr ⟨?_, rfl⟩)
    exact List.mem_map.mpr ⟨_, hrun, rfl⟩
  · intro hbared word hword
    obtain ⟨⟨kind, run⟩, hrun, heq⟩ := List.mem_map.mp (List.mem_filter.mp hword).1
    obtain ⟨rfl, rfl⟩ := Prod.mk.inj heq
    obtain ⟨before, later, hsplit⟩ := List.append_of_mem hrun
    by_contra hkeyword
    rw [hsplit] at hbared
    exact calm_of_bared hcheck hsplit hbared (by simpa using hkeyword)

end Calm

section Result

/-- The gate keeps its word exactly on the texts whose tokens do not mislead it. -/
theorem gate_sound_iff {U : Unicode} {sql out : PyStr} (h : validate U sql = .ok out) :
    Sound out ↔ Evident (strip (stripComments sql)) := by
  obtain ⟨rfl, hsingle, hleading, hforbidden⟩ := validate_ok h
  constructor
  · intro hsound
    exact ⟨(single_iff_ended hsingle).mp hsound.single,
      (leading_iff_plain hleading).mp hsound.leading, (calm_iff_bared hforbidden).mp hsound.calm⟩
  · intro hevident
    exact ⟨(single_iff_ended hsingle).mpr hevident.ended,
      (leading_iff_plain hleading).mpr hevident.plain,
      (calm_iff_bared hforbidden).mpr hevident.bared⟩

theorem gate_sound_sample : Sound (ofText "SELECT ';' FROM \"t\";") := by
  have haccepted : validate .reference (ofText "SELECT ';' FROM \"t\";") =
      .ok (ofText "SELECT ';' FROM \"t\";") := by decide
  exact (gate_sound_iff haccepted).mpr ⟨by decide, by decide, by decide⟩

/-- A quote within a quoted identifier hides a second statement, up to the next such quote. -/
theorem statement_hidden : ∃ out,
    validate .reference (ofText "SELECT \"'\";PRAGMA \"'\"") = .ok out ∧ ¬Sound out := by
  refine ⟨ofText "SELECT \"'\";PRAGMA \"'\"", by decide, fun h => ?_⟩
  have hafter := h.single [(.word, ofText "SELECT"), (.quoted, ofText "\"'\"")] (ofText ";")
    [(.word, ofText "PRAGMA"), (.quoted, ofText "\"'\"")] (by decide)
  nomatch hafter

end Result

end Waitbus.QueryGate
