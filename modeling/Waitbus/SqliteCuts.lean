import Waitbus.SqliteLexer

/-! Where SQLite cuts a text does not depend on what comes behind the first character after the
cut, nor on which letter that character is. -/

namespace Waitbus.SqliteCuts
open Python SqliteLexer

section Local

/-- A token that ends right before either character cannot tell them apart. -/
def Alike (d d' : PyChar) : Prop :=
  (beginsBlank d = true ∧ d = d') ∨ (isLetter d = true ∧ isLetter d' = true)

variable {c d d' : PyChar} {r v v' : PyStr} {n : Nat}

theorem Alike.ne (h : Alike d d') (hletter : isLetter c = false) (hblank : beginsBlank c = false) :
    d ≠ c ∧ d' ≠ c := by
  rcases h with ⟨hd, rfl⟩ | ⟨hd, hd'⟩
  · have hne : d ≠ c := by
      rintro rfl
      rw [hblank] at hd
      nomatch hd
    exact ⟨hne, hne⟩
  · constructor
    · rintro rfl
      rw [hletter] at hd
      nomatch hd
    · rintro rfl
      rw [hletter] at hd'
      nomatch hd'

theorem digit_of_alike (h : Alike d d') : isDigit d = false ∧ isDigit d' = false := by
  have hletter : ∀ c, isLetter c = true → isDigit c = false := by
    intro c hc
    simp only [isLetter, Bool.or_eq_true, Bool.and_eq_true, decide_eq_true_eq] at hc
    simp only [isDigit, Bool.and_eq_false_iff, decide_eq_false_iff_not]
    omega
  rcases h with ⟨hd, rfl⟩ | ⟨hd, hd'⟩
  · have hno : isDigit d = false := by
      simp only [beginsBlank, isBlank, Bool.and_eq_true, Bool.or_eq_true, decide_eq_true_eq] at hd
      simp only [isDigit, Bool.and_eq_false_iff, decide_eq_false_iff_not]
      omega
    exact ⟨hno, hno⟩
  · exact ⟨hletter d hd, hletter d' hd'⟩

theorem idChar_of_alike (h : Alike d d') : isIdChar d = isIdChar d' := by
  rcases h with ⟨-, rfl⟩ | ⟨hd, hd'⟩
  · rfl
  · rw [idChar_of_letter hd, idChar_of_letter hd']

theorem blank_of_alike (h : Alike d d') : isBlank d = isBlank d' := by
  have hletter : ∀ c, isLetter c = true → isBlank c = false := by
    intro c hc
    rw [Bool.eq_false_iff]
    intro hblank
    have := idChar_of_blank hblank
    rw [idChar_of_letter hc] at this
    nomatch this
  rcases h with ⟨-, rfl⟩ | ⟨hd, hd'⟩
  · rfl
  · rw [hletter d hd, hletter d' hd']

theorem span_cons_pos {p : PyChar → Bool} (h : p c = true) : span p (c :: r) = span p r + 1 := by
  rw [span, List.takeWhile_cons_of_pos h]
  rfl

theorem span_cons_neg {p : PyChar → Bool} (h : p c = false) : span p (c :: r) = 0 := by
  rw [span, List.takeWhile_cons_of_neg (by simp [h])]
  rfl

theorem span_local {p : PyChar → Bool} (h : p d = p d') (hle : span p (r ++ d :: v) ≤ r.length) :
    span p (r ++ d' :: v') = span p (r ++ d :: v) := by
  induction r with
  | nil =>
    cases hd : p d with
    | true =>
      rw [List.nil_append, span_cons_pos hd] at hle
      nomatch hle
    | false => exact (span_cons_neg (h ▸ hd)).trans (span_cons_neg hd).symm
  | cons c r ih =>
    rw [List.cons_append] at hle ⊢
    cases hc : p c with
    | true =>
      rw [span_cons_pos hc] at hle
      rw [List.cons_append, span_cons_pos hc, span_cons_pos hc, ih (Nat.le_of_succ_le_succ hle)]
    | false => exact (span_cons_neg hc).trans (span_cons_neg hc).symm

theorem blockEnd_pos {text : PyStr} (h : blockEnd text = some n) : 2 ≤ n := by
  fun_induction blockEnd text generalizing n with
  | case1 => exact (Option.some.inj h).le
  | case2 c d rest hmark ih =>
    obtain ⟨m, hm, rfl⟩ := Option.map_eq_some_iff.mp h
    exact (ih hm).trans (Nat.le_succ m)
  | case3 => cases h

theorem blockEnd_local (h : blockEnd (r ++ d :: v) = some n)
    (hle : n ≤ r.length) : blockEnd (r ++ d' :: v') = some n := by
  induction r generalizing n with
  | nil =>
    have := blockEnd_pos h
    rw [List.length_nil] at hle
    omega
  | cons c r ih =>
    cases r with
    | nil =>
      have := blockEnd_pos h
      rw [List.length_singleton] at hle
      omega
    | cons e r =>
      rw [List.cons_append, List.cons_append, blockEnd] at h ⊢
      split_ifs at h ⊢ with hmark
      · exact h
      · obtain ⟨m, hm, rfl⟩ := Option.map_eq_some_iff.mp h
        exact Option.map_eq_some_iff.mpr ⟨m, ih hm (Nat.le_of_succ_le_succ hle), rfl⟩

theorem quotedEnd_pos {delim : PyChar} {text : PyStr} (h : quotedEnd delim text = some n) :
    1 ≤ n := by
  fun_induction quotedEnd delim text generalizing n with
  | case1 rest ih =>
    obtain ⟨m, -, rfl⟩ := Option.map_eq_some_iff.mp h
    exact Nat.le_add_left ..
  | case2 => exact (Option.some.inj h).le
  | case3 c d rest hc ih =>
    obtain ⟨m, -, rfl⟩ := Option.map_eq_some_iff.mp h
    exact Nat.le_add_left ..
  | case4 => exact (Option.some.inj h).le
  | case5 => cases h
  | case6 => cases h

theorem quotedEnd_local {delim : PyChar} (hd : d ≠ delim) (hd' : d' ≠ delim)
    (h : quotedEnd delim (r ++ d :: v) = some n) (hle : n ≤ r.length) :
    quotedEnd delim (r ++ d' :: v') = some n := by
  fun_induction quotedEnd delim r generalizing n with
  | case1 rest ih =>
    rw [List.cons_append, List.cons_append, quotedEnd, if_pos rfl, if_pos rfl] at h ⊢
    obtain ⟨m, hm, rfl⟩ := Option.map_eq_some_iff.mp h
    exact Option.map_eq_some_iff.mpr ⟨m, ih hm (Nat.le_of_add_le_add_right hle), rfl⟩
  | case2 e rest he =>
    rw [List.cons_append, List.cons_append, quotedEnd, if_pos rfl, if_neg he] at h ⊢
    exact h
  | case3 c e rest hc ih =>
    rw [List.cons_append, List.cons_append, quotedEnd, if_neg hc] at h ⊢
    obtain ⟨m, hm, rfl⟩ := Option.map_eq_some_iff.mp h
    exact Option.map_eq_some_iff.mpr ⟨m, ih hm (Nat.le_of_succ_le_succ hle), rfl⟩
  | case4 =>
    rw [List.cons_append, List.nil_append, quotedEnd, if_pos rfl, if_neg hd] at h
    rw [List.cons_append, List.nil_append, quotedEnd, if_pos rfl, if_neg hd']
    exact h
  | case5 c hc =>
    rw [List.cons_append, List.nil_append, quotedEnd, if_neg hc] at h
    obtain ⟨m, hm, rfl⟩ := Option.map_eq_some_iff.mp h
    have := quotedEnd_pos hm
    rw [List.length_singleton] at hle
    omega
  | case6 =>
    have := quotedEnd_pos h
    rw [List.length_nil] at hle
    omega

theorem bracketEnd_local (hd : d ≠ .scalar ']') (hd' : d' ≠ .scalar ']')
    (h : bracketEnd (r ++ d :: v) = some n) (hle : n ≤ r.length) :
    bracketEnd (r ++ d' :: v') = some n := by
  rw [bracketEnd] at h
  split_ifs at h with hmem
  have hn := Option.some.inj h
  have hspan : span (· ≠ .scalar ']') (r ++ d' :: v') = span (· ≠ .scalar ']') (r ++ d :: v) :=
    span_local (by simp [hd, hd']) (by omega)
  have hmem' : .scalar ']' ∈ r ++ d' :: v' := by
    have hne : (r ++ d' :: v').drop (span (· ≠ .scalar ']') (r ++ d' :: v')) ≠ [] := by
      rw [hspan, Ne, List.drop_eq_nil_iff, List.length_append]
      omega
    obtain ⟨e, rest, hrest⟩ := List.exists_cons_of_ne_nil hne
    have hhead : e ∈ ((r ++ d' :: v').drop (span (· ≠ .scalar ']') (r ++ d' :: v'))).head? := by
      rw [hrest]
      rfl
    have he : e = .scalar ']' := by simpa using head_drop_span hhead
    rw [← he]
    exact List.mem_of_mem_drop (List.mem_of_mem_head? hhead)
  rw [bracketEnd, if_pos hmem', hspan, hn]

theorem head_local (h : Alike d d') (hletter : isLetter c = false) (hblank : beginsBlank c = false)
    (hle : n ≤ r.length) : ((r ++ d' :: v').drop n).head? = some c ↔
      ((r ++ d :: v).drop n).head? = some c := by
  obtain ⟨hd, hd'⟩ := h.ne hletter hblank
  rw [List.drop_append_of_le_length hle, List.drop_append_of_le_length hle, List.head?_append,
    List.head?_append]
  cases (r.drop n).head? with
  | none =>
    exact ⟨fun heq => absurd (Option.some.inj heq) hd', fun heq => absurd (Option.some.inj heq) hd⟩
  | some e => exact Iff.rfl

theorem span_drop_local {p : PyChar → Bool} (h : p d = p d') {k : Nat} (hk : k ≤ r.length)
    (hle : k + span p ((r ++ d :: v).drop k) ≤ r.length) :
    span p ((r ++ d' :: v').drop k) = span p ((r ++ d :: v).drop k) := by
  rw [List.drop_append_of_le_length hk] at hle ⊢
  rw [List.drop_append_of_le_length hk]
  refine span_local h ?_
  rw [List.length_drop]
  omega

theorem exponentLen_none {e : PyChar} (h : ¬(e = .scalar 'e' ∨ e = .scalar 'E')) :
    exponentLen (e :: v) = 0 := by
  rw [exponentLen.eq_def]
  exact if_neg h

theorem exponentLen_mark {e s : PyChar} (h : e = .scalar 'e' ∨ e = .scalar 'E') :
    exponentLen (e :: s :: d :: v) = if isDigit s then span isDigit (s :: d :: v) + 1
      else if (s = .scalar '+' ∨ s = .scalar '-') ∧ isDigit d then span isDigit (d :: v) + 2
      else 0 := by
  rw [exponentLen, if_pos h]
  rfl

theorem exponentLen_stop {e : PyChar} (hdigit : isDigit d = false) (hplus : d ≠ .scalar '+')
    (hminus : d ≠ .scalar '-') : exponentLen (e :: d :: v) = 0 := by
  by_cases he : e = .scalar 'e' ∨ e = .scalar 'E'
  · cases v with
    | nil =>
      rw [exponentLen, if_pos he]
      simp [hdigit]
    | cons x v =>
      rw [exponentLen_mark he]
      simp [hdigit, hplus, hminus]
  · exact exponentLen_none he

theorem exponentLen_local (h : Alike d d') (hid : r = [] → isIdChar d = false)
    (hle : exponentLen (r ++ d :: v) ≤ r.length) :
    exponentLen (r ++ d' :: v') = exponentLen (r ++ d :: v) := by
  obtain ⟨hdigit, hdigit'⟩ := digit_of_alike h
  have hdigits : isDigit d = isDigit d' := hdigit.trans hdigit'.symm
  match r with
  | [] =>
    have hno := hid rfl
    obtain rfl : d = d' := by
      rcases h with ⟨-, hd⟩ | ⟨hd, -⟩
      · exact hd
      · rw [idChar_of_letter hd] at hno
        nomatch hno
    have hmark : ¬(d = .scalar 'e' ∨ d = .scalar 'E') := by
      rintro (rfl | rfl) <;> nomatch hno
    exact (exponentLen_none hmark).trans (exponentLen_none hmark).symm
  | [e] =>
    obtain ⟨hplus, hplus'⟩ := h.ne (c := .scalar '+') (by decide) (by decide)
    obtain ⟨hminus, hminus'⟩ := h.ne (c := .scalar '-') (by decide) (by decide)
    exact (exponentLen_stop hdigit' hplus' hminus').trans
      (exponentLen_stop hdigit hplus hminus).symm
  | e :: s :: r =>
    by_cases he : e = .scalar 'e' ∨ e = .scalar 'E'
    · cases r with
      | nil =>
        simp only [List.cons_append, List.nil_append] at hle ⊢
        rw [exponentLen_mark he] at hle
        rw [exponentLen_mark he, exponentLen_mark he]
        cases hs : isDigit s with
        | true =>
          rw [hs, if_pos rfl] at hle
          rw [if_pos rfl, if_pos rfl]
          exact congrArg (· + 1) (span_local (r := [s]) hdigits (Nat.le_of_succ_le_succ hle))
        | false => simp [hdigit, hdigit']
      | cons x r =>
        simp only [List.cons_append] at hle ⊢
        rw [exponentLen_mark he] at hle
        rw [exponentLen_mark he, exponentLen_mark he]
        split_ifs at hle ⊢
        · exact congrArg (· + 1)
            (span_local (r := s :: x :: r) hdigits (Nat.le_of_succ_le_succ hle))
        · exact congrArg (· + 2)
            (span_local (r := x :: r) hdigits (Nat.le_of_add_le_add_right hle))
        · rfl
    · exact (exponentLen_none he).trans (exponentLen_none he).symm

theorem numberLen_local (h : Alike d d') (hle : numberLen (r ++ d :: v) ≤ r.length) :
    numberLen (r ++ d' :: v') = numberLen (r ++ d :: v) := by
  obtain ⟨hdigit, hdigit'⟩ := digit_of_alike h
  have hdigits : isDigit d = isDigit d' := hdigit.trans hdigit'.symm
  rw [numberLen] at hle
  rw [numberLen, numberLen]
  have hwhole : span isDigit (r ++ d' :: v') = span isDigit (r ++ d :: v) :=
    span_local hdigits (by omega)
  rw [hwhole]
  generalize span isDigit (r ++ d :: v) = whole at hle ⊢
  have hpoint : (if ((r ++ d' :: v').drop whole).head? = some (.scalar '.') then
        span isDigit ((r ++ d' :: v').drop (whole + 1)) + 1 else 0) =
      if ((r ++ d :: v).drop whole).head? = some (.scalar '.') then
        span isDigit ((r ++ d :: v).drop (whole + 1)) + 1 else 0 := by
    have hhead : ((r ++ d' :: v').drop whole).head? = some (.scalar '.') ↔
        ((r ++ d :: v).drop whole).head? = some (.scalar '.') :=
      head_local h (by decide) (by decide) (by omega)
    by_cases hdot : ((r ++ d :: v).drop whole).head? = some (.scalar '.')
    · rw [if_pos hdot] at hle
      have hspan : span isDigit ((r ++ d' :: v').drop (whole + 1)) =
          span isDigit ((r ++ d :: v).drop (whole + 1)) :=
        span_drop_local hdigits (by omega) (by omega)
      rw [if_pos hdot, if_pos (hhead.mpr hdot), hspan]
    · rw [if_neg hdot, if_neg fun hdot' => hdot (hhead.mp hdot')]
  rw [hpoint]
  generalize whole + (if ((r ++ d :: v).drop whole).head? = some (.scalar '.') then
    span isDigit ((r ++ d :: v).drop (whole + 1)) + 1 else 0) = point at hle ⊢
  have hexponent : exponentLen ((r ++ d' :: v').drop point) =
      exponentLen ((r ++ d :: v).drop point) := by
    have hpoint : point ≤ r.length := by omega
    rw [List.drop_append_of_le_length hpoint] at hle ⊢
    rw [List.drop_append_of_le_length hpoint]
    refine exponentLen_local h ?_ ?_
    · intro hnil
      have hlen : point = r.length := le_antisymm hpoint (List.drop_eq_nil_iff.mp hnil)
      rw [hnil, hlen] at hle
      have hzero : exponentLen ([] ++ d :: v) = 0 := by omega
      rw [hzero, Nat.add_zero, List.drop_left] at hle
      cases hid : isIdChar d with
      | false => rfl
      | true =>
        rw [span_cons_pos hid] at hle
        omega
    · rw [List.length_drop]
      omega
  rw [hexponent, span_drop_local (idChar_of_alike h) (by omega) (by omega)]

theorem variableLen_none {named : Bool} (hid : isIdChar c = false)
    (hparen : ¬(c = .scalar '(' ∧ named = true))
    (hcolons : ¬(c = .scalar ':' ∧ v.head? = some (.scalar ':'))) :
    variableLen named (c :: v) = 0 := by
  cases v with
  | nil => simpa [variableLen, hid] using hparen
  | cons e v =>
    have hcolons' : ¬(c = .scalar ':' ∧ e = .scalar ':') := by simpa using hcolons
    rw [variableLen, if_neg (by simp [hid]), if_neg hparen, if_neg hcolons']

theorem variableLen_id {named : Bool} (hid : isIdChar d = true) :
    variableLen named (d :: v) = variableLen true v + 1 := by
  cases v with
  | nil => simp [variableLen, hid]
  | cons e v => rw [variableLen, if_pos hid]

theorem variableLen_paren (v : PyStr) : variableLen true (.scalar '(' :: v) =
    span (fun c => !isBlank c && c ≠ .scalar ')') v + 1 +
      (if (v.drop (span (fun c => !isBlank c && c ≠ .scalar ')') v)).head? = some (.scalar ')')
        then 1 else 0) := by
  cases v with
  | nil => rfl
  | cons e v =>
    rw [variableLen, if_neg (by decide), if_pos ⟨rfl, rfl⟩]

theorem variableLen_colons {named : Bool} (v : PyStr) :
    variableLen named (.scalar ':' :: .scalar ':' :: v) = variableLen named v + 2 := by
  rw [variableLen, if_neg (by decide), if_neg (by simp), if_pos ⟨rfl, rfl⟩]

theorem variableLen_local (h : Alike d d') {named : Bool}
    (hle : variableLen named (r ++ d :: v) ≤ r.length) :
    variableLen named (r ++ d' :: v') = variableLen named (r ++ d :: v) := by
  obtain ⟨hparen, hparen'⟩ := h.ne (c := .scalar '(') (by decide) (by decide)
  obtain ⟨hcolon, hcolon'⟩ := h.ne (c := .scalar ':') (by decide) (by decide)
  obtain ⟨hclose, hclose'⟩ := h.ne (c := .scalar ')') (by decide) (by decide)
  have hid := idChar_of_alike h
  induction hlen : r.length using Nat.strong_induction_on generalizing r named with
  | _ len ih =>
    match r with
    | [] =>
      have hno : isIdChar d = false := by
        cases hid : isIdChar d with
        | false => rfl
        | true =>
          rw [List.nil_append, variableLen_id hid] at hle
          nomatch hle
      exact (variableLen_none (hid ▸ hno) (fun h => hparen' h.1) fun h => hcolon' h.1).trans
        (variableLen_none hno (fun h => hparen h.1) fun h => hcolon h.1).symm
    | c :: r =>
      rw [List.cons_append] at hle ⊢
      rw [List.cons_append]
      cases hc : isIdChar c with
      | true =>
        rw [variableLen_id hc] at hle
        rw [variableLen_id hc, variableLen_id hc, ih r.length (by simp [← hlen])
          (Nat.le_of_succ_le_succ hle) rfl]
      | false =>
        by_cases hopen : c = .scalar '(' ∧ named = true
        · obtain ⟨rfl, rfl⟩ := hopen
          have hinside : (!isBlank d && d ≠ .scalar ')') = (!isBlank d' && d' ≠ .scalar ')') := by
            simp [blank_of_alike h, hclose, hclose']
          rw [variableLen_paren, List.length_cons] at hle
          have hspan : span (fun c => !isBlank c && c ≠ .scalar ')') (r ++ d' :: v') =
              span (fun c => !isBlank c && c ≠ .scalar ')') (r ++ d :: v) :=
            span_local hinside (by omega)
          rw [variableLen_paren, variableLen_paren, hspan]
          generalize span (fun c => !isBlank c && c ≠ .scalar ')') (r ++ d :: v) = inside at hle
          have hhead : ((r ++ d' :: v').drop inside).head? = some (.scalar ')') ↔
              ((r ++ d :: v).drop inside).head? = some (.scalar ')') :=
            head_local h (by decide) (by decide) (by omega)
          rw [if_congr hhead rfl rfl]
        · by_cases hcolons : c = .scalar ':' ∧ r.head? = some (.scalar ':')
          · obtain ⟨rfl, hhead⟩ := hcolons
            obtain ⟨r, rfl⟩ := List.head?_eq_some_iff.mp hhead
            rw [List.cons_append, variableLen_colons, List.length_cons, List.length_cons] at hle
            have hshorter : r.length < len := by
              rw [← hlen, List.length_cons, List.length_cons]
              omega
            rw [List.cons_append, List.cons_append, variableLen_colons, variableLen_colons,
              ih r.length hshorter (Nat.le_of_add_le_add_right hle) rfl]
          · have hhead : ∀ e w, e ≠ .scalar ':' →
                ¬(c = .scalar ':' ∧ (r ++ e :: w).head? = some (.scalar ':')) := by
              rintro e w he ⟨hc, hhead⟩
              cases r with
              | nil => exact he (Option.some.inj hhead)
              | cons x r => exact hcolons ⟨hc, hhead⟩
            exact (variableLen_none hc hopen (hhead d' v' hcolon')).trans
              (variableLen_none hc hopen (hhead d v hcolon)).symm

theorem quotedToken_local {kind : Kind} {close close' : Option Nat}
    (h : quotedToken close (r ++ d :: v) = (kind, n)) (hle : n ≤ (c :: r).length)
    (hclose : ∀ m ≤ r.length, close = some m → close' = some m) :
    quotedToken close' (r ++ d' :: v') = (kind, n) := by
  rw [List.length_cons] at hle
  cases close with
  | none =>
    obtain ⟨-, rfl⟩ := Prod.mk.inj h
    rw [List.length_append, List.length_cons] at hle
    omega
  | some m =>
    obtain ⟨rfl, rfl⟩ := Prod.mk.inj h
    rw [hclose m (by omega) rfl]
    rfl

theorem plainToken_local (h : Alike d d') {kind : Kind}
    (htoken : plainToken c (r ++ d :: v) = (kind, n)) (hle : n ≤ (c :: r).length) :
    plainToken c (r ++ d' :: v') = (kind, n) := by
  obtain ⟨hdigit, hdigit'⟩ := digit_of_alike h
  have hdigits : isDigit d = isDigit d' := hdigit.trans hdigit'.symm
  have hhead : (r ++ d' :: v').head?.any isDigit = (r ++ d :: v).head?.any isDigit := by
    cases r with
    | nil => exact hdigits.symm
    | cons e r => rfl
  have hspan : ∀ p : PyChar → Bool, p d = p d' → span p (r ++ d :: v) + 1 = n →
      span p (r ++ d' :: v') + 1 = n := by
    intro p hp hn
    rw [List.length_cons] at hle
    have hlocal : span p (r ++ d' :: v') = span p (r ++ d :: v) := span_local hp (by omega)
    rw [hlocal, hn]
  rw [plainToken] at htoken
  rw [plainToken, hhead]
  by_cases hblank : beginsBlank c = true
  · rw [if_pos hblank] at htoken ⊢
    obtain ⟨hkind, hn⟩ := Prod.mk.inj htoken
    exact Prod.ext hkind (hspan _ (blank_of_alike h) hn)
  rw [if_neg hblank] at htoken ⊢
  by_cases hquote : isQuote c = true
  · rw [if_pos hquote] at htoken ⊢
    have hne : d ≠ c ∧ d' ≠ c := by
      simp only [isQuote, Bool.or_eq_true, decide_eq_true_eq] at hquote
      rcases hquote with (rfl | rfl) | rfl <;> exact h.ne (by decide) (by decide)
    exact quotedToken_local htoken hle fun m hm hclose => quotedEnd_local hne.1 hne.2 hclose hm
  rw [if_neg hquote] at htoken ⊢
  by_cases hbracket : c = .scalar '['
  · rw [if_pos hbracket] at htoken ⊢
    obtain ⟨hd, hd'⟩ := h.ne (c := .scalar ']') (by decide) (by decide)
    exact quotedToken_local htoken hle fun m hm hclose => bracketEnd_local hd hd' hclose hm
  rw [if_neg hbracket] at htoken ⊢
  by_cases hnumber : (isDigit c || (c = .scalar '.' && (r ++ d :: v).head?.any isDigit)) = true
  · rw [if_pos hnumber] at htoken ⊢
    obtain ⟨hkind, rfl⟩ := Prod.mk.inj htoken
    exact Prod.ext hkind (numberLen_local (r := c :: r) h hle)
  rw [if_neg hnumber] at htoken ⊢
  by_cases hquestion : c = .scalar '?'
  · rw [if_pos hquestion] at htoken ⊢
    obtain ⟨hkind, hn⟩ := Prod.mk.inj htoken
    exact Prod.ext hkind (hspan _ hdigits hn)
  rw [if_neg hquestion] at htoken ⊢
  by_cases hsigil : isSigil c = true
  · rw [if_pos hsigil] at htoken ⊢
    obtain ⟨hkind, rfl⟩ := Prod.mk.inj htoken
    exact Prod.ext hkind (congrArg (· + 1) (variableLen_local h (Nat.le_of_succ_le_succ hle)))
  rw [if_neg hsigil] at htoken ⊢
  by_cases hword : isIdChar c = true
  · rw [if_pos hword] at htoken ⊢
    split_ifs at htoken ⊢
    · exact htoken
    · exact htoken
    · obtain ⟨hkind, hn⟩ := Prod.mk.inj htoken
      exact Prod.ext hkind (hspan _ (idChar_of_alike h) hn)
  · rw [if_neg hword] at htoken ⊢
    exact htoken

theorem getToken_line (rest : PyStr) : getToken (.scalar '-' :: .scalar '-' :: rest) =
    (.lineComment, span (· ≠ .scalar '\n') rest + 2) := by
  rw [getToken, comment?, if_pos ⟨rfl, rfl⟩]
  rfl

theorem getToken_block {rest : PyStr} (hne : rest ≠ []) :
    getToken (.scalar '/' :: .scalar '*' :: rest) =
      (.blockComment, (blockEnd rest).getD rest.length + 2) := by
  rw [getToken, comment?, if_neg (by decide), if_pos ⟨rfl, rfl, hne⟩]
  rfl

theorem getToken_plain {rest : PyStr}
    (hline : ¬(c = .scalar '-' ∧ rest.head? = some (.scalar '-')))
    (hblock : ¬(c = .scalar '/' ∧ rest.head? = some (.scalar '*'))) :
    getToken (c :: rest) = plainToken c rest := by
  rcases getToken_cases c rest with ⟨hc, hhead, -⟩ | ⟨hc, inside, rfl, -⟩ | ⟨-, -, h⟩
  · exact absurd ⟨hc, hhead⟩ hline
  · exact absurd ⟨hc, rfl⟩ hblock
  · exact h

theorem getToken_local (h : Alike d d') {kind : Kind}
    (htoken : getToken (c :: r ++ d :: v) = (kind, n)) (hle : n ≤ (c :: r).length) :
    getToken (c :: r ++ d' :: v') = (kind, n) := by
  have hhead : ∀ e, isLetter e = false → beginsBlank e = false →
      ((r ++ d' :: v').head? = some e ↔ (r ++ d :: v).head? = some e) := fun e he hblank =>
    head_local (n := 0) h he hblank (Nat.zero_le _)
  have hinside : ∀ e, isLetter e = false → beginsBlank e = false →
      (r ++ d :: v).head? = some e → ∃ r', r = e :: r' := by
    intro e he hblank hsome
    cases r with
    | nil => exact absurd (Option.some.inj hsome) (h.ne he hblank).1
    | cons x r => exact ⟨r, congrArg (· :: r) (Option.some.inj hsome)⟩
  rw [List.cons_append] at htoken ⊢
  by_cases hline : c = .scalar '-' ∧ (r ++ d :: v).head? = some (.scalar '-')
  · obtain ⟨rfl, hsome⟩ := hline
    obtain ⟨r, rfl⟩ := hinside _ (by decide) (by decide) hsome
    have hbreak : (d ≠ .scalar '\n' : Bool) = (d' ≠ .scalar '\n' : Bool) := by
      rcases h with ⟨-, rfl⟩ | ⟨hd, hd'⟩
      · rfl
      · have hne : ∀ e, isLetter e = true → e ≠ .scalar '\n' := by
          rintro e he rfl
          nomatch he
        simp [hne d hd, hne d' hd']
    rw [List.cons_append, getToken_line] at htoken
    obtain ⟨hkind, rfl⟩ := Prod.mk.inj htoken
    have hspan : span (· ≠ .scalar '\n') (r ++ d' :: v') = span (· ≠ .scalar '\n') (r ++ d :: v) :=
      span_local hbreak (Nat.le_of_add_le_add_right hle)
    rw [List.cons_append, getToken_line, hspan]
    exact Prod.ext hkind rfl
  by_cases hblock : c = .scalar '/' ∧ (r ++ d :: v).head? = some (.scalar '*')
  · obtain ⟨rfl, hsome⟩ := hblock
    obtain ⟨r, rfl⟩ := hinside _ (by decide) (by decide) hsome
    have hne : ∀ e w, r ++ e :: w ≠ [] := fun e w => List.append_ne_nil_of_right_ne_nil r nofun
    rw [List.cons_append, getToken_block (hne d v)] at htoken
    obtain ⟨hkind, rfl⟩ := Prod.mk.inj htoken
    rw [List.cons_append, getToken_block (hne d' v')]
    cases hend : blockEnd (r ++ d :: v) with
    | none =>
      rw [hend, Option.getD_none, List.length_append, List.length_cons, List.length_cons,
        List.length_cons] at hle
      omega
    | some m =>
      rw [hend] at hle
      rw [blockEnd_local hend (Nat.le_of_add_le_add_right hle)]
      exact Prod.ext hkind rfl
  · rw [getToken_plain hline hblock] at htoken
    rw [getToken_plain (by rwa [hhead _ (by decide) (by decide)])
      (by rwa [hhead _ (by decide) (by decide)])]
    exact plainToken_local h htoken hle

theorem tokens_local (h : Alike d d') {before : List (Kind × PyStr)}
    (htokens : tokens id 0 (r ++ d :: v) = before ++ tokens id 0 (d :: v))
    (hbefore : (before.map (·.2)).flatten = r) :
    tokens id 0 (r ++ d' :: v') = before ++ tokens id 0 (d' :: v') := by
  induction before generalizing r with
  | nil =>
    rw [← hbefore]
    rfl
  | cons token before ih =>
    obtain ⟨kind, run⟩ := token
    have hfirst : tokens id 0 (r ++ d :: v) =
        [] ++ (kind, run) :: (before ++ tokens id 0 (d :: v)) := htokens
    obtain ⟨x, ys, n, hxs, htoken, hrun, hlater⟩ := tokens_split hfirst
    rw [List.map_nil, List.flatten_nil, List.nil_append] at hxs
    rw [List.map_id, ← hxs] at htoken
    rw [← hxs] at hrun hlater
    rw [List.map_cons, List.flatten_cons] at hbefore
    have hpos : 1 ≤ n := by
      have hpos : 1 ≤ (getToken (x :: ys)).2 := getToken_pos
      rwa [← hxs, htoken] at hpos
    have hle : n ≤ r.length := by
      have hlen := congrArg List.length hbefore
      rw [hrun, List.length_append, List.length_take, List.length_append, List.length_cons] at hlen
      omega
    rw [List.take_append_of_le_length hle] at hrun
    rw [List.drop_append_of_le_length hle] at hlater
    have hrest : (before.map (·.2)).flatten = r.drop n := by
      rw [hrun] at hbefore
      exact List.append_cancel_left (hbefore.trans (List.take_append_drop n r).symm)
    cases r with
    | nil => exact absurd (hpos.trans hle) (by decide)
    | cons c r =>
      rw [List.cons_append, tokens_cons, List.map_id, ← List.cons_append,
        getToken_local h htoken hle, List.take_append_of_le_length hle,
        List.drop_append_of_le_length hle, ← hrun, ih hlater.symm hrest]
      rfl

end Local

section Runs

variable {c : PyChar} {run z : PyStr}

theorem tokens_run {kind : Kind} (hne : run ≠ []) (h : getToken (run ++ z) = (kind, run.length)) :
    tokens id 0 (run ++ z) = (kind, run) :: tokens id 0 z := by
  obtain ⟨c, rest, rfl⟩ := List.exists_cons_of_ne_nil hne
  rw [List.cons_append] at h ⊢
  rw [tokens_cons, List.map_id, h, ← List.cons_append, List.take_left, List.drop_left]

theorem tokens_letters (hne : run ≠ []) (hrun : ∀ c ∈ run, isLetter c = true)
    (hz : ∀ c ∈ z.head?, isIdChar c = false) :
    tokens id 0 (run ++ z) = (.word, run) :: tokens id 0 z := by
  refine tokens_run hne ?_
  obtain ⟨c, rest, rfl⟩ := List.exists_cons_of_ne_nil hne
  have hc := hrun c List.mem_cons_self
  have hcode : isDigit c = false ∧ c ≠ .scalar '$' ∧ PyChar.code c ≠ 0xfeff := by
    refine ⟨(digit_of_alike (.inr ⟨hc, hc⟩)).1, ?_, ?_⟩
    · rintro rfl
      nomatch hc
    · simp only [isLetter, Bool.or_eq_true, Bool.and_eq_true, decide_eq_true_eq] at hc
      omega
  rw [List.cons_append, word_begins (idChar_of_letter hc) hcode.1 hcode.2.1 hcode.2.2,
    span_append (fun d hd => idChar_of_letter (hrun d (List.mem_cons_of_mem _ hd))) hz]
  rfl

theorem tokens_space (hz : ∀ c ∈ z.head?, isBlank c = false) :
    tokens id 0 (.scalar ' ' :: z) = (.blank, [.scalar ' ']) :: tokens id 0 z := by
  refine tokens_run (List.cons_ne_nil (.scalar ' ') []) ?_
  have hspan : span isBlank ([] ++ z) = 0 := span_append nofun hz
  rw [List.singleton_append, getToken_plain (by simp) (by simp), plainToken, if_pos (by decide),
    ← List.nil_append z, hspan]
  rfl

theorem numberLen_digits (hrun : ∀ c ∈ run, isDigit c = true)
    (hz : ∀ c ∈ z.head?, beginsBlank c = true) : numberLen (run ++ z) = run.length := by
  have hnot : ∀ c ∈ z.head?, isDigit c = false ∧ isIdChar c = false := by
    intro c hc
    have halike : Alike c c := .inl ⟨hz c hc, rfl⟩
    exact ⟨(digit_of_alike halike).1, idChar_of_blank (Bool.and_eq_true_iff.mp (hz c hc)).1⟩
  have hwhole : span isDigit (run ++ z) = run.length := span_append hrun fun c hc => (hnot c hc).1
  have hpoint : z.head? ≠ some (.scalar '.') := fun h => nomatch hz _ h
  have hexponent : exponentLen z = 0 := by
    cases z with
    | nil => rfl
    | cons c z =>
      refine exponentLen_none ?_
      rintro (rfl | rfl) <;> nomatch hz _ rfl
  have hend : span isIdChar ([] ++ z) = 0 := span_append nofun fun c hc => (hnot c hc).2
  rw [List.nil_append] at hend
  rw [numberLen, hwhole, List.drop_left, if_neg hpoint, Nat.add_zero, List.drop_left, hexponent,
    Nat.add_zero, List.drop_left, hend, Nat.add_zero]

theorem tokens_digits (hne : run ≠ []) (hrun : ∀ c ∈ run, isDigit c = true)
    (hz : ∀ c ∈ z.head?, beginsBlank c = true) :
    tokens id 0 (run ++ z) = (.number, run) :: tokens id 0 z := by
  refine tokens_run hne ?_
  have hlen := numberLen_digits hrun hz
  obtain ⟨c, rest, rfl⟩ := List.exists_cons_of_ne_nil hne
  have hc := hrun c List.mem_cons_self
  have hnot : ∀ d, isDigit d = false → c ≠ d := by
    rintro d hd rfl
    rw [hc] at hd
    nomatch hd
  have hblank : ¬beginsBlank c = true := by
    simp only [isDigit, Bool.and_eq_true, decide_eq_true_eq] at hc
    simp only [beginsBlank, isBlank, Bool.and_eq_true, Bool.or_eq_true, decide_eq_true_eq]
    omega
  have hquote : ¬isQuote c = true := by
    simp only [isQuote, Bool.or_eq_true, decide_eq_true_eq]
    rintro ((hd | hd) | hd) <;> exact absurd hd (hnot _ (by decide))
  rw [List.cons_append, getToken_plain (fun h => hnot _ (by decide) h.1)
    fun h => hnot _ (by decide) h.1, plainToken, if_neg hblank, if_neg hquote,
    if_neg (hnot _ (by decide)), if_pos (by rw [hc]; rfl), ← List.cons_append, hlen]

theorem blank_behind_number {xs n apart : PyStr} {before later : List (Kind × PyStr)}
    (h : tokens id 0 xs = before ++ (.number, n) :: (.blank, apart) :: later) :
    ∃ c rest, apart = c :: rest ∧ beginsBlank c = true := by
  obtain ⟨x, ys, k, -, htoken, -, hlater⟩ := tokens_split h
  have hbehind : ∀ c ∈ ((x :: ys).drop k).head?, isIdChar c = false := by
    rw [List.map_id] at htoken
    cases cut_of_token htoken nofun nofun with
    | number => exact fun c hc => head_drop_numberLen hc
    | quote _ hquoted => exact not_quotedToken hquoted nofun nofun
    | bracket _ hquoted => exact not_quotedToken hquoted nofun nofun
  have hfirst : tokens id 0 ((x :: ys).drop k) = [] ++ (.blank, apart) :: later := hlater.symm
  obtain ⟨y, zs, m, hdrop, hblank, hrun, -⟩ := tokens_split hfirst
  rw [hdrop] at hbehind
  have hy := hbehind y rfl
  rw [List.map_id] at hblank
  cases cut_of_token hblank nofun nofun with
  | blank hbegins => exact ⟨y, _, hrun, hbegins⟩
  | mark hmark =>
    rw [idChar_of_high (by omega)] at hy
    nomatch hy
  | quote _ hquoted => exact not_quotedToken hquoted nofun nofun
  | bracket _ hquoted => exact not_quotedToken hquoted nofun nofun

end Runs

end Waitbus.SqliteCuts
