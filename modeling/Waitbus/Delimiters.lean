import Mathlib

/-! Texts set between two delimiters. A substitution that rewrites every occurrence of the
closing delimiter leaves a text that cannot end the enclosure early. -/

namespace Waitbus.Delimiters

variable {α : Type*}

abbrev Pattern (α : Type*) := List α → Option (List α)

/-- Replace the matches from the left, the first `skip` letters being past of one already. -/
def substitute (p : Pattern α) (repl : List α) : Nat → List α → List α
  | _, [] => []
  | skip + 1, _ :: rest => substitute p repl skip rest
  | 0, c :: rest =>
    match p (c :: rest) with
    | some behind => repl ++ substitute p repl (rest.length - behind.length) rest
    | none => c :: substitute p repl 0 rest

section Substitution

variable {p : Pattern α} {m : α} {repl word : List α}

theorem prefix_of_substitute {text : List α} (hm : m ∉ word)
    (h : word <+: substitute p (m :: repl) 0 text) : word <+: text := by
  induction text generalizing word with
  | nil => exact h
  | cons c rest ih =>
    cases word with
    | nil => exact List.nil_prefix
    | cons x word =>
      rw [substitute] at h
      split at h
      · rw [List.cons_append, List.cons_prefix_cons] at h
        rw [h.1] at hm
        exact absurd List.mem_cons_self hm
      · rw [List.cons_prefix_cons] at h ⊢
        exact ⟨h.1, ih (fun hmem => hm (List.mem_cons_of_mem _ hmem)) h.2⟩

theorem not_infix_substitute {a : α} (hm : m ∉ a :: word) (ha : a ∉ m :: repl)
    (hp : ∀ text, a :: word <+: text → p text ≠ none) (skip : Nat) (text : List α) :
    ¬ a :: word <:+: substitute p (m :: repl) skip text := by
  induction text generalizing skip with
  | nil =>
    rw [substitute, List.infix_nil]
    exact List.cons_ne_nil a word
  | cons c rest ih =>
    cases skip with
    | succ skip => exact ih skip
    | zero =>
      rw [substitute]
      split
      · rename_i behind hmatch
        rw [List.infix_append_iff_ne_nil]
        rintro (h | h | ⟨front, back, hfront, -, hword, hsuffix, -⟩)
        · exact ha (h.subset List.mem_cons_self)
        · exact ih _ h
        · obtain ⟨x, front, rfl⟩ := List.exists_cons_of_ne_nil hfront
          rw [List.cons_append, List.cons.injEq] at hword
          rw [← hword.1] at hsuffix
          exact ha (hsuffix.subset List.mem_cons_self)
      · rename_i hmatch
        rw [List.infix_cons_iff]
        rintro (h | h)
        · rw [List.cons_prefix_cons] at h
          have hword := prefix_of_substitute (fun hmem => hm (List.mem_cons_of_mem _ hmem)) h.2
          exact hp (c :: rest) (List.cons_prefix_cons.mpr ⟨h.1, hword⟩) hmatch
        · exact ih 0 h

theorem mem_substitute {skip : Nat} {text : List α} {x : α}
    (h : x ∈ substitute p repl skip text) : x ∈ repl ∨ x ∈ text := by
  induction text generalizing skip with
  | nil => exact .inr h
  | cons c rest ih =>
    cases skip with
    | succ skip => exact (ih h).imp_right (List.mem_cons_of_mem c)
    | zero =>
      rw [substitute] at h
      split at h
      · rcases List.mem_append.mp h with h | h
        · exact .inl h
        · exact (ih h).imp_right (List.mem_cons_of_mem c)
      · rcases List.mem_cons.mp h with rfl | h
        · exact .inr List.mem_cons_self
        · exact (ih h).imp_right (List.mem_cons_of_mem c)

end Substitution

/-- A closing delimiter: its first and its last letter stand nowhere else in it. -/
structure Tag (α : Type*) where
  first : α
  stem : List α
  last : α
  first_once : first ∉ stem ++ [last]
  last_once : last ∉ first :: stem

def Tag.text (tag : Tag α) : List α :=
  tag.first :: tag.stem ++ [tag.last]

/-- The text starts with the one delimiter and ends with the other, which stands nowhere else
in it. -/
structure Encloses (opening : List α) (tag : Tag α) (text : List α) : Prop where
  between : ∃ body, text = opening ++ body ++ tag.text
  once : ∀ front back, text = front ++ tag.text ++ back → back = []

section Enclosing

variable {tag : Tag α} {opening body x : List α}

/-- An opening delimiter that ends as the tag does shares no occurrence of it with what follows. -/
theorem Tag.not_infix_append (hopening : opening.getLast? = some tag.last)
    (hfree : ¬ tag.text <:+: opening) (hbody : ¬ tag.text <:+: body) :
    ¬ tag.text <:+: opening ++ body := by
  rw [List.infix_append_iff_ne_nil]
  rintro (h | h | ⟨left, right, hleft, hright, hsplit, hsuffix, -⟩)
  · exact hfree h
  · exact hbody h
  · obtain ⟨stem, y, rfl⟩ := List.eq_nil_or_concat right |>.resolve_left hright
    obtain ⟨front, z, rfl⟩ := List.eq_nil_or_concat left |>.resolve_left hleft
    rw [Tag.text, List.concat_eq_append, List.concat_eq_append, ← List.append_assoc] at hsplit
    have hstem := (List.append_inj' hsplit rfl).1
    obtain ⟨before, rfl⟩ := hsuffix
    rw [List.concat_eq_append, ← List.append_assoc, List.getLast?_concat, Option.some.injEq]
      at hopening
    apply tag.last_once
    rw [hstem, ← hopening]
    simp

theorem Tag.once (h : ¬ tag.text <:+: x) (front back : List α)
    (hsplit : x ++ tag.text = front ++ tag.text ++ back) : back = [] := by
  rcases List.append_eq_append_iff.mp hsplit with ⟨as, hfront, htag⟩ | ⟨bs, hx, -⟩
  · cases as with
    | nil =>
      rw [List.append_nil] at hfront
      exact absurd ⟨front, [], by rw [List.append_nil, hfront]⟩ h
    | cons a as =>
      rw [Tag.text, List.cons_append, List.cons_append, List.cons.injEq] at htag
      have hsuffix : a :: as <:+ tag.text := by
        refine List.suffix_of_suffix_length_le ⟨x, rfl⟩ ⟨front, hfront⟩ ?_
        have := congrArg List.length htag.2
        simp only [Tag.text, List.length_append, List.length_cons] at this ⊢
        omega
      rw [Tag.text, List.cons_append, List.suffix_cons_iff] at hsuffix
      rcases hsuffix with hwhole | hlater
      · rw [(List.cons.inj hwhole).2] at htag
        exact List.append_right_eq_self.mp htag.2.symm
      · rw [← htag.1] at hlater
        exact absurd (hlater.subset List.mem_cons_self) tag.first_once
  · exact absurd ⟨front, bs, hx.symm⟩ h

theorem Encloses.intro (hopening : opening.getLast? = some tag.last)
    (hfree : ¬ tag.text <:+: opening) (hbody : ¬ tag.text <:+: body) :
    Encloses opening tag (opening ++ body ++ tag.text) where
  between := ⟨body, rfl⟩
  once := Tag.once (Tag.not_infix_append hopening hfree hbody)

theorem Encloses.length_le {text : List α} (h : Encloses opening tag text) :
    tag.text.length ≤ text.length := by
  obtain ⟨body, rfl⟩ := h.between
  rw [List.length_append]
  exact Nat.le_add_left _ _

end Enclosing

section Anchored

variable {p : Pattern α} {first mark : α} {repl text opening body close : List α}

/-- Each match begins with one letter that it holds nowhere else, holds no mark, and is a match
before any text. -/
structure Anchored (p : Pattern α) (first mark : α) : Prop where
  word : ∀ {text behind}, p text = some behind → ∃ tail, text = first :: tail ++ behind ∧
    first ∉ tail ∧ mark ∉ first :: tail ∧ ∀ rest, p (first :: tail ++ rest) = some rest

def Free (p : Pattern α) (text : List α) : Prop :=
  ∀ part, part <:+ text → p part = none

/-- The pattern matches once, at the closing delimiter that ends the text. -/
def OnlyEnd (p : Pattern α) (close text : List α) : Prop :=
  ∀ i behind, p (text.drop i) = some behind ↔ i + close.length = text.length ∧ behind = []

theorem suffix_append_cases {part front back : List α} (h : part <:+ front ++ back) :
    part <:+ back ∨ ∃ left, left ≠ [] ∧ left <:+ front ∧ part = left ++ back := by
  induction front with
  | nil => exact .inl h
  | cons c front ih =>
    rw [List.cons_append, List.suffix_cons_iff] at h
    rcases h with rfl | h
    · exact .inr ⟨c :: front, List.cons_ne_nil c front, List.suffix_refl _, rfl⟩
    · refine (ih h).imp_right fun ⟨left, hne, hleft, hpart⟩ => ?_
      exact ⟨left, hne, hleft.trans (List.suffix_cons c front), hpart⟩

theorem Anchored.none_of_ne (h : Anchored p first mark) {c : α} (hc : c ≠ first)
    (rest : List α) : p (c :: rest) = none := by
  refine Option.eq_none_iff_forall_ne_some.mpr fun behind hmatch => ?_
  obtain ⟨tail, hsplit, -⟩ := h.word hmatch
  exact hc (List.cons.inj hsplit).1

theorem Anchored.nil (h : Anchored p first mark) : p [] = none := by
  refine Option.eq_none_iff_forall_ne_some.mpr fun behind hmatch => ?_
  obtain ⟨tail, hsplit, -⟩ := h.word hmatch
  nomatch hsplit

theorem Anchored.free_append (h : Anchored p first mark) {front : List α}
    (hfront : first ∉ front) (hfree : Free p text) : Free p (front ++ text) := by
  intro part hpart
  rcases suffix_append_cases hpart with hpart | ⟨left, hne, hleft, rfl⟩
  · exact hfree part hpart
  · obtain ⟨c, left, rfl⟩ := List.exists_cons_of_ne_nil hne
    exact h.none_of_ne (fun hc => hfront (hc ▸ hleft.subset List.mem_cons_self)) _

theorem Anchored.free_substitute (h : Anchored p first mark) (hfirst : first ∉ mark :: repl)
    (skip : Nat) (text : List α) : Free p (substitute p (mark :: repl) skip text) := by
  induction text generalizing skip with
  | nil =>
    intro part hpart
    rw [substitute, List.suffix_nil] at hpart
    rw [hpart]
    exact h.nil
  | cons c rest ih =>
    cases skip with
    | succ skip => exact ih skip
    | zero =>
      rw [substitute]
      split
      · exact h.free_append hfirst (ih _)
      · rename_i hmatch
        intro part hpart
        rcases List.suffix_cons_iff.mp hpart with rfl | hpart
        · refine Option.eq_none_iff_forall_ne_some.mpr fun behind hsome => ?_
          obtain ⟨tail, hsplit, -, hmark, hany⟩ := h.word hsome
          obtain ⟨rfl, hout⟩ := List.cons.inj hsplit
          obtain ⟨behind', rfl⟩ :=
            prefix_of_substitute (List.not_mem_of_not_mem_cons hmark) ⟨behind, hout.symm⟩
          exact nomatch hmatch.symm.trans (hany behind')
        · exact ih 0 part hpart

theorem Free.substitute_eq (h : Free p text) : substitute p repl 0 text = text := by
  induction text with
  | nil => rfl
  | cons c rest ih =>
    rw [substitute, h _ (List.suffix_refl _)]
    exact congrArg _ (ih fun part hpart => h part (hpart.trans (List.suffix_cons c rest)))

theorem Anchored.onlyEnd (h : Anchored p first mark) (hclose : p close = some [])
    (hopening : ∀ left, left ≠ [] → left <:+ opening → ∀ rest, p (left ++ rest) = none)
    (hbody : Free p body) : OnlyEnd p close (opening ++ body ++ close) := by
  obtain ⟨stem, hstem, honce, -⟩ := h.word hclose
  rw [List.append_nil] at hstem
  have hpart : ∀ part behind, part <:+ opening ++ (body ++ close) → p part = some behind →
      part = close := by
    intro part behind hpart hmatch
    rcases suffix_append_cases hpart with hpart | ⟨left, hne, hleft, rfl⟩
    · rcases suffix_append_cases hpart with hpart | ⟨left, hne, hleft, rfl⟩
      · rw [hstem] at hpart ⊢
        rcases List.suffix_cons_iff.mp hpart with hpart | hpart
        · exact hpart
        · obtain ⟨tail, rfl, -⟩ := h.word hmatch
          exact absurd (hpart.subset List.mem_cons_self) honce
      · obtain ⟨tail, hsplit, hfirst, -, hany⟩ := h.word hmatch
        rcases List.append_eq_append_iff.mp hsplit with ⟨as, hword, htail⟩ | ⟨bs, hword, -⟩
        · cases as with
          | nil =>
            rw [List.append_nil] at hword
            have hnone := hbody left hleft
            rw [← hword, ← List.append_nil (first :: tail), hany] at hnone
            nomatch hnone
          | cons a as =>
            obtain ⟨c, left, rfl⟩ := List.exists_cons_of_ne_nil hne
            rw [hstem, List.cons_append, List.cons.injEq] at htail
            rw [List.cons_append, List.cons.injEq, ← htail.1] at hword
            rw [hword.2] at hfirst
            exact absurd (List.mem_append_right _ List.mem_cons_self) hfirst
        · have hnone := hbody left hleft
          rw [hword, hany] at hnone
          nomatch hnone
    · rw [hopening left hne hleft] at hmatch
      nomatch hmatch
  rw [List.append_assoc]
  intro i behind
  constructor
  · intro hmatch
    have hi := hpart _ behind (List.drop_suffix i _) hmatch
    rw [hi, hclose] at hmatch
    have hlen := congrArg List.length hi
    have hpos : 0 < close.length := by simp [hstem]
    rw [List.length_drop] at hlen
    exact ⟨by omega, (Option.some.inj hmatch).symm⟩
  · rintro ⟨hi, rfl⟩
    have hdrop : (opening ++ (body ++ close)).drop i = close := by
      rw [← List.append_assoc, List.drop_left' (by simp at hi ⊢; omega)]
    rw [hdrop, hclose]

end Anchored

section Fields

/-- The last mark of a text splits it, so what stands before it may have marks of its own. -/
theorem last_split_inj {a : α} {xs ys xs' ys' : List α} (h : a ∉ ys) (h' : a ∉ ys')
    (heq : xs ++ a :: ys = xs' ++ a :: ys') : xs = xs' ∧ ys = ys' := by
  obtain ⟨t, ht, htail⟩ | ⟨t, ht, htail⟩ := List.append_eq_append_iff.mp heq
  · cases t with
    | nil =>
      rw [List.append_nil] at ht
      exact ⟨ht.symm, (List.cons.inj htail).2⟩
    | cons b t =>
      rw [List.cons_append, List.cons.injEq] at htail
      exact absurd (htail.2 ▸ List.mem_append_right t (List.mem_cons_self ..)) h
  · cases t with
    | nil =>
      rw [List.append_nil] at ht
      exact ⟨ht, (List.cons.inj htail).2.symm⟩
    | cons b t =>
      rw [List.cons_append, List.cons.injEq] at htail
      exact absurd (htail.2 ▸ List.mem_append_right t (List.mem_cons_self ..)) h'

end Fields

end Waitbus.Delimiters
