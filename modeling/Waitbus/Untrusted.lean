import Mathlib
import Waitbus.Delimiters
import Waitbus.Python

/-! Text from outside, before it reaches an agent: control characters and terminal escapes are
dropped, what could pass for the closing delimiter is rewritten, and the rest is set between the
delimiters. Each regular expression is the function that matches it at the front of a text. -/

namespace Waitbus.Untrusted
open Python Delimiters

def fenceOpen : PyStr := ofText "<waitbus:untrusted>"

def fenceClose : PyStr := ofText "</waitbus:untrusted>"

def externalOpen : PyStr := ofText "<external_event_data>"

def externalClose : PyStr := ofText "</external_event_data>"

section Patterns

def codeIn (lo hi : Nat) (c : PyChar) : Bool :=
  lo ≤ c.code && c.code ≤ hi

/-- `_CONTROL_RE`. -/
def isControl (c : PyChar) : Bool :=
  codeIn 0 8 c || codeIn 0xb 0x1f c || codeIn 0x7f 0x9f c || codeIn 0x200b 0x200f c ||
    codeIn 0x2028 0x2029 c || codeIn 0x202a 0x202e c || codeIn 0x2060 0x2060 c ||
    codeIn 0x2066 0x2069 c || codeIn 0xfeff 0xfeff c

/-- `[0-9;?]`. -/
def isParameter (c : PyChar) : Bool :=
  codeIn 0x30 0x39 c || codeIn 0x3b 0x3b c || codeIn 0x3f 0x3f c

/-- The tail of an escape sequence after its `[`. -/
def csi (text : PyStr) : Option PyStr :=
  match (text.dropWhile isParameter).dropWhile (codeIn 0x20 0x2f) with
  | final :: behind => if codeIn 0x40 0x7e final then some behind else none
  | [] => none

/-- The tail of an escape sequence after its `]`, up to a bell or the string terminator. -/
def osc (text : PyStr) : Option PyStr :=
  match text.dropWhile fun c => c.code ≠ 0x07 && c.code ≠ 0x1b with
  | bell :: behind =>
    if bell.code = 0x07 then some behind
    else
      match behind with
      | backslash :: behind => if backslash.code = 0x5c then some behind else none
      | [] => none
  | [] => none

/-- `_ANSI_RE`. -/
def ansi : Pattern PyChar
  | escape :: kind :: rest =>
    if escape.code ≠ 0x1b then none
    else if kind.code = 0x5b then csi rest
    else if kind.code = 0x5d then osc rest
    else none
  | _ => none

/-- A letter of a pattern against a code point under `re.IGNORECASE`, which takes the dotted and
the dotless `i` and the long `s` for theirs. -/
def sameFold (letter : Char) : PyChar → Bool
  | .scalar c =>
    c.toLower = letter || (letter = 'i' && (c.toNat = 0x130 || c.toNat = 0x131)) ||
      (letter = 's' && c.toNat = 0x17f)
  | .surrogate _ => false

def literal : List Char → Pattern PyChar
  | [], text => some text
  | _ :: _, [] => none
  | letter :: word, c :: text => if sameFold letter c then literal word text else none

/-- The tokens of a pattern with `\s*` between each two. -/
def tokens : List String → Pattern PyChar
  | [], text => some text
  | [token], text => literal token.toList text
  | token :: rest, text =>
    match literal token.toList text with
    | some behind => tokens rest (behind.dropWhile isSpace)
    | none => none

/-- `_CLOSE_SPOOF_RE`. -/
def closeSpoof : Pattern PyChar :=
  tokens ["<", "/", "waitbus", ":", "untrusted", ">"]

/-- `_EXTERNAL_CLOSE_SPOOF_RE`. -/
def externalCloseSpoof : Pattern PyChar :=
  tokens ["<", "/", "external_event_data", ">"]

/-- The characters `_LABEL_RE` leaves. -/
def isLabel (c : PyChar) : Bool :=
  codeIn 0x41 0x5a c || codeIn 0x61 0x7a c || codeIn 0x30 0x39 c || codeIn 0x2d 0x2e c ||
    codeIn 0x5f 0x5f c

end Patterns

def stripControl (text : PyStr) : PyStr :=
  (substitute ansi [] 0 text).filter fun c => !isControl c

/-- The opening delimiter of `fence` with its label. -/
def fenceOpening (label : PyStr) : PyStr :=
  let safeLabel := label.filter isLabel
  fenceOpen.dropLast ++ ofText " label=\"" ++
    (if safeLabel = [] then ofText "external" else safeLabel) ++ ofText "\">"

def fence (text label : PyStr) : PyStr :=
  let clean := substitute closeSpoof (ofText "(waitbus:untrusted)") 0 (stripControl text)
  fenceOpening label ++ clean ++ fenceClose

def wrapExternal (text : PyStr) : PyStr :=
  let clean := substitute externalCloseSpoof (ofText "(external_event_data)") 0 (stripControl text)
  externalOpen ++ clean ++ externalClose

section Enclosing

def fenceTag : Tag PyChar :=
  ⟨.scalar '<', ofText "/waitbus:untrusted", .scalar '>', by decide, by decide⟩

def externalTag : Tag PyChar :=
  ⟨.scalar '<', ofText "/external_event_data", .scalar '>', by decide, by decide⟩

theorem fenceTag_text : fenceTag.text = fenceClose := by decide

theorem externalTag_text : externalTag.text = externalClose := by decide

theorem closeSpoof_close (rest : PyStr) : closeSpoof (fenceClose ++ rest) = some rest := rfl

theorem externalCloseSpoof_close (rest : PyStr) :
    externalCloseSpoof (externalClose ++ rest) = some rest := rfl

theorem wrapExternal_encloses (text : PyStr) :
    Encloses externalOpen externalTag (wrapExternal text) := by
  rw [wrapExternal, ← externalTag_text]
  refine Encloses.intro (by decide) (by decide) ?_
  refine not_infix_substitute (by decide) (by decide) (fun text h => ?_) 0 _
  obtain ⟨rest, rfl⟩ := h
  have hmatch := externalCloseSpoof_close rest
  rw [← externalTag_text] at hmatch
  exact ne_of_eq_of_ne hmatch (Option.some_ne_none rest)

theorem lt_not_label {label : PyStr} : PyChar.scalar '<' ∉ label.filter isLabel := by
  rw [List.mem_filter]
  rintro ⟨-, h⟩
  exact absurd h (by decide)

theorem fenceOpening_free (label : PyStr) : ¬ fenceTag.text <:+: fenceOpening label := by
  have hlabel : PyChar.scalar '<' ∉
      (if label.filter isLabel = [] then ofText "external" else label.filter isLabel) := by
    split
    · decide
    · exact lt_not_label
  have hhead : fenceOpen.dropLast = .scalar '<' :: ofText "waitbus:untrusted" := by decide
  simp only [fenceOpening, hhead, List.cons_append, List.infix_cons_iff]
  rintro (h | h)
  · have hslash : ofText "/waitbus:untrusted>" <+: ofText "waitbus:untrusted" ++ _ :=
      (List.cons_prefix_cons.mp h).2
    exact absurd (List.cons_prefix_cons.mp hslash).1 (by decide)
  · have hmem : PyChar.scalar '<' ∈ fenceTag.text := List.mem_cons_self
    have hlt := h.subset hmem
    simp only [List.mem_append] at hlt
    rcases hlt with ((hlt | hlt) | hlt) | hlt
    · exact absurd hlt (by decide)
    · exact absurd hlt (by decide)
    · exact hlabel hlt
    · exact absurd hlt (by decide)

theorem fence_encloses (text label : PyStr) :
    Encloses (fenceOpening label) fenceTag (fence text label) := by
  have hlast : (fenceOpening label).getLast? = some fenceTag.last := by
    simp only [fenceOpening, List.getLast?_append]
    rfl
  simp only [fence]
  rw [← fenceTag_text]
  refine Encloses.intro hlast (fenceOpening_free label) ?_
  refine not_infix_substitute (by decide) (by decide) (fun text h => ?_) 0 _
  obtain ⟨rest, rfl⟩ := h
  have hmatch := closeSpoof_close rest
  rw [← fenceTag_text] at hmatch
  exact ne_of_eq_of_ne hmatch (Option.some_ne_none rest)

end Enclosing

section Unforgeable

theorem literal_word {letters : List Char} {text behind : PyStr}
    (h : literal letters text = some behind) : ∃ word, text = word ++ behind ∧
      word.length = letters.length ∧
      (∀ x ∈ word, ∃ letter ∈ letters, sameFold letter x = true) ∧
      ∀ rest, literal letters (word ++ rest) = some rest := by
  induction letters generalizing text with
  | nil =>
    exact ⟨[], Option.some.inj h, rfl, fun _ hx => absurd hx List.not_mem_nil, fun _ => rfl⟩
  | cons letter letters ih =>
    cases text with
    | nil => nomatch h
    | cons c text =>
      rw [literal] at h
      split at h
      · rename_i hfold
        obtain ⟨word, rfl, hlength, hword, hany⟩ := ih h
        refine ⟨c :: word, rfl, congrArg (· + 1) hlength, fun x hx => ?_, fun rest => ?_⟩
        · rcases List.mem_cons.mp hx with rfl | hx
          · exact ⟨letter, List.mem_cons_self, hfold⟩
          · obtain ⟨other, hother, hsame⟩ := hword x hx
            exact ⟨other, List.mem_cons_of_mem _ hother, hsame⟩
        · rw [List.cons_append, literal, if_pos hfold, hany]
      · nomatch h

theorem sameFold_space {letter : Char} {c : PyChar} (h : sameFold letter c = true)
    (hletter : isSpace (.scalar letter) = false) : isSpace c = false := by
  cases c with
  | surrogate unit => nomatch h
  | scalar c =>
    have hnot : ∀ n : Nat, c.toNat = n → (65 ≤ n ∧ n ≤ 90 ∨ n = 0x130 ∨ n = 0x131 ∨ n = 0x17f) →
        isSpace (.scalar c) = false := by
      rintro n rfl hn
      simp only [isSpace, Bool.or_eq_false_iff, Bool.and_eq_false_iff, decide_eq_false_iff_not,
        List.contains_eq_mem, List.mem_cons, List.not_mem_nil, or_false]
      omega
    simp only [sameFold, Bool.or_eq_true, Bool.and_eq_true, decide_eq_true_eq] at h
    rcases h with (h | ⟨-, h⟩) | ⟨-, h⟩
    · rw [Char.toLower] at h
      split at h
      · rename_i hupper
        exact hnot _ rfl (.inl hupper)
      · rwa [h]
    · rcases h with h | h <;> exact hnot _ h (by simp)
    · exact hnot _ h (by simp)

theorem tokens_cons (token next : String) (ts : List String) (text : PyStr) :
    tokens (token :: next :: ts) text =
      match literal token.toList text with
      | some behind => tokens (next :: ts) (behind.dropWhile isSpace)
      | none => none :=
  rfl

theorem spaced {p : Pattern PyChar} {middle more behind : PyStr} {d : PyChar}
    (hmore : middle.dropWhile isSpace = d :: more ++ behind) (hd : isSpace d = false)
    (hany : ∀ rest, p (d :: more ++ rest) = some rest) :
    ∃ gap, middle = gap ++ (d :: more) ++ behind ∧ (∀ x ∈ gap, isSpace x = true) ∧
      ∀ rest, p ((gap ++ (d :: more) ++ rest).dropWhile isSpace) = some rest := by
  have hblank : ∀ x ∈ middle.takeWhile isSpace, isSpace x = true := fun x hx =>
    List.mem_takeWhile_imp hx
  refine ⟨middle.takeWhile isSpace, ?_, hblank, fun rest => ?_⟩
  · rw [List.append_assoc, ← hmore, List.takeWhile_append_dropWhile]
  · rw [List.append_assoc, List.dropWhile_append_of_pos hblank, List.cons_append,
      List.dropWhile_cons_of_neg (by simp [hd]), ← List.cons_append, hany]

/-- What the tokens match is made of their letters and white space, and is matched again before
any text. -/
theorem tokens_word {ts : List String} (hne : ts ≠ [])
    (hts : ∀ token ∈ ts, token.toList ≠ [] ∧
      ∀ letter ∈ token.toList, isSpace (.scalar letter) = false)
    {text behind : PyStr} (h : tokens ts text = some behind) :
    ∃ c tail, text = c :: tail ++ behind ∧ isSpace c = false ∧
      (∀ x ∈ c :: tail, isSpace x = true ∨
        ∃ token ∈ ts, ∃ letter ∈ token.toList, sameFold letter x = true) ∧
      ∀ rest, tokens ts (c :: tail ++ rest) = some rest := by
  induction ts generalizing text with
  | nil => exact absurd rfl hne
  | cons token ts ih =>
    obtain ⟨hletters, hspaces⟩ := hts token List.mem_cons_self
    have hhead : ∀ word : PyStr, word.length = token.toList.length →
        (∀ x ∈ word, ∃ letter ∈ token.toList, sameFold letter x = true) →
        ∃ c tail, word = c :: tail ∧ isSpace c = false := by
      intro word hlength hword
      have hnonempty : word ≠ [] := by
        rintro rfl
        exact hletters (List.eq_nil_of_length_eq_zero hlength.symm)
      obtain ⟨c, tail, rfl⟩ := List.exists_cons_of_ne_nil hnonempty
      obtain ⟨letter, hletter, hfold⟩ := hword c List.mem_cons_self
      exact ⟨c, tail, rfl, sameFold_space hfold (hspaces letter hletter)⟩
    cases ts with
    | nil =>
      obtain ⟨word, rfl, hlength, hword, hany⟩ := @literal_word token.toList _ _ h
      obtain ⟨c, tail, rfl, hspace⟩ := hhead word hlength hword
      exact ⟨c, tail, rfl, hspace, fun x hx => .inr ⟨token, List.mem_cons_self, hword x hx⟩, hany⟩
    | cons next ts =>
      rw [tokens_cons] at h
      split at h
      · rename_i middle hliteral
        obtain ⟨word, rfl, hlength, hword, hany⟩ := literal_word hliteral
        obtain ⟨c, tail, rfl, hspace⟩ := hhead word hlength hword
        obtain ⟨d, more, hmore, hd, hmade, hlater⟩ := ih (List.cons_ne_nil next ts)
          (fun token htoken => hts token (List.mem_cons_of_mem _ htoken)) h
        obtain ⟨gap, rfl, hblank, hagain⟩ := spaced hmore hd hlater
        refine ⟨c, tail ++ (gap ++ (d :: more)), by simp, hspace, fun x hx => ?_, fun rest => ?_⟩
        · simp only [List.mem_cons, List.mem_append] at hx
          rcases hx with rfl | hx | hx | hx
          · exact .inr ⟨token, List.mem_cons_self, hword x List.mem_cons_self⟩
          · exact .inr ⟨token, List.mem_cons_self, hword x (List.mem_cons_of_mem _ hx)⟩
          · exact .inl (hblank x hx)
          · refine (hmade x (List.mem_cons.mpr hx)).imp_right ?_
            rintro ⟨other, hother, hletter⟩
            exact ⟨other, List.mem_cons_of_mem _ hother, hletter⟩
        · rw [← List.cons_append, List.append_assoc, tokens_cons, hany]
          exact hagain rest
      · cases h

theorem sameFold_lt {c : PyChar} (h : sameFold '<' c = true) : c = .scalar '<' := by
  cases c with
  | surrogate unit => nomatch h
  | scalar c =>
    have hlower : c.toLower = '<' := by simpa [sameFold] using h
    rw [Char.toLower] at hlower
    split at hlower
    · rename_i hupper
      have hlo : 65 ≤ c.val.toNat := hupper.1
      have hhi : c.val.toNat ≤ 90 := hupper.2
      have hval : (c.val + ('a'.val - 'A'.val)).toNat = 60 :=
        congrArg (fun d : Char => d.val.toNat) hlower
      rw [UInt32.toNat_add, show ('a'.val - 'A'.val).toNat = 32 from rfl] at hval
      omega
    · rw [hlower]

/-- A letter that no white space, `<` or `(` is taken for. -/
def isTokenLetter (letter : Char) : Bool :=
  !isSpace (.scalar letter) && !sameFold letter (.scalar '<') && !sameFold letter (.scalar '(')

theorem token_letters {ts : List String}
    (h : ts.all fun token => token.toList ≠ [] && token.toList.all isTokenLetter) :
    ∀ token ∈ ts, token.toList ≠ [] ∧ ∀ letter ∈ token.toList,
      isSpace (.scalar letter) = false ∧ sameFold letter (.scalar '<') = false ∧
        sameFold letter (.scalar '(') = false := by
  intro token htoken
  have hletters := List.all_eq_true.mp h token htoken
  rw [Bool.and_eq_true, decide_eq_true_iff, List.all_eq_true] at hletters
  refine ⟨hletters.1, fun letter hletter => ?_⟩
  simpa [isTokenLetter, and_assoc] using hletters.2 letter hletter

theorem tokens_anchored {next : String} {ts : List String}
    (hts : ∀ token ∈ next :: ts, token.toList ≠ [] ∧ ∀ letter ∈ token.toList,
      isSpace (.scalar letter) = false ∧ sameFold letter (.scalar '<') = false ∧
        sameFold letter (.scalar '(') = false) :
    Anchored (tokens ("<" :: next :: ts)) (.scalar '<') (.scalar '(') where
  word {text behind} h := by
    rw [tokens_cons] at h
    split at h
    · rename_i middle hliteral
      obtain ⟨word, rfl, hlength, hword, hany⟩ := literal_word hliteral
      obtain ⟨c, rfl⟩ := List.length_eq_one_iff.mp hlength
      obtain ⟨letter, hletter, hfold⟩ := hword c List.mem_cons_self
      obtain rfl := List.mem_singleton.mp hletter
      obtain rfl := sameFold_lt hfold
      obtain ⟨d, more, hmore, hd, hmade, hlater⟩ := tokens_word (List.cons_ne_nil next ts)
        (fun token htoken => ⟨(hts token htoken).1, fun letter hletter =>
          ((hts token htoken).2 letter hletter).1⟩) h
      obtain ⟨gap, rfl, hblank, hagain⟩ := spaced hmore hd hlater
      have hfree : ∀ x, isSpace x = false →
          (∀ token ∈ next :: ts, ∀ letter ∈ token.toList, sameFold letter x = false) →
          x ∉ gap ++ (d :: more) := by
        intro x hspace hother hx
        rcases List.mem_append.mp hx with hx | hx
        · rw [hblank x hx] at hspace
          nomatch hspace
        · rcases hmade x hx with hblank | ⟨token, htoken, letter, hletter, hfold⟩
          · rw [hblank] at hspace
            nomatch hspace
          · rw [hother token htoken letter hletter] at hfold
            nomatch hfold
      refine ⟨gap ++ (d :: more), by simp, hfree _ rfl fun token htoken letter hl =>
        ((hts token htoken).2 letter hl).2.1, ?_, fun rest => ?_⟩
      · rw [List.mem_cons, not_or]
        exact ⟨by decide, hfree _ rfl fun token htoken letter hl =>
          ((hts token htoken).2 letter hl).2.2⟩
      · have hsplit : PyChar.scalar '<' :: (gap ++ (d :: more)) ++ rest =
            [.scalar '<'] ++ (gap ++ (d :: more) ++ rest) := rfl
        rw [hsplit, tokens_cons, hany]
        exact hagain rest
    · nomatch h

theorem closeSpoof_anchored : Anchored closeSpoof (.scalar '<') (.scalar '(') :=
  tokens_anchored (token_letters (by decide))

theorem externalCloseSpoof_anchored :
    Anchored externalCloseSpoof (.scalar '<') (.scalar '(') :=
  tokens_anchored (token_letters (by decide))

theorem stripControl_clean {text : PyStr} {c : PyChar} (h : c ∈ stripControl text) :
    isControl c = false := by
  simpa using (List.mem_filter.mp h).2

theorem free_ansi {text : PyStr} (h : ∀ c ∈ text, isControl c = false) : Free ansi text := by
  intro part hpart
  match part with
  | [] => rfl
  | [_] => rfl
  | escape :: kind :: rest =>
    have hescape : escape.code ≠ 0x1b := by
      intro hcode
      have hclean := h escape (hpart.subset List.mem_cons_self)
      simp [isControl, codeIn, hcode] at hclean
    rw [ansi, if_pos hescape]

theorem stripControl_fixed {text : PyStr} (h : ∀ c ∈ text, isControl c = false) :
    stripControl text = text := by
  rw [stripControl, (free_ansi h).substitute_eq, List.filter_eq_self]
  simpa using h

/-- One pass leaves a text that holds no control character and no match, so that another finds
nothing to do. -/
structure Settled (p : Pattern PyChar) (repl text : PyStr) : Prop where
  free : Free p (substitute p repl 0 (stripControl text))
  again : substitute p repl 0 (stripControl (substitute p repl 0 (stripControl text))) =
    substitute p repl 0 (stripControl text)

theorem settled {p : Pattern PyChar} (h : Anchored p (.scalar '<') (.scalar '(')) {repl : PyStr}
    (hfirst : PyChar.scalar '<' ∉ PyChar.scalar '(' :: repl)
    (hrepl : ∀ c ∈ PyChar.scalar '(' :: repl, isControl c = false) (text : PyStr) :
    Settled p (.scalar '(' :: repl) text := by
  have hfree := h.free_substitute hfirst 0 (stripControl text)
  refine ⟨hfree, ?_⟩
  rw [stripControl_fixed fun c hc => ?_, hfree.substitute_eq]
  exact (mem_substitute hc).elim (hrepl c) stripControl_clean

theorem fenceOpening_matches (label : PyStr) (left : PyStr) (hne : left ≠ [])
    (hleft : left <:+ fenceOpening label) (rest : PyStr) : closeSpoof (left ++ rest) = none := by
  have hlabel : PyChar.scalar '<' ∉
      (if label.filter isLabel = [] then ofText "external" else label.filter isLabel) := by
    split
    · decide
    · exact lt_not_label
  have hhead : fenceOpen.dropLast = .scalar '<' :: .scalar 'w' :: ofText "aitbus:untrusted" := by
    decide
  simp only [fenceOpening, hhead, List.cons_append] at hleft
  rcases List.suffix_cons_iff.mp hleft with rfl | hleft
  · rfl
  · obtain ⟨c, left, rfl⟩ := List.exists_cons_of_ne_nil hne
    refine closeSpoof_anchored.none_of_ne (fun hc => ?_) _
    rw [hc] at hleft
    have hlt := hleft.subset List.mem_cons_self
    simp only [List.mem_cons, List.mem_append] at hlt
    rcases hlt with hlt | ((hlt | hlt) | hlt) | hlt
    · exact absurd hlt (by decide)
    · exact absurd hlt (by decide)
    · exact absurd hlt (by decide)
    · exact hlabel hlt
    · exact absurd hlt (by decide)

theorem externalOpen_matches (left : PyStr) (hne : left ≠ []) (hleft : left <:+ externalOpen)
    (rest : PyStr) : externalCloseSpoof (left ++ rest) = none := by
  have hhead : externalOpen = .scalar '<' :: .scalar 'e' :: ofText "xternal_event_data>" := by
    decide
  rw [hhead] at hleft
  rcases List.suffix_cons_iff.mp hleft with rfl | hleft
  · rfl
  · obtain ⟨c, left, rfl⟩ := List.exists_cons_of_ne_nil hne
    refine externalCloseSpoof_anchored.none_of_ne (fun hc => ?_) _
    rw [hc] at hleft
    exact absurd (hleft.subset List.mem_cons_self) (by decide)

/-- Neither delimiter can be forged: what matches its pattern, in whatever case and with whatever
white space, is the one at the end, and a second cleaning finds nothing. -/
theorem fence_unforgeable :
    (∀ text label, OnlyEnd closeSpoof fenceClose (fence text label)) ∧
    (∀ text, OnlyEnd externalCloseSpoof externalClose (wrapExternal text)) ∧
    (∀ text, Settled closeSpoof (ofText "(waitbus:untrusted)") text) ∧
    (∀ text, Settled externalCloseSpoof (ofText "(external_event_data)") text) ∧
    (∀ text, (∀ c ∈ stripControl text, isControl c = false) ∧ Free ansi (stripControl text) ∧
      stripControl (stripControl text) = stripControl text) := by
  have hfence : ∀ text, Settled closeSpoof (ofText "(waitbus:untrusted)") text :=
    settled closeSpoof_anchored (by decide) (by decide)
  have hexternal : ∀ text, Settled externalCloseSpoof (ofText "(external_event_data)") text :=
    settled externalCloseSpoof_anchored (by decide) (by decide)
  refine ⟨fun text label => ?_, fun text => ?_, hfence, hexternal, fun text => ?_⟩
  · exact closeSpoof_anchored.onlyEnd (closeSpoof_close []) (fenceOpening_matches label)
      (hfence text).free
  · exact externalCloseSpoof_anchored.onlyEnd (externalCloseSpoof_close []) externalOpen_matches
      (hexternal text).free
  · have hclean : ∀ c ∈ stripControl text, isControl c = false := fun c => stripControl_clean
    exact ⟨hclean, free_ansi hclean, stripControl_fixed hclean⟩

end Unforgeable

end Waitbus.Untrusted
