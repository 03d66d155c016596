import Waitbus.Python
import Mathlib

/-! SQLite's tokens. A text of any alphabet with a face is cut where SQLite cuts what its faces
spell, so that its elements can carry more than their characters. -/

namespace Waitbus.SqliteLexer
open Python

section Classes

def isDigit (c : PyChar) : Bool :=
  48 ≤ PyChar.code c && PyChar.code c ≤ 57

def isLetter (c : PyChar) : Bool :=
  (65 ≤ PyChar.code c && PyChar.code c ≤ 90) || (97 ≤ PyChar.code c && PyChar.code c ≤ 122)

/-- `IdChar`: every code point from 0x80 on is one. -/
def isIdChar (c : PyChar) : Bool :=
  isLetter c || isDigit c || c = .scalar '_' || c = .scalar '$' || 0x80 ≤ PyChar.code c

/-- `sqlite3Isspace`. -/
def isBlank (c : PyChar) : Bool :=
  (9 ≤ PyChar.code c && PyChar.code c ≤ 13) || PyChar.code c = 32

/-- A vertical tab goes on a run of spaces but does not begin one. -/
def beginsBlank (c : PyChar) : Bool :=
  isBlank c && PyChar.code c ≠ 11

end Classes

section Lengths

def span (p : PyChar → Bool) (text : PyStr) : Nat :=
  (text.takeWhile p).length

/-- Up to the end of the first `*/`. -/
def blockEnd : PyStr → Option Nat
  | c :: d :: rest =>
    if c = .scalar '*' ∧ d = .scalar '/' then some 2 else (blockEnd (d :: rest)).map (· + 1)
  | _ => none

def quotedEnd (delim : PyChar) : PyStr → Option Nat
  | c :: d :: rest =>
    if c = delim then if d = delim then (quotedEnd delim rest).map (· + 2) else some 1
    else (quotedEnd delim (d :: rest)).map (· + 1)
  | [c] => if c = delim then some 1 else none
  | [] => none

/-- Up to the end of the first `]`. -/
def bracketEnd (text : PyStr) : Option Nat :=
  if .scalar ']' ∈ text then some (span (· ≠ .scalar ']') text + 1) else none

def exponentLen : PyStr → Nat
  | e :: rest =>
    if e = .scalar 'e' ∨ e = .scalar 'E' then
      match rest with
      | sign :: d :: _ =>
        if isDigit sign then span isDigit rest + 1
        else if (sign = .scalar '+' ∨ sign = .scalar '-') ∧ isDigit d then
          span isDigit rest.tail + 2
        else 0
      | [d] => if isDigit d then 2 else 0
      | [] => 0
    else 0
  | [] => 0

def numberLen (text : PyStr) : Nat :=
  let whole := span isDigit text
  let point := whole + (if (text.drop whole).head? = some (.scalar '.') then
    span isDigit (text.drop (whole + 1)) + 1 else 0)
  let scaled := point + exponentLen (text.drop point)
  scaled + span isIdChar (text.drop scaled)

/-- The name of a variable; `named` when it has a character already. -/
def variableLen : Bool → PyStr → Nat
  | named, c :: d :: rest =>
    if isIdChar c then variableLen true (d :: rest) + 1
    else if c = .scalar '(' ∧ named then
      let inside := span (fun c => !isBlank c && c ≠ .scalar ')') (d :: rest)
      inside + 1 + (if ((d :: rest).drop inside).head? = some (.scalar ')') then 1 else 0)
    else if c = .scalar ':' ∧ d = .scalar ':' then variableLen named rest + 2
    else 0
  | named, [c] => if isIdChar c ∨ (c = .scalar '(' ∧ named) then 1 else 0
  | _, [] => 0

end Lengths

section Tokens

inductive Kind where
  | blank
  | lineComment
  | blockComment
  | quoted
  | word
  | number
  | variable
  | semicolon
  | illegal
  | other
  deriving DecidableEq, Repr

def Kind.significant : Kind → Bool
  | .blank | .lineComment | .blockComment => false
  | _ => true

/-- A comment at the start of the text. A `/*` that ends the text is no comment, and one that is not
closed takes all of it. -/
def comment? : PyStr → Option (Kind × Nat)
  | c :: d :: rest =>
    if c = .scalar '-' ∧ d = .scalar '-' then
      some (.lineComment, span (· ≠ .scalar '\n') rest + 2)
    else if c = .scalar '/' ∧ d = .scalar '*' ∧ rest ≠ [] then
      some (.blockComment, (blockEnd rest).getD rest.length + 2)
    else none
  | _ => none

def isQuote (c : PyChar) : Bool :=
  c = .scalar '\'' || c = .scalar '"' || c = .scalar (Char.ofNat 96)

def isSigil (c : PyChar) : Bool :=
  c = .scalar '$' || c = .scalar '@' || c = .scalar ':' || c = .scalar '#'

/-- A quoted token, which takes the rest of the text if it is not closed. -/
def quotedToken (close : Option Nat) (rest : PyStr) : Kind × Nat :=
  match close with
  | some n => (.quoted, n + 1)
  | none => (.illegal, rest.length + 1)

def plainToken (c : PyChar) (rest : PyStr) : Kind × Nat :=
  if beginsBlank c then (.blank, span isBlank rest + 1)
  else if isQuote c then quotedToken (quotedEnd c rest) rest
  else if c = .scalar '[' then quotedToken (bracketEnd rest) rest
  else if isDigit c || (c = .scalar '.' && rest.head?.any isDigit) then
    (.number, numberLen (c :: rest))
  else if c = .scalar '?' then (.variable, span isDigit rest + 1)
  else if isSigil c then (.variable, variableLen false rest + 1)
  else if c = .scalar ';' then (.semicolon, 1)
  else if PyChar.code c = 0xfeff then (.blank, 1)
  else if isIdChar c then (.word, span isIdChar rest + 1)
  else (.other, 1)

/-- How a token that is no comment is cut. -/
inductive Cut (c : PyChar) (rest : PyStr) : Kind × Nat → Prop
  | blank (h : beginsBlank c = true) : Cut c rest (.blank, span isBlank rest + 1)
  | quote {token : Kind × Nat} (h : isQuote c = true)
      (htoken : quotedToken (quotedEnd c rest) rest = token) : Cut c rest token
  | bracket {token : Kind × Nat} (h : c = .scalar '[')
      (htoken : quotedToken (bracketEnd rest) rest = token) : Cut c rest token
  | number (h : (isDigit c || (c = .scalar '.' && rest.head?.any isDigit)) = true) :
      Cut c rest (.number, numberLen (c :: rest))
  | question (h : c = .scalar '?') : Cut c rest (.variable, span isDigit rest + 1)
  | sigil (h : isSigil c = true) : Cut c rest (.variable, variableLen false rest + 1)
  | semicolon (h : c = .scalar ';') : Cut c rest (.semicolon, 1)
  | mark (h : PyChar.code c = 0xfeff) : Cut c rest (.blank, 1)
  | word (h : isIdChar c = true) : Cut c rest (.word, span isIdChar rest + 1)
  | other (h : isIdChar c = false) : Cut c rest (.other, 1)

/-- `sqlite3GetToken`, but an operator of several characters is a token for each. -/
def getToken : PyStr → Kind × Nat
  | [] => (.other, 0)
  | c :: rest => (comment? (c :: rest)).getD (plainToken c rest)

variable {α : Type*} (face : α → PyChar)

/-- The tokens of a text, whose first characters are those of a token that has begun. -/
def tokens : Nat → List α → List (Kind × List α)
  | _, [] => []
  | left + 1, _ :: rest => tokens left rest
  | 0, x :: rest =>
    let token := getToken ((x :: rest).map face)
    (token.1, (x :: rest).take token.2) :: tokens (token.2 - 1) rest

def kept (blank : α) : Kind → List α → List α
  | .lineComment, _ => []
  | .blockComment, _ => [blank]
  | _, token => token

def uncomment (blank : α) (text : List α) : List α :=
  (tokens face 0 text).flatMap fun token => kept blank token.1 token.2

end Tokens

section Rules

variable {α : Type*} {face : α → PyChar} {text : PyStr} {c : PyChar} {rest : PyStr}

theorem span_append {p : PyChar → Bool} {run : PyStr} (hrun : ∀ c ∈ run, p c = true)
    (hrest : ∀ c ∈ rest.head?, p c = false) : span p (run ++ rest) = run.length := by
  have hnone : rest.takeWhile p = [] := by
    cases rest with
    | nil => rfl
    | cons c rest => exact List.takeWhile_cons_of_neg (by simp [hrest c rfl])
  rw [span, List.takeWhile_append_of_pos hrun, hnone, List.append_nil]

theorem take_span (p : PyChar → Bool) (text : PyStr) :
    text.take (span p text) = text.takeWhile p :=
  (List.prefix_iff_eq_take.mp (List.takeWhile_prefix p)).symm

theorem of_mem_take_span {p : PyChar → Bool} {text : PyStr} (h : c ∈ text.take (span p text)) :
    p c = true := by
  rw [take_span] at h
  exact List.mem_takeWhile_imp h

theorem drop_span (p : PyChar → Bool) (text : PyStr) :
    text.drop (span p text) = text.dropWhile p := by
  have hsplit := List.takeWhile_append_dropWhile (p := p) (l := text)
  calc text.drop (span p text)
      = (text.takeWhile p ++ text.dropWhile p).drop (text.takeWhile p).length := by
        rw [hsplit]
        rfl
    _ = text.dropWhile p := List.drop_left

theorem numberLen_pos (h : (isDigit c || (c = .scalar '.' && rest.head?.any isDigit)) = true) :
    1 ≤ numberLen (c :: rest) := by
  have hpoint : 1 ≤ span isDigit (c :: rest) +
      (if ((c :: rest).drop (span isDigit (c :: rest))).head? = some (.scalar '.') then
        span isDigit ((c :: rest).drop (span isDigit (c :: rest) + 1)) + 1 else 0) := by
    by_cases hdigit : isDigit c = true
    · rw [span, List.takeWhile_cons_of_pos hdigit, List.length_cons]
      omega
    · have hdot : c = .scalar '.' := by simp_all
      rw [span, List.takeWhile_cons_of_neg hdigit, List.length_nil, List.drop_zero,
        List.head?_cons, if_pos (congrArg some hdot)]
      omega
  rw [numberLen]
  omega

theorem quotedToken_pos (close : Option Nat) : 1 ≤ (quotedToken close rest).2 := by
  cases close <;> exact Nat.le_add_left ..

theorem quotedToken_kind {close : Option Nat} {kind : Kind} {n : Nat}
    (h : quotedToken close rest = (kind, n)) : kind = .quoted ∨ kind = .illegal := by
  cases close with
  | none => exact .inr (Prod.mk.inj h).1.symm
  | some n => exact .inl (Prod.mk.inj h).1.symm

theorem not_quotedToken {close : Option Nat} {kind : Kind} {n : Nat} {P : Prop}
    (h : quotedToken close rest = (kind, n)) (hquoted : kind ≠ .quoted)
    (hillegal : kind ≠ .illegal) : P :=
  (quotedToken_kind h).elim (fun hkind => absurd hkind hquoted) fun hkind => absurd hkind hillegal

theorem plainToken_cut (c : PyChar) (rest : PyStr) : Cut c rest (plainToken c rest) := by
  rw [plainToken]
  by_cases hblank : beginsBlank c = true
  · rw [if_pos hblank]
    exact .blank hblank
  rw [if_neg hblank]
  by_cases hquote : isQuote c = true
  · rw [if_pos hquote]
    exact .quote hquote rfl
  rw [if_neg hquote]
  by_cases hbracket : c = .scalar '['
  · rw [if_pos hbracket]
    exact .bracket hbracket rfl
  rw [if_neg hbracket]
  split
  · exact .number ‹_›
  split
  · exact .question ‹_›
  split
  · exact .sigil ‹_›
  split
  · exact .semicolon ‹_›
  split
  · exact .mark ‹_›
  split
  · exact .word ‹_›
  · exact .other (Bool.eq_false_iff.mpr ‹_›)

theorem plainToken_pos : 1 ≤ (plainToken c rest).2 := by
  have hcut := plainToken_cut c rest
  generalize plainToken c rest = token at hcut
  cases hcut with
  | quote _ htoken => exact htoken ▸ quotedToken_pos _
  | bracket _ htoken => exact htoken ▸ quotedToken_pos _
  | number h => exact numberLen_pos h
  | _ => exact Nat.le_add_left ..

theorem plainToken_kind (c : PyChar) (rest : PyStr) : (plainToken c rest).1 ≠ .lineComment ∧
    (plainToken c rest).1 ≠ .blockComment := by
  have hcut := plainToken_cut c rest
  generalize plainToken c rest = token at hcut
  obtain ⟨kind, n⟩ := token
  cases hcut with
  | quote _ htoken =>
    rcases quotedToken_kind htoken with rfl | rfl
    · exact ⟨nofun, nofun⟩
    · exact ⟨nofun, nofun⟩
  | bracket _ htoken =>
    rcases quotedToken_kind htoken with rfl | rfl
    · exact ⟨nofun, nofun⟩
    · exact ⟨nofun, nofun⟩
  | _ => exact ⟨nofun, nofun⟩

theorem getToken_cases (c : PyChar) (rest : PyStr) :
    (c = .scalar '-' ∧ rest.head? = some (.scalar '-') ∧
      getToken (c :: rest) = (.lineComment, span (· ≠ .scalar '\n') (c :: rest))) ∨
    (c = .scalar '/' ∧ ∃ inside, rest = .scalar '*' :: inside ∧ inside ≠ [] ∧
      getToken (c :: rest) = (.blockComment, (blockEnd inside).getD inside.length + 2)) ∨
    (¬(c = .scalar '-' ∧ rest.head? = some (.scalar '-')) ∧
      ¬(c = .scalar '/' ∧ ∃ inside, rest = .scalar '*' :: inside ∧ inside ≠ []) ∧
      getToken (c :: rest) = plainToken c rest) := by
  cases rest with
  | nil => exact .inr (.inr ⟨by simp, by simp, rfl⟩)
  | cons d rest =>
    simp only [getToken, comment?, List.head?_cons, Option.some.injEq, List.cons.injEq]
    split_ifs with hline hblock
    · obtain ⟨rfl, rfl⟩ := hline
      exact .inl ⟨rfl, rfl, by simp [span]⟩
    · exact .inr (.inl ⟨hblock.1, rest, ⟨hblock.2.1, rfl⟩, hblock.2.2, rfl⟩)
    · refine .inr (.inr ⟨hline, ?_, rfl⟩)
      rintro ⟨hslash, inside, ⟨hstar, rfl⟩, hne⟩
      exact hblock ⟨hslash, hstar, hne⟩

theorem cut_of_token {kind : Kind} {n : Nat} (h : getToken (c :: rest) = (kind, n))
    (hline : kind ≠ .lineComment) (hblock : kind ≠ .blockComment) : Cut c rest (kind, n) := by
  rcases getToken_cases c rest with ⟨-, -, hcase⟩ | ⟨-, inside, -, -, hcase⟩ | ⟨-, -, hcase⟩
  · rw [hcase] at h
    exact absurd (Prod.mk.inj h).1.symm hline
  · rw [hcase] at h
    exact absurd (Prod.mk.inj h).1.symm hblock
  · rw [← h, hcase]
    exact plainToken_cut c rest

theorem semicolon_token {n : Nat} (h : getToken (c :: rest) = (.semicolon, n)) :
    c = .scalar ';' ∧ n = 1 := by
  cases cut_of_token h nofun nofun with
  | semicolon hc => exact ⟨hc, rfl⟩
  | quote _ htoken => exact not_quotedToken htoken nofun nofun
  | bracket _ htoken => exact not_quotedToken htoken nofun nofun

theorem word_token {n : Nat} (h : getToken (c :: rest) = (.word, n)) :
    isIdChar c = true ∧ n = span isIdChar rest + 1 := by
  cases cut_of_token h nofun nofun with
  | word hc => exact ⟨hc, rfl⟩
  | quote _ htoken => exact not_quotedToken htoken nofun nofun
  | bracket _ htoken => exact not_quotedToken htoken nofun nofun

theorem tokens_skip (n : Nat) (xs : List α) : tokens face n xs = tokens face 0 (xs.drop n) := by
  induction n generalizing xs with
  | zero => rw [List.drop_zero]
  | succ n ih =>
    cases xs with
    | nil => rfl
    | cons x rest => rw [tokens, ih, List.drop_succ_cons]

theorem getToken_pos : 1 ≤ (getToken (c :: rest)).2 := by
  rcases getToken_cases c rest with ⟨rfl, -, h⟩ | ⟨-, inside, -, -, h⟩ | ⟨-, -, h⟩
  · rw [h, span, List.takeWhile_cons_of_pos (by decide), List.length_cons]
    exact Nat.le_add_left ..
  · rw [h]
    exact Nat.le_add_left ..
  · rw [h]
    exact plainToken_pos

theorem tokens_cons (x : α) (xs : List α) : tokens face 0 (x :: xs) =
    ((getToken ((x :: xs).map face)).1, (x :: xs).take (getToken ((x :: xs).map face)).2) ::
      tokens face 0 ((x :: xs).drop (getToken ((x :: xs).map face)).2) := by
  have hpos : 1 ≤ (getToken ((x :: xs).map face)).2 := getToken_pos
  obtain ⟨n, hn⟩ : ∃ n, (getToken ((x :: xs).map face)).2 = n + 1 :=
    ⟨_, (Nat.sub_add_cancel hpos).symm⟩
  rw [tokens, tokens_skip, hn, Nat.add_sub_cancel, List.drop_succ_cons]

/-- What holds of the empty text, and of every text where it holds behind the first token, holds of
every text. -/
theorem token_induction (face : α → PyChar) {P : List α → Prop} (nil : P [])
    (cons : ∀ x xs, P ((x :: xs).drop (getToken ((x :: xs).map face)).2) → P (x :: xs))
    (xs : List α) : P xs := by
  induction hlen : xs.length using Nat.strong_induction_on generalizing xs with
  | _ len ih =>
    cases xs with
    | nil => exact nil
    | cons x xs =>
      refine cons x xs (ih _ ?_ _ rfl)
      have hpos : 1 ≤ (getToken ((x :: xs).map face)).2 := getToken_pos
      rw [List.length_drop, ← hlen, List.length_cons]
      omega

theorem tokens_flatten (xs : List α) : ((tokens face 0 xs).map (·.2)).flatten = xs := by
  induction xs using token_induction face with
  | nil => rfl
  | cons x xs ih =>
    rw [tokens_cons, List.map_cons, List.flatten_cons, ih, List.take_append_drop]

theorem map_tokens (n : Nat) (xs : List α) : tokens id n (xs.map face) =
    (tokens face n xs).map fun token => (token.1, token.2.map face) := by
  induction xs generalizing n with
  | nil => rfl
  | cons x xs ih =>
    cases n with
    | succ n => exact ih n
    | zero =>
      rw [List.map_cons, tokens, tokens, List.map_id, ih, List.map_cons, List.map_take,
        List.map_cons]

theorem map_uncomment (blank : α) (xs : List α) : (uncomment face blank xs).map face =
    uncomment id (face blank) (xs.map face) := by
  rw [uncomment, uncomment, map_tokens, List.map_flatMap, List.flatMap_map]
  refine List.flatMap_congr fun token _ => ?_
  obtain ⟨kind, run⟩ := token
  cases kind <;> rfl

/-- A token begins where the text is cut, and what is behind it is cut as a text of its own. -/
theorem tokens_split {xs : List α} {before later : List (Kind × List α)} {kind : Kind}
    {run : List α} (h : tokens face 0 xs = before ++ (kind, run) :: later) :
    ∃ x ys n, xs = (before.map (·.2)).flatten ++ x :: ys ∧
      getToken ((x :: ys).map face) = (kind, n) ∧ run = (x :: ys).take n ∧
        later = tokens face 0 ((x :: ys).drop n) := by
  induction xs using token_induction face generalizing before with
  | nil => exact absurd h.symm (List.append_ne_nil_of_right_ne_nil before (List.cons_ne_nil _ _))
  | cons x xs ih =>
    rw [tokens_cons] at h
    cases before with
    | cons first before =>
      obtain ⟨hfirst, hlater⟩ := List.cons.inj h
      obtain ⟨y, ys, n, hxs, hrest⟩ := ih hlater
      refine ⟨y, ys, n, ?_, hrest⟩
      rw [← hfirst, List.map_cons, List.flatten_cons, List.append_assoc, ← hxs,
        List.take_append_drop]
    | nil =>
      obtain ⟨htoken, hlater⟩ := List.cons.inj h
      obtain ⟨hkind, hrun⟩ := Prod.mk.inj htoken
      exact ⟨x, xs, _, rfl, Prod.ext hkind rfl, hrun.symm, hlater.symm⟩

end Rules

section Ends

variable {text : PyStr} {c : PyChar} {rest : PyStr}

theorem run_ne_nil {α : Type*} {face : α → PyChar} {xs run : List α} {kind : Kind}
    {before later : List (Kind × List α)} (h : tokens face 0 xs = before ++ (kind, run) :: later) :
    run ≠ [] := by
  obtain ⟨x, ys, n, -, htoken, rfl, -⟩ := tokens_split h
  have hpos : 1 ≤ n := by
    have hpos : 1 ≤ (getToken (face x :: ys.map face)).2 := getToken_pos
    rwa [← List.map_cons, htoken] at hpos
  rw [Ne, List.take_eq_nil_iff]
  rintro (hzero | hnil)
  · omega
  · nomatch hnil

theorem tokens_suffix {α : Type*} {face : α → PyChar} {xs : List α}
    {before after : List (Kind × List α)} (h : tokens face 0 xs = before ++ after) :
    tokens face 0 (after.map (·.2)).flatten = after := by
  cases after with
  | nil => rfl
  | cons token later =>
    obtain ⟨x, ys, n, -, htoken, hrun, hlater⟩ := tokens_split h
    have hwhole : tokens face 0 (x :: ys) = token :: later := by
      rw [tokens_cons, htoken, ← hrun, ← hlater]
    rw [← hwhole, tokens_flatten]

theorem head_drop_span {p : PyChar → Bool} (h : c ∈ (text.drop (span p text)).head?) :
    p c = false := by
  have hnot := List.head?_dropWhile_not p text
  rw [drop_span, Option.mem_def] at h
  rw [h] at hnot
  simpa using hnot

theorem head_drop_numberLen (h : c ∈ (text.drop (numberLen text)).head?) : isIdChar c = false := by
  rw [numberLen, ← List.drop_drop] at h
  exact head_drop_span h

theorem last_take_span {p : PyChar → Bool} {z : PyChar}
    (h : z ∈ ((c :: rest).take (span p rest + 1)).getLast?) : z = c ∨ p z = true := by
  rw [List.take_succ_cons] at h
  rcases List.mem_cons.mp (List.mem_of_getLast? h) with rfl | h
  · exact .inl rfl
  · exact .inr (of_mem_take_span h)

theorem quotedEnd_last {delim : PyChar} {n : Nat} (h : quotedEnd delim text = some n) :
    (text.take n).getLast? = some delim := by
  fun_induction quotedEnd delim text generalizing n with
  | case1 rest ih =>
    obtain ⟨m, hm, rfl⟩ := Option.map_eq_some_iff.mp h
    rw [List.take_succ_cons, List.take_succ_cons, List.getLast?_cons, List.getLast?_cons, ih hm]
    rfl
  | case2 d rest hd =>
    rw [← Option.some.inj h]
    rfl
  | case3 c d rest hc ih =>
    obtain ⟨m, hm, rfl⟩ := Option.map_eq_some_iff.mp h
    rw [List.take_succ_cons, List.getLast?_cons, ih hm]
    rfl
  | case4 =>
    rw [← Option.some.inj h]
    rfl
  | case5 => nomatch h
  | case6 => nomatch h

theorem idChar_of_letter (h : isLetter c = true) : isIdChar c = true := by
  rw [isIdChar, h]
  rfl

theorem idChar_of_high (h : 0x80 ≤ PyChar.code c) : isIdChar c = true := by
  simp [isIdChar, h]

theorem idChar_of_low (h : PyChar.code c ≤ 32) : isIdChar c = false := by
  rw [Bool.eq_false_iff]
  intro hid
  simp only [isIdChar, isLetter, isDigit, Bool.or_eq_true, Bool.and_eq_true,
    decide_eq_true_eq] at hid
  rcases hid with (((hid | hid) | rfl) | rfl) | hid
  · omega
  · omega
  · exact absurd h (by decide)
  · exact absurd h (by decide)
  · omega

theorem idChar_of_blank (h : isBlank c = true) : isIdChar c = false := by
  refine idChar_of_low ?_
  simp only [isBlank, Bool.or_eq_true, Bool.and_eq_true, decide_eq_true_eq] at h
  omega

theorem word_begins (hid : isIdChar c = true) (hdigit : isDigit c = false)
    (hdollar : c ≠ .scalar '$') (hbom : PyChar.code c ≠ 0xfeff) (rest : PyStr) :
    getToken (c :: rest) = (.word, span isIdChar rest + 1) := by
  have hnot : ∀ d, isIdChar d = false → c ≠ d := by
    rintro d hd rfl
    rw [hd] at hid
    nomatch hid
  rcases getToken_cases c rest with ⟨h, -⟩ | ⟨h, -⟩ | ⟨-, -, h⟩
  · exact absurd h (hnot _ (by decide))
  · exact absurd h (hnot _ (by decide))
  · rw [h]
    have hcut := plainToken_cut c rest
    generalize plainToken c rest = token at hcut
    cases hcut with
    | word => rfl
    | other hno => exact absurd hno (by rw [hid]; decide)
    | mark hmark => exact absurd hmark hbom
    | blank hblank =>
      exact absurd hid (by rw [idChar_of_blank (Bool.and_eq_true_iff.mp hblank).1]; decide)
    | semicolon hc => exact absurd hc (hnot _ (by decide))
    | question hc => exact absurd hc (hnot _ (by decide))
    | bracket hc _ => exact absurd hc (hnot _ (by decide))
    | number hnumber =>
      rw [hdigit, Bool.false_or, Bool.and_eq_true, decide_eq_true_eq] at hnumber
      exact absurd hnumber.1 (hnot _ (by decide))
    | quote hquote _ =>
      simp only [isQuote, Bool.or_eq_true, decide_eq_true_eq] at hquote
      rcases hquote with (hc | hc) | hc <;> exact absurd hc (hnot _ (by decide))
    | sigil hsigil =>
      simp only [isSigil, Bool.or_eq_true, decide_eq_true_eq] at hsigil
      rcases hsigil with ((hc | hc) | hc) | hc
      · exact absurd hc hdollar
      all_goals exact absurd hc (hnot _ (by decide))

theorem bracketEnd_last {n : Nat} (h : bracketEnd text = some n) :
    (text.take n).getLast? = some (.scalar ']') := by
  rw [bracketEnd] at h
  split_ifs at h with hmem
  rw [← Option.some.inj h]
  have hdrop : text.drop (span (· ≠ .scalar ']') text) ≠ [] := by
    rw [drop_span]
    intro hnil
    have := List.dropWhile_eq_nil_iff.mp hnil _ hmem
    simp at this
  obtain ⟨d, rest, hrest⟩ := List.exists_cons_of_ne_nil hdrop
  have hd : d = .scalar ']' := by
    have hhead : d ∈ (text.drop (span (· ≠ .scalar ']') text)).head? := by
      rw [hrest]
      rfl
    simpa using head_drop_span hhead
  rw [List.take_add_one, ← List.head?_drop, hrest, hd]
  exact List.getLast?_concat

/-- Only a parenthesis ends the name of a variable before a character that could go on with it. -/
theorem variableLen_last {named : Bool} {d : PyChar}
    (hd : d ∈ (text.drop (variableLen named text)).head?) (hid : isIdChar d = true) :
    (text.take (variableLen named text)).getLast? = some (.scalar ')') := by
  fun_induction variableLen named text with
  | case1 named c e rest hc ih =>
    rw [List.take_succ_cons, List.getLast?_cons, ih hd]
    rfl
  | case2 named c e rest hc hparen inside =>
    split_ifs at hd ⊢ with hclose
    · rw [List.take_succ_cons, List.take_add_one, ← List.head?_drop, hclose, ← List.cons_append]
      exact List.getLast?_concat
    · have hstop := head_drop_span (c := d) hd
      have hblank : isBlank d = true := by
        by_contra hno
        have hparen : isBlank d = false → d = .scalar ')' := by simpa using hstop
        exact hclose (hd.trans (congrArg some (hparen (Bool.eq_false_iff.mpr hno))))
      exact absurd hid (by rw [idChar_of_blank hblank]; decide)
  | case3 named c e rest hc hparen hcolon ih =>
    rw [List.take_succ_cons, List.take_succ_cons, List.getLast?_cons, List.getLast?_cons, ih hd]
    rfl
  | case4 named c e rest hc hparen hcolon =>
    rw [Option.some.inj hd] at hc
    exact absurd hid hc
  | case5 named c hc =>
    nomatch hd
  | case6 named c hc =>
    rw [Option.some.inj hd] at hc
    exact absurd (.inl hid) hc
  | case7 => nomatch hd

theorem blockEnd_last {n : Nat} (h : blockEnd text = some n) :
    (text.take n).getLast? = some (.scalar '/') := by
  fun_induction blockEnd text generalizing n with
  | case1 c d rest hmark =>
    rw [← Option.some.inj h, hmark.1, hmark.2]
    rfl
  | case2 c d rest hmark ih =>
    obtain ⟨m, hm, rfl⟩ := Option.map_eq_some_iff.mp h
    rw [List.take_succ_cons, List.getLast?_cons, ih hm]
    rfl
  | case3 => nomatch h

theorem quotedToken_last {close : Option Nat} {kind : Kind} {n : Nat} {z d delim : PyChar}
    (htoken : quotedToken close rest = (kind, n))
    (hclose : ∀ n ∈ close, (rest.take n).getLast? = some delim)
    (hz : z ∈ ((c :: rest).take n).getLast?) (hd : d ∈ ((c :: rest).drop n).head?) : z = delim := by
  cases close with
  | none =>
    obtain ⟨-, rfl⟩ := Prod.mk.inj htoken
    have hnil : (c :: rest).drop (rest.length + 1) = [] := List.drop_length
    rw [hnil] at hd
    nomatch hd
  | some m =>
    obtain ⟨-, rfl⟩ := Prod.mk.inj htoken
    rw [List.take_succ_cons, List.getLast?_cons, hclose m rfl] at hz
    exact (Option.some.inj hz).symm

/-- What may stand right before a character of an identifier that another token begins with. -/
theorem getToken_last {kind : Kind} {n : Nat} {z d : PyChar}
    (htoken : getToken (c :: rest) = (kind, n)) (hz : z ∈ ((c :: rest).take n).getLast?)
    (hd : d ∈ ((c :: rest).drop n).head?) (hid : isIdChar d = true) :
    isIdChar z = false ∨ PyChar.code z = 0xfeff ∨ (kind = .variable ∧ isDigit z = true) := by
  rcases getToken_cases c rest with ⟨-, -, h⟩ | ⟨-, inside, rfl, -, h⟩ | ⟨-, -, h⟩
  · rw [h] at htoken
    obtain ⟨-, rfl⟩ := Prod.mk.inj htoken
    have hbreak : d = .scalar '\n' := by simpa using head_drop_span hd
    rw [hbreak] at hid
    exact absurd hid (by decide)
  · rw [h] at htoken
    obtain ⟨-, rfl⟩ := Prod.mk.inj htoken
    cases hend : blockEnd inside with
    | none =>
      rw [hend] at hd
      change d ∈ (inside.drop inside.length).head? at hd
      rw [List.drop_length] at hd
      nomatch hd
    | some m =>
      rw [hend] at hz
      change z ∈ (c :: .scalar '*' :: inside.take m).getLast? at hz
      rw [List.getLast?_cons, List.getLast?_cons, blockEnd_last hend] at hz
      obtain rfl : .scalar '/' = z := Option.some.inj hz
      exact .inl (by decide)
  · have hcut := plainToken_cut c rest
    rw [← h, htoken] at hcut
    cases hcut with
    | blank h =>
      rcases last_take_span hz with rfl | hz
      · exact .inl (idChar_of_blank (Bool.and_eq_true_iff.mp h).1)
      · exact .inl (idChar_of_blank hz)
    | quote h hquoted =>
      obtain rfl := quotedToken_last hquoted (fun n hn => quotedEnd_last hn) hz hd
      refine .inl ?_
      simp only [isQuote, Bool.or_eq_true, decide_eq_true_eq] at h
      rcases h with (rfl | rfl) | rfl <;> decide
    | bracket h hquoted =>
      obtain rfl := quotedToken_last hquoted (fun n hn => bracketEnd_last hn) hz hd
      exact .inl (by decide)
    | number h => exact absurd hid (by rw [head_drop_numberLen hd]; decide)
    | question h =>
      rcases last_take_span hz with rfl | hz
      · rw [h]
        exact .inl (by decide)
      · exact .inr (.inr ⟨rfl, hz⟩)
    | sigil h =>
      rw [List.take_succ_cons, List.getLast?_cons, variableLen_last hd hid] at hz
      obtain rfl : .scalar ')' = z := Option.some.inj hz
      exact .inl (by decide)
    | semicolon h =>
      obtain rfl : c = z := Option.some.inj hz
      rw [h]
      exact .inl (by decide)
    | mark h =>
      obtain rfl : c = z := Option.some.inj hz
      exact .inr (.inl h)
    | word h =>
      have hstop : d ∈ (rest.drop (span isIdChar rest)).head? := hd
      exact absurd hid (by rw [head_drop_span hstop]; decide)
    | other h =>
      obtain rfl : c = z := Option.some.inj hz
      exact .inl h

theorem last_before {α : Type*} {face : α → PyChar} {xs run : List α} {kind : Kind} {z d : α}
    {before later : List (Kind × List α)}
    (h : tokens face 0 xs = before ++ (kind, run) :: later)
    (hz : z ∈ (before.map (·.2)).flatten.getLast?) (hd : d ∈ run.head?)
    (hid : isIdChar (face d) = true) :
    ∃ token ∈ before.getLast?, z ∈ token.2.getLast? ∧ (isIdChar (face z) = false ∨
      PyChar.code (face z) = 0xfeff ∨ (token.1 = .variable ∧ isDigit (face z) = true)) := by
  rcases List.eq_nil_or_concat' before with rfl | ⟨init, ⟨kind', run'⟩, rfl⟩
  · nomatch hz
  rw [List.append_assoc, List.singleton_append] at h
  have hne := run_ne_nil h
  obtain ⟨x, ys, n, -, htoken, rfl, hlater⟩ := tokens_split h
  have hdrop : d ∈ ((x :: ys).drop n).head? := by
    have hflat : ((tokens face 0 ((x :: ys).drop n)).map (·.2)).flatten = (x :: ys).drop n :=
      tokens_flatten _
    rw [← hflat, ← hlater, List.map_cons, List.flatten_cons, List.head?_append,
      Option.mem_def.mp hd]
    rfl
  have hlast : z ∈ ((x :: ys).take n).getLast? := by
    rw [List.map_append, List.flatten_append, List.map_singleton, List.flatten_singleton,
      List.getLast?_append] at hz
    obtain ⟨y, hy⟩ := Option.isSome_iff_exists.mp (List.getLast?_isSome.mpr hne)
    rw [hy] at hz
    exact hy.trans hz
  refine ⟨_, List.getLast?_concat, hlast, ?_⟩
  rw [List.map_cons] at htoken
  refine getToken_last htoken ?_ ?_ hid
  · rw [← List.map_cons, ← List.map_take, List.getLast?_map, Option.mem_def.mp hlast]
    rfl
  · rw [← List.map_cons, ← List.map_drop, List.head?_map, Option.mem_def.mp hdrop]
    rfl

end Ends

end Waitbus.SqliteLexer
