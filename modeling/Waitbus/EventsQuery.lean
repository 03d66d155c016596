import Waitbus.Await
import Waitbus.SqliteLexer
import Waitbus.PatternSub
import Mathlib

/-! The statement gate of `events query`. Every check is made on a text from which patterns have
taken the comments, and most on one from which another has taken the literals in single quotes. -/

namespace Waitbus.EventsQuery
open Python SqliteLexer PatternSub

section Tables

def asciiUpper (c : PyChar) : PyChar :=
  match c with
  | .scalar c => .scalar c.toUpper
  | .surrogate unit => .surrogate unit

def isGap (c : PyChar) : Bool :=
  isSpace c || PyChar.code c = 0xfeff

theorem asciiUpper_of_not_letter {c : PyChar} (h : isLetter c = false) : asciiUpper c = c := by
  cases c with
  | surrogate unit => rfl
  | scalar c =>
    rw [asciiUpper, Char.toUpper]
    split_ifs with hlower
    · have hcode : 97 ≤ c.toNat ∧ c.toNat ≤ 122 := hlower
      simp [isLetter, PyChar.code, hcode] at h
    · rfl

theorem letter_of_upper {c : PyChar} (h : isLetter (asciiUpper c) = true) : isLetter c = true := by
  cases c with
  | surrogate unit => exact h
  | scalar c =>
    rw [asciiUpper, Char.toUpper] at h
    split_ifs at h with hlower
    · have hcode : 97 ≤ c.toNat ∧ c.toNat ≤ 122 := hlower
      simp [isLetter, PyChar.code, hcode]
    · exact h

theorem space_code {c : PyChar} (h : isSpace c = true) : PyChar.code c ≤ 32 ∨
    PyChar.code c ∈ [0x85, 0xa0, 0x1680, 0x2028, 0x2029, 0x202f, 0x205f, 0x3000] ∨
      (0x2000 ≤ PyChar.code c ∧ PyChar.code c ≤ 0x200a) := by
  cases c with
  | surrogate unit => nomatch h
  | scalar c =>
    simp only [isSpace, Bool.or_eq_true, Bool.and_eq_true, decide_eq_true_eq,
      List.contains_eq_mem] at h
    rcases h with ((h | h) | h) | h
    · exact .inl (by simp only [PyChar.code]; omega)
    · exact .inl (by simp only [PyChar.code]; omega)
    · exact .inr (.inr h)
    · exact .inr (.inl h)

theorem gap_not_word {c : PyChar} (h : isGap c = true) : isLetter c = false ∧ isDigit c = false ∧
    c ≠ .scalar '_' ∧ PyChar.code c ≠ 0x17f ∧ PyChar.code c ≠ 0x131 ∧
      ¬(0x660 ≤ PyChar.code c ∧ PyChar.code c ≤ 0x669) := by
  have hcode : PyChar.code c ≤ 32 ∨ (0x80 ≤ PyChar.code c ∧ PyChar.code c ≠ 0x17f ∧
      PyChar.code c ≠ 0x131 ∧ ¬(0x660 ≤ PyChar.code c ∧ PyChar.code c ≤ 0x669)) := by
    simp only [isGap, Bool.or_eq_true, decide_eq_true_eq] at h
    rcases h with h | h
    · rcases space_code h with h | h | h
      · exact .inl h
      · simp only [List.mem_cons, List.not_mem_nil, or_false] at h
        omega
      · omega
    · omega
  refine ⟨?_, ?_, ?_, by omega, by omega, by omega⟩
  · simp only [isLetter, Bool.or_eq_false_iff, Bool.and_eq_false_iff, decide_eq_false_iff_not]
    omega
  · simp only [isDigit, Bool.and_eq_false_iff, decide_eq_false_iff_not]
    omega
  · rintro rfl
    revert hcode
    decide

/-- What Python takes from the Unicode tables: `str.upper`, the word characters of a pattern, what a
letter of a pattern matches under `re.IGNORECASE`, and the decimal digits. -/
structure Unicode where
  upper : PyChar → PyStr
  isWord : PyChar → Bool
  caseless : PyChar → PyChar → Bool
  digit : PyChar → Option (Fin 10)
  upper_ascii : ∀ c, PyChar.code c < 0x80 → upper c = [asciiUpper c]
  isWord_ascii : ∀ c, PyChar.code c < 0x80 → isWord c = (isLetter c || isDigit c || c = .scalar '_')
  upper_gap : ∀ c, isGap c = true → upper c = [c]
  isWord_gap : ∀ c, isGap c = true → isWord c = false
  caseless_ascii : ∀ c d, PyChar.code c < 0x80 → caseless c d = (asciiUpper c = d : Bool)
  digit_gap : ∀ c, isGap c = true → digit c = none
  digit_ascii : ∀ c, PyChar.code c < 0x80 →
    digit c = if isDigit c then some (Fin.ofNat 10 (PyChar.code c - 48)) else none

/-- A table to evaluate the model with: the long s, the dotless i and the Arabic digits. -/
def Unicode.reference : Unicode where
  upper c :=
    if PyChar.code c = 0x17f then [.scalar 'S'] else if PyChar.code c = 0x131 then [.scalar 'I']
    else [asciiUpper c]
  isWord c := isLetter c || isDigit c || c = .scalar '_' || (0x80 ≤ PyChar.code c && !isGap c)
  caseless c d :=
    asciiUpper c = d || (PyChar.code c = 0x17f && d = .scalar 'S') ||
      (PyChar.code c = 0x131 && d = .scalar 'I')
  digit c :=
    if isDigit c then some (Fin.ofNat 10 (PyChar.code c - 48))
    else if 0x660 ≤ PyChar.code c ∧ PyChar.code c ≤ 0x669 then
      some (Fin.ofNat 10 (PyChar.code c - 0x660))
    else none
  upper_ascii c hc := by rw [if_neg (by omega), if_neg (by omega)]
  isWord_ascii c hc := by simp only [Nat.not_le.mpr hc, decide_false, Bool.false_and, Bool.or_false]
  upper_gap c hc := by
    obtain ⟨hletter, -, -, hlong, hdotless, -⟩ := gap_not_word hc
    rw [if_neg hlong, if_neg hdotless, asciiUpper_of_not_letter hletter]
  isWord_gap c hc := by
    obtain ⟨hletter, hdigit, hscore, -, -, -⟩ := gap_not_word hc
    simp [hletter, hdigit, hscore, hc]
  caseless_ascii c d hc := by
    have hlong : PyChar.code c ≠ 0x17f := by omega
    have hdotless : PyChar.code c ≠ 0x131 := by omega
    simp only [hlong, hdotless, decide_false, Bool.false_and, Bool.or_false]
  digit_gap c hc := by
    obtain ⟨-, hdigit, -, -, -, harabic⟩ := gap_not_word hc
    rw [hdigit, if_neg harabic]
    rfl
  digit_ascii c hc := by
    have hno : ¬(0x660 ≤ PyChar.code c ∧ PyChar.code c ≤ 0x669) := by omega
    rw [if_neg hno]

end Tables

section Patterns

/-- `_BLOCK_COMMENT_RE`. -/
def blockComment? : PyStr → Option Nat
  | c :: d :: rest =>
    if c = .scalar '/' ∧ d = .scalar '*' then (blockEnd rest).map (· + 2) else none
  | _ => none

/-- `_LINE_COMMENT_RE`. -/
def lineComment? : PyStr → Option Nat
  | c :: d :: rest =>
    if c = .scalar '-' ∧ d = .scalar '-' then some (span (· ≠ .scalar '\n') rest + 2) else none
  | _ => none

/-- `(?:[^']|'')*'`: where no quote closes the literal, the last doubled one that is given back. -/
def closing : PyStr → Option Nat
  | c :: d :: rest =>
    if c = .scalar '\'' then
      if d = .scalar '\'' then ((closing rest).map (· + 2)).orElse fun _ => some 1 else some 1
    else (closing (d :: rest)).map (· + 1)
  | [c] => if c = .scalar '\'' then some 1 else none
  | [] => none

/-- `_STRING_LITERAL_RE`. -/
def stringLiteral? : PyStr → Option Nat
  | [] => none
  | c :: rest => if c = .scalar '\'' then (closing rest).map (· + 1) else none

variable {α : Type*} (face : α → PyChar) (blank : α)

/-- The substitutions of `_strip_comments`. -/
def withoutComments (sql : List α) : List α :=
  resub face lineComment? [] 0 (resub face blockComment? [blank] 0 sql)

/-- The substitution of `_strip_strings`. -/
def withoutStrings (sql : List α) : List α :=
  resub face stringLiteral? [blank] 0 sql

end Patterns

section Gate

inductive Rejected where
  | empty
  | commentOnly
  | multiStatement
  | leadingKeyword (firstWord : PyStr)
  | forbiddenToken (token : String)
  deriving DecidableEq, Repr

def stripComments (sql : PyStr) : PyStr :=
  withoutComments id (.scalar ' ') sql

def stripStrings (sql : PyStr) : PyStr :=
  withoutStrings id (.scalar ' ') sql

/-- The tail of `partition(";")`. -/
def checkSingleStatement (sqlNoComments : PyStr) : Except Rejected Unit :=
  let tail := ((stripStrings sqlNoComments).dropWhile (· ≠ .scalar ';')).tail
  if strip tail = [] then .ok () else .error .multiStatement

def allowedLeadingKeywords : List String :=
  ["SELECT", "WITH"]

def forbiddenTokens : List String :=
  ["PRAGMA", "ATTACH", "DETACH"]

variable (U : Unicode)

def upper (s : PyStr) : PyStr :=
  s.flatMap U.upper

/-- `re.split(r"[\s(;]", text, maxsplit=1)[0]`. -/
def firstWord (text : PyStr) : PyStr :=
  text.takeWhile fun c => !(isSpace c || c = .scalar '(' || c = .scalar ';')

def checkLeadingKeyword (sqlNoComments : PyStr) : Except Rejected Unit :=
  let text := sqlNoComments.dropWhile isSpace
  if text = [] then .error .empty
  else
    let word := upper U (firstWord text)
    if allowedLeadingKeywords.any fun keyword => word = ofText keyword then .ok ()
    else .error (.leadingKeyword word)

/-- `re.search(rf"\b{token}\b", text)`, where `afterWord` tells of the character before `text`. -/
def findsToken (token : PyStr) : Bool → PyStr → Bool
  | _, [] => false
  | afterWord, c :: rest =>
    (!afterWord && token.isPrefixOf (c :: rest) &&
      !((c :: rest).drop token.length).head?.any U.isWord) || findsToken token (U.isWord c) rest

def checkForbiddenTokens (sqlNoComments : PyStr) : Except Rejected Unit :=
  let scanText := upper U (stripStrings sqlNoComments)
  match forbiddenTokens.find? fun token => findsToken U (ofText token) false scanText with
  | some token => .error (.forbiddenToken token)
  | none => .ok ()

def validate (sql : PyStr) : Except Rejected PyStr := do
  if strip sql = [] then throw .empty
  let stripped := stripComments sql
  if strip stripped = [] then throw .commentOnly
  checkSingleStatement stripped
  checkLeadingKeyword U stripped
  checkForbiddenTokens U stripped
  return strip stripped

theorem validate_ok {U : Unicode} {sql out : PyStr} (h : validate U sql = .ok out) :
    out = strip (stripComments sql) ∧ checkSingleStatement (stripComments sql) = .ok () ∧
      checkLeadingKeyword U (stripComments sql) = .ok () ∧
        checkForbiddenTokens U (stripComments sql) = .ok () := by
  simp only [validate, bind, Except.bind, throw, throwThe, MonadExceptOf.throw, pure,
    Except.pure] at h
  split_ifs at h with hempty hcomments
  cases hsingle : checkSingleStatement (stripComments sql) with
  | error e =>
    rw [hsingle] at h
    nomatch h
  | ok _ =>
    cases hleading : checkLeadingKeyword U (stripComments sql) with
    | error e =>
      rw [hsingle, hleading] at h
      nomatch h
    | ok _ =>
      cases hforbidden : checkForbiddenTokens U (stripComments sql) with
      | error e =>
        rw [hsingle, hleading, hforbidden] at h
        nomatch h
      | ok _ =>
        rw [hsingle, hleading, hforbidden] at h
        exact ⟨(Except.ok.inj h).symm, rfl, rfl, rfl⟩

end Gate

section Limit

variable (U : Unicode)

/-- What `\s+` leaves of a text. -/
def spaces? (text : PyStr) : Option PyStr :=
  if text.head?.any isSpace then some (text.dropWhile isSpace) else none

/-- What `\d+` takes of a text, and what it leaves. -/
def digits? (text : PyStr) : Option (PyStr × PyStr) :=
  let digits := text.takeWhile fun c => (U.digit c).isSome
  if digits = [] then none else some (digits, text.drop digits.length)

/-- What the letters of a pattern leave of a text, under `re.IGNORECASE`. -/
def letters? : PyStr → PyStr → Option PyStr
  | [], text => some text
  | letter :: letters, c :: text => if U.caseless c letter then letters? letters text else none
  | _ :: _, [] => none

/-- `(?P<rest>(?:\s+OFFSET\s+\d+)?)\s*\Z`. -/
def limitRest? (text : PyStr) : Option PyStr :=
  if text.all isSpace then some []
  else do
    let behind ← spaces? text
    let behind ← letters? U (ofText "OFFSET") behind
    let behind ← spaces? behind
    let (_, behind) ← digits? U behind
    if behind.all isSpace then some (text.take (text.length - behind.length)) else none

/-- `_OUTER_LIMIT_RE` at the start of a text: its groups. -/
def limitAt? (afterWord : Bool) (text : PyStr) : Option (PyStr × PyStr) := do
  if text.head?.any U.isWord = afterWord then none
  else
    let behind ← letters? U (ofText "LIMIT") text
    let behind ← spaces? behind
    let (n, behind) ← digits? U behind
    let rest ← limitRest? U behind
    some (n, rest)

/-- `_OUTER_LIMIT_RE.search`: what is before the match, and its groups. -/
def outerLimit? : Bool → PyStr → Option (PyStr × PyStr × PyStr)
  | _, [] => none
  | afterWord, c :: text =>
    match limitAt? U afterWord (c :: text) with
    | some groups => some ([], groups)
    | none => (outerLimit? (U.isWord c) text).map fun found => (c :: found.1, found.2)

/-- `sys.int_info.default_max_str_digits`. -/
def maxStrDigits : Nat :=
  4300

/-- `int` of a run of digits. -/
def readInt (digits : PyStr) : Except PyExc Int :=
  if maxStrDigits < digits.length then .error .valueError
  else .ok (digits.foldl (fun n c => 10 * n + ((U.digit c).elim 0 Fin.val)) 0 : Nat)

/-- `str` of an integer. -/
def writeInt (n : Int) : Except PyExc PyStr :=
  if maxStrDigits < (Nat.toDigits 10 n.natAbs).length then .error .valueError
  else .ok (ofText (toString n))

def rstrip (p : PyChar → Bool) (text : PyStr) : PyStr :=
  text.rdropWhile p

/-- `sql.rstrip().rstrip(";").rstrip()`. -/
def limitBody (sql : PyStr) : PyStr :=
  rstrip isSpace (rstrip (· = .scalar ';') (rstrip isSpace sql))

def applyLimit (sql : PyStr) (limit : Option Int) : Except PyExc PyStr :=
  match limit with
  | none => .ok sql
  | some limit =>
    match outerLimit? U false (limitBody sql) with
    | some (before, n, rest) => do
      let existing ← readInt U n
      let capped ← writeInt (min existing limit)
      .ok (before ++ ofText "LIMIT " ++ capped ++ rest)
    | none => do
      let limit ← writeInt limit
      .ok (limitBody sql ++ ofText " LIMIT " ++ limit)

end Limit

end Waitbus.EventsQuery
