import Waitbus.EventsQuery
import Waitbus.SqliteCuts

/-! What `_apply_limit` makes of a statement, against the clause that SQLite finds at its end. -/

namespace Waitbus.LimitCap
open Python SqliteLexer SqliteCuts EventsQuery

section Grammar

abbrev Token := Kind × PyStr

def isKey (keyword : String) (token : Token) : Bool :=
  token.1 = .word && token.2.map asciiUpper = ofText keyword

def isMark (mark : Char) (token : Token) : Bool :=
  token = (.other, [.scalar mark])

def deeper (depth : Nat) (token : Token) : Nat :=
  if isMark '(' token then depth + 1 else if isMark ')' token then depth - 1 else depth

def closes : Nat → List Token → Bool
  | depth, [] => depth = 0
  | depth, token :: later => !(isMark ')' token && depth = 0) && closes (deeper depth token) later

/-- The tokens before the first one outside of parentheses that `stop` holds of, and from it on. -/
def splitOuter (stop : Token → Bool) : Nat → List Token → List Token × List Token
  | _, [] => ([], [])
  | depth, token :: later =>
    if depth = 0 ∧ stop token then ([], token :: later)
    else
      let split := splitOuter stop (deeper depth token) later
      (token :: split.1, split.2)

/-- The last part of a compound is a `SELECT`: a `VALUES` takes no `LIMIT`. -/
def endsInSelect : Bool → Nat → List Token → Bool
  | last, _, [] => last
  | last, depth, token :: later =>
    let last := if depth = 0 then
      if isKey "SELECT" token then true else if isKey "VALUES" token then false else last
      else last
    endsInSelect last (deeper depth token) later

def trimEnd (tokens : List Token) : List Token :=
  tokens.rdropWhile fun token => !token.1.significant

def trim (tokens : List Token) : List Token :=
  trimEnd (tokens.dropWhile fun token => !token.1.significant)

/-- The expressions behind `LIMIT`: of the bound, and of the offset. With a comma the offset is
first. -/
def clause (after : List Token) : List Token × Option (List Token) :=
  match splitOuter (fun token => isKey "OFFSET" token || isMark ',' token) 0 after with
  | (first, []) => (trim first, none)
  | (first, mark :: second) =>
    if isKey "OFFSET" mark then (trim first, some (trim second))
    else (trim second, some (trim first))

/-- A statement without its `LIMIT` clause, and that. -/
structure Statement where
  core : List Token
  limit : Option (List Token × Option (List Token))
  deriving DecidableEq

/-- At most one `LIMIT` stands outside of parentheses. -/
def parseStatement (statement : List Token) : Option Statement :=
  if statement.any (fun token => token.1 = .illegal) || !closes 0 statement then none
  else
    match splitOuter (isKey "LIMIT") 0 statement with
    | (core, []) => some ⟨trimEnd core, none⟩
    | (core, _ :: after) =>
      if endsInSelect false 0 core ∧ (splitOuter (isKey "LIMIT") 0 after).2 = [] then
        some ⟨trimEnd core, some (clause after)⟩
      else none

def parse (text : PyStr) : Option Statement :=
  let split := (tokens id 0 text).span fun token => token.1 ≠ .semicolon
  if split.2.tail.any (·.1.significant) then none else parseStatement split.1

end Grammar

section Rows

def decimal (digits : PyStr) : Nat :=
  digits.foldl (fun n c => 10 * n + (PyChar.code c - 48)) 0

/-- A database, as far as a `LIMIT` clause can tell: what a statement without one returns, and what
the expressions of one are. Rows that are tied under `ORDER BY` come in one order, with a `LIMIT`
and without. A run of digits is an integer below `2 ^ 63`, and no bound from there on. -/
structure Engine (Row : Type) where
  select : List Token → Option (List Row)
  scalar : List Token → Option Int
  scalar_digits : ∀ digits, digits ≠ [] → (∀ c ∈ digits, isDigit c = true) →
    scalar [(.number, digits)] =
      if decimal digits < 2 ^ 63 then some (decimal digits : Int) else none

variable {Row : Type}

def bounded (bound : Int) (rows : List Row) : List Row :=
  if bound < 0 then rows else rows.take bound.toNat

def Engine.skip (engine : Engine Row) : Option (List Token) → Option Int
  | none => some 0
  | some offset => engine.scalar offset

def Engine.run (engine : Engine Row) (text : PyStr) : Option (List Row) := do
  let statement ← parse text
  let rows ← engine.select statement.core
  match statement.limit with
  | none => some rows
  | some (bound, offset) => do
    let bound ← engine.scalar bound
    let skipped ← engine.skip offset
    some (bounded bound (rows.drop skipped.toNat))

def capped (limit : Option Int) (rows : List Row) : List Row :=
  match limit with
  | none => rows
  | some cap => rows.take cap.toNat

/-- The statement that is executed is valid where the given one is, and returns its first rows. -/
def Exact (U : Unicode) (out : PyStr) (limit : Option Int) : Prop :=
  ∀ (Row : Type) (engine : Engine Row) rows, engine.run out = some rows →
    ∃ text, applyLimit U out limit = .ok text ∧ engine.run text = some (capped limit rows)

end Rows

section Condition

def spelling (tokens : List Token) : PyStr :=
  (tokens.map (·.2)).flatten

/-- What is taken off the end of the text is white space and semicolons to SQLite as well. -/
structure Shed (out : PyStr) : Prop where
  tail : ∃ tail, tokens id 0 out = tokens id 0 (limitBody out) ++ tail ∧
    ∀ token ∈ tail, token.1 = .blank ∨ token.1 = .semicolon
  single : ∀ token ∈ tokens id 0 (limitBody out), token.1 ≠ .semicolon

/-- The text does not end in a comment that a blank would not end. -/
def Closed (body : PyStr) : Prop :=
  tokens id 0 (body ++ [.scalar ' ']) = tokens id 0 body ++ [(.blank, [.scalar ' '])]

/-- Nothing, or `OFFSET` and a number. -/
inductive OffsetOnly : List Token → Prop
  | none : OffsetOnly []
  | some {key : PyStr} (apart apart' number : PyStr) (h : isKey "OFFSET" (.word, key) = true) :
      OffsetOnly [(.blank, apart), (.word, key), (.blank, apart'), (.number, number)]

/-- No limit is asked for; the statement has no outer clause and the pattern finds none; or it has
one of plain numbers and the pattern cuts it where SQLite does. -/
inductive Told (U : Unicode) (out : PyStr) : Option Int → Prop
  | off : Told U out none
  | absent {cap : Int} (hshed : Shed out) (hclosed : Closed (limitBody out))
      (hfound : outerLimit? U false (limitBody out) = none)
      (hnone : (splitOuter (isKey "LIMIT") 0 (tokens id 0 (limitBody out))).2 = [])
      (hselect : endsInSelect false 0 (tokens id 0 (limitBody out)) = true)
      (hcap : 0 ≤ cap) (hfits : cap < 2 ^ 63) : Told U out (some cap)
  | spelled {cap : Int} {before rest : List Token} {key apart n : PyStr} (hshed : Shed out)
      (hfound : outerLimit? U false (limitBody out) = some (spelling before, n, spelling rest))
      (htokens : tokens id 0 (limitBody out) =
        before ++ (.word, key) :: (.blank, apart) :: (.number, n) :: rest)
      (hkey : isKey "LIMIT" (.word, key) = true) (hn : ∀ c ∈ n, isDigit c = true)
      (hlen : n.length ≤ maxStrDigits) (hrest : OffsetOnly rest) (hcap : 0 ≤ cap) :
      Told U out (some cap)

end Condition

section Splits

variable {ts us before later : List Token} {token : Token} {stop : Token → Bool} {depth : Nat}

def Flat (token : Token) : Prop :=
  isMark '(' token = false ∧ isMark ')' token = false

theorem flat_of_kind (h : token.1 ≠ .other) : Flat token := by
  have hmark : ∀ mark, isMark mark token = false := by
    intro mark
    rw [isMark, decide_eq_false_iff_not]
    rintro rfl
    exact h rfl
  exact ⟨hmark _, hmark _⟩

theorem deeper_of_flat (h : Flat token) : deeper depth token = depth := by
  rw [deeper, h.1, h.2]
  rfl

theorem closes_cons_of_flat (h : Flat token) :
    closes depth (token :: later) = closes depth later := by
  rw [closes, h.2, deeper_of_flat h]
  rfl

theorem closes_append_flat (h : ∀ token ∈ us, Flat token) (ts : List Token) :
    closes depth (ts ++ us) = closes depth ts := by
  induction ts generalizing depth with
  | nil =>
    rw [List.nil_append]
    induction us with
    | nil => rfl
    | cons token us ih =>
      rw [closes_cons_of_flat (h token List.mem_cons_self)]
      exact ih fun token htoken => h token (List.mem_cons_of_mem _ htoken)
  | cons token ts ih =>
    rw [List.cons_append, closes, closes, ih]

theorem splitOuter_append (hclosed : closes depth ts = true)
    (hnone : (splitOuter stop depth ts).2 = []) (us : List Token) :
    splitOuter stop depth (ts ++ us) =
      (ts ++ (splitOuter stop 0 us).1, (splitOuter stop 0 us).2) := by
  induction ts generalizing depth with
  | nil =>
    obtain rfl : depth = 0 := by simpa [closes] using hclosed
    rfl
  | cons token ts ih =>
    rw [closes, Bool.and_eq_true] at hclosed
    rw [splitOuter] at hnone
    rw [List.cons_append, splitOuter]
    split_ifs at hnone ⊢ with hstop
    rw [ih hclosed.2 hnone]
    rfl

theorem splitOuter_some (hsome : (splitOuter stop depth ts).2 = token :: later) :
    ts = (splitOuter stop depth ts).1 ++ token :: later ∧ stop token = true ∧
      (∀ us, splitOuter stop depth (ts ++ us) =
        ((splitOuter stop depth ts).1, token :: later ++ us)) ∧
      (closes depth ts = true → closes 0 (token :: later) = true) := by
  induction ts generalizing depth with
  | nil => nomatch hsome
  | cons first ts ih =>
    simp only [splitOuter] at hsome
    simp only [splitOuter, List.cons_append]
    split_ifs at hsome ⊢ with hfirst
    · obtain ⟨rfl, rfl⟩ := List.cons.inj hsome
      obtain ⟨rfl, hstop⟩ := hfirst
      exact ⟨rfl, hstop, fun us => rfl, id⟩
    · obtain ⟨hts, hstop, happend, hcloses⟩ := ih hsome
      refine ⟨congrArg (first :: ·) hts, hstop, fun us => ?_, fun hclosed => ?_⟩
      · rw [happend us]
        rfl
      · rw [closes, Bool.and_eq_true] at hclosed
        exact hcloses hclosed.2

theorem trimEnd_append (h : ∀ token ∈ us, token.1.significant = false) (ts : List Token) :
    trimEnd (ts ++ us) = trimEnd ts := by
  rw [trimEnd, trimEnd, List.rdropWhile, List.rdropWhile, List.reverse_append,
    List.dropWhile_append_of_pos]
  intro token htoken
  simp [h token (List.mem_reverse.mp htoken)]

theorem splitOuter_quiet (h : ∀ token ∈ ts, stop token = false ∧ Flat token) :
    splitOuter stop depth ts = (ts, []) := by
  induction ts with
  | nil => rfl
  | cons token ts ih =>
    obtain ⟨hstop, hflat⟩ := h token List.mem_cons_self
    rw [splitOuter, if_neg (by simp [hstop]), deeper_of_flat hflat,
      ih fun token htoken => h token (List.mem_cons_of_mem _ htoken)]

theorem endsInSelect_append {last : Bool} (h : ∀ token ∈ us, token.1 = .blank) (ts : List Token) :
    endsInSelect last depth (ts ++ us) = endsInSelect last depth ts := by
  induction ts generalizing last depth with
  | nil =>
    rw [List.nil_append]
    induction us with
    | nil => rfl
    | cons token us ih =>
      have hblank := h token List.mem_cons_self
      have hkey : ∀ keyword, isKey keyword token = false := fun keyword => by
        rw [isKey, hblank]
        rfl
      have hcons : endsInSelect last depth (token :: us) = endsInSelect last depth us := by
        rw [endsInSelect, hkey, hkey, deeper_of_flat (flat_of_kind (by rw [hblank]; decide))]
        simp
      exact hcons.trans (ih fun token htoken => h token (List.mem_cons_of_mem _ htoken))
  | cons token ts ih =>
    rw [List.cons_append, endsInSelect, endsInSelect, ih]

/-- The number behind an `OFFSET`. -/
def offsetOf : List Token → Option (List Token)
  | [_, _, _, number] => some [number]
  | _ => none

theorem key_of_kind {keyword : String} (h : token.1 ≠ .word) : isKey keyword token = false := by
  rw [isKey, decide_eq_false h, Bool.false_and]

theorem trim_number {blanks : List Token} (apart n : PyStr)
    (hblanks : ∀ token ∈ blanks, token.1 = .blank) :
    trim ((.blank, apart) :: (.number, n) :: blanks) = [(.number, n)] := by
  have hquiet : ∀ token ∈ blanks, token.1.significant = false := by
    intro token htoken
    rw [hblanks token htoken]
    rfl
  change trimEnd ([(.number, n)] ++ blanks) = _
  rw [trimEnd_append hquiet]
  rfl

theorem quiet_of_kind (h : token.1 = .blank ∨ token.1 = .number) (keyword : String) :
    (isKey keyword token || isMark ',' token) = false ∧ Flat token := by
  have hmark : isMark ',' token = false := by
    rw [isMark, decide_eq_false_iff_not]
    rintro rfl
    simp at h
  have hword : token.1 ≠ .word := by rcases h with h | h <;> rw [h] <;> decide
  have hother : token.1 ≠ .other := by rcases h with h | h <;> rw [h] <;> decide
  rw [key_of_kind hword, hmark]
  exact ⟨rfl, flat_of_kind hother⟩

theorem clause_spelled (apart n : PyStr) {rest blanks : List Token} (hrest : OffsetOnly rest)
    (hblanks : ∀ token ∈ blanks, token.1 = .blank) :
    clause ((.blank, apart) :: (.number, n) :: (rest ++ blanks)) =
      ([(.number, n)], offsetOf rest) := by
  have hquiet : ∀ blanks : List Token, (∀ token ∈ blanks, token.1 = .blank) →
      ∀ token ∈ (.blank, apart) :: (.number, n) :: blanks,
        (isKey "OFFSET" token || isMark ',' token) = false ∧ Flat token := by
    intro blanks hblanks token htoken
    refine quiet_of_kind ?_ _
    rcases List.mem_cons.mp htoken with rfl | htoken
    · exact .inl rfl
    rcases List.mem_cons.mp htoken with rfl | htoken
    · exact .inr rfl
    · exact .inl (hblanks token htoken)
  cases hrest with
  | none =>
    rw [List.nil_append, clause, splitOuter_quiet (hquiet blanks hblanks)]
    exact Prod.ext (trim_number apart n hblanks) rfl
  | @some key apart' apart'' number hkey =>
    have hfront := hquiet [(.blank, apart')] (by simp)
    have hsplit : splitOuter (fun token => isKey "OFFSET" token || isMark ',' token) 0
        ((.blank, apart) :: (.number, n) ::
          ([(.blank, apart'), (.word, key), (.blank, apart''), (.number, number)] ++ blanks)) =
        ([(.blank, apart), (.number, n), (.blank, apart')],
          (.word, key) :: (.blank, apart'') :: (.number, number) :: blanks) := by
      have hclosed : closes 0 [(.blank, apart), (.number, n), (.blank, apart')] = true :=
        closes_append_flat (fun token htoken => (hfront token htoken).2) []
      have hbehind := splitOuter_append hclosed (by rw [splitOuter_quiet hfront])
        ((.word, key) :: (.blank, apart'') :: (.number, number) :: blanks)
      rw [splitOuter, if_pos ⟨rfl, by rw [hkey]; rfl⟩] at hbehind
      exact hbehind
    rw [clause, hsplit]
    simp only [hkey, if_true]
    exact Prod.ext (trim_number apart n (by simp))
      (congrArg some (trim_number apart'' number hblanks))

theorem parseStatement_plain {blanks : List Token} {statement : Statement}
    (hblanks : ∀ token ∈ blanks, token.1 = .blank)
    (hnone : (splitOuter (isKey "LIMIT") 0 ts).2 = [])
    (h : parseStatement (ts ++ blanks) = some statement) :
    statement = ⟨trimEnd ts, none⟩ ∧ (∀ token ∈ ts, token.1 ≠ .illegal) ∧ closes 0 ts = true := by
  have hflat : ∀ token ∈ blanks, Flat token := fun token htoken =>
    flat_of_kind (by rw [hblanks token htoken]; decide)
  rw [parseStatement, closes_append_flat hflat] at h
  split_ifs at h with hbad
  simp only [Bool.or_eq_true, List.any_eq_true, decide_eq_true_eq, Bool.not_eq_true',
    not_or, not_exists, not_and, Bool.not_eq_false, List.mem_append] at hbad
  obtain ⟨hillegal, hclosed⟩ := hbad
  have hquiet : splitOuter (isKey "LIMIT") 0 blanks = (blanks, []) :=
    splitOuter_quiet fun token htoken =>
      ⟨key_of_kind (by rw [hblanks token htoken]; decide), hflat token htoken⟩
  rw [splitOuter_append hclosed hnone, hquiet] at h
  refine ⟨?_, fun token htoken => hillegal token (.inl htoken), hclosed⟩
  rw [← Option.some.inj h, trimEnd_append fun token htoken => by rw [hblanks token htoken]; rfl]

theorem spelled_quiet (apart n : PyStr) {rest blanks : List Token} (hrest : OffsetOnly rest)
    (hblanks : ∀ token ∈ blanks, token.1 = .blank) :
    ∀ token ∈ (.blank, apart) :: (.number, n) :: (rest ++ blanks),
      isKey "LIMIT" token = false ∧ Flat token ∧ token.1 ≠ .illegal := by
  have hplain : ∀ token : Token, token.1 = .blank ∨ token.1 = .number →
      isKey "LIMIT" token = false ∧ Flat token ∧ token.1 ≠ .illegal := by
    intro token h
    refine ⟨key_of_kind ?_, flat_of_kind ?_, ?_⟩ <;> rcases h with h | h <;> rw [h] <;> decide
  have hwhole : ∀ token ∈ rest, isKey "LIMIT" token = false ∧ Flat token ∧ token.1 ≠ .illegal := by
    cases hrest with
    | none => simp
    | @some key apart' apart'' number hkey =>
      have hword : isKey "LIMIT" (.word, key) = false := by
        simp only [isKey, decide_true, Bool.true_and, decide_eq_true_eq] at hkey
        have hne : ofText "OFFSET" ≠ ofText "LIMIT" := by decide
        rw [isKey, hkey, decide_eq_false hne, Bool.and_false]
      intro token htoken
      simp only [List.mem_cons, List.not_mem_nil, or_false] at htoken
      rcases htoken with rfl | rfl | rfl | rfl
      · exact hplain _ (.inl rfl)
      · exact ⟨hword, flat_of_kind (by simp), (by simp)⟩
      · exact hplain _ (.inl rfl)
      · exact hplain _ (.inr rfl)
  intro token htoken
  rcases List.mem_cons.mp htoken with rfl | htoken
  · exact hplain _ (.inl rfl)
  rcases List.mem_cons.mp htoken with rfl | htoken
  · exact hplain _ (.inr rfl)
  rcases List.mem_append.mp htoken with htoken | htoken
  · exact hwhole token htoken
  · exact hplain token (.inl (hblanks token htoken))

theorem parseStatement_spelled {key apart n : PyStr} {rest : List Token} {statement : Statement}
    (hkey : isKey "LIMIT" (.word, key) = true) (hrest : OffsetOnly rest) (blanks : List Token)
    (hblanks : ∀ token ∈ blanks, token.1 = .blank) :
    parseStatement (before ++ (.word, key) :: (.blank, apart) :: (.number, n) :: (rest ++ blanks)) =
        some statement ↔
      statement = ⟨trimEnd before, some ([(.number, n)], offsetOf rest)⟩ ∧
        (∀ token ∈ before, token.1 ≠ .illegal) ∧ closes 0 before = true ∧
        (splitOuter (isKey "LIMIT") 0 before).2 = [] ∧ endsInSelect false 0 before = true := by
  have hquiet := spelled_quiet apart n hrest hblanks
  have hclause := clause_spelled apart n hrest hblanks
  generalize hafter : (.blank, apart) :: (.number, n) :: (rest ++ blanks) = after at hquiet hclause
  have hflat : ∀ token ∈ (.word, key) :: after, Flat token := by
    intro token htoken
    rcases List.mem_cons.mp htoken with rfl | htoken
    · exact flat_of_kind nofun
    · exact (hquiet token htoken).2.1
  have hillegal : (∃ token ∈ before ++ (.word, key) :: after, token.1 = .illegal) ↔
      ∃ token ∈ before, token.1 = .illegal := by
    constructor
    · rintro ⟨token, htoken, hkind⟩
      rcases List.mem_append.mp htoken with htoken | htoken
      · exact ⟨token, htoken, hkind⟩
      rcases List.mem_cons.mp htoken with rfl | htoken
      · nomatch hkind
      · exact absurd hkind (hquiet token htoken).2.2
    · rintro ⟨token, htoken, hkind⟩
      exact ⟨token, List.mem_append_left _ htoken, hkind⟩
  have hlimit : splitOuter (isKey "LIMIT") 0 ((.word, key) :: after) =
      ([], (.word, key) :: after) := by
    rw [splitOuter, if_pos ⟨rfl, hkey⟩]
  have hsecond : (splitOuter (isKey "LIMIT") 0 after).2 = [] := by
    rw [splitOuter_quiet fun token htoken => ⟨(hquiet token htoken).1, (hquiet token htoken).2.1⟩]
  have hbad : ((before ++ (.word, key) :: after).any (fun token => token.1 = .illegal) ||
      !closes 0 (before ++ (.word, key) :: after)) = true ↔
        ¬((∀ token ∈ before, token.1 ≠ .illegal) ∧ closes 0 before = true) := by
    rw [closes_append_flat hflat, Bool.or_eq_true, List.any_eq_true]
    simp only [decide_eq_true_eq, hillegal, Bool.not_eq_true', not_and_or, not_forall,
      not_not, Bool.not_eq_true, exists_prop]
  rw [parseStatement, if_congr hbad rfl rfl]
  by_cases hgood : (∀ token ∈ before, token.1 ≠ .illegal) ∧ closes 0 before = true
  · rw [if_neg (not_not_intro hgood)]
    by_cases hnone : (splitOuter (isKey "LIMIT") 0 before).2 = []
    · rw [splitOuter_append hgood.2 hnone, hlimit, List.append_nil]
      simp only [hsecond, and_true, hclause]
      by_cases hselect : endsInSelect false 0 before = true
      · rw [if_pos hselect, Option.some.injEq]
        exact ⟨fun h => ⟨h.symm, hgood.1, hgood.2, hnone, hselect⟩, fun h => h.1.symm⟩
      · rw [if_neg hselect]
        exact ⟨nofun, fun h => absurd h.2.2.2.2 hselect⟩
    · refine ⟨fun h => ?_, fun h => absurd h.2.2.2.1 hnone⟩
      obtain ⟨first, later, hsome⟩ := List.exists_cons_of_ne_nil hnone
      obtain ⟨-, hfirst, happend, hcloses⟩ := splitOuter_some hsome
      rw [happend] at h
      have hclosed : closes 0 later = true := by
        have hword : first.1 ≠ .other := by
          rintro hother
          rw [key_of_kind (by rw [hother]; decide)] at hfirst
          nomatch hfirst
        have hwhole := hcloses hgood.2
        rwa [closes_cons_of_flat (flat_of_kind hword)] at hwhole
      have hagain : (splitOuter (isKey "LIMIT") 0 (later ++ (.word, key) :: after)).2 ≠ [] := by
        cases hlater : (splitOuter (isKey "LIMIT") 0 later).2 with
        | nil =>
          rw [splitOuter_append hclosed hlater, hlimit]
          exact List.cons_ne_nil _ _
        | cons second behind =>
          rw [(splitOuter_some hlater).2.2.1]
          exact List.cons_ne_nil _ _
      simp only [List.cons_append] at h
      rw [if_neg fun hboth => hagain hboth.2] at h
      nomatch h
  · rw [if_pos hgood]
    exact ⟨nofun, fun h => absurd ⟨h.2.1, h.2.2.1⟩ hgood⟩

end Splits

section Numbers

variable {digits : PyStr} {n : Int}

theorem decimal_toDigits (n : Nat) : decimal ((Nat.toDigits 10 n).map .scalar) = n := by
  rw [decimal, List.foldl_map]
  exact Nat.ofDigitChars_ten_toDigits

theorem writeInt_digits (hpos : 0 ≤ n) (h : writeInt n = .ok digits) :
    digits ≠ [] ∧ (∀ c ∈ digits, isDigit c = true) ∧ decimal digits = n.toNat := by
  obtain ⟨k, rfl⟩ := Int.eq_ofNat_of_zero_le hpos
  have hdigits : digits = (Nat.toDigits 10 k).map .scalar := by
    rw [writeInt] at h
    split_ifs at h
    rw [← Except.ok.inj h]
    exact congrArg (fun chars : List Char => chars.map PyChar.scalar) Nat.toList_repr
  rw [hdigits]
  refine ⟨?_, fun c hc => ?_, decimal_toDigits k⟩
  · exact fun hnil => Nat.toDigits_ne_nil (List.map_eq_nil_iff.mp hnil)
  · obtain ⟨d, hd, rfl⟩ := List.mem_map.mp hc
    have hdigit := Nat.isDigit_of_mem_toDigits (by decide) (by decide) hd
    simp only [Char.isDigit, Bool.and_eq_true, decide_eq_true_eq] at hdigit
    have hlow : 48 ≤ d.toNat := hdigit.1
    have hhigh : d.toNat ≤ 57 := hdigit.2
    simp [isDigit, PyChar.code, hlow, hhigh]

theorem writeInt_fits (hpos : 0 ≤ n) (hfits : n < 2 ^ 63) : ∃ digits, writeInt n = .ok digits := by
  have hlen : (Nat.toDigits 10 n.natAbs).length ≤ 19 :=
    (Nat.length_toDigits_le_iff (by decide) (by decide)).mpr (by omega)
  have hfew : ¬maxStrDigits < (Nat.toDigits 10 n.natAbs).length := by
    rw [maxStrDigits]
    omega
  exact ⟨_, by rw [writeInt, if_neg hfew]⟩

theorem readInt_ascii (U : Unicode) (hdigits : ∀ c ∈ digits, isDigit c = true)
    (hlen : digits.length ≤ maxStrDigits) : readInt U digits = .ok (decimal digits : Nat) := by
  have hvalue : ∀ c ∈ digits, (U.digit c).elim 0 Fin.val = PyChar.code c - 48 := by
    intro c hc
    have hdigit := hdigits c hc
    have hcode := hdigit
    simp only [isDigit, Bool.and_eq_true, decide_eq_true_eq] at hcode
    rw [U.digit_ascii c (by omega), if_pos hdigit]
    exact Nat.mod_eq_of_lt (by omega)
  rw [readInt, if_neg (by omega), decimal]
  refine congrArg (fun n : Nat => Except.ok (n : Int)) (List.foldl_ext _ _ 0 fun n c hc => ?_)
  rw [hvalue c hc]

end Numbers

section Texts

variable {body key apart n digits z : PyStr} {before rest : List Token}

theorem tokens_limit (hne : digits ≠ []) (hdigits : ∀ c ∈ digits, isDigit c = true)
    (hz : ∀ c ∈ z.head?, beginsBlank c = true) :
    tokens id 0 (ofText "LIMIT" ++ .scalar ' ' :: (digits ++ z)) = (.word, ofText "LIMIT") ::
      (.blank, [.scalar ' ']) :: (.number, digits) :: tokens id 0 z := by
  have hhead : ∀ c ∈ (digits ++ z).head?, isBlank c = false := by
    obtain ⟨d, rest, rfl⟩ := List.exists_cons_of_ne_nil hne
    intro c hc
    obtain rfl : d = c := Option.some.inj hc
    have hd := hdigits d List.mem_cons_self
    simp only [isDigit, Bool.and_eq_true, decide_eq_true_eq] at hd
    simp only [isBlank, Bool.or_eq_false_iff, Bool.and_eq_false_iff, decide_eq_false_iff_not]
    omega
  have hspace : ∀ c ∈ (PyChar.scalar ' ' :: (digits ++ z)).head?, isIdChar c = false := by
    intro c hc
    obtain rfl : .scalar ' ' = c := Option.some.inj hc
    decide
  rw [tokens_letters (by decide) (by decide) hspace, tokens_space hhead,
    tokens_digits hne hdigits hz]

theorem tokens_appended (hclosed : Closed body) (hne : digits ≠ [])
    (hdigits : ∀ c ∈ digits, isDigit c = true) :
    tokens id 0 (body ++ ofText " LIMIT " ++ digits) =
      tokens id 0 body ++ [(.blank, [.scalar ' '])] ++
        [(.word, ofText "LIMIT"), (.blank, [.scalar ' ']), (.number, digits)] := by
  have halike : Alike (.scalar ' ') (.scalar ' ') := .inl ⟨by decide, rfl⟩
  have hcut := tokens_limit hne hdigits (z := []) nofun
  generalize htail : ofText "LIMIT" ++ .scalar ' ' :: (digits ++ []) = tail at hcut
  have hlocal : tokens id 0 (body ++ .scalar ' ' :: tail) =
      tokens id 0 body ++ tokens id 0 (.scalar ' ' :: tail) :=
    tokens_local halike hclosed (tokens_flatten body)
  have hhead : ∀ c ∈ tail.head?, isBlank c = false := by
    intro c hc
    rw [← htail] at hc
    obtain rfl : .scalar 'L' = c := Option.some.inj hc
    decide
  have htext : body ++ ofText " LIMIT " ++ digits = body ++ .scalar ' ' :: tail := by
    rw [← htail, List.append_nil, List.append_assoc]
    rfl
  rw [htext, hlocal, tokens_space hhead, hcut, List.append_assoc]
  rfl

theorem letter_of_key (hkey : isKey "LIMIT" (.word, key) = true) :
    ∃ d v, key = d :: v ∧ isLetter d = true := by
  simp only [isKey, decide_true, Bool.true_and, decide_eq_true_eq] at hkey
  cases key with
  | nil => nomatch hkey
  | cons d v =>
    have hd : asciiUpper d = .scalar 'L' := (List.cons.inj hkey).1
    exact ⟨d, v, rfl, letter_of_upper (by rw [hd]; decide)⟩

theorem tokens_spelled
    (htokens : tokens id 0 body = before ++ (.word, key) :: (.blank, apart) :: (.number, n) :: rest)
    (hkey : isKey "LIMIT" (.word, key) = true) (hrest : OffsetOnly rest) (hne : digits ≠ [])
    (hdigits : ∀ c ∈ digits, isDigit c = true) :
    tokens id 0 (spelling before ++ ofText "LIMIT " ++ digits ++ spelling rest) =
      before ++ (.word, ofText "LIMIT") :: (.blank, [.scalar ' ']) ::
        (.number, digits) :: rest := by
  have hrestTokens : tokens id 0 (spelling rest) = rest := by
    have hbehind : tokens id 0 body =
        (before ++ [(.word, key), (.blank, apart), (.number, n)]) ++ rest := by
      rw [htokens, List.append_assoc]
      rfl
    exact tokens_suffix hbehind
  have hhead : ∀ c ∈ (spelling rest).head?, beginsBlank c = true := by
    cases hrest with
    | none => exact nofun
    | @some offset apart' apart'' number hoffset =>
      have hbehind : tokens id 0 body =
          (before ++ [(.word, key), (.blank, apart)]) ++ (.number, n) :: (.blank, apart') ::
            [(.word, offset), (.blank, apart''), (.number, number)] := by
        rw [htokens, List.append_assoc]
        rfl
      obtain ⟨c, apart', rfl, hc⟩ := blank_behind_number hbehind
      intro e he
      obtain rfl : c = e := Option.some.inj he
      exact hc
  have hcut := tokens_limit hne hdigits hhead
  rw [hrestTokens] at hcut
  obtain ⟨d, v, rfl, hletter⟩ := letter_of_key hkey
  have hclause := tokens_suffix htokens
  have hbody : ((tokens id 0 body).map (·.2)).flatten = body := tokens_flatten body
  rw [htokens, List.map_append, List.flatten_append] at hbody
  rw [List.map_cons, List.flatten_cons, List.cons_append] at hclause hbody
  have hold : tokens id 0 (spelling before ++ d :: (v ++
        (((.blank, apart) :: (.number, n) :: rest).map (·.2)).flatten)) = before ++
      tokens id 0 (d :: (v ++ (((.blank, apart) :: (.number, n) :: rest).map (·.2)).flatten)) := by
    rw [hclause, spelling, hbody, htokens]
  have hnew : tokens id 0 (spelling before ++ .scalar 'L' ::
        (ofText "IMIT" ++ .scalar ' ' :: (digits ++ spelling rest))) =
      before ++ tokens id 0 (.scalar 'L' ::
        (ofText "IMIT" ++ .scalar ' ' :: (digits ++ spelling rest))) :=
    tokens_local (.inr ⟨hletter, by decide⟩) hold rfl
  have htext : spelling before ++ ofText "LIMIT " ++ digits ++ spelling rest = spelling before ++
      .scalar 'L' :: (ofText "IMIT" ++ .scalar ' ' :: (digits ++ spelling rest)) := by
    simp only [List.append_assoc]
    rfl
  rw [htext, hnew]
  exact congrArg (before ++ ·) hcut

end Texts

section Result

variable {U : Unicode} {out text : PyStr} {limit : Option Int} {statement : Statement}

theorem parse_of_tokens {ts : List Token} (h : tokens id 0 text = ts)
    (hsingle : ∀ token ∈ ts, token.1 ≠ .semicolon) : parse text = parseStatement ts := by
  have hall : ∀ token ∈ ts, decide (token.1 ≠ .semicolon) = true := fun token htoken =>
    decide_eq_true (hsingle token htoken)
  rw [parse, h, List.span_eq_takeWhile_dropWhile, List.takeWhile_eq_self_iff.mpr hall,
    List.dropWhile_eq_nil_iff.mpr hall]
  rfl

theorem parse_shed (hshed : Shed out) (h : parse out = some statement) :
    ∃ blanks, (∀ token ∈ blanks, token.1 = .blank) ∧
      parseStatement (tokens id 0 (limitBody out) ++ blanks) = some statement := by
  obtain ⟨tail, htokens, htail⟩ := hshed.tail
  have hall : ∀ token ∈ tokens id 0 (limitBody out), decide (token.1 ≠ .semicolon) = true :=
    fun token htoken => decide_eq_true (hshed.single token htoken)
  simp only [parse, htokens, List.span_eq_takeWhile_dropWhile,
    List.takeWhile_append_of_pos hall] at h
  split_ifs at h
  refine ⟨_, fun token htoken => ?_, h⟩
  have hkind : token.1 ≠ .semicolon := by simpa using List.mem_takeWhile_imp htoken
  exact (htail token ((List.takeWhile_sublist _).subset htoken)).resolve_right hkind

theorem run_plain {Row : Type} {engine : Engine Row} {rows : List Row} {core : List Token}
    (h : parse out = some ⟨core, none⟩) : engine.run out = some rows ↔
      engine.select core = some rows := by
  simp [Engine.run, h]

theorem run_clause {Row : Type} {engine : Engine Row} {rows : List Row} {core bound : List Token}
    {offset : Option (List Token)} (h : parse out = some ⟨core, some (bound, offset)⟩) :
    engine.run out = some rows ↔ ∃ all, engine.select core = some all ∧
      ∃ n, engine.scalar bound = some n ∧ ∃ skipped, engine.skip offset = some skipped ∧
        bounded n (all.drop skipped.toNat) = rows := by
  simp [Engine.run, h, Option.bind_eq_some_iff]

theorem parse_spelled {before rest : List Token} {key apart n : PyStr}
    (h : tokens id 0 text = before ++ (.word, key) :: (.blank, apart) :: (.number, n) :: rest)
    (hkey : isKey "LIMIT" (.word, key) = true) (hrest : OffsetOnly rest)
    (hsingle : ∀ token ∈ before, token.1 ≠ .semicolon)
    (hillegal : ∀ token ∈ before, token.1 ≠ .illegal) (hcloses : closes 0 before = true)
    (hnone : (splitOuter (isKey "LIMIT") 0 before).2 = [])
    (hselect : endsInSelect false 0 before = true) :
    parse text = some ⟨trimEnd before, some ([(.number, n)], offsetOf rest)⟩ := by
  have hwhole : ∀ token ∈ before ++ (.word, key) :: (.blank, apart) :: (.number, n) :: rest,
      token.1 ≠ .semicolon := by
    have hkinds : ∀ token ∈ rest, token.1 ≠ .semicolon := by
      cases hrest with
      | none => simp
      | some => simp
    intro token htoken
    rcases List.mem_append.mp htoken with htoken | htoken
    · exact hsingle token htoken
    · simp only [List.mem_cons] at htoken
      rcases htoken with rfl | rfl | rfl | htoken
      · simp
      · simp
      · simp
      · exact hkinds token htoken
  have hstatement : parseStatement
      (before ++ (.word, key) :: (.blank, apart) :: (.number, n) :: (rest ++ [])) =
        some ⟨trimEnd before, some ([(.number, n)], offsetOf rest)⟩ :=
    (parseStatement_spelled hkey hrest [] (List.forall_mem_nil _)).mpr
      ⟨rfl, hillegal, hcloses, hnone, hselect⟩
  rw [List.append_nil] at hstatement
  exact (parse_of_tokens h hwhole).trans hstatement

theorem exact_of_absent {cap : Int} (hshed : Shed out) (hclosed : Closed (limitBody out))
    (hfound : outerLimit? U false (limitBody out) = none)
    (hnone : (splitOuter (isKey "LIMIT") 0 (tokens id 0 (limitBody out))).2 = [])
    (hselect : endsInSelect false 0 (tokens id 0 (limitBody out)) = true)
    (hcap : 0 ≤ cap) (hfits : cap < 2 ^ 63) : Exact U out (some cap) := by
  intro Row engine rows hrun
  obtain ⟨statement, hparse, -⟩ := Option.bind_eq_some_iff.mp hrun
  obtain ⟨blanks, hblanks, hstatement⟩ := parse_shed hshed hparse
  obtain ⟨rfl, hillegal, hcloses⟩ := parseStatement_plain hblanks hnone hstatement
  obtain ⟨digits, hwrite⟩ := writeInt_fits hcap hfits
  obtain ⟨hne, hdigits, hvalue⟩ := writeInt_digits hcap hwrite
  have hspace : ∀ token ∈ [((.blank, [.scalar ' ']) : Token)], token.1 = .blank := by simp
  have hsplit := splitOuter_append hcloses hnone [(.blank, [.scalar ' '])]
  have hflat : ∀ token ∈ [((.blank, [.scalar ' ']) : Token)], Flat token := by
    intro token htoken
    exact flat_of_kind (by rw [hspace token htoken]; decide)
  have hkind : ∀ kind, kind ≠ .blank → (∀ token ∈ tokens id 0 (limitBody out), token.1 ≠ kind) →
      ∀ token ∈ tokens id 0 (limitBody out) ++ [(.blank, [.scalar ' '])], token.1 ≠ kind := by
    intro kind hne hall token htoken
    rcases List.mem_append.mp htoken with htoken | htoken
    · exact hall token htoken
    · rw [hspace token htoken]
      exact hne.symm
  have hexecuted := parse_spelled (tokens_appended hclosed hne hdigits) (by decide) .none
    (hkind .semicolon nofun hshed.single) (hkind .illegal nofun hillegal)
    (by rwa [closes_append_flat hflat]) (by rw [hsplit]; rfl) (by rwa [endsInSelect_append hspace])
  rw [trimEnd_append fun token htoken => by rw [hspace token htoken]; rfl] at hexecuted
  refine ⟨_, by rw [applyLimit, hfound, hwrite]; rfl, (run_clause hexecuted).mpr ?_⟩
  have hscalar := engine.scalar_digits digits hne hdigits
  rw [hvalue, if_pos (by omega)] at hscalar
  refine ⟨rows, (run_plain hparse).mp hrun, cap, ?_, 0, rfl, ?_⟩
  · rw [hscalar, Int.toNat_of_nonneg hcap]
  · rw [bounded, if_neg (by omega)]
    rfl

theorem exact_of_spelled {cap : Int} {before rest : List Token} {key apart n : PyStr}
    (hshed : Shed out)
    (hfound : outerLimit? U false (limitBody out) = some (spelling before, n, spelling rest))
    (htokens : tokens id 0 (limitBody out) =
      before ++ (.word, key) :: (.blank, apart) :: (.number, n) :: rest)
    (hkey : isKey "LIMIT" (.word, key) = true) (hn : ∀ c ∈ n, isDigit c = true)
    (hlen : n.length ≤ maxStrDigits) (hrest : OffsetOnly rest) (hcap : 0 ≤ cap) :
    Exact U out (some cap) := by
  intro Row engine rows hrun
  obtain ⟨statement, hparse, -⟩ := Option.bind_eq_some_iff.mp hrun
  obtain ⟨blanks, hblanks, hstatement⟩ := parse_shed hshed hparse
  have hbehind : tokens id 0 (limitBody out) =
      (before ++ [(.word, key), (.blank, apart)]) ++ (.number, n) :: rest := by
    rw [htokens, List.append_assoc]
    rfl
  have hnumber := run_ne_nil hbehind
  rw [htokens, List.append_assoc] at hstatement
  obtain ⟨rfl, hillegal, hcloses, hnone, hselect⟩ :=
    (parseStatement_spelled hkey hrest blanks hblanks).mp hstatement
  obtain ⟨all, hall, bound, hbound, skipped, hskipped, rfl⟩ := (run_clause hparse).mp hrun
  rw [engine.scalar_digits n hnumber hn] at hbound
  split_ifs at hbound with hfits
  obtain rfl := Option.some.inj hbound
  have hleast : 0 ≤ min (decimal n : Int) cap := by omega
  obtain ⟨digits, hwrite⟩ := writeInt_fits hleast (by omega)
  obtain ⟨hne, hdigits, hvalue⟩ := writeInt_digits hleast hwrite
  have hexecuted := parse_spelled (tokens_spelled htokens hkey hrest hne hdigits) (by decide) hrest
    (fun token htoken => hshed.single token (by rw [htokens]; exact List.mem_append_left _ htoken))
    hillegal hcloses hnone hselect
  have happly : applyLimit U out (some cap) =
      .ok (spelling before ++ ofText "LIMIT " ++ digits ++ spelling rest) := by
    simp only [applyLimit, hfound, readInt_ascii U hn hlen, bind, Except.bind, hwrite]
  refine ⟨_, happly, (run_clause hexecuted).mpr ?_⟩
  have hscalar := engine.scalar_digits digits hne hdigits
  rw [hvalue, if_pos (by omega)] at hscalar
  refine ⟨all, hall, _, hscalar, skipped, hskipped, ?_⟩
  rw [bounded, bounded, if_neg (by omega), if_neg (by omega), capped, List.take_take]
  congr 1
  omega

theorem limit_exact (h : Told U out limit) : Exact U out limit := by
  cases h with
  | off => exact fun Row engine rows hrun => ⟨out, rfl, hrun⟩
  | absent hshed hclosed hfound hnone hselect hcap hfits =>
    exact exact_of_absent hshed hclosed hfound hnone hselect hcap hfits
  | spelled hshed hfound htokens hkey hn hlen hrest hcap =>
    exact exact_of_spelled hshed hfound htokens hkey hn hlen hrest hcap

/-- Where the statement has a clause that the pattern does not find, SQLite refuses what is
executed: another is put behind it. -/
theorem refused_of_unmatched {cap : Int} (hshed : Shed out) (hclosed : Closed (limitBody out))
    (hfound : outerLimit? U false (limitBody out) = none)
    (hclause : (splitOuter (isKey "LIMIT") 0 (tokens id 0 (limitBody out))).2 ≠ [])
    (hcap : 0 ≤ cap) (happly : applyLimit U out (some cap) = .ok text) : parse text = none := by
  obtain ⟨digits, hwrite, rfl⟩ : ∃ digits, writeInt cap = .ok digits ∧
      limitBody out ++ ofText " LIMIT " ++ digits = text := by
    simp only [applyLimit, hfound, bind, Except.bind] at happly
    split at happly
    · cases happly
    · rename_i digits hwrite
      exact ⟨digits, hwrite, Except.ok.inj happly⟩
  obtain ⟨hne, hdigits, -⟩ := writeInt_digits hcap hwrite
  have hsingle : ∀ token ∈ tokens id 0 (limitBody out) ++ [(.blank, [.scalar ' '])] ++
      [(.word, ofText "LIMIT"), (.blank, [.scalar ' ']), (.number, digits)],
      token.1 ≠ .semicolon := by
    intro token htoken
    simp only [List.mem_append, List.mem_cons, List.not_mem_nil, or_false] at htoken
    rcases htoken with (htoken | rfl) | rfl | rfl | rfl
    · exact hshed.single token htoken
    all_goals simp
  rw [parse_of_tokens (tokens_appended hclosed hne hdigits) hsingle,
    Option.eq_none_iff_forall_ne_some]
  intro statement hstatement
  obtain ⟨-, -, -, hnone, -⟩ :=
    (parseStatement_spelled (by decide) .none [] (List.forall_mem_nil _)).mp hstatement
  obtain ⟨first, later, hsome⟩ := List.exists_cons_of_ne_nil hclause
  rw [(splitOuter_some hsome).2.2.1] at hnone
  cases hnone

def sampleEngine : Engine Nat where
  select core :=
    if core = tokens id 0 (ofText "SELECT id FROM events") then some [5, 4, 3, 2, 1] else none
  scalar
    | [(.number, digits)] =>
      if digits.all isDigit ∧ decimal digits < 2 ^ 63 then some (decimal digits) else none
    | _ => none
  scalar_digits digits hne hdigits := by
    simp only [List.all_eq_true.mpr hdigits, true_and]

theorem limit_exact_sample : ∃ text, applyLimit .reference
    (ofText "SELECT id FROM events limit 3 OFFSET 1;") (some 2) = .ok text ∧
      sampleEngine.run text = some [4, 3] := by
  have htokens : tokens id 0 (limitBody (ofText "SELECT id FROM events limit 3 OFFSET 1;")) =
      tokens id 0 (ofText "SELECT id FROM events ") ++ (.word, ofText "limit") ::
        (.blank, ofText " ") :: (.number, ofText "3") :: [(.blank, ofText " "),
          (.word, ofText "OFFSET"), (.blank, ofText " "), (.number, ofText "1")] := by
    decide +kernel
  have hshed : Shed (ofText "SELECT id FROM events limit 3 OFFSET 1;") :=
    ⟨⟨[(.semicolon, ofText ";")], by decide +kernel, by decide⟩, by decide +kernel⟩
  exact limit_exact (.spelled hshed (by decide +kernel) htokens (by decide) (by decide) (by decide)
    (.some _ _ _ (by decide)) (by decide)) Nat sampleEngine [4, 3, 2] (by decide +kernel)

/-- The clause with a comma is not found, and another is put behind it. -/
theorem two_arguments_refused : ∃ out,
    validate .reference (ofText "SELECT id FROM events LIMIT 1, 3") = .ok out ∧
      ¬Exact .reference out (some 1000) := by
  refine ⟨ofText "SELECT id FROM events LIMIT 1, 3", by decide +kernel, fun h => ?_⟩
  obtain ⟨text, htext, hrun⟩ := h Nat sampleEngine [4, 3, 2] (by decide +kernel)
  have happly : applyLimit .reference (ofText "SELECT id FROM events LIMIT 1, 3") (some 1000) =
      .ok (ofText "SELECT id FROM events LIMIT 1, 3 LIMIT 1000") := by decide +kernel
  rw [happly] at htext
  obtain rfl := Except.ok.inj htext
  have hrefused :
      sampleEngine.run (ofText "SELECT id FROM events LIMIT 1, 3 LIMIT 1000") = none := by
    decide +kernel
  rw [hrefused] at hrun
  nomatch hrun

end Result

end Waitbus.LimitCap
