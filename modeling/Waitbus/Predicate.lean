import Mathlib
import Waitbus.Await

/-! The `--match` predicates: how a spec is read, how a dotted key is followed through a frame, and
when the value found there is one of the literals. The interpreter's equality takes a boolean for
the number 0 or 1, at any depth. -/

namespace Waitbus.Predicate
open Python Json Await

section Equality

/-- What numbers are compared by: exactly, once a float has been rounded to a double. -/
inductive Num where
  | finite (q : ℚ)
  | infinity (neg : Bool)
  | nan
  deriving DecidableEq

def roundHalfEven (q : ℚ) : ℤ :=
  let rest := q - ⌊q⌋
  if rest < 1 / 2 ∨ rest = 1 / 2 ∧ ⌊q⌋ % 2 = 0 then ⌊q⌋ else ⌊q⌋ + 1

def toDouble (q : ℚ) : Num :=
  let ulp : ℚ := 2 ^ (max (Int.log 2 |q|) (-1022) - 52)
  let rounded := roundHalfEven (q / ulp) * ulp
  if 2 ^ 1024 ≤ |rounded| then .infinity (q < 0) else .finite rounded

/-- The decoder has one NaN object, which `in` finds equal to itself. -/
def floatNum : FloatLit → Num
  | .number neg mantissa exponent =>
    toDouble ((if neg then -1 else 1) * mantissa * 10 ^ exponent)
  | .infinity neg => .infinity neg
  | .nan => .nan

def jsonNumber : Value → Option Num
  | .int n => some (.finite n)
  | .float lit => some (floatNum lit)
  | _ => none

def pyNumber : Value → Option Num
  | .bool b => some (.finite (if b then 1 else 0))
  | v => jsonNumber v

def get (key : PyStr) (pairs : List (PyStr × Value)) : Option Value :=
  (pairs.find? (·.1 = key)).map (·.2)

def numberEqual (number : Value → Option Num) (v w : Value) : Bool :=
  match number v, number w with
  | some x, some y => x = y
  | _, _ => false

mutual

/-- Equality of decoded values that compares as numbers what `number` takes for one. -/
def equalBy (number : Value → Option Num) : Value → Value → Bool
  | .null, .null => true
  | .bool a, .bool b => a = b
  | .str s, .str t => s = t
  | .arr a, .arr b => itemsEqual number a b
  | .obj a, .obj b => a.length = b.length && pairsWithin number a b
  | v, w => numberEqual number v w

def itemsEqual (number : Value → Option Num) : List Value → List Value → Bool
  | [], [] => true
  | v :: rest, w :: rest' => equalBy number v w && itemsEqual number rest rest'
  | _, _ => false

def pairsWithin (number : Value → Option Num) :
    List (PyStr × Value) → List (PyStr × Value) → Bool
  | [], _ => true
  | (key, v) :: rest, pairs =>
    (match get key pairs with
    | some w => equalBy number v w
    | none => false) && pairsWithin number rest pairs

end

/-- `==` of decoded values. -/
def pyEqual : Value → Value → Bool := equalBy pyNumber

def typedEqual : Value → Value → Bool := equalBy jsonNumber

mutual

def asNumbers : Value → Value
  | .bool b => .int (if b then 1 else 0)
  | .arr items => .arr (itemsAsNumbers items)
  | .obj pairs => .obj (pairsAsNumbers pairs)
  | v => v

def itemsAsNumbers : List Value → List Value
  | [] => []
  | v :: rest => asNumbers v :: itemsAsNumbers rest

def pairsAsNumbers : List (PyStr × Value) → List (PyStr × Value)
  | [] => []
  | (key, v) :: rest => (key, asNumbers v) :: pairsAsNumbers rest

end

theorem get_pairsAsNumbers (key : PyStr) (pairs : List (PyStr × Value)) :
    get key (pairsAsNumbers pairs) = (get key pairs).map asNumbers := by
  induction pairs with
  | nil => rfl
  | cons pair rest ih =>
    rw [get, get] at ih
    rw [pairsAsNumbers, get, get, List.find?_cons, List.find?_cons]
    by_cases hkey : pair.1 = key
    · simp [hkey]
    · simpa [hkey] using ih

theorem length_pairsAsNumbers (pairs : List (PyStr × Value)) :
    (pairsAsNumbers pairs).length = pairs.length := by
  induction pairs with
  | nil => rfl
  | cons pair rest ih => rw [pairsAsNumbers, List.length_cons, List.length_cons, ih]

mutual

theorem equalBy_asNumbers : ∀ v w,
    equalBy pyNumber v w = equalBy jsonNumber (asNumbers v) (asNumbers w)
  | .arr a, .arr b => by
    rw [asNumbers, asNumbers, equalBy, equalBy, itemsEqual_asNumbers a b]
  | .obj a, .obj b => by
    rw [asNumbers, asNumbers, equalBy, equalBy, pairsWithin_asNumbers a b, length_pairsAsNumbers,
      length_pairsAsNumbers]
  | .bool a, w => by
    cases w with
    | bool b => cases a <;> cases b <;> rfl
    | int n => cases a <;> simp [equalBy, asNumbers, numberEqual, pyNumber, jsonNumber]
    | float lit => cases a <;> simp [equalBy, asNumbers, numberEqual, pyNumber, jsonNumber]
    | null | str | arr | obj => rfl
  | .int n, w | .float lit, w => by
    cases w with
    | bool b => cases b <;> simp [equalBy, asNumbers, numberEqual, pyNumber, jsonNumber]
    | null | int | float | str | arr | obj => rfl
  | .null, w | .str s, w => by
    cases w <;> rfl
  | .arr a, .null | .arr a, .bool _ | .arr a, .int _ | .arr a, .float _ | .arr a, .str _
  | .arr a, .obj _ => rfl
  | .obj a, .null | .obj a, .bool _ | .obj a, .int _ | .obj a, .float _ | .obj a, .str _
  | .obj a, .arr _ => rfl

theorem itemsEqual_asNumbers : ∀ a b,
    itemsEqual pyNumber a b = itemsEqual jsonNumber (itemsAsNumbers a) (itemsAsNumbers b)
  | [], [] => rfl
  | [], _ :: _ => rfl
  | _ :: _, [] => rfl
  | v :: rest, w :: rest' => by
    rw [itemsEqual, equalBy_asNumbers v w, itemsEqual_asNumbers rest rest', itemsAsNumbers,
      itemsAsNumbers, itemsEqual]

theorem pairsWithin_asNumbers : ∀ a b,
    pairsWithin pyNumber a b = pairsWithin jsonNumber (pairsAsNumbers a) (pairsAsNumbers b)
  | [], _ => rfl
  | (key, v) :: rest, pairs => by
    rw [pairsWithin, pairsWithin_asNumbers rest pairs, pairsAsNumbers, pairsWithin,
      get_pairsAsNumbers]
    cases get key pairs with
    | none => rfl
    | some w => simp only [Option.map_some, equalBy_asNumbers v w]

end

section Monotone

variable {number number' : Value → Option Num}

theorem numberEqual_mono (h : ∀ v x, number v = some x → number' v = some x) {v w : Value}
    (heq : numberEqual number v w = true) : numberEqual number' v w = true := by
  rw [numberEqual] at heq ⊢
  split at heq
  · rename_i x y hv hw
    rw [h v x hv, h w y hw]
    exact heq
  · nomatch heq

mutual

theorem equalBy_mono (h : ∀ v x, number v = some x → number' v = some x) :
    ∀ v w, equalBy number v w = true → equalBy number' v w = true
  | .arr a, .arr b => by
    rw [equalBy, equalBy]
    exact itemsEqual_mono h a b
  | .obj a, .obj b => by
    rw [equalBy, equalBy, Bool.and_eq_true, Bool.and_eq_true]
    exact And.imp_right (pairsWithin_mono h a b)
  | .null, w => by
    cases w with
    | null => exact id
    | _ => exact numberEqual_mono h
  | .bool _, w => by
    cases w with
    | bool => exact id
    | _ => exact numberEqual_mono h
  | .str _, w => by
    cases w with
    | str => exact id
    | _ => exact numberEqual_mono h
  | .int _, w | .float _, w => by
    cases w <;> exact numberEqual_mono h
  | .arr _, .null | .arr _, .bool _ | .arr _, .int _ | .arr _, .float _ | .arr _, .str _
  | .arr _, .obj _ => numberEqual_mono h
  | .obj _, .null | .obj _, .bool _ | .obj _, .int _ | .obj _, .float _ | .obj _, .str _
  | .obj _, .arr _ => numberEqual_mono h

theorem itemsEqual_mono (h : ∀ v x, number v = some x → number' v = some x) :
    ∀ a b, itemsEqual number a b = true → itemsEqual number' a b = true
  | [], [] => id
  | [], _ :: _ => id
  | _ :: _, [] => id
  | v :: rest, w :: rest' => by
    rw [itemsEqual, itemsEqual, Bool.and_eq_true, Bool.and_eq_true]
    exact And.imp (equalBy_mono h v w) (itemsEqual_mono h rest rest')

theorem pairsWithin_mono (h : ∀ v x, number v = some x → number' v = some x) :
    ∀ a b, pairsWithin number a b = true → pairsWithin number' a b = true
  | [], _ => id
  | (key, v) :: rest, pairs => by
    rw [pairsWithin, pairsWithin, Bool.and_eq_true, Bool.and_eq_true]
    refine And.imp ?_ (pairsWithin_mono h rest pairs)
    cases get key pairs with
    | none => exact id
    | some w => exact equalBy_mono h v w

end

end Monotone

theorem pyEqual_of_typed {v w : Value} (h : typedEqual v w = true) : pyEqual v w = true := by
  refine equalBy_mono (fun v x hv => ?_) v w h
  cases v with
  | int | float => exact hv
  | null | bool | str | arr | obj => nomatch hv

/-- Different as JSON, and equal once booleans are read as numbers. -/
def Confused (v w : Value) : Prop :=
  typedEqual v w = false ∧ typedEqual (asNumbers v) (asNumbers w) = true

theorem pyEqual_iff {v w : Value} :
    pyEqual v w = true ↔ typedEqual v w = true ∨ Confused v w := by
  have hnumbers : pyEqual v w = typedEqual (asNumbers v) (asNumbers w) := equalBy_asNumbers v w
  cases htyped : typedEqual v w with
  | true => simp [pyEqual_of_typed htyped]
  | false => simp [Confused, htyped, hnumbers]

end Equality

section Paths

/-- The digits of an `int` literal: single underscores may stand between them. -/
def intDigits (decimal : Char → Option Nat) : PyStr → Option (List Nat)
  | [.scalar c] => (decimal c).map ([·])
  | .scalar c :: .scalar '_' :: rest => do return (← decimal c) :: (← intDigits decimal rest)
  | .scalar c :: rest => do return (← decimal c) :: (← intDigits decimal rest)
  | _ => none

/-- `int(text)`; `decimal` is the interpreter's table of decimal digits. -/
def pyInt (decimal : Char → Option Nat) (text : PyStr) : Option Int :=
  let unsigned (digits : PyStr) : Option Nat := do
    let ds ← intDigits decimal digits
    if intMaxStrDigits < ds.length then none else some (ds.foldl (fun n d => 10 * n + d) 0)
  match strip text with
  | .scalar '+' :: rest => (unsigned rest).map Int.ofNat
  | .scalar '-' :: rest => (unsigned rest).map fun n => -(n : Int)
  | text => (unsigned text).map Int.ofNat

/-- `items[idx]`, where it is in range. -/
def item (items : List Value) (idx : Int) : Option Value :=
  if -(items.length : Int) ≤ idx ∧ idx < items.length then
    items[(if 0 ≤ idx then idx else idx + items.length).toNat]?
  else none

/-- `_dig` along the segments of the key; none is `_MISSING`. -/
def dig (decimal : Char → Option Nat) : Value → List PyStr → Option Value
  | cur, [] => some cur
  | .obj pairs, part :: rest =>
    match get part pairs with
    | none => none
    | some cur => dig decimal cur rest
  | .arr items, part :: rest =>
    match (pyInt decimal part).bind (item items) with
    | none => none
    | some cur => dig decimal cur rest
  | _, _ :: _ => none

/-- The value at a path: under a key of an object, or at a place of an array, from either end. -/
inductive At (decimal : Char → Option Nat) : Value → List PyStr → Value → Prop where
  | here (v : Value) : At decimal v [] v
  | key {pairs : List (PyStr × Value)} {part : PyStr} {rest : List PyStr} {v w : Value}
    (found : get part pairs = some v) (below : At decimal v rest w) :
    At decimal (.obj pairs) (part :: rest) w
  | fromStart {items : List Value} {part : PyStr} {rest : List PyStr} {n : Nat} {v w : Value}
    (index : pyInt decimal part = some (.ofNat n)) (found : items[n]? = some v)
    (below : At decimal v rest w) : At decimal (.arr items) (part :: rest) w
  | fromEnd {items : List Value} {part : PyStr} {rest : List PyStr} {n : Nat} {v w : Value}
    (index : pyInt decimal part = some (.negSucc n)) (found : items.reverse[n]? = some v)
    (below : At decimal v rest w) : At decimal (.arr items) (part :: rest) w

theorem item_ofNat (items : List Value) (n : Nat) : item items (.ofNat n) = items[n]? := by
  rw [item]
  split
  · simp
  · rename_i hout
    rw [List.getElem?_eq_none]
    simp at hout
    omega

theorem item_negSucc (items : List Value) (n : Nat) :
    item items (.negSucc n) = items.reverse[n]? := by
  rw [item, Int.negSucc_eq]
  split
  · rename_i hin
    have hlt : n < items.length := by omega
    rw [List.getElem?_reverse hlt, if_neg (by omega)]
    congr 1
    omega
  · rename_i hout
    rw [List.getElem?_eq_none]
    rw [List.length_reverse]
    omega

theorem dig_iff {decimal : Char → Option Nat} {v w : Value} {path : List PyStr} :
    dig decimal v path = some w ↔ At decimal v path w := by
  induction path generalizing v with
  | nil =>
    rw [dig, Option.some.injEq]
    constructor
    · rintro rfl
      exact .here v
    · rintro ⟨⟩
      rfl
  | cons part rest ih =>
    cases v with
    | obj pairs =>
      rw [dig]
      constructor
      · intro h
        split at h
        · nomatch h
        · rename_i cur found
          exact .key found (ih.mp h)
      · intro h
        cases h with
        | key found below =>
          rw [found]
          exact ih.mpr below
    | arr items =>
      rw [dig]
      constructor
      · intro h
        split at h
        · nomatch h
        · rename_i cur found
          obtain ⟨idx, index, found⟩ := Option.bind_eq_some_iff.mp found
          cases idx with
          | ofNat n => exact .fromStart index (item_ofNat items n ▸ found) (ih.mp h)
          | negSucc n => exact .fromEnd index (item_negSucc items n ▸ found) (ih.mp h)
      · intro h
        cases h with
        | fromStart index found below =>
          rw [index, Option.bind_some, item_ofNat, found]
          exact ih.mpr below
        | fromEnd index found below =>
          rw [index, Option.bind_some, item_negSucc, found]
          exact ih.mpr below
    | null | bool | int | float | str => exact iff_of_false nofun nofun

end Paths

section Specs

/-- One code point of a text that may hold lone surrogates: they stand in strings only, and one
that was not escaped joins no escaped one. -/
def scanPyChar (depth : Nat) (s : Scan × Bool) (c : PyChar) : Except PyExc (Scan × Bool) :=
  match c, s.1.mode with
  | .surrogate unit, .text isKey acc =>
    .ok (⟨.text isKey (acc ++ [.surrogate unit]), s.1.stack⟩, true)
  | .surrogate _, _ => (scanChar depth s.1 '!').map (·, false)
  | .scalar c, .hex isKey acc code left =>
    match s.2, left, hexValue c with
    | true, 1, some d => .ok (⟨.text isKey (acc ++ pushUnit [] (16 * code + d)), s.1.stack⟩, false)
    | _, _, _ => (scanChar depth s.1 c).map (·, s.2)
  | .scalar c, .escape _ _ => (scanChar depth s.1 c).map (·, s.2)
  | .scalar c, _ => (scanChar depth s.1 c).map (·, false)

/-- `json.loads` of any text. -/
def loadsText (depth : Nat) (text : PyStr) : Except PyExc Value := do
  endOfText (← text.foldlM (scanPyChar depth) (⟨.value, []⟩, false)).1

def maxPredicateSourceLen : Nat := 256

def segments (key : PyStr) : List PyStr :=
  key.splitOn (.scalar '.')

def parseOneMatch (depth : Nat) (spec : PyStr) : Except PyExc (PyStr × Value) :=
  let key := strip (spec.takeWhile (· ≠ .scalar '='))
  if .scalar '=' ∉ spec then .error .valueError
  else if key = [] then .error .valueError
  else if [] ∈ segments key then .error .valueError
  else
    match loadsText depth (spec.dropWhile (· ≠ .scalar '=')).tail with
    | .error .jsonDecodeError => .error .valueError
    | .error e => .error e
    | .ok value => .ok (key, value)

/-- `by_key.setdefault(key, []).append(value)`. -/
def addValue (byKey : List (PyStr × List Value)) (key : PyStr) (value : Value) :
    List (PyStr × List Value) :=
  if byKey.any (·.1 = key) then
    byKey.map fun entry => if entry.1 = key then (entry.1, entry.2 ++ [value]) else entry
  else byKey ++ [(key, [value])]

def addSpec (depth : Nat) (byKey : List (PyStr × List Value)) (spec : PyStr) :
    Except PyExc (List (PyStr × List Value)) :=
  if maxPredicateSourceLen < spec.length then .error .valueError
  else (parseOneMatch depth spec).map fun (key, value) => addValue byKey key value

/-- `parse_match`: the literals under each key, in the order of the specs. -/
def parseMatch (depth : Nat) (specs : List PyStr) : Except PyExc (List (PyStr × List Value)) :=
  specs.foldlM (addSpec depth) []

/-- The predicate that `parse_match` returns with these items. -/
def evaluate (decimal : Char → Option Nat) (items : List (PyStr × List Value)) (frame : Value) :
    Bool :=
  items.all fun (key, allowed) =>
    match dig decimal frame (segments key) with
    | none => false
    | some got => allowed.any (pyEqual got)

end Specs

section Semantics

variable {decimal : Char → Option Nat} {depth : Nat} {specs : List PyStr}
  {items : List (PyStr × List Value)} {frame : Value} {key : PyStr}

def Listed (depth : Nat) (specs : List PyStr) (key : PyStr) (literal : Value) : Prop :=
  ∃ spec ∈ specs, parseOneMatch depth spec = .ok (key, literal)

/-- Some listed literal of the key is so related to the value at its path. -/
def Hits (decimal : Char → Option Nat) (depth : Nat) (specs : List PyStr) (frame : Value)
    (related : Value → Value → Prop) (key : PyStr) : Prop :=
  ∃ literal got, Listed depth specs key literal ∧ At decimal frame (segments key) got ∧
    related got literal

/-- Every key has a literal that is the same JSON as the value at its path. -/
def TypedMatch (decimal : Char → Option Nat) (depth : Nat) (specs : List PyStr)
    (frame : Value) : Prop :=
  ∀ key literal, Listed depth specs key literal →
    Hits decimal depth specs frame (typedEqual · · = true) key

/-- The items hold under each key what is listed for it. -/
structure Groups (depth : Nat) (specs : List PyStr) (items : List (PyStr × List Value)) :
    Prop where
  listed : ∀ key allowed, (key, allowed) ∈ items → ∀ literal,
    literal ∈ allowed ↔ Listed depth specs key literal
  covers : ∀ key literal, Listed depth specs key literal → ∃ allowed, (key, allowed) ∈ items
  nonempty : ∀ key allowed, (key, allowed) ∈ items → allowed ≠ []

theorem listed_concat {spec : PyStr} {key' : PyStr} {value literal : Value}
    (h : parseOneMatch depth spec = .ok (key', value)) :
    Listed depth (specs ++ [spec]) key literal ↔
      Listed depth specs key literal ∨ key = key' ∧ literal = value := by
  have hlast : parseOneMatch depth spec = .ok (key, literal) ↔ key = key' ∧ literal = value := by
    rw [h, Except.ok.injEq, Prod.mk.injEq, eq_comm, eq_comm (a := value)]
  simp only [Listed, List.mem_append, List.mem_singleton, or_and_right, exists_or, exists_eq_left,
    hlast]

theorem mem_addValue {byKey : List (PyStr × List Value)} {value : Value} {key' : PyStr}
    {allowed : List Value} : (key', allowed) ∈ addValue byKey key value ↔
      (key' ≠ key ∧ (key', allowed) ∈ byKey) ∨
      (key' = key ∧ ∃ before, (key, before) ∈ byKey ∧ allowed = before ++ [value]) ∨
      (key' = key ∧ (∀ before, (key, before) ∉ byKey) ∧ allowed = [value]) := by
  rw [addValue]
  split
  · rename_i hknown
    have hold : ∃ before, (key, before) ∈ byKey := by simpa using hknown
    have hnew : ¬∀ before, (key, before) ∉ byKey := fun h => hold.elim h
    rw [List.mem_map]
    constructor
    · rintro ⟨⟨k, before⟩, hmem, heq⟩
      by_cases hk : k = key
      · subst hk
        rw [if_pos rfl, Prod.mk.injEq] at heq
        exact .inr (.inl ⟨heq.1.symm, before, hmem, heq.2.symm⟩)
      · rw [if_neg hk, Prod.mk.injEq] at heq
        exact .inl ⟨heq.1 ▸ hk, by rwa [← heq.1, ← heq.2]⟩
    · rintro (⟨hne, hmem⟩ | ⟨rfl, before, hmem, rfl⟩ | ⟨-, hnone, -⟩)
      · exact ⟨_, hmem, if_neg hne⟩
      · exact ⟨_, hmem, if_pos rfl⟩
      · exact absurd hnone hnew
  · rename_i hunknown
    have hnone : ∀ before, (key, before) ∉ byKey := by simpa using hunknown
    have hnew : ∀ k before, (k, before) ∈ byKey → k ≠ key := by
      rintro k before hmem rfl
      exact hnone before hmem
    rw [List.mem_append, List.mem_singleton, Prod.mk.injEq]
    constructor
    · rintro (hmem | ⟨rfl, rfl⟩)
      · exact .inl ⟨hnew _ _ hmem, hmem⟩
      · exact .inr (.inr ⟨rfl, hnone, rfl⟩)
    · rintro (⟨-, hmem⟩ | ⟨-, before, hmem, -⟩ | ⟨rfl, -, rfl⟩)
      · exact .inl hmem
      · exact absurd rfl (hnew _ _ hmem)
      · exact .inr ⟨rfl, rfl⟩

theorem groups_concat {spec : PyStr} {byKey : List (PyStr × List Value)}
    (hgroups : Groups depth specs items) (h : addSpec depth items spec = .ok byKey) :
    Groups depth (specs ++ [spec]) byKey := by
  rw [addSpec] at h
  split at h
  · nomatch h
  cases hspec : parseOneMatch depth spec with
  | error e =>
    rw [hspec] at h
    nomatch h
  | ok parsed =>
    obtain ⟨key, value⟩ := parsed
    rw [hspec, Except.map, Except.ok.injEq] at h
    subst h
    refine ⟨fun key' allowed hmem literal => ?_, fun key' literal hlisted => ?_,
      fun key' allowed hmem => ?_⟩
    · rw [listed_concat hspec]
      rcases mem_addValue.mp hmem with ⟨hne, hold⟩ | ⟨rfl, before, hold, rfl⟩ | ⟨rfl, hnew, rfl⟩
      · simp only [hne, false_and, or_false, hgroups.listed _ _ hold]
      · simp only [List.mem_append, List.mem_singleton, hgroups.listed _ _ hold, true_and]
      · have hnone : ¬Listed depth specs key' literal := fun hlisted => by
          obtain ⟨before, hbefore⟩ := hgroups.covers _ _ hlisted
          exact hnew before hbefore
        simp only [List.mem_singleton, hnone, false_or, true_and]
    · simp only [mem_addValue]
      by_cases hkey : key' = key
      · subst hkey
        by_cases hold : ∃ before, (key', before) ∈ items
        · obtain ⟨before, hbefore⟩ := hold
          exact ⟨_, .inr (.inl ⟨rfl, before, hbefore, rfl⟩)⟩
        · exact ⟨_, .inr (.inr ⟨rfl, not_exists.mp hold, rfl⟩)⟩
      · rcases (listed_concat hspec).mp hlisted with hlisted | ⟨hsame, -⟩
        · obtain ⟨allowed, hallowed⟩ := hgroups.covers _ _ hlisted
          exact ⟨allowed, .inl ⟨hkey, hallowed⟩⟩
        · exact absurd hsame hkey
    · rcases mem_addValue.mp hmem with ⟨-, hmem⟩ | ⟨-, before, -, rfl⟩ | ⟨-, -, rfl⟩
      · exact hgroups.nonempty _ _ hmem
      · simp
      · simp

theorem parseMatch_groups (h : parseMatch depth specs = .ok items) : Groups depth specs items := by
  induction specs using List.reverseRecOn generalizing items with
  | nil =>
    obtain rfl := Except.ok.inj h
    exact ⟨by simp, by simp [Listed], by simp⟩
  | append_singleton specs spec ih =>
    rw [parseMatch, List.foldlM_append] at h
    cases hspecs : specs.foldlM (addSpec depth) [] with
    | error e =>
      rw [hspecs] at h
      nomatch h
    | ok before =>
      rw [hspecs] at h
      refine groups_concat (ih hspecs) ?_
      change (List.foldlM (addSpec depth) before [spec]) = _ at h
      rw [List.foldlM_cons] at h
      exact (bind_pure (addSpec depth before spec)).symm.trans h

theorem evaluate_iff (h : parseMatch depth specs = .ok items) :
    evaluate decimal items frame = true ↔ ∀ key literal, Listed depth specs key literal →
      Hits decimal depth specs frame (pyEqual · · = true) key := by
  have hgroups := parseMatch_groups h
  have hitem : ∀ key allowed, (key, allowed) ∈ items →
      ((match dig decimal frame (segments key) with
        | none => false
        | some got => allowed.any (pyEqual got)) = true ↔
      Hits decimal depth specs frame (pyEqual · · = true) key) := by
    intro key allowed hmem
    simp only [Hits, ← dig_iff, ← hgroups.listed key allowed hmem]
    cases dig decimal frame (segments key) with
    | none => simp
    | some got => simp
  rw [evaluate, List.all_eq_true]
  constructor
  · intro hall key literal hlisted
    obtain ⟨allowed, hmem⟩ := hgroups.covers key literal hlisted
    exact (hitem key allowed hmem).mp (hall _ hmem)
  · rintro hall ⟨key, allowed⟩ hmem
    obtain ⟨literal, hliteral⟩ := List.exists_mem_of_ne_nil _ (hgroups.nonempty key allowed hmem)
    exact (hitem key allowed hmem).mpr (hall key literal ((hgroups.listed _ _ hmem _).mp hliteral))

/-- The value is confused with a literal of the key, and none is the same JSON. -/
def OnlyConfused (decimal : Char → Option Nat) (depth : Nat) (specs : List PyStr)
    (frame : Value) (key : PyStr) : Prop :=
  Hits decimal depth specs frame Confused key ∧
    ¬Hits decimal depth specs frame (typedEqual · · = true) key

/-- No literal of the key is the same JSON as the value at its path, or confused with it. -/
def Unmatched (decimal : Char → Option Nat) (depth : Nat) (specs : List PyStr) (frame : Value)
    (key : PyStr) : Prop :=
  (∃ literal, Listed depth specs key literal) ∧
    ¬Hits decimal depth specs frame (typedEqual · · = true) key ∧
    ¬Hits decimal depth specs frame Confused key

theorem hits_pyEqual : Hits decimal depth specs frame (pyEqual · · = true) key ↔
    Hits decimal depth specs frame (typedEqual · · = true) key ∨
      Hits decimal depth specs frame Confused key := by
  simp only [Hits, pyEqual_iff, and_or_left, exists_or]

/-- The predicate is the documented one, but where each key has a literal that is equal once
booleans are read as numbers, and some key no other. -/
theorem parseMatch_typed (h : parseMatch depth specs = .ok items) (frame : Value) :
    (evaluate decimal items frame = true ↔ TypedMatch decimal depth specs frame) ↔
      (∀ key, ¬OnlyConfused decimal depth specs frame key) ∨
        ∃ key, Unmatched decimal depth specs frame key := by
  simp only [evaluate_iff h, hits_pyEqual]
  constructor
  · intro hiff
    by_cases hunmatched : ∃ key, Unmatched decimal depth specs frame key
    · exact .inr hunmatched
    refine .inl fun key honly => ?_
    have hall : TypedMatch decimal depth specs frame := by
      refine hiff.mp fun key literal hlisted => ?_
      by_contra hno
      exact hunmatched ⟨key, ⟨literal, hlisted⟩, not_or.mp hno⟩
    obtain ⟨literal, got, hlisted, -, -⟩ := honly.1
    exact honly.2 (hall key literal hlisted)
  · intro hclear
    constructor
    · intro hall key literal hlisted
      rcases hclear with hclear | ⟨other, ⟨literal', hlisted'⟩, htyped, hconfused⟩
      · by_contra hno
        exact hclear key ⟨(hall key literal hlisted).resolve_left hno, hno⟩
      · exact absurd (hall other literal' hlisted') (not_or.mpr ⟨htyped, hconfused⟩)
    · intro htyped key literal hlisted
      exact .inl (htyped key literal hlisted)

/-- The frame `{"fields":{"merged":true}}`. -/
def mergedFrame : Value :=
  .obj [(ofText "fields", .obj [(ofText "merged", .bool true)])]

theorem parseMatch_typed_merged :
    (evaluate digit [(ofText "fields.merged", [.bool true])] mergedFrame = true ↔
      TypedMatch digit 990 [ofText "fields.merged=true"] mergedFrame) ↔
    (∀ key, ¬OnlyConfused digit 990 [ofText "fields.merged=true"] mergedFrame key) ∨
      ∃ key, Unmatched digit 990 [ofText "fields.merged=true"] mergedFrame key :=
  parseMatch_typed (show parseMatch 990 [ofText "fields.merged=true"] = .ok _ from rfl) mergedFrame

/-- `fields.merged=1` is true of a frame whose value there is `true`. -/
theorem parseMatch_confuses :
    ∃ items, parseMatch 990 [ofText "fields.merged=1"] = .ok items ∧
      ¬(evaluate digit items mergedFrame = true ↔
        TypedMatch digit 990 [ofText "fields.merged=1"] mergedFrame) := by
  have hparse : parseMatch 990 [ofText "fields.merged=1"] =
      .ok [(ofText "fields.merged", [.int 1])] := rfl
  have hlisted := (parseMatch_groups hparse).listed (ofText "fields.merged") [.int 1]
    (List.mem_singleton.mpr rfl)
  refine ⟨_, hparse, fun hiff => ?_⟩
  have htyped := hiff.mp (by decide) (ofText "fields.merged") (.int 1)
    ((hlisted _).mp (List.mem_singleton.mpr rfl))
  obtain ⟨literal, got, hliteral, hat, hequal⟩ := htyped
  obtain rfl := List.mem_singleton.mp ((hlisted literal).mpr hliteral)
  have hgot : dig digit mergedFrame (segments (ofText "fields.merged")) = some (.bool true) := rfl
  obtain rfl := Option.some.inj (hgot.symm.trans (dig_iff.mpr hat))
  nomatch hequal

end Semantics

end Waitbus.Predicate
