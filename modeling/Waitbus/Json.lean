import Waitbus.Python

/-! JSON as the daemon meets it: the compact text its encoder writes, and `json.loads` as a
left-to-right scanner with the containers still open held in a list, so that the depth the
interpreter limits is the length of that list and no scan runs out of anything else. -/

namespace Waitbus.Json
open Python

inductive FloatLit where
  | number (neg : Bool) (mantissa : Nat) (exponent : Int)
  | infinity (neg : Bool)
  | nan
  deriving DecidableEq, Repr

inductive Value where
  | null
  | bool (b : Bool)
  | int (n : Int)
  | float (lit : FloatLit)
  | str (s : PyStr)
  | arr (items : List Value)
  | obj (pairs : List (PyStr × Value))

/-- Nonzero as a double: a literal of at most half the least subnormal rounds to zero. -/
def FloatLit.truthy : FloatLit → Bool
  | .number _ mantissa (.ofNat _) => mantissa ≠ 0
  | .number _ mantissa (.negSucc k) => 10 ^ (k + 1) < mantissa * 2 ^ 1075
  | .infinity _ | .nan => true

/-- `bool(value)`. -/
def Value.truthy : Value → Bool
  | .null => false
  | .bool b => b
  | .int n => n ≠ 0
  | .float lit => lit.truthy
  | .str s => s ≠ []
  | .arr items => !items.isEmpty
  | .obj pairs => !pairs.isEmpty

/-- `d.get(key)` of a decoded object, whose later keys replace earlier ones. -/
def lookup (key : String) (pairs : List (PyStr × Value)) : Option Value :=
  (pairs.find? (·.1 = ofText key)).map (·.2)

/-- `d[key] = value`. -/
def setItem (pairs : List (PyStr × Value)) (key : PyStr) (value : Value) : List (PyStr × Value) :=
  if pairs.any (·.1 = key) then pairs.map fun p => if p.1 = key then (key, value) else p
  else pairs ++ [(key, value)]

section Compact

def hexDigit (n : Nat) : UInt8 :=
  UInt8.ofNat (if n < 10 then 0x30 + n else 0x57 + n)

def escapeChar (c : Char) : Bytes :=
  match c.toNat with
  | 0x22 => [0x5c, 0x22]
  | 0x5c => [0x5c, 0x5c]
  | 0x0a => [0x5c, 0x6e]
  | 0x0d => [0x5c, 0x72]
  | 0x09 => [0x5c, 0x74]
  | 0x08 => [0x5c, 0x62]
  | 0x0c => [0x5c, 0x66]
  | code =>
    if code < 0x20 then [0x5c, 0x75, 0x30, 0x30, hexDigit (code / 16), hexDigit (code % 16)]
    else String.utf8EncodeChar c

def ascii (s : String) : Bytes :=
  s.toList.map fun c => UInt8.ofNat c.toNat

/-- The bytes of a JSON string's contents; a lone surrogate has none. -/
def escape (s : PyStr) : Bytes :=
  s.flatMap fun c => (c.toScalar.map escapeChar).getD []

def quoted (s : PyStr) : Bytes :=
  0x22 :: escape s ++ [0x22]

def commaSep : List Bytes → Bytes
  | [] => []
  | [item] => item
  | item :: rest => item ++ 0x2c :: commaSep rest

mutual

def Value.compact : Value → Bytes
  | .null => ascii "null"
  | .bool b => ascii (if b then "true" else "false")
  | .int n => ascii (toString n)
  | .float _ => []
  | .str s => quoted s
  | .arr items => 0x5b :: commaSep (compactItems items) ++ [0x5d]
  | .obj pairs => 0x7b :: commaSep (compactPairs pairs) ++ [0x7d]

def compactItems : List Value → List Bytes
  | [] => []
  | item :: rest => item.compact :: compactItems rest

def compactPairs : List (PyStr × Value) → List Bytes
  | [] => []
  | (key, value) :: rest => (quoted key ++ 0x3a :: value.compact) :: compactPairs rest

end

mutual

def Value.scalar : Value → Bool
  | .null | .bool _ | .int _ | .float _ => true
  | .str s => Scalar s
  | .arr items => scalarItems items
  | .obj pairs => scalarPairs pairs

def scalarItems : List Value → Bool
  | [] => true
  | item :: rest => item.scalar && scalarItems rest

def scalarPairs : List (PyStr × Value) → Bool
  | [] => true
  | (key, value) :: rest => Scalar key && value.scalar && scalarPairs rest

end

mutual

/-- Only values the wire's structs hold: no float, and integers of at most 64 bits. -/
def Value.wire : Value → Bool
  | .null | .bool _ | .str _ => true
  | .int n => -2 ^ 63 ≤ n ∧ n < 2 ^ 64
  | .float _ => false
  | .arr items => wireItems items
  | .obj pairs => wirePairs pairs

def wireItems : List Value → Bool
  | [] => true
  | item :: rest => item.wire && wireItems rest

def wirePairs : List (PyStr × Value) → Bool
  | [] => true
  | (_, value) :: rest => value.wire && wirePairs rest

end

end Compact

section Loads

inductive Container where
  | array (items : List Value)
  | object (pairs : List (PyStr × Value)) (key : Option PyStr)

inductive NumPhase where
  | sign | zero | int | dot | frac | exp | expSign | expDigits
  deriving DecidableEq

structure NumScan where
  neg : Bool
  phase : NumPhase
  int : Nat
  intDigits : Nat
  frac : Nat
  fracDigits : Nat
  expNeg : Bool
  exp : Nat

inductive Mode where
  | value
  | firstItem
  | firstKey
  | nextKey
  | colon
  | after
  | text (isKey : Bool) (acc : PyStr)
  | escape (isKey : Bool) (acc : PyStr)
  | hex (isKey : Bool) (acc : PyStr) (code left : Nat)
  | number (n : NumScan)
  | word (rest : List Char) (v : Value)
  | done (v : Value)

structure Scan where
  mode : Mode
  stack : List Container

def isWhite (c : Char) : Bool :=
  [0x20, 0x09, 0x0a, 0x0d].contains c.toNat

def digit (c : Char) : Option Nat :=
  if 0x30 ≤ c.toNat ∧ c.toNat ≤ 0x39 then some (c.toNat - 0x30) else none

def hexValue (c : Char) : Option Nat :=
  if 0x61 ≤ c.toNat ∧ c.toNat ≤ 0x66 then some (c.toNat - 0x57)
  else if 0x41 ≤ c.toNat ∧ c.toNat ≤ 0x46 then some (c.toNat - 0x37)
  else digit c

def intMaxStrDigits : Nat := 4300

def NumScan.extend (n : NumScan) (c : Char) : Option NumScan :=
  let isDot := c.toNat = 0x2e
  let isExp := c.toNat = 0x65 ∨ c.toNat = 0x45
  match n.phase, digit c with
  | .sign, some 0 => some { n with phase := .zero, intDigits := 1 }
  | .sign, some d => some { n with phase := .int, int := d, intDigits := 1 }
  | .int, some d => some { n with int := 10 * n.int + d, intDigits := n.intDigits + 1 }
  | .dot, some d | .frac, some d =>
    some { n with phase := .frac, frac := 10 * n.frac + d, fracDigits := n.fracDigits + 1 }
  | .exp, some d | .expSign, some d | .expDigits, some d =>
    some { n with phase := .expDigits, exp := 10 * n.exp + d }
  | .zero, none | .int, none =>
    if isDot then some { n with phase := .dot }
    else if isExp then some { n with phase := .exp }
    else none
  | .frac, none => if isExp then some { n with phase := .exp } else none
  | .exp, none =>
    if c.toNat = 0x2b then some { n with phase := .expSign }
    else if c.toNat = 0x2d then some { n with phase := .expSign, expNeg := true }
    else none
  | _, _ => none

/-- The number that ends here. A dangling point or exponent is left to the delimiter check, which
refuses it, but only after the integer before it has been converted. -/
def NumScan.close (n : NumScan) : Except PyExc Value :=
  let signed (k : Nat) : Int := if n.neg then -k else k
  let tooLong := intMaxStrDigits < n.intDigits
  match n.phase with
  | .sign => .error .jsonDecodeError
  | .zero | .int => if tooLong then .error .valueError else .ok (.int (signed n.int))
  | .dot => .error (if tooLong then .valueError else .jsonDecodeError)
  | .exp | .expSign =>
    .error (if n.fracDigits = 0 ∧ tooLong then .valueError else .jsonDecodeError)
  | .frac | .expDigits =>
    let exponent : Int := if n.expNeg then -n.exp else n.exp
    .ok (.float (.number n.neg (n.int * 10 ^ n.fracDigits + n.frac) (exponent - n.fracDigits)))

def finish (v : Value) : List Container → Scan
  | .array items :: rest => ⟨.after, .array (items ++ [v]) :: rest⟩
  | .object pairs (some key) :: rest => ⟨.after, .object (setItem pairs key v) none :: rest⟩
  | stack => ⟨.done v, stack⟩

def delimiter (s : Scan) (c : Char) : Except PyExc Scan :=
  if isWhite c then .ok s
  else match s.mode, s.stack, c with
  | .after, .array items :: rest, ',' => .ok ⟨.value, .array items :: rest⟩
  | .after, .array items :: rest, ']' => .ok (finish (.arr items) rest)
  | .after, .object pairs key :: rest, ',' => .ok ⟨.nextKey, .object pairs key :: rest⟩
  | .after, .object pairs _ :: rest, '}' => .ok (finish (.obj pairs) rest)
  | _, _, _ => .error .jsonDecodeError

def number (neg : Bool) : NumScan :=
  ⟨neg, .sign, 0, 0, 0, 0, false, 0⟩

/-- The first character of a value; entering one container too many is the interpreter's
recursion limit. -/
def startValue (depth : Nat) (stack : List Container) (c : Char) : Except PyExc Scan :=
  match c with
  | '[' =>
    if depth ≤ stack.length then .error .recursionError else .ok ⟨.firstItem, .array [] :: stack⟩
  | '{' =>
    if depth ≤ stack.length then .error .recursionError
    else .ok ⟨.firstKey, .object [] none :: stack⟩
  | 't' => .ok ⟨.word ['r', 'u', 'e'] (.bool true), stack⟩
  | 'f' => .ok ⟨.word ['a', 'l', 's', 'e'] (.bool false), stack⟩
  | 'n' => .ok ⟨.word ['u', 'l', 'l'] .null, stack⟩
  | 'N' => .ok ⟨.word ['a', 'N'] (.float .nan), stack⟩
  | 'I' => .ok ⟨.word ['n', 'f', 'i', 'n', 'i', 't', 'y'] (.float (.infinity false)), stack⟩
  | '-' => .ok ⟨.number (number true), stack⟩
  | c =>
    if c.toNat = 0x22 then .ok ⟨.text false [], stack⟩
    else match (number false).extend c with
      | some n => .ok ⟨.number n, stack⟩
      | none => .error .jsonDecodeError

def startKey (stack : List Container) (c : Char) : Except PyExc Scan :=
  if c.toNat = 0x22 then .ok ⟨.text true [], stack⟩ else .error .jsonDecodeError

def endText (isKey : Bool) (acc : PyStr) (stack : List Container) : Scan :=
  match isKey, stack with
  | true, .object pairs _ :: rest => ⟨.colon, .object pairs (some acc) :: rest⟩
  | _, stack => finish (.str acc) stack

/-- One UTF-16 unit of a `\u` escape; a low surrogate joins the high one right before it. -/
def pushUnit (acc : PyStr) (code : Nat) : PyStr :=
  if h : 0xd800 ≤ code ∧ code < 0xe000 then
    match acc.getLast? with
    | some (.surrogate high) =>
      if high.val < 0x400 ∧ 0xdc00 ≤ code then
        acc.dropLast ++ [.scalar (Char.ofNat (0x10000 + high.val * 0x400 + (code - 0xdc00)))]
      else acc ++ [.surrogate ⟨code - 0xd800, by omega⟩]
    | _ => acc ++ [.surrogate ⟨code - 0xd800, by omega⟩]
  else acc ++ [.scalar (Char.ofNat code)]

def unescape (c : Char) : Option Char :=
  match c.toNat with
  | 0x22 | 0x5c | 0x2f => some c
  | 0x62 => some (Char.ofNat 0x08)
  | 0x66 => some (Char.ofNat 0x0c)
  | 0x6e => some (Char.ofNat 0x0a)
  | 0x72 => some (Char.ofNat 0x0d)
  | 0x74 => some (Char.ofNat 0x09)
  | _ => none

def scanChar (depth : Nat) (s : Scan) (c : Char) : Except PyExc Scan :=
  match s.mode with
  | .value => if isWhite c then .ok s else startValue depth s.stack c
  | .firstItem =>
    if isWhite c then .ok s
    else match s.stack, c with
    | .array items :: rest, ']' => .ok (finish (.arr items) rest)
    | stack, c => startValue depth stack c
  | .firstKey =>
    if isWhite c then .ok s
    else match s.stack, c with
    | .object pairs _ :: rest, '}' => .ok (finish (.obj pairs) rest)
    | stack, c => startKey stack c
  | .nextKey => if isWhite c then .ok s else startKey s.stack c
  | .colon =>
    if isWhite c then .ok s
    else if c.toNat = 0x3a then .ok ⟨.value, s.stack⟩
    else .error .jsonDecodeError
  | .after | .done _ => delimiter s c
  | .text isKey acc =>
    if c.toNat = 0x22 then .ok (endText isKey acc s.stack)
    else if c.toNat = 0x5c then .ok ⟨.escape isKey acc, s.stack⟩
    else if c.toNat < 0x20 then .error .jsonDecodeError
    else .ok ⟨.text isKey (acc ++ [.scalar c]), s.stack⟩
  | .escape isKey acc =>
    if c.toNat = 0x75 then .ok ⟨.hex isKey acc 0 4, s.stack⟩
    else match unescape c with
      | some d => .ok ⟨.text isKey (acc ++ [.scalar d]), s.stack⟩
      | none => .error .jsonDecodeError
  | .hex isKey acc code left =>
    match hexValue c with
    | none => .error .jsonDecodeError
    | some d =>
      if left ≤ 1 then .ok ⟨.text isKey (pushUnit acc (16 * code + d)), s.stack⟩
      else .ok ⟨.hex isKey acc (16 * code + d) (left - 1), s.stack⟩
  | .number n =>
    match n.extend c with
    | some n => .ok ⟨.number n, s.stack⟩
    | none =>
      if n.phase = .sign ∧ c.toNat = 0x49 then
        .ok ⟨.word ['n', 'f', 'i', 'n', 'i', 't', 'y'] (.float (.infinity true)), s.stack⟩
      else do delimiter (finish (← n.close) s.stack) c
  | .word [] v => delimiter (finish v s.stack) c
  | .word (d :: rest) v =>
    if c ≠ d then .error .jsonDecodeError
    else .ok (if rest = [] then finish v s.stack else ⟨.word rest v, s.stack⟩)

def endOfText (s : Scan) : Except PyExc Value :=
  match s.mode, s.stack with
  | .done v, [] => .ok v
  | .number n, [] => n.close
  | .number n, _ => do
    let _ ← n.close
    .error .jsonDecodeError
  | _, _ => .error .jsonDecodeError

/-- `json.loads`, with `depth` containers the interpreter can enter. -/
def loads (depth : Nat) (text : String) : Except PyExc Value := do
  endOfText (← text.toList.foldlM (scanChar depth) ⟨.value, []⟩)

end Loads

end Waitbus.Json
