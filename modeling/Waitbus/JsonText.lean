import Mathlib
import Waitbus.Json

/-! `json.loads` reads back what the compact encoder writes: the bytes are the UTF-8 of a text, and
the scan of that text ends in the value it is the text of. -/

namespace Waitbus.Json
open Python

section Texts

/-- `bytes.decode("utf-8")`. -/
def decodeUtf8 (bytes : Bytes) : Option String :=
  (ByteArray.mk bytes.toArray).utf8Decode?.map fun chars => String.ofList chars.toList

/-- `json.loads(data.decode("utf-8"))`; `none` is its UnicodeDecodeError. -/
def decoded (depth : Nat) (data : Bytes) : Option (Except PyExc Value) :=
  (decodeUtf8 data).map (loads depth)

def utf8 (chars : List Char) : Bytes :=
  chars.flatMap String.utf8EncodeChar

def escapeText (c : Char) : List Char :=
  match c.toNat with
  | 0x22 => ['\\', '"']
  | 0x5c => ['\\', '\\']
  | 0x0a => ['\\', 'n']
  | 0x0d => ['\\', 'r']
  | 0x09 => ['\\', 't']
  | 0x08 => ['\\', 'b']
  | 0x0c => ['\\', 'f']
  | code =>
    if code < 0x20 then ['\\', 'u', '0', '0', hexChar (code / 16), hexChar (code % 16)] else [c]

def escaped (s : PyStr) : List Char :=
  s.flatMap fun c => (c.toScalar.map escapeText).getD []

def quotedText (s : PyStr) : List Char :=
  '"' :: escaped s ++ ['"']

def commaText : List (List Char) → List Char
  | [] => []
  | [item] => item
  | item :: rest => item ++ ',' :: commaText rest

mutual

/-- The text whose bytes `Value.compact` is. -/
def Value.chars : Value → List Char
  | .null => ['n', 'u', 'l', 'l']
  | .bool b => if b then ['t', 'r', 'u', 'e'] else ['f', 'a', 'l', 's', 'e']
  | .int n => (toString n).toList
  | .float _ => []
  | .str s => quotedText s
  | .arr items => '[' :: commaText (charsItems items) ++ [']']
  | .obj pairs => '{' :: commaText (charsPairs pairs) ++ ['}']

def charsItems : List Value → List (List Char)
  | [] => []
  | item :: rest => item.chars :: charsItems rest

def charsPairs : List (PyStr × Value) → List (List Char)
  | [] => []
  | (key, value) :: rest => (quotedText key ++ ':' :: value.chars) :: charsPairs rest

end

@[simp] theorem utf8_append (a b : List Char) : utf8 (a ++ b) = utf8 a ++ utf8 b :=
  List.flatMap_append

theorem utf8_cons (c : Char) (rest : List Char) :
    utf8 (c :: rest) = String.utf8EncodeChar c ++ utf8 rest :=
  List.flatMap_cons

theorem decodeUtf8_utf8 (chars : List Char) :
    decodeUtf8 (utf8 chars) = some (String.ofList chars) := by
  have henc : ByteArray.mk (utf8 chars).toArray = chars.utf8Encode := by
    rw [List.utf8Encode, ← utf8]
    apply ByteArray.ext
    simp
  rw [decodeUtf8, henc, List.utf8Decode?_utf8Encode]
  simp

theorem utf8EncodeChar_ascii {c : Char} (h : c.toNat < 0x80) :
    String.utf8EncodeChar c = [UInt8.ofNat c.toNat] := by
  have hle : c.val.toNat ≤ 0x7f := Nat.le_of_lt_succ h
  simp only [String.utf8EncodeChar, hle, if_true]
  rfl

theorem utf8_hexChar {n : Nat} (h : n < 16) :
    String.utf8EncodeChar (hexChar n) = [hexDigit n] := by
  have hall : ∀ k : Fin 16, String.utf8EncodeChar (hexChar k) = [hexDigit k] := by decide
  exact hall ⟨n, h⟩

theorem escapeChar_plain {c : Char} (h : c.toNat ∉ [0x22, 0x5c, 0x0a, 0x0d, 0x09, 0x08, 0x0c]) :
    escapeText c = (if c.toNat < 0x20 then
        ['\\', 'u', '0', '0', hexChar (c.toNat / 16), hexChar (c.toNat % 16)] else [c]) ∧
      escapeChar c = if c.toNat < 0x20 then
        [0x5c, 0x75, 0x30, 0x30, hexDigit (c.toNat / 16), hexDigit (c.toNat % 16)]
        else String.utf8EncodeChar c := by
  simp only [List.mem_cons, List.not_mem_nil, or_false, not_or] at h
  unfold escapeText escapeChar
  constructor
  · split
    all_goals first | rfl | omega
  · split
    all_goals first | rfl | omega

theorem escape_cases (c : Char) :
    (∃ e, escapeText c = ['\\', e] ∧ escapeChar c = utf8 ['\\', e] ∧ unescape e = some c ∧
      e.toNat ≠ 0x75) ∨
    (c.toNat < 0x20 ∧
      escapeText c = ['\\', 'u', '0', '0', hexChar (c.toNat / 16), hexChar (c.toNat % 16)] ∧
      escapeChar c =
        [0x5c, 0x75, 0x30, 0x30, hexDigit (c.toNat / 16), hexDigit (c.toNat % 16)]) ∨
    (0x20 ≤ c.toNat ∧ c.toNat ≠ 0x22 ∧ c.toNat ≠ 0x5c ∧ escapeText c = [c] ∧
      escapeChar c = String.utf8EncodeChar c) := by
  by_cases h : c.toNat ∈ [0x22, 0x5c, 0x0a, 0x0d, 0x09, 0x08, 0x0c]
  · left
    simp only [List.mem_cons, List.not_mem_nil, or_false] at h
    have hc : ∀ k, c.toNat = k → c = Char.ofNat k := fun k hk => by rw [← hk, Char.ofNat_toNat]
    rcases h with h | h | h | h | h | h | h
    · obtain rfl := hc _ h
      exact ⟨'"', rfl, rfl, rfl, by decide⟩
    · obtain rfl := hc _ h
      exact ⟨'\\', rfl, rfl, rfl, by decide⟩
    · obtain rfl := hc _ h
      exact ⟨'n', rfl, rfl, rfl, by decide⟩
    · obtain rfl := hc _ h
      exact ⟨'r', rfl, rfl, rfl, by decide⟩
    · obtain rfl := hc _ h
      exact ⟨'t', rfl, rfl, rfl, by decide⟩
    · obtain rfl := hc _ h
      exact ⟨'b', rfl, rfl, rfl, by decide⟩
    · obtain rfl := hc _ h
      exact ⟨'f', rfl, rfl, rfl, by decide⟩
  · right
    obtain ⟨htext, hbytes⟩ := escapeChar_plain h
    simp only [List.mem_cons, List.not_mem_nil, or_false, not_or] at h
    by_cases hlt : c.toNat < 0x20
    · rw [if_pos hlt] at htext hbytes
      exact .inl ⟨hlt, htext, hbytes⟩
    · rw [if_neg hlt] at htext hbytes
      exact .inr ⟨not_lt.mp hlt, h.1, h.2.1, htext, hbytes⟩

theorem escapeChar_eq (c : Char) : escapeChar c = utf8 (escapeText c) := by
  rcases escape_cases c with ⟨e, htext, hbytes, -⟩ | ⟨hlt, htext, hbytes⟩ | ⟨-, -, -, htext, hbytes⟩
  · rw [htext, hbytes]
  · have hhigh := utf8_hexChar (n := c.toNat / 16) (by omega)
    have hlow := utf8_hexChar (n := c.toNat % 16) (by omega)
    rw [htext, hbytes]
    simp only [utf8, List.flatMap_cons, List.flatMap_nil, hhigh, hlow]
    rfl
  · rw [htext, hbytes]
    simp [utf8]

theorem escape_eq (s : PyStr) : escape s = utf8 (escaped s) := by
  induction s with
  | nil => rfl
  | cons c rest ih =>
    have hsplit : escaped (c :: rest) = (c.toScalar.map escapeText).getD [] ++ escaped rest :=
      List.flatMap_cons
    have hbytes : escape (c :: rest) = (c.toScalar.map escapeChar).getD [] ++ escape rest :=
      List.flatMap_cons
    rw [hsplit, hbytes, ih, utf8_append]
    cases c with
    | scalar c =>
      show escapeChar c ++ _ = utf8 (escapeText c) ++ _
      rw [escapeChar_eq]
    | surrogate unit => rfl

theorem quoted_eq (s : PyStr) : quoted s = utf8 (quotedText s) := by
  rw [quoted, escape_eq, quotedText, utf8_append, utf8_cons]
  rfl

theorem commaSep_eq (items : List (List Char)) :
    commaSep (items.map utf8) = utf8 (commaText items) := by
  induction items with
  | nil => rfl
  | cons item rest ih =>
    cases rest with
    | nil => rfl
    | cons next rest =>
      show utf8 item ++ 0x2c :: commaSep ((next :: rest).map utf8) =
        utf8 (item ++ ',' :: commaText (next :: rest))
      rw [ih, utf8_append, utf8_cons]
      rfl

theorem ascii_eq {s : String} (h : ∀ c ∈ s.toList, c.toNat < 0x80) :
    ascii s = utf8 s.toList := by
  rw [ascii, utf8]
  generalize s.toList = l at h
  induction l with
  | nil => rfl
  | cons c rest ih =>
    have hrest : ∀ d ∈ rest, d.toNat < 0x80 := fun d hd => h d (List.mem_cons_of_mem _ hd)
    rw [List.map_cons, List.flatMap_cons, ih hrest, utf8EncodeChar_ascii (h c List.mem_cons_self)]
    rfl

theorem digit_ascii {n : Nat} {c : Char} (h : c ∈ Nat.toDigits 10 n) : c.toNat < 0x80 := by
  have hdigit := Nat.isDigit_of_mem_toDigits (by decide) (by decide) h
  simp only [Char.isDigit, Bool.and_eq_true, decide_eq_true_eq] at hdigit
  have hle : c.toNat ≤ 57 := hdigit.2
  omega

theorem int_chars (n : Int) : (toString n).toList =
    if n < 0 then '-' :: Nat.toDigits 10 n.natAbs else Nat.toDigits 10 n.natAbs := by
  cases n with
  | ofNat k =>
    rw [if_neg (by simp)]
    exact Nat.toList_repr
  | negSucc k =>
    rw [if_pos (Int.negSucc_lt_zero k)]
    show ("-" ++ (k + 1).repr).toList = _
    rw [String.toList_append, Nat.toList_repr]
    rfl

theorem ascii_int (n : Int) : ascii (toString n) = utf8 (toString n).toList := by
  refine ascii_eq fun c hc => ?_
  rw [int_chars] at hc
  split at hc
  · rcases List.mem_cons.mp hc with rfl | hc
    · decide
    · exact digit_ascii hc
  · exact digit_ascii hc

mutual

theorem compact_eq : ∀ v : Value, v.compact = utf8 v.chars
  | .null => rfl
  | .bool true => rfl
  | .bool false => rfl
  | .int n => ascii_int n
  | .float _ => rfl
  | .str s => quoted_eq s
  | .arr items => by
    rw [Value.compact, compactItems_eq items, commaSep_eq, Value.chars, utf8_append, utf8_cons]
    rfl
  | .obj pairs => by
    rw [Value.compact, compactPairs_eq pairs, commaSep_eq, Value.chars, utf8_append, utf8_cons]
    rfl

theorem compactItems_eq : ∀ items, compactItems items = (charsItems items).map utf8
  | [] => rfl
  | item :: rest => by
    rw [compactItems, compact_eq item, compactItems_eq rest, charsItems, List.map_cons]

theorem compactPairs_eq : ∀ pairs, compactPairs pairs = (charsPairs pairs).map utf8
  | [] => rfl
  | (key, value) :: rest => by
    rw [compactPairs, quoted_eq, compact_eq value, compactPairs_eq rest, charsPairs,
      List.map_cons, utf8_append, utf8_cons]
    rfl

end

end Texts

section Legible

mutual

/-- What `json.loads` gives back when it has `room` containers to enter: no float and no lone
surrogate, integers that are not too long, and one value for a key. -/
def Value.Legible (room : Nat) : Value → Prop
  | .null | .bool _ => True
  | .int n => n.natAbs < 10 ^ intMaxStrDigits
  | .float _ => False
  | .str s => Scalar s
  | .arr items => 0 < room ∧ legibleItems (room - 1) items
  | .obj pairs => 0 < room ∧ (pairs.map (·.1)).Nodup ∧ legiblePairs (room - 1) pairs

def legibleItems (room : Nat) : List Value → Prop
  | [] => True
  | item :: rest => item.Legible room ∧ legibleItems room rest

def legiblePairs (room : Nat) : List (PyStr × Value) → Prop
  | [] => True
  | (key, value) :: rest => Scalar key ∧ value.Legible room ∧ legiblePairs room rest

end

end Legible

section Scanning

variable {depth : Nat} {s t u : Scan} {st : List Container}

/-- The scan goes from `s` to `t` over the text. -/
def Runs (depth : Nat) (s : Scan) (chars : List Char) (t : Scan) : Prop :=
  chars.foldlM (scanChar depth) s = .ok t

theorem Runs.nil (s : Scan) : Runs depth s [] s :=
  rfl

theorem Runs.step {c : Char} {rest : List Char} (h : scanChar depth s c = .ok t)
    (hrest : Runs depth t rest u) : Runs depth s (c :: rest) u := by
  rw [Runs, List.foldlM_cons, h]
  exact hrest

theorem Runs.single {c : Char} (h : scanChar depth s c = .ok t) : Runs depth s [c] t :=
  .step h (.nil t)

theorem Runs.trans {a b : List Char} (h : Runs depth s a t) (h' : Runs depth t b u) :
    Runs depth s (a ++ b) u := by
  rw [Runs, List.foldlM_append, h]
  exact h'

/-- After the text of `v`, the scan goes on as from the finished value. -/
structure Settles (depth : Nat) (s : Scan) (v : Value) (st : List Container) : Prop where
  delimiter : ∀ c, c = ',' ∨ c = ']' ∨ c = '}' → scanChar depth s c = delimiter (finish v st) c
  ends : endOfText s = endOfText (finish v st)

theorem settles_finish (v : Value) (st : List Container) :
    Settles depth (finish v st) v st := by
  refine ⟨fun c _ => ?_, rfl⟩
  unfold finish
  split
  · rfl
  · rfl
  · rfl

theorem runs_escape (isKey : Bool) (acc : PyStr) (c : Char) :
    Runs depth ⟨.text isKey acc, st⟩ (escapeText c) ⟨.text isKey (acc ++ [.scalar c]), st⟩ := by
  rcases escape_cases c with ⟨e, htext, -, hback, hu⟩ | ⟨hlt, htext, -⟩ | ⟨hge, hq, hb, htext, -⟩
  · rw [htext]
    refine .step (t := ⟨.escape isKey acc, st⟩) rfl (.single ?_)
    simp only [scanChar, if_neg hu, hback]
  · have hhex : ∀ n, n < 16 → hexValue (hexChar n) = some n := by
      have hall : ∀ k : Fin 16, hexValue (hexChar k) = some k.val := by decide
      exact fun n hn => hall ⟨n, hn⟩
    have hhigh := hhex (c.toNat / 16) (by omega)
    have hlow := hhex (c.toNat % 16) (by omega)
    have hcode : 16 * (c.toNat / 16) + c.toNat % 16 = c.toNat := Nat.div_add_mod _ _
    rw [htext]
    refine .step (t := ⟨.escape isKey acc, st⟩) rfl ?_
    refine .step (t := ⟨.hex isKey acc 0 4, st⟩) rfl ?_
    refine .step (t := ⟨.hex isKey acc 0 3, st⟩) rfl ?_
    refine .step (t := ⟨.hex isKey acc 0 2, st⟩) rfl ?_
    refine .step (t := ⟨.hex isKey acc (c.toNat / 16) 1, st⟩) ?_ (.single ?_)
    · simp [scanChar, hhigh]
    · simp only [scanChar, hlow, le_refl, if_true, hcode, pushUnit]
      rw [dif_neg (by omega), Char.ofNat_toNat]
  · rw [htext]
    refine .single ?_
    simp only [scanChar, if_neg hq, if_neg hb, if_neg (not_lt.mpr hge)]

theorem runs_text {text : PyStr} (h : Scalar text) (isKey : Bool) (acc : PyStr) :
    Runs depth ⟨.text isKey acc, st⟩ (escaped text) ⟨.text isKey (acc ++ text), st⟩ := by
  induction text generalizing acc with
  | nil =>
    rw [List.append_nil]
    exact .nil _
  | cons c rest ih =>
    have hc := h c List.mem_cons_self
    have hrest : Scalar rest := fun d hd => h d (List.mem_cons_of_mem _ hd)
    cases c with
    | surrogate unit => nomatch hc
    | scalar c =>
      have hsplit : escaped (.scalar c :: rest) = escapeText c ++ escaped rest := List.flatMap_cons
      rw [hsplit, List.append_cons]
      exact (runs_escape isKey acc c).trans (ih hrest (acc ++ [.scalar c]))

theorem runs_str {text : PyStr} (h : Scalar text) :
    Runs depth ⟨.value, st⟩ (quotedText text) (finish (.str text) st) := by
  refine .step (t := ⟨.text false [], st⟩) rfl ((runs_text h false []).trans (.single ?_))
  rw [List.nil_append]
  rfl

theorem runs_key {key : PyStr} (h : Scalar key) {mode : Mode}
    (hmode : mode = .firstKey ∨ mode = .nextKey) (pairs : List (PyStr × Value))
    (last : Option PyStr) :
    Runs depth ⟨mode, .object pairs last :: st⟩ (quotedText key ++ [':'])
      ⟨.value, .object pairs (some key) :: st⟩ := by
  refine Runs.trans (t := ⟨.colon, .object pairs (some key) :: st⟩) ?_ (.single rfl)
  refine .step (t := ⟨.text true [], .object pairs last :: st⟩) ?_
    ((runs_text h true []).trans (.single ?_))
  · rcases hmode with rfl | rfl
    · rfl
    · rfl
  · rw [List.nil_append]
    rfl

/-- The scan of a number that has got to `n`. -/
def reading (neg : Bool) (n : Nat) : NumScan where
  neg := neg
  phase := if n = 0 then .zero else .int
  int := n
  intDigits := (Nat.toDigits 10 n).length
  frac := 0
  fracDigits := 0
  expNeg := false
  exp := 0

theorem digit_digitChar {d : Nat} (h : d < 10) : digit d.digitChar = some d := by
  have hall : ∀ k : Fin 10, digit (Nat.digitChar k) = some k.val := by decide
  exact hall ⟨d, h⟩

theorem runs_digits {neg : Bool} (hs : ∀ d < 10,
      scanChar depth s d.digitChar = .ok ⟨.number (reading neg d), st⟩) (n : Nat) :
    Runs depth s (Nat.toDigits 10 n) ⟨.number (reading neg n), st⟩ := by
  induction n using Nat.strongRecOn with
  | ind n ih =>
    by_cases hlt : n < 10
    · rw [Nat.toDigits_of_lt_base hlt]
      exact .single (hs n hlt)
    · have hge : 10 ≤ n := not_lt.mp hlt
      have hdigits := Nat.toDigits_of_base_le (by decide : 1 < 10) hge
      have hpos : n / 10 ≠ 0 := by omega
      have hlast := digit_digitChar (Nat.mod_lt n (by decide : 0 < 10))
      rw [hdigits]
      refine (ih (n / 10) (by omega)).trans (.single ?_)
      simp only [scanChar, reading, NumScan.extend, hlast, if_neg hpos,
        if_neg (show n ≠ 0 by omega), hdigits, List.length_append, List.length_singleton,
        Nat.div_add_mod]

theorem reading_extend {neg : Bool} {n : Nat} {c : Char} (h : c = ',' ∨ c = ']' ∨ c = '}') :
    (reading neg n).extend c = none := by
  have hphase : (reading neg n).phase = .zero ∨ (reading neg n).phase = .int := by
    by_cases hn : n = 0
    · exact .inl (if_pos hn)
    · exact .inr (if_neg hn)
  rcases h with rfl | rfl | rfl <;> rcases hphase with hphase | hphase <;>
    simp [NumScan.extend, hphase, digit]

theorem reading_close (neg : Bool) {n : Nat} (h : n < 10 ^ intMaxStrDigits) :
    (reading neg n).close = .ok (.int (if neg then -n else n)) := by
  have hlen : ¬intMaxStrDigits < (Nat.toDigits 10 n).length :=
    not_lt.mpr ((Nat.length_toDigits_le_iff (by decide) (by decide)).mpr h)
  by_cases hn : n = 0
  · simp only [reading, NumScan.close, hn, if_true]
    rfl
  · simp only [NumScan.close, reading, if_neg hn, if_neg hlen]

theorem settles_number (neg : Bool) {n : Nat} (h : n < 10 ^ intMaxStrDigits) :
    Settles depth ⟨.number (reading neg n), st⟩ (.int (if neg then -n else n)) st := by
  have hclose := reading_close neg h
  constructor
  · intro c hc
    have hsign : (reading neg n).phase ≠ .sign := by
      simp only [reading]
      split
      · nofun
      · nofun
    simp only [scanChar, reading_extend hc, hclose, hsign, false_and, if_false]
    rfl
  · cases st with
    | nil =>
      simp only [endOfText, hclose]
      rfl
    | cons container rest =>
      simp only [endOfText, hclose]
      cases container with
      | array items => rfl
      | object pairs key =>
        cases key with
        | none => rfl
        | some key => rfl

theorem runs_int {n : Int} (h : n.natAbs < 10 ^ intMaxStrDigits) :
    ∃ s, Runs depth ⟨.value, st⟩ (toString n).toList s ∧ Settles depth s (.int n) st := by
  have hstart : ∀ d < 10, scanChar depth ⟨.value, st⟩ d.digitChar =
      .ok ⟨.number (reading false d), st⟩ := by
    intro d hd
    interval_cases d
    all_goals rfl
  have hsign : ∀ d < 10, scanChar depth ⟨.number (number true), st⟩ d.digitChar =
      .ok ⟨.number (reading true d), st⟩ := by
    intro d hd
    interval_cases d
    all_goals rfl
  rw [int_chars]
  split
  · rename_i hneg
    have hsettles : Settles depth ⟨.number (reading true n.natAbs), st⟩ _ st :=
      settles_number true h
    rw [if_pos rfl, ← Int.eq_neg_natAbs_of_nonpos (le_of_lt hneg)] at hsettles
    exact ⟨_, .step (t := ⟨.number (number true), st⟩) rfl (runs_digits hsign n.natAbs), hsettles⟩
  · rename_i hneg
    have hsettles : Settles depth ⟨.number (reading false n.natAbs), st⟩ _ st :=
      settles_number false h
    rw [if_neg nofun, Int.natAbs_of_nonneg (not_lt.mp hneg)] at hsettles
    exact ⟨_, runs_digits hstart n.natAbs, hsettles⟩

theorem chars_head {room : Nat} {v : Value} (h : v.Legible room) :
    ∃ c rest, v.chars = c :: rest ∧ isWhite c = false ∧ c ≠ ']' := by
  cases v with
  | null => exact ⟨_, _, rfl, rfl, by decide⟩
  | bool b =>
    cases b with
    | false => exact ⟨_, _, rfl, rfl, by decide⟩
    | true => exact ⟨_, _, rfl, rfl, by decide⟩
  | float lit => exact h.elim
  | str text => exact ⟨_, _, rfl, rfl, by decide⟩
  | arr items => exact ⟨_, _, rfl, rfl, by decide⟩
  | obj pairs => exact ⟨_, _, rfl, rfl, by decide⟩
  | int n =>
    have hdigit : ∀ c ∈ Nat.toDigits 10 n.natAbs, isWhite c = false ∧ c ≠ ']' := by
      intro c hc
      have hdigit := Nat.isDigit_of_mem_toDigits (by decide) (by decide) hc
      simp only [Char.isDigit, Bool.and_eq_true, decide_eq_true_eq] at hdigit
      have hge : 48 ≤ c.toNat := hdigit.1
      have hle : c.toNat ≤ 57 := hdigit.2
      refine ⟨?_, ?_⟩
      · simp only [isWhite, List.contains_eq_mem, List.mem_cons, List.not_mem_nil, or_false,
          decide_eq_false_iff_not]
        omega
      · rintro rfl
        exact absurd hle (by decide)
    rw [Value.chars, int_chars]
    split
    · exact ⟨_, _, rfl, rfl, by decide⟩
    · obtain ⟨c, rest, heq⟩ := List.exists_cons_of_ne_nil (Nat.toDigits_ne_nil (n := n.natAbs))
      rw [heq] at hdigit ⊢
      exact ⟨c, rest, rfl, hdigit c List.mem_cons_self⟩

theorem runs_firstItem {room : Nat} {v : Value} (h : v.Legible room) {tail : List Char}
    (hruns : Runs depth ⟨.value, .array [] :: st⟩ (v.chars ++ tail) t) :
    Runs depth ⟨.firstItem, .array [] :: st⟩ (v.chars ++ tail) t := by
  obtain ⟨c, rest, hchars, hwhite, hne⟩ := chars_head h
  have hsame : scanChar depth ⟨.firstItem, .array [] :: st⟩ c =
      scanChar depth ⟨.value, .array [] :: st⟩ c := by
    simp only [scanChar, hwhite, Bool.false_eq_true, if_false]
    split
    · exact absurd rfl hne
    · rfl
  rw [hchars, List.cons_append, Runs, List.foldlM_cons] at hruns ⊢
  rw [hsame]
  exact hruns

theorem setItem_fresh {pairs : List (PyStr × Value)} {key : PyStr} (v : Value)
    (h : key ∉ pairs.map (·.1)) : setItem pairs key v = pairs ++ [(key, v)] := by
  rw [setItem, if_neg]
  simpa using h

mutual

theorem runs_value : ∀ (v : Value) (st : List Container), v.Legible (depth - st.length) →
    ∃ s, Runs depth ⟨.value, st⟩ v.chars s ∧ Settles depth s v st
  | .null, st, _ => ⟨finish .null st, rfl, settles_finish _ _⟩
  | .bool false, st, _ => ⟨finish (.bool false) st, rfl, settles_finish _ _⟩
  | .bool true, st, _ => ⟨finish (.bool true) st, rfl, settles_finish _ _⟩
  | .int n, st, h => runs_int h
  | .str text, st, h => ⟨_, runs_str h, settles_finish _ _⟩
  | .arr [], st, h => by
    have hroom : ¬depth ≤ st.length := by
      have := h.1
      omega
    refine ⟨_, .step (t := ⟨.firstItem, .array [] :: st⟩) ?_ (.single rfl), settles_finish _ _⟩
    simp [scanChar, startValue, isWhite, hroom]
  | .arr (item :: rest), st, h => by
    have hroom : ¬depth ≤ st.length := by
      have := h.1
      omega
    have hitems : legibleItems (depth - (st.length + 1)) (item :: rest) := h.2
    obtain ⟨s, hruns, hclose⟩ := runs_items (item :: rest) [] st (List.cons_ne_nil _ _) hitems
    refine ⟨_, .step (t := ⟨.firstItem, .array [] :: st⟩) ?_ (Runs.trans (t := s) ?_
      (.single hclose)), settles_finish _ _⟩
    · simp [scanChar, startValue, isWhite, hroom]
    · cases rest with
      | nil =>
        have heq : commaText (charsItems [item]) = item.chars ++ [] := (List.append_nil _).symm
        rw [heq] at hruns
        show Runs depth _ (commaText (charsItems [item])) s
        rw [heq]
        exact runs_firstItem hitems.1 hruns
      | cons next rest => exact runs_firstItem hitems.1 hruns
  | .obj [], st, h => by
    have hroom : ¬depth ≤ st.length := by
      have := h.1
      omega
    refine ⟨_, .step (t := ⟨.firstKey, .object [] none :: st⟩) ?_ (.single rfl),
      settles_finish _ _⟩
    simp [scanChar, startValue, isWhite, hroom]
  | .obj ((key, v) :: rest), st, h => by
    have hroom : ¬depth ≤ st.length := by
      have := h.1
      omega
    obtain ⟨s, hruns, hclose⟩ := runs_pairs ((key, v) :: rest) [] none .firstKey st
      (List.cons_ne_nil _ _) (.inl rfl) h.2.1 h.2.2
    refine ⟨_, .step (t := ⟨.firstKey, .object [] none :: st⟩) ?_ (hruns.trans (.single hclose)),
      settles_finish _ _⟩
    simp [scanChar, startValue, isWhite, hroom]

theorem runs_items : ∀ (items done : List Value) (st : List Container), items ≠ [] →
    legibleItems (depth - (st.length + 1)) items →
    ∃ s, Runs depth ⟨.value, .array done :: st⟩ (commaText (charsItems items)) s ∧
      scanChar depth s ']' = .ok (finish (.arr (done ++ items)) st)
  | [], _, _, hne, _ => absurd rfl hne
  | [item], done, st, _, h => by
    obtain ⟨s, hruns, hsettles⟩ := runs_value item (.array done :: st) h.1
    exact ⟨s, hruns, (hsettles.delimiter ']' (.inr (.inl rfl))).trans rfl⟩
  | item :: next :: rest, done, st, _, h => by
    obtain ⟨s, hruns, hsettles⟩ := runs_value item (.array done :: st) h.1
    obtain ⟨t, hrest, hclose⟩ := runs_items (next :: rest) (done ++ [item]) st
      (List.cons_ne_nil _ _) h.2
    refine ⟨t, hruns.trans (.step ?_ hrest), ?_⟩
    · exact (hsettles.delimiter ',' (.inl rfl)).trans rfl
    · rw [hclose, List.append_assoc]
      rfl

theorem runs_pairs : ∀ (pairs done : List (PyStr × Value)) (last : Option PyStr) (mode : Mode)
    (st : List Container), pairs ≠ [] → mode = .firstKey ∨ mode = .nextKey →
    ((done ++ pairs).map (·.1)).Nodup → legiblePairs (depth - (st.length + 1)) pairs →
    ∃ s, Runs depth ⟨mode, .object done last :: st⟩ (commaText (charsPairs pairs)) s ∧
      scanChar depth s '}' = .ok (finish (.obj (done ++ pairs)) st)
  | [], _, _, _, _, hne, _, _, _ => absurd rfl hne
  | (key, v) :: rest, done, last, mode, st, _, hmode, hnodup, h => by
    have hfresh : key ∉ done.map (·.1) := by
      rw [List.map_append, List.map_cons, List.nodup_append] at hnodup
      exact fun hmem => hnodup.2.2 key hmem key List.mem_cons_self rfl
    obtain ⟨s, hruns, hsettles⟩ := runs_value v (.object done (some key) :: st) h.2.1
    have hafter : finish v (.object done (some key) :: st) =
        ⟨.after, .object (done ++ [(key, v)]) none :: st⟩ := by
      rw [finish, setItem_fresh v hfresh]
    have hpair := (runs_key h.1 hmode done last).trans hruns
    rw [List.append_assoc] at hpair
    cases rest with
    | nil =>
      refine ⟨s, hpair, ?_⟩
      rw [hsettles.delimiter '}' (.inr (.inr rfl)), hafter]
      rfl
    | cons next rest =>
      obtain ⟨t, hrest, hclose⟩ := runs_pairs (next :: rest) (done ++ [(key, v)]) none .nextKey st
        (List.cons_ne_nil _ _) (.inr rfl) (by simpa using hnodup) h.2.2
      refine ⟨t, ?_, ?_⟩
      · have hcomma : Runs depth s (',' :: commaText (charsPairs (next :: rest))) t := by
          refine .step ?_ hrest
          rw [hsettles.delimiter ',' (.inl rfl), hafter]
          rfl
        have hall := hpair.trans hcomma
        simpa only [charsPairs, commaText, List.append_assoc, List.cons_append,
          List.nil_append] using hall
      · rw [hclose, List.append_assoc]
        rfl

end

theorem loads_chars {v : Value} (h : v.Legible depth) :
    loads depth (String.ofList v.chars) = .ok v := by
  obtain ⟨s, hruns, hsettles⟩ := runs_value v [] h
  rw [loads, String.toList_ofList]
  show (v.chars.foldlM (scanChar depth) ⟨.value, []⟩ >>= endOfText) = _
  rw [hruns]
  exact hsettles.ends

theorem loads_compact {v : Value} (h : v.Legible depth) :
    ∃ text, decodeUtf8 v.compact = some text ∧ loads depth text = .ok v :=
  ⟨_, by rw [compact_eq, decodeUtf8_utf8], loads_chars h⟩

theorem decoded_utf8 (depth : Nat) (chars : List Char) :
    decoded depth (utf8 chars) =
      some (chars.foldlM (scanChar depth) ⟨.value, []⟩ >>= endOfText) := by
  rw [decoded, decodeUtf8_utf8, Option.map_some, loads, String.toList_ofList]

theorem array_decoded : decoded 990 (utf8 ['[', ']']) = some (.ok (.arr [])) := by
  rw [decoded_utf8]
  rfl

end Scanning

end Waitbus.Json
