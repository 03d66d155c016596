import Mathlib
import Waitbus.JsonText

/-! `json.dumps`: pure ASCII, with white space between the parts of a container. `json.loads` reads
back what it has written, whatever the indent. -/

namespace Waitbus.Json
open Python

section Texts

/-- The `\u` escape of one UTF-16 unit. -/
def unitText (code : Nat) : List Char :=
  ['\\', 'u', hexChar (code / 4096 % 16), hexChar (code / 256 % 16), hexChar (code / 16 % 16),
    hexChar (code % 16)]

/-- One character under `ensure_ascii`. -/
def asciiText (c : Char) : List Char :=
  if c.toNat < 0x7f then escapeText c
  else if c.toNat < 0x10000 then unitText c.toNat
  else unitText (0xd800 + (c.toNat - 0x10000) / 0x400) ++
    unitText (0xdc00 + (c.toNat - 0x10000) % 0x400)

def asciiUnit : PyChar → List Char
  | .scalar c => asciiText c
  | .surrogate unit => unitText (0xd800 + unit.val)

def dumpedText (s : PyStr) : List Char :=
  '"' :: s.flatMap asciiUnit ++ ['"']

/-- The `indent` of a call, and how many containers are open. -/
structure Style where
  indent : Option Nat
  level : Nat

def Style.inner (style : Style) : Style :=
  { style with level := style.level + 1 }

def Style.gap (style : Style) : List Char :=
  match style.indent with
  | none => []
  | some n => '\n' :: List.replicate (n * style.level) ' '

def Style.afterComma (style : Style) : List Char :=
  match style.indent with
  | none => [' ']
  | some _ => style.gap

mutual

def Value.dumps (style : Style) : Value → List Char
  | .null => ['n', 'u', 'l', 'l']
  | .bool b => if b then ['t', 'r', 'u', 'e'] else ['f', 'a', 'l', 's', 'e']
  | .int n => (toString n).toList
  | .float _ => []
  | .str s => dumpedText s
  | .arr [] => ['[', ']']
  | .arr (item :: rest) =>
    '[' :: (style.inner.gap ++ (item.dumps style.inner ++
      (dumpsItems style.inner rest ++ (style.gap ++ [']']))))
  | .obj [] => ['{', '}']
  | .obj ((key, v) :: rest) =>
    '{' :: (style.inner.gap ++ (dumpedText key ++ (':' :: ' ' :: (v.dumps style.inner ++
      (dumpsPairs style.inner rest ++ (style.gap ++ ['}']))))))

def dumpsItems (style : Style) : List Value → List Char
  | [] => []
  | item :: rest => ',' :: (style.afterComma ++ (item.dumps style ++ dumpsItems style rest))

def dumpsPairs (style : Style) : List (PyStr × Value) → List Char
  | [] => []
  | (key, v) :: rest =>
    ',' :: (style.afterComma ++ (dumpedText key ++
      (':' :: ' ' :: (v.dumps style ++ dumpsPairs style rest))))

end

/-- `json.dumps(value, indent=indent)`. -/
def dumps (indent : Option Nat) (v : Value) : List Char :=
  v.dumps ⟨indent, 0⟩

end Texts

section Scanning

variable {depth : Nat} {s t u : Scan} {st : List Container}

theorem hexValue_hexChar {n : Nat} (h : n < 16) : hexValue (hexChar n) = some n := by
  have hall : ∀ k : Fin 16, hexValue (hexChar k) = some k.val := by decide
  exact hall ⟨n, h⟩

theorem runs_unit (isKey : Bool) (acc : PyStr) {code : Nat} (h : code < 0x10000) :
    Runs depth ⟨.text isKey acc, st⟩ (unitText code) ⟨.text isKey (pushUnit acc code), st⟩ := by
  have h3 := hexValue_hexChar (show code / 4096 % 16 < 16 by omega)
  have h2 := hexValue_hexChar (show code / 256 % 16 < 16 by omega)
  have h1 := hexValue_hexChar (show code / 16 % 16 < 16 by omega)
  have h0 := hexValue_hexChar (show code % 16 < 16 by omega)
  have hcode : 16 * (16 * (16 * (code / 4096 % 16) + code / 256 % 16) + code / 16 % 16) +
      code % 16 = code := by omega
  refine .step (t := ⟨.escape isKey acc, st⟩) rfl ?_
  refine .step (t := ⟨.hex isKey acc 0 4, st⟩) rfl ?_
  refine .step (t := ⟨.hex isKey acc (code / 4096 % 16) 3, st⟩) (by simp [scanChar, h3]) ?_
  refine .step (t := ⟨.hex isKey acc (16 * (code / 4096 % 16) + code / 256 % 16) 2, st⟩)
    (by simp [scanChar, h2]) ?_
  refine .step (t := ⟨.hex isKey acc (16 * (16 * (code / 4096 % 16) + code / 256 % 16) +
    code / 16 % 16) 1, st⟩) (by simp [scanChar, h1]) (.single ?_)
  simp [scanChar, h0, hcode]

theorem pushUnit_plain (acc : PyStr) {c : Char} (h : c.toNat < 0x10000) :
    pushUnit acc c.toNat = acc ++ [.scalar c] := by
  have hvalid : c.toNat < 0xd800 ∨ 0xdfff < c.toNat := by
    rcases c.valid with hlow | hhigh
    · exact .inl hlow
    · exact .inr hhigh.1
  rw [pushUnit, dif_neg (by omega), Char.ofNat_toNat]

theorem pushUnit_pair (acc : PyStr) {c : Char} (h : 0x10000 ≤ c.toNat) :
    pushUnit (pushUnit acc (0xd800 + (c.toNat - 0x10000) / 0x400))
      (0xdc00 + (c.toNat - 0x10000) % 0x400) = acc ++ [.scalar c] := by
  have hmax : c.toNat < 0x110000 := by
    rcases c.valid with hlow | hhigh
    · exact lt_trans hlow (by decide)
    · exact hhigh.2
  have hhigh : (c.toNat - 0x10000) / 0x400 < 0x400 := by omega
  have hfirst : pushUnit acc (0xd800 + (c.toNat - 0x10000) / 0x400) =
      acc ++ [.surrogate ⟨(c.toNat - 0x10000) / 0x400, by omega⟩] := by
    rw [pushUnit, dif_pos (by omega)]
    split
    · rw [if_neg (by omega)]
      simp
    · simp
  rw [hfirst, pushUnit, dif_pos (by omega), List.getLast?_concat]
  dsimp only
  rw [if_pos (by omega), List.dropLast_concat]
  have hcode : 0x10000 + (c.toNat - 0x10000) / 0x400 * 0x400 +
      (0xdc00 + (c.toNat - 0x10000) % 0x400 - 0xdc00) = c.toNat := by omega
  rw [hcode, Char.ofNat_toNat]

theorem runs_asciiText (isKey : Bool) (acc : PyStr) (c : Char) :
    Runs depth ⟨.text isKey acc, st⟩ (asciiText c) ⟨.text isKey (acc ++ [.scalar c]), st⟩ := by
  unfold asciiText
  split
  · exact runs_escape isKey acc c
  split
  · rename_i hunit
    rw [← pushUnit_plain acc hunit]
    exact runs_unit isKey acc hunit
  · rename_i hpair
    have hmax : c.toNat < 0x110000 := by
      rcases c.valid with hlow | hhigh
      · exact lt_trans hlow (by decide)
      · exact hhigh.2
    rw [← pushUnit_pair acc (not_lt.mp hpair)]
    exact (runs_unit isKey acc (by omega)).trans (runs_unit isKey _ (by omega))

theorem runs_dumpedChars {text : PyStr} (h : Scalar text) (isKey : Bool) (acc : PyStr) :
    Runs depth ⟨.text isKey acc, st⟩ (text.flatMap asciiUnit)
      ⟨.text isKey (acc ++ text), st⟩ := by
  induction text generalizing acc with
  | nil =>
    rw [List.append_nil]
    exact .nil _
  | cons c rest ih =>
    have hc := h c List.mem_cons_self
    have hrest : Scalar rest := fun d hd => h d (List.mem_cons_of_mem _ hd)
    cases c with
    | surrogate unit => cases hc
    | scalar c =>
      rw [List.flatMap_cons, List.append_cons]
      exact (runs_asciiText isKey acc c).trans (ih hrest (acc ++ [.scalar c]))

end Scanning

section White

variable {depth : Nat} {s t : Scan} {v : Value} {st : List Container}

/-- After the text of `v`, white space and a delimiter find the value finished. -/
structure Ends (depth : Nat) (s : Scan) (v : Value) (st : List Container) : Prop extends
    Settles depth s v st where
  white : ∀ c, isWhite c = true → scanChar depth s c = .ok (finish v st)

theorem delimiter_white (s : Scan) {c : Char} (h : isWhite c = true) : delimiter s c = .ok s := by
  unfold delimiter
  rw [if_pos h]

theorem ends_finish (v : Value) (st : List Container) : Ends depth (finish v st) v st := by
  refine ⟨settles_finish v st, fun c hc => ?_⟩
  have hsame : scanChar depth (finish v st) c = delimiter (finish v st) c := by
    unfold finish
    split
    · rfl
    · rfl
    · rfl
  rw [hsame, delimiter_white _ hc]

theorem ends_number (neg : Bool) {n : Nat} (h : n < 10 ^ intMaxStrDigits) :
    Ends depth ⟨.number (reading neg n), st⟩ (.int (if neg then -n else n)) st := by
  refine ⟨settles_number neg h, fun c hc => ?_⟩
  have hcode : c.toNat = 0x20 ∨ c.toNat = 0x09 ∨ c.toNat = 0x0a ∨ c.toNat = 0x0d := by
    simpa [isWhite] using hc
  have hdigit : digit c = none := if_neg (by omega)
  have hphase : (reading neg n).phase = .zero ∨ (reading neg n).phase = .int := by
    by_cases hn : n = 0
    · exact .inl (if_pos hn)
    · exact .inr (if_neg hn)
  have hextend : (reading neg n).extend c = none := by
    rcases hphase with hphase | hphase
    · simp only [NumScan.extend, hphase, hdigit]
      rw [if_neg (by omega), if_neg (by omega)]
    · simp only [NumScan.extend, hphase, hdigit]
      rw [if_neg (by omega), if_neg (by omega)]
  have hsign : (reading neg n).phase ≠ .sign := by
    rcases hphase with hphase | hphase
    · simp [hphase]
    · simp [hphase]
  simp only [scanChar, hextend, reading_close neg h, hsign, false_and, if_false]
  exact delimiter_white _ hc

theorem runs_number {n : Int} (h : n.natAbs < 10 ^ intMaxStrDigits) :
    ∃ s, Runs depth ⟨.value, st⟩ (toString n).toList s ∧ Ends depth s (.int n) st := by
  have hstart : ∀ d < 10, scanChar depth ⟨.value, st⟩ d.digitChar =
      .ok ⟨.number (reading false d), st⟩ := by
    intro d hd
    interval_cases d
    all_goals rfl
  have hsign : ∀ d < 10, scanChar depth ⟨.number (number true), st⟩ d.digitChar =
      .ok ⟨.number (reading true d), st⟩ := by
    intro d hd
    interval_cases d
    all_goals rfl
  rw [int_chars]
  split
  · rename_i hneg
    have hends : Ends depth ⟨.number (reading true n.natAbs), st⟩ _ st := ends_number true h
    rw [if_pos rfl, ← Int.eq_neg_natAbs_of_nonpos (le_of_lt hneg)] at hends
    exact ⟨_, .step (t := ⟨.number (number true), st⟩) rfl (runs_digits hsign n.natAbs), hends⟩
  · rename_i hneg
    have hends : Ends depth ⟨.number (reading false n.natAbs), st⟩ _ st := ends_number false h
    rw [if_neg (by simp), Int.natAbs_of_nonneg (not_lt.mp hneg)] at hends
    exact ⟨_, runs_digits hstart n.natAbs, hends⟩

def Between (mode : Mode) : Prop :=
  mode = .value ∨ mode = .firstItem ∨ mode = .firstKey ∨ mode = .nextKey

theorem runs_white {chars : List Char} (h : ∀ c ∈ chars, isWhite c = true) {mode : Mode}
    (hmode : Between mode) : Runs depth ⟨mode, st⟩ chars ⟨mode, st⟩ := by
  induction chars with
  | nil => exact .nil _
  | cons c rest ih =>
    have hc := h c List.mem_cons_self
    refine .step (t := ⟨mode, st⟩) ?_ (ih fun d hd => h d (List.mem_cons_of_mem _ hd))
    rcases hmode with rfl | rfl | rfl | rfl <;> simp [scanChar, hc]

theorem Ends.runs_closing (h : Ends depth s v st) {chars : List Char}
    (hwhite : ∀ c ∈ chars, isWhite c = true) {c : Char} (hc : c = ',' ∨ c = ']' ∨ c = '}')
    (hnext : delimiter (finish v st) c = .ok t) : Runs depth s (chars ++ [c]) t := by
  have hend : ∀ s, Ends depth s v st → Runs depth s [c] t := by
    intro s hs
    exact .single ((hs.delimiter c hc).trans hnext)
  induction chars generalizing s with
  | nil => exact hend s h
  | cons d rest ih =>
    exact .step (h.white d (hwhite d List.mem_cons_self))
      (ih (ends_finish v st) fun e he => hwhite e (List.mem_cons_of_mem _ he))

theorem Style.gap_white (style : Style) : ∀ c ∈ style.gap, isWhite c = true := by
  intro c hc
  rw [Style.gap] at hc
  split at hc
  · cases hc
  · obtain rfl | hc := List.mem_cons.mp hc
    · decide
    · rw [(List.mem_replicate.mp hc).2]
      decide

theorem Style.afterComma_white (style : Style) : ∀ c ∈ style.afterComma, isWhite c = true := by
  intro c hc
  rw [Style.afterComma] at hc
  split at hc
  · rw [List.mem_singleton.mp hc]
    decide
  · exact style.gap_white c hc

end White

section Reading

variable {depth : Nat} {st : List Container}

theorem runs_dumpedText {text : PyStr} (h : Scalar text) :
    Runs depth ⟨.value, st⟩ (dumpedText text) (finish (.str text) st) := by
  refine .step (t := ⟨.text false [], st⟩) rfl ((runs_dumpedChars h false []).trans (.single ?_))
  rw [List.nil_append]
  rfl

theorem runs_dumpedKey {key : PyStr} (h : Scalar key) {mode : Mode}
    (hmode : mode = .firstKey ∨ mode = .nextKey) (pairs : List (PyStr × Value))
    (last : Option PyStr) :
    Runs depth ⟨mode, .object pairs last :: st⟩ (dumpedText key ++ [':', ' '])
      ⟨.value, .object pairs (some key) :: st⟩ := by
  refine Runs.trans (t := ⟨.colon, .object pairs (some key) :: st⟩) ?_
    (.step (t := ⟨.value, .object pairs (some key) :: st⟩) rfl (.single rfl))
  refine .step (t := ⟨.text true [], .object pairs last :: st⟩) ?_
    ((runs_dumpedChars h true []).trans (.single ?_))
  · rcases hmode with rfl | rfl
    · rfl
    · rfl
  · rw [List.nil_append]
    rfl

theorem dumps_head {room : Nat} {v : Value} (h : v.Legible room) (style : Style) :
    ∃ c rest, v.dumps style = c :: rest ∧ isWhite c = false ∧ c ≠ ']' := by
  cases v with
  | null => exact ⟨_, _, rfl, rfl, by decide⟩
  | bool b =>
    cases b with
    | false => exact ⟨_, _, rfl, rfl, by decide⟩
    | true => exact ⟨_, _, rfl, rfl, by decide⟩
  | float lit => exact h.elim
  | str text => exact ⟨_, _, rfl, rfl, by decide⟩
  | int n => exact chars_head h
  | arr items =>
    cases items with
    | nil => exact ⟨_, _, rfl, rfl, by decide⟩
    | cons item rest => exact ⟨_, _, rfl, rfl, by decide⟩
  | obj pairs =>
    cases pairs with
    | nil => exact ⟨_, _, rfl, rfl, by decide⟩
    | cons pair rest => exact ⟨_, _, rfl, rfl, by decide⟩

theorem scan_firstItem {c : Char} (hwhite : isWhite c = false) (hne : c ≠ ']') :
    scanChar depth ⟨.firstItem, .array [] :: st⟩ c =
      scanChar depth ⟨.value, .array [] :: st⟩ c := by
  simp only [scanChar, hwhite, Bool.false_eq_true, if_false]
  split
  · exact absurd rfl hne
  · rfl

theorem runs_dumpedFirst {room : Nat} {v : Value} (h : v.Legible room) {style : Style} {t : Scan}
    (hruns : Runs depth ⟨.value, .array [] :: st⟩ (v.dumps style) t) :
    Runs depth ⟨.firstItem, .array [] :: st⟩ (v.dumps style) t := by
  obtain ⟨c, rest, hchars, hwhite, hne⟩ := dumps_head h style
  rw [hchars, Runs, List.foldlM_cons] at hruns ⊢
  rw [scan_firstItem hwhite hne]
  exact hruns

theorem finish_pair {done rest : List (PyStr × Value)} {key : PyStr} {v : Value}
    (hnodup : ((done ++ (key, v) :: rest).map (·.1)).Nodup) :
    finish v (.object done (some key) :: st) =
      ⟨.after, .object (done ++ [(key, v)]) none :: st⟩ := by
  have hfresh : key ∉ done.map (·.1) := by
    rw [List.map_append, List.map_cons, List.nodup_append] at hnodup
    exact fun hmem => hnodup.2.2 key hmem key List.mem_cons_self rfl
  rw [finish, setItem_fresh v hfresh]

mutual

theorem runs_dumps : ∀ (v : Value) (style : Style) (st : List Container),
    v.Legible (depth - st.length) →
    ∃ s, Runs depth ⟨.value, st⟩ (v.dumps style) s ∧ Ends depth s v st
  | .null, style, st, _ => ⟨finish .null st, rfl, ends_finish _ _⟩
  | .bool false, style, st, _ => ⟨finish (.bool false) st, rfl, ends_finish _ _⟩
  | .bool true, style, st, _ => ⟨finish (.bool true) st, rfl, ends_finish _ _⟩
  | .int n, style, st, h => runs_number h
  | .str text, style, st, h => ⟨_, runs_dumpedText h, ends_finish _ _⟩
  | .arr [], style, st, h => by
    have hroom : ¬depth ≤ st.length := by
      have := h.1
      omega
    refine ⟨_, .step (t := ⟨.firstItem, .array [] :: st⟩) ?_ (.single rfl), ends_finish _ _⟩
    simp [scanChar, startValue, isWhite, hroom]
  | .arr (item :: rest), style, st, h => by
    have hroom : ¬depth ≤ st.length := by
      have := h.1
      omega
    have hitems : legibleItems (depth - (st.length + 1)) (item :: rest) := h.2
    obtain ⟨s, hruns, hends⟩ := runs_dumps item style.inner (.array [] :: st) hitems.1
    refine ⟨_, .step (t := ⟨.firstItem, .array [] :: st⟩) ?_ ?_, ends_finish _ _⟩
    · simp [scanChar, startValue, isWhite, hroom]
    · refine (runs_white style.inner.gap_white (.inr (.inl rfl))).trans ?_
      exact (runs_dumpedFirst hitems.1 hruns).trans
        (runs_dumpsItems rest style [] item st s hends hitems.2)
  | .obj [], style, st, h => by
    have hroom : ¬depth ≤ st.length := by
      have := h.1
      omega
    refine ⟨_, .step (t := ⟨.firstKey, .object [] none :: st⟩) ?_ (.single rfl), ends_finish _ _⟩
    simp [scanChar, startValue, isWhite, hroom]
  | .obj ((key, v) :: rest), style, st, h => by
    have hroom : ¬depth ≤ st.length := by
      have := h.1
      omega
    have hpairs : legiblePairs (depth - (st.length + 1)) ((key, v) :: rest) := h.2.2
    obtain ⟨s, hruns, hends⟩ :=
      runs_dumps v style.inner (.object [] (some key) :: st) hpairs.2.1
    refine ⟨_, .step (t := ⟨.firstKey, .object [] none :: st⟩) ?_ ?_, ends_finish _ _⟩
    · simp [scanChar, startValue, isWhite, hroom]
    · refine (runs_white style.inner.gap_white (.inr (.inr (.inl rfl)))).trans ?_
      have hkey : Runs depth ⟨.firstKey, .object [] none :: st⟩ (dumpedText key ++ [':', ' '])
          ⟨.value, .object [] (some key) :: st⟩ := runs_dumpedKey hpairs.1 (.inl rfl) [] none
      have hrest := hruns.trans
        (runs_dumpsPairs rest style [] key v st s hends h.2.1 hpairs.2.2)
      have hall := hkey.trans hrest
      simpa only [List.append_assoc, List.cons_append, List.nil_append] using hall

theorem runs_dumpsItems : ∀ (rest : List Value) (style : Style) (done : List Value) (item : Value)
    (st : List Container) (s : Scan), Ends depth s item (.array done :: st) →
    legibleItems (depth - (st.length + 1)) rest →
    Runs depth s (dumpsItems style.inner rest ++ (style.gap ++ [']']))
      (finish (.arr (done ++ item :: rest)) st)
  | [], style, done, item, st, s, hends, _ =>
    hends.runs_closing style.gap_white (.inr (.inl rfl)) rfl
  | next :: rest, style, done, item, st, s, hends, h => by
    obtain ⟨t, hruns, hnext⟩ := runs_dumps next style.inner (.array (done ++ [item]) :: st) h.1
    have hcomma : scanChar depth s ',' = .ok ⟨.value, .array (done ++ [item]) :: st⟩ :=
      (hends.delimiter ',' (.inl rfl)).trans rfl
    have hrest := runs_dumpsItems rest style (done ++ [item]) next st t hnext h.2
    have hall := Runs.step hcomma
      ((runs_white style.inner.afterComma_white (.inl rfl)).trans (hruns.trans hrest))
    simpa only [dumpsItems, List.append_assoc, List.cons_append, List.nil_append] using hall

theorem runs_dumpsPairs : ∀ (rest : List (PyStr × Value)) (style : Style)
    (done : List (PyStr × Value)) (key : PyStr) (v : Value) (st : List Container) (s : Scan),
    Ends depth s v (.object done (some key) :: st) →
    ((done ++ (key, v) :: rest).map (·.1)).Nodup →
    legiblePairs (depth - (st.length + 1)) rest →
    Runs depth s (dumpsPairs style.inner rest ++ (style.gap ++ ['}']))
      (finish (.obj (done ++ (key, v) :: rest)) st)
  | [], style, done, key, v, st, s, hends, hnodup, _ => by
    refine hends.runs_closing style.gap_white (.inr (.inr rfl)) ?_
    rw [finish_pair hnodup]
    rfl
  | (key', v') :: rest, style, done, key, v, st, s, hends, hnodup, h => by
    obtain ⟨t, hruns, hnext⟩ :=
      runs_dumps v' style.inner (.object (done ++ [(key, v)]) (some key') :: st) h.2.1
    have hcomma : scanChar depth s ',' =
        .ok ⟨.nextKey, .object (done ++ [(key, v)]) none :: st⟩ := by
      rw [hends.delimiter ',' (.inl rfl), finish_pair hnodup]
      rfl
    have hkey : Runs depth ⟨.nextKey, .object (done ++ [(key, v)]) none :: st⟩
        (dumpedText key' ++ [':', ' ']) ⟨.value, .object (done ++ [(key, v)]) (some key') :: st⟩ :=
      runs_dumpedKey h.1 (.inr rfl) (done ++ [(key, v)]) none
    have hrest := runs_dumpsPairs rest style (done ++ [(key, v)]) key' v' st t hnext
      (by simpa using hnodup) h.2.2
    have hall := Runs.step hcomma
      ((runs_white style.inner.afterComma_white (.inr (.inr (.inr rfl)))).trans
        (hkey.trans (hruns.trans hrest)))
    simpa only [dumpsPairs, List.append_assoc, List.cons_append, List.nil_append] using hall

end

theorem loads_dumps (indent : Option Nat) {v : Value} (h : v.Legible depth) {trailing : List Char}
    (hwhite : ∀ c ∈ trailing, isWhite c = true) :
    loads depth (String.ofList (dumps indent v ++ trailing)) = .ok v := by
  obtain ⟨s, hruns, hends⟩ := runs_dumps v ⟨indent, 0⟩ [] h
  have hdone : ∀ s, Ends depth s v [] →
      (trailing.foldlM (scanChar depth) s >>= endOfText) = .ok v := by
    induction trailing with
    | nil =>
      intro s hs
      exact hs.ends
    | cons c rest ih =>
      intro s hs
      rw [List.foldlM_cons, hs.white c (hwhite c List.mem_cons_self)]
      exact ih (fun d hd => hwhite d (List.mem_cons_of_mem _ hd)) _ (ends_finish v [])
  rw [loads, String.toList_ofList]
  show ((dumps indent v ++ trailing).foldlM (scanChar depth) ⟨.value, []⟩ >>= endOfText) = _
  rw [List.foldlM_append, dumps, hruns]
  exact hdone s hends

end Reading

end Waitbus.Json
