import Waitbus.Numeral
import Waitbus.EventStore

/-! The generator of the event ids: 48 bits of a millisecond and 80 random ones in base 32, counted
up instead of drawn again within one millisecond. -/

namespace Waitbus.UlidGenerator
open Python EventStore Numeral

section Model

def maxRand : Nat := 2 ^ 80 - 1

def ulidLen : Nat := 26

/-- `_LAST_MS` and `_LAST_RAND`. -/
structure State where
  lastMs : Nat
  lastRand : Nat

def State.initial : State :=
  ⟨0, 0⟩

/-- What a call of `new` reads: the millisecond of the clock, and `secrets.token_bytes(10)`. -/
structure Call where
  ms : Nat
  token : Bytes
  sized : token.length = 10

/-- `RuntimeError`. -/
inductive Failure where
  | overflow
  deriving DecidableEq

/-- `int.from_bytes(token, "big")`. -/
def fromBytes (token : Bytes) : Nat :=
  value 256 (token.map (·.toNat))

/-- `_ALPHABET[n & 0x1F]`. -/
def letter (n : Nat) : Char :=
  alphabet.get ⟨n &&& 0x1F, (Nat.and_lt_two_pow n (n := 5) (by decide)).trans_le (by decide)⟩

/-- `range(5 * width - 5, -5, -5)`. -/
def shifts (width : Nat) : List Nat :=
  (List.range width).reverse.map (5 * ·)

def encode (ms rand : Nat) : String :=
  String.ofList ((shifts 10).map (fun shift => letter (ms >>> shift)) ++
    (shifts 16).map fun shift => letter (rand >>> shift))

def State.new (s : State) (call : Call) : Except Failure String × State :=
  if call.ms = s.lastMs then
    let rand := s.lastRand + 1
    if rand > maxRand then (.error .overflow, s)
    else (.ok (encode call.ms rand), ⟨call.ms, rand⟩)
  else
    let rand := fromBytes call.token
    (.ok (encode call.ms rand), ⟨call.ms, rand⟩)

/-- The loop of `decode_timestamp_ms`. -/
def decodeChars (ms : Nat) : List Char → Except PyExc Nat
  | [] => .ok ms
  | ch :: rest =>
    match alphabet.idxOf? ch with
    | none => .error .valueError
    | some idx => decodeChars (ms <<< 5 ||| idx) rest

def decodeTimestampMs (ulidStr : String) : Except PyExc Nat :=
  if ulidStr.length ≠ ulidLen then .error .valueError
  else decodeChars 0 (ulidStr.toList.take 10)

/-- A call of `new` as it was made. -/
structure Outcome where
  call : Call
  before : State
  result : Except Failure String
  after : State

def State.outcomes (s : State) : List Call → List Outcome
  | [] => []
  | call :: rest =>
    let (result, after) := s.new call
    ⟨call, s, result, after⟩ :: after.outcomes rest

def ids (outcomes : List Outcome) : List String :=
  outcomes.filterMap (·.result.toOption)

end Model

section Encoding

variable {ms rand m n : Nat}

theorem letter_eq (n : Nat) : letter n = alphabet.get ⟨n % 32, Nat.mod_lt n (by decide)⟩ := by
  have hand : n &&& 0x1F = n % 32 := Nat.and_two_pow_sub_one_eq_mod n 5
  simp only [letter, hand]

theorem letter_mod (n : Nat) : letter (n % 32) = letter n := by
  rw [letter_eq, letter_eq]
  simp only [Nat.mod_mod]

theorem letter_lt (hm : m < n) (hn : n < 32) : letter m < letter n := by
  have hsorted : alphabet.Pairwise (· < ·) := by decide
  simp only [letter_eq, Nat.mod_eq_of_lt (hm.trans hn), Nat.mod_eq_of_lt hn]
  exact List.pairwise_iff_get.mp hsorted _ _ hm

theorem idxOf_letter (n : Nat) : alphabet.idxOf? (letter n) = some (n % 32) := by
  have hall : ∀ i : Fin alphabet.length, alphabet.idxOf? (alphabet.get i) = some i.val := by
    decide
  rw [letter_eq]
  exact hall _

theorem letters_lt {l l' : List Nat} (hl : ∀ d ∈ l, d < 32) (hl' : ∀ d ∈ l', d < 32)
    (hlt : l < l') : l.map letter < l'.map letter := by
  induction l generalizing l' with
  | nil =>
    cases l' with
    | nil => exact absurd hlt (List.lt_irrefl _)
    | cons d rest => exact List.nil_lt_cons _ _
  | cons d rest ih =>
    cases l' with
    | nil => exact absurd hlt (List.not_lt_nil _)
    | cons d' rest' =>
      rw [List.map_cons, List.map_cons, List.cons_lt_cons_iff]
      rcases List.cons_lt_cons_iff.mp hlt with hhead | ⟨rfl, htail⟩
      · exact .inl (letter_lt hhead (hl' d' List.mem_cons_self))
      · exact .inr ⟨rfl, ih (fun e he => hl e (List.mem_cons_of_mem _ he))
          (fun e he => hl' e (List.mem_cons_of_mem _ he)) htail⟩

theorem map_shifts (width n : Nat) :
    (shifts width).map (fun shift => letter (n >>> shift)) =
      (numeral 32 width n).map letter := by
  induction width with
  | zero => rfl
  | succ width ih =>
    have hshifts : shifts (width + 1) = 5 * width :: shifts width := by
      simp [shifts, List.range_succ]
    rw [hshifts, numeral, List.map_cons, List.map_cons, ih, letter_mod,
      Nat.shiftRight_eq_div_pow, Nat.pow_mul]

def packed (ms rand : Nat) : Nat :=
  ms * 32 ^ 16 + rand

theorem encode_packed (hrand : rand ≤ maxRand) :
    encode ms rand = String.ofList ((numeral 32 26 (packed ms rand)).map letter) := by
  have hlow : rand < 32 ^ 16 := Nat.lt_of_le_of_lt hrand (by decide)
  rw [encode, map_shifts, map_shifts, packed, numeral_append hlow, List.map_append]

theorem encode_lt {ms' rand' : Nat} (hrand : rand ≤ maxRand) (hms' : ms' < 2 ^ 48)
    (hrand' : rand' ≤ maxRand) (hlt : packed ms rand < packed ms' rand') :
    encode ms rand < encode ms' rand' := by
  rw [encode_packed hrand, encode_packed hrand', String.lt_iff, String.toList_ofList,
    String.toList_ofList]
  have hbound : packed ms' rand' < 32 ^ 26 := by
    rw [maxRand] at hrand'
    rw [packed]
    omega
  exact letters_lt (numeral_lt_base (by decide)) (numeral_lt_base (by decide))
    (numeral_lt hlt hbound)

theorem length_encode (ms rand : Nat) : (encode ms rand).length = ulidLen := by
  simp [encode, shifts, ulidLen]

theorem encode_ulid (ms rand : Nat) : (encode ms rand).length = 26 ∧
    ∀ c ∈ (encode ms rand).toList, c ∈ alphabet := by
  refine ⟨length_encode ms rand, fun c hc => ?_⟩
  rw [encode, String.toList_ofList, List.mem_append, List.mem_map, List.mem_map] at hc
  rcases hc with ⟨shift, -, rfl⟩ | ⟨shift, -, rfl⟩
  · exact List.get_mem _ _
  · exact List.get_mem _ _

theorem decodeChars_letters (start : Nat) {digits : List Nat} (h : ∀ d ∈ digits, d < 32) :
    decodeChars start (digits.map letter) =
      .ok (digits.foldl (fun n digit => n * 32 + digit) start) := by
  induction digits generalizing start with
  | nil => rfl
  | cons d rest ih =>
    have hd := h d List.mem_cons_self
    have hor : start <<< 5 ||| d = start * 32 + d := by
      rw [← Nat.shiftLeft_add_eq_or_of_lt (i := 5) hd, Nat.shiftLeft_eq]
    rw [List.map_cons, decodeChars, idxOf_letter, Nat.mod_eq_of_lt hd]
    simp only [hor]
    exact ih _ fun e he => h e (List.mem_cons_of_mem _ he)

theorem decode_encode (hms : ms < 2 ^ 48) (rand : Nat) :
    decodeTimestampMs (encode ms rand) = .ok ms := by
  have htake : (encode ms rand).toList.take 10 = (numeral 32 10 ms).map letter := by
    rw [encode, String.toList_ofList, map_shifts]
    exact List.take_left' (by simp)
  rw [decodeTimestampMs, if_neg (not_not.mpr (length_encode ms rand)), htake,
    decodeChars_letters 0 (numeral_lt_base (by decide))]
  have hvalue := value_numeral 32 10 ms
  rw [value] at hvalue
  rw [hvalue, Nat.mod_eq_of_lt (hms.trans (by decide))]

end Encoding

section Calls

variable {s : State} {call : Call}

def State.Valid (s : State) : Prop :=
  s.lastRand ≤ maxRand

theorem fromBytes_le (call : Call) : fromBytes call.token ≤ maxRand := by
  have hbytes : ∀ digit ∈ call.token.map (·.toNat), digit < 256 := by
    intro digit hdigit
    obtain ⟨byte, -, rfl⟩ := List.mem_map.mp hdigit
    exact byte.toNat_lt
  have hlt := value_lt hbytes
  rw [List.length_map, call.sized] at hlt
  exact Nat.le_sub_one_of_lt hlt

/-- What a call comes to: an id above all that the state has given, or an error where there is none
left in the millisecond, and the state as it was. -/
theorem new_cases (hvalid : s.Valid) (hclock : s.lastMs ≤ call.ms) :
    (∃ rand ≤ maxRand, s.new call = (.ok (encode call.ms rand), ⟨call.ms, rand⟩) ∧
      packed s.lastMs s.lastRand < packed call.ms rand ∧
      ¬(call.ms = s.lastMs ∧ s.lastRand = maxRand)) ∨
    s.new call = (.error .overflow, s) ∧ call.ms = s.lastMs ∧ s.lastRand = maxRand := by
  have hlast : s.lastRand ≤ maxRand := hvalid
  by_cases hsame : call.ms = s.lastMs
  · by_cases hfull : s.lastRand + 1 > maxRand
    · refine .inr ⟨?_, hsame, by omega⟩
      simp only [State.new, if_pos hsame, if_pos hfull]
    · refine .inl ⟨s.lastRand + 1, by omega, ?_, ?_, fun hboth => by omega⟩
      · simp only [State.new, if_pos hsame, if_neg hfull]
      · rw [packed, packed, hsame]
        omega
  · refine .inl ⟨fromBytes call.token, fromBytes_le call, ?_, ?_, fun hboth => hsame hboth.1⟩
    · simp only [State.new, if_neg hsame]
    · rw [packed, packed]
      rw [maxRand] at hlast
      omega

/-- What the generator promises of a process's calls. -/
structure Monotonic (outcomes : List Outcome) : Prop where
  increasing : (ids outcomes).Pairwise (· < ·)
  decoded : ∀ o ∈ outcomes, ∀ id, o.result = .ok id →
    id.length = ulidLen ∧ decodeTimestampMs id = .ok o.call.ms
  raises : ∀ o ∈ outcomes, o.result = .error .overflow ↔
    o.call.ms = o.before.lastMs ∧ o.before.lastRand = maxRand
  unchanged : ∀ o ∈ outcomes, ∀ failure, o.result = .error failure → o.after = o.before

theorem ids_cons (o : Outcome) (rest : List Outcome) :
    ids (o :: rest) = o.result.toOption.toList ++ ids rest := by
  rw [ids, List.filterMap_cons]
  cases o.result with
  | error failure => rfl
  | ok id => rfl

theorem Monotonic.cons {o : Outcome} {rest : List Outcome} (h : Monotonic rest)
    (hok : ∀ id, o.result = .ok id → (∀ later ∈ ids rest, id < later) ∧
      id.length = ulidLen ∧ decodeTimestampMs id = .ok o.call.ms)
    (hraises : o.result = .error .overflow ↔
      o.call.ms = o.before.lastMs ∧ o.before.lastRand = maxRand)
    (hunchanged : ∀ failure, o.result = .error failure → o.after = o.before) :
    Monotonic (o :: rest) where
  increasing := by
    rw [ids_cons]
    cases hresult : o.result with
    | error failure => exact h.increasing
    | ok id => exact List.pairwise_cons.mpr ⟨(hok id hresult).1, h.increasing⟩
  decoded := List.forall_mem_cons.mpr ⟨fun id hid => (hok id hid).2, h.decoded⟩
  raises := List.forall_mem_cons.mpr ⟨hraises, h.raises⟩
  unchanged := List.forall_mem_cons.mpr ⟨hunchanged, h.unchanged⟩

theorem outcomes_monotonic {calls : List Call} (hvalid : s.Valid)
    (hclock : (calls.map (·.ms)).Pairwise (· ≤ ·)) (hfrom : ∀ call ∈ calls, s.lastMs ≤ call.ms)
    (hrange : ∀ call ∈ calls, call.ms < 2 ^ 48) :
    (∀ id ∈ ids (s.outcomes calls), encode s.lastMs s.lastRand < id) ∧
      Monotonic (s.outcomes calls) := by
  induction calls generalizing s with
  | nil => exact ⟨nofun, List.Pairwise.nil, nofun, nofun, nofun⟩
  | cons call rest ih =>
    rw [List.map_cons, List.pairwise_cons] at hclock
    obtain ⟨hcall, -⟩ := List.forall_mem_cons.mp hfrom
    obtain ⟨hms, hrange⟩ := List.forall_mem_cons.mp hrange
    have hrest : ∀ c ∈ rest, call.ms ≤ c.ms := fun c hc =>
      hclock.1 c.ms (List.mem_map_of_mem hc)
    rcases new_cases hvalid hcall with ⟨rand, hrand, hnew, hlt, hroom⟩ | ⟨hnew, hfull⟩
    · obtain ⟨habove, hmono⟩ := ih (s := ⟨call.ms, rand⟩) hrand hclock.2 hrest hrange
      have hstep : encode s.lastMs s.lastRand < encode call.ms rand :=
        encode_lt hvalid hms hrand hlt
      rw [State.outcomes, hnew]
      constructor
      · rw [ids_cons]
        exact List.forall_mem_cons.mpr
          ⟨hstep, fun id hid => String.lt_trans hstep (habove id hid)⟩
      · refine hmono.cons (fun id hid => ?_) (iff_of_false nofun hroom) nofun
        rw [← Except.ok.inj hid]
        exact ⟨habove, length_encode _ _, decode_encode hms rand⟩
    · obtain ⟨habove, hmono⟩ := ih hvalid hclock.2 (fun c hc => hcall.trans (hrest c hc)) hrange
      rw [State.outcomes, hnew]
      constructor
      · rw [ids_cons]
        exact habove
      · exact hmono.cons nofun (iff_of_true rfl hfull) fun _ _ => rfl

/-- For every clock that does not step back and every random source. -/
theorem new_monotonic {calls : List Call} (hclock : (calls.map (·.ms)).Pairwise (· ≤ ·))
    (hrange : ∀ call ∈ calls, 1 ≤ call.ms ∧ call.ms < 2 ^ 48) :
    Monotonic (State.initial.outcomes calls) :=
  (outcomes_monotonic (Nat.zero_le _) hclock (fun _ _ => Nat.zero_le _)
    fun call hcall => (hrange call hcall).2).2

/-- The last id of a millisecond, a call that finds none left, and the next millisecond. -/
theorem new_monotonic_overflow : ∃ calls : List Call, calls.map (·.ms) = [7, 7, 8] ∧
    (State.initial.outcomes calls).map (·.result.toOption.isSome) = [true, false, true] ∧
    Monotonic (State.initial.outcomes calls) := by
  refine ⟨[⟨7, List.replicate 10 255, rfl⟩, ⟨7, List.replicate 10 0, rfl⟩,
    ⟨8, List.replicate 10 0, rfl⟩], rfl, by decide, ?_⟩
  exact new_monotonic (by decide) (by decide)

end Calls

end Waitbus.UlidGenerator
