import Mathlib

/-! Numerals of a fixed width in a base: the most significant digit first, leading zeros written.
Those of one width are ordered as lists in the order of their values. -/

namespace Waitbus.Numeral

def numeral (base : Nat) : Nat → Nat → List Nat
  | 0, _ => []
  | width + 1, n => n / base ^ width % base :: numeral base width n

def value (base : Nat) (digits : List Nat) : Nat :=
  digits.foldl (fun n digit => n * base + digit) 0

variable {base width m n : Nat}

@[simp] theorem length_numeral (base width n : Nat) : (numeral base width n).length = width := by
  induction width with
  | zero => rfl
  | succ width ih => rw [numeral, List.length_cons, ih]

theorem numeral_lt_base (h : 0 < base) : ∀ digit ∈ numeral base width n, digit < base := by
  induction width with
  | zero => exact fun digit hdigit => absurd hdigit List.not_mem_nil
  | succ width ih =>
    intro digit hdigit
    rcases List.mem_cons.mp hdigit with rfl | hrest
    · exact Nat.mod_lt _ h
    · exact ih digit hrest

theorem numeral_mod (base : Nat) {width high : Nat} (h : width ≤ high) (n : Nat) :
    numeral base width (n % base ^ high) = numeral base width n := by
  induction width with
  | zero => rfl
  | succ width ih =>
    have hdigit : n % base ^ high / base ^ width % base = n / base ^ width % base := by
      obtain ⟨k, rfl⟩ := Nat.exists_eq_add_of_le h
      rw [show width + 1 + k = width + (1 + k) by omega, Nat.pow_add base width,
        Nat.mod_mul_right_div_self, Nat.pow_add, Nat.pow_one, Nat.mod_mul_right_mod]
    rw [numeral, numeral, hdigit, ih (by omega)]

theorem numeral_lt (hlt : m < n) (hn : n < base ^ width) :
    numeral base width m < numeral base width n := by
  induction width generalizing m n with
  | zero =>
    rw [Nat.pow_zero] at hn
    omega
  | succ width ih =>
    rw [Nat.pow_succ] at hn
    have hpow : 0 < base ^ width := Nat.pos_of_ne_zero fun hzero => by
      rw [hzero, Nat.zero_mul] at hn
      omega
    have htop : ∀ k ≤ n, k / base ^ width % base = k / base ^ width := fun k hk =>
      Nat.mod_eq_of_lt (Nat.div_lt_of_lt_mul (hk.trans_lt hn))
    rw [numeral, numeral, List.cons_lt_cons_iff, htop m hlt.le, htop n le_rfl]
    rcases (Nat.div_le_div_right hlt.le : m / base ^ width ≤ n / base ^ width).lt_or_eq with
      hhead | hhead
    · exact .inl hhead
    · refine .inr ⟨hhead, ?_⟩
      rw [← numeral_mod base le_rfl m, ← numeral_mod base le_rfl n]
      refine ih ?_ (Nat.mod_lt _ hpow)
      have hm := Nat.div_add_mod m (base ^ width)
      have hn := Nat.div_add_mod n (base ^ width)
      rw [hhead] at hm
      omega

theorem value_numeral (base width n : Nat) :
    value base (numeral base width n) = n % base ^ width := by
  have hfold : ∀ start, (numeral base width n).foldl (fun n digit => n * base + digit) start =
      start * base ^ width + n % base ^ width := by
    induction width with
    | zero => intro start; simp [numeral, Nat.mod_one]
    | succ width ih =>
      intro start
      rw [numeral, List.foldl_cons, ih, Nat.mod_pow_succ]
      ring
  rw [value, hfold, Nat.zero_mul, Nat.zero_add]

theorem value_lt {digits : List Nat} (h : ∀ digit ∈ digits, digit < base) :
    value base digits < base ^ digits.length := by
  have hfold : ∀ start, digits.foldl (fun n digit => n * base + digit) start <
      (start + 1) * base ^ digits.length := by
    induction digits with
    | nil => intro start; simp
    | cons digit rest ih =>
      intro start
      rw [List.foldl_cons, List.length_cons, Nat.pow_succ']
      have hrest := ih (fun d hd => h d (List.mem_cons_of_mem _ hd)) (start * base + digit)
      have hdigit := h digit List.mem_cons_self
      have hstep : (start * base + digit + 1) * base ^ rest.length ≤
          (start + 1) * base * base ^ rest.length :=
        Nat.mul_le_mul_right _ (by rw [Nat.succ_mul]; omega)
      rw [← Nat.mul_assoc]
      exact hrest.trans_le hstep
  simpa [value] using hfold 0

theorem numeral_append {low : Nat} (hlow : n < base ^ low) :
    numeral base (width + low) (m * base ^ low + n) =
      numeral base width m ++ numeral base low n := by
  have hpow : 0 < base ^ low := Nat.zero_lt_of_lt hlow
  induction width with
  | zero =>
    rw [Nat.zero_add, ← numeral_mod base le_rfl, Nat.mul_add_mod', numeral_mod base le_rfl]
    rfl
  | succ width ih =>
    have hdigit : (m * base ^ low + n) / base ^ (width + low) = m / base ^ width := by
      rw [Nat.add_comm width, Nat.pow_add, ← Nat.div_div_eq_div_mul, Nat.mul_comm m,
        Nat.mul_add_div hpow, Nat.div_eq_of_lt hlow, Nat.add_zero]
    rw [show width + 1 + low = width + low + 1 by omega, numeral, numeral, hdigit, ih,
      List.cons_append]

end Waitbus.Numeral
