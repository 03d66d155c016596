import Mathlib

/-! The part of the Python runtime the daemon's text handling rests on: strings as sequences of
code points (a lone surrogate is one, though UTF-8 cannot carry it), `str.split`,
`str.splitlines`, and the exceptions an `except` clause tells apart. -/

namespace Waitbus.Python

abbrev Bytes := List UInt8

inductive PyChar where
  | scalar (c : Char)
  | surrogate (unit : Fin 0x800)
  deriving DecidableEq, Repr

abbrev PyStr := List PyChar

/-- One name for the proof that every search of a list of texts rests on. -/
instance lawfulBEqPyStr : LawfulBEq PyStr := inferInstance

def ofText (s : String) : PyStr :=
  s.toList.map .scalar

@[simp] theorem ofText_eq_nil {s : String} : ofText s = [] ↔ s = "" := by
  simp [ofText]

@[simp]
theorem ofText_inj {a b : String} : ofText a = ofText b ↔ a = b := by
  rw [ofText, ofText, (List.map_injective_iff.mpr fun c d h => by injection h).eq_iff,
    String.toList_inj]

/-- `ord`. -/
def PyChar.code : PyChar → Nat
  | .scalar c => c.toNat
  | .surrogate unit => 0xd800 + unit.val

theorem PyChar.code_inj {c d : PyChar} (h : c.code = d.code) : c = d := by
  cases c with
  | scalar c =>
    cases d with
    | scalar d => rw [show c = d from Char.toNat_inj.mp h]
    | surrogate unit =>
      have hvalid := c.valid
      have := unit.isLt
      simp only [PyChar.code, Char.toNat] at h
      rcases hvalid with hv | ⟨hv, -⟩ <;> omega
  | surrogate unit =>
    cases d with
    | scalar d =>
      have hvalid := d.valid
      have := unit.isLt
      simp only [PyChar.code, Char.toNat] at h
      rcases hvalid with hv | ⟨hv, -⟩ <;> omega
    | surrogate unit' =>
      simp only [PyChar.code] at h
      rw [show unit = unit' from Fin.ext (by omega)]

def PyChar.toScalar : PyChar → Option Char
  | .scalar c => some c
  | .surrogate _ => none

def Scalar (s : PyStr) : Prop :=
  ∀ c ∈ s, c.toScalar.isSome

instance (s : PyStr) : Decidable (Scalar s) :=
  inferInstanceAs (Decidable (∀ c ∈ s, c.toScalar.isSome))

@[simp] theorem scalar_nil : Scalar [] := by
  intro c hc
  cases hc

@[simp] theorem scalar_append {s t : PyStr} : Scalar (s ++ t) ↔ Scalar s ∧ Scalar t := by
  simp only [Scalar, List.mem_append]
  constructor
  · intro h
    exact ⟨fun c hc => h c (.inl hc), fun c hc => h c (.inr hc)⟩
  · rintro ⟨hs, ht⟩ c (hc | hc)
    · exact hs c hc
    · exact ht c hc

@[simp] theorem scalar_ofText (s : String) : Scalar (ofText s) := by
  intro c hc
  obtain ⟨d, -, rfl⟩ := List.mem_map.mp hc
  rfl

theorem Scalar.sublist {s t : PyStr} (h : Scalar t) (hs : s.Sublist t) : Scalar s :=
  fun c hc => h c (hs.subset hc)

/-- `str.isspace` of one code point. -/
def isSpace : PyChar → Bool
  | .scalar c =>
    (9 ≤ c.toNat && c.toNat ≤ 13) || (0x1c ≤ c.toNat && c.toNat ≤ 0x20) ||
      (0x2000 ≤ c.toNat && c.toNat ≤ 0x200a) ||
      [0x85, 0xa0, 0x1680, 0x2028, 0x2029, 0x202f, 0x205f, 0x3000].contains c.toNat
  | .surrogate _ => false

/-- The code points `str.splitlines` breaks at. -/
def isLineBreak : PyChar → Bool
  | .scalar c =>
    (10 ≤ c.toNat && c.toNat ≤ 13) || (0x1c ≤ c.toNat && c.toNat ≤ 0x1e) ||
      [0x85, 0x2028, 0x2029].contains c.toNat
  | .surrogate _ => false

def strip (s : PyStr) : PyStr :=
  ((s.dropWhile isSpace).reverse.dropWhile isSpace).reverse

theorem strip_eq_self {s : PyStr} (h : ∀ c ∈ s, isSpace c = false) : strip s = s := by
  have hall : ∀ t : PyStr, (∀ c ∈ t, isSpace c = false) → t.dropWhile isSpace = t := by
    intro t ht
    cases t with
    | nil => rfl
    | cons c rest => rw [List.dropWhile_cons_of_neg (by simp [ht c List.mem_cons_self])]
  rw [strip, hall s h, hall s.reverse fun c hc => h c (List.mem_reverse.mp hc),
    List.reverse_reverse]

/-- `str.split()`: the maximal runs of code points that are not white space. -/
def splitWords (s : PyStr) : List PyStr :=
  (s.splitOnP isSpace).filter (· ≠ [])

theorem mem_splitOnP {α : Type} {p : α → Bool} {xs piece : List α} (h : piece ∈ xs.splitOnP p) :
    ∀ x ∈ piece, x ∈ xs ∧ p x = false := by
  induction xs generalizing piece with
  | nil =>
    rw [List.splitOnP_nil, List.mem_singleton] at h
    simp [h]
  | cons x xs ih =>
    have hbehind (y : α) (hy : y ∈ xs ∧ p y = false) : y ∈ x :: xs ∧ p y = false :=
      hy.imp_left (List.mem_cons_of_mem x)
    rw [List.splitOnP_cons_eq_if_modifyHead] at h
    split at h
    · rcases List.mem_cons.mp h with rfl | h
      · simp
      · exact fun y hy => hbehind y (ih h y hy)
    · rename_i hx
      cases hsplit : xs.splitOnP p with
      | nil => exact absurd hsplit (List.splitOnP_ne_nil _ _)
      | cons first rest =>
        rw [hsplit] at ih
        rw [hsplit, List.modifyHead_cons, List.mem_cons] at h
        rcases h with rfl | h
        · intro y hy
          rcases List.mem_cons.mp hy with rfl | hy
          · exact ⟨List.mem_cons_self, Bool.eq_false_iff.mpr hx⟩
          · exact hbehind y (ih List.mem_cons_self y hy)
        · exact fun y hy => hbehind y (ih (List.mem_cons_of_mem _ h) y hy)

/-- `sep.join(parts)`. -/
def join (sep : PyStr) : List PyStr → PyStr
  | [] => []
  | [part] => part
  | part :: rest => part ++ sep ++ join sep rest

theorem forall_mem_join {P : PyChar → Prop} {sep : PyStr} {parts : List PyStr}
    (hsep : ∀ c ∈ sep, P c) (h : ∀ part ∈ parts, ∀ c ∈ part, P c) : ∀ c ∈ join sep parts, P c := by
  induction parts with
  | nil => exact fun c hc => absurd hc List.not_mem_nil
  | cons part rest ih =>
    have hrest := ih fun p hp => h p (List.mem_cons_of_mem _ hp)
    cases rest with
    | nil => exact h part List.mem_cons_self
    | cons next rest =>
      simp only [join, List.mem_append]
      rintro c ((hc | hc) | hc)
      · exact h part List.mem_cons_self c hc
      · exact hsep c hc
      · exact hrest c hc

theorem Scalar.words {s : PyStr} (h : Scalar s) :
    Scalar (join (ofText " ") (splitWords s)) := by
  refine forall_mem_join (scalar_ofText _) fun w hw c hc => h c ?_
  exact (mem_splitOnP (List.mem_filter.mp hw).1 c hc).1

/-- `lines[0] if lines else ""` for `lines = s.splitlines()`: a break that starts the text ends
an empty first line. -/
def firstLine (s : PyStr) : PyStr :=
  s.takeWhile fun c => !isLineBreak c

/-- A digit of `format(n, "x")`. -/
def hexChar (n : Nat) : Char :=
  Char.ofNat (if n < 10 then 0x30 + n else 0x57 + n)

inductive PyExc where
  | keyError
  | typeError
  | attributeError
  | valueError
  | jsonDecodeError
  | unicodeEncodeError
  | frameTooLarge
  | recursionError
  | overflowError
  | sqliteError
  | osError
  deriving DecidableEq, Repr

/-- `isinstance(exc, ValueError)`. -/
def PyExc.isValueError : PyExc → Bool
  | .valueError | .jsonDecodeError | .unicodeEncodeError | .frameTooLarge => true
  | _ => false

end Waitbus.Python
