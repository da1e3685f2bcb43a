import Mathlib.Data.Nat.Log
import Mathlib.Data.Rat.Floor
import Mathlib.Tactic.Ring
import Mathlib.Tactic.Linarith
import Mathlib.Tactic.FieldSimp

/-!
# Decimal numerals as byte strings

A text is a list of bytes.  `fixed k n` is the last `k` decimal digits of `n`, and
`natText n` the decimal numeral of `n`; `value` reads a string of digits back.  The
facts the numerals are used through:

* reading back: `value_fixed`, `value_natText`;
* cutting a numeral short divides what it denotes by a power of ten: `take_fixed`;
* a numeral of `n` fits `k` characters exactly when `n < 10 ^ k`:
  `width_le_iff`.
-/

set_option autoImplicit false

namespace Decimal

/-- A byte. -/
abbrev Byte := Fin 256

/-- There is a byte. -/
instance neZeroByte : NeZero 256 := ⟨by norm_num⟩

/-- A text: a string of bytes. -/
abbrev Str := List Byte

/-- A text can be searched for a byte. -/
instance decidableMemStr (b : Byte) (s : Str) : Decidable (b ∈ s) := inferInstance

/-- The byte of the decimal digit `d`. -/
def digit (d : ℕ) : Byte := Fin.ofNat 256 (48 + d % 10)

/-- The decimal point. -/
def dot : Byte := 46

/-- Whether a byte is a decimal digit. -/
def isDigit (b : Byte) : Bool := 48 ≤ b.val && b.val ≤ 57

/-- The number a digit stands for. -/
def digitValue (b : Byte) : ℕ := b.val - 48

/-- The last `k` decimal digits of `n`, leading zeros included. -/
def fixed : ℕ → ℕ → Str
  | 0, _ => []
  | k + 1, n => fixed k (n / 10) ++ [digit n]

/-- The number of decimal digits of `n`. -/
def width (n : ℕ) : ℕ := Nat.log 10 n + 1

/-- The decimal numeral of `n`. -/
def natText (n : ℕ) : Str := fixed (width n) n

/-- The number a string of digits denotes. -/
def value (s : Str) : ℕ := s.foldl (fun v b => 10 * v + digitValue b) 0

/-! ## Digits -/

/-- The bytes of the digits start at 48. -/
theorem digit_val (d : ℕ) : (digit d).val = 48 + d % 10 := by
  have h : 48 + d % 10 < 256 := by omega
  simp [digit, Fin.ofNat, Nat.mod_eq_of_lt h]

/-- A digit is a digit. -/
@[simp] theorem isDigit_digit (d : ℕ) : isDigit (digit d) = true := by
  have h := digit_val d
  have hlt : d % 10 < 10 := Nat.mod_lt d (by omega)
  simp only [isDigit, Bool.and_eq_true, decide_eq_true_eq]
  omega

/-- Its value is the last digit of the number. -/
@[simp] theorem digitValue_digit (d : ℕ) : digitValue (digit d) = d % 10 := by
  simp [digitValue, digit_val]

/-- The dot is none. -/
@[simp] theorem isDigit_dot : isDigit dot = false := by decide

/-- The value of a digit is below 10. -/
theorem digitValue_lt {b : Byte} (h : isDigit b = true) : digitValue b < 10 := by
  simp only [isDigit, Bool.and_eq_true, decide_eq_true_eq] at h
  unfold digitValue
  omega

/-! ## Fixed-width digits -/

/-- A number printed with so many digits has so many. -/
@[simp] theorem fixed_length (k n : ℕ) : (fixed k n).length = k := by
  induction k generalizing n with
  | zero => rfl
  | succ k ih => simp [fixed, ih]

/-- All of them are digits. -/
theorem isDigit_of_mem_fixed {k n : ℕ} {b : Byte} (h : b ∈ fixed k n) :
    isDigit b = true := by
  induction k generalizing n with
  | zero => simp [fixed] at h
  | succ k ih =>
    simp only [fixed, List.mem_append, List.mem_singleton] at h
    rcases h with h | rfl
    · exact ih h
    · exact isDigit_digit n

/-- **Cutting digits off the right divides by a power of ten.** -/
theorem take_fixed (k j n : ℕ) : (fixed (k + j) n).take k = fixed k (n / 10 ^ j) := by
  induction j generalizing n with
  | zero =>
    rw [Nat.add_zero, pow_zero, Nat.div_one, List.take_of_length_le]
    simp
  | succ j ih =>
    have hlen : k ≤ (fixed (k + j) (n / 10)).length := by simp
    rw [← Nat.add_assoc, fixed, List.take_append_of_le_length hlen, ih, pow_succ',
      Nat.div_div_eq_div_mul]

/-- The first digits are the number without its last ones. -/
theorem take_fixed_of_le {k m n : ℕ} (h : k ≤ m) :
    (fixed m n).take k = fixed k (n / 10 ^ (m - k)) := by
  obtain ⟨j, rfl⟩ := Nat.exists_eq_add_of_le h
  rw [take_fixed, Nat.add_sub_cancel_left]

/-! ## Reading digits -/

/-- Reading on behind digits that were read. -/
theorem foldl_value (s : Str) (v : ℕ) :
    s.foldl (fun v b => 10 * v + digitValue b) v = v * 10 ^ s.length + value s := by
  induction s generalizing v with
  | nil => simp [value]
  | cons b s ih =>
    rw [value, List.foldl_cons, List.foldl_cons, ih, ih (10 * 0 + digitValue b),
      List.length_cons, pow_succ]
    ring

/-- No digits are worth nothing. -/
@[simp] theorem value_nil : value [] = 0 := rfl

/-- The digits in front count as many times ten as there are digits behind. -/
theorem value_append (s t : Str) : value (s ++ t) = value s * 10 ^ t.length + value t := by
  rw [value, List.foldl_append, foldl_value]
  rfl

/-- One digit is worth its value. -/
@[simp] theorem value_singleton (b : Byte) : value [b] = digitValue b := by
  simp [value]

/-- **Reading back fixed-width digits.** -/
theorem value_fixed (k n : ℕ) : value (fixed k n) = n % 10 ^ k := by
  induction k generalizing n with
  | zero => simp [fixed, Nat.mod_one]
  | succ k ih =>
    rw [fixed, value_append, ih, value_singleton, digitValue_digit, List.length_singleton,
      pow_one, pow_succ', Nat.mod_mul]
    ring

/-- The value of the first digits of a number. -/
theorem value_take_fixed {k m : ℕ} (h : k ≤ m) (n : ℕ) :
    value ((fixed m n).take k) = n / 10 ^ (m - k) % 10 ^ k := by
  rw [take_fixed_of_le h, value_fixed]

/-- So many digits are worth less than that power of ten. -/
theorem value_lt {s : Str} (h : ∀ b ∈ s, isDigit b = true) : value s < 10 ^ s.length := by
  induction s with
  | nil => simp
  | cons b s ih =>
    have hb := digitValue_lt (h b (by simp))
    have hs := ih fun c hc => h c (by simp [hc])
    have hsplit : value (b :: s) = digitValue b * 10 ^ s.length + value s := by
      have := value_append [b] s
      simpa using this
    rw [hsplit, List.length_cons, pow_succ]
    nlinarith

/-! ## Numerals -/

/-- A number is below the power of ten of its width. -/
theorem lt_pow_width (n : ℕ) : n < 10 ^ width n :=
  Nat.lt_pow_succ_log_self (by norm_num) n

/-- A number is printed with as many digits as its width. -/
@[simp] theorem natText_length (n : ℕ) : (natText n).length = width n := fixed_length _ _

/-- There is at least one. -/
theorem width_pos (n : ℕ) : 0 < width n := Nat.succ_pos _

/-- A numeral has at most `k` digits exactly when its number is below `10 ^ k`. -/
theorem width_le_iff {k : ℕ} (hk : 0 < k) (n : ℕ) : width n ≤ k ↔ n < 10 ^ k := by
  unfold width
  rcases Nat.eq_zero_or_pos n with rfl | hn
  · simp; omega
  · rw [Nat.succ_le_iff, Nat.log_lt_iff_lt_pow (by norm_num) (by omega)]

/-- **Reading back a numeral.** -/
@[simp] theorem value_natText (n : ℕ) : value (natText n) = n := by
  rw [natText, value_fixed, Nat.mod_eq_of_lt (lt_pow_width n)]

/-- A printed number is not empty. -/
theorem natText_ne_nil (n : ℕ) : natText n ≠ [] := by
  intro h
  have := natText_length n
  rw [h] at this
  exact absurd this (by have := width_pos n; simp; omega)

/-- It has digits only. -/
theorem isDigit_of_mem_natText {n : ℕ} {b : Byte} (h : b ∈ natText n) : isDigit b = true :=
  isDigit_of_mem_fixed h

/-- A numeral cut to its first `k` digits denotes its number without the others. -/
theorem take_natText {k n : ℕ} (h : k ≤ width n) :
    (natText n).take k = fixed k (n / 10 ^ (width n - k)) :=
  take_fixed_of_le h

/-- **Cutting a numeral short** divides by a power of ten; a numeral that is short enough
keeps its value. -/
theorem value_take_natText (k n : ℕ) : value ((natText n).take k) = n / 10 ^ (width n - k) := by
  rcases Nat.le_total k (width n) with h | h
  · have hpow : 10 ^ width n = 10 ^ k * 10 ^ (width n - k) := by
      rw [← pow_add, Nat.add_sub_cancel' h]
    have hlt : n / 10 ^ (width n - k) < 10 ^ k := by
      apply Nat.div_lt_of_lt_mul
      rw [mul_comm, ← hpow]
      exact lt_pow_width n
    rw [take_natText h, value_fixed, Nat.mod_eq_of_lt hlt]
  · have hlen : (natText n).length ≤ k := by rwa [natText_length]
    rw [List.take_of_length_le hlen, value_natText, Nat.sub_eq_zero_of_le h, pow_zero,
      Nat.div_one]

end Decimal
