import CliPos.Model.InputString
import Mathlib.Algebra.Order.Floor.Semifield
import Mathlib.Data.List.TakeWhile

/-!
# Reading back a number

A number of the form is printed as the placeholder of its prompt, the text accepted is cut
to the prompt's size, what is not a digit or a dot is dropped, and the rest is parsed.
`cutInteger` and `cutDecimal` say what number comes back, and `FitsInteger` and
`FitsDecimal` which numbers come back unchanged.
-/

set_option autoImplicit false

namespace CliPos

open Decimal

/-! ## The filter -/

/-- The loop keeps digits and dots from its index on, up to where a `short int` ends. -/
theorem removeNonNrLoop_eq {s : Str} {i : ℤ} (h0 : 0 ≤ i) (h1 : i < 32768) :
    removeNonNrLoop s i = (s.take (32768 - i).toNat).filter isNr := by
  induction s generalizing i with
  | nil => rw [List.take_nil]; rfl
  | cons b s ih =>
    obtain ⟨k, hk⟩ : ∃ k, (32768 - i).toNat = k + 1 := ⟨(32767 - i).toNat, by omega⟩
    have hrest : removeNonNrLoop s (toShort (i + 1)) = (s.take k).filter isNr := by
      by_cases hlast : i + 1 < 32768
      · have hshort : toShort (i + 1) = i + 1 := by
          unfold toShort
          rw [Int.bmod_eq_of_le] <;> omega
        rw [hshort, ih (by omega) hlast]
        congr 2
        omega
      · -- the index wraps, and the loop ends
        have hwrap : toShort (i + 1) = -32768 := by
          have hi : i + 1 = 32768 := by omega
          rw [hi]
          decide
        have hzero : k = 0 := by omega
        rw [hwrap, hzero]
        cases s <;> rfl
    rw [removeNonNrLoop, if_neg (by omega), hrest, hk, List.take_succ_cons, List.filter_cons]
    split_ifs <;> rfl

/-- The characters that `remove_non_nr` keeps: the digits and dots among the first 32768. -/
def keptChars (text : Str) : Str := (text.take 32768).filter isNr

/-- **`remove_non_nr`** returns the characters it keeps, and "0" for none. -/
theorem removeNonNr_eq (text : Str) :
    removeNonNr text = if keptChars text = [] then [48] else keptChars text := by
  have hloop : removeNonNrLoop text 0 = keptChars text :=
    removeNonNrLoop_eq le_rfl (by norm_num)
  rw [removeNonNr, hloop]

/-- A text of at most 32768 characters, with one to keep, loses nothing else. -/
theorem removeNonNr_eq_filter {s : Str} (h : s.length ≤ 32768) (hne : s.filter isNr ≠ []) :
    removeNonNr s = s.filter isNr := by
  rw [removeNonNr_eq, keptChars, List.take_of_length_le h, if_neg hne]

/-- The filter keeps the text of a number apart from its sign. -/
theorem removeNonNr_signed {negative : Bool} {size : ℕ} {s : Str} (hsize : 2 ≤ size)
    (hshort : size ≤ 32768) (hne : s ≠ []) (hs : ∀ b ∈ s, isNr b = true) :
    removeNonNr ((if negative then minus :: s else s).take size) =
      s.take (if negative then size - 1 else size) := by
  have hfilter : ∀ n, (s.take n).filter isNr = s.take n := by
    intro n
    exact List.filter_eq_self.2 fun b hb => hs b (List.mem_of_mem_take hb)
  have htake : ∀ n, 0 < n → s.take n ≠ [] := by
    intro n hn hnil
    rcases List.take_eq_nil_iff.1 hnil with h | h
    · omega
    · exact hne h
  cases negative with
  | false =>
    simp only [Bool.false_eq_true, if_false]
    rw [removeNonNr_eq_filter, hfilter]
    · rw [List.length_take]
      omega
    · rw [hfilter]
      exact htake size (by omega)
  | true =>
    simp only [if_true]
    have hcons : (minus :: s).take size = minus :: s.take (size - 1) := by
      obtain ⟨n, rfl⟩ := Nat.exists_eq_add_of_le' (Nat.le_of_lt hsize)
      rfl
    have hminus : (minus :: s.take (size - 1)).filter isNr = s.take (size - 1) := by
      rw [List.filter_cons, if_neg (by decide), hfilter]
    rw [hcons, removeNonNr_eq_filter, hminus]
    · rw [List.length_cons, List.length_take]
      omega
    · rw [hminus]
      exact htake (size - 1) (by omega)

/-! ## The parsers -/

/-- A digit is kept. -/
theorem isNr_of_isDigit {b : Byte} (h : isDigit b = true) : isNr b = true := by
  simp [isNr, h]

/-- The leading digits end where the digits do. -/
theorem leadingDigits_append {a b : Str} (ha : ∀ x ∈ a, isDigit x = true)
    (hb : ∀ x ∈ b.head?, isDigit x = false) : leadingDigits (a ++ b) = a := by
  have hnil : b.takeWhile isDigit = [] := by
    cases b with
    | nil => rfl
    | cons x b => simp [hb x rfl]
  rw [leadingDigits, List.takeWhile_append_of_pos ha, hnil, List.append_nil]

/-- Of a text of digits all are leading. -/
theorem leadingDigits_digits {s : Str} (hs : ∀ b ∈ s, isDigit b = true) :
    leadingDigits s = s := by
  have h := leadingDigits_append (b := []) hs (by simp)
  simpa using h

/-- It has no fraction. -/
theorem fractionDigits_digits {s : Str} (hs : ∀ b ∈ s, isDigit b = true) :
    fractionDigits s = [] := by
  have hnil : s.dropWhile isDigit = [] := List.dropWhile_eq_nil_iff.2 hs
  rw [fractionDigits, hnil]

/-- The digits behind the dot are the fraction. -/
theorem fractionDigits_point {a b : Str} (ha : ∀ x ∈ a, isDigit x = true)
    (hb : ∀ x ∈ b, isDigit x = true) : fractionDigits (a ++ dot :: b) = b := by
  have hdrop : (a ++ dot :: b).dropWhile isDigit = dot :: b := by
    rw [List.dropWhile_append_of_pos ha, List.dropWhile_cons, isDigit_dot]
    simp
  rw [fractionDigits, hdrop]
  simp [leadingDigits_digits hb]

/-- Up to 18 digits are read as their value. -/
theorem stol_digits {s : Str} (hne : s ≠ []) (hs : ∀ b ∈ s, isDigit b = true)
    (hlen : s.length ≤ 18) : stol s = .ok (value s) := by
  have hlt : value s < 10 ^ 18 :=
    lt_of_lt_of_le (value_lt hs) (Nat.pow_le_pow_right (by norm_num) hlen)
  have hle : value s ≤ 2 ^ 63 - 1 := by
    norm_num at hlt ⊢
    omega
  rw [stol, parseInteger, leadingDigits_digits hs, if_neg hne, if_pos hle]

/-- A number that is 0 or between `2 ^ -60` and `2 ^ 60` is in the range of a `double`. -/
theorem binary64_inRange {x : ℚ} (hsmall : x = 0 ∨ 1 / 2 ^ 60 ≤ x) (hlarge : x < 2 ^ 60) :
    ¬(binary64.Overflows x ∨ binary64.Underflows x) := by
  rintro (hover | ⟨hpos, hunder, -⟩)
  · have hpow : (2 : ℚ) ^ 60 ≤ 2 ^ 1023 := pow_le_pow_right₀ (by norm_num) (by norm_num)
    have hhalf : (1 : ℚ) ≤ 2 - 1 / 2 ^ 53 := by norm_num
    have hmul : (2 : ℚ) ^ 1023 ≤ 2 ^ 1023 * (2 - 1 / 2 ^ 53) :=
      le_mul_of_one_le_right (by positivity) hhalf
    have hle : (2 : ℚ) ^ 1023 * (2 - 1 / 2 ^ 53) ≤ x := hover
    exact absurd (hpow.trans (hmul.trans hle)) (not_le.2 hlarge)
  · have hle : (1 : ℚ) / 2 ^ 60 ≤ x := by
      rcases hsmall with rfl | h
      · exact absurd hpos (lt_irrefl 0)
      · exact h
    have htiny : (1 : ℚ) / 2 ^ 1022 ≤ 1 / 2 ^ 60 :=
      one_div_le_one_div_of_le (by positivity) (pow_le_pow_right₀ (by norm_num) (by norm_num))
    have hless : x < 1 / 2 ^ 1022 := by
      have hsub : (0 : ℚ) ≤ 1 / 2 ^ (1022 + 53 + 1) := by positivity
      exact lt_of_lt_of_le hunder (sub_le_self _ hsub)
    exact absurd (hle.trans_lt hless) (not_lt.2 htiny)

/-- A number of at most fourteen decimals is nothing or at least `10 ^ -14`. -/
theorem decimals_inRange {n k : ℕ} (hk : k ≤ 14) (hn : (n : ℚ) / 10 ^ k < 2 ^ 60) :
    ¬(binary64.Overflows ((n : ℚ) / 10 ^ k) ∨ binary64.Underflows ((n : ℚ) / 10 ^ k)) := by
  refine binary64_inRange ?_ hn
  rcases Nat.eq_zero_or_pos n with rfl | hpos
  · left
    simp
  · right
    have hpow : (10 : ℚ) ^ k ≤ 2 ^ 60 := by
      have : (10 : ℚ) ^ k ≤ 10 ^ 14 := pow_le_pow_right₀ (by norm_num) hk
      exact this.trans (by norm_num)
    have hone : (1 : ℚ) ≤ n := by exact_mod_cast hpos
    calc (1 : ℚ) / 2 ^ 60 ≤ 1 / 10 ^ k := one_div_le_one_div_of_le (by positivity) hpow
      _ ≤ n / 10 ^ k := by
        apply div_le_div_of_nonneg_right hone (by positivity)

/-- A number of six decimals below 10^18 is in the range of a double. -/
theorem stod_of_strtod {s : Str} {n : ℕ} (h : strtod s = some ((n : ℚ) / 10 ^ 6))
    (hn : n < 10 ^ 24) : stod s = .ok ((n : ℚ) / 10 ^ 6) := by
  have hlarge : (n : ℚ) / 10 ^ 6 < 2 ^ 60 := by
    rw [div_lt_iff₀ (by norm_num)]
    have hcast : (n : ℚ) < 10 ^ 24 := by exact_mod_cast hn
    exact hcast.trans (by norm_num)
  rw [stod, parseFloat, h]
  simp only [if_neg (decimals_inRange (by norm_num) hlarge)]

/-- A text of digits is read as its value. -/
theorem strtod_digits {s : Str} (hne : s ≠ []) (hs : ∀ b ∈ s, isDigit b = true) :
    strtod s = some (((value s * 10 ^ 6 : ℕ) : ℚ) / 10 ^ 6) := by
  rw [strtod, leadingDigits_digits hs, fractionDigits_digits hs, if_neg (by simp [hne]),
    Nat.cast_mul, Nat.cast_pow, Nat.cast_ofNat, mul_div_cancel_right₀ _ (by norm_num)]
  simp

/-- Digits, a point and at most six digits. -/
theorem strtod_point {a b : Str} (hne : a ≠ []) (ha : ∀ x ∈ a, isDigit x = true)
    (hb : ∀ x ∈ b, isDigit x = true) (hlen : b.length ≤ 6) :
    strtod (a ++ dot :: b) =
      some ((((value a * 10 ^ b.length + value b) * 10 ^ (6 - b.length) : ℕ) : ℚ) / 10 ^ 6) := by
  have hlead : leadingDigits (a ++ dot :: b) = a := leadingDigits_append ha (by simp)
  rw [strtod, hlead, fractionDigits_point ha hb, if_neg (by simp [hne])]
  have hpow : (10 : ℚ) ^ 6 = 10 ^ b.length * 10 ^ (6 - b.length) := by
    rw [← pow_add, Nat.add_sub_cancel' hlen]
  rw [hpow, Nat.cast_mul, Nat.cast_pow, Nat.cast_ofNat,
    mul_div_mul_right _ _ (pow_ne_zero _ (by norm_num))]
  congr 1
  push_cast
  field_simp

/-! ## Integers -/

/-- The number that comes back for `z` from a prompt of the given size. -/
def cutInteger (size : ℕ) (z : ℤ) : ℤ :=
  (z.natAbs / 10 ^ (width z.natAbs - if z < 0 then size - 1 else size) : ℕ)

/-- The numbers that come back unchanged. -/
def FitsInteger (size : ℕ) (z : ℤ) : Prop := 0 ≤ z ∧ z < 10 ^ size

/-- An integer comes back from its prompt exactly when it fits. -/
theorem cutInteger_eq_iff {size : ℕ} (hsize : 0 < size) (z : ℤ) :
    cutInteger size z = z ↔ FitsInteger size z := by
  unfold cutInteger FitsInteger
  by_cases hz : z < 0
  · have hnonneg : ∀ n : ℕ, (n : ℤ) ≠ z := by
      intro n hn
      omega
    exact iff_of_false (hnonneg _) fun h => absurd hz (not_lt.2 h.1)
  · obtain ⟨n, rfl⟩ := Int.eq_ofNat_of_zero_le (not_lt.1 hz)
    rw [if_neg hz, Int.natAbs_natCast]
    have hiff : n / 10 ^ (width n - size) = n ↔ n < 10 ^ size := by
      rw [← width_le_iff hsize]
      constructor
      · intro h
        by_contra hlt
        have hpos : 0 < n := by
          rcases Nat.eq_zero_or_pos n with rfl | hn
          · have : width 0 = 1 := rfl
            omega
          · exact hn
        have hone : 1 < 10 ^ (width n - size) := Nat.one_lt_pow (by omega) (by norm_num)
        exact absurd h (Nat.div_lt_self hpos hone).ne
      · intro h
        rw [Nat.sub_eq_zero_of_le h, pow_zero, Nat.div_one]
    constructor
    · intro h
      exact ⟨by omega, by exact_mod_cast hiff.1 (by exact_mod_cast h)⟩
    · rintro ⟨-, h⟩
      exact_mod_cast hiff.2 (by exact_mod_cast h)

/-- An integer is printed as its sign and its digits. -/
theorem intText_eq (z : ℤ) :
    intText z = if decide (z < 0) then minus :: natText z.natAbs else natText z.natAbs := by
  unfold intText
  by_cases h : z < 0 <;> simp [h]

/-- A printed integer is not empty. -/
theorem intText_ne_nil (z : ℤ) : intText z ≠ [] := by
  unfold intText
  split_ifs
  · simp
  · exact natText_ne_nil _

/-- Of an integer that was cut, the digits are kept; a sign took one place. -/
theorem removeNonNr_intText {size : ℕ} (hsize : 2 ≤ size) (hshort : size ≤ 32768) (z : ℤ) :
    removeNonNr ((intText z).take size) =
      (natText z.natAbs).take (if z < 0 then size - 1 else size) := by
  rw [intText_eq, removeNonNr_signed hsize hshort (natText_ne_nil _)]
  · simp
  · intro b hb
    exact isNr_of_isDigit (isDigit_of_mem_natText hb)

/-- A number that was cut is a text of digits still. -/
theorem take_natText_digits {k n : ℕ} (hk : 0 < k) :
    (natText n).take k ≠ [] ∧ (∀ b ∈ (natText n).take k, isDigit b = true) ∧
      ((natText n).take k).length ≤ k := by
  refine ⟨?_, fun b hb => isDigit_of_mem_natText (List.mem_of_mem_take hb), by simp⟩
  intro h
  rcases List.take_eq_nil_iff.1 h with h | h
  · omega
  · exact natText_ne_nil n h

/-- **A code comes back** cut. -/
theorem stol_intText {size : ℕ} (hsize : 2 ≤ size) (hlen : size ≤ 18) (z : ℤ) :
    stol (removeNonNr ((intText z).take size)) = .ok (cutInteger size z) := by
  have hpos : 0 < if z < 0 then size - 1 else size := by split_ifs <;> omega
  obtain ⟨hne, hdigits, hk⟩ := @take_natText_digits _ z.natAbs hpos
  rw [removeNonNr_intText hsize (by omega), stol_digits hne hdigits, value_take_natText]
  · rfl
  · refine hk.trans ?_
    split_ifs <;> omega

/-- **A discount comes back** cut. -/
theorem stod_intText {size : ℕ} (hsize : 2 ≤ size) (hlen : size ≤ 18) (z : ℤ) :
    stod (removeNonNr ((intText z).take size)) = .ok (cutInteger size z) := by
  have hpos : 0 < if z < 0 then size - 1 else size := by split_ifs <;> omega
  obtain ⟨hne, hdigits, hk⟩ := @take_natText_digits _ z.natAbs hpos
  have hlt := value_lt hdigits
  have hbound : value ((natText z.natAbs).take (if z < 0 then size - 1 else size)) * 10 ^ 6 <
      10 ^ 24 := by
    have hle : 10 ^ ((natText z.natAbs).take (if z < 0 then size - 1 else size)).length ≤
        10 ^ 18 := by
      refine Nat.pow_le_pow_right (by norm_num) (hk.trans ?_)
      split_ifs <;> omega
    omega
  rw [removeNonNr_intText hsize (by omega),
    stod_of_strtod (strtod_digits hne hdigits) hbound, value_take_natText, Nat.cast_mul,
    Nat.cast_pow, Nat.cast_ofNat, mul_div_cancel_right₀ _ (by norm_num), cutInteger,
    Int.cast_natCast]

/-- An integer is written with digits and a minus. -/
theorem mem_intText {z : ℤ} {b : Byte} (h : b ∈ intText z) : isNr b = true ∨ b = minus := by
  unfold intText at h
  split_ifs at h
  · rcases List.mem_cons.1 h with rfl | h
    · exact .inr rfl
    · exact .inl (isNr_of_isDigit (isDigit_of_mem_natText h))
  · exact .inl (isNr_of_isDigit (isDigit_of_mem_natText h))

/-- A printed integer has digits and a sign. -/
theorem notMem_intText {b : Byte} (hb : isNr b = false) (hne : b ≠ minus) (z : ℤ) :
    b ∉ intText z := by
  intro h
  rcases mem_intText h with h | h
  · rw [hb] at h
    cases h
  · exact hne h

/-! ## Decimal numbers -/

/-- A number with decimals is written with digits, a point and a minus. -/
theorem mem_fixedText {k : ℕ} {x : ℚ} {b : Byte} (h : b ∈ fixedText k x) :
    isNr b = true ∨ b = minus := by
  have habs : b ∈ natText (fixedUnits k x / 10 ^ k) ++
      dot :: fixed k (fixedUnits k x % 10 ^ k) → isNr b = true := by
    intro h
    rcases List.mem_append.1 h with h | h
    · exact isNr_of_isDigit (isDigit_of_mem_natText h)
    · rcases List.mem_cons.1 h with rfl | h
      · rfl
      · exact isNr_of_isDigit (isDigit_of_mem_fixed h)
  unfold fixedText at h
  dsimp only at h
  split_ifs at h
  · rcases List.mem_cons.1 h with rfl | h
    · exact .inr rfl
    · exact .inl (habs h)
  · exact .inl (habs h)

/-- `to_string` prints six decimals. -/
theorem doubleText_eq_fixedText (x : ℚ) : doubleText x = fixedText 6 x := rfl

/-- A printed double has digits, a dot and a sign. -/
theorem notMem_doubleText {b : Byte} (hb : isNr b = false) (hne : b ≠ minus) (x : ℚ) :
    b ∉ doubleText x := by
  intro h
  rw [doubleText_eq_fixedText] at h
  rcases mem_fixedText h with h | h
  · rw [hb] at h
    cases h
  · exact hne h

/-- What `size` characters keep of `m` millionths: the decimals that do not fit are cut
first, then the last digits before the point. -/
def cutMicros (size m : ℕ) : ℕ :=
  m / 10 ^ (6 - (size - 1 - width (m / 10 ^ 6))) / 10 ^ (width (m / 10 ^ 6) - size) *
    10 ^ (6 - (size - 1 - width (m / 10 ^ 6)))

/-- The number that comes back for `x` from a prompt of the given size. -/
def cutDecimal (size : ℕ) (x : ℚ) : ℚ :=
  (cutMicros (if x < 0 then size - 1 else size) (micros x) : ℚ) / 10 ^ 6

/-- The numbers that come back unchanged: their sign, integer digits, point and decimals
fit. -/
def FitsDecimal (size : ℕ) (x : ℚ) : Prop :=
  0 ≤ x ∧ x < 10 ^ size ∧ ∃ n : ℕ, x * 10 ^ (size - 1 - width ⌊x⌋₊) = n

/-- A whole number below the limit fits. -/
theorem fitsDecimal_natCast {size n : ℕ} (h : n < 10 ^ size) : FitsDecimal size n := by
  refine ⟨by positivity, by exact_mod_cast h, n * 10 ^ (size - 1 - width ⌊(n : ℚ)⌋₊), ?_⟩
  push_cast
  rfl

/-- The text of a number of millionths. -/
def microsText (m : ℕ) : Str := natText (m / 10 ^ 6) ++ dot :: fixed 6 (m % 10 ^ 6)

/-- A number that was cut is below its limit. -/
theorem cutMicros_lt (size m : ℕ) : cutMicros size m < 10 ^ (size + 6) := by
  have hm : m < 10 ^ width (m / 10 ^ 6) * 10 ^ 6 := by
    have := lt_pow_width (m / 10 ^ 6)
    omega
  unfold cutMicros
  rcases Nat.le_total size (width (m / 10 ^ 6)) with h | h
  · have hzero : size - 1 - width (m / 10 ^ 6) = 0 := by omega
    have hpow : 10 ^ width (m / 10 ^ 6) = 10 ^ (width (m / 10 ^ 6) - size) * 10 ^ size := by
      rw [← pow_add, Nat.sub_add_cancel h]
    have hlt : m / 10 ^ 6 / 10 ^ (width (m / 10 ^ 6) - size) < 10 ^ size := by
      apply Nat.div_lt_of_lt_mul
      rw [← hpow]
      exact lt_pow_width _
    rw [hzero, pow_add]
    exact Nat.mul_lt_mul_of_pos_right hlt (by norm_num)
  · rw [Nat.sub_eq_zero_of_le h, pow_zero, Nat.div_one]
    refine lt_of_le_of_lt (Nat.div_mul_le_self _ _) (hm.trans_le ?_)
    rw [← pow_add]
    exact Nat.pow_le_pow_right (by norm_num) (by omega)

/-- **Parsing a decimal text cut short.** -/
theorem strtod_microsText {size : ℕ} (hpos : 0 < size) (hsize : size ≤ 8) (m : ℕ) :
    strtod ((microsText m).take size) = some ((cutMicros size m : ℚ) / 10 ^ 6) := by
  have hdigits : ∀ b ∈ natText (m / 10 ^ 6), isDigit b = true :=
    fun b hb => isDigit_of_mem_natText hb
  rcases Nat.lt_or_ge (width (m / 10 ^ 6)) size with h | h
  · -- the point is among the characters kept
    obtain ⟨k, hk⟩ := Nat.exists_eq_add_of_lt h
    have hk6 : k ≤ 6 := by
      have := width_pos (m / 10 ^ 6)
      omega
    have htake : (microsText m).take size =
        natText (m / 10 ^ 6) ++ dot :: (fixed 6 (m % 10 ^ 6)).take k := by
      have hsub : size - (natText (m / 10 ^ 6)).length = k + 1 := by
        rw [natText_length]
        omega
      rw [microsText, List.take_append, hsub, List.take_succ_cons, List.take_of_length_le]
      rw [natText_length]
      exact h.le
    have hlen : ((fixed 6 (m % 10 ^ 6)).take k).length = k := by
      rw [List.length_take, fixed_length]
      omega
    have hpow : 10 ^ 6 = 10 ^ (6 - k) * 10 ^ k := by rw [← pow_add, Nat.sub_add_cancel hk6]
    have hfrac : m % 10 ^ 6 / 10 ^ (6 - k) < 10 ^ k := by
      apply Nat.div_lt_of_lt_mul
      rw [← hpow]
      exact Nat.mod_lt m (by norm_num)
    have hval : value (natText (m / 10 ^ 6)) * 10 ^ k +
        value ((fixed 6 (m % 10 ^ 6)).take k) = m / 10 ^ (6 - k) := by
      rw [value_natText, value_take_fixed hk6, Nat.mod_eq_of_lt hfrac]
      have hsplit : m = 10 ^ (6 - k) * (m / 10 ^ 6 * 10 ^ k) + m % 10 ^ 6 := by
        calc m = 10 ^ 6 * (m / 10 ^ 6) + m % 10 ^ 6 := (Nat.div_add_mod m (10 ^ 6)).symm
          _ = 10 ^ (6 - k) * (m / 10 ^ 6 * 10 ^ k) + m % 10 ^ 6 := by
            rw [hpow]
            ring
      conv_rhs => rw [hsplit]
      rw [Nat.mul_add_div (by positivity)]
    have hexp : size - 1 - width (m / 10 ^ 6) = k := by omega
    rw [htake, strtod_point (natText_ne_nil _) hdigits _ (by omega), hlen, hval, cutMicros, hexp,
      Nat.sub_eq_zero_of_le h.le, pow_zero, Nat.div_one]
    intro b hb
    exact isDigit_of_mem_fixed (List.mem_of_mem_take hb)
  · -- digits only
    have htake : (microsText m).take size = (natText (m / 10 ^ 6)).take size := by
      rw [microsText, List.take_append_of_le_length]
      rwa [natText_length]
    obtain ⟨hne, hall, -⟩ := @take_natText_digits size (m / 10 ^ 6) hpos
    have hexp : size - 1 - width (m / 10 ^ 6) = 0 := by omega
    rw [htake, strtod_digits hne hall, value_take_natText, cutMicros, hexp]

/-- A double is printed as its sign and its digits. -/
theorem doubleText_eq (x : ℚ) :
    doubleText x =
      if decide (x < 0) then minus :: microsText (micros x) else microsText (micros x) := by
  unfold doubleText microsText
  by_cases h : x < 0 <;> simp [h]

/-- **A price or a quantity comes back** cut. -/
theorem stod_doubleText {size : ℕ} (hsize : 2 ≤ size) (hlen : size ≤ 8) (x : ℚ) :
    stod (removeNonNr ((doubleText x).take size)) = .ok (cutDecimal size x) := by
  have hnr : ∀ b ∈ microsText (micros x), isNr b = true := by
    intro b hb
    rcases List.mem_append.1 hb with hb | hb
    · exact isNr_of_isDigit (isDigit_of_mem_natText hb)
    · rcases List.mem_cons.1 hb with rfl | hb
      · decide
      · exact isNr_of_isDigit (isDigit_of_mem_fixed hb)
  have hne : microsText (micros x) ≠ [] := by simp [microsText]
  have hpos : 0 < if x < 0 then size - 1 else size := by split_ifs <;> omega
  have hle : (if x < 0 then size - 1 else size) ≤ 8 := by split_ifs <;> omega
  have hlt : cutMicros (if x < 0 then size - 1 else size) (micros x) < 10 ^ 24 :=
    (cutMicros_lt _ _).trans_le (Nat.pow_le_pow_right (by norm_num) (by omega))
  rw [doubleText_eq, removeNonNr_signed hsize (by omega) hne hnr]
  simp only [decide_eq_true_eq]
  exact stod_of_strtod (strtod_microsText hpos hle _) hlt

/-- A whole number is rounded to itself. -/
theorem roundHalfEven_natCast (n : ℕ) : roundHalfEven n = n := by
  simp [roundHalfEven]

/-- Six decimals print exactly. -/
theorem micros_div (n : ℕ) : micros ((n : ℚ) / 10 ^ 6) = n := by
  have hnonneg : (0 : ℚ) ≤ (n : ℚ) / 10 ^ 6 := by positivity
  rw [micros, abs_of_nonneg hnonneg, div_mul_cancel₀ _ (by norm_num), roundHalfEven_natCast]
  rfl

/-- Six decimals are kept as they are. -/
theorem sixDecimals_div (n : ℕ) : sixDecimals ((n : ℚ) / 10 ^ 6) = (n : ℚ) / 10 ^ 6 := by
  have hnonneg : (0 : ℚ) ≤ (n : ℚ) / 10 ^ 6 := by positivity
  rw [sixDecimals, if_neg (not_lt.2 hnonneg), micros_div]

/-- A number of `k` decimals is printed as it is. -/
theorem fixedValue_exact {k : ℕ} {x : ℚ} {n : ℤ} (h : x = n / 10 ^ k) : fixedValue k x = x := by
  have hpow : (0 : ℚ) < 10 ^ k := by positivity
  have habs : |x| = (n.natAbs : ℚ) / 10 ^ k := by
    rw [h, abs_div, abs_of_pos hpow, Nat.cast_natAbs, Int.cast_abs]
  have hunits : fixedUnits k x = n.natAbs := by
    rw [fixedUnits, habs, div_mul_cancel₀ _ hpow.ne', roundHalfEven_natCast]
    rfl
  unfold fixedValue
  rw [hunits, ← habs]
  split_ifs with hx
  · rw [abs_of_neg hx, neg_neg]
  · rw [abs_of_nonneg (not_lt.1 hx)]

/-- So are those of a number that has no more. -/
theorem sixDecimals_exact {x : ℚ} {n : ℤ} (h : x = n / 10 ^ 6) : sixDecimals x = x :=
  fixedValue_exact h

/-- What comes back is stored as it is. -/
theorem sixDecimals_cutDecimal (size : ℕ) (x : ℚ) :
    sixDecimals (cutDecimal size x) = cutDecimal size x := sixDecimals_div _

/-- The whole part of so many millionths. -/
theorem floor_div_micros (m : ℕ) : ⌊(m : ℚ) / 10 ^ 6⌋₊ = m / 10 ^ 6 := by
  have h := Nat.floor_div_eq_div (K := ℚ) m (10 ^ 6)
  exact_mod_cast h

/-- The millionths that nothing is cut from. -/
theorem cutMicros_eq_iff {size : ℕ} (hpos : 0 < size) (hsize : size ≤ 8) (m : ℕ) :
    cutMicros size m = m ↔
      m / 10 ^ 6 < 10 ^ size ∧ 10 ^ (6 - (size - 1 - width (m / 10 ^ 6))) ∣ m := by
  rw [← width_le_iff hpos]
  unfold cutMicros
  constructor
  · intro h
    have hdvd : 10 ^ (6 - (size - 1 - width (m / 10 ^ 6))) ∣ m :=
      ⟨_, (mul_comm _ _).trans h |>.symm⟩
    refine ⟨?_, hdvd⟩
    by_contra hlt
    have hexp : size - 1 - width (m / 10 ^ 6) = 0 := by omega
    rw [hexp] at h hdvd
    have hint : m / 10 ^ 6 / 10 ^ (width (m / 10 ^ 6) - size) = m / 10 ^ 6 := by
      have hcancel : m / 10 ^ 6 * 10 ^ 6 = m := Nat.div_mul_cancel hdvd
      exact Nat.eq_of_mul_eq_mul_right (by norm_num) (h.trans hcancel.symm)
    have hint_pos : 0 < m / 10 ^ 6 := by
      rcases Nat.eq_zero_or_pos (m / 10 ^ 6) with h0 | h0
      · rw [h0] at hlt
        have : width 0 = 1 := rfl
        omega
      · exact h0
    have hone : 1 < 10 ^ (width (m / 10 ^ 6) - size) := Nat.one_lt_pow (by omega) (by norm_num)
    exact absurd hint (Nat.div_lt_self hint_pos hone).ne
  · rintro ⟨hle, hdvd⟩
    rw [Nat.sub_eq_zero_of_le hle, pow_zero, Nat.div_one, Nat.div_mul_cancel hdvd]

/-- **What comes back unchanged.** -/
theorem cutDecimal_eq_iff {size : ℕ} (hpos : 0 < size) (hsize : size ≤ 8) (x : ℚ) :
    cutDecimal size x = x ↔ FitsDecimal size x := by
  unfold cutDecimal FitsDecimal
  by_cases hx : x < 0
  · have hnonneg : ∀ n : ℕ, ((n : ℚ) / 10 ^ 6) ≠ x := by
      intro n hn
      have : (0 : ℚ) ≤ (n : ℚ) / 10 ^ 6 := by positivity
      linarith
    exact iff_of_false (hnonneg _) fun h => absurd hx (not_lt.2 h.1)
  rw [if_neg hx]
  -- both sides make `x` a number of millionths
  have hmicros : ∀ m : ℕ, x = (m : ℚ) / 10 ^ 6 →
      ((cutMicros size (micros x) : ℚ) / 10 ^ 6 = x ↔
        0 ≤ x ∧ x < 10 ^ size ∧ ∃ n : ℕ, x * 10 ^ (size - 1 - width ⌊x⌋₊) = n) := by
    rintro m rfl
    have hk : size - 1 - width (m / 10 ^ 6) ≤ 6 := by
      have := width_pos (m / 10 ^ 6)
      omega
    have hpow : (10 : ℚ) ^ 6 = 10 ^ (6 - (size - 1 - width (m / 10 ^ 6))) *
        10 ^ (size - 1 - width (m / 10 ^ 6)) := by
      rw [← pow_add, Nat.sub_add_cancel hk]
    have hcut : (cutMicros size m : ℚ) / 10 ^ 6 = (m : ℚ) / 10 ^ 6 ↔ cutMicros size m = m := by
      rw [div_left_inj' (by norm_num)]
      exact Nat.cast_inj
    have hlt : (m : ℚ) / 10 ^ 6 < 10 ^ size ↔ m / 10 ^ 6 < 10 ^ size := by
      rw [div_lt_iff₀ (by norm_num), Nat.div_lt_iff_lt_mul (by norm_num)]
      exact_mod_cast Iff.rfl
    have hdvd : (∃ n : ℕ, (m : ℚ) / 10 ^ 6 * 10 ^ (size - 1 - width (m / 10 ^ 6)) = n) ↔
        10 ^ (6 - (size - 1 - width (m / 10 ^ 6))) ∣ m := by
      constructor
      · rintro ⟨n, hn⟩
        rw [hpow] at hn
        field_simp at hn
        exact ⟨n, by exact_mod_cast hn⟩
      · rintro ⟨n, hn⟩
        refine ⟨n, ?_⟩
        rw [hpow]
        field_simp
        exact_mod_cast hn
    have hnonneg : (0 : ℚ) ≤ (m : ℚ) / 10 ^ 6 := by positivity
    rw [micros_div, floor_div_micros, hcut, cutMicros_eq_iff hpos hsize, hlt, hdvd]
    simp only [hnonneg, true_and]
  constructor
  · intro h
    exact (hmicros _ h.symm).1 h
  · rintro ⟨h0, hlt, n, hn⟩
    have hk : size - 1 - width ⌊x⌋₊ ≤ 6 := by
      have := width_pos ⌊x⌋₊
      omega
    refine (hmicros (n * 10 ^ (6 - (size - 1 - width ⌊x⌋₊))) ?_).2 ⟨h0, hlt, n, hn⟩
    have hpow : (10 : ℚ) ^ 6 = 10 ^ (size - 1 - width ⌊x⌋₊) *
        10 ^ (6 - (size - 1 - width ⌊x⌋₊)) := by
      rw [← pow_add, Nat.add_sub_cancel' hk]
    rw [hpow, Nat.cast_mul, Nat.cast_pow, Nat.cast_ofNat,
      mul_div_mul_right _ _ (pow_ne_zero _ (by norm_num)), ← hn,
      mul_div_cancel_right₀ _ (pow_ne_zero _ (by norm_num))]

/-! ## Bytes a text does not hold -/

/-- The text holds none of these bytes. -/
def Avoids (bytes : List Byte) (s : Str) : Prop := ∀ b ∈ bytes, b ∉ s

/-- A text can be searched for the bytes. -/
instance (bytes : List Byte) (s : Str) : Decidable (Avoids bytes s) :=
  List.decidableBAll (fun b => b ∉ s) bytes

/-- The bytes that numbers are written with. -/
def inNumeral (b : Byte) : Bool := isNr b || b == minus

section

variable {bytes : List Byte} {s s' : Str}

/-- Two texts avoid what each avoids. -/
theorem Avoids.append (h : Avoids bytes s) (h' : Avoids bytes s') : Avoids bytes (s ++ s') := by
  intro b hb
  rw [List.mem_append, not_or]
  exact ⟨h b hb, h' b hb⟩

/-- A text avoids what its first byte and the rest do. -/
theorem Avoids.cons {b : Byte} (hb : b ∉ bytes) (h : Avoids bytes s) : Avoids bytes (b :: s) := by
  intro c hc
  rw [List.mem_cons, not_or]
  refine ⟨?_, h c hc⟩
  rintro rfl
  exact hb hc

/-- A list of texts avoids what each of them does. -/
theorem avoids_flatten {texts : List Str} :
    Avoids bytes texts.flatten ↔ ∀ s ∈ texts, Avoids bytes s := by
  simp only [Avoids, List.mem_flatten, not_exists, not_and]
  exact ⟨fun h s hs b hb => h b hb s hs, fun h b hb s hs => h s hs b hb⟩

/-- Numbers hold only digits, points and a minus. -/
theorem avoids_of_inNumeral (h : bytes.any inNumeral = false)
    (hs : ∀ b ∈ s, isNr b = true ∨ b = minus) : Avoids bytes s := by
  intro b hb hmem
  have hno := List.any_eq_false.1 h b hb
  rcases hs b hmem with hnr | rfl
  · exact hno (by simp [inNumeral, hnr])
  · exact hno (by simp [inNumeral])

/-- A printed integer avoids what is no part of a numeral. -/
theorem avoids_intText (h : bytes.any inNumeral = false) (z : ℤ) : Avoids bytes (intText z) :=
  avoids_of_inNumeral h fun _ => mem_intText

/-- So does a printed number with decimals. -/
theorem avoids_fixedText (h : bytes.any inNumeral = false) (k : ℕ) (x : ℚ) :
    Avoids bytes (fixedText k x) :=
  avoids_of_inNumeral h fun _ => mem_fixedText

end

end CliPos
