import CliPos.Analysis.Readback
import CliPos.Analysis.Prompts

/-!
# The texts that convert to a number

Every text goes through `remove_non_nr` before it is converted.  What is left are digits
and dots, or "0": `stol` and `stoi` accept it when it does not start with a dot and its
first digits are in range (`IntegerText`), `stod` and `stof` when no dot at its start
lacks a digit behind it and the number is in range (`FloatText`).
-/

set_option autoImplicit false

namespace CliPos

open Decimal Halting

/-- The halts caused by a text typed: a value that is not there, or a text that a
conversion rejects. -/
def Halt.OfInput : Halt → Prop
  | .thrown .badOptionalAccess => True
  | .thrown .invalidArgument => True
  | .thrown .outOfRange => True
  | _ => False

/-! ## Integers -/

/-- The texts that `stol` and `stoi` accept, filtered. -/
def IntegerText (largest : ℕ) (text : Str) : Prop :=
  (keptChars text).head? ≠ some dot ∧ value (leadingDigits (keptChars text)) ≤ largest

/-- What is kept starts with a digit or a dot. -/
theorem head_keptChars {text s : Str} {b : Byte} (h : keptChars text = b :: s) :
    isDigit b = true ∨ b = dot := by
  have hmem : b ∈ keptChars text := by
    rw [h]
    exact List.mem_cons_self
  have hnr : isNr b = true := (List.mem_filter.1 hmem).2
  simpa [isNr] using hnr

/-- A digit in front is a leading digit. -/
theorem leadingDigits_cons {b : Byte} (hb : isDigit b = true) (s : Str) :
    leadingDigits (b :: s) = b :: leadingDigits s := by
  simp [leadingDigits, hb]

/-- Before a dot there are none. -/
theorem leadingDigits_cons_dot (s : Str) : leadingDigits (dot :: s) = [] := by
  simp [leadingDigits]

/-- **`stol` and `stoi`** of a filtered text. -/
theorem parseInteger_cases (largest : ℕ) (text : Str) :
    (IntegerText largest text ∧ ∃ n, parseInteger largest (removeNonNr text) = .ok n) ∨
    (¬IntegerText largest text ∧ ∃ d, parseInteger largest (removeNonNr text) = .error d ∧
      (Halt.thrown d).OfInput) := by
  unfold IntegerText
  rw [removeNonNr_eq]
  cases hkept : keptChars text with
  | nil =>
    have hzero : leadingDigits [48] = [48] := by decide
    have hvalue : value [48] = 0 := by decide
    left
    refine ⟨by simp [leadingDigits], 0, ?_⟩
    simp [parseInteger, hzero, hvalue]
  | cons b s =>
    rw [if_neg (by simp)]
    rcases head_keptChars hkept with hb | rfl
    · have hne : b ≠ dot := by
        rintro rfl
        simp at hb
      rw [parseInteger, if_neg (by simp [leadingDigits_cons hb])]
      by_cases hle : value (leadingDigits (b :: s)) ≤ largest
      · left
        exact ⟨⟨by simpa using hne, hle⟩, _, if_pos hle⟩
      · right
        exact ⟨fun h => hle h.2, _, if_neg hle, trivial⟩
    · right
      refine ⟨fun h => h.1 rfl, .invalidArgument, ?_, trivial⟩
      rw [parseInteger, if_pos (leadingDigits_cons_dot s)]

/-- The integer conversions accept the integer texts. -/
theorem parseInteger_accepts_iff (largest : ℕ) (text : Str) :
    (∃ n, parseInteger largest (removeNonNr text) = .ok n) ↔ IntegerText largest text := by
  obtain ⟨hyes, hn⟩ | ⟨hno, d, hd, -⟩ := parseInteger_cases largest text
  · exact iff_of_true hn hyes
  · refine iff_of_false ?_ hno
    rintro ⟨n, hn⟩
    rw [hd] at hn
    cases hn

/-- They reject all others. -/
theorem parseInteger_rejects_iff (largest : ℕ) (text : Str) :
    (∃ d, parseInteger largest (removeNonNr text) = .error d ∧ (Halt.thrown d).OfInput) ↔
      ¬IntegerText largest text := by
  obtain ⟨hyes, n, hn⟩ | ⟨hno, hd⟩ := parseInteger_cases largest text
  · refine iff_of_false ?_ (not_not.2 hyes)
    rintro ⟨d, hd, -⟩
    rw [hn] at hd
    cases hd
  · exact iff_of_true hd hno

/-! ## Decimal numbers -/

/-- A dot at the start has a digit behind it. -/
def PointFollowed (s : Str) : Prop := ∀ rest, s = dot :: rest → ∃ b ∈ rest.head?, isDigit b = true

/-- The number that digits, a point and digits denote. -/
def decimalValue (s : Str) : ℚ :=
  value (leadingDigits s) + value (fractionDigits s) / 10 ^ (fractionDigits s).length

/-- The texts that `stod` and `stof` accept, filtered. -/
def FloatText (f : FloatFormat) (text : Str) : Prop :=
  PointFollowed (keptChars text) ∧
    ¬(f.Overflows (decimalValue (keptChars text)) ∨ f.Underflows (decimalValue (keptChars text)))

/-- `strtod` reads nothing where there is no digit before or behind the dot. -/
theorem strtod_eq_none_iff (s : Str) :
    strtod s = none ↔ leadingDigits s = [] ∧ fractionDigits s = [] := by
  unfold strtod
  split_ifs with h
  · exact iff_of_true rfl h
  · exact iff_of_false (by simp) h

/-- The text left by the filter is read to its value, or not at all. -/
theorem strtod_keptChars (text : Str) :
    (PointFollowed (keptChars text) ∧
      strtod (removeNonNr text) = some (decimalValue (keptChars text))) ∨
    (¬PointFollowed (keptChars text) ∧ strtod (removeNonNr text) = none) := by
  rw [removeNonNr_eq]
  cases hkept : keptChars text with
  | nil =>
    have hzero : leadingDigits [48] = [48] := by decide
    have hvalue : value [48] = 0 := by decide
    have hfrac : fractionDigits [48] = [] := by decide
    have hdigits : leadingDigits [] = [] := rfl
    have hpoint : fractionDigits [] = [] := rfl
    left
    refine ⟨by rintro rest ⟨⟩, ?_⟩
    simp [strtod, decimalValue, hzero, hvalue, hfrac, hdigits, hpoint]
  | cons b s =>
    rw [if_neg (by simp)]
    have hsome : ¬(leadingDigits (b :: s) = [] ∧ fractionDigits (b :: s) = []) →
        strtod (b :: s) = some (decimalValue (b :: s)) := fun h => if_neg h
    rcases head_keptChars hkept with hb | rfl
    · left
      refine ⟨?_, hsome (by simp [leadingDigits_cons hb])⟩
      rintro rest ⟨⟩
      simp at hb
    · have hfrac : fractionDigits (dot :: s) = leadingDigits s := by
        simp [fractionDigits]
      cases s with
      | nil =>
        right
        refine ⟨fun h => ?_, by decide⟩
        obtain ⟨b, hb, -⟩ := h [] rfl
        cases hb
      | cons c s =>
        by_cases hc : isDigit c = true
        · left
          refine ⟨?_, hsome (by simp [hfrac, leadingDigits_cons hc])⟩
          rintro rest ⟨⟩
          exact ⟨c, rfl, hc⟩
        · right
          constructor
          · intro h
            obtain ⟨_, ⟨⟩, hd⟩ := h (c :: s) rfl
            exact hc hd
          · rw [strtod_eq_none_iff, hfrac]
            exact ⟨leadingDigits_cons_dot _, by simp [leadingDigits, hc]⟩

/-- **`stod` and `stof`** of a filtered text. -/
theorem parseFloat_cases (f : FloatFormat) (text : Str) :
    (FloatText f text ∧ ∃ x, parseFloat f (removeNonNr text) = .ok x) ∨
    (¬FloatText f text ∧ ∃ d, parseFloat f (removeNonNr text) = .error d ∧
      (Halt.thrown d).OfInput) := by
  unfold FloatText parseFloat
  rcases strtod_keptChars text with ⟨hpoint, hread⟩ | ⟨hpoint, hread⟩
  · rw [hread]
    by_cases hrange : f.Overflows (decimalValue (keptChars text)) ∨
        f.Underflows (decimalValue (keptChars text))
    · right
      exact ⟨fun h => h.2 hrange, .outOfRange, if_pos hrange, trivial⟩
    · left
      exact ⟨⟨hpoint, hrange⟩, _, if_neg hrange⟩
  · right
    rw [hread]
    exact ⟨fun h => hpoint h.1, .invalidArgument, rfl, trivial⟩

/-- The conversions to a float accept the float texts. -/
theorem parseFloat_accepts_iff (f : FloatFormat) (text : Str) :
    (∃ x, parseFloat f (removeNonNr text) = .ok x) ↔ FloatText f text := by
  obtain ⟨hyes, hx⟩ | ⟨hno, d, hd, -⟩ := parseFloat_cases f text
  · exact iff_of_true hx hyes
  · refine iff_of_false ?_ hno
    rintro ⟨x, hx⟩
    rw [hd] at hx
    cases hx

/-- They reject all others. -/
theorem parseFloat_rejects_iff (f : FloatFormat) (text : Str) :
    (∃ d, parseFloat f (removeNonNr text) = .error d ∧ (Halt.thrown d).OfInput) ↔
      ¬FloatText f text := by
  obtain ⟨hyes, x, hx⟩ | ⟨hno, hd⟩ := parseFloat_cases f text
  · refine iff_of_false ?_ (not_not.2 hyes)
    rintro ⟨d, hd, -⟩
    rw [hx] at hd
    cases hd
  · exact iff_of_true hd hno

/-- What `stod` and `stof` read from a filtered text. -/
theorem parseFloat_eq_ok {f : FloatFormat} {text : Str} {x : ℚ}
    (h : parseFloat f (removeNonNr text) = .ok x) : x = decimalValue (keptChars text) := by
  unfold parseFloat at h
  rcases strtod_keptChars text with ⟨-, hread⟩ | ⟨-, hread⟩
  · rw [hread] at h
    simp only at h
    split_ifs at h
    exact (Except.ok.inj h).symm
  · rw [hread] at h
    cases h

/-! ## Short texts -/

/-- Dropping characters makes no text longer. -/
theorem length_keptChars_le (text : Str) : (keptChars text).length ≤ text.length := by
  have htake : (text.take 32768).length ≤ text.length := by simp
  exact (List.length_filter_le _ _).trans htake

/-- The leading digits are digits. -/
theorem isDigit_of_mem_leadingDigits {s : Str} {b : Byte} (h : b ∈ leadingDigits s) :
    isDigit b = true := List.mem_takeWhile_imp h

/-- There are no more of them than characters. -/
theorem leadingDigits_length_le (s : Str) : (leadingDigits s).length ≤ s.length :=
  (List.takeWhile_sublist _).length_le

/-- Nor are there more fraction digits. -/
theorem fractionDigits_length_le (s : Str) : (fractionDigits s).length ≤ s.length := by
  have hdrop : (s.dropWhile isDigit).length ≤ s.length := (List.dropWhile_sublist _).length_le
  unfold fractionDigits
  cases h : s.dropWhile isDigit with
  | nil => simp
  | cons b rest =>
    rw [h, List.length_cons] at hdrop
    simp only
    split_ifs
    · have := leadingDigits_length_le rest
      omega
    · simp

/-- The fraction digits are digits. -/
theorem isDigit_of_mem_fractionDigits {s : Str} {b : Byte} (h : b ∈ fractionDigits s) :
    isDigit b = true := by
  unfold fractionDigits at h
  split at h
  · simp at h
  · split_ifs at h
    · exact isDigit_of_mem_leadingDigits h
    · simp at h

/-- **A numeral is below the power of ten** of its digits before the point. -/
theorem decimalValue_lt (s : Str) : decimalValue s < 10 ^ (leadingDigits s).length := by
  have hint : value (leadingDigits s) < 10 ^ (leadingDigits s).length :=
    value_lt fun _ => isDigit_of_mem_leadingDigits
  have hfrac : value (fractionDigits s) < 10 ^ (fractionDigits s).length :=
    value_lt fun _ => isDigit_of_mem_fractionDigits
  have hone : (value (fractionDigits s) : ℚ) / 10 ^ (fractionDigits s).length < 1 := by
    rw [div_lt_one (by positivity)]
    exact_mod_cast hfrac
  have hcast : (value (leadingDigits s) : ℚ) + 1 ≤ 10 ^ (leadingDigits s).length := by
    exact_mod_cast hint
  unfold decimalValue
  linarith

/-- A text without a sign is not negative. -/
theorem decimalValue_nonneg (s : Str) : 0 ≤ decimalValue s := by
  unfold decimalValue
  positivity

/-- **Fourteen characters** are in the range of a `long int`. -/
theorem integerText_of_short {text : Str} (h : text.length ≤ 14) :
    IntegerText (2 ^ 63 - 1) text ↔ (keptChars text).head? ≠ some dot := by
  refine and_iff_left ?_
  have hlen : (leadingDigits (keptChars text)).length ≤ 14 :=
    (leadingDigits_length_le _).trans ((length_keptChars_le text).trans h)
  have hlt : value (leadingDigits (keptChars text)) < 10 ^ 14 :=
    (value_lt fun _ => isDigit_of_mem_leadingDigits).trans_le
      (Nat.pow_le_pow_right (by norm_num) hlen)
  omega

/-- **Fourteen characters** are in the range of a `double`. -/
theorem floatText_of_short {text : Str} (h : text.length ≤ 14) :
    FloatText binary64 text ↔ PointFollowed (keptChars text) := by
  refine and_iff_left ?_
  have hkept : (keptChars text).length ≤ 14 := (length_keptChars_le text).trans h
  have hk : (fractionDigits (keptChars text)).length ≤ 14 :=
    (fractionDigits_length_le _).trans hkept
  have hsum : decimalValue (keptChars text) =
      ((value (leadingDigits (keptChars text)) * 10 ^ (fractionDigits (keptChars text)).length +
        value (fractionDigits (keptChars text)) : ℕ) : ℚ) /
        10 ^ (fractionDigits (keptChars text)).length := by
    unfold decimalValue
    push_cast
    field_simp
  have hpow : (10 : ℚ) ^ (leadingDigits (keptChars text)).length ≤ 10 ^ 14 :=
    pow_le_pow_right₀ (by norm_num) ((leadingDigits_length_le _).trans hkept)
  have hlarge : decimalValue (keptChars text) < 2 ^ 60 :=
    calc decimalValue (keptChars text) < 10 ^ (leadingDigits (keptChars text)).length :=
          decimalValue_lt _
      _ ≤ 10 ^ 14 := hpow
      _ ≤ 2 ^ 60 := by norm_num
  rw [hsum] at hlarge ⊢
  exact decimals_inRange hk hlarge

end CliPos
