import CliPos.Analysis.ReceiptTotal
import CliPos.Analysis.Readback
import CliPos.Lib.Rounding

/-!
# The cents of a receipt

A receipt shows every amount, every discount and the total with two decimals.  The total
is summed from unrounded numbers and rounded once, the others are rounded one by one, so
the numbers printed need not add up; they miss by at most half a cent for each number
printed (`receipt_adds_up`), and by nothing where the amounts are whole cents.
-/

set_option autoImplicit false

namespace CliPos

open Decimal Rounding

/-! ## Two decimals -/

/-- The integer nearest to `x` is at most a half away. -/
theorem roundHalfEven_error (x : ℚ) : |(roundHalfEven x : ℚ) - x| ≤ 1 / 2 := by
  have hle := Int.floor_le x
  have hlt := Int.lt_floor_add_one x
  unfold roundHalfEven
  rw [abs_le]
  split_ifs with hlow hhigh heven
  · constructor <;> linarith
  · push_cast
    constructor <;> linarith
  · constructor <;> linarith
  · push_cast
    constructor <;> linarith

/-- Rounding keeps the sign. -/
theorem roundHalfEven_nonneg {x : ℚ} (h : 0 ≤ x) : 0 ≤ roundHalfEven x := by
  have hfloor := Int.floor_nonneg.2 h
  unfold roundHalfEven
  split_ifs <;> omega

/-- Printing decimals is off by half a unit at most. -/
theorem fixedUnits_error (k : ℕ) (x : ℚ) : |(fixedUnits k x : ℚ) - |x| * 10 ^ k| ≤ 1 / 2 := by
  have hnonneg : 0 ≤ roundHalfEven (|x| * 10 ^ k) := roundHalfEven_nonneg (by positivity)
  have hcast : ((fixedUnits k x : ℕ) : ℚ) = (roundHalfEven (|x| * 10 ^ k) : ℚ) := by
    rw [fixedUnits, ← Int.cast_natCast, Int.toNat_of_nonneg hnonneg]
  rw [hcast]
  exact roundHalfEven_error _

/-- **A number printed with `k` decimals** is at most half a unit of the last one away. -/
theorem fixedValue_within (k : ℕ) : Within (1 / 2 / 10 ^ k) (fixedValue k) := by
  intro x
  have hpow : (0 : ℚ) < 10 ^ k := by positivity
  have hunits : |(fixedUnits k x : ℚ) / 10 ^ k - (|x|)| ≤ 1 / 2 / 10 ^ k := by
    have hdiv : (fixedUnits k x : ℚ) / 10 ^ k - |x| =
        ((fixedUnits k x : ℚ) - |x| * 10 ^ k) / 10 ^ k := by
      field_simp
    rw [hdiv, abs_div, abs_of_pos hpow]
    exact div_le_div_of_nonneg_right (fixedUnits_error k x) hpow.le
  unfold fixedValue
  split_ifs with hx
  · rw [abs_of_neg hx] at hunits
    have hflip : -((fixedUnits k x : ℚ) / 10 ^ k) - x = -((fixedUnits k x : ℚ) / 10 ^ k - -x) := by
      ring
    rw [hflip, abs_neg]
    exact hunits
  · rwa [abs_of_nonneg (not_lt.1 hx)] at hunits

/-- The text of a number denotes the number printed. -/
theorem strtod_fixedText {k : ℕ} {x : ℚ} (h : 0 ≤ x) :
    strtod (fixedText k x) = some (fixedValue k x) := by
  have hneg : ¬x < 0 := not_lt.2 h
  have hint : ∀ b ∈ natText (fixedUnits k x / 10 ^ k), isDigit b = true :=
    fun b hb => isDigit_of_mem_natText hb
  have hfrac : ∀ b ∈ fixed k (fixedUnits k x % 10 ^ k), isDigit b = true :=
    fun b hb => isDigit_of_mem_fixed hb
  have hpow : (10 : ℚ) ^ k ≠ 0 := by positivity
  simp only [fixedText, if_neg hneg, fixedValue]
  rw [strtod, leadingDigits_append hint (by simp), fractionDigits_point hint hfrac,
    if_neg (by simp [natText_ne_nil]), value_natText, value_fixed, fixed_length, Nat.mod_mod]
  congr 1
  have hsplit : ((fixedUnits k x : ℕ) : ℚ) =
      10 ^ k * (fixedUnits k x / 10 ^ k : ℕ) + (fixedUnits k x % 10 ^ k : ℕ) := by
    exact_mod_cast (Nat.div_add_mod (fixedUnits k x) (10 ^ k)).symm
  rw [hsplit, add_div, mul_div_cancel_left₀ _ hpow]

/-! ## The numbers of a receipt -/

/-- The amounts of the discount lines. -/
def discounts (items : List ReceiptLine) : List ℚ := items.filterMap ReceiptLine.discountLine

/-- The printed amounts minus the printed discounts. -/
def printedBalance (items : List ReceiptLine) : ℚ :=
  ((items.map ReceiptLine.amount).map (fixedValue 2)).sum -
    ((discounts items).map (fixedValue 2)).sum

/-- The number of amounts and discounts printed. -/
def printedNumbers (items : List ReceiptLine) : ℕ := items.length + (discounts items).length

/-- The amounts and discounts of a receipt are whole cents. -/
def WholeCents (items : List ReceiptLine) : Prop :=
  ∀ x, x ∈ items.map ReceiptLine.amount ∨ x ∈ discounts items → ∃ n : ℤ, x = n / 10 ^ 2

/-- Where no discount line is printed there is no discount. -/
theorem discounts_sum (items : List ReceiptLine) :
    (discounts items).sum = (items.map ReceiptLine.printedDiscount).sum := by
  induction items with
  | nil => rfl
  | cons l items ih =>
    rw [discounts, List.filterMap_cons, List.map_cons, List.sum_cons,
      ReceiptLine.printedDiscount, ← ih]
    cases l.discountLine with
    | none => simp [discounts]
    | some x => simp [discounts]

/-- The balance is the sum of the amounts less that of the discounts. -/
theorem balance_eq (items : List ReceiptLine) :
    balance items = (items.map ReceiptLine.amount).sum - (discounts items).sum := by
  rw [discounts_sum, balance]

/-- A sum of whole cents. -/
theorem sum_wholeCents {xs : List ℚ} (h : ∀ x ∈ xs, ∃ n : ℤ, x = n / 10 ^ 2) :
    ∃ n : ℤ, xs.sum = n / 10 ^ 2 := by
  induction xs with
  | nil => exact ⟨0, by simp⟩
  | cons x xs ih =>
    obtain ⟨n, hn⟩ := h x List.mem_cons_self
    obtain ⟨m, hm⟩ := ih fun y hy => h y (List.mem_cons_of_mem x hy)
    refine ⟨n + m, ?_⟩
    rw [List.sum_cons, hm, hn]
    push_cast
    ring

/-- Two products at 0.33, each with a discount of a tenth. -/
def crisps : Table :=
  [{ bread with price := 0.33 }, { bread with price := 0.33, code := 2 }]

/-- The two lines show 0.33 less 0.03 each, 0.60 together; the total shows 0.59. -/
theorem receipt_misses_cent : ∃ items total,
    receiptLines [⟨1, 1⟩, ⟨2, 1⟩] crisps = .ok items ∧
      basketTotal [⟨1, 1⟩, ⟨2, 1⟩] crisps 0 = .ok total ∧
      (∀ r ∈ crisps, 0 ≤ r.price ∧ 0 ≤ r.discount ∧ r.discount ≤ 99) ∧
      fixedValue 2 total = 0.59 ∧ printedBalance items = 0.60 := by
  refine ⟨_, _, rfl, rfl, by decide +kernel, by decide +kernel, by decide +kernel⟩

/-- **The numbers of a receipt miss each other by at most half a cent each.**  The printed
total differs from the printed amounts minus the printed discounts by at most half a cent
for each amount and each discount printed and half a cent for the total; it is equal where
every amount and every discount is a number of whole cents. -/
theorem receipt_adds_up (basket : List BasketProduct) (t : Table) (items : List ReceiptLine)
    (total : ℚ) (hitems : receiptLines basket t = .ok items)
    (htotal : basketTotal basket t 0 = .ok total) :
    |fixedValue 2 total - printedBalance items| ≤ (printedNumbers items + 1) * (1 / 200) ∧
      (WholeCents items → fixedValue 2 total = printedBalance items) := by
  have hrows := basketTotal_isOk htotal
  obtain ⟨items', hitems', htotal'⟩ := basketTotal_eq_balance hrows 0
  obtain rfl := Except.ok.inj (hitems.symm.trans hitems')
  have hbalance : total = (items.map ReceiptLine.amount).sum - (discounts items).sum := by
    have h := Except.ok.inj (htotal.symm.trans htotal')
    rw [h, zero_add, balance_eq]
  constructor
  · have h := balance_error (fixedValue_within 2) (items.map ReceiptLine.amount) (discounts items)
    rw [← hbalance, nsmul_eq_mul, List.length_map] at h
    have hbound : ((printedNumbers items : ℚ) + 1) * (1 / 200) =
        ((items.length + (discounts items).length + 1 : ℕ) : ℚ) * (1 / 2 / 10 ^ 2) := by
      rw [printedNumbers]
      push_cast
      ring
    rw [hbound]
    exact h
  · intro hwhole
    obtain ⟨n, hn⟩ := sum_wholeCents fun x hx => hwhole x (.inl hx)
    obtain ⟨m, hm⟩ := sum_wholeCents fun x hx => hwhole x (.inr hx)
    have hexact : ∀ x, x ∈ items.map ReceiptLine.amount ∨ x ∈ discounts items →
        fixedValue 2 x = x := by
      intro x hx
      obtain ⟨i, hi⟩ := hwhole x hx
      exact fixedValue_exact hi
    have hsub : total = ((n - m : ℤ) : ℚ) / 10 ^ 2 := by
      rw [hbalance, hn, hm]
      push_cast
      ring
    rw [printedBalance, sum_map_exact fun x hx => hexact x (.inl hx),
      sum_map_exact fun x hx => hexact x (.inr hx), fixedValue_exact hsub, hbalance]

/-- Two loaves at 2.00 with a discount of a tenth: the receipt shows 4.00, 0.40 and 3.60. -/
theorem receipt_adds_up_bread : fixedValue 2 3.6 = printedBalance [⟨productOf bread, 2⟩] := by
  obtain ⟨-, hexact⟩ := receipt_adds_up [⟨1, 2⟩] [bread] [⟨productOf bread, 2⟩] 3.6 rfl
    (by decide +kernel)
  refine hexact fun x hx => ?_
  have hcases : x = 4 ∨ x = 2 / 5 := by
    have hnumbers : x = 2 * 2 ∨ x = 2 / 100 * 10 * 2 := by
      simpa [discounts, ReceiptLine.amount, ReceiptLine.discountLine, productOf, bread] using hx
    norm_num at hnumbers
    exact hnumbers
  rcases hcases with rfl | rfl
  · exact ⟨400, by norm_num⟩
  · exact ⟨40, by norm_num⟩

end CliPos
