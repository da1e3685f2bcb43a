import CliPos.Analysis.ReceiptLayout

/-!
# The widths of the rows

`draw_product_list` pads a number with two decimals by `nr_length`, which counts the digits
of its integer part and adds three.  The text printed is rounded: 9.999 is printed as
`10.00`; and it has a sign: a profit of half a unit below nothing is printed as `-0.50`, and
counted as `0.50`.  Numbers elsewhere have the length counted (`measuresText_iff`), and the
rows that print them are as wide as the table (`rows_aligned_iff`).
-/

set_option autoImplicit false

namespace CliPos

open Decimal

variable {x : ℚ} {m n k : ℕ}

/-! ## The length of a number with two decimals -/

/-- An even integer is reached from one half below it. -/
theorem le_roundHalfEven_iff {n : ℤ} (hn : n % 2 = 0) : n ≤ roundHalfEven x ↔ n - 1 / 2 ≤ x := by
  have hle : (⌊x⌋ : ℚ) ≤ x := Int.floor_le x
  have hlt : x < ⌊x⌋ + 1 := Int.lt_floor_add_one x
  unfold roundHalfEven
  split_ifs with hdown hup heven
  · constructor
    · intro h
      have : (n : ℚ) ≤ ⌊x⌋ := by exact_mod_cast h
      linarith
    · intro h
      have : (n : ℚ) < ⌊x⌋ + 1 := by linarith
      have : n < ⌊x⌋ + 1 := by exact_mod_cast this
      omega
  · constructor
    · intro h
      have : (n : ℚ) ≤ ⌊x⌋ + 1 := by exact_mod_cast h
      linarith
    · intro h
      have : (n : ℚ) < ⌊x⌋ + 1 + 1 := by linarith
      have : n < ⌊x⌋ + 1 + 1 := by exact_mod_cast this
      omega
  · have htie : x = ⌊x⌋ + 1 / 2 := by linarith
    constructor
    · intro h
      have : (n : ℚ) ≤ ⌊x⌋ := by exact_mod_cast h
      linarith
    · intro h
      have : (n : ℚ) ≤ ⌊x⌋ + 1 := by linarith
      have : n ≤ ⌊x⌋ + 1 := by exact_mod_cast this
      omega
  · have htie : x = ⌊x⌋ + 1 / 2 := by linarith
    constructor
    · intro h
      have : (n : ℚ) ≤ ⌊x⌋ + 1 := by exact_mod_cast h
      linarith
    · intro h
      have : (n : ℚ) ≤ ⌊x⌋ + 1 := by linarith
      exact_mod_cast this

/-- **Rounding to two decimals** reaches a power of ten from half a hundredth below it. -/
theorem fixedUnits_lt_iff (x : ℚ) (k : ℕ) :
    fixedUnits 2 x / 10 ^ 2 < 10 ^ k ↔ |x| < 10 ^ k - 1 / 200 := by
  have heven : ((10 : ℤ) ^ k * 10 ^ 2) % 2 = 0 := by
    rw [Int.mul_emod]
    norm_num
  have hround : (10 : ℤ) ^ k * 10 ^ 2 ≤ roundHalfEven (|x| * 10 ^ 2) ↔
      (10 : ℚ) ^ k * 10 ^ 2 - 1 / 2 ≤ |x| * 10 ^ 2 := by
    rw [le_roundHalfEven_iff heven]
    push_cast
    rfl
  have hunits : 10 ^ k * 10 ^ 2 ≤ fixedUnits 2 x ↔
      (10 : ℤ) ^ k * 10 ^ 2 ≤ roundHalfEven (|x| * 10 ^ 2) := by
    have hpos : (0 : ℤ) < 10 ^ k * 10 ^ 2 := by positivity
    unfold fixedUnits
    zify
    omega
  rw [Nat.div_lt_iff_lt_mul (by norm_num), ← not_le, hunits, hround, ← not_le]
  constructor <;> intro h hle <;> apply h <;> linarith

/-- A whole part has so many digits when the number does. -/
theorem floor_lt_iff (x : ℚ) (k : ℕ) : ⌊|x|⌋.toNat < 10 ^ k ↔ |x| < 10 ^ k := by
  have hnonneg : 0 ≤ ⌊|x|⌋ := Int.floor_nonneg.2 (abs_nonneg x)
  have hfloor := @Int.floor_lt ℚ _ _ _ (10 ^ k) |x|
  push_cast at hfloor
  rw [← hfloor]
  zify
  omega

/-- Two numbers have the same number of digits exactly when they are below the same powers
of ten. -/
theorem width_eq_iff : width m = width n ↔ ∀ k : ℕ, 0 < k → (m < 10 ^ k ↔ n < 10 ^ k) := by
  constructor
  · intro h k hk
    rw [← width_le_iff hk, ← width_le_iff hk, h]
  · intro h
    refine le_antisymm ?_ ?_
    · rw [width_le_iff (width_pos n), h _ (width_pos n)]
      exact lt_pow_width n
    · rw [width_le_iff (width_pos m), ← h _ (width_pos m)]
      exact lt_pow_width m

/-- The number is one that `long int` holds, cut to its integer part. -/
def ConvertsToLong (x : ℚ) : Prop := -2 ^ 63 ≤ truncate x ∧ truncate x < 2 ^ 63

/-- `nr_length` is the length of the number printed. -/
def MeasuresText (x : ℚ) : Prop :=
  ConvertsToLong x ∧ floatLength x = (fixedText 2 x).length

/-- **When a number is printed as long as it is counted**: it is not between -1 and 0, and
not within half a hundredth below 10, 100, 1000 and so on. -/
def PrintsAtLength (x : ℚ) : Prop :=
  (x < 0 → x ≤ -1) ∧ ∀ k : ℕ, 0 < k → |x| < 10 ^ k → |x| < 10 ^ k - 1 / 200

/-- Cutting towards zero leaves the whole part of the size. -/
theorem truncate_natAbs (x : ℚ) : (truncate x).natAbs = ⌊|x|⌋.toNat := by
  unfold truncate
  split_ifs with h
  · rw [abs_of_neg h, Int.floor_neg]
    have : ⌈x⌉ ≤ 0 := Int.ceil_le.2 (by exact_mod_cast h.le)
    omega
  · rw [abs_of_nonneg (not_lt.1 h)]
    have : 0 ≤ ⌊x⌋ := Int.floor_nonneg.2 (not_lt.1 h)
    omega

/-- It leaves something negative from -1 down. -/
theorem truncate_neg_iff (x : ℚ) : truncate x < 0 ↔ x ≤ -1 := by
  unfold truncate
  split_ifs with h
  · have hceil : ⌈x⌉ < 0 ↔ ⌈x⌉ ≤ -1 := by omega
    rw [hceil, Int.ceil_le]
    norm_num
  · have : 0 ≤ ⌊x⌋ := Int.floor_nonneg.2 (not_lt.1 h)
    constructor
    · intro hneg
      omega
    · intro hle
      linarith

/-- `nr_length` of a number: a sign from -1 down, the digits of its whole part, and three. -/
theorem floatLength_eq (h : ConvertsToLong x) :
    floatLength x = (if x ≤ -1 then 1 else 0) + width ⌊|x|⌋.toNat + 3 := by
  have hlong : toLong x = truncate x := by
    unfold ConvertsToLong at h
    unfold toLong
    rw [Int.bmod_def]
    omega
  have hneg := truncate_neg_iff x
  rw [floatLength, nrLength, if_pos rfl, hlong, intText, nrDecimalPoints, ← truncate_natAbs]
  by_cases hle : x ≤ -1
  · rw [if_pos (hneg.2 hle), if_pos hle, List.length_cons, natText_length]
    omega
  · rw [if_neg (mt hneg.1 hle), if_neg hle, natText_length]
    omega

/-- Its printed length: a sign below 0, the digits of the rounded number, and three. -/
theorem fixedText_length (x : ℚ) :
    (fixedText 2 x).length = (if x < 0 then 1 else 0) + width (fixedUnits 2 x / 10 ^ 2) + 3 := by
  unfold fixedText
  split_ifs
  · rw [List.length_cons, List.length_append, natText_length, List.length_cons, fixed_length]
    omega
  · rw [List.length_append, natText_length, List.length_cons, fixed_length]
    omega

/-- Rounding does not take digits away. -/
theorem width_floor_le (x : ℚ) : width ⌊|x|⌋.toNat ≤ width (fixedUnits 2 x / 10 ^ 2) := by
  rw [width_le_iff (width_pos _), floor_lt_iff]
  have hlt := (fixedUnits_lt_iff x _).1 (lt_pow_width (fixedUnits 2 x / 10 ^ 2))
  linarith

/-- **`nr_length` measures the text** exactly outside these gaps. -/
theorem measuresText_iff (x : ℚ) : MeasuresText x ↔ ConvertsToLong x ∧ PrintsAtLength x := by
  have hdigits : width ⌊|x|⌋.toNat = width (fixedUnits 2 x / 10 ^ 2) ↔
      ∀ k : ℕ, 0 < k → |x| < 10 ^ k → |x| < 10 ^ k - 1 / 200 := by
    rw [width_eq_iff]
    simp only [floor_lt_iff, fixedUnits_lt_iff]
    refine forall_congr' fun k => forall_congr' fun hk => ⟨Iff.mp, fun h => ⟨h, fun hlt => ?_⟩⟩
    linarith
  refine and_congr_right fun hlong => ?_
  have hwidth := width_floor_le x
  rw [PrintsAtLength, ← hdigits, floatLength_eq hlong, fixedText_length]
  by_cases hneg : x < 0
  · by_cases hle : x ≤ -1
    · simp only [hneg, hle, if_true, imp_self, true_and]
      omega
    · simp only [hneg, hle, if_true, if_false, imp_false, not_true, false_and, iff_false]
      omega
  · have hle : ¬x ≤ -1 := fun hle => hneg (by linarith)
    simp only [hneg, hle, if_false, false_imp_iff, true_and]
    omega

/-- A text of twenty characters at most is that of a number in range. -/
theorem convertsToLong_of_length (h : (fixedText 2 x).length ≤ 20) : ConvertsToLong x := by
  have hwidth : width ⌊|x|⌋.toNat ≤ 17 := by
    have := width_floor_le x
    rw [fixedText_length] at h
    omega
  have hlt := (width_le_iff (by norm_num) _).1 hwidth
  rw [← truncate_natAbs] at hlt
  unfold ConvertsToLong
  omega

/-! ## What is on the screen -/

/-- The characters a part of the drawing puts on the screen: `printw` stops at a NUL. -/
def Piece.drawn : Piece → Str
  | .text s => cString s
  | .loop b bound => List.replicate bound.toNat b

/-- The characters of a drawing. -/
def drawn (pieces : List Piece) : Str := pieces.flatMap Piece.drawn

section

variable {s : Str} {b : Byte} {bound size : ℤ} {pieces pieces' : List Piece}

/-- Nothing prints nothing. -/
@[simp] theorem drawn_nil : drawn [] = [] := rfl

/-- A text prints up to its NUL. -/
@[simp] theorem drawn_text : drawn (.text s :: pieces) = cString s ++ drawn pieces := rfl

/-- A loop prints its character as often as it runs. -/
@[simp] theorem drawn_loop :
    drawn (.loop b bound :: pieces) = List.replicate bound.toNat b ++ drawn pieces := rfl

/-- Pieces print one after another. -/
@[simp] theorem drawn_append : drawn (pieces ++ pieces') = drawn pieces ++ drawn pieces' :=
  List.flatMap_append

/-- A text without a NUL is printed whole. -/
theorem cString_of_not_mem (h : nul ∉ s) : cString s = s := by
  rw [cString, List.takeWhile_eq_self_iff]
  intro c hc
  simp only [decide_eq_true_eq]
  rintro rfl
  exact h hc

/-- A text loses what stands behind its first NUL. -/
theorem length_cString_eq_iff : (cString s).length = s.length ↔ nul ∉ s := by
  constructor
  · intro h hmem
    have heq : cString s = s := (List.takeWhile_prefix _).eq_of_length h
    rw [← heq] at hmem
    exact absurd (List.mem_takeWhile_imp hmem) (by decide)
  · intro h
    rw [cString_of_not_mem h]

/-- No more is printed than there is. -/
theorem length_cString_le (s : Str) : (cString s).length ≤ s.length :=
  (List.takeWhile_prefix _).length_le

/-- A printed number has no NUL. -/
theorem nul_not_mem_natText (n : ℕ) : nul ∉ natText n :=
  fun h => absurd (isDigit_of_mem_natText h) (by decide)

/-- Neither has a printed integer. -/
theorem nul_not_mem_intText (z : ℤ) : nul ∉ intText z := by
  have hminus : nul ≠ minus := by decide
  unfold intText
  split_ifs <;> simp [nul_not_mem_natText, hminus]

/-- Neither has a number with decimals. -/
theorem nul_not_mem_fixedText (k : ℕ) (x : ℚ) : nul ∉ fixedText k x := by
  have hminus : nul ≠ minus := by decide
  have hdot : nul ≠ dot := by decide
  have hfixed : ∀ n, nul ∉ fixed k n :=
    fun n h => absurd (isDigit_of_mem_fixed h) (by decide)
  unfold fixedText
  split_ifs <;> simp [nul_not_mem_natText, hminus, hdot, hfixed]

/-- **A column** whose content is padded by its length has its size, and the pipe. -/
theorem length_drawn_cell (hnul : nul ∉ s) (hfits : (s.length : ℤ) ≤ size)
    (hbound : bound = size - s.length) : ((drawn (cell s bound)).length : ℤ) = size + 1 := by
  have hpipe : cString [pipe] = [pipe] := by decide
  simp only [cell, drawn_text, drawn_loop, drawn_nil, cString_of_not_mem hnul, hpipe,
    List.length_append, List.length_replicate, List.length_singleton, List.length_nil]
  omega

/-- The cell of a number that fits and is measured right has the width of its column. -/
theorem length_drawn_floatCell (hfits : ((fixedText 2 x).length : ℤ) ≤ size)
    (h : MeasuresText x) : ((drawn (floatCell size x)).length : ℤ) = size + 1 :=
  length_drawn_cell (nul_not_mem_fixedText 2 x) hfits (by rw [h.2])

/-- A column that is printed, or not. -/
theorem length_drawn_printedIf {shown : Bool}
    (h : shown = true → ((drawn pieces).length : ℤ) = size) :
    ((drawn (printedIf shown pieces)).length : ℤ) = (printedIf shown [size]).sum := by
  cases shown with
  | false => rfl
  | true => simpa [printedIf] using h rfl

end

/-! ## Rows -/

/-- A line of `width` characters. -/
def IsLine (width : ℤ) (text : Str) : Prop :=
  ∃ row, text = row ++ [newline] ∧ (row.length : ℤ) = width

/-- A text that ends with its newline is a line when its length is right. -/
theorem isLine_iff {width : ℤ} {text : Str} (hend : text.getLast? = some newline) :
    IsLine width text ↔ (text.length : ℤ) = width + 1 := by
  obtain ⟨row, rfl⟩ := List.getLast?_eq_some_iff.1 hend
  rw [List.length_append, List.length_singleton]
  constructor
  · rintro ⟨row', heq, rfl⟩
    rw [List.append_cancel_right heq]
    push_cast
    rfl
  · intro h
    exact ⟨row, rfl, by omega⟩

/-- The sum of the columns' widths. -/
def tableSum (maxNameLength : ℤ) (f : Printed) : ℤ :=
  List.sum (List.flatten
    [printedIf f.name [maxNameLength + 1], printedIf f.code [maxCodeLength + 1],
      printedIf f.price [maxPriceLength + 1], printedIf f.discount [3 + 1],
      printedIf f.priceAfterDiscount [maxPriceLength + 1], printedIf f.tax [3 + 1],
      printedIf f.qty [maxProductQuanityLength + 1],
      printedIf f.stock [maxProductQuanityLength + 1], printedIf f.profit [maxPriceLength + 1],
      printedIf f.priceToStock [maxPriceLength + 1], printedIf f.soldBy [maxSoldByNameLength + 1],
      [1]])

/-- The width of a table is the sum of its columns, as an `int`. -/
theorem tableWidth_eq (maxNameLength : ℤ) (f : Printed) :
    tableWidth maxNameLength f = toInt (tableSum maxNameLength f) := rfl

/-- The numbers with two decimals that a row prints, each with the size of its column. -/
def rowNumbers (f : Printed) (basket : List BasketProduct) (p : Product) : List (ℤ × ℚ) :=
  List.flatten
    [printedIf f.price [(maxPriceLength, p.price)],
      printedIf f.priceAfterDiscount [(maxPriceLength, p.priceAfterDiscount)],
      printedIf f.qty ((basket.find? fun b => b.code = p.code).toList.map fun b =>
        (maxProductQuanityLength, b.quantity)),
      printedIf f.stock [(maxProductQuanityLength, p.stock)],
      printedIf f.profit [(maxPriceLength, p.profit)],
      printedIf f.priceToStock [(maxPriceLength, p.priceToStock)]]

/-- The values that a row prints fit their columns. -/
structure ColumnsFit (maxNameLength : ℤ) (f : Printed) (basket : List BasketProduct) (p : Product) :
    Prop where
  name : f.name = true → (p.name.length : ℤ) ≤ maxNameLength
  code : f.code = true → ((intText p.code).length : ℤ) ≤ maxCodeLength
  discount : f.discount = true → ((intText p.discount).length : ℤ) ≤ 3
  numbers : ∀ c ∈ rowNumbers f basket p, ((fixedText 2 c.2).length : ℤ) ≤ c.1
  /-- A row with a quantity is that of a product in the basket. -/
  qty : f.qty = true → ∃ b ∈ basket, b.code = p.code

/-- What a row loses to NULs in its texts. -/
def lostToNul (f : Printed) (p : Product) : ℕ :=
  (if f.name then p.name.length - (cString p.name).length else 0) +
    if f.tax = true ∧ p.taxChar = nul then 3 else 0

section

variable {maxNameLength : ℤ} {f : Printed} {basket : List BasketProduct} {stray : ℚ} {p : Product}

/-- A difference that is not negative survives `size_t`. -/
theorem toSizeT_of_le {a b : ℤ} (h : b ≤ a) : toSizeT (a - b) = a - b :=
  toSizeT_of_nonneg (by omega)

/-- The cell of a name that fits is as wide as its column, but for what a NUL cuts off. -/
theorem length_drawn_name (hfits : (p.name.length : ℤ) ≤ maxNameLength) :
    ((drawn (cell p.name (toSizeT (maxNameLength - p.name.length)))).length : ℤ) =
      maxNameLength + 1 - (p.name.length - (cString p.name).length : ℕ) := by
  have hpipe : cString [pipe] = [pipe] := by decide
  have hle := length_cString_le p.name
  simp only [cell, drawn_text, drawn_loop, drawn_nil, hpipe, toSizeT_of_le hfits,
    List.length_append, List.length_replicate, List.length_singleton, List.length_nil]
  omega

/-- So is that of a tax letter. -/
theorem length_drawn_tax (tax : Byte) :
    ((drawn [.text [space, tax, space, pipe]]).length : ℤ) =
      3 + 1 - (if tax = nul then 3 else 0 : ℕ) := by
  have hspace : (decide (space ≠ nul)) = true := by decide
  have hpipe : (decide (pipe ≠ nul)) = true := by decide
  simp only [drawn_text, drawn_nil, cString, List.append_nil]
  by_cases htax : tax = nul
  · simp [List.takeWhile, htax, hspace]
  · simp [List.takeWhile, htax, hspace, hpipe]

/-- The cell of a measurement has the width of its column. -/
theorem length_drawn_soldBy (m : Mesurments) :
    ((drawn (cell (soldByName m) (toSizeT (maxSoldByNameLength - (soldByName m).length)))).length
      : ℤ) = maxSoldByNameLength + 1 := by
  cases m <;> decide

/-- So has the cell of a quantity that fits and is measured right. -/
theorem length_drawn_quantityCell (hmem : ∃ b ∈ basket, b.code = p.code)
    (hfits : ∀ b, basket.find? (fun b => b.code = p.code) = some b →
      ((fixedText 2 b.quantity).length : ℤ) ≤ maxProductQuanityLength ∧ MeasuresText b.quantity) :
    ((drawn (quantityCell basket stray p.code)).length : ℤ) = maxProductQuanityLength + 1 := by
  obtain ⟨b, hb, hcode⟩ := hmem
  have hfound : (basket.find? fun b => b.code = p.code).isSome :=
    List.find?_isSome.2 ⟨b, hb, by simpa using hcode⟩
  obtain ⟨c, hc⟩ := Option.isSome_iff_exists.1 hfound
  rw [quantityCell, hc]
  exact length_drawn_floatCell (hfits c hc).1 (hfits c hc).2

/-- **The length of a row** whose numbers are printed as long as they are counted, with its
newline. -/
theorem length_drawRow (hfits : ColumnsFit maxNameLength f basket p)
    (hmeasure : ∀ c ∈ rowNumbers f basket p, MeasuresText c.2) :
    ((drawn (drawRow maxNameLength f basket stray p)).length : ℤ) =
      tableSum maxNameLength f + 1 - lostToNul f p := by
  have hnumber : ∀ {size : ℤ} {x : ℚ}, (size, x) ∈ rowNumbers f basket p →
      ((drawn (floatCell size x)).length : ℤ) = size + 1 := fun {size x} hmem =>
    length_drawn_floatCell (hfits.numbers (size, x) hmem) (hmeasure (size, x) hmem)
  have hname : ((drawn (printedIf f.name
      (cell p.name (toSizeT (maxNameLength - p.name.length))))).length : ℤ) =
        (printedIf f.name [maxNameLength + 1]).sum -
          (if f.name then p.name.length - (cString p.name).length else 0 : ℕ) := by
    cases hshown : f.name with
    | false => rfl
    | true => simpa [printedIf] using length_drawn_name (hfits.name hshown)
  have htax : ((drawn (printedIf f.tax [.text [space, p.taxChar, space, pipe]])).length : ℤ) =
      (printedIf f.tax [(3 + 1 : ℤ)]).sum -
        (if f.tax = true ∧ p.taxChar = nul then 3 else 0 : ℕ) := by
    cases hshown : f.tax with
    | false => simp [printedIf]
    | true => simpa [printedIf] using length_drawn_tax p.taxChar
  have hcode : ((drawn (printedIf f.code
      (cell (intText p.code) (maxCodeLength - nrLength p.code false)))).length : ℤ) =
        (printedIf f.code [maxCodeLength + 1]).sum :=
    length_drawn_printedIf fun hshown =>
      length_drawn_cell (nul_not_mem_intText p.code) (hfits.code hshown) rfl
  have hdiscount : ((drawn (printedIf f.discount
      (cell (intText p.discount) (3 - nrLength p.discount false)))).length : ℤ) =
        (printedIf f.discount [(3 + 1 : ℤ)]).sum :=
    length_drawn_printedIf fun hshown =>
      length_drawn_cell (nul_not_mem_intText p.discount) (hfits.discount hshown) rfl
  have hnumbers : ∀ (shown : Bool) (size : ℤ) (x : ℚ),
      (shown = true → (size, x) ∈ rowNumbers f basket p) →
        ((drawn (printedIf shown (floatCell size x))).length : ℤ) =
          (printedIf shown [size + 1]).sum := fun shown size x hmem =>
    length_drawn_printedIf fun hshown => hnumber (hmem hshown)
  have hprice := hnumbers f.price maxPriceLength p.price
    fun hshown => by simp [rowNumbers, printedIf, hshown]
  have hafter := hnumbers f.priceAfterDiscount maxPriceLength p.priceAfterDiscount
    fun hshown => by simp [rowNumbers, printedIf, hshown]
  have hstock := hnumbers f.stock maxProductQuanityLength p.stock
    fun hshown => by simp [rowNumbers, printedIf, hshown]
  have hprofit := hnumbers f.profit maxPriceLength p.profit
    fun hshown => by simp [rowNumbers, printedIf, hshown]
  have hpriceToStock := hnumbers f.priceToStock maxPriceLength p.priceToStock
    fun hshown => by simp [rowNumbers, printedIf, hshown]
  have hqty : ((drawn (printedIf f.qty (quantityCell basket stray p.code))).length : ℤ) =
      (printedIf f.qty [maxProductQuanityLength + 1]).sum := by
    refine length_drawn_printedIf fun hshown =>
      length_drawn_quantityCell (hfits.qty hshown) fun b hb => ?_
    have hmem : (maxProductQuanityLength, b.quantity) ∈ rowNumbers f basket p := by
      simp [rowNumbers, printedIf, hshown, hb]
    exact ⟨hfits.numbers (maxProductQuanityLength, b.quantity) hmem,
      hmeasure (maxProductQuanityLength, b.quantity) hmem⟩
  have hsoldBy : ((drawn (printedIf f.soldBy (cell (soldByName p.soldBy)
      (toSizeT (maxSoldByNameLength - (soldByName p.soldBy).length))))).length : ℤ) =
        (printedIf f.soldBy [maxSoldByNameLength + 1]).sum :=
    length_drawn_printedIf fun _ => length_drawn_soldBy p.soldBy
  have hends : (drawn [.text [pipe]]).length = 1 ∧ (drawn [.text [newline]]).length = 1 := by
    decide
  simp only [drawRow, tableSum, lostToNul, List.flatten_cons, List.flatten_nil, drawn_append,
    List.length_append, List.sum_append, Nat.cast_add, hname, hcode, hprice, hdiscount, hafter,
    htax, hqty, hstock, hprofit, hpriceToStock, hsoldBy, hends]
  simp only [drawn_nil, List.length_nil, List.sum_nil, List.sum_singleton]
  omega

/-- A row ends with a newline. -/
theorem getLast?_drawRow :
    (drawn (drawRow maxNameLength f basket stray p)).getLast? = some newline := by
  have hnewline : cString [newline] = [newline] := by decide
  simp only [drawRow, List.flatten_cons, List.flatten_nil, drawn_append, drawn_text, drawn_nil,
    hnewline, List.getLast?_append, List.append_nil, List.getLast?_singleton, Option.some_or]

/-- Nothing of a row is lost exactly when what it shows has no NUL. -/
theorem lostToNul_eq_zero_iff : lostToNul f p = 0 ↔
    (f.name = true → nul ∉ p.name) ∧ (f.tax = true → p.taxChar ≠ nul) := by
  have hle := length_cString_le p.name
  rw [← @length_cString_eq_iff p.name, lostToNul, Nat.add_eq_zero_iff]
  refine and_congr ?_ ?_
  · by_cases hname : f.name = true
    · rw [if_pos hname]
      simp only [hname, true_imp_iff]
      omega
    · simp [hname]
  · by_cases htax : f.tax = true <;> simp [htax]

/-- The columns of numbers are narrow. -/
theorem rowNumbers_size {c : ℤ × ℚ} (h : c ∈ rowNumbers f basket p) : c.1 ≤ 8 := by
  have hif : ∀ {shown : Bool} {cs : List (ℤ × ℚ)}, c ∈ printedIf shown cs → c ∈ cs := by
    intro shown cs hmem
    cases shown with
    | false => cases hmem
    | true => exact hmem
  simp only [rowNumbers, List.flatten_cons, List.flatten_nil, List.mem_append,
    List.not_mem_nil, or_false] at h
  have hprice : maxPriceLength ≤ 8 := by decide
  have hquantity : maxProductQuanityLength ≤ 8 := by decide
  rcases h with h | h | h | h | h | h
  · obtain rfl := List.mem_singleton.1 (hif h)
    exact hprice
  · obtain rfl := List.mem_singleton.1 (hif h)
    exact hprice
  · obtain ⟨b, -, rfl⟩ := List.mem_map.1 (hif h)
    exact hquantity
  · obtain rfl := List.mem_singleton.1 (hif h)
    exact hquantity
  · obtain rfl := List.mem_singleton.1 (hif h)
    exact hprice
  · obtain rfl := List.mem_singleton.1 (hif h)
    exact hprice

/-- The sum of the columns is a width below 2^32. -/
theorem tableSum_bounds (hint : maxNameLength < 2 ^ 31)
    (hname : f.name = true → 0 ≤ maxNameLength) :
    0 ≤ tableSum maxNameLength f ∧ tableSum maxNameLength f < 2 ^ 32 := by
  have hif : ∀ (shown : Bool) (size : ℤ), 0 ≤ size →
      0 ≤ (printedIf shown [size]).sum ∧ (printedIf shown [size]).sum ≤ size := by
    intro shown size hsize
    cases shown <;> simp [printedIf, hsize]
  have hfirst : 0 ≤ (printedIf f.name [maxNameLength + 1]).sum ∧
      (printedIf f.name [maxNameLength + 1]).sum ≤ 2 ^ 31 := by
    cases hshown : f.name with
    | false => simp [printedIf]
    | true =>
      have := hname hshown
      simp only [printedIf, if_true, List.sum_singleton]
      omega
  have hcode := hif f.code 14 (by decide)
  have hprice := hif f.price 7 (by decide)
  have hdiscount := hif f.discount 4 (by decide)
  have hafter := hif f.priceAfterDiscount 7 (by decide)
  have htax := hif f.tax 4 (by decide)
  have hqty := hif f.qty 9 (by decide)
  have hstock := hif f.stock 9 (by decide)
  have hprofit := hif f.profit 7 (by decide)
  have hpriceToStock := hif f.priceToStock 7 (by decide)
  have hsoldBy := hif f.soldBy 8 (by decide)
  simp only [tableSum, List.flatten_cons, List.flatten_nil, List.sum_append, List.sum_nil,
    List.sum_singleton, maxCodeLength, maxPriceLength, maxProductQuanityLength,
    maxSoldByNameLength, Int.reduceAdd]
  omega

end

/-! ## The rows line up -/

/-- A row is a line as wide as the table, and its numbers have the lengths counted. -/
def RowAligned (maxNameLength : ℤ) (f : Printed) (basket : List BasketProduct) (stray : ℚ)
    (p : Product) : Prop :=
  IsLine (tableWidth maxNameLength f) (drawn (drawRow maxNameLength f basket stray p)) ∧
    ∀ c ∈ rowNumbers f basket p, MeasuresText c.2

/-- So is the line with the total, which has a rule under it. -/
def TotalAligned (width : ℤ) (total : ℚ) : Prop :=
  (∃ text, drawn (totalLine width total) = text ++ List.replicate width.toNat minus ∧
    IsLine width text) ∧ MeasuresText total

/-- **When a row lines up.** -/
structure RowPrintsAtLength (maxNameLength : ℤ) (f : Printed) (basket : List BasketProduct)
    (p : Product) : Prop where
  numbers : ∀ c ∈ rowNumbers f basket p, PrintsAtLength c.2
  /-- No text printed is cut off by a NUL. -/
  name : f.name = true → nul ∉ p.name
  tax : f.tax = true → p.taxChar ≠ nul
  /-- An `int` holds the width of the table. -/
  width : tableSum maxNameLength f < 2 ^ 31

/-- A profit of half a unit below nothing makes its row one character wider than the
table; the newline is one more. -/
theorem negative_profit_widens_row : ∃ p,
    getProductData 1 [{ bread with priceToStock := 5 / 2 }] = .ok p ∧ p.profit = -1 / 2 ∧
      ColumnsFit 31 (printedIn .stock) [] p ∧
      ((drawn (drawRow 31 (printedIn .stock) [] 0 p)).length : ℤ) =
        tableWidth 31 (printedIn .stock) + 1 + 1 ∧
      ¬RowAligned 31 (printedIn .stock) [] 0 p := by
  refine ⟨productOf { bread with priceToStock := 5 / 2 }, rfl, by decide +kernel, ?_,
    by decide +kernel, fun h => ?_⟩
  · exact ⟨by decide, by decide +kernel, by decide +kernel, by decide +kernel, by decide⟩
  · have hprofit := h.2 (maxPriceLength, -1 / 2) (by decide +kernel)
    exact absurd hprofit.2 (by decide +kernel)

/-- **A row lines up** exactly when its numbers are printed as long as they are counted. -/
theorem rowAligned_iff {maxNameLength : ℤ} {f : Printed} {basket : List BasketProduct} {stray : ℚ}
    {p : Product} (hint : maxNameLength < 2 ^ 31) (hfits : ColumnsFit maxNameLength f basket p) :
    RowAligned maxNameLength f basket stray p ↔ RowPrintsAtLength maxNameLength f basket p := by
  obtain ⟨h0, hlt⟩ := tableSum_bounds hint fun hname => le_trans (by omega) (hfits.name hname)
  have hline : tableSum maxNameLength f < 2 ^ 31 →
      (∀ c ∈ rowNumbers f basket p, MeasuresText c.2) →
        (IsLine (tableWidth maxNameLength f) (drawn (drawRow maxNameLength f basket stray p)) ↔
          lostToNul f p = 0) := by
    intro hwidth hmeasure
    rw [isLine_iff getLast?_drawRow, length_drawRow hfits hmeasure, tableWidth_eq,
      toInt_of_lt (by omega) hwidth]
    omega
  constructor
  · rintro ⟨hrow, hmeasure⟩
    have hwidth : tableSum maxNameLength f < 2 ^ 31 := by
      by_contra hover
      obtain ⟨row, -, hlen⟩ := hrow
      rw [tableWidth_eq, toInt_of_le (by omega) hlt] at hlen
      omega
    obtain ⟨hname, htax⟩ := lostToNul_eq_zero_iff.1 ((hline hwidth hmeasure).1 hrow)
    exact ⟨fun c hc => ((measuresText_iff _).1 (hmeasure c hc)).2, hname, htax, hwidth⟩
  · rintro ⟨hnumbers, hname, htax, hwidth⟩
    have hmeasure : ∀ c ∈ rowNumbers f basket p, MeasuresText c.2 := by
      intro c hc
      have hsize := rowNumbers_size hc
      have hlen := hfits.numbers c hc
      exact (measuresText_iff _).2 ⟨convertsToLong_of_length (by omega), hnumbers c hc⟩
    exact ⟨(hline hwidth hmeasure).2 (lostToNul_eq_zero_iff.2 ⟨hname, htax⟩), hmeasure⟩

/-- The line with the total is padded to the width of the table. -/
theorem drawn_totalLine {width : ℤ} {total : ℚ}
    (hfits : ((fixedText 2 total).length : ℤ) + 8 ≤ width) (h : MeasuresText total) :
    ∃ text, drawn (totalLine width total) = text ++ List.replicate width.toNat minus ∧
      IsLine width text := by
  have hlabel : cString (pipe :: label "TOTAL") = pipe :: label "TOTAL" := by decide
  have hclose : cString [space, pipe, newline] = [space, pipe] ++ [newline] := by decide
  have hlength : (label "TOTAL").length = 5 := by decide
  have hmeasured := h.2
  have hbound : toSizeT (width - 3 - ((label "TOTAL").length + floatLength total)) =
      width - 8 - (fixedText 2 total).length := by
    rw [hmeasured, hlength, toSizeT_of_nonneg (by omega)]
    omega
  refine ⟨pipe :: label "TOTAL" ++ (List.replicate
    (width - 8 - (fixedText 2 total).length).toNat space ++ (fixedText 2 total ++
      ([space, pipe] ++ [newline]))), ?_, ?_⟩
  · simp only [totalLine, drawn_text, drawn_loop, drawn_nil, hlabel, hclose, hbound,
      cString_of_not_mem (nul_not_mem_fixedText 2 total), List.append_assoc, List.append_nil]
  · refine ⟨pipe :: label "TOTAL" ++ (List.replicate
      (width - 8 - (fixedText 2 total).length).toNat space ++ (fixedText 2 total ++
        [space, pipe])), by simp, ?_⟩
    simp only [List.length_append, List.length_cons, List.length_replicate, List.length_nil,
      hlength]
    omega

/-- **The rows line up**, and so does the line with the total, exactly when every number
they print is printed as long as it is counted, no text is cut off by a NUL, and the width
of the table does not overflow: for every combination of columns and all values that fit. -/
theorem rows_aligned_iff (maxNameLength : ℤ) (hint : maxNameLength < 2 ^ 31) (f : Printed)
    (basket : List BasketProduct) (stray : ℚ) (p : Product) (total : ℚ)
    (hfits : ColumnsFit maxNameLength f basket p)
    (htotal : ((fixedText 2 total).length : ℤ) + 8 ≤ tableWidth maxNameLength f) :
    (RowAligned maxNameLength f basket stray p ↔ RowPrintsAtLength maxNameLength f basket p) ∧
    (TotalAligned (tableWidth maxNameLength f) total ↔
      ConvertsToLong total ∧ PrintsAtLength total) := by
  refine ⟨rowAligned_iff hint hfits, ?_⟩
  rw [← measuresText_iff]
  exact ⟨And.right, fun h => ⟨drawn_totalLine htotal h, h⟩⟩

/-- The bread in the products tab, and a total of 1.80. -/
theorem rows_aligned_bread :
    RowAligned 31 (printedIn .products) [] 0 (productOf bread) ∧
      TotalAligned (tableWidth 31 (printedIn .products)) (9 / 5) := by
  have hfits : ColumnsFit 31 (printedIn .products) [] (productOf bread) :=
    ⟨by decide, by decide +kernel, by decide +kernel, by decide +kernel, by decide⟩
  have hsmall : ∀ x : ℚ, 0 ≤ x → x < 9 → PrintsAtLength x := by
    refine fun x h0 hlt => ⟨fun hneg => absurd hneg (not_lt.2 h0), fun k hk _ => ?_⟩
    have : (10 : ℚ) ^ 1 ≤ 10 ^ k := pow_le_pow_right₀ (by norm_num) hk
    rw [abs_of_nonneg h0]
    linarith
  have hnumbers : ∀ c ∈ rowNumbers (printedIn .products) [] (productOf bread),
      PrintsAtLength c.2 := by
    intro c hc
    obtain rfl := List.mem_singleton.1 hc
    exact hsmall 2 (by norm_num) (by norm_num)
  have h := rows_aligned_iff 31 (by decide) (printedIn .products) [] 0 (productOf bread) (9 / 5)
    hfits (by decide +kernel)
  exact ⟨h.1.2 ⟨hnumbers, by decide, by decide, by decide⟩,
    h.2.2 ⟨⟨by decide +kernel, by decide +kernel⟩, hsmall _ (by norm_num) (by norm_num)⟩⟩

end CliPos
