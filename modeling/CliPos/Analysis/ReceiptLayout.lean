import CliPos.Analysis.DrawingLoops
import CliPos.Analysis.ReceiptStream

/-!
# The layout of a receipt

The items of a receipt as lines (`itemsText_eq`), and their widths.  The paper is one
character wider than `max_name_length`, as the rules are.  An item's detail is padded up to
the tax letter, but nothing makes room for a detail that is too long: it moves the letter to
the right, and off the paper (`receipt_aligned_iff`).
-/

set_option autoImplicit false

namespace CliPos

open Decimal

variable {maxNameLength : ℤ} {l : ReceiptLine} {lines : List ReceiptLine}

/-! ## The lines -/

/-- Lines, each with a newline behind it. -/
def joinLines (texts : List Str) : Str := texts.flatMap (· ++ [newline])

/-- The first line, its newline, and the rest. -/
@[simp] theorem joinLines_cons (text : Str) (texts : List Str) :
    joinLines (text :: texts) = text ++ newline :: joinLines texts := by
  simp [joinLines]

/-- Lines behind lines. -/
@[simp] theorem joinLines_append (texts texts' : List Str) :
    joinLines (texts ++ texts') = joinLines texts ++ joinLines texts' :=
  List.flatMap_append

/-- The line with an item's name. -/
def nameLine (maxNameLength : ℤ) (l : ReceiptLine) : Str :=
  l.product.name ++ appendNr (toInt (toSizeT (l.product.name.length - maxNameLength))) [space]

/-- What stands to the left of an item's tax letter. -/
def beforeTax (maxNameLength : ℤ) (l : ReceiptLine) : Str :=
  label "  " ++ (itemDetail l ++
    appendNr (toInt (toSizeT (maxNameLength - (4 + (itemDetail l).length)))) [space])

/-- The line with an item's detail and tax letter. -/
def detailLine (maxNameLength : ℤ) (l : ReceiptLine) : Str :=
  beforeTax maxNameLength l ++ [l.product.taxChar]

/-- The discount line, where there is one. -/
def discountLines (l : ReceiptLine) : List Str :=
  match l.discountLine with
  | none => []
  | some discount =>
    [label "DISCOUNT" ++ (label " " ++ (intText l.product.discount ++ (label "%: -" ++
      fixedText 2 discount)))]

/-- A rule. -/
def rule (maxNameLength : ℤ) : Str := appendNr (toInt (maxNameLength + 1)) [minus]

/-- The lines of an item. -/
def itemLines (maxNameLength : ℤ) (l : ReceiptLine) : List Str :=
  nameLine maxNameLength l :: detailLine maxNameLength l ::
    (discountLines l ++ [rule maxNameLength])

/-- **The items of a receipt** are these lines. -/
theorem itemsText_eq (maxNameLength : ℤ) (lines : List ReceiptLine) :
    itemsText maxNameLength lines = joinLines (lines.flatMap (itemLines maxNameLength)) := by
  have hdiscount : ∀ l, discountText l = joinLines (discountLines l) := by
    intro l
    unfold discountText discountLines
    cases l.discountLine <;> simp [joinLines]
  induction lines with
  | nil => rfl
  | cons l lines ih =>
    rw [itemsText, List.flatMap_cons, List.flatMap_cons, joinLines_append, ← ih, ← itemsText,
      itemLines, joinLines_cons, joinLines_cons, joinLines_append, ← hdiscount]
    simp [itemText, nameLine, detailLine, beforeTax, ruleLine, rule, joinLines]

/-! ## Their widths -/

/-- So many characters as asked for, or none. -/
theorem length_appendNr (i : ℤ) (b : Byte) : (appendNr i [b]).length = i.toNat := by
  simp [appendNr]

/-- A small difference survives the `size_t` it is computed in. -/
theorem toInt_toSizeT {x : ℤ} (h0 : -2 ^ 31 ≤ x) (h : x < 2 ^ 31) : toInt (toSizeT x) = x := by
  unfold toInt toSizeT
  rw [Int.bmod_def]
  split_ifs <;> omega

/-- A name that fits is not padded. -/
theorem nameLine_length (hint : maxNameLength < 2 ^ 31)
    (hname : (l.product.name.length : ℤ) ≤ maxNameLength) :
    (nameLine maxNameLength l).length = l.product.name.length := by
  rw [nameLine, List.length_append, length_appendNr, toInt_toSizeT (by omega) (by omega)]
  omega

/-- The column of an item's tax letter. -/
def taxColumn (maxNameLength : ℤ) (l : ReceiptLine) : ℕ := (beforeTax maxNameLength l).length

/-- The tax letter ends the detail's line. -/
theorem detailLine_length (maxNameLength : ℤ) (l : ReceiptLine) :
    (detailLine maxNameLength l).length = taxColumn maxNameLength l + 1 := by
  rw [detailLine, List.length_append, taxColumn, List.length_singleton]

/-- The tax letter stands behind the detail. -/
theorem taxColumn_ge (maxNameLength : ℤ) (l : ReceiptLine) :
    (itemDetail l).length + 2 ≤ taxColumn maxNameLength l := by
  rw [taxColumn, beforeTax, List.length_append, List.length_append]
  have hindent : (label "  ").length = 2 := by decide
  omega

/-- **The tax letter** of a detail that fits stands at the edge, or right behind the
detail. -/
theorem taxColumn_eq (hpos : 0 < maxNameLength) (hint : maxNameLength < 2 ^ 31)
    (hfits : ((itemDetail l).length : ℤ) + 2 ≤ maxNameLength) :
    (taxColumn maxNameLength l : ℤ) =
      max (maxNameLength - 2) ((itemDetail l).length + 2) := by
  rw [taxColumn, beforeTax, List.length_append, List.length_append, length_appendNr,
    toInt_toSizeT (by omega) (by omega)]
  have hindent : (label "  ").length = 2 := by decide
  omega

/-- The width of a discount line. -/
def discountWidth (discount : ℤ) (amount : ℚ) : ℕ :=
  13 + (intText discount).length + (fixedText 2 amount).length

/-- A discount line is as wide as its width says. -/
theorem length_discountLines {text : Str} (h : text ∈ discountLines l) :
    text.length = discountWidth l.product.discount l.printedDiscount := by
  have hlabels : (label "DISCOUNT").length = 8 ∧ (label " ").length = 1 ∧
      (label "%: -").length = 4 := by
    decide
  unfold discountLines at h
  rw [ReceiptLine.printedDiscount]
  cases hd : l.discountLine with
  | none => simp [hd] at h
  | some discount =>
    rw [hd] at h
    obtain rfl := List.mem_singleton.1 h
    simp only [List.length_append, Option.getD_some, discountWidth]
    omega

/-- There is a discount line for every discount but 0. -/
theorem discountLines_ne_nil_iff : discountLines l ≠ [] ↔ l.product.discount ≠ 0 := by
  unfold discountLines ReceiptLine.discountLine
  split_ifs with h <;> simp [h]

/-! ## The layout -/

/-- No line is wider than the rule, and the tax letters stand in one column. -/
structure ReceiptAligned (maxNameLength : ℤ) (lines : List ReceiptLine) : Prop where
  fits : ∀ l ∈ lines, ∀ text ∈ itemLines maxNameLength l, (text.length : ℤ) ≤ maxNameLength + 1
  column : ∀ l ∈ lines, ∀ l' ∈ lines, taxColumn maxNameLength l = taxColumn maxNameLength l'

/-- **When the numbers of a receipt fit the paper.** -/
structure NumbersFit (maxNameLength : ℤ) (lines : List ReceiptLine) : Prop where
  /-- A detail leaves two characters of `max_name_length`. -/
  detail : ∀ l ∈ lines, ((itemDetail l).length : ℤ) + 2 ≤ maxNameLength
  discount : ∀ l ∈ lines, l.product.discount ≠ 0 →
    (discountWidth l.product.discount l.printedDiscount : ℤ) ≤ maxNameLength + 1
  /-- The details leave four characters, or are equally long. -/
  equal : ∀ l ∈ lines, ∀ l' ∈ lines, (itemDetail l).length ≠ (itemDetail l').length →
    ((itemDetail l).length : ℤ) + 4 ≤ maxNameLength

/-- The lines of an item fit exactly when its detail and its discount line do. -/
theorem itemLines_fit_iff (hpos : 0 < maxNameLength) (hint : maxNameLength < 2 ^ 31)
    (hname : (l.product.name.length : ℤ) ≤ maxNameLength) :
    (∀ text ∈ itemLines maxNameLength l, (text.length : ℤ) ≤ maxNameLength + 1) ↔
      ((itemDetail l).length : ℤ) + 2 ≤ maxNameLength ∧ (l.product.discount ≠ 0 →
        (discountWidth l.product.discount l.printedDiscount : ℤ) ≤ maxNameLength + 1) := by
  have hrule : ((rule maxNameLength).length : ℤ) ≤ maxNameLength + 1 := by
    have hle : toInt (maxNameLength + 1) ≤ maxNameLength + 1 := by
      unfold toInt
      rw [Int.bmod_def]
      omega
    rw [rule, length_appendNr]
    omega
  have hdetail := detailLine_length maxNameLength l
  have hge := taxColumn_ge maxNameLength l
  constructor
  · intro h
    refine ⟨?_, fun hdiscount => ?_⟩
    · have hline := h (detailLine maxNameLength l) (by simp [itemLines])
      omega
    · obtain ⟨text, htext⟩ := List.exists_mem_of_ne_nil _ (discountLines_ne_nil_iff.2 hdiscount)
      rw [← length_discountLines htext]
      exact h text (by simp [itemLines, htext])
  · rintro ⟨hfits, hdiscount⟩ text htext
    simp only [itemLines, List.mem_cons, List.mem_append, List.not_mem_nil, or_false] at htext
    obtain rfl | rfl | htext | rfl := htext
    · rw [nameLine_length hint hname]
      omega
    · have hcolumn := taxColumn_eq hpos hint hfits
      omega
    · rw [length_discountLines htext]
      exact hdiscount (discountLines_ne_nil_iff.1 (List.ne_nil_of_mem htext))
    · exact hrule

/-- With the setting the shop starts with, one product at 2.00 and one at 1000.00: the tax
letters stand in the columns 29 and 31. -/
theorem thousand_moves_tax : ∃ lines,
    receiptLines [⟨1, 1⟩, ⟨2, 1⟩] [bread, { bread with code := 2, price := 1000 }] = .ok lines ∧
      lines.map (taxColumn defaultSettings.maxNameLength) = [29, 31] ∧
      ¬ReceiptAligned defaultSettings.maxNameLength lines := by
  refine ⟨[⟨productOf bread, 1⟩, ⟨productOf { bread with code := 2, price := 1000 }, 1⟩], rfl,
    by decide +kernel, fun h => ?_⟩
  have hcolumns := h.column ⟨productOf bread, 1⟩ (by simp)
    ⟨productOf { bread with code := 2, price := 1000 }, 1⟩ (by simp)
  exact absurd hcolumns (by decide +kernel)

/-- **A receipt is aligned** exactly when its numbers fit the paper: for every setting,
every table whose names fit it, and every basket. -/
theorem receipt_aligned_iff (maxNameLength : ℤ) (hpos : 0 < maxNameLength)
    (hint : maxNameLength < 2 ^ 31) (basket : List BasketProduct) (t : Table)
    (hnames : ∀ r ∈ t, (r.name.length : ℤ) ≤ maxNameLength) (lines : List ReceiptLine)
    (hlines : receiptLines basket t = .ok lines) :
    ReceiptAligned maxNameLength lines ↔ NumbersFit maxNameLength lines := by
  have hfit : ∀ l ∈ lines, (∀ text ∈ itemLines maxNameLength l,
      (text.length : ℤ) ≤ maxNameLength + 1) ↔
        ((itemDetail l).length : ℤ) + 2 ≤ maxNameLength ∧ (l.product.discount ≠ 0 →
          (discountWidth l.product.discount l.printedDiscount : ℤ) ≤ maxNameLength + 1) := by
    intro l hl
    obtain ⟨r, hr, hproduct⟩ := product_of_mem_receiptLines hlines hl
    refine itemLines_fit_iff hpos hint ?_
    rw [hproduct]
    exact hnames r hr
  constructor
  · rintro ⟨hfits, hcolumn⟩
    have hdetail : ∀ l ∈ lines, ((itemDetail l).length : ℤ) + 2 ≤ maxNameLength :=
      fun l hl => ((hfit l hl).1 (hfits l hl)).1
    refine ⟨hdetail, fun l hl => ((hfit l hl).1 (hfits l hl)).2, fun l hl l' hl' hne => ?_⟩
    have h := taxColumn_eq hpos hint (hdetail l hl)
    have h' := taxColumn_eq hpos hint (hdetail l' hl')
    rw [hcolumn l hl l' hl'] at h
    omega
  · rintro ⟨hdetail, hdiscount, hequal⟩
    refine ⟨fun l hl => (hfit l hl).2 ⟨hdetail l hl, hdiscount l hl⟩, fun l hl l' hl' => ?_⟩
    have h := taxColumn_eq hpos hint (hdetail l hl)
    have h' := taxColumn_eq hpos hint (hdetail l' hl')
    by_cases hlen : (itemDetail l).length = (itemDetail l').length
    · omega
    · have hroom := hequal l hl l' hl' hlen
      have hroom' := hequal l' hl' l hl (Ne.symm hlen)
      omega

/-- One bread and ten of the milk: the details are not equally long. -/
theorem receipt_aligned_two :
    let lines := [⟨productOf bread, 1⟩, ⟨productOf milk, 10⟩]
    (lines.map fun l => (itemDetail l).length) = [23, 25] ∧ ReceiptAligned 31 lines := by
  intro lines
  have hlengths : (lines.map fun l => (itemDetail l).length) = [23, 25] := by decide +kernel
  refine ⟨hlengths, (receipt_aligned_iff 31 (by decide) (by decide) [⟨1, 1⟩, ⟨2, 10⟩]
    [bread, milk] (by decide) lines rfl).2 ⟨?_, ?_, ?_⟩⟩
  · decide +kernel
  · decide +kernel
  · decide +kernel

end CliPos
