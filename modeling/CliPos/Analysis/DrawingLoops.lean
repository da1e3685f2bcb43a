import CliPos.Model.Drawing
import CliPos.Analysis.Readback
import CliPos.Analysis.Redraw

/-!
# The loops of the drawing

A padding loop counts up to its bound with an `int`.  A bound that is a difference with the
length of a string is a `size_t`: where the string is the longer one it is close to `2 ^ 64`,
and the loop never ends.  That happens to a name longer than the setting, and to nothing
else (`draw_finishes_iff`).
-/

set_option autoImplicit false

namespace CliPos

open Decimal Halting

/-! ## Loops within a width -/

/-- Every loop runs at most `width` times. -/
def LoopsWithin (width : ℤ) (pieces : List Piece) : Prop :=
  ∀ b bound, .loop b bound ∈ pieces → max bound 0 ≤ width

/-- The counter of every loop reaches its bound. -/
def LoopsReturn (pieces : List Piece) : Prop :=
  ∀ b bound, .loop b bound ∈ pieces → bound < 2 ^ 31

section

variable {width : ℤ} {pieces pieces' : List Piece}

/-- Pieces one after another have their loops within the width when both parts do. -/
theorem loopsWithin_append :
    LoopsWithin width (pieces ++ pieces') ↔
      LoopsWithin width pieces ∧ LoopsWithin width pieces' := by
  simp only [LoopsWithin, List.mem_append, or_imp, forall_and]

/-- So do the pieces of a list of parts. -/
theorem loopsWithin_flatten {parts : List (List Piece)} :
    LoopsWithin width parts.flatten ↔ ∀ part ∈ parts, LoopsWithin width part := by
  simp only [LoopsWithin, List.mem_flatten]
  constructor
  · exact fun h part hpart b bound hloop => h b bound ⟨part, hpart, hloop⟩
  · rintro h b bound ⟨part, hpart, hloop⟩
    exact h part hpart b bound hloop

/-- No pieces have no loops. -/
@[simp] theorem loopsWithin_nil : LoopsWithin width [] := by
  simp [LoopsWithin]

/-- A text has no loop. -/
@[simp] theorem loopsWithin_text {s : Str} :
    LoopsWithin width (.text s :: pieces) ↔ LoopsWithin width pieces := by
  simp [LoopsWithin]

/-- A loop is within the width when its bound is. -/
@[simp] theorem loopsWithin_loop {b : Byte} {bound : ℤ} :
    LoopsWithin width (.loop b bound :: pieces) ↔
      max bound 0 ≤ width ∧ LoopsWithin width pieces := by
  constructor
  · intro h
    exact ⟨h b bound List.mem_cons_self,
      fun b' bound' hb => h b' bound' (List.mem_cons_of_mem _ hb)⟩
  · rintro ⟨hbound, h⟩ b' bound' hb
    rcases List.mem_cons.1 hb with heq | hb
    · cases heq
      exact hbound
    · exact h b' bound' hb

/-- A part that is not shown has no loops. -/
theorem loopsWithin_printedIf {shown : Bool} :
    LoopsWithin width (printedIf shown pieces) ↔ (shown = true → LoopsWithin width pieces) := by
  cases shown <;> simp [printedIf]

/-- Within a width that an `int` holds, every loop ends. -/
theorem LoopsWithin.returns (h : LoopsWithin width pieces) (hwidth : width < 2 ^ 31) :
    LoopsReturn pieces :=
  fun b bound hloop => (le_max_left bound 0).trans_lt ((h b bound hloop).trans_lt hwidth)

end

/-! ## The arithmetic of the bounds -/

/-- `nr_length` is not negative. -/
theorem nrLength_nonneg (number : ℤ) (isFloat : Bool) : 0 ≤ nrLength number isFloat := by
  unfold nrLength nrDecimalPoints
  split_ifs <;> omega

/-- A `long int` has at most twenty characters, so two decimals make at most twenty-three. -/
theorem floatLength_le (x : ℚ) : floatLength x ≤ 23 := by
  have habs : (toLong x).natAbs < 10 ^ 19 := by
    unfold toLong
    rw [Int.bmod_def]
    omega
  have hwidth : width (toLong x).natAbs ≤ 19 := (width_le_iff (by norm_num) _).2 habs
  have hlen : (intText (toLong x)).length ≤ 20 := by
    unfold intText
    split_ifs
    · rw [List.length_cons, natText_length]
      omega
    · rw [natText_length]
      omega
  rw [floatLength, nrLength, if_pos rfl, nrDecimalPoints]
  omega

/-- The width of the columns of a tab, the name's apart. -/
def columnsWidth : Tab → ℤ
  | .products => 31
  | .basket => 55
  | .stock => 62

/-- The width of a table is that of its columns, as an `int`. -/
theorem tableWidth_printedIn (maxNameLength : ℤ) (shown : Tab) :
    tableWidth maxNameLength (printedIn shown) = toInt (maxNameLength + columnsWidth shown) := by
  have hsum : ∀ shown : Tab, List.sum (List.flatten
      [printedIf (printedIn shown).name [maxNameLength + 1],
        printedIf (printedIn shown).code [maxCodeLength + 1],
        printedIf (printedIn shown).price [maxPriceLength + 1],
        printedIf (printedIn shown).discount [3 + 1],
        printedIf (printedIn shown).priceAfterDiscount [maxPriceLength + 1],
        printedIf (printedIn shown).tax [3 + 1],
        printedIf (printedIn shown).qty [maxProductQuanityLength + 1],
        printedIf (printedIn shown).stock [maxProductQuanityLength + 1],
        printedIf (printedIn shown).profit [maxPriceLength + 1],
        printedIf (printedIn shown).priceToStock [maxPriceLength + 1],
        printedIf (printedIn shown).soldBy [maxSoldByNameLength + 1], [1]]) =
      maxNameLength + columnsWidth shown := by
    intro shown
    cases shown <;>
      simp [printedIn, printedIf, columnsWidth, maxCodeLength, maxPriceLength,
        maxProductQuanityLength, maxSoldByNameLength] <;> ring
  rw [tableWidth, hsum]

/-! ## The parts of the drawing -/

section

variable {width maxNameLength : ℤ}

/-- A cell is padded by one loop. -/
theorem loopsWithin_cell {s : Str} {bound : ℤ} :
    LoopsWithin width (cell s bound) ↔ max bound 0 ≤ width := by
  simp [cell]

/-- The cell of a number fits a table as wide as its column. -/
theorem loopsWithin_floatCell {size : ℤ} (h0 : 0 ≤ size) (h : size ≤ width) (x : ℚ) :
    LoopsWithin width (floatCell size x) := by
  have hlen := nrLength_nonneg (toLong x) true
  rw [floatCell, loopsWithin_cell, floatLength]
  omega

/-- So does the cell of a quantity. -/
theorem loopsWithin_quantityCell (h : maxProductQuanityLength ≤ width)
    (basket : List BasketProduct) (stray : ℚ) (code : ℤ) :
    LoopsWithin width (quantityCell basket stray code) := by
  unfold quantityCell
  have h0 : 0 ≤ maxProductQuanityLength := by decide
  split
  · exact loopsWithin_floatCell h0 h _
  · have hlen := nrLength_nonneg (toLong stray) true
    rw [loopsWithin_cell, floatLength]
    omega

/-- The line between two parts of the table is as wide as the table. -/
theorem loopsWithin_separator (h0 : 0 ≤ width) : LoopsWithin width (separator width) := by
  simp [separator, h0]

/-- A head section pads a short name to its column, and does not pad a longer one. -/
theorem loopsWithin_printTableHeadSection {name : Str} {size : ℤ} (hname : name.length ≤ 16)
    (h0 : 0 ≤ size) (hsize : size < 2 ^ 31) (h : size ≤ width) :
    LoopsWithin width (printTableHeadSection name size) := by
  have hpadding : ∀ n : ℕ, n ≤ 17 → toInt (toSizeT (size - n) / 2) ≤ size := by
    intro n hn
    unfold toSizeT
    split_ifs with hlt
    · have hwrap : ((size - n + 2 ^ 64) / 2 : ℤ) = (size - n) / 2 + 2 ^ 63 := by omega
      unfold toInt
      rw [hwrap, Int.bmod_def]
      omega
    · rw [toInt_of_lt (by omega) (by omega)]
      omega
  have hlen : (if name.length % 2 = 1 ∧ size.tmod 2 ≠ 1 then name ++ [space] else name).length ≤
      17 := by
    split_ifs
    · rw [List.length_append, List.length_singleton]
      omega
    · omega
  have hbound := hpadding _ hlen
  simp only [printTableHeadSection, loopsWithin_text, loopsWithin_loop, loopsWithin_nil, and_true]
  omega

/-- The title's loops are within the table. -/
theorem loopsWithin_title (h0 : 0 ≤ width) (tab : Tab) : LoopsWithin width (title width tab) := by
  have hpadding : truncate ((width : ℚ) / 2 - ((tabName tab).length : ℚ) / 2) ≤ width := by
    have hle : (width : ℚ) / 2 - ((tabName tab).length : ℚ) / 2 ≤ width := by
      have hw : (0 : ℚ) ≤ width := by exact_mod_cast h0
      have hlen : (0 : ℚ) ≤ (tabName tab).length := by positivity
      linarith
    unfold truncate
    split_ifs
    · exact Int.ceil_le.2 hle
    · exact Int.floor_le_iff.2 (by linarith)
  have hodd : LoopsWithin width (if width.tmod 2 ≠ 0 then [Piece.text [minus]] else []) := by
    split_ifs <;> simp
  simp only [title, loopsWithin_append, loopsWithin_text, loopsWithin_loop, loopsWithin_nil,
    hodd, and_true]
  omega

/-- **A row ends** exactly when its name is no longer than the setting. -/
theorem loopsWithin_drawRow {shown : Tab} {p : Product} (hpos : 0 < maxNameLength)
    (hname : (p.name.length : ℤ) < 2 ^ 63) (hint : width < 2 ^ 31)
    (hwidth : width = maxNameLength + columnsWidth shown) (basket : List BasketProduct)
    (stray : ℚ) :
    LoopsWithin width (drawRow maxNameLength (printedIn shown) basket stray p) ↔
      (p.name.length : ℤ) ≤ maxNameLength := by
  have hcolumns : 31 ≤ columnsWidth shown := by cases shown <;> decide
  have hnameCell : LoopsWithin width (cell p.name (toSizeT (maxNameLength - p.name.length))) ↔
      (p.name.length : ℤ) ≤ maxNameLength := by
    rw [loopsWithin_cell]
    unfold toSizeT
    split_ifs <;> omega
  have hcode := nrLength_nonneg p.code false
  have hdiscount := nrLength_nonneg p.discount false
  have hsoldBy : LoopsWithin width (cell (soldByName p.soldBy)
      (toSizeT (maxSoldByNameLength - (soldByName p.soldBy).length))) := by
    have hbound : toSizeT (maxSoldByNameLength - (soldByName p.soldBy).length) ≤ 7 := by
      cases p.soldBy <;> decide
    rw [loopsWithin_cell]
    omega
  have hprice : ∀ x, LoopsWithin width (floatCell maxPriceLength x) :=
    loopsWithin_floatCell (by decide) (by unfold maxPriceLength; omega)
  have hquantity : ∀ x, LoopsWithin width (floatCell maxProductQuanityLength x) :=
    loopsWithin_floatCell (by decide) (by unfold maxProductQuanityLength; omega)
  have hbasket : LoopsWithin width (quantityCell basket stray p.code) :=
    loopsWithin_quantityCell (by unfold maxProductQuanityLength; omega) basket stray p.code
  have hshown : (printedIn shown).name = true := by cases shown <;> rfl
  simp only [drawRow, loopsWithin_flatten, List.forall_mem_cons, loopsWithin_printedIf, hshown,
    true_imp_iff, hnameCell, loopsWithin_cell, hprice, hquantity, hbasket, hsoldBy,
    loopsWithin_text, loopsWithin_nil, implies_true, true_and]
  constructor
  · exact fun h => h.1
  · intro h
    refine ⟨h, fun _ => ?_, fun _ => ?_, ?_⟩
    · unfold maxCodeLength
      omega
    · omega
    · simp

/-- So are those of the head. -/
theorem loopsWithin_tableHead {shown : Tab} (hpos : 0 < maxNameLength) (hint : width < 2 ^ 31)
    (hwidth : width = maxNameLength + columnsWidth shown) :
    LoopsWithin width (tableHead maxNameLength (printedIn shown)) := by
  have hcolumns : 31 ≤ columnsWidth shown := by cases shown <;> decide
  have hsection : ∀ name ∈ [label "NAME", label "UPC", label "PRICE", label "DIS", label "PAD",
      label "TAX", label "QTY", label "STOCK", label "PROFIT", label "PTS", label "SOLD BY"],
      ∀ size, 0 ≤ size → size ≤ width → LoopsWithin width (printTableHeadSection name size) := by
    intro name hname size h0 h
    have hshort : ∀ name ∈ [label "NAME", label "UPC", label "PRICE", label "DIS", label "PAD",
        label "TAX", label "QTY", label "STOCK", label "PROFIT", label "PTS", label "SOLD BY"],
        name.length ≤ 16 := by
      decide
    exact loopsWithin_printTableHeadSection (hshort name hname) h0 (by omega) h
  simp only [List.forall_mem_cons] at hsection
  obtain ⟨hname, hcode, hprice, hdiscount, hpad, htax, hqty, hstock, hprofit, hpts, hsoldBy, -⟩ :=
    hsection
  simp only [tableHead, loopsWithin_flatten, List.forall_mem_cons, loopsWithin_printedIf,
    loopsWithin_text, loopsWithin_nil]
  unfold maxCodeLength maxPriceLength maxProductQuanityLength maxSoldByNameLength
  refine ⟨fun _ => hname _ (by omega) (by omega), fun _ => hcode _ (by omega) (by omega),
    fun _ => hprice _ (by omega) (by omega), fun _ => hdiscount _ (by omega) (by omega),
    fun _ => hpad _ (by omega) (by omega), fun _ => htax _ (by omega) (by omega),
    fun _ => hqty _ (by omega) (by omega), fun _ => hstock _ (by omega) (by omega),
    fun _ => hprofit _ (by omega) (by omega), fun _ => hpts _ (by omega) (by omega),
    fun _ => hsoldBy _ (by omega) (by omega), trivial, by simp⟩

/-- The total is printed in a table that is wide enough for it. -/
theorem loopsWithin_totalLine (h : 55 ≤ width) (total : ℚ) :
    LoopsWithin width (totalLine width total) := by
  have hlen : (label "TOTAL").length = 5 := rfl
  have htotal := floatLength_le total
  have hnonneg := nrLength_nonneg (toLong total) true
  simp only [totalLine, loopsWithin_text, loopsWithin_loop, loopsWithin_nil, and_true, hlen]
  rw [floatLength] at htotal ⊢
  unfold toSizeT
  split_ifs <;> omega

end

/-! ## The whole table -/

/-- The names of the products drawn are no longer than the setting. -/
def NamesFit (maxNameLength : ℤ) (list : List ℤ) (t : Table) : Prop :=
  ∀ code ∈ list, ∀ p, getProductData code t = .ok p → (p.name.length : ℤ) ≤ maxNameLength

/-- So are those of the rows, for names shorter than 2^63. -/
theorem loopsWithin_drawRows {maxNameLength : ℤ} {shown : Tab} {basket : List BasketProduct}
    {stray : ℚ} {list : List ℤ} {t : Table} {pieces : List Piece} (hpos : 0 < maxNameLength)
    (hnames : ∀ r ∈ t, (r.name.length : ℤ) < 2 ^ 63)
    (hfits : maxNameLength + columnsWidth shown < 2 ^ 31)
    (h : drawRows maxNameLength (printedIn shown) basket stray list t = .ok pieces) :
    LoopsWithin (maxNameLength + columnsWidth shown) pieces ↔ NamesFit maxNameLength list t := by
  have hcolumns : 31 ≤ columnsWidth shown := by cases shown <;> decide
  have hwidth : tableWidth maxNameLength (printedIn shown) =
      maxNameLength + columnsWidth shown := by
    rw [tableWidth_printedIn, toInt_of_lt (by omega) hfits]
  induction list generalizing pieces with
  | nil =>
    obtain rfl := Except.ok.inj h
    simp [NamesFit]
  | cons code list ih =>
    unfold drawRows at h
    obtain ⟨p, hp, h⟩ := except_bind_eq_ok.1 h
    obtain ⟨rows, hrows, h⟩ := except_bind_eq_ok.1 h
    obtain rfl := Except.ok.inj h
    obtain ⟨r, hr, -, rfl⟩ := getProductData_eq_ok hp
    have hname : ((productOf r).name.length : ℤ) < 2 ^ 63 := hnames r hr
    have hrow : LoopsWithin (maxNameLength + columnsWidth shown)
        (drawRow maxNameLength (printedIn shown) basket stray (productOf r)) ↔
          ((productOf r).name.length : ℤ) ≤ maxNameLength :=
      loopsWithin_drawRow hpos hname hfits rfl basket stray
    have hline : LoopsWithin (maxNameLength + columnsWidth shown)
        (separator (maxNameLength + columnsWidth shown)) := loopsWithin_separator (by omega)
    simp only [loopsWithin_append, hwidth, hrow, hline, ih hrows, true_and, NamesFit,
      List.forall_mem_cons, hp, Except.ok.injEq, forall_eq']

/-- A bread drawn with three characters a line: the loop behind its name counts up to
`2 ^ 64 - 2`. -/
theorem long_name_never_drawn : ∃ pieces,
    drawProductList 3 .products (printedIn .products) [] 0 [1] [bread] 0 = .ok pieces ∧
      .loop space (2 ^ 64 - 2) ∈ pieces ∧ tableWidth 3 (printedIn .products) = 34 ∧
      ¬LoopsReturn pieces := by
  refine ⟨_, rfl, by decide +kernel, by decide, fun h => ?_⟩
  have hbound := h space (2 ^ 64 - 2) (by decide +kernel)
  norm_num at hbound

/-- **Drawing finishes**, each of its loops after at most as many rounds as the table is
wide, exactly when no name drawn is longer than the setting and the width fits an `int`. -/
theorem draw_finishes_iff (maxNameLength : ℤ) (tab shown : Tab) (basket : List BasketProduct)
    (stray : ℚ) (list : List ℤ) (t : Table) (total : ℚ) (pieces : List Piece)
    (hpos : 0 < maxNameLength) (hint : maxNameLength < 2 ^ 31)
    (hnames : ∀ r ∈ t, (r.name.length : ℤ) < 2 ^ 63)
    (h : drawProductList maxNameLength tab (printedIn shown) basket stray list t total =
      .ok pieces) :
    LoopsWithin (tableWidth maxNameLength (printedIn shown)) pieces ∧ LoopsReturn pieces ↔
      NamesFit maxNameLength list t ∧ maxNameLength + columnsWidth shown < 2 ^ 31 := by
  have hcolumns : 31 ≤ columnsWidth shown ∧ columnsWidth shown ≤ 62 := by
    cases shown <;> decide
  unfold drawProductList at h
  obtain ⟨rows, hrows, h⟩ := except_bind_eq_ok.1 h
  obtain rfl := Except.ok.inj h
  by_cases hfits : maxNameLength + columnsWidth shown < 2 ^ 31
  · have hwidth : tableWidth maxNameLength (printedIn shown) =
        maxNameLength + columnsWidth shown := by
      rw [tableWidth_printedIn, toInt_of_lt (by omega) hfits]
    rw [and_iff_left_of_imp fun h => h.returns (hwidth ▸ hfits), and_iff_left hfits, hwidth,
      ← loopsWithin_drawRows hpos hnames hfits hrows]
    have hwide : 0 ≤ maxNameLength + columnsWidth shown := by omega
    have htitle := loopsWithin_title hwide tab
    have hhead := loopsWithin_tableHead hpos hfits rfl
    have hline := loopsWithin_separator hwide
    have htotal : (printedIn shown).total = true →
        LoopsWithin (maxNameLength + columnsWidth shown)
          (totalLine (maxNameLength + columnsWidth shown) total) := by
      intro hprinted
      have hwide : ∀ shown, (printedIn shown).total = true → 55 ≤ columnsWidth shown := by
        intro shown
        cases shown <;> decide
      exact loopsWithin_totalLine (by linarith [hwide shown hprinted]) total
    simp only [loopsWithin_flatten, List.forall_mem_cons, loopsWithin_printedIf]
    constructor
    · exact fun h => h.2.2.2.1
    · exact fun h => ⟨htitle, hhead, hline, h, htotal, by simp⟩
  · -- the width wrapped, and the line under the head is drawn with it
    refine iff_of_false (fun h => ?_) (fun h => hfits h.2)
    have hwidth := toInt_of_le (x := maxNameLength + columnsWidth shown) (by omega) (by omega)
    rw [tableWidth_printedIn] at h
    have hline := loopsWithin_flatten.1 h.1
      (separator (toInt (maxNameLength + columnsWidth shown))) (by simp)
    have hbound := hline minus _ List.mem_cons_self
    omega

/-- The bread and the milk are drawn. -/
theorem draw_bread : ∃ pieces,
    drawProductList 31 .products (printedIn .products) [] 0 [1, 2] [bread, milk] 0 = .ok pieces ∧
      LoopsReturn pieces := by
  obtain ⟨pieces, hpieces⟩ : ∃ pieces,
      drawProductList 31 .products (printedIn .products) [] 0 [1, 2] [bread, milk] 0 =
        .ok pieces := ⟨_, rfl⟩
  refine ⟨pieces, hpieces, ((draw_finishes_iff 31 .products .products [] 0 [1, 2] [bread, milk] 0
    pieces (by decide) (by decide) (by decide) hpieces).2 ⟨?_, by decide⟩).2⟩
  rintro code hcode p hp
  obtain ⟨r, hr, -, rfl⟩ := getProductData_eq_ok hp
  have hshort : ∀ r ∈ [bread, milk], (r.name.length : ℤ) ≤ 31 := by decide
  exact hshort r hr

end CliPos
