import CliPos.Model.Menus
import CliPos.Model.Database

/-!
# Drawing the table

`draw_product_list`, as the texts it prints and the loops that print one character over and
over, in order.  The bounds of these loops are kept in the arithmetic of the code: some are
differences of `int`s, others of an `int` and the length of a string, which is a `size_t`.
Colours are left out.
-/

set_option autoImplicit false

namespace CliPos

open Decimal

/-! ## Numbers -/

/-- Conversion to `int`. -/
def toInt (x : ℤ) : ℤ := Int.bmod x (2 ^ 32)

/-- A number in the range of an `int` is an `int` as it is. -/
theorem toInt_of_lt {x : ℤ} (h0 : -2 ^ 31 ≤ x) (h : x < 2 ^ 31) : toInt x = x := by
  unfold toInt
  rw [Int.bmod_def]
  omega

/-- A sum of `int`s just past the largest one is negative. -/
theorem toInt_of_le {x : ℤ} (h0 : 2 ^ 31 ≤ x) (h : x < 2 ^ 32) : toInt x = x - 2 ^ 32 := by
  unfold toInt
  rw [Int.bmod_def]
  omega

/-- Conversion of a `double` to `long int`.  Out of range the language leaves the result
open; here it is some number of the type. -/
def toLong (x : ℚ) : ℤ := Int.bmod (truncate x) (2 ^ 64)

/-- `max_sold_by_name_length`. -/
def maxSoldByNameLength : ℤ := 7
/-- `nr_decimal_points`. -/
def nrDecimalPoints : ℤ := 2

/-- `nr_length`. -/
def nrLength (number : ℤ) (isFloat : Bool) : ℤ :=
  if isFloat then (intText number).length + nrDecimalPoints + 1 else (intText number).length

/-- `nr_length` of a `double`, which is converted to `long int` first. -/
def floatLength (x : ℚ) : ℤ := nrLength (toLong x) true

/-! ## What is printed -/

/-- A blank. -/
def space : Byte := 32
/-- The line between two columns. -/
def pipe : Byte := 124
/-- The end of a line. -/
def newline : Byte := 10

/-- A part of the drawing: a text, or a loop `for (int j = 0; j < bound; j++)` that prints
one character. -/
inductive Piece where
  | text (s : Str)
  | loop (b : Byte) (bound : ℤ)
  deriving DecidableEq

/-- `text::info.tabs`. -/
def tabName : Tab → Str
  | .products => label "PRODUCTS"
  | .basket => label "BASKET"
  | .stock => label "STOCK"

/-- `text::info.sold_by`. -/
def soldByName : Mesurments → Str
  | .piece => label "BUC"
  | .length => label "KG"
  | .weight => label "M"

/-- The parameters `print_name`, `print_code`, ... of `draw_product_list`. -/
structure Printed where
  name : Bool
  code : Bool
  price : Bool
  discount : Bool
  priceAfterDiscount : Bool
  tax : Bool
  qty : Bool
  stock : Bool
  profit : Bool
  priceToStock : Bool
  soldBy : Bool
  total : Bool
  deriving DecidableEq, Repr

/-- What `main` prints in a tab; the search prints the columns of the products tab. -/
def printedIn : Tab → Printed
  | .products =>
    { name := true, code := true, price := true, discount := true, priceAfterDiscount := false,
      tax := true, qty := false, stock := false, profit := false, priceToStock := false,
      soldBy := false, total := false }
  | .basket =>
    { name := true, code := true, price := true, discount := true, priceAfterDiscount := true,
      tax := true, qty := true, stock := false, profit := false, priceToStock := false,
      soldBy := true, total := true }
  | .stock =>
    { name := true, code := true, price := true, discount := true, priceAfterDiscount := false,
      tax := true, qty := false, stock := true, profit := true, priceToStock := true,
      soldBy := true, total := false }

/-- What is printed only when a parameter asks for it. -/
def printedIf {α : Type} (shown : Bool) (pieces : List α) : List α := if shown then pieces else []

/-! ## The parts of the table -/

/-- `table_width`. -/
def tableWidth (maxNameLength : ℤ) (f : Printed) : ℤ :=
  toInt (List.sum (List.flatten
    [printedIf f.name [maxNameLength + 1], printedIf f.code [maxCodeLength + 1],
      printedIf f.price [maxPriceLength + 1], printedIf f.discount [3 + 1],
      printedIf f.priceAfterDiscount [maxPriceLength + 1], printedIf f.tax [3 + 1],
      printedIf f.qty [maxProductQuanityLength + 1],
      printedIf f.stock [maxProductQuanityLength + 1], printedIf f.profit [maxPriceLength + 1],
      printedIf f.priceToStock [maxPriceLength + 1], printedIf f.soldBy [maxSoldByNameLength + 1],
      [1]]))

/-- The line with the name of the tab. -/
def title (width : ℤ) (tab : Tab) : List Piece :=
  let padding := truncate ((width : ℚ) / 2 - ((tabName tab).length : ℚ) / 2)
  [.loop minus padding, .text (tabName tab), .loop minus padding] ++
    (if width.tmod 2 ≠ 0 then [.text [minus]] else []) ++ [.text [newline]]

/-- `print_table_head_section`. -/
def printTableHeadSection (name : Str) (contentSize : ℤ) : List Piece :=
  let name := if name.length % 2 = 1 ∧ contentSize.tmod 2 ≠ 1 then name ++ [space] else name
  let padding := toInt (toSizeT (contentSize - name.length) / 2)
  [.text [pipe], .loop space padding, .text name, .loop space padding]

/-- The line with the names of the columns. -/
def tableHead (maxNameLength : ℤ) (f : Printed) : List Piece := List.flatten
  [printedIf f.name (printTableHeadSection (label "NAME") maxNameLength),
    printedIf f.code (printTableHeadSection (label "UPC") maxCodeLength),
    printedIf f.price (printTableHeadSection (label "PRICE") maxPriceLength),
    printedIf f.discount (printTableHeadSection (label "DIS") 3),
    printedIf f.priceAfterDiscount (printTableHeadSection (label "PAD") maxPriceLength),
    printedIf f.tax (printTableHeadSection (label "TAX") 3),
    printedIf f.qty (printTableHeadSection (label "QTY") maxProductQuanityLength),
    printedIf f.stock (printTableHeadSection (label "STOCK") maxProductQuanityLength),
    printedIf f.profit (printTableHeadSection (label "PROFIT") maxPriceLength),
    printedIf f.priceToStock (printTableHeadSection (label "PTS") maxPriceLength),
    printedIf f.soldBy (printTableHeadSection (label "SOLD BY") maxSoldByNameLength),
    [.text [pipe, newline]]]

/-- The line between two rows. -/
def separator (width : ℤ) : List Piece := [.loop minus width, .text [newline]]

/-- A column of a row: its content, the loop behind it, and the pipe. -/
def cell (content : Str) (bound : ℤ) : List Piece :=
  [.text content, .loop space bound, .text [pipe]]

/-- A column with a number of two decimals. -/
def floatCell (size : ℤ) (x : ℚ) : List Piece := cell (fixedText 2 x) (size - floatLength x)

/-- The quantity column: the loop over the basket stops at the entry of the code, or behind
the last one, where it reads what happens to be there. -/
def quantityCell (basket : List BasketProduct) (stray : ℚ) (code : ℤ) : List Piece :=
  match basket.find? fun b => b.code = code with
  | some b => floatCell maxProductQuanityLength b.quantity
  | none => cell [] (maxProductQuanityLength - floatLength stray)

/-- The row of a product. -/
def drawRow (maxNameLength : ℤ) (f : Printed) (basket : List BasketProduct) (stray : ℚ)
    (p : Product) : List Piece := List.flatten
  [[.text [pipe]],
    printedIf f.name (cell p.name (toSizeT (maxNameLength - p.name.length))),
    printedIf f.code (cell (intText p.code) (maxCodeLength - nrLength p.code false)),
    printedIf f.price (floatCell maxPriceLength p.price),
    printedIf f.discount (cell (intText p.discount) (3 - nrLength p.discount false)),
    printedIf f.priceAfterDiscount (floatCell maxPriceLength p.priceAfterDiscount),
    printedIf f.tax [.text [space, p.taxChar, space, pipe]],
    printedIf f.qty (quantityCell basket stray p.code),
    printedIf f.stock (floatCell maxProductQuanityLength p.stock),
    printedIf f.profit (floatCell maxPriceLength p.profit),
    printedIf f.priceToStock (floatCell maxPriceLength p.priceToStock),
    printedIf f.soldBy (cell (soldByName p.soldBy)
      (toSizeT (maxSoldByNameLength - (soldByName p.soldBy).length))),
    [.text [newline]]]

/-- The line with the total. -/
def totalLine (width : ℤ) (total : ℚ) : List Piece :=
  [.text (pipe :: label "TOTAL"),
    .loop space (toSizeT (width - 3 - ((label "TOTAL").length + floatLength total))),
    .text (fixedText 2 total), .text [space, pipe, newline], .loop minus width]

/-- The rows, each product read before its row is printed. -/
def drawRows (maxNameLength : ℤ) (f : Printed) (basket : List BasketProduct) (stray : ℚ) :
    List ℤ → Table → Except Exception (List Piece)
  | [], _ => .ok []
  | code :: list, t => do
    let p ← getProductData code t
    let rows ← drawRows maxNameLength f basket stray list t
    return drawRow maxNameLength f basket stray p ++
      (separator (tableWidth maxNameLength f) ++ rows)

/-- `draw_product_list`. -/
def drawProductList (maxNameLength : ℤ) (tab : Tab) (f : Printed) (basket : List BasketProduct)
    (stray : ℚ) (list : List ℤ) (t : Table) (total : ℚ) : Except Exception (List Piece) := do
  let width := tableWidth maxNameLength f
  let rows ← drawRows maxNameLength f basket stray list t
  return List.flatten [title width tab, tableHead maxNameLength f, separator width, rows,
    printedIf f.total (totalLine width total)]

end CliPos
