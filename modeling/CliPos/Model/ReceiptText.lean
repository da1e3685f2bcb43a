import CliPos.Model.Drawing
import CliPos.Model.Receipt

/-!
# The bytes of a receipt

The string `data` that `print_receipt` builds and writes to the printer.  Its command
sequences are string literals, and a literal that is appended as a C string ends at its
first NUL byte.
-/

set_option autoImplicit false

namespace CliPos

open Decimal

/-- The byte that starts a command of the printer. -/
def esc : Byte := 27
/-- The byte that ends a C string. -/
def nul : Byte := 0

/-- A string literal used as a C string. -/
def cString (literal : Str) : Str := literal.takeWhile (· ≠ nul)

/-- `append_nr`: nothing for a negative number. -/
def appendNr (i : ℤ) (str : Str) : Str := List.flatten (List.replicate i.toNat str)

/-- `"\x1b\x40"`. -/
def initPrinter : Str := cString [esc, 64]
/-- `"\x1b\x61\01"`. -/
def centred : Str := cString [esc, 97, 1]
/-- `"\x1b\x40\x1b\x61\x00"`. -/
def initLeft : Str := cString [esc, 64, esc, 97, nul]
/-- `"\x1b\x21\x20"`. -/
def wideText : Str := cString [esc, 33, 32]

/-! ## The texts -/

/-- `struct shop_data`.  Its header defines it once for each file that includes it. -/
structure ShopData where
  name : Str
  code : Str
  addres : Str

/-- The `shop_data` of `main.cpp`, which nothing sets: the menu sets that of `menus.cpp`. -/
def shopData : ShopData where
  name := label "Product inc"
  code := label "123456789012"
  addres := label "random stret nr 56 random city, country"

/-- The shop data at the top. -/
def headerText (shop : ShopData) : Str := List.flatten
  [shop.name, [newline], shop.addres, [newline], label "CUI: ", shop.code,
    [newline, newline, newline]]

/-- A line of `max_name_length + 1` dashes. -/
def ruleLine (maxNameLength : ℤ) : Str :=
  appendNr (toInt (maxNameLength + 1)) [minus] ++ [newline]

/-- `std::format("{0:.2f} x {1:.3f} {2:s} = {3:.2f}", ...)`. -/
def itemDetail (l : ReceiptLine) : Str := List.flatten
  [fixedText 2 l.product.price, label " x ", fixedText 3 l.quantity, label " ",
    soldByName l.product.soldBy, label " = ", fixedText 2 l.amount]

/-- The two lines of an item.  Both paddings are differences with the length of a string,
handed to `append_nr` as an `int`. -/
def itemText (maxNameLength : ℤ) (l : ReceiptLine) : Str := List.flatten
  [l.product.name, appendNr (toInt (toSizeT (l.product.name.length - maxNameLength))) [space],
    [newline], label "  ", itemDetail l,
    appendNr (toInt (toSizeT (maxNameLength - (4 + (itemDetail l).length)))) [space],
    [l.product.taxChar], [newline]]

/-- The discount line, where there is one. -/
def discountText (l : ReceiptLine) : Str :=
  match l.discountLine with
  | none => []
  | some discount => List.flatten
    [label "DISCOUNT", label " ", intText l.product.discount, label "%: -", fixedText 2 discount,
      [newline]]

/-- The items, each with a rule under it. -/
def itemsText (maxNameLength : ℤ) (lines : List ReceiptLine) : Str :=
  lines.flatMap fun l =>
    itemText maxNameLength l ++ (discountText l ++ ruleLine maxNameLength)

/-- The total. -/
def totalText (total : ℚ) : Str := List.flatten
  [label "TOTAL", label ": ", fixedText 2 total, [newline]]

/-- `data`; the program prints it with `shopData`. -/
def receiptData (shop : ShopData) (s : Settings) (r : Receipt) : Str := List.flatten
  [initPrinter, centred, headerText shop, initLeft, ruleLine s.maxNameLength,
    itemsText s.maxNameLength r.lines, wideText, totalText r.total, initPrinter,
    appendNr s.nrOfNewlines [newline]]

end CliPos
