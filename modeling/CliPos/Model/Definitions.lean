import CliPos.Lib.Decimal

/-!
# The program's data

The types and the global variables of `definitions_and_variables.h`, the key codes of
ncurses, and the reasons a run can stop.

Numbers the program keeps in a `double` (prices, quantities, stocks) are exact
rationals here; `long int` and `int` values are integers.  Texts are strings of bytes.
-/

set_option autoImplicit false

namespace CliPos

open Decimal

/-! ## Keys -/

/-- A key as `getch` returns it: a character code, or an ncurses code from 256 on. -/
abbrev Key := ℤ

/-- Enter, as `getch` returns it. -/
def keyEnter : Key := 10
/-- The tab key. -/
def keyTab : Key := 9
/-- `KEY_DELETE`, the backspace character. -/
def keyDelete : Key := 8
/-- `KEY_ESC`. -/
def keyEsc : Key := 27
/-- `KEY_DOWN`. -/
def keyDown : Key := 258
/-- `KEY_UP`. -/
def keyUp : Key := 259
/-- `KEY_BACKSPACE`. -/
def keyBackspace : Key := 263

/-- The key of a printable character. -/
def charKey (c : Char) : Key := c.toNat

/-- `static_cast<char>(key)`: the low byte of the key code. -/
def charOfKey (key : Key) : Byte := Fin.ofNat 256 (key % 256).toNat

/-- `isprint` in the C locale. -/
def isprint (b : Byte) : Bool := 32 ≤ b.val && b.val ≤ 126

/-- `char` is signed on the target: bytes from 128 on are negative. -/
def signedChar (b : Byte) : ℤ := if b.val < 128 then b.val else b.val - 256

/-- The comma that a name must not hold. -/
def comma : Byte := 44
/-- The quote that ends a text in SQL. -/
def quote : Byte := 39
/-- The sign of a negative number, and the character of the rules. -/
def minus : Byte := 45

/-! ## Machine integers -/

/-- Conversion to `short int`. -/
def toShort (x : ℤ) : ℤ := Int.bmod x 65536

/-- Conversion of a signed integer to `size_t`. -/
def toSizeT (x : ℤ) : ℤ := if x < 0 then x + 2 ^ 64 else x

/-- A number that is not negative is a `size_t` as it is. -/
theorem toSizeT_of_nonneg {x : ℤ} (h : 0 ≤ x) : toSizeT x = x := if_neg (not_lt.2 h)

/-- `v.size() - 1` in `size_t` arithmetic: it wraps for the empty vector. -/
def sizeMinusOne (size : ℕ) : ℤ := toSizeT ((size : ℤ) - 1)

/-! ## Products -/

/-- `enum mesurments`. -/
inductive Mesurments where
  | piece
  | length
  | weight
  deriving DecidableEq, Repr

namespace Mesurments

/-- The enumerator's number. -/
def toInt : Mesurments → ℤ
  | piece => 0
  | length => 1
  | weight => 2

end Mesurments

/-- `to_mesurments`. -/
def toMesurments (n : ℤ) : Mesurments :=
  if n = 0 then .piece else if n = 1 then .length else if n = 2 then .weight else .piece

/-- `struct product`.  `tax` is a `short int`. -/
structure Product where
  name : Str
  code : ℤ
  price : ℚ
  discount : ℤ
  priceAfterDiscount : ℚ
  tax : ℤ
  stock : ℚ
  profit : ℚ
  priceToStock : ℚ
  soldBy : Mesurments
  deriving DecidableEq

/-- The tax as a `char`, as it is printed and written to the table: its low byte. -/
def Product.taxChar (p : Product) : Byte := charOfKey p.tax

/-- `struct basket_product`. -/
structure BasketProduct where
  code : ℤ
  quantity : ℚ
  deriving DecidableEq

/-! ## Global variables -/

/-- `message_section_lines`. -/
def messageSectionLines : ℤ := 2
/-- `max_code_length`. -/
def maxCodeLength : ℤ := 13
/-- `max_product_quanity_length`. -/
def maxProductQuanityLength : ℤ := 8
/-- `max_price_length`. -/
def maxPriceLength : ℤ := 6
/-- `nr_of_selling_options`. -/
def nrOfSellingOptions : ℤ := 3

/-- The tab shown: `PRODUCTS`, `BASKET` or `STOCK`. -/
inductive Tab where
  | products
  | basket
  | stock
  deriving DecidableEq, Repr

/-- The variables the main menu sets: the `shop_data` of `menus.cpp`, the printer settings and
the barcode prefix. -/
structure Settings where
  shopName : Str
  shopCode : Str
  shopAddres : Str
  printerDeviceFile : Str
  maxNameLength : ℤ
  nrOfNewlines : ℤ
  barcodePrefix : Key
  deriving DecidableEq

/-! ## How a run stops -/

/-- The exceptions the program can meet; it handles none. -/
inductive Exception where
  /-- `std::optional::value` without a value. -/
  | badOptionalAccess
  /-- `std::invalid_argument`, of the numeric conversions. -/
  | invalidArgument
  /-- `std::out_of_range`, of the numeric conversions. -/
  | outOfRange
  /-- `res[0][0]` of a result without rows: a null cannot be converted. -/
  | missingRow
  /-- A count that is neither 0 nor 1, converted to `bool`. -/
  | badCount
  /-- The server rejects a statement. -/
  | sqlError
  deriving DecidableEq, Repr

/-- The vector reads whose index nothing checks. -/
inductive Site where
  /-- `codes[i]` in `calculate_visible_product_list`. -/
  | codes
  /-- `basket[i]` in `calculate_visible_product_list`. -/
  | visibleBasket
  /-- `list[selection]` in the commands of the main loop. -/
  | listSelection
  /-- `product_codes[index]` in the search command, `product_codes[i]` in the redraw of a
  table that other clients change. -/
  | productCodesIndex
  /-- `basket[i]` after the search loop of the key `R`. -/
  | basketRemove
  /-- `v[mid]` in `binary_search`. -/
  | searchMid
  /-- `menu.options[i]` in `run_menu`. -/
  | menuOption
  deriving DecidableEq, Repr

/-- Why a run stops. -/
inductive Halt where
  /-- The program waits: for a key, or for the printer. -/
  | waiting
  /-- `main` returned. -/
  | exited
  /-- An exception left `main`. -/
  | thrown (e : Exception)
  /-- A vector was read out of its range. -/
  | undefined (site : Site)
  deriving DecidableEq, Repr

/-- `xs[i]` with a signed index: no value outside the vector. -/
def elementAt {α : Type} (xs : List α) (i : ℤ) : Option α :=
  if 0 ≤ i then xs[i.toNat]? else none

/-- The computations that read keys: they consume the keys typed, or wait for more. -/
abbrev Input := EStateM Halt (List Key)

/-- `getch`. -/
def getch : Input Key
  | [] => .error .waiting []
  | key :: keys => .ok key keys

/-- An exception leaves the program. -/
def throwException {σ α : Type} (e : Exception) : EStateM Halt σ α := throw (.thrown e)

/-- Run a conversion that may throw. -/
def orThrow {σ α : Type} : Except Exception α → EStateM Halt σ α
  | .ok a => pure a
  | .error e => throwException e

/-! ## Facts about the definitions -/

/-- There is an element at the indices from 0 up to the size. -/
theorem elementAt_isSome_iff {α : Type} (xs : List α) (i : ℤ) :
    (elementAt xs i).isSome ↔ 0 ≤ i ∧ i < xs.length := by
  unfold elementAt
  split
  · simp only [Option.isSome_iff_exists, List.getElem?_eq_some_iff]
    constructor
    · rintro ⟨a, h, -⟩
      omega
    · rintro ⟨h0, h⟩
      exact ⟨_, by omega, rfl⟩
  · simp
    omega

/-- An element that was read is one of the list. -/
theorem elementAt_eq_some {α : Type} {xs : List α} {i : ℤ} {a : α}
    (h : elementAt xs i = some a) : a ∈ xs := by
  unfold elementAt at h
  split at h
  · exact List.mem_of_getElem? h
  · cases h

/-- `getch` takes the first key. -/
theorem getch_eq_ok {key : Key} {keys keys' : List Key} :
    getch keys = .ok key keys' ↔ keys = key :: keys' := by
  cases keys <;> simp [getch]

/-- The value of the low byte. -/
theorem val_charOfKey (n : ℤ) : ((charOfKey n).val : ℤ) = n % 256 := by
  show (((n % 256).toNat % 256 : ℕ) : ℤ) = n % 256
  omega

/-- **A character kept in an integer** is read back from it. -/
@[simp] theorem charOfKey_signedChar (b : Byte) : charOfKey (signedChar b) = b := by
  have hb := b.isLt
  have hval := val_charOfKey (signedChar b)
  apply Fin.ext
  unfold signedChar at hval ⊢
  split_ifs at hval ⊢ <;> omega

/-- **A number that one character keeps** is one of the range of a `char`. -/
theorem signedChar_charOfKey_iff (n : ℤ) :
    signedChar (charOfKey n) = n ↔ -128 ≤ n ∧ n ≤ 127 := by
  have hval := val_charOfKey n
  unfold signedChar
  split_ifs <;> omega

/-- The numbers of the measurements are 0, 1 and 2. -/
theorem toInt_toMesurments_iff (n : ℤ) :
    (toMesurments n).toInt = n ↔ n = 0 ∨ n = 1 ∨ n = 2 := by
  unfold toMesurments
  split_ifs <;> simp [Mesurments.toInt] <;> omega

/-- The number of a measurement is read back. -/
@[simp] theorem toMesurments_toInt (m : Mesurments) : toMesurments m.toInt = m := by
  cases m <;> rfl

end CliPos
