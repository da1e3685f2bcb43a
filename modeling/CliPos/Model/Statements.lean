import CliPos.Lib.FirstInsert
import CliPos.Model.SqlText

/-!
# What the statements write and what is read back

The two statements of `update_stock` by the columns they name and the values they give
them, each in its own order, and `get_product_data` and `get_tax_rates` by the positions they
read.  The tables are assumed to have their columns in the order of those positions.
-/

set_option autoImplicit false

namespace CliPos

open Decimal

/-! ## Columns and values -/

/-- The columns of the products table that the program names. -/
inductive Column where
  | name
  | code
  | price
  | discount
  | tax
  | stock
  | priceToStock
  | soldBy
  deriving DecidableEq, Repr

namespace Column

/-- The column's name in a statement. -/
def text : Column → Str
  | name => label "name"
  | code => label "code"
  | price => label "price"
  | discount => label "discount"
  | tax => label "tax"
  | stock => label "stock"
  | priceToStock => label "price_to_stock"
  | soldBy => label "sold_by"

end Column

/-- The order of the columns in a `SELECT *`. -/
def columns : List Column :=
  [.name, .code, .price, .discount, .tax, .stock, .priceToStock, .soldBy]

/-- A value in a statement or a result. -/
inductive Value where
  | text (s : Str)
  | integer (z : ℤ)
  | decimal (x : ℚ)
  deriving DecidableEq

namespace Value

/-- The value as `update_stock` writes it into a statement. -/
def literal : Value → Str
  | text s => inQuotes s
  | integer z => intText z
  | decimal x => doubleText x

/-- `as<string>()`. -/
def asString : Value → Option Str
  | text s => some s
  | _ => none

/-- `as<long int>()`. -/
def asLong : Value → Option ℤ
  | integer z => some z
  | _ => none

/-- `as<short int>()`: a number that does not fit is refused. -/
def asShort : Value → Option ℤ
  | integer z => if -32768 ≤ z ∧ z ≤ 32767 then some z else none
  | _ => none

/-- `as<double>()`. -/
def asDouble : Value → Option ℚ
  | decimal x => some x
  | _ => none

end Value

namespace Row

/-- The value of a column. -/
def value (r : Row) : Column → Value
  | .name => .text r.name
  | .code => .integer r.code
  | .price => .decimal r.price
  | .discount => .integer r.discount
  | .tax => .text r.tax
  | .stock => .decimal r.stock
  | .priceToStock => .decimal r.priceToStock
  | .soldBy => .integer r.soldBy

/-- `res[0][i]`, of a result that starts with the row. -/
def field (r : Row) (i : ℕ) : Option Value := columns[i]?.map r.value

/-- The row after a column was given a value.  Of a number with decimals the statement
holds its text, with six of them. -/
def set (r : Row) : Column → Value → Row
  | .name, .text s => { r with name := s }
  | .code, .integer z => { r with code := z }
  | .price, .decimal x => { r with price := sixDecimals x }
  | .discount, .integer z => { r with discount := z }
  | .tax, .text s => { r with tax := s }
  | .stock, .decimal x => { r with stock := sixDecimals x }
  | .priceToStock, .decimal x => { r with priceToStock := sixDecimals x }
  | .soldBy, .integer z => { r with soldBy := z }
  | _, _ => r

/-- The row after a list of assignments. -/
def assign (r : Row) (assignments : List (Column × Value)) : Row :=
  assignments.foldl (fun r a => r.set a.1 a.2) r

end Row

/-! ## The statements -/

/-- What the `UPDATE` sets. -/
def updateAssignments (p : Product) : List (Column × Value) :=
  [(.name, .text p.name), (.code, .integer p.code), (.price, .decimal p.price),
    (.discount, .integer p.discount), (.tax, .text [p.taxChar]), (.stock, .decimal p.stock),
    (.priceToStock, .decimal p.priceToStock), (.soldBy, .integer p.soldBy.toInt)]

/-- The columns of the `INSERT`. -/
def insertColumns : List Column :=
  [.name, .code, .price, .discount, .tax, .stock, .priceToStock, .soldBy]

/-- The values of the `INSERT`. -/
def insertValues (p : Product) : List Value :=
  [.text p.name, .integer p.code, .decimal p.price, .integer p.discount, .text [p.taxChar],
    .decimal p.stock, .decimal p.priceToStock, .integer p.soldBy.toInt]

/-! ## Reading a product -/

/-- The body of `get_product_data`, on the first row of its result. -/
def readProduct (r : Row) : Option Product := do
  let name ← (← r.field 0).asString
  let code ← (← r.field 1).asLong
  let price ← (← r.field 2).asDouble
  let discount ← (← r.field 3).asShort
  let tax ← (← r.field 4).asString
  let stock ← (← r.field 5).asDouble
  let priceToStock ← (← r.field 6).asDouble
  let soldBy ← (← r.field 7).asShort
  return {
    name, code, price, discount
    priceAfterDiscount := price - price / 100 * discount
    tax := signedChar (tax.headD 0)
    stock, priceToStock
    profit := price - priceToStock
    soldBy := toMesurments soldBy }

/-- `get_product_data`, with the conversions of its fields. -/
def readProductData (code : ℤ) (t : Table) : Option Product := do
  readProduct (← t.find? fun r => r.code = code)

/-! ## The tax rates -/

/-- A row of the table of tax rates. -/
structure TaxRate where
  taxChar : Str
  rate : ℤ
  deriving DecidableEq

namespace TaxRate

/-- `res[i][column]`, of the row `i`. -/
def field (r : TaxRate) : ℕ → Option Value
  | 0 => some (.text r.taxChar)
  | 1 => some (.integer r.rate)
  | _ => none

end TaxRate

/-- `ORDER BY tax_char ASC`, an order of texts that is the server's. -/
structure TaxOrder where
  orderByTaxChar : List TaxRate → List TaxRate
  perm : ∀ rates, (orderByTaxChar rates).Perm rates

/-- `map<char, short int>`. -/
abbrev TaxRates := AList fun _ : Byte => ℤ

/-- `sizeof(res)`: a result is three shared pointers and an enumerator, filled up to eight
bytes. -/
def sizeofResult : ℕ := 3 * 16 + 8

/-- What `get_tax_rates` inserts in round `i`.  A row behind the result has null fields, and
a null cannot be converted. -/
def readTaxRate (res : List TaxRate) (i : ℕ) : Option (Byte × ℤ) := do
  let r ← res[i]?
  let taxChar ← (← r.field 0).asString
  let rate ← (← r.field 1).asShort
  return (taxChar.headD 0, rate)

/-- The loop of `get_tax_rates`, from the index `i` on, with the number of rounds left. -/
def taxRatesLoop (res : List TaxRate) : (rounds i : ℕ) → TaxRates → Option TaxRates
  | 0, _, map => some map
  | rounds + 1, i, map => do
    let (c, rate) ← readTaxRate res i
    taxRatesLoop res rounds (i + 1) (FirstInsert.insertNew map c rate)

/-- The bound `(sizeof(res) / 8) - 1` of that loop. -/
def taxRatesBound (sizeofRes : ℕ) : ℤ := toSizeT ((sizeofRes / 8 : ℕ) - 1)

/-- `get_tax_rates`; there is no result when an exception leaves it. -/
def getTaxRates (order : TaxOrder) (sizeofRes : ℕ) (rates : List TaxRate) : Option TaxRates :=
  taxRatesLoop (order.orderByTaxChar rates) (taxRatesBound sizeofRes).toNat 0 ∅

end CliPos
