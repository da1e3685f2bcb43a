import CliPos.Model.Database
import CliPos.Model.Menus

/-!
# The texts of `update_stock`

The two statements of `update_stock` as the bytes that are sent to the server.  Names and
taxes are put between quotes as they are.
-/

set_option autoImplicit false

namespace CliPos

open Decimal

/-- A text between quotes. -/
def inQuotes (s : Str) : Str := quote :: (s ++ [quote])

/-- The text of the `UPDATE`. -/
def updateStatement (p : Product) : Str := List.flatten
  [label "UPDATE products SET ",
    label "name = ", inQuotes p.name, label ", ",
    label "code = ", intText p.code, label ", ",
    label "price = ", doubleText p.price, label ", ",
    label "discount = ", intText p.discount, label ", ",
    label "tax = ", inQuotes [p.taxChar], label ", ",
    label "stock = ", doubleText p.stock, label ", ",
    label "price_to_stock = ", doubleText p.priceToStock, label ", ",
    label "sold_by = ", intText p.soldBy.toInt,
    label " WHERE code = ", intText p.code, label ";"]

/-- The text of the `INSERT`. -/
def insertStatement (p : Product) : Str := List.flatten
  [label "INSERT INTO products",
    label "(name, code, price, discount, tax, stock, price_to_stock, sold_by) VALUES (",
    inQuotes p.name, label ", ",
    intText p.code, label ", ",
    doubleText p.price, label ", ",
    intText p.discount, label ", ",
    inQuotes [p.taxChar], label ", ",
    doubleText p.stock, label ", ",
    doubleText p.priceToStock, label ", ",
    intText p.soldBy.toInt, label ");"]

end CliPos
