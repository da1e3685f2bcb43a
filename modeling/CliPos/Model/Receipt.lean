import CliPos.Model.Database

/-!
# Printing a receipt

`print_receipt`: what a receipt shows, and the attempts to send it to the printer.  The
layout of the text is that of `Model.ReceiptText`.
-/

set_option autoImplicit false

namespace CliPos

/-- One item of a receipt: the product read at printing time and the quantity sold. -/
structure ReceiptLine where
  product : Product
  quantity : ℚ
  deriving DecidableEq

namespace ReceiptLine

/-- The amount on the item's line. -/
def amount (l : ReceiptLine) : ℚ := l.product.price * l.quantity

/-- The discount line: printed only when the product has a discount. -/
def discountLine (l : ReceiptLine) : Option ℚ :=
  if l.product.discount ≠ 0 then
    some (l.product.price / 100 * l.product.discount * l.quantity)
  else none

/-- The amount on the discount line, 0 where none is printed. -/
def printedDiscount (l : ReceiptLine) : ℚ := l.discountLine.getD 0

end ReceiptLine

/-- A receipt: its items and the total under them. -/
structure Receipt where
  lines : List ReceiptLine
  total : ℚ
  deriving DecidableEq

/-- The items of a receipt, each read from the table. -/
def receiptLines : List BasketProduct → Table → Except Exception (List ReceiptLine)
  | [], _ => .ok []
  | b :: basket, t => do
    let product ← getProductData b.code t
    let lines ← receiptLines basket t
    return { product, quantity := b.quantity } :: lines

/-- What `write` did with a receipt. -/
inductive WriteResult where
  | failed
  | short
  | full
  deriving DecidableEq, Repr

/-- What the printer device does in one attempt: whether `open` succeeds, and what
`write` does then. -/
structure Attempt where
  opened : Bool
  written : WriteResult
  deriving DecidableEq

/-- The printer device: what it will do, and what was sent to it: every receipt handed to
`write`, also where `write` failed or took only a part, each with what `write` did. -/
structure Printer where
  results : List Attempt
  output : List (Receipt × WriteResult)
  deriving DecidableEq

/-- `print_receipt`, with the basket, the products table and the total it reads.  The
result of `write` is not looked at, and a reprint is a call of the function itself. -/
def printReceipt (basket : List BasketProduct) (t : Table) (total : ℚ) :
    List Key → Printer → EStateM.Result Halt (List Key × Printer) Bool
  | keys, printer =>
    if basket = [] then
      match keys with
      | [] => .error .waiting ([], printer)
      | _ :: keys => .ok false (keys, printer)
    else
      match printer.results with
      | [] => .error .waiting (keys, printer)
      | attempt :: results =>
        if attempt.opened then
          match receiptLines basket t with
          | .error e => .error (.thrown e) (keys, printer)
          | .ok lines =>
            let printer : Printer :=
              { results, output := printer.output ++ [(⟨lines, total⟩, attempt.written)] }
            match keys with
            | [] => .error .waiting ([], printer)
            | key :: keys =>
              -- the answer to "Reprint receipt?"
              if key = charKey 'y' then printReceipt basket t total keys printer
              else .ok true (keys, printer)
        else
          match keys with
          | [] => .error .waiting ([], { printer with results })
          | _ :: keys => .ok false (keys, { printer with results })

/-- The total of a basket: `price_after_discount * quantity`, item by item. -/
def basketTotal : List BasketProduct → Table → ℚ → Except Exception ℚ
  | [], _, total => .ok total
  | b :: basket, t, total => do
    let product ← getProductData b.code t
    basketTotal basket t (total + product.priceAfterDiscount * b.quantity)

end CliPos
