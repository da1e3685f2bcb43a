import CliPos.Model.InputString
import CliPos.Model.Database

/-!
# The product form

`add_modify_criteria`, one prompt of the form, and `add_modify_product`, which asks for
every field of a product and saves the answers.  The form reads keys and the products
table and touches nothing else of the program.
-/

set_option autoImplicit false

namespace CliPos

open Decimal

/-! ## One prompt -/

/-- A text longer than `max_size` is cut to it, and the program waits for a key. -/
def cutToSize (maxSize : ℤ) (output : Str) : Input Str :=
  if toSizeT maxSize < output.length then do
    let _ ← getch
    return output.take maxSize.toNat
  else return output

/-- `add_modify_criteria`.  A text with a comma is refused and asked for again; each
attempt reads a key, so `fuel` above the number of keys is never used up. -/
def addModifyCriteria (placeholder : Str) (modify : Bool) (maxSize : ℤ) :
    ℕ → Input (Option Str)
  | 0 => throw .waiting
  | fuel + 1 => do
    let placeholder := if modify then placeholder else []
    match ← getString placeholder (toShort maxSize) with
    | none => return none
    | some text =>
      let output ← cutToSize maxSize text
      if comma ∈ output then
        let _ ← getch
        match ← addModifyCriteria placeholder modify maxSize fuel with
        -- `auto_output.value()` on the result of the repeated prompt
        | none => throwException .badOptionalAccess
        | some again => return some (if again = [] then [49] else again)
      else return some (if output = [] then [49] else output)

/-- One field of the form: `auto x = add_modify_criteria(...); if (!x) return;`. -/
def ask {α : Type} (placeholder : Str) (modify : Bool) (maxSize : ℤ)
    (next : Str → Input (Option α)) : Input (Option α) := do
  match ← fun keys => addModifyCriteria placeholder modify maxSize (keys.length + 1) keys with
  | none => return none
  | some answer => next answer

/-! ## The selling unit -/

/-- The selection loop over the selling units; ESC cancels. -/
def soldByLoop : List Key → ℤ → EStateM.Result Halt (List Key) (Option ℤ)
  | [], _ => .error .waiting []
  | key :: keys, selection =>
    if key = keyUp ∨ key = charKey 'k' then
      soldByLoop keys (if selection ≠ 0 then selection - 1 else nrOfSellingOptions - 1)
    else if key = keyDown ∨ key = charKey 'j' then
      soldByLoop keys (if selection < nrOfSellingOptions - 1 then selection + 1 else 0)
    else if key = keyEnter then .ok (some selection) keys
    else if key = keyEsc then .ok none keys
    else soldByLoop keys selection

/-! ## The form -/

/-- The answers of the form, as typed. -/
structure Answers where
  name : Str
  code : Str
  price : Str
  discount : Str
  tax : Str
  stock : Str
  priceToStock : Str
  selection : ℤ
  deriving DecidableEq

/-- The product that the answers describe.  `profit` is recomputed;
`price_after_discount` keeps the value read from the table. -/
def Answers.toProduct (old : Product) (a : Answers) : Except Exception Product := do
  let code ← stol (removeNonNr a.code)
  let price ← stod (removeNonNr a.price)
  let discount ← stod (removeNonNr a.discount)
  let stock ← stod (removeNonNr a.stock)
  let priceToStock ← stod (removeNonNr a.priceToStock)
  return { old with
    name := a.name, code, price, discount := truncate discount,
    tax := signedChar (a.tax.headD 0), stock, priceToStock, profit := price - priceToStock,
    soldBy := toMesurments a.selection }

/-- The prompts of `add_modify_product`, on the product read from the table; nothing when
one of them is cancelled. -/
def formAnswers (maxNameLength : ℤ) (modify : Bool) (p : Product) : Input (Option Answers) :=
  ask p.name modify maxNameLength fun name =>
  ask (intText p.code) modify (maxCodeLength + 1) fun code =>
  ask (doubleText p.price) modify maxPriceLength fun price =>
  ask (intText p.discount) modify 2 fun discount =>
  ask [p.taxChar] modify 3 fun tax =>
  ask (doubleText p.stock) modify maxProductQuanityLength fun stock =>
  ask (doubleText p.priceToStock) modify maxPriceLength fun priceToStock => do
    match ← fun keys => soldByLoop keys p.soldBy.toInt with
    | none => return none
    | some selection =>
      return some { name, code, price, discount, tax, stock, priceToStock, selection }

/-- `add_modify_product`; it returns the products table as it leaves it. -/
def addModifyProduct (srv : Server) (maxNameLength : ℤ) (productCode : ℤ) (modify : Bool)
    (t : Table) : Input Table := do
  let p ← orThrow (getProductData productCode t)
  match ← formAnswers maxNameLength modify p with
  | none => return t
  | some answers =>
    let p ← orThrow (answers.toProduct p)
    orThrow (updateStock srv p t)

end CliPos
