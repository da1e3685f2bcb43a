import CliPos.Model.MainLoop
import CliPos.Lib.Logging

/-!
# A redraw among other clients

The redraw of `Model.MainLoop` once more, statement by statement: in a transaction of the
isolation level read committed each statement sees what is committed by then, so each reads
a table of its own.  The log has every place where a row, an entry or a product that the
redraw goes on to use could be missing.
-/

set_option autoImplicit false

namespace CliPos

open Decimal Halting.Logged

/-- The tables that the statements to come will see, in their order. -/
abbrev Snapshots := ℕ → Table

/-- The program at a database that others write, too. -/
structure Shared where
  world : World
  snapshots : Snapshots

/-- What the redraw relies on. -/
inductive RedrawEvent where
  /-- `res[i]` of a result with so many rows. -/
  | row (i rows : ℕ)
  /-- A list function returns so many entries for so many rows. -/
  | list (entries rows : ℕ)
  /-- `xs[i]` of a vector with so many entries. -/
  | entry (i : ℤ) (size : ℕ)
  /-- `get_product_data` of a code, in the table that its statement sees. -/
  | product (code : ℤ) (t : Table)
  deriving DecidableEq

/-- The computations of the redraw. -/
abbrev SharedMain := Halting.Logged Halt Shared RedrawEvent

/-- What the program does without the database. -/
def inWorld {α : Type} (m : Main α) : SharedMain α := fun s =>
  match m s.world with
  | .ok a world => (.ok a { s with world }, [])
  | .error e world => (.error e { s with world }, [])

/-- Execute a statement: the table that it sees. -/
def statement : SharedMain Table := fun s =>
  (.ok (s.snapshots 0) { s with snapshots := fun n => s.snapshots (n + 1) }, [])

/-! ## `database_functions.cpp` -/

/-- `stock_size`. -/
def sharedStockSize : SharedMain ℤ := do
  let t ← statement
  return stockSize t

/-- `get_product_data`. -/
def sharedProductData (code : ℤ) : SharedMain Product := do
  let t ← statement
  emit (.product code t)
  inWorld (orThrow (getProductData code t))

/-- The loop of `code_list` and `name_list`, from the row `i` on, over what is left of the
column: the size is asked for again at every round. -/
def columnLoop {α : Type} (rows : ℕ) : ℕ → List α → SharedMain (List α)
  | i, [] => do
    let size ← sharedStockSize
    if i < size then
      emit (.row i rows)
      -- a row behind the last has no field, and a null cannot be converted
      inWorld (throwException .missingRow)
    else return []
  | i, x :: column => do
    let size ← sharedStockSize
    if i < size then
      emit (.row i rows)
      let rest ← columnLoop rows (i + 1) column
      return x :: rest
    else return []

/-- `code_list` and `name_list`, on the column that each of them fetches. -/
def sharedList {α : Type} (srv : Server) (column : Row → α) : SharedMain (List α) := do
  let t ← statement
  let res := (srv.orderByName t).map column
  let list ← columnLoop res.length 0 res
  emit (.list list.length res.length)
  return list

/-- `code_list`. -/
def sharedCodeList (srv : Server) : SharedMain (List ℤ) := sharedList srv Row.code

/-- `name_list`. -/
def sharedNameList (srv : Server) : SharedMain (List Str) := sharedList srv Row.name

/-! ## `calculate_visible_product_list` -/

/-- `current_list_size`. -/
def sharedListSize : SharedMain ℤ := do
  let s ← get
  match s.world.currentTab with
  | .basket => return s.world.basket.length
  | .products | .stock => sharedStockSize

/-- `visible_product_list.end`; the size is asked for again when all of it fits. -/
def sharedVisibleEnd (lines : ℤ) : SharedMain ℤ := do
  let s ← get
  let size ← sharedListSize
  if maxProductsNr lines s.world.currentTab ≥ size then sharedListSize
  else return maxProductsNr lines s.world.currentTab + s.world.start

/-- The loop `for (i = start; i < end; i++) list.push_back(xs[i])`, with the number of
rounds left. -/
def sharedSlice (site : Site) (xs : List ℤ) : ℤ → ℕ → SharedMain (List ℤ)
  | _, 0 => return []
  | i, n + 1 => do
    emit (.entry i xs.length)
    let x ← inWorld (readAt site xs i)
    let rest ← sharedSlice site xs (i + 1) n
    return x :: rest

/-- The last loop of `calculate_visible_product_list`, over the list of the tab. -/
def sharedTabSlice (codes : List ℤ) (w : World) : SharedMain (List ℤ) :=
  let rounds := (w.stop - w.start).toNat
  match w.currentTab with
  | .products | .stock => sharedSlice .codes codes w.start rounds
  | .basket => sharedSlice .visibleBasket (w.basket.map BasketProduct.code) w.start rounds

/-- `calculate_visible_product_list`, once `visible_product_list.end` is set. -/
def sharedWindow (srv : Server) : SharedMain (List ℤ) := do
  let codes ← sharedCodeList srv
  let w ← inWorld get
  sharedTabSlice codes w

/-- `calculate_visible_product_list`. -/
def sharedVisibleList (srv : Server) (lines : ℤ) : SharedMain (List ℤ) := do
  let stop ← sharedVisibleEnd lines
  inWorld (modify fun w => { w with stop })
  sharedWindow srv

/-! ## The redraw -/

/-- The loop over `product_codes`, from the entry `i` on: the size is asked for again at
every round. -/
def sharedProducts (size : ℕ) : ℕ → List ℤ → SharedMain Unit
  | i, [] => do
    let rows ← sharedStockSize
    if i < rows then
      emit (.entry i size)
      inWorld (throw (.undefined .productCodesIndex))
    else return ()
  | i, code :: codes => do
    let rows ← sharedStockSize
    if i < rows then
      emit (.entry i size)
      let _ ← sharedProductData code
      sharedProducts size (i + 1) codes
    else return ()

/-- The loop that adds the basket up. -/
def sharedTotal : List BasketProduct → ℚ → SharedMain ℚ
  | [], total => return total
  | b :: basket, total => do
    let product ← sharedProductData b.code
    sharedTotal basket (total + product.priceAfterDiscount * b.quantity)

/-- The reads of `draw_product_list`. -/
def sharedDraw : List ℤ → SharedMain Unit
  | [] => return ()
  | code :: codes => do
    let _ ← sharedProductData code
    sharedDraw codes

/-- The redraw, once both lists are there. -/
def sharedReads (codes list : List ℤ) : SharedMain Unit := do
  sharedProducts codes.length 0 codes
  let w ← inWorld get
  let total ← sharedTotal w.basket 0
  inWorld (modify fun w => { w with total })
  sharedDraw list

/-- The redraw at the top of the loop, up to the `getch` that ends it. -/
def sharedRedraw (srv : Server) (lines : ℤ) : SharedMain Unit := do
  inWorld (modify fun w => { w with list := [] })
  let codes ← sharedCodeList srv
  inWorld (modify fun w => { w with productCodes := codes })
  let list ← sharedVisibleList srv lines
  inWorld (modify fun w => { w with list, indexedSelection := w.start + w.selection })
  sharedReads codes list
  let key ← inWorld (withKeys getch)
  inWorld (modify fun w => { w with key })

end CliPos
