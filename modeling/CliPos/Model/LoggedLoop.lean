import CliPos.Model.MainLoop
import CliPos.Lib.Works

/-!
# The main loop with its transactions

The loop of `Model.MainLoop` once more, now with the `work` objects it opens on the
connection: where each is constructed, which statements are executed on it, where it is
committed, and the block at whose end it is destroyed.  What the loop does besides is taken
from `Model.MainLoop`.
-/

set_option autoImplicit false

namespace CliPos

open Halting.Logged Works

/-- The `work` objects of the loop. -/
inductive Work where
  | tx
  | txRemove
  | tx2
  | tx3
  | tx4
  | txn
  | tx6
  | tx8
  | tx5
  | txSearch
  | txTest
  | txCheckout
  | tx7
  | txScanner
  deriving DecidableEq, Repr

/-- The computations of the loop with their transactions. -/
abbrev LoggedMain := Halting.Logged Halt World (WorkEvent Work)

/-- Statements that only read. -/
def statements (work : Work) (n : ℕ) : LoggedMain Unit := emitTimes n (.exec work)

/-! ## How many statements a function executes -/

/-- `current_list_size`: `stock_size`, but in the basket tab. -/
def currentListSizeStatements : Tab → ℕ
  | .basket => 0
  | .products | .stock => 1

/-- `code_list` and `name_list`: the `SELECT`, and a `stock_size` at each test of the
loop. -/
def listStatements (t : Table) : ℕ := 1 + (t.length + 1)

/-- `calculate_visible_product_list`: the size is asked for again when all of it fits. -/
def visibleListStatements (lines : ℤ) (w : World) : ℕ :=
  (if maxProductsNr lines w.currentTab ≥ currentListSize w then 2 else 1) *
    currentListSizeStatements w.currentTab + listStatements w.table

/-- A loop with `get_product_data` in it: the statements of a round, up to the first code
without a row, and the ones at the end of the loop. -/
def readStatements (round last : ℕ) : List ℤ → Table → ℕ
  | [], _ => last
  | code :: codes, t =>
    match getProductData code t with
    | .error _ => round
    | .ok _ => round + readStatements round last codes t

/-- `print_receipt`: a `get_product_data` for each item, at every attempt. -/
def printStatements (basket : List BasketProduct) (t : Table) : List Key → List Attempt → ℕ
  | _, [] => 0
  | keys, attempt :: results =>
    if basket = [] ∨ attempt.opened = false then 0
    else
      readStatements 1 0 (basket.map BasketProduct.code) t +
        match receiptLines basket t, keys with
        | .ok _, key :: keys =>
          if key = charKey 'y' then printStatements basket t keys results else 0
        | _, _ => 0

/-! ## Redraw -/

/-- The redraw, up to the `getch` that ends it. -/
def loggedRedraw (srv : Server) (lines : ℤ) : LoggedMain Unit := do
  let w ← get
  statements .tx (listStatements w.table)
  modify fun w => { w with list := [], productCodes := codeList srv w.table }
  let w ← get
  statements .tx (visibleListStatements lines w)
  let list ← calculateVisibleProductList srv lines
  modify fun w => { w with list, indexedSelection := w.start + w.selection }
  let w ← get
  statements .tx (readStatements 2 1 w.productCodes w.table)
  (orThrow (readProducts w.productCodes w.table) : Main Unit)
  statements .tx (readStatements 1 0 (w.basket.map BasketProduct.code) w.table)
  let total ← (orThrow (basketTotal w.basket w.table 0) : Main ℚ)
  modify fun w => { w with total }
  statements .tx (readStatements 1 0 list w.table)
  (orThrow (readProducts list w.table) : Main Unit)
  emit (.commit .tx)
  let key ← withKeys getch
  modify fun w => { w with key }

/-! ## The product form -/

/-- `update_stock`. -/
def loggedUpdateStock (srv : Server) (work : Work) (p : Product) : LoggedMain Unit := do
  let w ← get
  statements work 1
  let _ ← (orThrow (productExists p.code w.table) : Main Bool)
  match updateStock srv p w.table with
  | .error e =>
    -- the server rejects the statement
    statements work 1
    (throwException e : Main Unit)
  | .ok table =>
    emit (.change work)
    modify fun w => { w with table }

/-- `add_modify_product`: it commits when it saves. -/
def loggedForm (srv : Server) (work : Work) (code : ℤ) (modifying : Bool) : LoggedMain Unit := do
  let w ← get
  statements work 1
  let p ← (orThrow (getProductData code w.table) : Main Product)
  match ← withKeys (formAnswers w.settings.maxNameLength modifying p) with
  | none => return ()
  | some answers =>
    let p ← (orThrow (answers.toProduct p) : Main Product)
    loggedUpdateStock srv work p
    emit (.commit work)

/-! ## The commands -/

/-- In `key == 'R'`, where the highlighted row is the last: `tx2` is never committed. -/
def loggedRemoveAdjust (w : World) : LoggedMain Unit :=
  if w.selection = w.stop then
    withWork .tx2 (statements .tx2 (2 * currentListSizeStatements w.currentTab))
  else return ()

/-- `key == 'R'`. -/
def loggedRemove (lines : ℤ) : LoggedMain Unit := withWork .txRemove do
  let w ← get
  statements .txRemove (currentListSizeStatements w.currentTab)
  if currentListSize w ≠ 0 then
    emit (.commit .txRemove)
    loggedRemoveAdjust w
    modify (removeAdjust lines)
    let w ← get
    match w.currentTab with
    | .products | .stock =>
      withWork .tx3 do
        let code ← readAt .listSelection w.list w.selection
        emit (.change .tx3)
        modify fun w => { w with table := erase code w.table }
        emit (.commit .tx3)
    | .basket =>
      let code ← readAt .listSelection w.list w.selection
      match removeFromBasket code w.basket with
      | none => (throw (.undefined .basketRemove) : Main Unit)
      | some basket =>
        modify fun w => { w with basket, history := w.history ++ [.removed code] }
  else return ()

/-- `key == 'a'`. -/
def loggedAdd (srv : Server) : LoggedMain Unit := do
  let w ← get
  match w.currentTab with
  | .products | .stock =>
    withWork .tx4 do
      statements .tx4 1
      let code ← readAt .listSelection w.list w.selection
      loggedForm srv .tx4 code false
      emit (.commit .tx4)
  | .basket => return ()

/-- `key == '\t'`: the tab has changed when the size is asked for. -/
def loggedNextTab : LoggedMain Unit := withWork .txn do
  let w ← get
  statements .txn (currentListSizeStatements (nextTabCommand w).currentTab)
  modify nextTabCommand
  emit (.commit .txn)

/-- `key == 'm'`. -/
def loggedModify (srv : Server) : LoggedMain Unit := withWork .tx6 do
  let w ← get
  statements .tx6 (currentListSizeStatements w.currentTab)
  if currentListSize w ≠ 0 then
    let code ← readAt .listSelection w.list w.selection
    loggedForm srv .tx6 code true
    emit (.commit .tx6)
  else
    let _ ← withKeys getch
    emit (.commit .tx6)

/-- `key == 's'`. -/
def loggedScrollDown : LoggedMain Unit := withWork .tx8 do
  let w ← get
  statements .tx8 (currentListSizeStatements w.currentTab)
  modify scrollDownCommand
  emit (.commit .tx8)

/-- `key == '\n'`. -/
def loggedEnter : LoggedMain Unit := do
  let w ← get
  match w.currentTab with
  | .products =>
    withWork .tx5 do
      let code ← readAt .listSelection w.list w.selection
      statements .tx5 1
      let product ← (orThrow (getProductData code w.table) : Main Product)
      addOne product
      emit (.commit .tx5)
      modify showBasket
  | .basket | .stock => return ()

/-- What the key after a search does with the product shown. -/
def loggedSearchAnswer (srv : Server) (code : ℤ) (key : Key) : LoggedMain Unit := do
  if key = charKey 'm' then loggedForm srv .txSearch code true
  else if key = keyEnter then
    let w ← get
    statements .txSearch 1
    let product ← (orThrow (getProductData code w.table) : Main Product)
    addOne product
    modify showBasket
  else return ()

/-- `key == '/'`: committed by the form only. -/
def loggedSearch (srv : Server) : LoggedMain Unit := withWork .txSearch do
  match ← withKeys (getString [] 0) with
  | none => return ()
  | some searchWord =>
    let w ← get
    statements .txSearch (listStatements w.table)
    let code ← searchCode srv searchWord
    let w ← get
    statements .txSearch (readStatements 1 0 [code] w.table)
    (orThrow (readProducts [code] w.table) : Main Unit)
    let key ← withKeys getch
    modify fun w => { w with key }
    loggedSearchAnswer srv code key

/-- A call of `print_receipt`. -/
def loggedPrint (work : Work) : LoggedMain Bool := do
  let w ← get
  statements work (printStatements w.basket w.table w.keys w.printer.results)
  printFromLoop

/-- `key == 't'`: never committed. -/
def loggedTestReceipt : LoggedMain Unit := withWork .txTest do
  let _ ← withKeys getch
  let _ ← loggedPrint .txTest

/-- `key == 'T'`: never committed. -/
def loggedCheckout : LoggedMain Unit := withWork .txCheckout do
  let _ ← withKeys getch
  if ← loggedPrint .txCheckout then
    modify fun w => { w with
      basket := [], total := 0, history := w.history ++ [.checkedOut] }
  else return ()

/-- `key == KEY_DOWN || key == 'j'`: the size is asked for in the first test only when
`selection < list.size() - 1`. -/
def loggedDown : LoggedMain Unit := withWork .tx7 do
  let w ← get
  statements .tx7
    ((if toSizeT w.selection < sizeMinusOne w.list.length then 2 else 1) *
      currentListSizeStatements w.currentTab)
  modify downCommand
  emit (.commit .tx7)

/-- What a scan does with the code, outside the stock tab. -/
def loggedLookup (code : ℤ) (w : World) : LoggedMain Unit := do
  statements .txScanner 1
  if ← (orThrow (productExists code w.table) : Main Bool) then
    statements .txScanner 1
    let product ← (orThrow (getProductData code w.table) : Main Product)
    addOne product
    modify fun w => { w with currentTab := .basket }
  else
    let _ ← withKeys getch

/-- What a scan does with the code. -/
def loggedScanProduct (code : ℤ) : LoggedMain Unit := do
  let w ← get
  match w.currentTab with
  | .basket | .products => loggedLookup code w
  | .stock => return ()

/-- `key == barcode_prefix`: the code is read before the transaction is opened. -/
def loggedScan : LoggedMain Unit := do
  let code ← scanCode
  withWork .txScanner do
    loggedScanProduct code
    let w ← get
    statements .txScanner (currentListSizeStatements w.currentTab)
    modify fun w => if w.selection ≥ currentListSize w then resetCursor w else w
    emit (.commit .txScanner)

/-- The body of a command's `if`; the others open no transaction. -/
def Command.loggedBody (srv : Server) (lines : ℤ) : Command → LoggedMain Unit
  | .remove => loggedRemove lines
  | .addProduct => loggedAdd srv
  | .nextTab => loggedNextTab
  | .modifyProduct => loggedModify srv
  | .scrollDown => loggedScrollDown
  | .enter => loggedEnter
  | .search => loggedSearch srv
  | .testReceipt => loggedTestReceipt
  | .checkout => loggedCheckout
  | .down => loggedDown
  | .scan => loggedScan
  | c => liftM (c.body srv lines)

/-- One iteration of the loop: its `tx` is committed by the redraw, and destroyed at the
end. -/
def loggedIteration (srv : Server) (lines : ℤ) : LoggedMain Unit := withWork .tx do
  loggedRedraw srv lines
  chain Command.guard (Command.loggedBody srv lines) commands

end CliPos
