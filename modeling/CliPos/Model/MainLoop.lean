import CliPos.Model.Form
import CliPos.Model.Menus
import CliPos.Model.Receipt
import CliPos.Model.BinarySearch

/-!
# The main loop

`main` of `main.cpp`.  One iteration redraws the screen, reads a key and then goes
through a chain of independent `if`s, each testing the key: the commands.  Two of them
overwrite the key.  The state is every variable the loop uses, together with the products
table and what the outside world will do next.
-/

set_option autoImplicit false

namespace CliPos

open Decimal

/-! ## The state -/

/-- What happened to the basket, in order: the history the basket's contents are compared
with.  The program never reads it. -/
inductive BasketEvent where
  /-- `add_product_to_basket` was called, with quantity 1. -/
  | added (code : ℤ)
  /-- The key `R` took one piece out in the basket tab. -/
  | removed (code : ℤ)
  /-- A checkout emptied the basket. -/
  | checkedOut
  deriving DecidableEq, Repr

/-- The state of the program and its surroundings. -/
structure World where
  key : Key
  currentTab : Tab
  basket : List BasketProduct
  total : ℚ
  /-- `visible_product_list.start`. -/
  start : ℤ
  /-- `visible_product_list.end`. -/
  stop : ℤ
  selection : ℤ
  indexedSelection : ℤ
  list : List ℤ
  productCodes : List ℤ
  settings : Settings
  /-- The products table in the database. -/
  table : Table
  /-- The keys that will be typed. -/
  keys : List Key
  printer : Printer
  /-- What uninitialised local variables will happen to hold, in the order of their
  declaration; 0 after the last. -/
  uninit : List ℤ
  history : List BasketEvent
  deriving DecidableEq

/-- The computations of the main loop. -/
abbrev Main := EStateM Halt World

/-- The values the settings start with. -/
def defaultSettings : Settings where
  shopName := label "Product inc"
  shopCode := label "123456789012"
  shopAddres := label "random stret nr 56 random city, country"
  printerDeviceFile := label "/dev/usb/lp3"
  maxNameLength := 31
  nrOfNewlines := 15
  barcodePrefix := charKey '#'

/-- The state in which `main` enters its loop. -/
def boot (table : Table) (keys : List Key) (printer : Printer) (uninit : List ℤ) : World where
  key := 0
  currentTab := .products
  basket := []
  total := 0
  start := 0
  stop := 0
  selection := 0
  indexedSelection := 0
  list := []
  productCodes := []
  settings := defaultSettings
  table := table
  keys := keys
  printer := printer
  uninit := uninit
  history := []

/-! ## Access to the surroundings -/

/-- Read keys. -/
def withKeys {α : Type} (m : Input α) : Main α := fun w =>
  match m w.keys with
  | .ok a keys => .ok a { w with keys := keys }
  | .error h keys => .error h { w with keys := keys }

/-- Declare a local variable without a value. -/
def declare : Main ℤ := fun w => .ok (w.uninit.headD 0) { w with uninit := w.uninit.tail }

/-- `xs[i]`, undefined outside the vector. -/
def readAt {α : Type} (site : Site) (xs : List α) (i : ℤ) : Main α :=
  match elementAt xs i with
  | none => throw (.undefined site)
  | some a => pure a

/-! ## The visible part of a list -/

/-- `current_list_size`. -/
def currentListSize (w : World) : ℤ :=
  match w.currentTab with
  | .basket => w.basket.length
  | .products | .stock => stockSize w.table

/-- The rows that fit the screen: one less in the basket tab, which shows the total. -/
def maxProductsNr (lines : ℤ) (tab : Tab) : ℤ :=
  let rows := (lines - 3 - messageSectionLines).tdiv 2
  match tab with
  | .basket => rows - 1
  | .products | .stock => rows

/-- `visible_product_list.end`, as `calculate_visible_product_list` sets it. -/
def visibleEnd (lines : ℤ) (w : World) : ℤ :=
  if maxProductsNr lines w.currentTab ≥ currentListSize w then currentListSize w
  else maxProductsNr lines w.currentTab + w.start

/-- The loop `for (i = start; i < end; i++) list.push_back(xs[i])`, with the number of
rounds left. -/
def readSlice (site : Site) (xs : List ℤ) : ℤ → ℕ → Main (List ℤ)
  | _, 0 => return []
  | i, n + 1 => do
    let x ← readAt site xs i
    let rest ← readSlice site xs (i + 1) n
    return x :: rest

/-- `calculate_visible_product_list`. -/
def calculateVisibleProductList (srv : Server) (lines : ℤ) : Main (List ℤ) := do
  modify fun w => { w with stop := visibleEnd lines w }
  let w ← get
  let rounds := (w.stop - w.start).toNat
  match w.currentTab with
  | .products | .stock => readSlice .codes (codeList srv w.table) w.start rounds
  | .basket => readSlice .visibleBasket (w.basket.map BasketProduct.code) w.start rounds

/-! ## The basket -/

/-- The loop of `add_product_to_basket`: the basket after it, and the flag
`product_already_in_basket`, which only the loop sets. -/
def addLoop (code : ℤ) (quantity : ℚ) :
    List BasketProduct → Bool → List BasketProduct × Bool
  | [], found => ([], found)
  | b :: basket, _ =>
    if b.code = code then ({ b with quantity := b.quantity + quantity } :: basket, true)
    else
      let (basket, found) := addLoop code quantity basket false
      (b :: basket, found)

/-- `add_product_to_basket`; `uninit` is what the flag happens to hold before the loop. -/
def addProductToBasket (basket : List BasketProduct) (code : ℤ) (quantity : ℚ)
    (uninit : Bool) : List BasketProduct :=
  let (basket, found) := addLoop code quantity basket uninit
  if !found then basket ++ [⟨code, quantity⟩] else basket

/-- The key `R` in the basket tab: the first entry of the code loses one piece, and goes
when none is left.  No value when there is no such entry: `basket[i]` is then read
behind the end. -/
def removeFromBasket (code : ℤ) : List BasketProduct → Option (List BasketProduct)
  | [] => none
  | b :: basket =>
    if b.code = code then
      if b.quantity - 1 = 0 then some basket
      else some ({ b with quantity := b.quantity - 1 } :: basket)
    else (removeFromBasket code basket).map (b :: ·)

/-- A call of `add_product_to_basket` with quantity 1, from a command. -/
def addOne (p : Product) : Main Unit := do
  let uninit ← declare
  modify fun w => { w with
    basket := addProductToBasket w.basket p.code 1 (uninit ≠ 0)
    history := w.history ++ [.added p.code] }

/-- `visible_product_list.start = 0; indexed_selection = 0; selection = 0;` -/
def resetCursor (w : World) : World := { w with start := 0, indexedSelection := 0, selection := 0 }

/-! ## Redraw -/

/-- Read the products of some codes. -/
def readProducts : List ℤ → Table → Except Exception Unit
  | [], _ => .ok ()
  | code :: codes, t => do
    let _ ← getProductData code t
    readProducts codes t

/-- The redraw at the top of the loop, up to the `getch` that ends it.  Of
`draw_product_list` only the reads of the table are kept. -/
def redraw (srv : Server) (lines : ℤ) : Main Unit := do
  modify fun w => { w with list := [], productCodes := codeList srv w.table }
  let list ← calculateVisibleProductList srv lines
  modify fun w => { w with list, indexedSelection := w.start + w.selection }
  let w ← get
  orThrow (readProducts w.productCodes w.table)
  let total ← orThrow (basketTotal w.basket w.table 0)
  modify fun w => { w with total }
  orThrow (readProducts list w.table)
  let key ← withKeys getch
  modify fun w => { w with key }

/-! ## The commands -/

/-- The `if`s of the loop, in order. -/
inductive Command where
  /-- `key == 'q'`. -/
  | quit
  /-- `key == KEY_ESC`. -/
  | menu
  /-- `key == 'R'`. -/
  | remove
  /-- `key == 'a'`. -/
  | addProduct
  /-- `key == '\t'`. -/
  | nextTab
  /-- `key == 'r'`. -/
  | stockTab
  /-- `key == 'm'`. -/
  | modifyProduct
  /-- `key == 'w'`. -/
  | scrollUp
  /-- `key == 's'`. -/
  | scrollDown
  /-- `key == '\n'`. -/
  | enter
  /-- `key == '/'`. -/
  | search
  /-- `key == 't'`. -/
  | testReceipt
  /-- `key == 'T'`. -/
  | checkout
  /-- `key == KEY_UP || key == 'k'`. -/
  | up
  /-- `key == KEY_DOWN || key == 'j'`. -/
  | down
  /-- `key == barcode_prefix`. -/
  | scan
  deriving DecidableEq, Repr

/-- The chain of the loop body. -/
def commands : List Command :=
  [.quit, .menu, .remove, .addProduct, .nextTab, .stockTab, .modifyProduct, .scrollUp,
    .scrollDown, .enter, .search, .testReceipt, .checkout, .up, .down, .scan]

/-- The keys that a command answers to, apart from the barcode prefix. -/
def Command.keys : Command → List Key
  | .quit => [charKey 'q']
  | .menu => [keyEsc]
  | .remove => [charKey 'R']
  | .addProduct => [charKey 'a']
  | .nextTab => [keyTab]
  | .stockTab => [charKey 'r']
  | .modifyProduct => [charKey 'm']
  | .scrollUp => [charKey 'w']
  | .scrollDown => [charKey 's']
  | .enter => [keyEnter]
  | .search => [charKey '/']
  | .testReceipt => [charKey 't']
  | .checkout => [charKey 'T']
  | .up => [keyUp, charKey 'k']
  | .down => [keyDown, charKey 'j']
  | .scan => []

/-- The condition of a command's `if`. -/
def Command.guard (c : Command) (w : World) : Bool :=
  match c with
  | .scan => w.key = w.settings.barcodePrefix
  | c => w.key ∈ c.keys

/-- `key == 'q'`: quit, after a question when the basket is not empty. -/
def quitCommand : Main Unit := do
  let w ← get
  if w.basket ≠ [] then
    let key ← withKeys getch
    modify fun w => { w with key }
    if key = charKey 'y' ∨ key = charKey 'Y' then throw .exited
  else throw .exited

/-- `key == KEY_ESC`: the main menu. -/
def menuCommand : Main Unit := fun w =>
  match startMainMenu (w.settings, w.keys) with
  | .ok _ (settings, keys) => .ok () { w with settings := settings, keys := keys }
  | .error h (settings, keys) => .error h { w with settings := settings, keys := keys }

/-- The value of a `bool` as an `int`. -/
def boolInt (b : Bool) : ℤ := if b then 1 else 0

/-- The start of `key == 'R'`: `max < size <= size` compares the truth value of its first
half with the size. -/
def removeAdjust (lines : ℤ) (w : World) : World :=
  if w.selection = w.stop then
    let w := { w with selection := w.selection - 1 }
    if boolInt (maxProductsNr lines .products < currentListSize w) ≤ currentListSize w then
      { w with start := w.start - 1, stop := w.stop - 1 }
    else w
  else w

/-- `key == 'R'`: remove a product, or one piece from the basket. -/
def removeCommand (lines : ℤ) : Main Unit := do
  let w ← get
  if currentListSize w ≠ 0 then
    modify (removeAdjust lines)
    let w ← get
    let code ← readAt .listSelection w.list w.selection
    match w.currentTab with
    | .products | .stock => modify fun w => { w with table := erase code w.table }
    | .basket =>
      match removeFromBasket code w.basket with
      | none => throw (.undefined .basketRemove)
      | some basket =>
        modify fun w => { w with basket, history := w.history ++ [.removed code] }

/-- Run the product form on a code. -/
def runForm (srv : Server) (code : ℤ) (modifying : Bool) : Main Unit := do
  let w ← get
  let table ← withKeys
    (addModifyProduct srv w.settings.maxNameLength code modifying w.table)
  modify fun w => { w with table }

/-- `key == 'a'`: add a product.  Both branches on the size of the stock do the same. -/
def addCommand (srv : Server) : Main Unit := do
  let w ← get
  match w.currentTab with
  | .products | .stock =>
    let code ← readAt .listSelection w.list w.selection
    runForm srv code false
  | .basket => return ()

/-- `key == '\t'`: the next tab. -/
def nextTabCommand (w : World) : World :=
  let w := match w.currentTab with
    | .basket => { w with currentTab := .products }
    | .products => { w with currentTab := .basket }
    | .stock => { w with currentTab := .products }
  if w.selection ≥ currentListSize w then resetCursor w else w

/-- `key == 'm'`: modify the product of the highlighted row. -/
def modifyCommand (srv : Server) : Main Unit := do
  let w ← get
  if currentListSize w ≠ 0 then
    let code ← readAt .listSelection w.list w.selection
    runForm srv code true
  else
    let _ ← withKeys getch

/-- `key == 'w'`: scroll the window up. -/
def scrollUpCommand (w : World) : World :=
  if w.start ≠ 0 then { w with start := w.start - 1, stop := w.stop - 1 } else w

/-- `key == 's'`: scroll the window down. -/
def scrollDownCommand (w : World) : World :=
  if w.stop ≠ currentListSize w then { w with start := w.start + 1, stop := w.stop + 1 } else w

/-- After a product went to the basket: `if (indexed_selection >= basket.size())` compares
with a `size_t`. -/
def showBasket (w : World) : World :=
  let w := { w with currentTab := .basket }
  if toSizeT w.indexedSelection ≥ w.basket.length then resetCursor w else w

/-- `key == '\n'`: put the highlighted product into the basket. -/
def enterCommand : Main Unit := do
  let w ← get
  match w.currentTab with
  | .products =>
    let code ← readAt .listSelection w.list w.selection
    let product ← orThrow (getProductData code w.table)
    addOne product
    modify showBasket
  | .basket | .stock => return ()

/-- A search that may be undefined, inside the main loop. -/
def orHalt {α : Type} : Except Halt α → Main α
  | .ok a => pure a
  | .error h => throw h

/-- The product a search shows: the code under the index that `binary_search` finds. -/
def searchCode (srv : Server) (searchWord : Str) : Main ℤ := do
  let w ← get
  let uninit ← declare
  let index ← orHalt (binarySearch (nameList srv w.table) searchWord uninit)
  readAt .productCodesIndex w.productCodes index

/-- What the key after a search does with the product shown. -/
def searchAnswer (srv : Server) (code : ℤ) (key : Key) : Main Unit := do
  if key = charKey 'm' then runForm srv code true
  else if key = keyEnter then
    let w ← get
    let product ← orThrow (getProductData code w.table)
    addOne product
    modify showBasket

/-- `key == '/'`: search a name and show its product.  The key pressed then overwrites
`key`. -/
def searchCommand (srv : Server) : Main Unit := do
  match ← withKeys (getString [] 0) with
  | none => return ()
  | some searchWord =>
    let code ← searchCode srv searchWord
    let w ← get
    orThrow (readProducts [code] w.table)
    let key ← withKeys getch
    modify fun w => { w with key }
    searchAnswer srv code key

/-- A call of `print_receipt` from the main loop. -/
def printFromLoop : Main Bool := fun w =>
  match printReceipt w.basket w.table w.total w.keys w.printer with
  | .ok printed (keys, printer) => .ok printed { w with keys := keys, printer := printer }
  | .error h (keys, printer) => .error h { w with keys := keys, printer := printer }

/-- `key == 't'`: print a receipt. -/
def testReceiptCommand : Main Unit := do
  let _ ← withKeys getch
  let _ ← printFromLoop

/-- `key == 'T'`: checkout. -/
def checkoutCommand : Main Unit := do
  let _ ← withKeys getch
  if ← printFromLoop then
    modify fun w => { w with
      basket := [], total := 0, history := w.history ++ [.checkedOut] }

/-- `key == KEY_UP || key == 'k'`. -/
def upCommand (w : World) : World :=
  let w := if w.selection ≠ 0 then { w with selection := w.selection - 1 } else w
  if w.start ≠ 0 ∧ w.selection = 0 then
    { w with start := w.start - 1, stop := w.stop - 1, selection := w.selection + 1 }
  else w

/-- `key == KEY_DOWN || key == 'j'`: `list.size() - 1` is a `size_t`. -/
def downCommand (w : World) : World :=
  let w :=
    if toSizeT w.selection < sizeMinusOne w.list.length ∧
        w.indexedSelection < currentListSize w then
      { w with selection := w.selection + 1 }
    else w
  if w.stop ≠ currentListSize w ∧ toSizeT w.selection = sizeMinusOne w.list.length then
    { w with start := w.start + 1, stop := w.stop + 1, selection := w.selection - 1 }
  else w

/-- The code a scan looks up. -/
def scanCode : Main ℤ := do
  match ← withKeys (getString [] 0) with
  | none => throwException .badOptionalAccess
  | some text => orThrow (stol (removeNonNr text))

/-- What a scan does with the code. -/
def scanProduct (code : ℤ) : Main Unit := do
  let w ← get
  match w.currentTab with
  | .basket | .products =>
    if ← orThrow (productExists code w.table) then
      let product ← orThrow (getProductData code w.table)
      addOne product
      modify fun w => { w with currentTab := .basket }
    else
      let _ ← withKeys getch
  | .stock => return ()

/-- `key == barcode_prefix`: scan a code. -/
def scanCommand : Main Unit := do
  let code ← scanCode
  scanProduct code
  modify fun w => if w.selection ≥ currentListSize w then resetCursor w else w

/-- The body of a command's `if`. -/
def Command.body (srv : Server) (lines : ℤ) : Command → Main Unit
  | .quit => quitCommand
  | .menu => menuCommand
  | .remove => removeCommand lines
  | .addProduct => addCommand srv
  | .nextTab => modify nextTabCommand
  | .stockTab => modify fun w => { w with currentTab := .stock }
  | .modifyProduct => modifyCommand srv
  | .scrollUp => modify scrollUpCommand
  | .scrollDown => modify scrollDownCommand
  | .enter => enterCommand
  | .search => searchCommand srv
  | .testReceipt => testReceiptCommand
  | .checkout => checkoutCommand
  | .up => modify upCommand
  | .down => modify downCommand
  | .scan => scanCommand

/-- One iteration of the loop. -/
def iteration (srv : Server) (lines : ℤ) : Main Unit := do
  redraw srv lines
  Halting.Chain.run Command.guard (Command.body srv lines) commands

/-- The commands that an iteration runs, each with the state it starts from. -/
def iterationTrace (srv : Server) (lines : ℤ) (w : World) : List (Command × World) :=
  match redraw srv lines w with
  | .ok _ w' => Halting.Chain.trace Command.guard (Command.body srv lines) commands w'
  | .error _ _ => []

/-- `RunsWhere srv lines ok w w'`: iterations from `w` reach `w'`, and every command they
ran started from a state that satisfies `ok`. -/
def RunsWhere (srv : Server) (lines : ℤ) (ok : Command → World → Prop) :
    World → World → Prop :=
  Halting.Runs (fun w => ∀ e ∈ iterationTrace srv lines w, ok e.1 e.2) (iteration srv lines)

/-- `RunsThrough srv lines w cs w'`: iterations from `w` reach `w'`, and `cs` are the commands
they ran, in order, each with the state it started from.  Every run has such a list
(`Runs.exists_trail`). -/
def RunsThrough (srv : Server) (lines : ℤ) : World → List (Command × World) → World → Prop :=
  Halting.Trail (iterationTrace srv lines) (iteration srv lines)

/-- The states that runs of the program reach at the top of the loop. -/
def Reachable (srv : Server) (lines : ℤ) (w : World) : Prop :=
  ∃ table keys printer uninit,
    RunsWhere srv lines (fun _ _ => True) (boot table keys printer uninit) w

end CliPos
