import CliPos.Model.InputString

/-!
# The menus

`menus.cpp`: menus as trees of items over a store that the items set, `run_menu`, which
navigates them, and the menus the program shows behind ESC.  Drawing is left out.
-/

set_option autoImplicit false

namespace CliPos

open Decimal

/-- The bytes of a label. -/
def label (s : String) : Str := s.toList.map fun c => Fin.ofNat 256 c.toNat

/-- The computations of a menu over a store `σ`. -/
abbrev MenuM (σ : Type) := EStateM Halt (σ × List Key)

mutual

/-- `menu_item_data`: what choosing an item does.  A pointer to a variable is a way to
read it from the store and a way to set it. -/
inductive MenuItemData (σ : Type) where
  | submenu (menu : Menu σ)
  | stringItem (get : σ → Str) (put : Str → σ → σ)
  | funct (action : MenuM σ Unit)
  | intItem (get : σ → ℤ) (put : ℤ → σ → σ)
  | floatItem (get : σ → ℚ) (put : ℚ → σ → σ)
  | boolItem (get : σ → Bool) (put : Bool → σ → σ)
  | exitItem

/-- `struct menu`: its options, each with its label. -/
inductive Menu (σ : Type) where
  | mk (options : List (Str × MenuItemData σ))

end

/-- The options of a menu. -/
def Menu.options {σ : Type} : Menu σ → List (Str × MenuItemData σ)
  | .mk options => options

/-- Read keys inside a menu. -/
def readKeys {σ α : Type} (m : Input α) : MenuM σ α := fun s =>
  match m s.2 with
  | .ok a keys => .ok a (s.1, keys)
  | .error h keys => .error h (s.1, keys)

/-- Set the store of a menu. -/
def setStore {σ : Type} (f : σ → σ) : MenuM σ Unit := modify fun s => (f s.1, s.2)

/-- `selection_list`: the index of the item chosen, or nothing on ESC. -/
def selectionList (optionsSize : ℤ) :
    List Key → ℤ → EStateM.Result Halt (List Key) (Option ℤ)
  | [], _ => .error .waiting []
  | key :: keys, selection =>
    if key = keyUp ∨ key = charKey 'k' then
      selectionList optionsSize keys (if selection ≠ 0 then selection - 1 else selection)
    else if key = keyDown ∨ key = charKey 'j' then
      selectionList optionsSize keys
        (if selection ≠ optionsSize - 1 then selection + 1 else selection)
    else if key = keyEnter then .ok (some selection) keys
    else if key = keyEsc then .ok none keys
    else selectionList optionsSize keys selection

/-- An `int_item`: the number typed, unless it is 0. -/
def runIntItem {σ : Type} (get : σ → ℤ) (put : ℤ → σ → σ) : MenuM σ Unit := do
  let (s, _) ← (MonadState.get : MenuM σ _)
  match ← readKeys (getString (intText (get s)) 0) with
  | none => return ()
  | some str =>
    let n ← orThrow (stoi (removeNonNr str))
    if n ≠ 0 then setStore (put n)

/-- A `float_item`: the number typed, unless it is 0. -/
def runFloatItem {σ : Type} (get : σ → ℚ) (put : ℚ → σ → σ) : MenuM σ Unit := do
  let (s, _) ← (MonadState.get : MenuM σ _)
  match ← readKeys (getString (doubleText (get s)) 0) with
  | none => return ()
  | some str =>
    let x ← orThrow (stof (removeNonNr str))
    if x ≠ 0 then setStore (put x)

/-- A `string_item`: the text typed. -/
def runStringItem {σ : Type} (get : σ → Str) (put : Str → σ → σ) : MenuM σ Unit := do
  let (s, _) ← (MonadState.get : MenuM σ _)
  match ← readKeys (getString (get s) 0) with
  | none => return ()
  | some str => setStore (put str)

/-- `run_menu`, from its loop on: the menu, the labels on the way to it and the item
highlighted.  It returns whether an exit item was chosen.  Each round reads a key, so
`fuel` above the number of keys is never used up.  The labels are drawn and never steer
anything: `dropLast` stands for `menu_labels.erase(menu_labels.end())`, and whatever that
erase leaves, the menus are left in the same way (`erased_labelledMenu`). -/
def runMenu {σ : Type} : ℕ → Menu σ → List Str → ℤ → MenuM σ Bool
  | 0, _, _, _ => throw .waiting
  | fuel + 1, menu, menuLabels, selection => do
    match ← readKeys fun keys => selectionList menu.options.length keys selection with
    | none => return false
    | some output =>
      match elementAt menu.options output with
      | none => throw (.undefined .menuOption)
      | some (name, .submenu m) =>
        let exit ← runMenu fuel m (menuLabels ++ [name]) 0
        -- `menu_labels.erase(menu_labels.end())`, meant to drop the last label
        if exit then return true
        else runMenu fuel menu (menuLabels ++ [name]).dropLast output
      | some (_, .funct action) =>
        action
        runMenu fuel menu menuLabels output
      | some (_, .boolItem get put) =>
        setStore fun s => put (!get s) s
        runMenu fuel menu menuLabels output
      | some (_, .stringItem get put) =>
        runStringItem get put
        runMenu fuel menu menuLabels output
      | some (_, .intItem get put) =>
        runIntItem get put
        runMenu fuel menu menuLabels output
      | some (_, .floatItem get put) =>
        runFloatItem get put
        runMenu fuel menu menuLabels output
      | some (_, .exitItem) => return true

/-! ## The menus of the program -/

/-- `get_barcode_prefix`: the first character typed, 0 for an empty text. -/
def getBarcodePrefix : MenuM Settings Unit := do
  match ← readKeys (getString [] 0) with
  | none => return ()
  | some s => setStore fun settings => { settings with barcodePrefix := signedChar (s.headD 0) }

/-- `submenu`, which only leads out again. -/
def submenu : Menu Settings := .mk [(label "exit", .exitItem)]

/-- `shop_settings`. -/
def shopSettings : Menu Settings := .mk
  [(label "Name", .stringItem Settings.shopName fun v s => { s with shopName := v }),
    (label "Code", .stringItem Settings.shopCode fun v s => { s with shopCode := v }),
    (label "Addres", .stringItem Settings.shopAddres fun v s => { s with shopAddres := v })]

/-- `printer_settings`. -/
def printerSettings : Menu Settings := .mk
  [(label "Printer file location",
      .stringItem Settings.printerDeviceFile fun v s => { s with printerDeviceFile := v }),
    (label "Characters per line",
      .intItem Settings.maxNameLength fun v s => { s with maxNameLength := v }),
    (label "Nr of newlines",
      .intItem Settings.nrOfNewlines fun v s => { s with nrOfNewlines := v })]

/-- `barcode_scanner`. -/
def barcodeScanner : Menu Settings := .mk [(label "Barcode prefix", .funct getBarcodePrefix)]

/-- `peripherals`. -/
def peripherals : Menu Settings := .mk
  [(label "Receipt printer", .submenu printerSettings),
    (label "Barcode scanner", .submenu barcodeScanner)]

/-- `settings`. -/
def settingsMenu : Menu Settings := .mk
  [(label "Shop", .submenu shopSettings),
    (label "Peripherals", .submenu peripherals),
    (label "Colorschem", .submenu submenu),
    (label "Users", .submenu submenu)]

/-- `main_menu`. -/
def mainMenu : Menu Settings := .mk
  [(label "Products", .exitItem), (label "Settings", .submenu settingsMenu)]

/-- `start_main_menu`. -/
def startMainMenu : MenuM Settings Unit := fun s =>
  match runMenu (s.2.length + 1) mainMenu [label ""] 0 s with
  | .ok _ s' => .ok () s'
  | .error h s' => .error h s'

end CliPos
