import CliPos.Analysis.Checkout
import CliPos.Analysis.Store
import CliPos.Lib.ListView

/-!
# What commands do to the view

The tab, the window, the cursor and the size of the list shown: a command does one of
eight things to them (`ViewStep`), and a redraw moves none of them.  The invariants of the
window and of the cursor are case analyses over the eight, with the arithmetic of
`ListView`.
-/

set_option autoImplicit false

namespace CliPos

open Decimal Halting

variable {srv : Server} {lines : ℤ} {w w' : World}

/-! ## Sizes -/

/-- The height of the view. -/
abbrev height (lines : ℤ) (w : World) : ℤ := maxProductsNr lines w.currentTab

/-- The end of the window, for a list of so many rows in so much room. -/
theorem visibleEnd_eq : visibleEnd lines w =
    ListView.stop (currentListSize w) (height lines w) w.start := rfl

/-- On a screen of 11 lines or more a view has at least two rows, and one more outside the
basket tab. -/
theorem maxProductsNr_ge (hlines : 11 ≤ lines) :
    2 ≤ maxProductsNr lines .basket ∧
      maxProductsNr lines .products = maxProductsNr lines .basket + 1 ∧
      maxProductsNr lines .stock = maxProductsNr lines .basket + 1 := by
  have hrows : (lines - 3 - messageSectionLines).tdiv 2 = (lines - 5) / 2 := by
    rw [show lines - 3 - messageSectionLines = lines - 5 by
      simp only [messageSectionLines]; omega]
    exact Int.tdiv_eq_ediv_of_nonneg (by omega)
  simp only [maxProductsNr, hrows]
  omega

/-- Eleven lines leave room for two rows. -/
theorem height_ge (hlines : 11 ≤ lines) (w : World) : 2 ≤ height lines w := by
  obtain ⟨h1, h2, h3⟩ := maxProductsNr_ge hlines
  unfold height
  cases w.currentTab <;> omega

/-- The room depends on the tab only. -/
theorem height_congr (h : w'.currentTab = w.currentTab) : height lines w' = height lines w := by
  rw [height, h]

/-- The size of the list after the key `R`. -/
def sizeAfterRemove (lines : ℤ) (w : World) : ℤ :=
  match elementAt w.list (removeAdjust lines w).selection with
  | none => currentListSize w
  | some code =>
    match w.currentTab with
    | .products | .stock => (erase code w.table).length
    | .basket => ((removeFromBasket code w.basket).getD w.basket).length

/-- The size of the basket after one piece of the code `a.1` went to it, with the flag
`a.2`. -/
def sizeAfterAdd (a : ℤ × ℤ) (w : World) : ℤ :=
  (addProductToBasket w.basket a.1 1 (a.2 ≠ 0)).length

/-! ## The steps -/

/-- What a command can do to the tab, the window, the cursor and the size of the list. -/
inductive ViewStep (srv : Server) (lines : ℤ) (c : Command) (w w' : World) : Prop
  /-- Nothing. -/
  | still (tab : w'.currentTab = w.currentTab) (size : currentListSize w' = currentListSize w)
      (start : w'.start = w.start) (selection : w'.selection = w.selection)
  /-- Cursor keys, scrolling and changes of the tab. -/
  | moved (command : c ∈ cursorCommands) (body : c.body srv lines w = .ok () w')
  /-- `R` takes an entry out of the list, or a piece from it. -/
  | removed (command : c = .remove) (nonempty : currentListSize w ≠ 0)
      (tab : w'.currentTab = w.currentTab) (size : currentListSize w' = sizeAfterRemove lines w)
      (start : w'.start = (removeAdjust lines w).start)
      (selection : w'.selection = (removeAdjust lines w).selection)
  /-- A form saves a product. -/
  | saved (p : Product) (saves : Saves srv c w p) (tab : w'.currentTab = w.currentTab)
      (basket : w'.basket = w.basket) (table : updateStock srv p w.table = .ok w'.table)
      (start : w'.start = w.start) (selection : w'.selection = w.selection)
  /-- Enter and a search answered with Enter show the basket they added to. -/
  | added (a : ℤ × ℤ) (command : c = .enter ∨ c = .search) (adds : a ∈ adds srv c w)
      (tab : w'.currentTab = .basket) (size : currentListSize w' = sizeAfterAdd a w)
      (cursor : if toSizeT w.indexedSelection ≥ sizeAfterAdd a w then
          w'.start = 0 ∧ w'.selection = 0
        else w'.start = w.start ∧ w'.selection = w.selection)
  /-- So does a scan that finds its product. -/
  | scanned (a : ℤ × ℤ) (command : c = .scan) (adds : a ∈ adds srv c w)
      (tab : w'.currentTab = .basket) (size : currentListSize w' = sizeAfterAdd a w)
      (cursor : if w.selection ≥ sizeAfterAdd a w then w'.start = 0 ∧ w'.selection = 0
        else w'.start = w.start ∧ w'.selection = w.selection)
  /-- A scan that finds nothing. -/
  | notFound (command : c = .scan) (adds : adds srv c w = none)
      (tab : w'.currentTab = w.currentTab) (size : currentListSize w' = currentListSize w)
      (cursor : if w.selection ≥ currentListSize w then w'.start = 0 ∧ w'.selection = 0
        else w'.start = w.start ∧ w'.selection = w.selection)
  /-- A checkout empties the basket. -/
  | sold (command : c = .checkout)
      (printed : LastOpened (attemptsMade w.keys.tail w.printer.results))
      (tab : w'.currentTab = w.currentTab) (basket : w'.basket = []) (table : w'.table = w.table)
      (start : w'.start = w.start) (selection : w'.selection = w.selection)

section Fields

variable (w)

/-- Going to the basket starts over where the cursor is off it. -/
theorem showBasket_view : (showBasket w).currentTab = .basket ∧
    currentListSize (showBasket w) = w.basket.length ∧
    if toSizeT w.indexedSelection ≥ w.basket.length then
      (showBasket w).start = 0 ∧ (showBasket w).selection = 0
    else (showBasket w).start = w.start ∧ (showBasket w).selection = w.selection := by
  unfold showBasket resetCursor
  dsimp only
  split_ifs <;> exact ⟨rfl, rfl, rfl, rfl⟩

/-- Pulling the cursor back starts over where it is off the list. -/
theorem clampCursor_view : (clampCursor w).currentTab = w.currentTab ∧
    currentListSize (clampCursor w) = currentListSize w ∧
    if w.selection ≥ currentListSize w then
      (clampCursor w).start = 0 ∧ (clampCursor w).selection = 0
    else (clampCursor w).start = w.start ∧ (clampCursor w).selection = w.selection := by
  unfold clampCursor resetCursor
  split_ifs <;> exact ⟨rfl, rfl, rfl, rfl⟩

end Fields

/-- **A command does one of the eight things.** -/
theorem body_view {c : Command} (h : c.body srv lines w = .ok () w') :
    ViewStep srv lines c w w' := by
  have hbody := h
  cases c with
  | quit =>
    obtain ⟨-, key, keys, -, -, -, rfl⟩ := quitCommand_eq_ok h
    exact .still rfl rfl rfl rfl
  | menu =>
    obtain ⟨settings, keys, rfl⟩ := menuCommand_eq_ok h
    exact .still rfl rfl rfl rfl
  | remove =>
    obtain ⟨-, rfl⟩ | ⟨hn, code, hcode, ⟨ht, rfl⟩ | ⟨ht, basket, hb, rfl⟩⟩ :=
      removeCommand_eq_ok h
    · exact .still rfl rfl rfl rfl
    · refine .removed rfl hn (removeAdjust_currentTab lines w) ?_ rfl rfl
      rw [sizeAfterRemove, hcode, currentListSize]
      dsimp only
      rw [removeAdjust_currentTab]
      cases htab : w.currentTab with
      | basket => exact absurd htab ht
      | products | stock => rfl
    · refine .removed rfl hn (removeAdjust_currentTab lines w) ?_ rfl rfl
      rw [sizeAfterRemove, hcode, currentListSize]
      dsimp only
      rw [removeAdjust_currentTab, ht, hb]
      rfl
  | addProduct =>
    obtain ⟨-, rfl⟩ | ⟨ht, code, table, keys, hcode, hform, rfl⟩ := addCommand_eq_ok h
    · exact .still rfl rfl rfl rfl
    · obtain rfl | ⟨p, hp, hup⟩ := addModifyProduct_eq_ok hform
      · exact .still rfl rfl rfl rfl
      · exact .saved p ⟨ht, code, hcode, hp⟩ rfl rfl hup rfl rfl
  | modifyProduct =>
    obtain ⟨-, keys, rfl⟩ | ⟨-, code, table, keys, hcode, hform, rfl⟩ := modifyCommand_eq_ok h
    · exact .still rfl rfl rfl rfl
    · obtain rfl | ⟨p, hp, hup⟩ := addModifyProduct_eq_ok hform
      · exact .still rfl rfl rfl rfl
      · exact .saved p ⟨code, hcode, hp⟩ rfl rfl hup rfl rfl
  | enter =>
    obtain ⟨-, rfl⟩ | ⟨ht, code, p, hcode, hp, rfl⟩ := enterCommand_eq_ok h
    · exact .still rfl rfl rfl rfl
    · obtain rfl := getProductData_code hp
      obtain ⟨htab, hsize, hcursor⟩ := showBasket_view (afterAdd p w)
      exact .added (p.code, w.uninit.headD 0) (.inl rfl) (by simp [adds, ht, hcode]) htab hsize
        hcursor
  | search =>
    obtain ⟨keys, -, rfl⟩ | ⟨word, key, keys, index, code, hword, hindex, hcode, h⟩ :=
      searchCommand_eq_ok h
    · exact .still rfl rfl rfl rfl
    · obtain ⟨rfl, table, keys', hform, rfl⟩ | ⟨rfl, p, hp, rfl⟩ | ⟨-, -, rfl⟩ :=
        searchAnswer_eq_ok h
      · obtain rfl | ⟨p, hp, hup⟩ := addModifyProduct_eq_ok hform
        · exact .still rfl rfl rfl rfl
        · exact .saved p ⟨word, keys, index, code, hword, hindex, hcode, hp⟩ rfl rfl hup rfl rfl
      · obtain rfl := getProductData_code hp
        obtain ⟨htab, hsize, hcursor⟩ := showBasket_view (afterAdd p (afterSearch keyEnter keys w))
        refine .added (p.code, w.uninit.tail.headD 0) (.inr rfl) ?_ htab hsize hcursor
        rw [adds, hword]
        simp only [if_true, foundCode, hindex, hcode]
        rfl
      · exact .still rfl rfl rfl rfl
  | testReceipt =>
    obtain ⟨key, keys, printed, keys', printer, -, -, rfl⟩ := testReceiptCommand_eq_ok h
    exact .still rfl rfl rfl rfl
  | checkout =>
    obtain ⟨key, keys, printed, keys', printer, hkeys, hp, rfl⟩ := checkoutCommand_eq_ok h
    cases printed with
    | false => exact .still rfl rfl rfl rfl
    | true =>
      by_cases hb : w.basket = []
      · rw [hb] at hp
        exact absurd (printReceipt_nil hp).1 (by simp)
      · refine .sold rfl ?_ rfl rfl rfl rfl rfl
        rw [hkeys, List.tail_cons]
        exact (printReceipt_attempts hb hp).1.1 rfl
  | scan =>
    obtain ⟨text, keys, code, htext, hcode, ⟨ht, rfl⟩ | ⟨ht, hex, keys', rfl⟩ |
      ⟨ht, hex, p, hp, rfl⟩⟩ := scanCommand_eq_ok h
    · obtain ⟨htab, hsize, hcursor⟩ := clampCursor_view { w with keys := keys }
      exact .notFound rfl (by simp [adds, htext, hcode, ht]) htab hsize hcursor
    · obtain ⟨htab, hsize, hcursor⟩ := clampCursor_view { w with keys := keys' }
      refine .notFound rfl ?_ htab hsize hcursor
      simp [adds, htext, hcode, codeCount_eq_zero_of_productExists hex]
    · obtain rfl := getProductData_code hp
      obtain ⟨htab, hsize, hcursor⟩ :=
        clampCursor_view { afterAdd p { w with keys := keys } with currentTab := .basket }
      refine .scanned (p.code, w.uninit.headD 0) rfl ?_ htab hsize hcursor
      simp [adds, htext, hcode, ht, codeCount_eq_one hex]
  | nextTab | stockTab | scrollUp | scrollDown | up | down => exact .moved (by decide) hbody

end CliPos
