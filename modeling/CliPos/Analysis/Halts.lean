import CliPos.Analysis.ReceiptTotal
import CliPos.Analysis.Prompts
import CliPos.Analysis.Search

/-!
# Where the loop can halt

For every command, the halts of the program's own making: `list[selection]` and
`product_codes[index]` outside their vectors, and products without a row.  From the state
a redraw leaves only the two vector reads remain (`Fresh.body_error`); the redraw itself
can fail on the window and on the rows of the basket (`redraw_error`).
-/

set_option autoImplicit false

namespace CliPos

open Decimal Halting

variable {srv : Server} {lines : ℤ} {w w' : World} {e : Halt}

/-! ## The pieces commands are made of -/

/-- Keys that are read in a command halt it for a reason from outside. -/
theorem withKeys_error {α : Type} {m : Input α} (hm : OnlyHalts External m)
    (h : withKeys m w = .error e w') : External e := by
  unfold withKeys at h
  cases hk : m w.keys with
  | ok a keys => simp [hk] at h
  | error e' keys =>
    simp only [hk, EStateM.Result.error.injEq] at h
    obtain ⟨rfl, -⟩ := h
    exact hm _ _ _ hk

/-- A read that halted was outside its vector. -/
theorem readAt_error {α : Type} {site : Site} {xs : List α} {i : ℤ}
    (h : readAt site xs i w = .error e w') : e = .undefined site ∧ elementAt xs i = none := by
  unfold readAt at h
  cases hi : elementAt xs i with
  | some a => simp [hi] at h
  | none =>
    simp only [hi, throw_apply, EStateM.Result.error.injEq] at h
    exact ⟨h.1.symm, rfl⟩

/-- `get_product_data` inside a command fails on a code without a row. -/
theorem orThrow_getProductData_error {σ : Type} {code : ℤ} {t : Table} {s s' : σ}
    (h : orThrow (getProductData code t) s = .error e s') :
    e = .thrown .missingRow ∧ ∀ r ∈ t, r.code ≠ code := by
  obtain ⟨d, hp, rfl, -⟩ := orThrow_eq_error.1 h
  obtain ⟨rfl, hnone⟩ := getProductData_eq_error.1 hp
  exact ⟨rfl, hnone⟩

/-- Reading the products of codes fails for a code without a row. -/
theorem readProducts_error {codes : List ℤ} {t : Table} {x : Exception}
    (h : readProducts codes t = .error x) :
    x = .missingRow ∧ ∃ code ∈ codes, ∀ r ∈ t, r.code ≠ code := by
  induction codes with
  | nil => cases h
  | cons code codes ih =>
    rw [readProducts] at h
    cases hp : getProductData code t with
    | error y =>
      obtain ⟨rfl, hnone⟩ := getProductData_eq_error.1 hp
      rw [hp] at h
      cases h
      exact ⟨rfl, code, by simp, hnone⟩
    | ok p =>
      rw [hp] at h
      obtain ⟨hx, c, hc, hnone⟩ := ih h
      exact ⟨hx, c, by simp [hc], hnone⟩

/-- So does the redraw that reads them. -/
theorem orThrow_readProducts_error {σ : Type} {codes : List ℤ} {t : Table} {s s' : σ}
    (h : orThrow (readProducts codes t) s = .error e s') :
    e = .thrown .missingRow ∧ ∃ code ∈ codes, ∀ r ∈ t, r.code ≠ code := by
  obtain ⟨d, hp, rfl, -⟩ := orThrow_eq_error.1 h
  obtain ⟨rfl, hlost⟩ := readProducts_error hp
  exact ⟨rfl, hlost⟩

/-- The form halts for a reason of its own only where its code has no row. -/
theorem runForm_error {code : ℤ} {modifying : Bool}
    (h : runForm srv code modifying w = .error e w') (he : e.Internal) :
    e = .thrown .missingRow ∧ ∀ r ∈ w.table, r.code ≠ code := by
  simp only [runForm, bind_eq_error, get_apply, reduceCtorEq, false_or,
    EStateM.Result.ok.injEq, modify_apply, and_false, exists_false, or_false] at h
  obtain ⟨_, _, ⟨rfl, rfl⟩, h⟩ := h
  unfold withKeys at h
  cases hk : addModifyProduct srv w.settings.maxNameLength code modifying w.table w.keys with
  | ok a keys => simp [hk] at h
  | error e' keys =>
    simp only [hk, EStateM.Result.error.injEq] at h
    obtain ⟨rfl, -⟩ := h
    exact addModifyProduct_error hk he

/-- The items of a receipt fail for a code without a row. -/
theorem receiptLines_error {basket : List BasketProduct} {t : Table} {x : Exception}
    (h : receiptLines basket t = .error x) :
    x = .missingRow ∧ ∃ b ∈ basket, ∀ r ∈ t, r.code ≠ b.code := by
  induction basket with
  | nil => cases h
  | cons b basket ih =>
    rw [receiptLines] at h
    cases hp : getProductData b.code t with
    | error y =>
      obtain ⟨rfl, hnone⟩ := getProductData_eq_error.1 hp
      rw [hp] at h
      cases h
      exact ⟨rfl, b, by simp, hnone⟩
    | ok p =>
      cases hlines : receiptLines basket t with
      | error y =>
        rw [hp, hlines] at h
        cases h
        obtain ⟨hx, c, hc, hnone⟩ := ih hlines
        exact ⟨hx, c, by simp [hc], hnone⟩
      | ok items =>
        rw [hp, hlines] at h
        cases h

/-- **Printing fails** for want of keys or printer, or on a code without a row. -/
theorem printReceipt_error {basket : List BasketProduct} {t : Table} {total : ℚ}
    {keys : List Key} {printer : Printer} {s : List Key × Printer}
    (h : printReceipt basket t total keys printer = .error e s) :
    e = .waiting ∨ e = .thrown .missingRow ∧ ∃ b ∈ basket, ∀ r ∈ t, r.code ≠ b.code := by
  induction keys generalizing printer with
  | nil =>
    unfold printReceipt at h
    by_cases hb : basket = []
    · simp only [hb, if_true, EStateM.Result.error.injEq] at h
      exact .inl h.1.symm
    · rw [if_neg hb] at h
      cases hres : printer.results with
      | nil =>
        simp only [hres, EStateM.Result.error.injEq] at h
        exact .inl h.1.symm
      | cons attempt results =>
        cases hitems : receiptLines basket t with
        | error x =>
          obtain ⟨rfl, hlost⟩ := receiptLines_error hitems
          simp only [hres, hitems] at h
          split at h <;> simp only [EStateM.Result.error.injEq] at h
          · exact .inr ⟨h.1.symm, hlost⟩
          · exact .inl h.1.symm
        | ok items =>
          simp only [hres, hitems] at h
          split at h <;> simp only [EStateM.Result.error.injEq] at h <;> exact .inl h.1.symm
  | cons key keys ih =>
    unfold printReceipt at h
    by_cases hb : basket = []
    · simp [hb] at h
    · rw [if_neg hb] at h
      cases hres : printer.results with
      | nil =>
        simp only [hres, EStateM.Result.error.injEq] at h
        exact .inl h.1.symm
      | cons attempt results =>
        cases hopen : attempt.opened with
        | false => simp [hres, hopen] at h
        | true =>
          cases hitems : receiptLines basket t with
          | error x =>
            obtain ⟨rfl, hlost⟩ := receiptLines_error hitems
            simp only [hres, hopen, hitems, if_true, EStateM.Result.error.injEq] at h
            exact .inr ⟨h.1.symm, hlost⟩
          | ok items =>
            simp only [hres, hopen, hitems, if_true] at h
            by_cases hkey : key = charKey 'y'
            · simp only [hkey, if_true] at h
              exact ih h
            · simp [hkey] at h

/-- So does printing it, for a reason of its own. -/
theorem printFromLoop_error (h : printFromLoop w = .error e w') (he : e.Internal) :
    e = .thrown .missingRow ∧ ∃ b ∈ w.basket, ∀ r ∈ w.table, r.code ≠ b.code := by
  unfold printFromLoop at h
  cases hp : printReceipt w.basket w.table w.total w.keys w.printer with
  | ok printed s => simp [hp] at h
  | error e' s =>
    simp only [hp, EStateM.Result.error.injEq] at h
    obtain ⟨rfl, -⟩ := h
    obtain rfl | hlost := printReceipt_error hp
    · exact he.elim
    · exact hlost

/-- A scan asks for products that exist only. -/
theorem scanProduct_error {code : ℤ} (h : scanProduct code w = .error e w') : External e := by
  simp only [scanProduct, bind_eq_error, get_apply, reduceCtorEq, false_or,
    EStateM.Result.ok.injEq] at h
  obtain ⟨_, _, ⟨rfl, rfl⟩, h⟩ := h
  cases ht : w.currentTab with
  | stock => simp [ht] at h
  | basket | products =>
    simp only [ht, bind_eq_error, orThrow_eq_ok] at h
    obtain h | ⟨found, _, ⟨hfound, rfl⟩, h⟩ := h
    · exact onlyHalts_orThrow (productExists_ne_missingRow _ _) _ _ _ h
    · cases found with
      | false =>
        simp only [Bool.false_eq_true, if_false, bind_eq_error, pure_apply, reduceCtorEq,
          and_false, exists_false, or_false] at h
        exact withKeys_error onlyWaits_getch.external h
      | true =>
        simp only [if_true, bind_eq_error, addOne_apply, modify_apply, reduceCtorEq, and_false,
          exists_false, or_false] at h
        obtain ⟨r, hr, hc⟩ := exists_row_of_productExists hfound
        exact absurd hc ((orThrow_getProductData_error h).2 r hr)

/-- **A scan** halts for external reasons only, in every state. -/
theorem scanCommand_error (h : scanCommand w = .error e w') : External e := by
  simp only [scanCommand, scanCode, bind_eq_error, withKeys_eq_ok, modify_apply, reduceCtorEq,
    and_false, exists_false, or_false] at h
  obtain (h | ⟨text, _, ⟨keys, -, rfl⟩, h⟩) | ⟨code, v, -, h⟩ := h
  · exact withKeys_error (onlyWaits_getString _ _).external h
  · cases text with
    | none => exact onlyHalts_throwException (by simp) _ _ _ h
    | some text => exact onlyHalts_orThrow (parseInteger_ne_missingRow _ _) _ _ _ h
  · exact scanProduct_error h

/-- A search halts where the index it found has no code. -/
theorem searchCode_error {searchWord : Str} (h : searchCode srv searchWord w = .error e w') :
    e = .undefined .productCodesIndex ∧ ∃ index,
      binarySearch (nameList srv w.table) searchWord (w.uninit.headD 0) = .ok index ∧
      elementAt w.productCodes index = none := by
  simp only [searchCode, bind_eq_error, get_apply, declare_apply, orHalt_eq_ok, reduceCtorEq,
    false_or, EStateM.Result.ok.injEq] at h
  obtain ⟨_, _, ⟨rfl, rfl⟩, _, _, ⟨rfl, rfl⟩, h | ⟨index, _, ⟨hindex, rfl⟩, h⟩⟩ := h
  · cases hb : binarySearch (nameList srv w.table) searchWord (w.uninit.headD 0) with
    | error d => exact absurd hb (binarySearch_ne_error _ _ _ d)
    | ok i =>
      rw [hb] at h
      cases h
  · obtain ⟨rfl, hi⟩ := readAt_error h
    exact ⟨rfl, index, hindex, hi⟩

/-- What follows the search halts for a reason of its own only where the code has no row. -/
theorem searchAnswer_error {code : ℤ} {key : Key}
    (h : searchAnswer srv code key w = .error e w') (he : e.Internal) :
    e = .thrown .missingRow ∧ ∀ r ∈ w.table, r.code ≠ code := by
  unfold searchAnswer at h
  split at h
  · exact runForm_error h he
  · split at h
    · simp only [bind_eq_error, get_apply, addOne_apply, modify_apply, reduceCtorEq, false_or,
        and_false, exists_false, or_false, EStateM.Result.ok.injEq] at h
      obtain ⟨_, _, ⟨rfl, rfl⟩, h⟩ := h
      exact orThrow_getProductData_error h
    · cases h

/-! ## The commands -/

/-- The index under which a command reads `list`, when it does. -/
def Command.selects (lines : ℤ) (c : Command) (w : World) : Option ℤ :=
  match c with
  | .remove =>
    if currentListSize w ≠ 0 then some (removeAdjust lines w).selection else none
  | .addProduct => if w.currentTab ≠ .basket then some w.selection else none
  | .modifyProduct => if currentListSize w ≠ 0 then some w.selection else none
  | .enter => if w.currentTab = .products then some w.selection else none
  | _ => none

/-- A code that some list of the program holds has no row. -/
def LostCode (w : World) : Prop :=
  ∃ code, (code ∈ w.list ∨ code ∈ w.productCodes ∨ ∃ b ∈ w.basket, b.code = code) ∧
    ∀ r ∈ w.table, r.code ≠ code

/-- `q` halts for a reason from outside. -/
theorem quitCommand_error (h : quitCommand w = .error e w') : External e := by
  simp only [quitCommand, bind_eq_error, get_apply, reduceCtorEq, false_or,
    EStateM.Result.ok.injEq] at h
  obtain ⟨_, _, ⟨rfl, rfl⟩, h⟩ := h
  split at h
  · simp only [bind_eq_error, modify_apply, reduceCtorEq, false_or,
      EStateM.Result.ok.injEq] at h
    obtain h | ⟨key, v, -, _, _, -, h⟩ := h
    · exact withKeys_error onlyWaits_getch.external h
    · split at h
      · simp only [throw_apply, EStateM.Result.error.injEq] at h
        obtain ⟨rfl, -⟩ := h
        exact not_false
      · cases h
  · simp only [throw_apply, EStateM.Result.error.injEq] at h
    obtain ⟨rfl, -⟩ := h
    exact not_false

/-- So do the menus. -/
theorem menuCommand_error (h : menuCommand w = .error e w') : External e := by
  unfold menuCommand at h
  cases hm : startMainMenu (w.settings, w.keys) with
  | ok u s => simp [hm] at h
  | error e' s =>
    simp only [hm, EStateM.Result.error.injEq] at h
    obtain ⟨rfl, -⟩ := h
    exact onlyHalts_startMainMenu _ _ _ hm

/-- **`R`** halts on its index into `list`, or on a code that the basket does not hold. -/
theorem removeCommand_error (h : removeCommand lines w = .error e w') :
    (e = .undefined .listSelection ∧
      ∃ i ∈ Command.remove.selects lines w, elementAt w.list i = none) ∨
    (e = .undefined .basketRemove ∧ w.currentTab = .basket ∧
      ∃ code ∈ w.list, removeFromBasket code w.basket = none) := by
  simp only [removeCommand, bind_eq_error, get_apply, reduceCtorEq, false_or,
    EStateM.Result.ok.injEq] at h
  obtain ⟨_, _, ⟨rfl, rfl⟩, h⟩ := h
  split at h
  · rename_i hn
    simp only [bind_eq_error, modify_apply, get_apply, reduceCtorEq, false_or,
      EStateM.Result.ok.injEq, readAt_eq_ok] at h
    obtain ⟨_, _, ⟨-, rfl⟩, _, _, ⟨rfl, rfl⟩, h | ⟨code, _, ⟨hcode, rfl⟩, h⟩⟩ := h
    · obtain ⟨rfl, hi⟩ := readAt_error h
      rw [removeAdjust_list] at hi
      exact .inl ⟨rfl, _, by simp [Command.selects, hn], hi⟩
    · rw [removeAdjust_list] at hcode
      rw [removeAdjust_currentTab, removeAdjust_basket] at h
      cases ht : w.currentTab with
      | products | stock => simp [ht] at h
      | basket =>
        simp only [ht] at h
        cases hb : removeFromBasket code w.basket with
        | some basket => simp [hb] at h
        | none =>
          simp only [hb, throw_apply, EStateM.Result.error.injEq] at h
          exact .inr ⟨h.1.symm, rfl, code, elementAt_eq_some hcode, hb⟩
  · cases h

/-- **A search** halts on its index into `product_codes`, or on a code without a row. -/
theorem searchCommand_error (h : searchCommand srv w = .error e w') (he : e.Internal) :
    (e = .undefined .productCodesIndex ∧ ∃ searchWord keys index,
      getString [] 0 w.keys = .ok (some searchWord) keys ∧
      binarySearch (nameList srv w.table) searchWord (w.uninit.headD 0) = .ok index ∧
      elementAt w.productCodes index = none) ∨
    (e = .thrown .missingRow ∧ LostCode w) := by
  simp only [searchCommand, bind_eq_error, withKeys_eq_ok] at h
  obtain h | ⟨word, _, ⟨keys, hword, rfl⟩, h⟩ := h
  · exact absurd he (withKeys_error (onlyWaits_getString _ _).external h)
  · cases word with
    | none => cases h
    | some word =>
      obtain h | ⟨code, v, hcode, h⟩ := bind_eq_error.1 h
      · obtain ⟨rfl, index, hindex, hi⟩ := searchCode_error h
        exact .inl ⟨rfl, word, keys, index, hword, hindex, hi⟩
      · obtain ⟨index, -, hmem, rfl⟩ := searchCode_eq_ok.1 hcode
        simp only [bind_eq_error, get_apply, orThrow_eq_ok, withKeys_eq_ok, modify_apply,
          reduceCtorEq, false_or, EStateM.Result.ok.injEq] at h
        obtain ⟨_, _, ⟨rfl, rfl⟩, h | ⟨_, _, ⟨-, rfl⟩, h | ⟨key, _, ⟨keys', -, rfl⟩, _, _,
          ⟨-, rfl⟩, h⟩⟩⟩ := h
        · obtain ⟨rfl, c, hc, hnone⟩ := orThrow_readProducts_error h
          obtain rfl := List.mem_singleton.1 hc
          exact .inr ⟨rfl, c, .inr (.inl (elementAt_eq_some hmem)), hnone⟩
        · exact absurd he (withKeys_error onlyWaits_getch.external h)
        · obtain ⟨rfl, hnone⟩ := searchAnswer_error h he
          exact .inr ⟨rfl, code, .inr (.inl (elementAt_eq_some hmem)), hnone⟩

/-- **The halts of a command's own making.** -/
theorem body_error {c : Command} (h : c.body srv lines w = .error e w') (he : e.Internal) :
    (e = .undefined .listSelection ∧ ∃ i ∈ c.selects lines w, elementAt w.list i = none) ∨
    (e = .undefined .productCodesIndex ∧ c = .search ∧ ∃ searchWord keys index,
      getString [] 0 w.keys = .ok (some searchWord) keys ∧
      binarySearch (nameList srv w.table) searchWord (w.uninit.headD 0) = .ok index ∧
      elementAt w.productCodes index = none) ∨
    (e = .undefined .basketRemove ∧ w.currentTab = .basket ∧
      ∃ code ∈ w.list, removeFromBasket code w.basket = none) ∨
    (e = .thrown .missingRow ∧ LostCode w) := by
  cases c with
  | quit => exact absurd he (quitCommand_error h)
  | menu => exact absurd he (menuCommand_error h)
  | remove =>
    obtain ⟨rfl, i, hi, hnone⟩ | hremoved := removeCommand_error h
    · exact .inl ⟨rfl, i, hi, hnone⟩
    · exact .inr (.inr (.inl hremoved))
  | addProduct =>
    simp only [Command.body, addCommand, bind_eq_error, get_apply, reduceCtorEq, false_or,
      EStateM.Result.ok.injEq] at h
    obtain ⟨_, _, ⟨rfl, rfl⟩, h⟩ := h
    cases ht : w.currentTab with
    | basket => simp [ht] at h
    | products | stock =>
      simp only [ht, bind_eq_error, readAt_eq_ok] at h
      obtain h | ⟨code, _, ⟨hcode, rfl⟩, h⟩ := h
      · obtain ⟨rfl, hi⟩ := readAt_error h
        exact .inl ⟨rfl, w.selection, by simp [Command.selects, ht], hi⟩
      · obtain ⟨rfl, hnone⟩ := runForm_error h he
        exact .inr (.inr (.inr ⟨rfl, code, .inl (elementAt_eq_some hcode), hnone⟩))
  | modifyProduct =>
    simp only [Command.body, modifyCommand, bind_eq_error, get_apply, reduceCtorEq, false_or,
      EStateM.Result.ok.injEq] at h
    obtain ⟨_, _, ⟨rfl, rfl⟩, h⟩ := h
    split at h
    · rename_i hn
      simp only [bind_eq_error, readAt_eq_ok] at h
      obtain h | ⟨code, _, ⟨hcode, rfl⟩, h⟩ := h
      · obtain ⟨rfl, hi⟩ := readAt_error h
        exact .inl ⟨rfl, w.selection, by simp [Command.selects, hn], hi⟩
      · obtain ⟨rfl, hnone⟩ := runForm_error h he
        exact .inr (.inr (.inr ⟨rfl, code, .inl (elementAt_eq_some hcode), hnone⟩))
    · simp only [bind_eq_error, pure_apply, reduceCtorEq, and_false, exists_false, or_false] at h
      exact absurd he (withKeys_error onlyWaits_getch.external h)
  | enter =>
    simp only [Command.body, enterCommand, bind_eq_error, get_apply, reduceCtorEq, false_or,
      EStateM.Result.ok.injEq] at h
    obtain ⟨_, _, ⟨rfl, rfl⟩, h⟩ := h
    cases ht : w.currentTab with
    | basket | stock => simp [ht] at h
    | products =>
      simp only [ht, bind_eq_error, readAt_eq_ok, addOne_apply, modify_apply, reduceCtorEq,
        and_false, exists_false, or_false] at h
      obtain h | ⟨code, _, ⟨hcode, rfl⟩, h⟩ := h
      · obtain ⟨rfl, hi⟩ := readAt_error h
        exact .inl ⟨rfl, w.selection, by simp [Command.selects, ht], hi⟩
      · obtain ⟨rfl, hnone⟩ := orThrow_getProductData_error h
        exact .inr (.inr (.inr ⟨rfl, code, .inl (elementAt_eq_some hcode), hnone⟩))
  | search =>
    obtain ⟨rfl, hindex⟩ | hlost := searchCommand_error h he
    · exact .inr (.inl ⟨rfl, rfl, hindex⟩)
    · exact .inr (.inr (.inr hlost))
  | testReceipt =>
    simp only [Command.body, testReceiptCommand, bind_eq_error, withKeys_eq_ok, pure_apply,
      reduceCtorEq, and_false, exists_false, or_false] at h
    obtain h | ⟨key, _, ⟨keys, -, rfl⟩, h⟩ := h
    · exact absurd he (withKeys_error onlyWaits_getch.external h)
    · obtain ⟨rfl, b, hb, hnone⟩ := printFromLoop_error h he
      exact .inr (.inr (.inr ⟨rfl, b.code, .inr (.inr ⟨b, hb, rfl⟩), hnone⟩))
  | checkout =>
    simp only [Command.body, checkoutCommand, bind_eq_error, withKeys_eq_ok] at h
    obtain h | ⟨key, _, ⟨keys, -, rfl⟩, h | ⟨printed, _, -, h⟩⟩ := h
    · exact absurd he (withKeys_error onlyWaits_getch.external h)
    · obtain ⟨rfl, b, hb, hnone⟩ := printFromLoop_error h he
      exact .inr (.inr (.inr ⟨rfl, b.code, .inr (.inr ⟨b, hb, rfl⟩), hnone⟩))
    · cases printed <;> simp at h
  | scan => exact absurd he (scanCommand_error h)
  | nextTab | stockTab | scrollUp | scrollDown | up | down =>
    simp [Command.body] at h

/-! ## From the state a redraw leaves -/

/-- A code of the basket is found when one piece of it goes. -/
theorem removeFromBasket_isSome {code : ℤ} {basket : List BasketProduct}
    (h : ∃ b ∈ basket, b.code = code) : (removeFromBasket code basket).isSome := by
  induction basket with
  | nil => simp at h
  | cons b basket ih =>
    rw [removeFromBasket]
    by_cases hb : b.code = code
    · rw [if_pos hb]
      split_ifs <;> rfl
    · obtain ⟨c, hc, rfl⟩ := h
      obtain rfl | hc := List.mem_cons.1 hc
      · exact absurd rfl hb
      · rw [if_neg hb, Option.isSome_map]
        exact ih ⟨c, hc, rfl⟩

namespace Fresh

/-- Every code the program holds has a row. -/
theorem not_lostCode (h : Fresh srv lines w) : ¬LostCode w := by
  rintro ⟨code, hcode, hnone⟩
  have hrow : ∃ r ∈ w.table, r.code = code := by
    obtain hl | hp | ⟨b, hb, rfl⟩ := hcode
    · exact h.exists_row_of_mem_list hl
    · rw [h.codes_eq] at hp
      exact mem_codeList.1 hp
    · exact h.basketRows b hb
  obtain ⟨r, hr, hc⟩ := hrow
  exact hnone r hr hc

/-- In the basket tab the list holds codes of the basket. -/
theorem exists_basket_of_mem_list (h : Fresh srv lines w) (ht : w.currentTab = .basket)
    {code : ℤ} (hmem : code ∈ w.list) : ∃ b ∈ w.basket, b.code = code := by
  rw [h.list_eq] at hmem
  have hcur := List.mem_of_mem_drop (List.mem_of_mem_take hmem)
  simpa [currentCodes, ht] using hcur

/-- **From the state a redraw leaves** a command halts of its own making only by reading
`list[selection]` or `product_codes[index]` outside the vector. -/
theorem body_error (h : Fresh srv lines w) {c : Command}
    (hb : c.body srv lines w = .error e w') (he : e.Internal) :
    (e = .undefined .listSelection ∧ ∃ i ∈ c.selects lines w, elementAt w.list i = none) ∨
    (e = .undefined .productCodesIndex ∧ c = .search ∧ ∃ searchWord keys index,
      getString [] 0 w.keys = .ok (some searchWord) keys ∧
      binarySearch (nameList srv w.table) searchWord (w.uninit.headD 0) = .ok index ∧
      elementAt w.productCodes index = none) := by
  obtain hl | hp | ⟨-, ht, code, hcode, hnone⟩ | ⟨-, hlost⟩ := CliPos.body_error hb he
  · exact .inl hl
  · exact .inr hp
  · have := removeFromBasket_isSome (h.exists_basket_of_mem_list ht hcode)
    rw [hnone] at this
    cases this
  · exact absurd hlost h.not_lostCode

end Fresh

/-- The total fails for a code without a row. -/
theorem basketTotal_error {basket : List BasketProduct} {t : Table} {x : ℚ} {d : Exception}
    (h : basketTotal basket t x = .error d) :
    d = .missingRow ∧ ∃ b ∈ basket, ∀ r ∈ t, r.code ≠ b.code := by
  induction basket generalizing x with
  | nil => cases h
  | cons b basket ih =>
    rw [basketTotal] at h
    cases hp : getProductData b.code t with
    | error y =>
      obtain ⟨rfl, hnone⟩ := getProductData_eq_error.1 hp
      rw [hp] at h
      cases h
      exact ⟨rfl, b, by simp, hnone⟩
    | ok p =>
      rw [hp] at h
      obtain ⟨hx, c, hc, hnone⟩ := ih h
      exact ⟨hx, c, by simp [hc], hnone⟩

/-- **A redraw halts** of its own making only on a window outside the list, or on a basket
with a code without a row. -/
theorem redraw_error (h : redraw srv lines w = .error e w') (he : e.Internal) :
    (¬SliceInRange w w.start (visibleEnd lines w) ∧
      (e = .undefined .codes ∨ e = .undefined .visibleBasket)) ∨
    (¬BasketRows w ∧ e = .thrown .missingRow) := by
  simp only [redraw, bind_eq_error, modify_apply, get_apply, orThrow_eq_ok, reduceCtorEq,
    false_or, and_false, exists_false, or_false, EStateM.Result.ok.injEq, true_and] at h
  obtain ⟨_, _, rfl, hlist | ⟨list, v, hlist, _, _, rfl, _, _, ⟨rfl, rfl⟩, h⟩⟩ := h
  · rw [calculateVisibleProductList_eq] at hlist
    split at hlist
    · cases hlist
    · rename_i hr
      simp only [EStateM.Result.error.injEq] at hlist
      refine .inl ⟨hr, ?_⟩
      obtain ⟨rfl, -⟩ := hlist
      split_ifs <;> simp
  · rw [calculateVisibleProductList_eq] at hlist
    split at hlist
    case isFalse => cases hlist
    case isTrue hr =>
      simp only [EStateM.Result.ok.injEq] at hlist
      obtain ⟨rfl, rfl⟩ := hlist
      have hcodes : ∀ code ∈ codeList srv w.table, ∃ r ∈ w.table, r.code = code :=
        fun code hcode => mem_codeList.1 hcode
      obtain h | ⟨-, _, ⟨-, rfl⟩, h | ⟨total, _, ⟨htotal, rfl⟩, _, _, rfl, h | ⟨-, _, ⟨-, rfl⟩,
        h⟩⟩⟩ := h
      · obtain ⟨-, code, hcode, hnone⟩ := orThrow_readProducts_error h
        obtain ⟨r, hr, hc⟩ := hcodes code hcode
        exact absurd hc (hnone r hr)
      · obtain ⟨d, hd, rfl, -⟩ := orThrow_eq_error.1 h
        obtain ⟨rfl, b, hb, hnone⟩ := basketTotal_error hd
        refine .inr ⟨fun hrows => ?_, rfl⟩
        obtain ⟨r, hr, hc⟩ := hrows b hb
        exact hnone r hr hc
      · have hrows : BasketRows w := basketTotal_isOk htotal
        obtain ⟨-, code, hcode, hnone⟩ := orThrow_readProducts_error h
        obtain ⟨r, hr, hc⟩ : ∃ r ∈ w.table, r.code = code := by
          have hcur := List.mem_of_mem_drop (List.mem_of_mem_take hcode)
          exact exists_row_of_mem_currentCodes hrows hcur
        exact absurd hc (hnone r hr)
      · exact absurd he (withKeys_error onlyWaits_getch.external h)

/-- **Where an iteration halts**: in its redraw, or in a command that it ran. -/
theorem iteration_error (h : iteration srv lines w = .error e w') :
    redraw srv lines w = .error e w' ∨
      ∃ c v, (c, v) ∈ iterationTrace srv lines w ∧ c.body srv lines v = .error e w' := by
  unfold iteration at h
  obtain h | ⟨u, v, hr, h⟩ := bind_eq_error.1 h
  · exact .inl h
  · obtain ⟨c, v', hmem, hb⟩ := Chain.exists_of_run_error h
    exact .inr ⟨c, v', by rwa [iterationTrace, hr], hb⟩

/-- **The halts of an iteration's own making**: a redraw fails on the window or on a lost
product of the basket, and a command on its index into `list` or `product_codes`. -/
theorem iteration_internal (h : iteration srv lines w = .error e w') (he : e.Internal) :
    (¬SliceInRange w w.start (visibleEnd lines w) ∧
      (e = .undefined .codes ∨ e = .undefined .visibleBasket)) ∨
    (¬BasketRows w ∧ e = .thrown .missingRow) ∨
    ∃ c v, (c, v) ∈ iterationTrace srv lines w ∧ Fresh srv lines v ∧
      ((e = .undefined .listSelection ∧ ∃ i ∈ c.selects lines v, elementAt v.list i = none) ∨
      (e = .undefined .productCodesIndex ∧ c = .search ∧ ∃ searchWord keys index,
        getString [] 0 v.keys = .ok (some searchWord) keys ∧
        binarySearch (nameList srv v.table) searchWord (v.uninit.headD 0) = .ok index ∧
        elementAt v.productCodes index = none)) := by
  obtain hr | ⟨c, v, hmem, hb⟩ := iteration_error h
  · exact (redraw_error hr he).imp id .inl
  · have hscan : c ≠ .scan := by
      rintro rfl
      exact scanCommand_error hb he
    have hfresh := fresh_of_mem_trace hmem hscan
    exact .inr (.inr ⟨c, v, hmem, hfresh, hfresh.body_error hb he⟩)

end CliPos
