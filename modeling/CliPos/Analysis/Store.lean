import CliPos.Analysis.Redraw
import CliPos.Analysis.Prompts

/-!
# What commands do to the sale

The basket, the products table and the history of the basket: a command does one of six
things to them (`StoreStep`), and a redraw does nothing.  The invariants of the sale are
case analyses over the six.
-/

set_option autoImplicit false

namespace CliPos

open Decimal Halting

variable {srv : Server} {lines : ℤ} {w w' : World}

/-! ## What a command saves and adds -/

/-- The command runs a form that ends with the product `p` to save. -/
def Saves (srv : Server) (c : Command) (w : World) (p : Product) : Prop :=
  match c with
  | .addProduct => w.currentTab ≠ .basket ∧ ∃ code ∈ elementAt w.list w.selection,
      FormSaves w.settings.maxNameLength code false w.table w.keys p
  | .modifyProduct => ∃ code ∈ elementAt w.list w.selection,
      FormSaves w.settings.maxNameLength code true w.table w.keys p
  | .search => ∃ word keys index code,
      getString [] 0 w.keys = .ok (some word) (charKey 'm' :: keys) ∧
      binarySearch (nameList srv w.table) word (w.uninit.headD 0) = .ok index ∧
      elementAt w.productCodes index = some code ∧
      FormSaves w.settings.maxNameLength code true w.table keys p
  | _ => False

/-- A command saves through a form over the table of its state. -/
theorem Saves.form {srv : Server} {c : Command} {w : World} {p : Product}
    (h : Saves srv c w p) : ∃ code modify keys,
      FormSaves w.settings.maxNameLength code modify w.table keys p := by
  cases c with
  | addProduct =>
    obtain ⟨-, code, -, hform⟩ := h
    exact ⟨code, false, w.keys, hform⟩
  | modifyProduct =>
    obtain ⟨code, -, hform⟩ := h
    exact ⟨code, true, w.keys, hform⟩
  | search =>
    obtain ⟨word, keys, index, code, -, -, -, hform⟩ := h
    exact ⟨code, true, keys, hform⟩
  | quit | menu | remove | nextTab | stockTab | scrollUp | scrollDown | enter | testReceipt
  | checkout | up | down | scan => exact h.elim

/-- The command saves no product name with a quote in it. -/
def NoQuote (srv : Server) (c : Command) (w : World) : Prop :=
  ∀ p, Saves srv c w p → quote ∉ p.name

/-- The code that a search finds. -/
def foundCode (srv : Server) (searchWord : Str) (w : World) : Option ℤ :=
  match binarySearch (nameList srv w.table) searchWord (w.uninit.headD 0) with
  | .ok index => elementAt w.productCodes index
  | .error _ => none

/-- The code that a command adds to the basket, if it does, with what the uninitialised
flag of `add_product_to_basket` then happens to hold. -/
def adds (srv : Server) (c : Command) (w : World) : Option (ℤ × ℤ) :=
  match c with
  | .enter =>
    if w.currentTab = .products then
      (elementAt w.list w.selection).map fun code => (code, w.uninit.headD 0)
    else none
  | .search =>
    match getString [] 0 w.keys with
    | .ok (some word) (key :: _) =>
      if key = keyEnter then
        (foundCode srv word w).map fun code => (code, w.uninit.tail.headD 0)
      else none
    | _ => none
  | .scan =>
    match getString [] 0 w.keys with
    | .ok (some text) _ =>
      match stol (removeNonNr text) with
      | .ok code =>
        if w.currentTab ≠ .stock ∧ codeCount code w.table = 1 then
          some (code, w.uninit.headD 0)
        else none
      | .error _ => none
    | _ => none
  | _ => none

/-! ## The six steps -/

/-- What a command can do to the basket, the table and the history. -/
inductive StoreStep (srv : Server) (lines : ℤ) (c : Command) (w w' : World) : Prop
  /-- Nothing. -/
  | quiet (basket : w'.basket = w.basket) (table : w'.table = w.table)
      (history : w'.history = w.history)
  /-- `R` erases the rows of the code under the cursor. -/
  | erased (code : ℤ) (command : c = .remove) (tab : w.currentTab ≠ .basket)
      (selected : elementAt w.list (removeAdjust lines w).selection = some code)
      (basket : w'.basket = w.basket) (table : w'.table = erase code w.table)
      (history : w'.history = w.history)
  /-- `R` takes one piece of the code under the cursor out of the basket. -/
  | removed (code : ℤ) (basket' : List BasketProduct) (command : c = .remove)
      (tab : w.currentTab = .basket)
      (selected : elementAt w.list (removeAdjust lines w).selection = some code)
      (taken : removeFromBasket code w.basket = some basket')
      (basket : w'.basket = basket') (table : w'.table = w.table)
      (history : w'.history = w.history ++ [.removed code])
  /-- A form saves a product. -/
  | saved (p : Product) (saves : Saves srv c w p) (basket : w'.basket = w.basket)
      (table : updateStock srv p w.table = .ok w'.table) (history : w'.history = w.history)
  /-- One piece of a product of the table goes to the basket. -/
  | added (p : Product) (flag : ℤ) (adds : (p.code, flag) ∈ adds srv c w)
      (row : getProductData p.code w.table = .ok p)
      (basket : w'.basket = addProductToBasket w.basket p.code 1 (flag ≠ 0))
      (table : w'.table = w.table) (history : w'.history = w.history ++ [.added p.code])
  /-- A checkout empties the basket. -/
  | checkedOut (command : c = .checkout) (basket : w'.basket = []) (table : w'.table = w.table)
      (history : w'.history = w.history ++ [.checkedOut])

/-- Moving the cursor afterwards makes no difference. -/
theorem StoreStep.movesCursor {c : Command} {v : World} (h : StoreStep srv lines c w v)
    (hm : MovesCursor v w') : StoreStep srv lines c w w' := by
  obtain ⟨_, _, _, _, _, rfl⟩ := hm
  cases h with
  | quiet basket table history => exact .quiet basket table history
  | erased code command tab selected basket table history =>
    exact .erased code command tab selected basket table history
  | removed code basket' command tab selected taken basket table history =>
    exact .removed code basket' command tab selected taken basket table history
  | saved p saves basket table history => exact .saved p saves basket table history
  | added p flag adds row basket table history =>
    exact .added p flag adds row basket table history
  | checkedOut command basket table history => exact .checkedOut command basket table history

/-- **A command does one of the six things.** -/
theorem body_store {c : Command} (h : c.body srv lines w = .ok () w') :
    StoreStep srv lines c w w' := by
  cases c with
  | quit =>
    obtain ⟨-, key, keys, -, -, -, rfl⟩ := quitCommand_eq_ok h
    exact .quiet rfl rfl rfl
  | menu =>
    obtain ⟨settings, keys, rfl⟩ := menuCommand_eq_ok h
    exact .quiet rfl rfl rfl
  | remove =>
    obtain ⟨-, rfl⟩ | ⟨-, code, hcode, ⟨ht, rfl⟩ | ⟨ht, basket, hb, rfl⟩⟩ :=
      removeCommand_eq_ok h
    · exact .quiet rfl rfl rfl
    · exact .erased code rfl ht hcode (removeAdjust_basket lines w) rfl
        (removeAdjust_history lines w)
    · exact .removed code basket rfl ht hcode hb rfl (removeAdjust_table lines w) rfl
  | addProduct =>
    obtain ⟨-, rfl⟩ | ⟨ht, code, table, keys, hcode, hform, rfl⟩ := addCommand_eq_ok h
    · exact .quiet rfl rfl rfl
    · obtain rfl | ⟨p, hp, hup⟩ := addModifyProduct_eq_ok hform
      · exact .quiet rfl rfl rfl
      · exact .saved p ⟨ht, code, hcode, hp⟩ rfl hup rfl
  | modifyProduct =>
    obtain ⟨-, keys, rfl⟩ | ⟨-, code, table, keys, hcode, hform, rfl⟩ := modifyCommand_eq_ok h
    · exact .quiet rfl rfl rfl
    · obtain rfl | ⟨p, hp, hup⟩ := addModifyProduct_eq_ok hform
      · exact .quiet rfl rfl rfl
      · exact .saved p ⟨code, hcode, hp⟩ rfl hup rfl
  | enter =>
    obtain ⟨-, rfl⟩ | ⟨ht, code, p, hcode, hp, rfl⟩ := enterCommand_eq_ok h
    · exact .quiet rfl rfl rfl
    · obtain rfl := getProductData_code hp
      refine StoreStep.movesCursor ?_ (movesCursor_showBasket _)
      exact .added p (w.uninit.headD 0) (by simp [adds, ht, hcode]) hp rfl rfl rfl
  | search =>
    obtain ⟨keys, -, rfl⟩ | ⟨word, key, keys, index, code, hword, hindex, hcode, h⟩ :=
      searchCommand_eq_ok h
    · exact .quiet rfl rfl rfl
    · obtain ⟨rfl, table, keys', hform, rfl⟩ | ⟨rfl, p, hp, rfl⟩ | ⟨-, -, rfl⟩ :=
        searchAnswer_eq_ok h
      · obtain rfl | ⟨p, hp, hup⟩ := addModifyProduct_eq_ok hform
        · exact .quiet rfl rfl rfl
        · exact .saved p ⟨word, keys, index, code, hword, hindex, hcode, hp⟩ rfl hup rfl
      · obtain rfl := getProductData_code hp
        refine StoreStep.movesCursor ?_ (movesCursor_showBasket _)
        refine .added p (w.uninit.tail.headD 0) ?_ hp rfl rfl rfl
        rw [adds, hword]
        simp only [if_true, foundCode, hindex, hcode]
        rfl
      · exact .quiet rfl rfl rfl
  | testReceipt =>
    obtain ⟨key, keys, printed, keys', printer, -, -, rfl⟩ := testReceiptCommand_eq_ok h
    exact .quiet rfl rfl rfl
  | checkout =>
    obtain ⟨key, keys, printed, keys', printer, -, -, rfl⟩ := checkoutCommand_eq_ok h
    cases printed with
    | true => exact .checkedOut rfl rfl rfl rfl
    | false => exact .quiet rfl rfl rfl
  | scan =>
    obtain ⟨text, keys, code, htext, hcode, ⟨-, rfl⟩ | ⟨-, -, keys', rfl⟩ |
      ⟨ht, hex, p, hp, rfl⟩⟩ := scanCommand_eq_ok h <;>
      refine StoreStep.movesCursor ?_ (movesCursor_clampCursor _)
    · exact .quiet rfl rfl rfl
    · exact .quiet rfl rfl rfl
    · obtain rfl := getProductData_code hp
      refine .added p (w.uninit.headD 0) ?_ hp rfl rfl rfl
      simp [adds, htext, hcode, ht, codeCount_eq_one hex]
  | nextTab | stockTab | scrollUp | scrollDown | up | down =>
    have hm := body_movesCursor (by decide) h
    exact .quiet hm.basket hm.table hm.history

/-- A redraw leaves the sale alone. -/
theorem redraw_store (h : redraw srv lines w = .ok () w') :
    w'.basket = w.basket ∧ w'.table = w.table ∧ w'.history = w.history := by
  obtain ⟨key, keys, total, -, -, -, rfl⟩ := redraw_eq_ok h
  exact ⟨rfl, rfl, rfl⟩

/-- **The rule for the sale.**  A property of the sale that every command of an iteration
keeps is kept by the iteration. -/
theorem iteration_store {P : World → Prop}
    (hcongr : ∀ v v' : World, v'.basket = v.basket → v'.table = v.table →
      v'.history = v.history → P v → P v')
    (hstep : ∀ c v v', (c, v) ∈ iterationTrace srv lines w → P v →
      StoreStep srv lines c v v' → P v')
    (h : P w) (hit : iteration srv lines w = .ok () w') : P w' := by
  obtain ⟨u, v, hr, hchain⟩ := bind_eq_ok.1 hit
  obtain ⟨hb, ht, hh⟩ := redraw_store hr
  refine Chain.run_inv (hcongr w v hb ht hh h) (fun c s s' hmem hs hbody => ?_) hchain
  refine hstep c s s' ?_ hs (body_store hbody)
  rwa [iterationTrace, hr]

/-- The same, at every command that an iteration runs. -/
theorem trace_store {P : World → Prop}
    (hcongr : ∀ v v' : World, v'.basket = v.basket → v'.table = v.table →
      v'.history = v.history → P v → P v')
    (hstep : ∀ c v v', (c, v) ∈ iterationTrace srv lines w → P v →
      StoreStep srv lines c v v' → P v')
    (h : P w) {c : Command} {v : World} (hmem : (c, v) ∈ iterationTrace srv lines w) : P v := by
  unfold iterationTrace at hmem hstep
  cases hr : redraw srv lines w with
  | error e s => simp [hr] at hmem
  | ok u w₁ =>
    simp only [hr] at hmem hstep
    obtain ⟨hb, ht, hh⟩ := redraw_store hr
    exact Chain.trace_inv (hcongr w w₁ hb ht hh h)
      (fun c s s' hs hp hbody => hstep c s s' hs hp (body_store hbody)) hmem

/-! ## Trying out runs -/

/-- Run `n` iterations, as long as every command they run passes a test. -/
def tryIterations (srv : Server) (lines : ℤ) (test : Command → World → Bool) :
    ℕ → World → Option World :=
  tryRuns (fun w => (iterationTrace srv lines w).all fun e => test e.1 e.2)
    (iteration srv lines)

/-- Iterations that are tried out, with a test at every command, are a run. -/
theorem runsWhere_of_tryIterations {test : Command → World → Bool}
    {ok : Command → World → Prop} {n : ℕ} (himp : ∀ c v, test c v = true → ok c v)
    (h : tryIterations srv lines test n w = some w') : RunsWhere srv lines ok w w' := by
  refine Runs.mono (fun v hv e he => himp _ _ ?_) (runs_of_tryRuns h)
  exact List.all_eq_true.1 hv e he

end CliPos
