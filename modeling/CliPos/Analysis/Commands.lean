import CliPos.Model.MainLoop
import CliPos.Analysis.Prompts

/-!
# What each command can do

For every command of the main loop, the states it can return from a given state: one
lemma a command, stated once here so that no invariant has to go through the command's
text again.  A command that halts leaves the loop and is not mentioned; where a command
halts is said in `CliPos.Analysis.Halts` and `CliPos.Analysis.Conversions`.
-/

set_option autoImplicit false

namespace CliPos

open Decimal Halting

variable {srv : Server} {lines : ℤ} {w w' : World}

/-! ## The pieces commands are made of -/

/-- What reads keys in a command changes the keys, and nothing else of the state. -/
theorem withKeys_eq_ok {α : Type} {m : Input α} {a : α} :
    withKeys m w = .ok a w' ↔ ∃ keys, m w.keys = .ok a keys ∧ w' = { w with keys := keys } := by
  unfold withKeys
  cases h : m w.keys with
  | error e keys => simp
  | ok b keys =>
    simp only [EStateM.Result.ok.injEq]
    constructor
    · rintro ⟨rfl, rfl⟩
      exact ⟨keys, ⟨rfl, rfl⟩, rfl⟩
    · rintro ⟨keys', ⟨rfl, rfl⟩, rfl⟩
      exact ⟨rfl, rfl⟩

/-- A read that returned found its element. -/
theorem readAt_eq_ok {α : Type} {site : Site} {xs : List α} {i : ℤ} {a : α} :
    readAt site xs i w = .ok a w' ↔ elementAt xs i = some a ∧ w' = w := by
  unfold readAt
  cases elementAt xs i <;> simp [eq_comm]

/-- A step that may halt returned its value, and left the state. -/
theorem orHalt_eq_ok {α : Type} {x : Except Halt α} {a : α} :
    orHalt x w = .ok a w' ↔ x = .ok a ∧ w' = w := by
  cases x <;> simp [orHalt, eq_comm]

/-- A declaration without a value takes the next of the values that the run supplies. -/
@[simp] theorem declare_apply :
    declare w = .ok (w.uninit.headD 0) { w with uninit := w.uninit.tail } := rfl

/-- The state after one piece of a product went to the basket. -/
def afterAdd (p : Product) (w : World) : World :=
  { w with
    basket := addProductToBasket w.basket p.code 1 (w.uninit.headD 0 ≠ 0)
    uninit := w.uninit.tail
    history := w.history ++ [.added p.code] }

/-- Adding a piece never halts. -/
@[simp] theorem addOne_apply (p : Product) : addOne p w = .ok () (afterAdd p w) := rfl

/-- **The form** changes the table and the keys, as `addModifyProduct` says. -/
theorem runForm_eq_ok {code : ℤ} {modifying : Bool} :
    runForm srv code modifying w = .ok () w' ↔ ∃ table keys,
      addModifyProduct srv w.settings.maxNameLength code modifying w.table w.keys =
        .ok table keys ∧
      w' = { w with table := table, keys := keys } := by
  simp only [runForm, bind_eq_ok, get_apply, withKeys_eq_ok, EStateM.Result.ok.injEq,
    modify_apply]
  constructor
  · rintro ⟨_, _, ⟨rfl, rfl⟩, table, _, ⟨keys, h, rfl⟩, -, rfl⟩
    exact ⟨table, keys, h, rfl⟩
  · rintro ⟨table, keys, h, rfl⟩
    exact ⟨w, w, ⟨rfl, rfl⟩, table, _, ⟨keys, h, rfl⟩, trivial, rfl⟩

/-- What `print_receipt` did when the loop called it. -/
theorem printFromLoop_eq_ok {printed : Bool} :
    printFromLoop w = .ok printed w' ↔ ∃ keys printer,
      printReceipt w.basket w.table w.total w.keys w.printer = .ok printed (keys, printer) ∧
      w' = { w with keys := keys, printer := printer } := by
  unfold printFromLoop
  cases h : printReceipt w.basket w.table w.total w.keys w.printer with
  | error e s => simp
  | ok b s =>
    obtain ⟨keys, printer⟩ := s
    simp only [EStateM.Result.ok.injEq, Prod.mk.injEq]
    constructor
    · rintro ⟨rfl, rfl⟩
      exact ⟨keys, printer, ⟨rfl, rfl, rfl⟩, rfl⟩
    · rintro ⟨_, _, ⟨rfl, rfl, rfl⟩, rfl⟩
      exact ⟨rfl, rfl⟩

/-! ## Small state changes -/

section Fields

variable (lines w)

/-- The start of `R` leaves the list shown. -/
@[simp] theorem removeAdjust_list : (removeAdjust lines w).list = w.list := by
  unfold removeAdjust; dsimp only; split_ifs <;> rfl

/-- It leaves the tab. -/
@[simp] theorem removeAdjust_currentTab : (removeAdjust lines w).currentTab = w.currentTab := by
  unfold removeAdjust; dsimp only; split_ifs <;> rfl

/-- It leaves the basket. -/
@[simp] theorem removeAdjust_basket : (removeAdjust lines w).basket = w.basket := by
  unfold removeAdjust; dsimp only; split_ifs <;> rfl

/-- It leaves the products table. -/
@[simp] theorem removeAdjust_table : (removeAdjust lines w).table = w.table := by
  unfold removeAdjust; dsimp only; split_ifs <;> rfl

/-- It leaves the key. -/
@[simp] theorem removeAdjust_key : (removeAdjust lines w).key = w.key := by
  unfold removeAdjust; dsimp only; split_ifs <;> rfl

/-- It leaves the settings. -/
@[simp] theorem removeAdjust_settings : (removeAdjust lines w).settings = w.settings := by
  unfold removeAdjust; dsimp only; split_ifs <;> rfl

/-- It leaves the history of the basket. -/
@[simp] theorem removeAdjust_history : (removeAdjust lines w).history = w.history := by
  unfold removeAdjust; dsimp only; split_ifs <;> rfl

/-- It changes nothing when the cursor is not at the end of the window. -/
theorem removeAdjust_of_ne (h : w.selection ≠ w.stop) : removeAdjust lines w = w := by
  unfold removeAdjust; rw [if_neg h]

end Fields

/-- Only the tab, the window and the cursor differ. -/
def MovesCursor (w w' : World) : Prop :=
  ∃ currentTab start stop selection indexedSelection,
    w' = { w with currentTab, start, stop, selection, indexedSelection }

namespace MovesCursor

/-- Moving the cursor leaves the key. -/
theorem key (h : MovesCursor w w') : w'.key = w.key := by
  obtain ⟨_, _, _, _, _, rfl⟩ := h
  rfl

/-- It leaves the settings. -/
theorem settings (h : MovesCursor w w') : w'.settings = w.settings := by
  obtain ⟨_, _, _, _, _, rfl⟩ := h
  rfl

/-- It leaves the basket. -/
theorem basket (h : MovesCursor w w') : w'.basket = w.basket := by
  obtain ⟨_, _, _, _, _, rfl⟩ := h
  rfl

/-- It leaves the products table. -/
theorem table (h : MovesCursor w w') : w'.table = w.table := by
  obtain ⟨_, _, _, _, _, rfl⟩ := h
  rfl

/-- It leaves the history of the basket. -/
theorem history (h : MovesCursor w w') : w'.history = w.history := by
  obtain ⟨_, _, _, _, _, rfl⟩ := h
  rfl

end MovesCursor

/-- Going to the basket moves the cursor. -/
theorem movesCursor_showBasket (w : World) : MovesCursor w (showBasket w) := by
  unfold showBasket resetCursor
  dsimp only
  split_ifs <;> exact ⟨_, _, _, _, _, rfl⟩

/-- The end of a scan: the cursor goes to the top when it is behind the list. -/
def clampCursor (w : World) : World :=
  if w.selection ≥ currentListSize w then resetCursor w else w

/-- Pulling the cursor back to the list moves the cursor. -/
theorem movesCursor_clampCursor (w : World) : MovesCursor w (clampCursor w) := by
  unfold clampCursor resetCursor
  split_ifs <;> exact ⟨_, _, _, _, _, rfl⟩

/-- The commands that only change the tab, the window or the cursor. -/
def cursorCommands : List Command :=
  [.nextTab, .stockTab, .scrollUp, .scrollDown, .up, .down]

/-- The commands of the cursor do no more than move it. -/
theorem body_movesCursor {c : Command} (hc : c ∈ cursorCommands)
    (h : c.body srv lines w = .ok () w') : MovesCursor w w' := by
  simp only [cursorCommands, List.mem_cons, List.not_mem_nil, or_false] at hc
  obtain rfl | rfl | rfl | rfl | rfl | rfl := hc <;>
    simp only [Command.body, modify_apply, EStateM.Result.ok.injEq, true_and] at h <;>
    subst h
  · unfold nextTabCommand resetCursor
    cases w.currentTab <;> dsimp only <;> split_ifs <;> exact ⟨_, _, _, _, _, rfl⟩
  · exact ⟨_, _, _, _, _, rfl⟩
  · unfold scrollUpCommand
    split_ifs <;> exact ⟨_, _, _, _, _, rfl⟩
  · unfold scrollDownCommand
    split_ifs <;> exact ⟨_, _, _, _, _, rfl⟩
  · unfold upCommand
    dsimp only
    split_ifs <;> exact ⟨_, _, _, _, _, rfl⟩
  · unfold downCommand
    dsimp only
    split_ifs <;> exact ⟨_, _, _, _, _, rfl⟩

/-! ## The commands -/

/-- **`q`** leaves the loop, or replaces the key by the answer to its question. -/
theorem quitCommand_eq_ok (h : quitCommand w = .ok () w') :
    w.basket ≠ [] ∧ ∃ key keys, w.keys = key :: keys ∧ key ≠ charKey 'y' ∧
      key ≠ charKey 'Y' ∧ w' = { w with key := key, keys := keys } := by
  simp only [quitCommand, bind_eq_ok, get_apply, EStateM.Result.ok.injEq] at h
  obtain ⟨_, _, ⟨rfl, rfl⟩, h⟩ := h
  split at h
  · rename_i hb
    simp only [bind_eq_ok, withKeys_eq_ok, modify_apply, EStateM.Result.ok.injEq] at h
    obtain ⟨key, _, ⟨keys, hkey, rfl⟩, _, _, ⟨-, rfl⟩, h⟩ := h
    split at h
    · simp at h
    · rename_i hne
      rw [not_or] at hne
      simp only [pure_apply, EStateM.Result.ok.injEq, true_and] at h
      exact ⟨hb, key, keys, getch_eq_ok.1 hkey, hne.1, hne.2, h.symm⟩
  · simp at h

/-- **ESC** changes the settings only. -/
theorem menuCommand_eq_ok (h : menuCommand w = .ok () w') :
    ∃ settings keys, w' = { w with settings := settings, keys := keys } := by
  unfold menuCommand at h
  split at h
  · rename_i u settings keys hm
    simp only [EStateM.Result.ok.injEq, true_and] at h
    exact ⟨settings, keys, h.symm⟩
  · cases h

/-- **`R`** on an empty list does nothing; otherwise it erases the rows of the code under
the cursor, or takes one piece of it out of the basket. -/
theorem removeCommand_eq_ok (h : removeCommand lines w = .ok () w') :
    (currentListSize w = 0 ∧ w' = w) ∨
    currentListSize w ≠ 0 ∧ ∃ code,
      elementAt w.list (removeAdjust lines w).selection = some code ∧
      ((w.currentTab ≠ .basket ∧
          w' = { removeAdjust lines w with table := erase code w.table }) ∨
        (w.currentTab = .basket ∧ ∃ basket, removeFromBasket code w.basket = some basket ∧
          w' = { removeAdjust lines w with
            basket := basket, history := w.history ++ [.removed code] })) := by
  simp only [removeCommand, bind_eq_ok, get_apply, EStateM.Result.ok.injEq] at h
  obtain ⟨_, _, ⟨rfl, rfl⟩, h⟩ := h
  split at h
  · rename_i hn
    simp only [bind_eq_ok, modify_apply, get_apply, readAt_eq_ok, EStateM.Result.ok.injEq] at h
    obtain ⟨_, _, ⟨-, rfl⟩, _, _, ⟨rfl, rfl⟩, code, _, ⟨hcode, rfl⟩, h⟩ := h
    rw [removeAdjust_list] at hcode
    rw [removeAdjust_currentTab, removeAdjust_basket] at h
    refine .inr ⟨hn, code, hcode, ?_⟩
    cases ht : w.currentTab with
    | basket =>
      simp only [ht] at h
      cases hb : removeFromBasket code w.basket with
      | none => simp [hb] at h
      | some basket =>
        simp only [hb, modify_apply, EStateM.Result.ok.injEq, true_and,
          removeAdjust_history] at h
        exact .inr ⟨rfl, basket, rfl, h.symm⟩
    | products | stock =>
      simp only [ht, modify_apply, EStateM.Result.ok.injEq, true_and, removeAdjust_table] at h
      exact .inl ⟨by simp, h.symm⟩
  · rename_i hn
    simp only [pure_apply, EStateM.Result.ok.injEq, true_and] at h
    exact .inl ⟨not_not.1 hn, h.symm⟩

/-- **`a`** runs the form on the code under the cursor, outside the basket tab. -/
theorem addCommand_eq_ok (h : addCommand srv w = .ok () w') :
    (w.currentTab = .basket ∧ w' = w) ∨
    w.currentTab ≠ .basket ∧ ∃ code table keys, elementAt w.list w.selection = some code ∧
      addModifyProduct srv w.settings.maxNameLength code false w.table w.keys =
        .ok table keys ∧
      w' = { w with table := table, keys := keys } := by
  simp only [addCommand, bind_eq_ok, get_apply, EStateM.Result.ok.injEq] at h
  obtain ⟨_, _, ⟨rfl, rfl⟩, h⟩ := h
  cases ht : w.currentTab with
  | basket =>
    simp only [ht, pure_apply, EStateM.Result.ok.injEq, true_and] at h
    exact .inl ⟨rfl, h.symm⟩
  | products | stock =>
    simp only [ht, bind_eq_ok, readAt_eq_ok, runForm_eq_ok] at h
    obtain ⟨code, _, ⟨hcode, rfl⟩, table, keys, hform, rfl⟩ := h
    exact .inr ⟨by simp, code, table, keys, hcode, hform, by rw [← ht]⟩

/-- **`m`** runs the form on the code under the cursor, or shows a message. -/
theorem modifyCommand_eq_ok (h : modifyCommand srv w = .ok () w') :
    (currentListSize w = 0 ∧ ∃ keys, w' = { w with keys := keys }) ∨
    currentListSize w ≠ 0 ∧ ∃ code table keys, elementAt w.list w.selection = some code ∧
      addModifyProduct srv w.settings.maxNameLength code true w.table w.keys =
        .ok table keys ∧
      w' = { w with table := table, keys := keys } := by
  simp only [modifyCommand, bind_eq_ok, get_apply, EStateM.Result.ok.injEq] at h
  obtain ⟨_, _, ⟨rfl, rfl⟩, h⟩ := h
  split at h
  · rename_i hn
    simp only [bind_eq_ok, readAt_eq_ok, runForm_eq_ok] at h
    obtain ⟨code, _, ⟨hcode, rfl⟩, table, keys, hform, rfl⟩ := h
    exact .inr ⟨hn, code, table, keys, hcode, hform, rfl⟩
  · rename_i hn
    simp only [bind_eq_ok, withKeys_eq_ok, pure_apply, EStateM.Result.ok.injEq, true_and] at h
    obtain ⟨_, _, ⟨keys, -, rfl⟩, rfl⟩ := h
    exact .inl ⟨not_not.1 hn, keys, rfl⟩

/-- **Enter** puts the product under the cursor into the basket, in the products tab. -/
theorem enterCommand_eq_ok (h : enterCommand w = .ok () w') :
    (w.currentTab ≠ .products ∧ w' = w) ∨
    w.currentTab = .products ∧ ∃ code p, elementAt w.list w.selection = some code ∧
      getProductData code w.table = .ok p ∧ w' = showBasket (afterAdd p w) := by
  simp only [enterCommand, bind_eq_ok, get_apply, EStateM.Result.ok.injEq] at h
  obtain ⟨_, _, ⟨rfl, rfl⟩, h⟩ := h
  cases ht : w.currentTab with
  | products =>
    simp only [ht, bind_eq_ok, readAt_eq_ok, orThrow_eq_ok, addOne_apply, modify_apply,
      EStateM.Result.ok.injEq, true_and] at h
    obtain ⟨code, _, ⟨hcode, rfl⟩, p, _, ⟨hp, rfl⟩, _, _, rfl, rfl⟩ := h
    exact .inr ⟨rfl, code, p, hcode, hp, rfl⟩
  | basket | stock =>
    simp only [ht, pure_apply, EStateM.Result.ok.injEq, true_and] at h
    exact .inl ⟨by simp, h.symm⟩

/-- What the key after a search does. -/
theorem searchAnswer_eq_ok {code : ℤ} {key : Key}
    (h : searchAnswer srv code key w = .ok () w') :
    (key = charKey 'm' ∧ ∃ table keys,
      addModifyProduct srv w.settings.maxNameLength code true w.table w.keys =
        .ok table keys ∧ w' = { w with table := table, keys := keys }) ∨
    (key = keyEnter ∧ ∃ p, getProductData code w.table = .ok p ∧
      w' = showBasket (afterAdd p w)) ∨
    (key ≠ charKey 'm' ∧ key ≠ keyEnter ∧ w' = w) := by
  unfold searchAnswer at h
  split at h
  · rename_i hm
    exact .inl ⟨hm, runForm_eq_ok.1 h⟩
  · rename_i hm
    split at h
    · rename_i he
      simp only [bind_eq_ok, get_apply, orThrow_eq_ok, addOne_apply, modify_apply,
        EStateM.Result.ok.injEq, true_and] at h
      obtain ⟨_, _, ⟨rfl, rfl⟩, p, _, ⟨hp, rfl⟩, _, _, rfl, rfl⟩ := h
      exact .inr (.inl ⟨he, p, hp, rfl⟩)
    · rename_i he
      simp only [pure_apply, EStateM.Result.ok.injEq, true_and] at h
      exact .inr (.inr ⟨hm, he, h.symm⟩)

/-- The state in which a search has read its answer `key`. -/
def afterSearch (key : Key) (keys : List Key) (w : World) : World :=
  { w with key := key, keys := keys, uninit := w.uninit.tail }

/-- A search that returned found an index, and a code at it. -/
theorem searchCode_eq_ok {searchWord : Str} {code : ℤ} :
    searchCode srv searchWord w = .ok code w' ↔ ∃ index,
      binarySearch (nameList srv w.table) searchWord (w.uninit.headD 0) = .ok index ∧
      elementAt w.productCodes index = some code ∧ w' = { w with uninit := w.uninit.tail } := by
  simp only [searchCode, bind_eq_ok, get_apply, declare_apply, orHalt_eq_ok, readAt_eq_ok,
    EStateM.Result.ok.injEq]
  constructor
  · rintro ⟨_, _, ⟨rfl, rfl⟩, _, _, ⟨rfl, rfl⟩, index, _, ⟨hindex, rfl⟩, hcode, rfl⟩
    exact ⟨index, hindex, hcode, rfl⟩
  · rintro ⟨index, hindex, hcode, rfl⟩
    exact ⟨_, _, ⟨rfl, rfl⟩, _, _, ⟨rfl, rfl⟩, index, _, ⟨hindex, rfl⟩, hcode, rfl⟩

/-- **`/`** is cancelled, or finds a code and acts on the key that follows. -/
theorem searchCommand_eq_ok (h : searchCommand srv w = .ok () w') :
    (∃ keys, getString [] 0 w.keys = .ok none keys ∧ w' = { w with keys := keys }) ∨
    ∃ word key keys index code,
      getString [] 0 w.keys = .ok (some word) (key :: keys) ∧
      binarySearch (nameList srv w.table) word (w.uninit.headD 0) = .ok index ∧
      elementAt w.productCodes index = some code ∧
      searchAnswer srv code key (afterSearch key keys w) = .ok () w' := by
  simp only [searchCommand, bind_eq_ok, withKeys_eq_ok] at h
  obtain ⟨word, _, ⟨keys, hword, rfl⟩, h⟩ := h
  cases word with
  | none =>
    simp only [pure_apply, EStateM.Result.ok.injEq, true_and] at h
    exact .inl ⟨keys, hword, h.symm⟩
  | some word =>
    simp only [bind_eq_ok, searchCode_eq_ok, get_apply, orThrow_eq_ok, withKeys_eq_ok,
      modify_apply, EStateM.Result.ok.injEq] at h
    obtain ⟨code, _, ⟨index, hindex, hcode, rfl⟩, _, _, ⟨rfl, rfl⟩, -, _, ⟨-, rfl⟩, key, _,
      ⟨keys', hkey, rfl⟩, -, _, ⟨-, rfl⟩, h⟩ := h
    obtain rfl := getch_eq_ok.1 hkey
    exact .inr ⟨word, key, keys', index, code, hword, hindex, hcode, h⟩

/-- **`t`** leaves everything but the keys and the printer. -/
theorem testReceiptCommand_eq_ok (h : testReceiptCommand w = .ok () w') :
    ∃ key keys printed keys' printer, w.keys = key :: keys ∧
      printReceipt w.basket w.table w.total keys w.printer = .ok printed (keys', printer) ∧
      w' = { w with keys := keys', printer := printer } := by
  simp only [testReceiptCommand, bind_eq_ok, withKeys_eq_ok, printFromLoop_eq_ok, pure_apply,
    EStateM.Result.ok.injEq, true_and] at h
  obtain ⟨key, _, ⟨keys, hkey, rfl⟩, printed, _, ⟨keys', printer, hp, rfl⟩, rfl⟩ := h
  exact ⟨key, keys, printed, keys', printer, getch_eq_ok.1 hkey, hp, rfl⟩

/-- **`T`** empties the basket exactly when `print_receipt` returned true. -/
theorem checkoutCommand_eq_ok (h : checkoutCommand w = .ok () w') :
    ∃ key keys printed keys' printer, w.keys = key :: keys ∧
      printReceipt w.basket w.table w.total keys w.printer = .ok printed (keys', printer) ∧
      w' = if printed then
          { w with keys := keys', printer := printer, basket := [], total := 0,
                   history := w.history ++ [.checkedOut] }
        else { w with keys := keys', printer := printer } := by
  simp only [checkoutCommand, bind_eq_ok, withKeys_eq_ok, printFromLoop_eq_ok] at h
  obtain ⟨key, _, ⟨keys, hkey, rfl⟩, printed, _, ⟨keys', printer, hp, rfl⟩, h⟩ := h
  refine ⟨key, keys, printed, keys', printer, getch_eq_ok.1 hkey, hp, ?_⟩
  cases printed <;>
    simpa only [Bool.false_eq_true, if_false, if_true, pure_apply, modify_apply,
      EStateM.Result.ok.injEq, true_and, eq_comm] using h

/-- **A scan** adds the product of the code to the basket and shows it, when there is
one and the tab is not the stock tab. -/
theorem scanCommand_eq_ok (h : scanCommand w = .ok () w') :
    ∃ text keys code, getString [] 0 w.keys = .ok (some text) keys ∧
      stol (removeNonNr text) = .ok code ∧
      ((w.currentTab = .stock ∧ w' = clampCursor { w with keys := keys }) ∨
        (w.currentTab ≠ .stock ∧ productExists code w.table = .ok false ∧
          ∃ keys', w' = clampCursor { w with keys := keys' }) ∨
        (w.currentTab ≠ .stock ∧ productExists code w.table = .ok true ∧
          ∃ p, getProductData code w.table = .ok p ∧
          w' = clampCursor { afterAdd p { w with keys := keys } with currentTab := .basket })) := by
  simp only [scanCommand, scanCode, bind_eq_ok, withKeys_eq_ok, modify_apply,
    EStateM.Result.ok.injEq, true_and] at h
  obtain ⟨code, _, ⟨text, _, ⟨keys, htext, rfl⟩, h1⟩, _, v, h2, rfl⟩ := h
  cases text with
  | none => simp [throwException] at h1
  | some text =>
    simp only [orThrow_eq_ok] at h1
    obtain ⟨hcode, rfl⟩ := h1
    refine ⟨text, keys, code, htext, hcode, ?_⟩
    simp only [scanProduct, bind_eq_ok, get_apply, EStateM.Result.ok.injEq] at h2
    obtain ⟨_, _, ⟨rfl, rfl⟩, h2⟩ := h2
    cases ht : w.currentTab with
    | stock =>
      simp only [ht, pure_apply, EStateM.Result.ok.injEq, true_and] at h2
      exact .inl ⟨rfl, by rw [← h2]; rfl⟩
    | basket | products =>
      simp only [ht, bind_eq_ok, orThrow_eq_ok] at h2
      obtain ⟨found, _, ⟨hfound, rfl⟩, h2⟩ := h2
      cases found with
      | false =>
        simp only [Bool.false_eq_true, if_false, bind_eq_ok, withKeys_eq_ok, pure_apply,
          EStateM.Result.ok.injEq, true_and] at h2
        obtain ⟨_, _, ⟨keys', -, rfl⟩, rfl⟩ := h2
        exact .inr (.inl ⟨by simp, hfound, keys', rfl⟩)
      | true =>
        simp only [if_true, bind_eq_ok, orThrow_eq_ok, addOne_apply, modify_apply,
          EStateM.Result.ok.injEq, true_and] at h2
        obtain ⟨p, _, ⟨hp, rfl⟩, _, _, rfl, rfl⟩ := h2
        exact .inr (.inr ⟨by simp, hfound, p, hp, rfl⟩)

end CliPos
