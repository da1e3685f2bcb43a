import CliPos.Analysis.View
import CliPos.Analysis.Halts

/-!
# The visible window

`visible_product_list` is shared by three tabs with lists of different sizes, and the
commands that change the list or the tab set it back under conditions of their own, or not
at all.  `KeepsWindow` says command by command when the window stays inside the list; in a
run in which every command meets it, every redraw reads existing entries only
(`window_in_list`).
-/

set_option autoImplicit false

namespace CliPos

open Halting ListView

variable {srv : Server} {lines : ℤ} {w w' : World}

/-- The window starts inside the list shown, and no later than the last window. -/
def WindowInList (lines : ℤ) (w : World) : Prop :=
  InWindow (currentListSize w) (height lines w) w.start

/-- Whether the window is in its list can be tested along a run. -/
instance (lines : ℤ) (w : World) : Decidable (WindowInList lines w) := by
  unfold WindowInList; infer_instance

/-- The tab after `\\t`. -/
def nextTab : Tab → Tab
  | .basket => .products
  | .products => .basket
  | .stock => .products

/-- The state with another tab shown. -/
abbrev inTab (tab : Tab) (w : World) : World := { w with currentTab := tab }

/-- **When a command keeps the window inside the list.** -/
structure KeepsWindow (srv : Server) (lines : ℤ) (c : Command) (w : World) : Prop where
  /-- No form passes a quote to the server. -/
  noQuote : NoQuote srv c w
  /-- `R` is not pressed with the cursor at the window's end, and the entries left fill a
  window from its start on. -/
  remove : c = .remove → currentListSize w ≠ 0 → w.selection ≠ w.stop ∧
    w.start ≤ lastStart (sizeAfterRemove lines w) (height lines w)
  /-- No form adds a row to a list that just fits a window that is scrolled by two or more
  entries. -/
  form : w.currentTab ≠ .basket → currentListSize w = height lines w → 1 < w.start →
    ∀ p, Saves srv c w p → productExists p.code w.table ≠ .ok false
  /-- After Enter the cursor's index is behind the basket, or the basket fills a window. -/
  add : c = .enter ∨ c = .search → ∀ a ∈ adds srv c w,
    sizeAfterAdd a w ≤ toSizeT w.indexedSelection ∨
      w.start ≤ lastStart (sizeAfterAdd a w) (maxProductsNr lines .basket)
  /-- After a scan the cursor's row is behind the basket, or the basket fills a window. -/
  scan : c = .scan → ∀ a ∈ adds srv c w, sizeAfterAdd a w ≤ w.selection ∨
    w.start ≤ lastStart (sizeAfterAdd a w) (maxProductsNr lines .basket)
  /-- The cursor's row is behind the list of the next tab, or that list fills a window. -/
  tab : c = .nextTab → currentListSize (inTab (nextTab w.currentTab) w) ≤ w.selection ∨
    w.start ≤ lastStart (currentListSize (inTab (nextTab w.currentTab) w))
      (maxProductsNr lines (nextTab w.currentTab))
  /-- The products fill a window of the stock tab. -/
  stock : c = .stockTab → w.start ≤ lastStart (stockSize w.table) (maxProductsNr lines .stock)
  /-- A checkout in the basket tab that prints starts from an unscrolled window. -/
  checkout : c = .checkout → w.currentTab = .basket →
    LastOpened (attemptsMade w.keys.tail w.printer.results) → w.start = 0

/-! ## One step -/

/-- The next tab starts over where the cursor is off its list. -/
theorem nextTabCommand_view (w : World) :
    (nextTabCommand w).currentTab = nextTab w.currentTab ∧
    currentListSize (nextTabCommand w) = currentListSize (inTab (nextTab w.currentTab) w) ∧
    if w.selection ≥ currentListSize (inTab (nextTab w.currentTab) w) then
      (nextTabCommand w).start = 0 ∧ (nextTabCommand w).selection = 0
    else (nextTabCommand w).start = w.start ∧ (nextTabCommand w).selection = w.selection := by
  unfold nextTabCommand resetCursor
  cases w.currentTab <;> dsimp only [nextTab] <;> split_ifs <;> exact ⟨rfl, rfl, rfl, rfl⟩

/-- The size of the table after a form. -/
theorem stockSize_of_updateStock {p : Product} {t t' : Table} (hq : quote ∉ p.name)
    (h : updateStock srv p t = .ok t') :
    (productExists p.code t = .ok true ∧ stockSize t' = stockSize t) ∨
      (productExists p.code t = .ok false ∧ stockSize t' = stockSize t + 1) := by
  obtain ⟨hex, rfl⟩ | ⟨hex, rfl⟩ := updateStock_eq_ok hq h
  · exact .inl ⟨hex, by simp [stockSize]⟩
  · exact .inr ⟨hex, by simp [stockSize]⟩

/-- The size of the list shown after a form: it grows by one row at most, and not in the
basket tab. -/
theorem currentListSize_of_saved {p : Product} (hq : quote ∉ p.name)
    (htab : w'.currentTab = w.currentTab) (hbasket : w'.basket = w.basket)
    (h : updateStock srv p w.table = .ok w'.table) :
    currentListSize w' = currentListSize w ∨
      (w.currentTab ≠ .basket ∧ productExists p.code w.table = .ok false ∧
        currentListSize w' = currentListSize w + 1) := by
  unfold currentListSize
  rw [htab, hbasket]
  cases ht : w.currentTab with
  | basket => exact .inl rfl
  | products | stock =>
    obtain ⟨-, hsize⟩ | ⟨hex, hsize⟩ := stockSize_of_updateStock hq h
    · exact .inl hsize
    · exact .inr ⟨by simp, hex, hsize⟩

/-- A cursor that was sent to the top, or left where it was in a list that fills a window,
is in a window inside the list. -/
theorem inWindow_of_cursor {size height start start' row row' bound : ℤ} (hsize : 0 ≤ size)
    (h0 : 0 ≤ start) (hfill : size ≤ bound ∨ start ≤ lastStart size height)
    (h : if bound ≥ size then start' = 0 ∧ row' = 0 else start' = start ∧ row' = row) :
    InWindow size height start' := by
  split_ifs at h with hb
  · rw [h.1]
    exact inWindow_zero hsize
  · rw [h.1]
    exact ⟨h0, hfill.resolve_left (by omega)⟩

/-- Scrolling and cursor keys keep the window inside the list; changes of the tab do under
their conditions. -/
theorem window_moved {c : Command} (hf : Fresh srv lines w) (hw : WindowInList lines w)
    (hk : KeepsWindow srv lines c w) (hc : c ∈ cursorCommands)
    (h : c.body srv lines w = .ok () w') : WindowInList lines w' := by
  have hstop : w.stop ≠ currentListSize w →
      ListView.stop (currentListSize w) (height lines w) w.start ≠ currentListSize w := by
    rw [← visibleEnd_eq, ← hf.stop_eq]
    exact id
  simp only [cursorCommands, List.mem_cons, List.not_mem_nil, or_false] at hc
  obtain rfl | rfl | rfl | rfl | rfl | rfl := hc <;>
    simp only [Command.body, modify_apply, EStateM.Result.ok.injEq, true_and] at h <;>
    subst h
  · obtain ⟨htab, hsize, hcursor⟩ := nextTabCommand_view w
    rw [WindowInList, height, htab, hsize]
    exact inWindow_of_cursor currentListSize_nonneg hw.1 (hk.tab rfl) hcursor
  · exact ⟨hw.1, hk.stock rfl⟩
  · unfold scrollUpCommand
    split_ifs with hs
    · exact hw.pred hs
    · exact hw
  · unfold scrollDownCommand
    split_ifs with hs
    · exact hw.succ (hstop hs)
    · exact hw
  · unfold upCommand
    dsimp only
    split_ifs with h1 h2 h2
    · exact hw.pred h2.1
    · exact hw
    · exact hw.pred h2.1
    · exact hw
  · unfold downCommand
    dsimp only
    split_ifs with h1 h2 h2
    · exact hw.succ (hstop h2.1)
    · exact hw
    · exact hw.succ (hstop h2.1)
    · exact hw

/-- **Every command that meets its condition keeps the window inside the list.** -/
theorem window_step {c : Command} (hf : c ≠ .scan → Fresh srv lines w)
    (hw : WindowInList lines w) (hk : KeepsWindow srv lines c w)
    (h : c.body srv lines w = .ok () w') : WindowInList lines w' := by
  cases body_view h with
  | still tab size start selection =>
    rw [WindowInList, height, tab, size, start]
    exact hw
  | moved command body =>
    have hscan : c ≠ .scan := by
      rintro rfl
      exact absurd command (by decide)
    exact window_moved (hf hscan) hw hk command body
  | removed command nonempty tab size start selection =>
    obtain ⟨hsel, hstart⟩ := hk.remove command nonempty
    rw [WindowInList, height, tab, size, start, removeAdjust_of_ne lines w hsel]
    exact ⟨hw.1, hstart⟩
  | saved p saves tab basket table start selection =>
    rw [WindowInList, height, tab, start]
    obtain hsize | ⟨ht, hex, hsize⟩ :=
      currentListSize_of_saved (hk.noQuote p saves) tab basket table
    · rw [hsize]
      exact hw
    · rw [hsize]
      have hform : ¬(currentListSize w = height lines w ∧ 1 < w.start) :=
        fun hfit => hk.form ht hfit.1 hfit.2 p saves hex
      exact hw.grow hform
  | added a command adds tab size cursor =>
    have hsize : 0 ≤ sizeAfterAdd a w := Int.natCast_nonneg _
    rw [WindowInList, height, tab, size]
    exact inWindow_of_cursor hsize hw.1 (hk.add command a adds) cursor
  | scanned a command adds tab size cursor =>
    have hsize : 0 ≤ sizeAfterAdd a w := Int.natCast_nonneg _
    rw [WindowInList, height, tab, size]
    exact inWindow_of_cursor hsize hw.1 (hk.scan command a adds) cursor
  | notFound command adds tab size cursor =>
    rw [WindowInList, height, tab, size]
    exact inWindow_of_cursor currentListSize_nonneg hw.1 (.inr hw.2) cursor
  | sold command printed tab basket table start selection =>
    rw [WindowInList, height, tab, start]
    cases ht : w.currentTab with
    | basket =>
      rw [hk.checkout command ht printed]
      exact inWindow_zero currentListSize_nonneg
    | products | stock =>
      have hsize : currentListSize w' = currentListSize w := by
        simp [currentListSize, tab, table, ht]
      rw [hsize, ← ht]
      exact hw

/-! ## Runs -/

/-- Five products on a screen of eleven lines show three at a time; the cursor goes down to
the last one and `R` erases it. -/
def fiveProducts : Table :=
  [1, 2, 3, 4, 5].map fun code => { bread with code := code }

/-- A run after which the window ends behind its list, and the next redraw reads outside it. -/
theorem window_lost : ∃ w, Reachable strictServer 11 w ∧
    currentListSize w < visibleEnd 11 w ∧
    ∃ w', iteration strictServer 11 w = .error (.undefined .codes) w' := by
  have hrun : (tryIterations strictServer 11 (fun _ _ => true) 5
      (boot fiveProducts [keyDown, keyDown, keyDown, keyDown, charKey 'R'] ⟨[], []⟩ [])).any
        fun w => currentListSize w < visibleEnd 11 w ∧
          haltOf (iteration strictServer 11 w) = some (.undefined .codes) := by
    decide +kernel
  obtain ⟨w, hw, hcheck⟩ := (Option.any_eq_true _ _).1 hrun
  obtain ⟨hend, hhalt⟩ := of_decide_eq_true hcheck
  exact ⟨w, ⟨_, _, _, _, runsWhere_of_tryIterations (fun _ _ _ => trivial) hw⟩, hend,
    haltOf_eq_some.1 hhalt⟩

/-- **The window stays inside the list.**  On every screen of 11 lines or more, in every
state of a run in which every command meets its condition, the window's ends are in order
and inside the list shown, and `calculate_visible_product_list` returns the slice between
them. -/
theorem window_in_list (srv : Server) (lines : ℤ) (hlines : 11 ≤ lines) (table : Table)
    (keys : List Key) (printer : Printer) (uninit : List ℤ) (w : World)
    (hrun : RunsWhere srv lines (KeepsWindow srv lines) (boot table keys printer uninit) w) :
    0 ≤ w.start ∧ w.start ≤ visibleEnd lines w ∧ visibleEnd lines w ≤ currentListSize w ∧
      calculateVisibleProductList srv lines w =
        .ok (visibleSlice srv w w.start (visibleEnd lines w))
          { w with stop := visibleEnd lines w } := by
  have hin : WindowInList lines w := by
    refine Runs.inv hrun (inWindow_zero currentListSize_nonneg) fun t t' ht hok hit => ?_
    obtain ⟨u, v, hr, hchain⟩ := bind_eq_ok.1 hit
    have hv : WindowInList lines v := by
      obtain ⟨key, keys, total, -, -, -, rfl⟩ := redraw_eq_ok hr
      exact ht
    refine Chain.run_inv hv (fun c s s' hmem hs hbody => ?_) hchain
    have hmem' : (c, s) ∈ iterationTrace srv lines t := by rwa [iterationTrace, hr]
    exact window_step (fresh_of_mem_trace hmem') hs (hok _ hmem') hbody
  have hheight : 0 ≤ height lines w := le_trans (by decide) (height_ge hlines w)
  obtain ⟨h0, hle, hend⟩ := (inWindow_iff hheight).1 hin
  refine ⟨h0, hle, hend, ?_⟩
  rw [calculateVisibleProductList_eq, if_pos (.inr ⟨h0, hend⟩)]

/-- The conditions of `R`, tab, Enter and down, as a test. -/
def keepsWindowTest (srv : Server) (lines : ℤ) (c : Command) (w : World) : Bool :=
  match c with
  | .remove => currentListSize w ≠ 0 → w.selection ≠ w.stop ∧
      w.start ≤ lastStart (sizeAfterRemove lines w) (height lines w)
  | .nextTab => currentListSize (inTab (nextTab w.currentTab) w) ≤ w.selection ∨
      w.start ≤ lastStart (currentListSize (inTab (nextTab w.currentTab) w))
        (maxProductsNr lines (nextTab w.currentTab))
  | .enter => (adds srv .enter w).all fun a => sizeAfterAdd a w ≤ toSizeT w.indexedSelection ∨
      w.start ≤ lastStart (sizeAfterAdd a w) (maxProductsNr lines .basket)
  | .down => true
  | _ => false

/-- What passes the test meets its condition. -/
theorem keepsWindow_of_test {c : Command} (h : keepsWindowTest srv lines c w = true) :
    KeepsWindow srv lines c w := by
  cases c with
  | remove =>
    exact ⟨fun p hp => hp.elim, fun _ => of_decide_eq_true h, fun _ _ _ p hp => hp.elim, by simp,
      by simp, by simp, by simp, by simp⟩
  | nextTab =>
    exact ⟨fun p hp => hp.elim, by simp, fun _ _ _ p hp => hp.elim, by simp, by simp,
      fun _ => of_decide_eq_true h, by simp, by simp⟩
  | enter =>
    exact ⟨fun p hp => hp.elim, by simp, fun _ _ _ p hp => hp.elim,
      fun _ a ha => of_decide_eq_true ((Option.all_eq_true _ _).1 h a ha), by simp, by simp,
      by simp, by simp⟩
  | down =>
    exact ⟨fun p hp => hp.elim, by simp, fun _ _ _ p hp => hp.elim, by simp, by simp, by simp,
      by simp, by simp⟩
  | quit | menu | addProduct | stockTab | modifyProduct | scrollUp | scrollDown | search
  | testReceipt | checkout | up | scan => cases h

/-- The window scrolls down over five products; the third of them is erased and the next one
entered into the basket; then the window scrolls down over the four that are left. -/
theorem window_in_list_scrolled : ∃ w, w.basket ≠ [] ∧ w.currentTab = .products ∧
    w.start = 1 ∧ w.start ≤ visibleEnd 11 w ∧ visibleEnd 11 w ≤ currentListSize w := by
  have hrun : (tryIterations strictServer 11 (keepsWindowTest strictServer 11) 7
      (boot fiveProducts [keyDown, keyDown, charKey 'R', keyEnter, keyTab, keyDown, keyDown]
        ⟨[], []⟩ [])).any fun w =>
        w.basket ≠ [] ∧ w.currentTab = .products ∧ w.start = 1 := by
    decide +kernel
  obtain ⟨w, hw, hcheck⟩ := (Option.any_eq_true _ _).1 hrun
  obtain ⟨hbasket, htab, hstart⟩ := of_decide_eq_true hcheck
  obtain ⟨-, hle, hend, -⟩ := window_in_list strictServer 11 (by decide) _ _ _ _ w
    (runsWhere_of_tryIterations (fun _ _ h => keepsWindow_of_test h) hw)
  exact ⟨w, hbasket, htab, hstart, hle, hend⟩

end CliPos
