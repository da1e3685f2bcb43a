import CliPos.Analysis.Window

/-!
# The cursor's row

`R`, `a`, `m` and Enter act on `list[selection]`, and a search on `product_codes[index]`;
none checks its index.  The cursor stays on a row of the list as long as every command
meets `KeepsCursor`; then no command reads outside its vector (`cursor_in_list`).  A cursor
off the list is not harmless: `m` reads outside the vector there (`modify_undefined`).
-/

set_option autoImplicit false

namespace CliPos

open Decimal Halting ListView

variable {srv : Server} {lines : ℤ} {w w' : World}

/-- The cursor is on a row of the list shown, unless that list is empty. -/
def CursorOnRow (lines : ℤ) (w : World) : Prop :=
  OnRow (currentListSize w) (height lines w) w.start w.selection

/-- Whether the cursor is on a row can be tested along a run. -/
instance (lines : ℤ) (w : World) : Decidable (CursorOnRow lines w) := by
  unfold CursorOnRow; infer_instance

/-- **When a command acts on an existing entry and leaves the cursor on a row.** -/
structure KeepsCursor (srv : Server) (lines : ℤ) (c : Command) (w : World) : Prop where
  /-- No form passes a quote to the server. -/
  noQuote : NoQuote srv c w
  /-- `a` and Enter, which do not check that there are products, find some. -/
  products : (c = .addProduct ∧ w.currentTab ≠ .basket) ∨ (c = .enter ∧ w.currentTab = .products) →
    w.table ≠ []
  /-- So does a search that is not cancelled. -/
  search : c = .search → ∀ word keys, getString [] 0 w.keys = .ok (some word) keys → w.table ≠ []
  /-- After `R` the row is before the end of a list that fits the view. -/
  remove : c = .remove → sizeAfterRemove lines w = 0 ∨ height lines w < sizeAfterRemove lines w ∨
    w.start + w.selection < sizeAfterRemove lines w
  /-- After Enter the row is one of the basket's view, which is one row shorter. -/
  add : c = .enter ∨ c = .search → ∀ a ∈ adds srv c w,
    sizeAfterAdd a w ≤ maxProductsNr lines .basket ∨
      sizeAfterAdd a w ≤ w.start + w.selection ∨ w.selection < maxProductsNr lines .basket
  /-- After a scan the row is behind the basket, or one of its view. -/
  scan : c = .scan → ∀ a ∈ adds srv c w, sizeAfterAdd a w ≤ w.selection ∨
    RowShown (sizeAfterAdd a w) (maxProductsNr lines .basket) w.start w.selection
  /-- The row is behind the list of the next tab, or one of its view. -/
  tab : c = .nextTab → currentListSize (inTab (nextTab w.currentTab) w) ≤ w.selection ∨
    RowShown (currentListSize (inTab (nextTab w.currentTab) w))
      (maxProductsNr lines (nextTab w.currentTab)) w.start w.selection
  /-- The row is one of the view of the stock tab. -/
  stock : c = .stockTab → stockSize w.table = 0 ∨
    RowShown (stockSize w.table) (maxProductsNr lines .stock) w.start w.selection

/-! ## The row in the list -/

/-- After a redraw the window does not start before the list. -/
theorem Fresh.start_nonneg (hlines : 11 ≤ lines) (hf : Fresh srv lines w) : 0 ≤ w.start := by
  have hheight := height_ge hlines w
  have hsize := currentListSize_nonneg (w := w)
  have hrange := hf.inRange
  rw [hf.stop_eq, visibleEnd_eq] at hrange
  unfold SliceInRange ListView.stop at hrange
  split_ifs at hrange <;> omega

/-- A cursor on a row of a list that is not empty selects an entry, and is not at the
window's end. -/
theorem cursor_selects (hlines : 11 ≤ lines) (hf : Fresh srv lines w)
    (hw : CursorOnRow lines w) (hn : currentListSize w ≠ 0) :
    0 ≤ w.selection ∧ w.selection < w.list.length ∧ w.selection ≠ w.stop := by
  have hstart := hf.start_nonneg hlines
  have hlen := hf.list_length
  obtain ⟨h0, hrow⟩ := onRow_iff.1 hw
  rw [← visibleEnd_eq, ← hf.stop_eq] at hrow
  omega

/-- **A cursor off the list is acted on**: `m` reads `list[selection]` outside the list. -/
theorem modify_undefined (hf : Fresh srv lines w) (hn : currentListSize w ≠ 0)
    (hw : ¬CursorOnRow lines w) :
    ∃ w', modifyCommand srv w = .error (.undefined .listSelection) w' := by
  have hnone : elementAt w.list w.selection = none := by
    by_contra hsome
    obtain ⟨h0, hlt⟩ := (elementAt_isSome_iff _ _).1 (Option.isSome_iff_ne_none.2 hsome)
    refine hw (onRow_iff.2 ⟨h0, .inr ?_⟩)
    rw [← visibleEnd_eq, ← hf.stop_eq]
    have hlen := hf.list_length
    omega
  refine ⟨w, ?_⟩
  rw [modifyCommand, bind_apply, get_apply]
  simp only [if_pos hn, bind_apply, readAt, hnone, throw_apply]

/-! ## One step -/

/-- A cursor that was sent to the top, or is on a row of the view, is on a row. -/
theorem onRow_of_cursor {size height start start' row row' : ℤ} (hsize : 0 ≤ size)
    (hheight : 0 < height) (h0 : 0 ≤ row) (hrow : size ≤ row ∨ RowShown size height start row)
    (h : if row ≥ size then start' = 0 ∧ row' = 0 else start' = start ∧ row' = row) :
    OnRow size height start' row' := by
  split_ifs at h with hb
  · rw [h.1, h.2]
    exact onRow_zero hsize hheight
  · rw [h.1, h.2]
    exact ⟨h0, .inr (hrow.resolve_left (by omega))⟩

/-- The key up keeps the cursor on a row. -/
theorem cursor_up (hlines : 11 ≤ lines) (hw : CursorOnRow lines w) :
    CursorOnRow lines (upCommand w) := by
  have hheight := height_ge hlines w
  unfold upCommand
  dsimp only
  split_ifs with h1 h2 h2
  · have hp : OnRow (currentListSize w) (height lines w) w.start (w.selection - 1) :=
      hw.rowPred h1
    have h0 : w.selection - 1 = 0 := h2.2
    change OnRow (currentListSize w) (height lines w) (w.start - 1) (w.selection - 1 + 1)
    rw [h0] at hp ⊢
    exact hp.follow_pred (by omega)
  · exact hw.rowPred h1
  · have hp := hw
    unfold CursorOnRow at hp
    change OnRow (currentListSize w) (height lines w) (w.start - 1) (w.selection + 1)
    rw [h2.2] at hp ⊢
    exact hp.follow_pred (by omega)
  · exact hw

/-- The row under the cursor's, where the list has one. -/
def rowBelow (w : World) : ℤ :=
  if toSizeT w.selection < sizeMinusOne w.list.length ∧
      w.indexedSelection < currentListSize w then w.selection + 1
  else w.selection

/-- What the key down changes: the window moves where the cursor is at its end, else the cursor. -/
theorem downCommand_view (w : World) :
    (downCommand w).currentTab = w.currentTab ∧
    currentListSize (downCommand w) = currentListSize w ∧
    if w.stop ≠ currentListSize w ∧ toSizeT (rowBelow w) = sizeMinusOne w.list.length then
      (downCommand w).start = w.start + 1 ∧ (downCommand w).selection = rowBelow w - 1
    else (downCommand w).start = w.start ∧ (downCommand w).selection = rowBelow w := by
  unfold downCommand rowBelow
  by_cases h1 : toSizeT w.selection < sizeMinusOne w.list.length ∧
      w.indexedSelection < currentListSize w
  · simp only [if_pos h1]
    split_ifs with h2 h3 h3
    · exact ⟨rfl, rfl, rfl, rfl⟩
    · exact absurd h2 h3
    · exact absurd h3 h2
    · exact ⟨rfl, rfl, rfl, rfl⟩
  · simp only [if_neg h1]
    split_ifs <;> exact ⟨rfl, rfl, rfl, rfl⟩

/-- The cursor goes down one row, or stays on the last row while the window scrolls. -/
theorem cursor_down (hlines : 11 ≤ lines) (hf : Fresh srv lines w) (hw : CursorOnRow lines w) :
    CursorOnRow lines (downCommand w) := by
  have hheight := height_ge hlines w
  have hlen := hf.list_length
  have hstop := hf.stop_eq
  rw [visibleEnd_eq] at hstop
  obtain ⟨htab, hsize, hcursor⟩ := downCommand_view w
  rw [CursorOnRow, height_congr htab, hsize]
  have h0 : 0 ≤ rowBelow w := by
    unfold rowBelow
    split_ifs <;> have := hw.1 <;> omega
  by_cases hn : currentListSize w = 0
  · have hend : w.stop = currentListSize w := by
      rw [hstop, ListView.stop, if_pos (by omega)]
    rw [if_neg (fun h => h.1 hend)] at hcursor
    rw [hcursor.2]
    exact ⟨h0, .inl hn⟩
  · obtain ⟨hsel, hlt, -⟩ := cursor_selects hlines hf hw hn
    have hlast : sizeMinusOne w.list.length = (w.list.length : ℤ) - 1 :=
      toSizeT_of_nonneg (by omega)
    have hbelow : rowBelow w ≤ (w.list.length : ℤ) - 1 := by
      unfold rowBelow
      rw [toSizeT_of_nonneg hsel, hlast]
      split_ifs <;> omega
    rw [toSizeT_of_nonneg h0, hlast] at hcursor
    split_ifs at hcursor with hscroll
    · -- the window scrolls under a cursor on its last row
      obtain ⟨hend, hrow⟩ := hscroll
      have hlong : height lines w < currentListSize w := by
        by_contra hfit
        rw [ListView.stop, if_pos (by omega)] at hstop
        exact hend hstop
      rw [ListView.stop, if_neg (by omega)] at hstop
      rw [hcursor.1, hcursor.2]
      refine ⟨by omega, .inr ?_⟩
      rw [RowShown, if_neg (by omega)]
      omega
    · rw [hcursor.1, hcursor.2]
      refine onRow_iff.2 ⟨h0, .inr ?_⟩
      rw [← hstop]
      omega

/-- Cursor keys and scrolling keep the cursor on a row; changes of the tab do under their
conditions. -/
theorem cursor_moved (hlines : 11 ≤ lines) {c : Command} (hf : Fresh srv lines w)
    (hw : CursorOnRow lines w) (hk : KeepsCursor srv lines c w) (hc : c ∈ cursorCommands)
    (h : c.body srv lines w = .ok () w') : CursorOnRow lines w' := by
  have hstop : w.stop ≠ currentListSize w →
      ListView.stop (currentListSize w) (height lines w) w.start ≠ currentListSize w := by
    rw [← visibleEnd_eq, ← hf.stop_eq]
    exact id
  simp only [cursorCommands, List.mem_cons, List.not_mem_nil, or_false] at hc
  obtain rfl | rfl | rfl | rfl | rfl | rfl := hc <;>
    simp only [Command.body, modify_apply, EStateM.Result.ok.injEq, true_and] at h <;>
    subst h
  · obtain ⟨htab, hsize, hcursor⟩ := nextTabCommand_view w
    have hheight : 0 < maxProductsNr lines (nextTab w.currentTab) :=
      lt_of_lt_of_le (by decide) (height_ge hlines (inTab (nextTab w.currentTab) w))
    rw [CursorOnRow, height, htab, hsize]
    exact onRow_of_cursor currentListSize_nonneg hheight hw.1 (hk.tab rfl) hcursor
  · exact ⟨hw.1, hk.stock rfl⟩
  · unfold scrollUpCommand
    split_ifs
    · exact hw.pred
    · exact hw
  · unfold scrollDownCommand
    split_ifs with hs
    · exact hw.succ (hstop hs)
    · exact hw
  · exact cursor_up hlines hw
  · exact cursor_down hlines hf hw

/-- A removal adds no entry. -/
theorem length_removeFromBasket_le {code : ℤ} {basket basket' : List BasketProduct}
    (h : removeFromBasket code basket = some basket') : basket'.length ≤ basket.length := by
  induction basket generalizing basket' with
  | nil => cases h
  | cons b basket ih =>
    rw [removeFromBasket] at h
    split_ifs at h
    · cases h
      simp
    · cases h
      simp
    · obtain ⟨rest, hrest, rfl⟩ := Option.map_eq_some_iff.1 h
      simpa using ih hrest

/-- The size that `R` computes is between nothing and the size of the list. -/
theorem sizeAfterRemove_le (lines : ℤ) (w : World) :
    0 ≤ sizeAfterRemove lines w ∧ sizeAfterRemove lines w ≤ currentListSize w := by
  unfold sizeAfterRemove
  cases elementAt w.list (removeAdjust lines w).selection with
  | none => exact ⟨currentListSize_nonneg, le_rfl⟩
  | some code =>
    cases ht : w.currentTab with
    | basket =>
      simp only [currentListSize, ht]
      cases hb : removeFromBasket code w.basket with
      | none => simp
      | some basket =>
        have := length_removeFromBasket_le hb
        simpa using this
    | products | stock =>
      simp only [currentListSize, ht, stockSize]
      have := List.length_filter_le (fun r : Row => r.code ≠ code) w.table
      exact ⟨Int.natCast_nonneg _, by exact_mod_cast this⟩

/-- A form that saves was opened on a product, so the list of products is not empty. -/
theorem size_pos_of_saves {c : Command} {p : Product} (ht : w.currentTab ≠ .basket)
    (h : Saves srv c w p) : 0 < currentListSize w := by
  have hrow : ∃ code, ∃ r ∈ w.table, r.code = code := by
    have hform : ∀ {code : ℤ} {modify : Bool} {keys : List Key},
        FormSaves w.settings.maxNameLength code modify w.table keys p →
          ∃ code, ∃ r ∈ w.table, r.code = code := by
      rintro code modify keys ⟨q, -, -, hq, -⟩
      obtain ⟨r, hr, hc, -⟩ := getProductData_eq_ok hq
      exact ⟨code, r, hr, hc⟩
    cases c with
    | addProduct =>
      obtain ⟨-, code, -, hf⟩ := h
      exact hform hf
    | modifyProduct =>
      obtain ⟨code, -, hf⟩ := h
      exact hform hf
    | search =>
      obtain ⟨word, keys, index, code, -, -, -, hf⟩ := h
      exact hform hf
    | _ => exact h.elim
  obtain ⟨-, r, hr, -⟩ := hrow
  have hpos := List.length_pos_of_mem hr
  unfold currentListSize
  cases htab : w.currentTab with
  | basket => exact absurd htab ht
  | products | stock => exact Int.natCast_pos.2 hpos

/-- **Every command that meets its condition leaves the cursor on a row.** -/
theorem cursor_step (hlines : 11 ≤ lines) {c : Command} (hf : c ≠ .scan → Fresh srv lines w)
    (hw : CursorOnRow lines w) (hk : KeepsCursor srv lines c w)
    (h : c.body srv lines w = .ok () w') : CursorOnRow lines w' := by
  have hheight := height_ge hlines w
  have hbasket : 0 < maxProductsNr lines .basket := by
    have := (maxProductsNr_ge hlines).1
    omega
  cases body_view h with
  | still tab size start selection =>
    rw [CursorOnRow, height_congr tab, size, start, selection]
    exact hw
  | moved command body =>
    have hscan : c ≠ .scan := by
      rintro rfl
      exact absurd command (by decide)
    exact cursor_moved hlines (hf hscan) hw hk command body
  | removed command nonempty tab size start selection =>
    have hscan : c ≠ .scan := by simp [command]
    obtain ⟨h0, -, hne⟩ := cursor_selects hlines (hf hscan) hw nonempty
    rw [CursorOnRow, height_congr tab, size, start, selection, removeAdjust_of_ne lines w hne]
    exact hw.shrink (sizeAfterRemove_le lines w) (hk.remove command)
  | saved p saves tab basket table start selection =>
    have hscan : c ≠ .scan := by
      rintro rfl
      exact saves
    rw [CursorOnRow, height_congr tab, start, selection]
    obtain hsize | ⟨ht, hex, hsize⟩ :=
      currentListSize_of_saved (hk.noQuote p saves) tab basket table
    · rw [hsize]
      exact hw
    · rw [hsize]
      exact hw.grow ((hf hscan).start_nonneg hlines) (size_pos_of_saves ht saves) (by omega)
  | added a command adds tab size cursor =>
    have hscan : c ≠ .scan := by rcases command with rfl | rfl <;> simp
    have hstart := (hf hscan).start_nonneg hlines
    have h0 := hw.1
    have hsize : 0 ≤ sizeAfterAdd a w := Int.natCast_nonneg _
    rw [(hf hscan).indexed_eq, toSizeT_of_nonneg (by omega)] at cursor
    rw [CursorOnRow, height, tab, size]
    have hrow := hk.add command a adds
    split_ifs at cursor with hidx
    · rw [cursor.1, cursor.2]
      exact onRow_zero hsize hbasket
    · rw [cursor.1, cursor.2]
      refine ⟨h0, .inr ?_⟩
      unfold RowShown
      split_ifs <;> omega
  | scanned a command adds tab size cursor =>
    have hsize : 0 ≤ sizeAfterAdd a w := Int.natCast_nonneg _
    rw [CursorOnRow, height, tab, size]
    exact onRow_of_cursor hsize hbasket hw.1 (hk.scan command a adds) cursor
  | notFound command adds tab size cursor =>
    rw [CursorOnRow, height_congr tab, size]
    refine onRow_of_cursor currentListSize_nonneg (by omega) hw.1 ?_ cursor
    exact hw.2.imp (fun hn => by have := hw.1; omega) id
  | sold command printed tab basket table start selection =>
    rw [CursorOnRow, height_congr tab, start, selection]
    cases ht : w.currentTab with
    | basket => exact ⟨hw.1, .inl (by simp [currentListSize, tab, ht, basket])⟩
    | products | stock =>
      have hsize : currentListSize w' = currentListSize w := by
        simp [currentListSize, tab, table, ht]
      rw [hsize]
      exact hw

/-! ## Runs -/

/-- The index a command reads `list` with is the cursor's row. -/
theorem selects_eq {c : Command} {i : ℤ} (hlines : 11 ≤ lines) (hf : Fresh srv lines w)
    (hw : CursorOnRow lines w) (hk : KeepsCursor srv lines c w) (hi : i ∈ c.selects lines w) :
    0 ≤ i ∧ i < w.list.length := by
  have hselects : currentListSize w ≠ 0 → 0 ≤ w.selection ∧ w.selection < w.list.length :=
    fun hn => ⟨(cursor_selects hlines hf hw hn).1, (cursor_selects hlines hf hw hn).2.1⟩
  have hsize : w.currentTab ≠ .basket → w.table ≠ [] → currentListSize w ≠ 0 := by
    intro ht htable
    have hpos := List.length_pos_of_ne_nil htable
    unfold currentListSize stockSize
    cases htab : w.currentTab with
    | basket => exact absurd htab ht
    | products | stock =>
      simp only
      omega
  cases c with
  | remove =>
    simp only [Command.selects, Option.mem_def, Option.ite_none_right_eq_some,
      Option.some.injEq] at hi
    obtain ⟨hn, rfl⟩ := hi
    rw [removeAdjust_of_ne lines w (cursor_selects hlines hf hw hn).2.2]
    exact hselects hn
  | addProduct =>
    simp only [Command.selects, Option.mem_def, Option.ite_none_right_eq_some,
      Option.some.injEq] at hi
    obtain ⟨ht, rfl⟩ := hi
    exact hselects (hsize ht (hk.products (.inl ⟨rfl, ht⟩)))
  | modifyProduct =>
    simp only [Command.selects, Option.mem_def, Option.ite_none_right_eq_some,
      Option.some.injEq] at hi
    obtain ⟨hn, rfl⟩ := hi
    exact hselects hn
  | enter =>
    simp only [Command.selects, Option.mem_def, Option.ite_none_right_eq_some,
      Option.some.injEq] at hi
    obtain ⟨ht, rfl⟩ := hi
    exact hselects (hsize (by simp [ht]) (hk.products (.inr ⟨rfl, ht⟩)))
  | _ => cases hi

/-- The cursor is on a row at every command of an iteration whose commands meet their
conditions, and after it. -/
theorem cursor_iteration (hlines : 11 ≤ lines) (hw : CursorOnRow lines w)
    (hok : ∀ e ∈ iterationTrace srv lines w, KeepsCursor srv lines e.1 e.2) :
    (∀ c v, (c, v) ∈ iterationTrace srv lines w → CursorOnRow lines v) ∧
      (iteration srv lines w = .ok () w' → CursorOnRow lines w') := by
  have hredraw : ∀ v, redraw srv lines w = .ok () v → CursorOnRow lines v := by
    intro v hr
    obtain ⟨key, keys, total, -, -, -, rfl⟩ := redraw_eq_ok hr
    exact hw
  have hstep : ∀ c v v', (c, v) ∈ iterationTrace srv lines w → CursorOnRow lines v →
      c.body srv lines v = .ok () v' → CursorOnRow lines v' := fun c v v' hmem hv hb =>
    cursor_step hlines (fresh_of_mem_trace hmem) hv (hok _ hmem) hb
  unfold iterationTrace at hstep ⊢
  unfold iteration
  rw [bind_apply]
  cases hr : redraw srv lines w with
  | error e s => simp
  | ok u v =>
    rw [hr] at hstep
    exact ⟨fun c s hmem => Chain.trace_inv (hredraw v hr) hstep hmem,
      Chain.run_inv (hredraw v hr) hstep⟩

/-- The index of a search in a table with products. -/
theorem searchIndex_range (hf : Fresh srv lines w) (htable : w.table ≠ []) {word : Str}
    {uninit index : ℤ} (h : binarySearch (nameList srv w.table) word uninit = .ok index) :
    0 ≤ index ∧ index < w.productCodes.length := by
  have hne : nameList srv w.table ≠ [] := by
    rw [← List.length_pos_iff, nameList_length]
    exact List.length_pos_of_ne_nil htable
  obtain ⟨i, hi, hrange⟩ := binarySearch_range hne word uninit
  rw [h] at hi
  cases hi
  rwa [hf.codes_eq, codeList_length, ← @nameList_length srv]

/-- There is no product, and `a` is pressed. -/
theorem add_without_products : ∃ w', iteration strictServer 11
    (boot [] [charKey 'a'] ⟨[], []⟩ []) = .error (.undefined .listSelection) w' := by
  refine haltOf_eq_some.1 ?_
  decide +kernel

/-- **Commands act on existing entries.**  On every screen of 11 lines or more, after a
run in which every command meets its condition, whenever a command that meets it reads
`list[selection]` or `product_codes[index]`, the index is inside the vector; so the
iteration does not halt there. -/
theorem cursor_in_list (srv : Server) (lines : ℤ) (hlines : 11 ≤ lines) (table : Table)
    (keys : List Key) (printer : Printer) (uninit : List ℤ) (w : World)
    (hrun : RunsWhere srv lines (KeepsCursor srv lines) (boot table keys printer uninit) w)
    (hnext : ∀ e ∈ iterationTrace srv lines w, KeepsCursor srv lines e.1 e.2) :
    (∀ c v, (c, v) ∈ iterationTrace srv lines w →
      (∀ i ∈ c.selects lines v, 0 ≤ i ∧ i < v.list.length) ∧
      (c = .search → ∀ word keys index, getString [] 0 v.keys = .ok (some word) keys →
        binarySearch (nameList srv v.table) word (v.uninit.headD 0) = .ok index →
          0 ≤ index ∧ index < v.productCodes.length)) ∧
    ∀ w', iteration srv lines w ≠ .error (.undefined .listSelection) w' ∧
      iteration srv lines w ≠ .error (.undefined .productCodesIndex) w' := by
  have hw : CursorOnRow lines w := by
    refine Runs.inv hrun ?_ fun t t' ht hok hit => (cursor_iteration hlines ht hok).2 hit
    exact onRow_zero currentListSize_nonneg (lt_of_lt_of_le (by decide) (height_ge hlines _))
  have hrows := (@cursor_iteration srv lines w w hlines hw hnext).1
  have hselects : ∀ c v, (c, v) ∈ iterationTrace srv lines w → Fresh srv lines v →
      ∀ i ∈ c.selects lines v, 0 ≤ i ∧ i < v.list.length := fun c v hmem hf i hi =>
    selects_eq hlines hf (hrows c v hmem) (hnext _ hmem) hi
  have hsearch : ∀ v, (Command.search, v) ∈ iterationTrace srv lines w → ∀ word keys index,
      getString [] 0 v.keys = .ok (some word) keys →
      binarySearch (nameList srv v.table) word (v.uninit.headD 0) = .ok index →
        0 ≤ index ∧ index < v.productCodes.length := fun v hmem word keys index hword hindex =>
    searchIndex_range (fresh_of_mem_trace hmem (by simp))
      ((hnext _ hmem).search rfl word keys hword) hindex
  refine ⟨fun c v hmem => ⟨fun i hi => ?_, ?_⟩, fun w' => ?_⟩
  · have hscan : c ≠ .scan := by
      rintro rfl
      cases hi
    exact hselects c v hmem (fresh_of_mem_trace hmem hscan) i hi
  · rintro rfl
    exact hsearch v hmem
  · have hno : ∀ e, iteration srv lines w = .error e w' → e.Internal →
        e ≠ .undefined .listSelection ∧ e ≠ .undefined .productCodesIndex := by
      intro e h he
      obtain ⟨-, rfl | rfl⟩ | ⟨-, rfl⟩ | ⟨c, v, hmem, hf, ⟨-, i, hi, hnone⟩ |
        ⟨-, rfl, word, keys, index, hword, hindex, hnone⟩⟩ := iteration_internal h he
      · simp
      · simp
      · simp
      · have := (elementAt_isSome_iff _ _).2 (hselects c v hmem hf i hi)
        rw [hnone] at this
        cases this
      · have := (elementAt_isSome_iff _ _).2 (hsearch v hmem word keys index hword hindex)
        rw [hnone] at this
        cases this
    exact ⟨fun h => (hno _ h trivial).1 rfl, fun h => (hno _ h trivial).2 rfl⟩

/-- The conditions of `R`, tab, Enter and down, as a test. -/
def keepsCursorTest (srv : Server) (lines : ℤ) (c : Command) (w : World) : Bool :=
  match c with
  | .remove => sizeAfterRemove lines w = 0 ∨ height lines w < sizeAfterRemove lines w ∨
      w.start + w.selection < sizeAfterRemove lines w
  | .nextTab => currentListSize (inTab (nextTab w.currentTab) w) ≤ w.selection ∨
      RowShown (currentListSize (inTab (nextTab w.currentTab) w))
        (maxProductsNr lines (nextTab w.currentTab)) w.start w.selection
  | .enter => w.table ≠ [] ∧ (adds srv .enter w).all fun a =>
      sizeAfterAdd a w ≤ maxProductsNr lines .basket ∨
        sizeAfterAdd a w ≤ w.start + w.selection ∨ w.selection < maxProductsNr lines .basket
  | .down => true
  | _ => false

/-- What passes the test meets its condition. -/
theorem keepsCursor_of_test {c : Command} (h : keepsCursorTest srv lines c w = true) :
    KeepsCursor srv lines c w := by
  cases c with
  | remove =>
    exact ⟨fun p hp => hp.elim, by simp, by simp, fun _ => of_decide_eq_true h, by simp, by simp,
      by simp, by simp⟩
  | nextTab =>
    exact ⟨fun p hp => hp.elim, by simp, by simp, by simp, by simp, by simp,
      fun _ => of_decide_eq_true h, by simp⟩
  | enter =>
    obtain ⟨htable, hadds⟩ := of_decide_eq_true h
    exact ⟨fun p hp => hp.elim, fun _ => htable, by simp, by simp,
      fun _ a ha => of_decide_eq_true ((Option.all_eq_true _ _).1 hadds a ha), by simp, by simp,
      by simp⟩
  | down =>
    exact ⟨fun p hp => hp.elim, by simp, by simp, by simp, by simp, by simp, by simp, by simp⟩
  | quit | menu | addProduct | stockTab | modifyProduct | scrollUp | scrollDown | search
  | testReceipt | checkout | up | scan => cases h

/-- Of five products the second is erased and the third entered into the basket; back among
the products, Enter acts on the first. -/
theorem cursor_in_list_enter : ∃ w v, w.basket ≠ [] ∧ w.currentTab = .products ∧
    w.table.length = 4 ∧ (Command.enter, v) ∈ iterationTrace strictServer 11 w ∧
    (∃ i ∈ Command.enter.selects 11 v, 0 ≤ i ∧ i < v.list.length) ∧
    ∀ w', iteration strictServer 11 w ≠ .error (.undefined .listSelection) w' := by
  have hrun : (tryIterations strictServer 11 (keepsCursorTest strictServer 11) 4
      (boot fiveProducts [keyDown, charKey 'R', keyEnter, keyTab, keyEnter] ⟨[], []⟩ [])).any
        fun w => w.basket ≠ [] ∧ w.currentTab = .products ∧ w.table.length = 4 ∧
          (iterationTrace strictServer 11 w).map Prod.fst = [.enter] ∧
          (iterationTrace strictServer 11 w).all fun e =>
            keepsCursorTest strictServer 11 e.1 e.2 ∧ (e.1.selects 11 e.2).isSome := by
    decide +kernel
  obtain ⟨w, hw, hcheck⟩ := (Option.any_eq_true _ _).1 hrun
  obtain ⟨hbasket, htab, hrows, hone, hall⟩ := of_decide_eq_true hcheck
  have htests : ∀ e ∈ iterationTrace strictServer 11 w,
      keepsCursorTest strictServer 11 e.1 e.2 = true ∧ (e.1.selects 11 e.2).isSome :=
    fun e he => of_decide_eq_true (List.all_eq_true.1 hall e he)
  obtain ⟨⟨c, v⟩, htrace, rfl⟩ := List.map_eq_singleton_iff.1 hone
  have hmem : (Command.enter, v) ∈ iterationTrace strictServer 11 w := by simp [htrace]
  obtain ⟨hreads, hhalts⟩ := cursor_in_list strictServer 11 (by decide) _ _ _ _ w
    (runsWhere_of_tryIterations (fun _ _ h => keepsCursor_of_test h) hw)
    fun e he => keepsCursor_of_test (htests e he).1
  obtain ⟨i, hi⟩ := Option.isSome_iff_exists.1 (htests _ hmem).2
  exact ⟨w, v, hbasket, htab, hrows, hmem, ⟨i, hi, (hreads _ v hmem).1 i hi⟩,
    fun w' => (hhalts w').1⟩

end CliPos
