import CliPos.Analysis.Halts
import CliPos.Analysis.Store

/-!
# The products of a sale

The basket holds codes; the prices are in the table.  The loop reads every product of the
basket at each redraw, and a code without a row ends the program.  A scan asks
`product_exists` first; the key `R` in the other tabs does not ask whether the product it
erases is being sold, and a form passes a name with a quote on to the server.  Apart from
these two, every command keeps a row for every code of the basket (`sale_rows`).
-/

set_option autoImplicit false

namespace CliPos

open Halting

variable {srv : Server} {lines : ℤ} {w w' : World}

/-- The rows of a basket can be looked up. -/
instance (w : World) : Decidable (BasketRows w) := by unfold BasketRows; infer_instance

/-- The command does not erase a product of the basket, and saves no name with a quote. -/
def KeepsRows (srv : Server) (lines : ℤ) (c : Command) (w : World) : Prop :=
  NoQuote srv c w ∧
    (c = .remove → w.currentTab ≠ .basket →
      ∀ code ∈ elementAt w.list (removeAdjust lines w).selection,
        ∀ b ∈ w.basket, b.code ≠ code)

/-! ## One step -/

/-- A form keeps a row for every code. -/
theorem exists_row_of_updateStock {p : Product} {t t' : Table} (hq : quote ∉ p.name)
    (h : updateStock srv p t = .ok t') {code : ℤ} (hrow : ∃ r ∈ t, r.code = code) :
    ∃ r ∈ t', r.code = code := by
  obtain ⟨r, hr, hc⟩ := hrow
  obtain ⟨-, rfl⟩ | ⟨-, rfl⟩ := updateStock_eq_ok hq h
  · refine ⟨_, List.mem_map_of_mem hr, ?_⟩
    split_ifs with hp
    · exact hp.symm.trans hc
    · exact hc
  · exact ⟨r, List.mem_append_left _ hr, hc⟩

/-- The entries after `add_product_to_basket` are those before it, or of the code added. -/
theorem mem_addProductToBasket {basket : List BasketProduct} {code : ℤ} {quantity : ℚ}
    {uninit : Bool} {b : BasketProduct}
    (h : b ∈ addProductToBasket basket code quantity uninit) :
    b.code = code ∨ ∃ c ∈ basket, c.code = b.code := by
  have hloop : ∀ (basket : List BasketProduct) (uninit : Bool),
      ∀ b ∈ (addLoop code quantity basket uninit).1, ∃ c ∈ basket, c.code = b.code := by
    intro basket
    induction basket with
    | nil => simp [addLoop]
    | cons c basket ih =>
      intro uninit b hb
      rw [addLoop] at hb
      split_ifs at hb with hc
      · obtain rfl | hb := List.mem_cons.1 hb
        · exact ⟨c, by simp, rfl⟩
        · exact ⟨b, by simp [hb], rfl⟩
      · obtain rfl | hb := List.mem_cons.1 hb
        · exact ⟨b, by simp, rfl⟩
        · obtain ⟨d, hd, hcode⟩ := ih false b hb
          exact ⟨d, by simp [hd], hcode⟩
  unfold addProductToBasket at h
  dsimp only at h
  split_ifs at h
  · obtain h | h := List.mem_append.1 h
    · exact .inr (hloop _ _ b h)
    · exact .inl (by rw [List.mem_singleton.1 h])
  · exact .inr (hloop _ _ b h)

/-- The entries left by `R` have the codes of entries before. -/
theorem mem_removeFromBasket {code : ℤ} {basket basket' : List BasketProduct}
    (h : removeFromBasket code basket = some basket') {b : BasketProduct} (hb : b ∈ basket') :
    ∃ c ∈ basket, c.code = b.code := by
  induction basket generalizing basket' with
  | nil => cases h
  | cons c basket ih =>
    rw [removeFromBasket] at h
    split_ifs at h with hc hq
    · cases h
      exact ⟨b, by simp [hb], rfl⟩
    · cases h
      obtain rfl | hb := List.mem_cons.1 hb
      · exact ⟨c, by simp, rfl⟩
      · exact ⟨b, by simp [hb], rfl⟩
    · obtain ⟨rest, hrest, rfl⟩ := Option.map_eq_some_iff.1 h
      obtain rfl | hb := List.mem_cons.1 hb
      · exact ⟨b, by simp, rfl⟩
      · obtain ⟨d, hd, hcode⟩ := ih hrest hb
        exact ⟨d, by simp [hd], hcode⟩

/-- **Every command that meets the condition keeps a row for every code of the basket.** -/
theorem basketRows_step {c : Command} (h : BasketRows w) (hk : KeepsRows srv lines c w)
    (hstep : StoreStep srv lines c w w') : BasketRows w' := by
  obtain ⟨hq, hr⟩ := hk
  cases hstep with
  | quiet basket table history =>
    intro b hb
    rw [table]
    exact h b (basket ▸ hb)
  | erased code command tab selected basket table history =>
    intro b hb
    rw [basket] at hb
    obtain ⟨r, hrow, hc⟩ := h b hb
    refine ⟨r, ?_, hc⟩
    rw [table, erase, List.mem_filter]
    exact ⟨hrow, by simpa [hc] using hr command tab code selected b hb⟩
  | removed code basket' command tab selected taken basket table history =>
    intro b hb
    rw [basket] at hb
    obtain ⟨c, hc, hcode⟩ := mem_removeFromBasket taken hb
    rw [table, ← hcode]
    exact h c hc
  | saved p saves basket table history =>
    intro b hb
    rw [basket] at hb
    exact exists_row_of_updateStock (hq p saves) table (h b hb)
  | added p flag adds row basket table history =>
    intro b hb
    rw [basket] at hb
    rw [table]
    obtain hcode | ⟨c, hc, hcode⟩ := mem_addProductToBasket hb
    · obtain ⟨r, hr', hrc, -⟩ := getProductData_eq_ok row
      exact ⟨r, hr', hrc.trans hcode.symm⟩
    · rw [← hcode]
      exact h c hc
  | checkedOut command basket table history =>
    rw [BasketRows, basket]
    simp

/-- **Erasing a product of the basket loses its row.** -/
theorem erased_loses_row {code : ℤ} {b : BasketProduct} (hb : b ∈ w.basket)
    (hcode : b.code = code) (hbasket : w'.basket = w.basket)
    (htable : w'.table = erase code w.table) : ¬BasketRows w' := by
  intro h
  obtain ⟨r, hr, hc⟩ := h b (hbasket ▸ hb)
  rw [htable, erase, List.mem_filter] at hr
  simp [hc, hcode] at hr

/-! ## Runs -/

/-- Enter puts the bread into the basket; the next tab is the products tab again, where
`R` erases it. -/
theorem sale_loses_row : ∃ w, Reachable strictServer 11 w ∧ ¬BasketRows w ∧
    ∃ w', iteration strictServer 11 w = .error (.thrown .missingRow) w' := by
  have hrun : (tryIterations strictServer 11 (fun _ _ => true) 3
      (boot [bread] [keyEnter, keyTab, charKey 'R', 0] ⟨[], []⟩ [])).any fun w =>
        ¬BasketRows w ∧ haltOf (iteration strictServer 11 w) = some (.thrown .missingRow) := by
    decide +kernel
  obtain ⟨w, hw, hcheck⟩ := (Option.any_eq_true _ _).1 hrun
  obtain ⟨hrows, hhalt⟩ := of_decide_eq_true hcheck
  exact ⟨w, ⟨_, _, _, _, runsWhere_of_tryIterations (fun _ _ _ => trivial) hw⟩, hrows,
    haltOf_eq_some.1 hhalt⟩

/-- **Every code of the basket has a row**, in every state of a run in which no command
erases a product of the basket or saves a name with a quote; so no read of a product
fails there for want of a row. -/
theorem sale_rows (srv : Server) (lines : ℤ) (table : Table) (keys : List Key)
    (printer : Printer) (uninit : List ℤ) (w : World)
    (hrun : RunsWhere srv lines (KeepsRows srv lines) (boot table keys printer uninit) w) :
    BasketRows w ∧ ∀ w', iteration srv lines w ≠ .error (.thrown .missingRow) w' := by
  have hrows : BasketRows w := by
    refine Runs.inv hrun (by simp [BasketRows, boot]) fun t t' ht hok hit => ?_
    refine iteration_store (fun v v' hb htab _ hv => ?_)
      (fun c v v' hmem hv hstep => basketRows_step hv (hok _ hmem) hstep) ht hit
    intro b hbmem
    rw [htab]
    exact hv b (hb ▸ hbmem)
  refine ⟨hrows, fun w' hw => ?_⟩
  obtain ⟨-, h | h⟩ | ⟨hno, -⟩ | ⟨c, v, -, -, ⟨h, -⟩ | ⟨h, -⟩⟩ := iteration_internal hw trivial
  · cases h
  · cases h
  · exact hno hrows
  · cases h
  · cases h

/-- Enter and the next tab, with the bread in the basket. -/
theorem sale_rows_enter : ∃ w, w.basket ≠ [] ∧ BasketRows w ∧
    ∀ w', iteration strictServer 11 w ≠ .error (.thrown .missingRow) w' := by
  have hrun : (tryIterations strictServer 11 (fun c _ => c = .enter ∨ c = .nextTab) 2
      (boot [bread] [keyEnter, keyTab] ⟨[], []⟩ [])).any fun w => w.basket ≠ [] := by
    decide +kernel
  obtain ⟨w, hw, hcheck⟩ := (Option.any_eq_true _ _).1 hrun
  have himp : ∀ c v, decide (c = Command.enter ∨ c = .nextTab) = true →
      KeepsRows strictServer 11 c v := by
    intro c v h
    obtain rfl | rfl := of_decide_eq_true h <;> exact ⟨fun p hp => hp.elim, by simp⟩
  exact ⟨w, of_decide_eq_true hcheck,
    sale_rows strictServer 11 _ _ _ _ w (runsWhere_of_tryIterations himp hw)⟩

end CliPos
