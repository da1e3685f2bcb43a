import CliPos.Analysis.BasketCounter

/-!
# The basket holds whole pieces

The key `R` erases an entry of the basket when its quantity is exactly zero after one piece
is taken, and reads `basket[i]` after a search loop without asking whether the loop found
anything.  Both are right because of what the basket is made of: no two entries of one
code, and whole pieces in each (`BasketValid`).  Adds go one piece at a time, whatever the
uninitialised flag of `add_product_to_basket` holds, so every run keeps it
(`basket_of_pieces`).
-/

set_option autoImplicit false

namespace CliPos

open Halting

variable {srv : Server} {lines : ℤ} {w w' : World} {basket basket' : List BasketProduct} {code : ℤ}

/-- No code has two entries, and every entry holds a positive number of whole pieces. -/
structure BasketValid (basket : List BasketProduct) : Prop where
  nodup : (basket.map BasketProduct.code).Nodup
  pieces : ∀ b ∈ basket, ∃ n : ℕ, 0 < n ∧ b.quantity = n

/-- An empty basket is valid. -/
theorem basketValid_nil : BasketValid [] := ⟨by simp, by simp⟩

/-! ## Adding a piece -/

/-- The loop of `add_product_to_basket` leaves the codes as they are. -/
theorem addLoop_codes (code : ℤ) (quantity : ℚ) (basket : List BasketProduct) (uninit : Bool) :
    (addLoop code quantity basket uninit).1.map BasketProduct.code =
      basket.map BasketProduct.code := by
  induction basket generalizing uninit with
  | nil => rfl
  | cons b basket ih =>
    rw [addLoop]
    by_cases hb : b.code = code
    · simp [hb]
    · simp [hb, ih]

/-- One more piece in an entry, or none. -/
theorem addLoop_pieces (h : ∀ b ∈ basket, ∃ n : ℕ, 0 < n ∧ b.quantity = n) (code : ℤ)
    (uninit : Bool) :
    ∀ b ∈ (addLoop code 1 basket uninit).1, ∃ n : ℕ, 0 < n ∧ b.quantity = n := by
  induction basket generalizing uninit with
  | nil => simp [addLoop]
  | cons b basket ih =>
    have htail : ∀ c ∈ basket, ∃ n : ℕ, 0 < n ∧ c.quantity = n :=
      fun c hc => h c (List.mem_cons_of_mem b hc)
    obtain ⟨n, hn, hquantity⟩ := h b List.mem_cons_self
    rw [addLoop]
    by_cases hb : b.code = code
    · rw [if_pos hb]
      intro c hc
      rcases List.mem_cons.1 hc with rfl | hc
      · refine ⟨n + 1, Nat.succ_pos n, ?_⟩
        rw [hquantity]
        push_cast
        rfl
      · exact htail c hc
    · rw [if_neg hb]
      intro c hc
      rcases List.mem_cons.1 hc with rfl | hc
      · exact ⟨n, hn, hquantity⟩
      · exact ih htail false c hc

/-- Adding a piece keeps a basket valid. -/
theorem BasketValid.add (h : BasketValid basket) (code : ℤ) (uninit : Bool) :
    BasketValid (addProductToBasket basket code 1 uninit) := by
  have hcodes := addLoop_codes code 1 basket uninit
  have hpieces := addLoop_pieces h.pieces code uninit
  have hflag := addLoop_flag code 1 basket uninit
  unfold addProductToBasket
  dsimp only
  cases hfound : (addLoop code 1 basket uninit).2 with
  | true =>
    rw [Bool.not_true, if_neg (by simp)]
    exact ⟨hcodes ▸ h.nodup, hpieces⟩
  | false =>
    -- the loop went past every entry without setting the flag: the code is new
    have hnew : ¬Holds basket code := by
      intro hholds
      rw [hflag.2 (.inl hholds)] at hfound
      cases hfound
    rw [Bool.not_false, if_pos rfl]
    constructor
    · rw [List.map_append, hcodes, List.map_singleton, List.nodup_append]
      refine ⟨h.nodup, List.nodup_singleton code, ?_⟩
      intro c hc d hd hcd
      obtain ⟨b, hb, hbc⟩ := List.mem_map.1 hc
      exact hnew ⟨b, hb, hbc.trans (hcd.trans (List.mem_singleton.1 hd))⟩
    · intro b hb
      rcases List.mem_append.1 hb with hb | hb
      · exact hpieces b hb
      · obtain rfl := List.mem_singleton.1 hb
        exact ⟨1, Nat.one_pos, by simp⟩

/-! ## Taking a piece -/

/-- **`R` takes a piece of the first entry of the code**, which goes when it was the last
piece; the other entries stay. -/
theorem removeFromBasket_eq_some (h : removeFromBasket code basket = some basket') :
    ∃ b ∈ basket, b.code = code ∧
      basket' = if b.quantity - 1 = 0 then basket.erase b
        else basket.replace b { b with quantity := b.quantity - 1 } := by
  induction basket generalizing basket' with
  | nil => cases h
  | cons b basket ih =>
    rw [removeFromBasket] at h
    by_cases hb : b.code = code
    · rw [if_pos hb] at h
      refine ⟨b, List.mem_cons_self, hb, ?_⟩
      by_cases hq : b.quantity - 1 = 0
      · rw [if_pos hq] at h ⊢
        rw [List.erase_cons_head]
        exact (Option.some.inj h).symm
      · rw [if_neg hq] at h ⊢
        rw [List.replace_cons_self]
        exact (Option.some.inj h).symm
    · rw [if_neg hb] at h
      obtain ⟨rest, hrest, rfl⟩ := Option.map_eq_some_iff.1 h
      obtain ⟨c, hc, hcode, rfl⟩ := ih hrest
      have hne : b ≠ c := by
        rintro rfl
        exact hb hcode
      refine ⟨c, List.mem_cons_of_mem b hc, hcode, ?_⟩
      by_cases hq : c.quantity - 1 = 0
      · rw [if_pos hq, if_pos hq, List.erase_cons_tail (by simpa using hne)]
      · have hbeq : (c == b) = false := beq_false_of_ne hne.symm
        rw [if_neg hq, if_neg hq, List.replace_cons, hbeq]

/-- What replacing an entry leaves: the entries before and behind it. -/
theorem exists_replace_eq {b : BasketProduct} (hb : b ∈ basket) (c : BasketProduct) :
    ∃ before after, basket = before ++ b :: after ∧
      basket.replace b c = before ++ c :: after := by
  obtain ⟨before, after, rfl, hnot⟩ := List.eq_append_cons_of_mem hb
  refine ⟨before, after, rfl, ?_⟩
  rw [List.replace_append_right hnot, List.replace_cons_self]

/-- Taking a piece out keeps a basket valid. -/
theorem BasketValid.remove (h : BasketValid basket)
    (hremove : removeFromBasket code basket = some basket') : BasketValid basket' := by
  obtain ⟨b, hb, -, rfl⟩ := removeFromBasket_eq_some hremove
  by_cases hq : b.quantity - 1 = 0
  · rw [if_pos hq]
    have hsub : (basket.erase b).Sublist basket := List.erase_sublist
    exact ⟨h.nodup.sublist (hsub.map _), fun c hc => h.pieces c (hsub.subset hc)⟩
  · rw [if_neg hq]
    obtain ⟨before, after, hsplit, hreplace⟩ :=
      exists_replace_eq hb { b with quantity := b.quantity - 1 }
    obtain ⟨n, hn, hquantity⟩ := h.pieces b hb
    rw [hreplace]
    constructor
    · have hcodes := h.nodup
      rw [hsplit] at hcodes
      simpa using hcodes
    · intro c hc
      have hmem : c = { b with quantity := b.quantity - 1 } ∨ c ∈ basket := by
        rw [hsplit]
        simp only [List.mem_append, List.mem_cons] at hc ⊢
        tauto
      rcases hmem with rfl | hmem
      · -- the piece taken was not the last
        have hone : n ≠ 1 := by
          rintro rfl
          exact hq (by rw [hquantity]; norm_num)
        refine ⟨n - 1, by omega, ?_⟩
        rw [hquantity, Nat.cast_sub hn, Nat.cast_one]
      · exact h.pieces c hmem

/-! ## Runs -/

/-- **Every command keeps the basket valid.** -/
theorem basketValid_step {c : Command} (h : BasketValid w.basket)
    (hstep : StoreStep srv lines c w w') : BasketValid w'.basket := by
  cases hstep with
  | quiet basket table history => exact basket ▸ h
  | erased code command tab selected basket table history => exact basket ▸ h
  | removed code basket' command tab selected taken basket table history =>
    exact basket ▸ h.remove taken
  | saved p saves basket table history => exact basket ▸ h
  | added p flag adds row basket table history => exact basket ▸ h.add p.code _
  | checkedOut command basket table history => exact basket ▸ basketValid_nil

/-- `R` on a row of the basket's list. -/
theorem removeCommand_basket (hf : Fresh srv lines w) (ht : w.currentTab = .basket)
    (h0 : 0 ≤ w.selection) (hlt : w.selection < w.list.length) :
    ∃ b ∈ w.basket, elementAt w.list w.selection = some b.code ∧
      ∃ w', removeCommand lines w = .ok () w' ∧
        w'.basket = if b.quantity - 1 = 0 then w.basket.erase b
          else w.basket.replace b { b with quantity := b.quantity - 1 } := by
  have hlen := hf.list_length
  have hsize : currentListSize w ≠ 0 := by
    rcases hf.inRange with hr | ⟨hstart, hr⟩ <;> omega
  have hstop : w.selection ≠ w.stop := by
    rcases hf.inRange with hr | ⟨hstart, hr⟩ <;> omega
  obtain ⟨code, hcode⟩ : ∃ code, elementAt w.list w.selection = some code :=
    Option.isSome_iff_exists.1 ((elementAt_isSome_iff _ _).2 ⟨h0, hlt⟩)
  have hin := hf.exists_basket_of_mem_list ht (elementAt_eq_some hcode)
  obtain ⟨basket', hremove⟩ := Option.isSome_iff_exists.1 (removeFromBasket_isSome hin)
  obtain ⟨b, hb, rfl, hbasket⟩ := removeFromBasket_eq_some hremove
  refine ⟨b, hb, hcode, { w with
    basket := basket', history := w.history ++ [.removed b.code] }, ?_, hbasket⟩
  have hread : readAt .listSelection w.list w.selection w = .ok b.code w :=
    readAt_eq_ok.2 ⟨hcode, rfl⟩
  rw [removeCommand, bind_apply, get_apply]
  simp only [if_pos hsize, bind_apply, modify_apply, get_apply, removeAdjust_of_ne lines w hstop,
    hread, ht, hremove]

/-- **The basket holds whole pieces.**  In every state that a run from an empty basket
reaches, no code has two entries and every entry holds a positive number of pieces; so `R`
on a row of the basket's list finds the highlighted code, takes one piece of its entry,
which goes when that was its last, and leaves every other entry alone. -/
theorem basket_of_pieces (srv : Server) (lines : ℤ) (w₀ w : World) (hempty : w₀.basket = [])
    (hrun : RunsWhere srv lines (fun _ _ => True) w₀ w) :
    BasketValid w.basket ∧
    ∀ v, (.remove, v) ∈ iterationTrace srv lines w → v.currentTab = .basket →
      0 ≤ v.selection → v.selection < v.list.length →
      BasketValid v.basket ∧
      ∃ b ∈ v.basket, elementAt v.list v.selection = some b.code ∧
        ∃ v', Command.remove.body srv lines v = .ok () v' ∧
          v'.basket = if b.quantity - 1 = 0 then v.basket.erase b
            else v.basket.replace b { b with quantity := b.quantity - 1 } := by
  have hcongr : ∀ v v' : World, v'.basket = v.basket → v'.table = v.table →
      v'.history = v.history → BasketValid v.basket → BasketValid v'.basket :=
    fun v v' hb _ _ hv => hb ▸ hv
  have hvalid : BasketValid w.basket := by
    refine Runs.inv (P := fun w => BasketValid w.basket) hrun (hempty ▸ basketValid_nil) ?_
    intro t t' ht _ hit
    exact iteration_store hcongr (fun c v v' _ hv hstep => basketValid_step hv hstep) ht hit
  refine ⟨hvalid, fun v hmem ht h0 hlt => ⟨?_, ?_⟩⟩
  · exact trace_store (P := fun w => BasketValid w.basket) hcongr
      (fun c v v' _ hv hstep => basketValid_step hv hstep) hvalid hmem
  · exact removeCommand_basket (fresh_of_mem_trace hmem (by decide)) ht h0 hlt

/-- A loaf is entered into the basket, and taken out again. -/
theorem basket_of_pieces_enter : ∃ v b v', b ∈ v.basket ∧ BasketValid v.basket ∧
    Command.remove.body strictServer 11 v = .ok () v' ∧
      v'.basket = if b.quantity - 1 = 0 then v.basket.erase b
        else v.basket.replace b { b with quantity := b.quantity - 1 } := by
  have hrun : (tryIterations strictServer 11 (fun _ _ => true) 1
      (boot [bread] [keyEnter, charKey 'R'] ⟨[], []⟩ [])).any fun w =>
        (iterationTrace strictServer 11 w).any fun e => e.1 = .remove ∧
          e.2.currentTab = .basket ∧ 0 ≤ e.2.selection ∧ e.2.selection < e.2.list.length := by
    decide +kernel
  obtain ⟨w, hw, hcheck⟩ := (Option.any_eq_true _ _).1 hrun
  obtain ⟨⟨c, v⟩, hmem, hv⟩ := List.any_eq_true.1 hcheck
  obtain ⟨rfl, ht, h0, hlt⟩ := of_decide_eq_true hv
  obtain ⟨-, hremove⟩ := basket_of_pieces strictServer 11 _ w rfl
    (runsWhere_of_tryIterations (fun _ _ _ => trivial) hw)
  obtain ⟨hvalid, b, hb, -, v', hbody, hbasket⟩ := hremove v hmem ht h0 hlt
  exact ⟨v, b, v', hb, hvalid, hbody, hbasket⟩

end CliPos
