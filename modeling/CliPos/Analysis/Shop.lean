import CliPos.Lib.PointOfSale
import CliPos.Analysis.Settings
import CliPos.Analysis.FormValues
import CliPos.Analysis.BasketPieces

/-!
# The till is a point of sale

What the main loop is for: a shop that knows products by their codes, a cart of pieces, and
bills.  `shopOf` is what of a state a shopkeeper would look at.  The cart counts the pieces of
a valid basket, adding and removing move one piece, a receipt shows the bill of the cart
(`billOf_eq_bill`), and a form and `R` change what is known of one code.
-/

set_option autoImplicit false

namespace CliPos

open Halting PointOfSale

variable {srv : Server} {lines : ℤ} {w w' : World} {basket basket' : List BasketProduct}
  {code : ℤ} {t t' : Table}

/-! ## The shop of a state -/

/-- A quantity of whole pieces. -/
def pieceCount (quantity : ℚ) : ℕ := quantity.num.toNat

/-- So many pieces are so many. -/
@[simp] theorem pieceCount_natCast (n : ℕ) : pieceCount n = n := by
  simp [pieceCount]

/-- The pieces in a basket. -/
def cartOf (basket : List BasketProduct) : Multiset ℤ :=
  (basket.map fun b => Multiset.replicate (pieceCount b.quantity) b.code).sum

/-- What `get_product_data` finds under a code. -/
def known (t : Table) (code : ℤ) : Option Product := (getProductData code t).toOption

/-- The line of a bill that an item of a receipt is. -/
def itemOf (l : ReceiptLine) : ℤ × Option Product × ℕ :=
  (l.product.code, some l.product, pieceCount l.quantity)

/-- The bill that a receipt shows. -/
def billOf (r : Receipt) : Bill ℤ Product ℚ where
  items := (r.lines.map itemOf : List (ℤ × Option Product × ℕ))
  total := r.total

/-- What a shopkeeper sees of a state. -/
def shopOf (w : World) : PointOfSale.Shop ℤ Product ℚ where
  catalogue := known w.table
  cart := cartOf w.basket
  bills := w.printer.output.map fun r => billOf r.1

/-- The product was written by the form. -/
def Written (code : ℤ) (p : Product) : Prop :=
  ∃ r, WrittenByForm r ∧ r.code = code ∧ p = productOf r

/-- What the history of the basket says of an event. -/
def basketEvent : Event ℤ Product ℚ → Option BasketEvent
  | .taken code => some (.added code)
  | .returned code => some (.removed code)
  | .sold _ => some .checkedOut
  | .stocked _ _ | .dropped _ | .printed _ => none

/-- What it says of a list of events. -/
def historyOf (es : List (Event ℤ Product ℚ)) : List BasketEvent := es.filterMap basketEvent

/-! ## The cart -/

/-- The pieces of an entry go to the cart together. -/
theorem cartOf_cons (b : BasketProduct) (basket : List BasketProduct) :
    cartOf (b :: basket) = Multiset.replicate (pieceCount b.quantity) b.code + cartOf basket := by
  simp [cartOf]

/-- **The cart counts the pieces** of the basket. -/
theorem count_cartOf (h : ∀ b ∈ basket, ∃ n : ℕ, 0 < n ∧ b.quantity = n) (code : ℤ) :
    ((cartOf basket).count code : ℚ) = quantityOf code basket := by
  induction basket with
  | nil => simp [cartOf]
  | cons b basket ih =>
    obtain ⟨n, -, hquantity⟩ := h b List.mem_cons_self
    rw [cartOf_cons, Multiset.count_add, Multiset.count_replicate, quantityOf_cons, hquantity,
      pieceCount_natCast, Nat.cast_add, ih fun c hc => h c (List.mem_cons_of_mem b hc)]
    split_ifs <;> simp

/-- A basket that holds one piece more has it in its cart. -/
theorem cartOf_eq_cons (h : BasketValid basket) (h' : BasketValid basket')
    (hquantity : ∀ c, quantityOf c basket' = quantityOf c basket + if c = code then 1 else 0) :
    cartOf basket' = code ::ₘ cartOf basket := by
  refine Multiset.ext.2 fun c => ?_
  have hcount : ((cartOf basket').count c : ℚ) =
      ((cartOf basket).count c + if c = code then 1 else 0 : ℕ) := by
    rw [count_cartOf h'.pieces, hquantity, Nat.cast_add, count_cartOf h.pieces]
    split_ifs <;> simp
  rw [Multiset.count_cons]
  exact_mod_cast hcount

/-- **An exact add** takes one piece. -/
theorem cartOf_add (h : BasketValid basket) {uninit : Bool}
    (hclear : basket ≠ [] ∨ uninit = false) :
    cartOf (addProductToBasket basket code 1 uninit) = code ::ₘ cartOf basket :=
  cartOf_eq_cons h (h.add code uninit) (addExact_of basket code 1 hclear).1

/-- **The key `R`** returns one piece. -/
theorem cartOf_remove (h : BasketValid basket)
    (hremove : removeFromBasket code basket = some basket') :
    cartOf basket = code ::ₘ cartOf basket' := by
  refine cartOf_eq_cons (h.remove hremove) h fun c => ?_
  rw [quantityOf_removeFromBasket hremove]
  simp only [eq_comm (a := c)]
  ring

/-- A code is in the cart exactly when the basket has an entry for it. -/
theorem mem_cartOf (h : ∀ b ∈ basket, ∃ n : ℕ, 0 < n ∧ b.quantity = n) :
    code ∈ cartOf basket ↔ code ∈ basket.map BasketProduct.code := by
  induction basket with
  | nil => simp [cartOf]
  | cons b basket ih =>
    obtain ⟨n, hn, hquantity⟩ := h b List.mem_cons_self
    have hhead : code ∈ Multiset.replicate (pieceCount b.quantity) b.code ↔ code = b.code := by
      rw [hquantity, pieceCount_natCast, Multiset.mem_replicate]
      exact and_iff_right (by omega)
    rw [cartOf_cons, Multiset.mem_add, hhead, ih fun c hc => h c (List.mem_cons_of_mem b hc),
      List.map_cons, List.mem_cons]

/-- The codes of the cart are those of the entries. -/
theorem dedup_cartOf (h : BasketValid basket) :
    (cartOf basket).dedup = (basket.map BasketProduct.code : List ℤ) := by
  have hcodes : (basket.map BasketProduct.code : Multiset ℤ).Nodup := h.nodup
  refine (Multiset.Nodup.ext (Multiset.nodup_dedup _) hcodes).2 fun c => ?_
  rw [Multiset.mem_dedup, mem_cartOf h.pieces, Multiset.mem_coe]

/-- A valid basket holds of a code what the entry of the code says. -/
theorem quantityOf_eq (h : BasketValid basket) {b : BasketProduct} (hb : b ∈ basket) :
    quantityOf b.code basket = b.quantity := by
  obtain ⟨before, after, rfl⟩ := List.append_of_mem hb
  have hnodup := h.nodup
  simp only [List.map_append, List.map_cons, List.nodup_append, List.nodup_cons, List.mem_map,
    List.mem_cons, not_exists, not_and] at hnodup
  obtain ⟨-, ⟨hafter, -⟩, hbefore⟩ := hnodup
  have hnone : ∀ {l : List BasketProduct}, (∀ c ∈ l, c.code ≠ b.code) →
      quantityOf b.code l = 0 := by
    intro l hl
    have hempty : l.filter (fun c => c.code = b.code) = [] :=
      List.filter_eq_nil_iff.2 fun c hc => by simpa using hl c hc
    rw [quantityOf, hempty]
    rfl
  rw [quantityOf_append, quantityOf_cons, if_pos rfl, hnone fun c hc => hafter c hc,
    hnone fun c hc => hbefore c.code ⟨c, hc, rfl⟩ b.code (.inl rfl)]
  ring

/-- The pieces of an entry. -/
theorem count_cartOf_code (h : BasketValid basket) {b : BasketProduct} (hb : b ∈ basket) :
    (cartOf basket).count b.code = pieceCount b.quantity := by
  obtain ⟨n, -, hquantity⟩ := h.pieces b hb
  have hcount := count_cartOf h.pieces b.code
  rw [quantityOf_eq h hb, hquantity] at hcount
  rw [hquantity, pieceCount_natCast]
  exact_mod_cast hcount

/-! ## The bill -/

/-- What `get_product_data` reads is known. -/
theorem known_of_getProductData {p : Product} (h : getProductData code t = .ok p) :
    known t code = some p := by
  rw [known, h]
  rfl

/-- The items of a receipt are the entries of the basket, in order. -/
theorem receiptLines_items {items : List ReceiptLine} (h : receiptLines basket t = .ok items) :
    items.map itemOf = basket.map fun b => (b.code, known t b.code, pieceCount b.quantity) := by
  induction basket generalizing items with
  | nil =>
    obtain rfl := Except.ok.inj h
    rfl
  | cons b basket ih =>
    obtain ⟨p, hp, h⟩ := except_bind_eq_ok.1 h
    obtain ⟨rest, hrest, h⟩ := except_bind_eq_ok.1 h
    obtain rfl := Except.ok.inj h
    rw [List.map_cons, List.map_cons, ih hrest, itemOf, getProductData_code hp,
      known_of_getProductData hp]

/-- **The total** is the price of every piece. -/
theorem basketTotal_eq_sum (hpieces : ∀ b ∈ basket, ∃ n : ℕ, 0 < n ∧ b.quantity = n) {x total : ℚ}
    (h : basketTotal basket t x = .ok total) :
    total = x + ((cartOf basket).map fun c =>
      ((known t c).map Product.priceAfterDiscount).getD 0).sum := by
  induction basket generalizing x with
  | nil =>
    obtain rfl := Except.ok.inj h
    simp [cartOf]
  | cons b basket ih =>
    obtain ⟨p, hp, h⟩ := except_bind_eq_ok.1 h
    obtain ⟨n, -, hquantity⟩ := hpieces b List.mem_cons_self
    rw [ih (fun c hc => hpieces c (List.mem_cons_of_mem b hc)) h, cartOf_cons, Multiset.map_add,
      Multiset.sum_add, Multiset.map_replicate, Multiset.sum_replicate,
      known_of_getProductData hp, hquantity, pieceCount_natCast, nsmul_eq_mul, Option.map_some,
      Option.getD_some]
    ring

/-- **A receipt of a state shows the bill of its cart.** -/
theorem billOf_eq_bill (hvalid : BasketValid w.basket) {items : List ReceiptLine}
    (hitems : receiptLines w.basket w.table = .ok items)
    (htotal : basketTotal w.basket w.table 0 = .ok w.total) :
    billOf ⟨items, w.total⟩ = (shopOf w).bill Product.priceAfterDiscount := by
  have hlines : (w.basket.map fun b => (b.code, known w.table b.code, pieceCount b.quantity)) =
      (w.basket.map BasketProduct.code).map fun c =>
        (c, known w.table c, (cartOf w.basket).count c) := by
    rw [List.map_map]
    refine List.map_congr_left fun b hb => ?_
    rw [Function.comp_apply, count_cartOf_code hvalid hb]
  have hsum := basketTotal_eq_sum hvalid.pieces htotal
  rw [zero_add] at hsum
  unfold billOf Shop.bill shopOf
  dsimp only
  rw [receiptLines_items hitems, hlines, dedup_cartOf hvalid, Multiset.map_coe, ← hsum]

/-! ## The catalogue -/

/-- After an `erase` nothing is known under the code, and all else as before. -/
theorem known_erase (code : ℤ) (t : Table) :
    known (erase code t) = Function.update (known t) code none := by
  funext c
  by_cases hc : c = code
  · subst hc
    have hnone : (erase c t).find? (fun r => r.code = c) = none :=
      List.find?_eq_none.2 fun r hr => by simpa using (List.mem_filter.1 hr).2
    rw [Function.update_self, known, getProductData, hnone]
    rfl
  · have hfind : (erase code t).find? (fun r => r.code = c) = t.find? fun r => r.code = c := by
      rw [erase, List.find?_filter]
      congr 1
      funext r
      simp only [decide_eq_true_eq, Bool.decide_and, decide_not]
      by_cases hr : r.code = c
      · simp [hr, hc]
      · simp [hr]
    rw [Function.update_of_ne hc, known, known, getProductData, getProductData, hfind]

/-- **`update_stock`** makes the product known that it wrote. -/
theorem known_updateStock {p : Product} (hq : quote ∉ p.name) (h : updateStock srv p t = .ok t') :
    known t' = Function.update (known t) p.code (some (productOf (rowOf p))) := by
  funext c
  obtain ⟨hexists, rfl⟩ | ⟨hexists, rfl⟩ := updateStock_eq_ok hq h
  · have hcodes : ((fun r : Row => decide (r.code = c)) ∘ fun r =>
        if r.code = p.code then rowOf p else r) = fun r => decide (r.code = c) := by
      funext r
      rw [Function.comp_apply]
      split_ifs with hr
      · rw [hr]
        rfl
      · rfl
    have hfind : (updateRows p t).find? (fun r => r.code = c) =
        (t.find? fun r => r.code = c).map fun r => if r.code = p.code then rowOf p else r := by
      rw [updateRows, List.find?_map, hcodes]
    rw [known, getProductData, hfind]
    by_cases hc : c = p.code
    · subst hc
      obtain ⟨r, hr, hcode⟩ := exists_row_of_productExists hexists
      cases hrow : t.find? fun r => r.code = p.code with
      | none =>
        have hnone := List.find?_eq_none.1 hrow r hr
        simp [hcode] at hnone
      | some r' =>
        have hcode' := List.find?_some hrow
        rw [decide_eq_true_eq] at hcode'
        rw [Option.map_some, if_pos hcode', Function.update_self]
        rfl
    · rw [Function.update_of_ne hc, known, getProductData]
      cases hrow : t.find? fun r => r.code = c with
      | none => rfl
      | some r' =>
        have hcode' := List.find?_some hrow
        rw [decide_eq_true_eq] at hcode'
        have hne : r'.code ≠ p.code := fun h => hc (hcode'.symm.trans h)
        rw [Option.map_some, if_neg hne]
  · have hnone := codeCount_eq_zero.1 (codeCount_eq_zero_of_productExists hexists)
    rw [known, getProductData, insertRow, List.find?_append]
    by_cases hc : c = p.code
    · subst hc
      have hmiss : t.find? (fun r => r.code = p.code) = none :=
        List.find?_eq_none.2 fun r hr => by simpa using hnone r hr
      have hrow : [rowOf p].find? (fun r => r.code = p.code) = some (rowOf p) := by
        simp [rowOf]
      rw [hmiss, Option.none_or, hrow, Function.update_self]
      rfl
    · have hmiss : [rowOf p].find? (fun r => r.code = c) = none := by
        simpa [rowOf] using Ne.symm hc
      rw [hmiss, Option.or_none, Function.update_of_ne hc, known, getProductData]

end CliPos
