import CliPos.Analysis.SaleRows

/-!
# The basket counts pieces

What the basket is for: a number for each product, raised by an add, lowered by a
removal, cleared by a checkout.  `net` computes that number from the history alone, and
`quantityOf` reads it off the basket.  The two agree as long as no product is added to an
empty basket while the flag of `add_product_to_basket`, which the loop over an empty basket
never sets, happens to hold true (`basket_counts`).
-/

set_option autoImplicit false

namespace CliPos

open Halting

variable {srv : Server} {lines : ℤ} {w w' : World}

/-! ## The number of a product -/

/-- The quantity of a code in a basket. -/
def quantityOf (code : ℤ) (basket : List BasketProduct) : ℚ :=
  ((basket.filter fun b => b.code = code).map BasketProduct.quantity).sum

/-- The events since the last checkout, the latest first. -/
def sinceCheckout (history : List BasketEvent) : List BasketEvent :=
  history.reverse.takeWhile fun e => e ≠ .checkedOut

/-- The adds of a code minus its removals since the last checkout. -/
def net (code : ℤ) (history : List BasketEvent) : ℤ :=
  (sinceCheckout history).count (.added code) - (sinceCheckout history).count (.removed code)

/-- An empty basket holds nothing. -/
@[simp] theorem quantityOf_nil (code : ℤ) : quantityOf code [] = 0 := rfl

/-- The entries of a code add up. -/
theorem quantityOf_cons (code : ℤ) (b : BasketProduct) (basket : List BasketProduct) :
    quantityOf code (b :: basket) =
      (if b.code = code then b.quantity else 0) + quantityOf code basket := by
  unfold quantityOf
  by_cases h : b.code = code <;> simp [h]

/-- Two baskets together hold what each holds. -/
theorem quantityOf_append (code : ℤ) (basket basket' : List BasketProduct) :
    quantityOf code (basket ++ basket') = quantityOf code basket + quantityOf code basket' := by
  simp [quantityOf]

/-- At the start nothing was added. -/
@[simp] theorem net_nil (code : ℤ) : net code [] = 0 := by simp [net, sinceCheckout]

/-- An add counts one up. -/
theorem net_added (code c : ℤ) (history : List BasketEvent) :
    net code (history ++ [.added c]) = net code history + if c = code then 1 else 0 := by
  unfold net sinceCheckout
  by_cases h : c = code <;> simp [h]
  omega

/-- A removal counts one down. -/
theorem net_removed (code c : ℤ) (history : List BasketEvent) :
    net code (history ++ [.removed c]) = net code history - if c = code then 1 else 0 := by
  unfold net sinceCheckout
  by_cases h : c = code <;> simp [h]
  omega

/-- A checkout starts the count again. -/
theorem net_checkedOut (code : ℤ) (history : List BasketEvent) :
    net code (history ++ [.checkedOut]) = 0 := by
  simp [net, sinceCheckout]

/-! ## The operations on the basket -/

/-- The basket holds an entry of the code. -/
def Holds (basket : List BasketProduct) (code : ℤ) : Prop := ∃ b ∈ basket, b.code = code

/-- A basket can be searched for a code. -/
instance (basket : List BasketProduct) (code : ℤ) : Decidable (Holds basket code) := by
  unfold Holds; infer_instance

/-- An empty basket holds no code. -/
@[simp] theorem not_holds_nil (code : ℤ) : ¬Holds [] code := by simp [Holds]

/-- A basket holds a code in its first entry or behind it. -/
theorem holds_cons {b : BasketProduct} {basket : List BasketProduct} {code : ℤ} :
    Holds (b :: basket) code ↔ b.code = code ∨ Holds basket code := by
  simp [Holds]

/-- The loop of `add_product_to_basket` sets the flag when there is an entry to look at. -/
theorem addLoop_flag (code : ℤ) (quantity : ℚ) (basket : List BasketProduct) (uninit : Bool) :
    (addLoop code quantity basket uninit).2 = true ↔
      Holds basket code ∨ basket = [] ∧ uninit = true := by
  induction basket generalizing uninit with
  | nil => simp [addLoop]
  | cons b basket ih =>
    rw [addLoop]
    by_cases hb : b.code = code
    · simp [hb, holds_cons]
    · simp only [hb, if_false, ih, holds_cons, false_or, reduceCtorEq, false_and, or_false]
      simp

/-- It raises the first entry of the code. -/
theorem addLoop_quantity (code : ℤ) (quantity : ℚ) (basket : List BasketProduct)
    (uninit : Bool) (c : ℤ) :
    quantityOf c (addLoop code quantity basket uninit).1 =
      quantityOf c basket + if c = code ∧ Holds basket code then quantity else 0 := by
  induction basket generalizing uninit with
  | nil => simp [addLoop]
  | cons b basket ih =>
    rw [addLoop]
    by_cases hb : b.code = code
    · have hholds : Holds (b :: basket) code := holds_cons.2 (.inl hb)
      simp only [hb, if_true, quantityOf_cons, hholds, and_true]
      by_cases hc : c = code
      · simp only [hc, if_true]
        ring
      · simp [hc, Ne.symm hc]
    · simp only [hb, if_false, quantityOf_cons, ih, holds_cons, false_or, add_assoc]

/-- It leaves the entries of the other codes. -/
theorem addLoop_others (code : ℤ) (quantity : ℚ) (basket : List BasketProduct)
    (uninit : Bool) :
    (addLoop code quantity basket uninit).1.filter (fun b => b.code ≠ code) =
      basket.filter fun b => b.code ≠ code := by
  induction basket generalizing uninit with
  | nil => rfl
  | cons b basket ih =>
    rw [addLoop]
    by_cases hb : b.code = code
    · simp [hb]
    · simp only [hb, if_false, List.filter_cons, ih]

/-- An add does what it is for: the quantity of the code is raised, and the entries of
the other codes are as they were. -/
def AddExact (basket : List BasketProduct) (code : ℤ) (quantity : ℚ) (uninit : Bool) : Prop :=
  (∀ c, quantityOf c (addProductToBasket basket code quantity uninit) =
    quantityOf c basket + if c = code then quantity else 0) ∧
  (addProductToBasket basket code quantity uninit).filter (fun b => b.code ≠ code) =
    basket.filter fun b => b.code ≠ code

/-- An add to a basket that is not empty, or with a clear flag, is exact. -/
theorem addExact_of (basket : List BasketProduct) (code : ℤ) (quantity : ℚ) {uninit : Bool}
    (h : basket ≠ [] ∨ uninit = false) : AddExact basket code quantity uninit := by
  have hflag := addLoop_flag code quantity basket uninit
  have hclear : ¬(basket = [] ∧ uninit = true) := by
    rintro ⟨hb, hu⟩
    simp [hb, hu] at h
  rw [or_iff_left hclear] at hflag
  unfold AddExact addProductToBasket
  dsimp only
  by_cases hholds : Holds basket code
  · simp only [hflag.2 hholds, Bool.not_true, Bool.false_eq_true, if_false]
    refine ⟨fun c => ?_, addLoop_others _ _ _ _⟩
    simp [addLoop_quantity, hholds]
  · have hfound : (addLoop code quantity basket uninit).2 = false :=
      Bool.eq_false_iff.2 (mt hflag.1 hholds)
    simp only [hfound, Bool.not_false, if_true]
    refine ⟨fun c => ?_, ?_⟩
    · simp [quantityOf_append, addLoop_quantity, quantityOf_cons, hholds, eq_comm]
    · rw [List.filter_append, addLoop_others]
      simp

/-- An add to the empty basket with a raised flag loses the product. -/
theorem addProductToBasket_lost (code : ℤ) (quantity : ℚ) :
    addProductToBasket [] code quantity true = [] := rfl

/-- A removal takes one piece of its code, and of no other. -/
theorem quantityOf_removeFromBasket {code : ℤ} {basket basket' : List BasketProduct}
    (h : removeFromBasket code basket = some basket') (c : ℤ) :
    quantityOf c basket' = quantityOf c basket - if code = c then 1 else 0 := by
  induction basket generalizing basket' with
  | nil => cases h
  | cons b basket ih =>
    rw [removeFromBasket] at h
    by_cases hb : b.code = code
    · rw [if_pos hb] at h
      rw [quantityOf_cons, hb]
      by_cases hq : b.quantity - 1 = 0
      · rw [if_pos hq] at h
        cases h
        have hone : b.quantity = 1 := by linarith
        by_cases hc : code = c
        · simp [hc, hone]
        · simp [hc]
      · rw [if_neg hq] at h
        cases h
        rw [quantityOf_cons]
        by_cases hc : code = c
        · simp only [hb, hc, if_true]
          ring
        · simp [hb, hc]
    · rw [if_neg hb] at h
      obtain ⟨rest, hrest, rfl⟩ := Option.map_eq_some_iff.1 h
      rw [quantityOf_cons, quantityOf_cons, ih hrest]
      ring

/-! ## Runs -/

/-- A command that adds to an empty basket finds the flag of `add_product_to_basket`
clear. -/
def FlagClear (srv : Server) (c : Command) (w : World) : Prop :=
  ∀ a ∈ adds srv c w, w.basket ≠ [] ∨ a.2 = 0

/-- Whether the flag is clear can be tested along a run. -/
instance (srv : Server) (c : Command) (w : World) : Decidable (FlagClear srv c w) := by
  unfold FlagClear; infer_instance

/-- The basket holds of every code the number that its history says. -/
def Counts (w : World) : Prop := ∀ code, quantityOf code w.basket = net code w.history

/-- **Every command that meets the condition keeps the count of every code.** -/
theorem counts_step {c : Command} (h : Counts w) (hflag : FlagClear srv c w)
    (hstep : StoreStep srv lines c w w') : Counts w' := by
  intro code
  cases hstep with
  | quiet basket table history => rw [basket, history, h code]
  | erased c' command tab selected basket table history => rw [basket, history, h code]
  | removed c' basket' command tab selected taken basket table history =>
    rw [basket, history, quantityOf_removeFromBasket taken, net_removed, h code]
    push_cast
    rfl
  | saved p saves basket table history => rw [basket, history, h code]
  | added p flag adds row basket table history =>
    have hclear : w.basket ≠ [] ∨ decide (flag ≠ 0) = false :=
      (hflag _ adds).imp id fun h0 => decide_eq_false (not_not.2 h0)
    rw [basket, history, (addExact_of _ p.code 1 hclear).1 code, net_added, h code]
    push_cast
    simp only [eq_comm]
  | checkedOut command basket table history => simp [basket, history, net_checkedOut]

/-- A product is entered into the empty basket while the flag happens to hold true. -/
theorem first_product_lost : ∃ w, Reachable strictServer 11 w ∧ ¬Counts w := by
  have hrun : (tryIterations strictServer 11 (fun _ _ => true) 1
      (boot [bread] [keyEnter] ⟨[], []⟩ [1])).any
        fun w => w.basket = [] ∧ net 1 w.history = 1 := by
    decide +kernel
  obtain ⟨w, hw, hcheck⟩ := (Option.any_eq_true _ _).1 hrun
  obtain ⟨hb, hnet⟩ := of_decide_eq_true hcheck
  refine ⟨w, ⟨_, _, _, _, runsWhere_of_tryIterations (fun _ _ _ => trivial) hw⟩, fun h => ?_⟩
  have := h 1
  simp [hb, hnet] at this

/-- **The basket refines a counter per product.**  In every state of a run in which no
product is added to an empty basket while the flag holds true, the basket holds of every
code its adds minus its removals since the last checkout; and one add raises exactly its
code by its quantity and leaves the other entries if and only if the basket is not empty
or the flag is clear. -/
theorem basket_counts (srv : Server) (lines : ℤ) :
    (∀ table keys printer uninit w,
      RunsWhere srv lines (FlagClear srv) (boot table keys printer uninit) w →
        ∀ code, quantityOf code w.basket = net code w.history) ∧
    (∀ basket code quantity uninit, quantity ≠ 0 →
      (AddExact basket code quantity uninit ↔ basket ≠ [] ∨ uninit = false)) := by
  constructor
  · intro table keys printer uninit w hrun
    refine Runs.inv (P := Counts) hrun (by simp [Counts, boot]) fun t t' ht hok hit => ?_
    refine iteration_store (fun v v' hb _ hh hv code => ?_)
      (fun c v v' hmem hv hstep => counts_step hv (hok _ hmem) hstep) ht hit
    rw [hb, hh]
    exact hv code
  · intro basket code quantity uninit hq
    refine ⟨fun hexact => ?_, addExact_of basket code quantity⟩
    by_contra hno
    rw [not_or, not_not, Bool.not_eq_false] at hno
    obtain ⟨rfl, rfl⟩ := hno
    have := hexact.1 code
    simp [addProductToBasket_lost] at this
    exact hq this.symm

/-- Enter, with the flag clear, and one add to a basket that is not empty. -/
theorem basket_counts_enter :
    (∃ w : World, w.basket ≠ [] ∧
      ∀ code, quantityOf code w.basket = net code w.history) ∧
      AddExact [⟨2, 1⟩] 1 1 true := by
  have hrun : (tryIterations strictServer 11 (fun c w => FlagClear strictServer c w) 2
      (boot [bread] [keyEnter, keyTab] ⟨[], []⟩ [])).any fun w => w.basket ≠ [] := by
    decide +kernel
  obtain ⟨w, hw, hcheck⟩ := (Option.any_eq_true _ _).1 hrun
  obtain ⟨hcounts, hadd⟩ := basket_counts strictServer 11
  exact ⟨⟨w, of_decide_eq_true hcheck, hcounts _ _ _ _ w
    (runsWhere_of_tryIterations (fun c v h => of_decide_eq_true h) hw)⟩,
    (hadd _ _ _ _ one_ne_zero).2 (.inl (by simp))⟩

end CliPos
