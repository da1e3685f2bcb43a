import CliPos.Analysis.Redraw

/-!
# The total of a receipt

The total on the screen is summed from `price_after_discount` at redraw; a receipt shows
amounts and discounts computed from the price when it is printed.  In exact arithmetic
the two agree item by item (`productOf_net`), so they agree on a whole basket
(`basketTotal_eq_balance`), and no command changes basket or table between the redraw and
a call of `print_receipt`.
-/

set_option autoImplicit false

namespace CliPos

open Halting

variable {srv : Server} {lines : ℤ} {w w' : World}

/-- The printed amounts of some items minus their printed discounts. -/
def balance (items : List ReceiptLine) : ℚ :=
  (items.map ReceiptLine.amount).sum - (items.map ReceiptLine.printedDiscount).sum

/-- Nothing is owed for nothing. -/
@[simp] theorem balance_nil : balance [] = 0 := by simp [balance]

/-- An item adds its amount less its discount. -/
theorem balance_cons (l : ReceiptLine) (items : List ReceiptLine) :
    balance (l :: items) = (l.amount - l.printedDiscount) + balance items := by
  simp only [balance, List.map_cons, List.sum_cons]
  ring

/-- A product without a discount line has a zero discount, so the discount line shows the
discount in every case. -/
theorem ReceiptLine.printedDiscount_eq (l : ReceiptLine) :
    l.printedDiscount = l.product.price / 100 * l.product.discount * l.quantity := by
  unfold printedDiscount discountLine
  split_ifs with h
  · rfl
  · have h0 : l.product.discount = 0 := not_not.1 h
    simp [h0]

/-- `price_after_discount * quantity` is the amount on the item's line minus the amount on
its discount line. -/
theorem productOf_net (r : Row) (quantity : ℚ) :
    (productOf r).priceAfterDiscount * quantity =
      (ReceiptLine.mk (productOf r) quantity).amount -
        (ReceiptLine.mk (productOf r) quantity).printedDiscount := by
  rw [ReceiptLine.printedDiscount_eq]
  simp only [ReceiptLine.amount, productOf]
  ring

/-- **The total of a basket is the balance of its receipt**, when every code in it has a
row. -/
theorem basketTotal_eq_balance {basket : List BasketProduct} {t : Table}
    (h : ∀ b ∈ basket, ∃ r ∈ t, r.code = b.code) (x : ℚ) :
    ∃ items, receiptLines basket t = .ok items ∧
      basketTotal basket t x = .ok (x + balance items) := by
  induction basket generalizing x with
  | nil => exact ⟨[], rfl, by simp [basketTotal]⟩
  | cons b basket ih =>
    obtain ⟨p, hp⟩ := exists_getProductData (h b (by simp))
    obtain ⟨r, -, -, rfl⟩ := getProductData_eq_ok hp
    obtain ⟨items, hitems, htotal⟩ := ih (fun c hc => h c (by simp [hc]))
      (x + (productOf r).priceAfterDiscount * b.quantity)
    refine ⟨⟨productOf r, b.quantity⟩ :: items, ?_, ?_⟩
    · rw [receiptLines, hp, hitems]
      rfl
    · rw [basketTotal, hp]
      change basketTotal basket t (x + (productOf r).priceAfterDiscount * b.quantity) = _
      rw [htotal, balance_cons, productOf_net, add_assoc]

/-! ## One attempt to print -/

/-- The printer after an attempt that reached `write`. -/
def Printer.afterWrite (printer : Printer) (receipt : Receipt) (attempt : Attempt)
    (results : List Attempt) : Printer :=
  { results, output := printer.output ++ [(receipt, attempt.written)] }

/-- **A call of `print_receipt` on an empty basket** shows a message. -/
theorem printReceipt_nil {t : Table} {total : ℚ} {keys keys' : List Key}
    {printer printer' : Printer} {printed : Bool}
    (h : printReceipt [] t total keys printer = .ok printed (keys', printer')) :
    printed = false ∧ printer' = printer := by
  unfold printReceipt at h
  cases keys with
  | nil => cases h
  | cons key keys =>
    simp only [if_true, EStateM.Result.ok.injEq, Prod.mk.injEq] at h
    exact ⟨h.1.symm, h.2.2.symm⟩

/-- **A call of `print_receipt` that returned** made an attempt.  Where `open` failed it
returned false; otherwise a receipt was sent, and the answer to the reprint question says
whether the call returned true or printed again. -/
theorem printReceipt_eq_ok {basket : List BasketProduct} {t : Table} {total : ℚ}
    {keys keys' : List Key} {printer printer' : Printer} {printed : Bool} (hb : basket ≠ [])
    (h : printReceipt basket t total keys printer = .ok printed (keys', printer')) :
    ∃ key rest attempt results, keys = key :: rest ∧ printer.results = attempt :: results ∧
      ((attempt.opened = false ∧ printed = false ∧
          printer' = { printer with results := results }) ∨
        (attempt.opened = true ∧ ∃ items, receiptLines basket t = .ok items ∧
          ((key = charKey 'y' ∧ printReceipt basket t total rest
              (printer.afterWrite ⟨items, total⟩ attempt results) =
                .ok printed (keys', printer')) ∨
            (key ≠ charKey 'y' ∧ printed = true ∧
              printer' = printer.afterWrite ⟨items, total⟩ attempt results)))) := by
  unfold printReceipt at h
  rw [if_neg hb] at h
  cases hres : printer.results with
  | nil =>
    rw [hres] at h
    cases h
  | cons attempt results =>
    simp only [hres] at h
    cases hopen : attempt.opened with
    | false =>
      simp only [hopen, Bool.false_eq_true, if_false] at h
      cases keys with
      | nil => cases h
      | cons key rest =>
        simp only [EStateM.Result.ok.injEq, Prod.mk.injEq] at h
        exact ⟨key, rest, attempt, results, rfl, rfl, .inl ⟨hopen, h.1.symm, h.2.2.symm⟩⟩
    | true =>
      simp only [hopen, if_true] at h
      cases hitems : receiptLines basket t with
      | error e =>
        rw [hitems] at h
        cases h
      | ok items =>
        simp only [hitems] at h
        cases keys with
        | nil => cases h
        | cons key rest =>
          refine ⟨key, rest, attempt, results, rfl, rfl, .inr ⟨hopen, items, rfl, ?_⟩⟩
          by_cases hkey : key = charKey 'y'
          · simp only [hkey, if_true] at h
            exact .inl ⟨hkey, h⟩
          · simp only [hkey, if_false, EStateM.Result.ok.injEq, Prod.mk.injEq] at h
            exact .inr ⟨hkey, h.1.symm, h.2.2.symm⟩

/-- The receipts that one call of `print_receipt` sends to the printer show the items read
from the table and the total it was given. -/
theorem printReceipt_output {basket : List BasketProduct} {t : Table} {total : ℚ}
    {keys keys' : List Key} {printer printer' : Printer} {printed : Bool}
    (h : printReceipt basket t total keys printer = .ok printed (keys', printer')) :
    ∃ sent, printer'.output = printer.output ++ sent ∧
      ∀ r ∈ sent, receiptLines basket t = .ok r.1.lines ∧ r.1.total = total := by
  by_cases hb : basket = []
  · subst hb
    obtain ⟨-, rfl⟩ := printReceipt_nil h
    exact ⟨[], by simp, by simp⟩
  induction keys generalizing printer with
  | nil =>
    obtain ⟨key, rest, attempt, results, hkeys, -⟩ := printReceipt_eq_ok hb h
    cases hkeys
  | cons key keys ih =>
    obtain ⟨_, _, attempt, results, hkeys, -, ⟨-, -, rfl⟩ | ⟨-, items, hitems,
      ⟨-, hrec⟩ | ⟨-, -, rfl⟩⟩⟩ := printReceipt_eq_ok hb h
    · exact ⟨[], by simp, by simp⟩
    · obtain ⟨rfl, rfl⟩ := List.cons.inj hkeys
      obtain ⟨sent, hout, hsent⟩ := ih hrec
      refine ⟨(⟨items, total⟩, attempt.written) :: sent, ?_, ?_⟩
      · rw [hout, Printer.afterWrite, List.append_assoc, List.singleton_append]
      · simp only [List.mem_cons, forall_eq_or_imp]
        exact ⟨⟨hitems, trivial⟩, hsent⟩
    · exact ⟨[(⟨items, total⟩, attempt.written)], rfl, by simp [hitems]⟩

/-! ## The total -/

/-- The calls of `print_receipt` in the main loop. -/
def PrintsReceipt (c : Command) : Prop := c = .testReceipt ∨ c = .checkout

/-- **The total on a receipt belongs to the receipt.**  Whenever an iteration runs one of
the commands that print, whatever key led to it, the items can be read from the table,
the global total is their printed amounts minus their printed discounts, and every
receipt the command sends to the printer shows those items and that total. -/
theorem receipt_total_correct (srv : Server) (lines : ℤ) (w : World) (c : Command) (v : World)
    (hmem : (c, v) ∈ iterationTrace srv lines w) (hc : PrintsReceipt c) :
    ∃ items, receiptLines v.basket v.table = .ok items ∧ v.total = balance items ∧
      ∀ v', c.body srv lines v = .ok () v' →
        ∃ sent, v'.printer.output = v.printer.output ++ sent ∧
          ∀ r ∈ sent, r.1.lines = items ∧ r.1.total = balance items := by
  have hfresh : Fresh srv lines v := fresh_of_mem_trace hmem (by rcases hc with rfl | rfl <;> simp)
  obtain ⟨items, hitems, htotal⟩ := basketTotal_eq_balance hfresh.basketRows 0
  have heq : v.total = balance items := by
    have := hfresh.total_eq.symm.trans htotal
    simpa using this
  refine ⟨items, hitems, heq, fun v' hbody => ?_⟩
  have hprint : ∃ keys printed keys' printer,
      printReceipt v.basket v.table v.total keys v.printer = .ok printed (keys', printer) ∧
      v'.printer = printer := by
    rcases hc with rfl | rfl
    · obtain ⟨-, keys, printed, keys', printer, -, hp, rfl⟩ := testReceiptCommand_eq_ok hbody
      exact ⟨keys, printed, keys', printer, hp, rfl⟩
    · obtain ⟨-, keys, printed, keys', printer, -, hp, rfl⟩ := checkoutCommand_eq_ok hbody
      exact ⟨keys, printed, keys', printer, hp, by cases printed <;> rfl⟩
  obtain ⟨keys, printed, keys', printer, hp, hprinter⟩ := hprint
  obtain ⟨sent, hout, hsent⟩ := printReceipt_output hp
  refine ⟨sent, by rw [hprinter, hout], fun r hr => ?_⟩
  obtain ⟨hlines, hrtotal⟩ := hsent r hr
  exact ⟨by simpa using (hlines.symm.trans hitems), hrtotal.trans heq⟩

/-- A sale of two loaves, about to be paid for. -/
def sale : World :=
  { boot [bread] [charKey 'T', 0, 0] ⟨[⟨true, .full⟩], []⟩ [] with basket := [⟨1, 2⟩] }

/-- The checkout of a sale shows the balance of its items. -/
theorem receipt_total_correct_sale :
    ∃ v, (Command.checkout, v) ∈ iterationTrace strictServer 11 sale ∧
      v.basket ≠ [] ∧ ∃ items, receiptLines v.basket v.table = .ok items ∧
      v.total = balance items := by
  have htrace : (iterationTrace strictServer 11 sale).any
      fun e => e.1 = .checkout ∧ e.2.basket ≠ [] := by decide +kernel
  obtain ⟨⟨c, v⟩, hmem, hv⟩ := List.any_eq_true.1 htrace
  obtain ⟨rfl, hb⟩ := of_decide_eq_true hv
  obtain ⟨items, hitems, htotal, -⟩ :=
    receipt_total_correct strictServer 11 sale .checkout v hmem (.inr rfl)
  exact ⟨v, hmem, hb, items, hitems, htotal⟩

end CliPos
