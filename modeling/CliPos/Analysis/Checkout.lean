import CliPos.Analysis.ReceiptTotal

/-!
# Checkout

The key `T` empties the basket when `print_receipt` returned true.  That value is the
last attempt's alone: true when `open` succeeded, whatever `write` did.  So a checkout
can keep a basket whose receipt was printed (a reprint that fails to open the printer) and
empty one whose receipt was not (a `write` that fails).  `checkout_atomic_iff` says
exactly when it does the right thing.
-/

set_option autoImplicit false

namespace CliPos

open Halting

/-! ## The attempts of a checkout -/

/-- The attempts that a call of `print_receipt` makes: up to the first that cannot open
the printer or is not followed by the answer `y`. -/
def attemptsMade : List Key → List Attempt → List Attempt
  | key :: keys, attempt :: results =>
    if attempt.opened = true ∧ key = charKey 'y' then attempt :: attemptsMade keys results
    else [attempt]
  | _, _ => []

/-- The attempt wrote a complete receipt to the device. -/
def Attempt.Complete (a : Attempt) : Prop := a.opened = true ∧ a.written = .full

/-- Whether an attempt was complete can be tested. -/
instance (a : Attempt) : Decidable a.Complete := by unfold Attempt.Complete; infer_instance

/-- The last of the attempts opened the printer. -/
def LastOpened (made : List Attempt) : Prop := ∃ a ∈ made.getLast?, a.opened = true

/-- Some attempt wrote a complete receipt. -/
def SomeComplete (made : List Attempt) : Prop := ∃ a ∈ made, a.Complete

/-- With a key and an attempt there is an attempt made. -/
theorem attemptsMade_ne_nil {key : Key} {keys : List Key} {attempt : Attempt}
    {results : List Attempt} : attemptsMade (key :: keys) (attempt :: results) ≠ [] := by
  rw [attemptsMade]
  split_ifs <;> simp

/-- Of a single attempt, the last one is it. -/
@[simp] theorem lastOpened_singleton {a : Attempt} : LastOpened [a] ↔ a.opened = true := by
  simp [LastOpened]

/-- An attempt in front does not change the last one. -/
theorem lastOpened_cons {a : Attempt} {made : List Attempt} (h : made ≠ []) :
    LastOpened (a :: made) ↔ LastOpened made := by
  obtain ⟨b, made, rfl⟩ := List.exists_cons_of_ne_nil h
  simp [LastOpened, List.getLast?_cons_cons]

/-- **What `print_receipt` did**: it returned whether the last attempt opened the printer,
and it sent one receipt for every attempt that did, each written as the device decided. -/
theorem printReceipt_attempts {basket : List BasketProduct} {t : Table} {total : ℚ}
    {keys keys' : List Key} {printer printer' : Printer} {printed : Bool} (hb : basket ≠ [])
    (h : printReceipt basket t total keys printer = .ok printed (keys', printer')) :
    (printed = true ↔ LastOpened (attemptsMade keys printer.results)) ∧
      ∃ sent, printer'.output = printer.output ++ sent ∧
        ((∃ r ∈ sent, r.2 = .full) ↔ SomeComplete (attemptsMade keys printer.results)) := by
  induction keys generalizing printer with
  | nil =>
    obtain ⟨key, rest, attempt, results, hkeys, -⟩ := printReceipt_eq_ok hb h
    cases hkeys
  | cons key keys ih =>
    obtain ⟨_, _, attempt, results, hkeys, hres, hcase⟩ := printReceipt_eq_ok hb h
    obtain ⟨rfl, rfl⟩ := List.cons.inj hkeys
    rw [hres, attemptsMade]
    obtain ⟨hopen, rfl, rfl⟩ | ⟨hopen, items, -, ⟨rfl, hrec⟩ | ⟨hkey, rfl, rfl⟩⟩ := hcase
    · -- the printer cannot be opened
      simp only [hopen, Bool.false_eq_true, false_and, if_false, lastOpened_singleton]
      refine ⟨by simp, [], by simp, ?_⟩
      simp [SomeComplete, Attempt.Complete, hopen]
    · -- a reprint: the call's own attempt counts for the output only
      obtain ⟨hprinted, sent, hout, hfull⟩ := ih hrec
      have hmade : attemptsMade keys results ≠ [] := by
        obtain ⟨key', keys'', attempt', results', rfl, hres', -⟩ := printReceipt_eq_ok hb hrec
        rw [show results = attempt' :: results' from hres']
        exact attemptsMade_ne_nil
      simp only [Printer.afterWrite] at hprinted hout hfull
      simp only [hopen, true_and, if_true]
      refine ⟨by rw [hprinted, lastOpened_cons hmade],
        (⟨items, total⟩, attempt.written) :: sent, ?_, ?_⟩
      · rw [hout, List.append_assoc, List.singleton_append]
      · simp only [List.mem_cons, exists_eq_or_imp, hfull, SomeComplete, Attempt.Complete,
          hopen, true_and]
    · simp only [hkey, and_false, if_false, lastOpened_singleton, hopen]
      refine ⟨by simp, [(⟨items, total⟩, attempt.written)], rfl, ?_⟩
      simp [SomeComplete, Attempt.Complete, hopen]

/-! ## Atomicity -/

/-- A complete receipt was written between two states. -/
def CompleteReceipt (w w' : World) : Prop :=
  ∃ r ∈ w'.printer.output.drop w.printer.output.length, r.2 = .full

/-- The printer's output can be searched for a complete receipt. -/
instance (w w' : World) : Decidable (CompleteReceipt w w') := by
  unfold CompleteReceipt; infer_instance

/-- The basket is empty after a checkout that wrote a complete receipt, and as before
after one that did not. -/
def CheckoutAtomic (w w' : World) : Prop :=
  (CompleteReceipt w w' → w'.basket = []) ∧ (¬CompleteReceipt w w' → w'.basket = w.basket)

/-- Two states can be tested for the property. -/
instance (w w' : World) : Decidable (CheckoutAtomic w w') := by
  unfold CheckoutAtomic; infer_instance

/-- A sale whose receipt is printed in full and then asked for again, when the printer
cannot be opened any more. -/
def reprintFails : World :=
  { boot [bread] [0, charKey 'y', 0] ⟨[⟨true, .full⟩, ⟨false, .failed⟩], []⟩ [] with
    basket := [⟨1, 2⟩] }

/-- **A checkout is not atomic**: this one keeps a basket whose receipt was printed. -/
theorem checkout_keeps_printed_sale :
    ∃ w', checkoutCommand reprintFails = .ok () w' ∧ ¬CheckoutAtomic reprintFails w' := by
  refine ⟨_, rfl, ?_⟩
  decide

/-- **When a checkout is atomic.**  A checkout that returns empties the basket after a
complete receipt and leaves it alone otherwise, exactly when the basket was empty or the
last attempt opened the printer just in case some attempt wrote a complete receipt. -/
theorem checkout_atomic_iff (w w' : World) (h : checkoutCommand w = .ok () w') :
    CheckoutAtomic w w' ↔ w.basket = [] ∨
      (LastOpened (attemptsMade w.keys.tail w.printer.results) ↔
        SomeComplete (attemptsMade w.keys.tail w.printer.results)) := by
  obtain ⟨key, keys, printed, keys', printer, hkeys, hp, hw⟩ := checkoutCommand_eq_ok h
  have hprinter : w'.printer = printer := by
    subst hw
    cases printed <;> rfl
  rw [hkeys, List.tail_cons]
  by_cases hb : w.basket = []
  · rw [hb] at hp
    obtain ⟨rfl, rfl⟩ := printReceipt_nil hp
    subst hw
    simp [CheckoutAtomic, CompleteReceipt, hb]
  · obtain ⟨hprinted, sent, hout, hfull⟩ := printReceipt_attempts hb hp
    have hcomplete : CompleteReceipt w w' ↔
        SomeComplete (attemptsMade keys w.printer.results) := by
      rw [CompleteReceipt, hprinter, hout, List.drop_left, hfull]
    rw [CheckoutAtomic, hcomplete, ← hprinted, or_iff_right hb]
    subst hw
    cases printed with
    | true => simp [Ne.symm hb]
    | false => simp [hb]

/-- An ordinary sale: one receipt, printed in full. -/
theorem checkout_atomic_iff_sale : ∃ w',
    checkoutCommand { reprintFails with keys := [0, 0] } = .ok () w' ∧
      CheckoutAtomic { reprintFails with keys := [0, 0] } w' := by
  refine ⟨_, rfl, (checkout_atomic_iff _ _ rfl).2 (.inr ?_)⟩
  simp [reprintFails, boot, attemptsMade, SomeComplete, Attempt.Complete, charKey]

end CliPos
