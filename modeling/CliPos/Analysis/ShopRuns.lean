import CliPos.Analysis.Shop

/-!
# Runs of the till and of its shop

`shop_step` says what each command does to the shop of a state, event by event: one event
for each of the things a command does to the sale, and a bill for every receipt that a
command sends to the printer, the last of them paid when the command was a checkout that
emptied the basket.  A piece that `add_product_to_basket` loses is no event at all, so what
the events say of the basket is what its history says, but for the pieces lost.

Over a run the shop follows the commands one by one (`told_run`), so every run of the till is
one of the point of sale (`till_refines_shop`), and its ledger is the till's: no piece leaves
the basket without being taken out again or printed (`pieces_accounted_for`).
-/

set_option autoImplicit false

namespace CliPos

open Halting PointOfSale

variable {srv : Server} {lines : ℤ} {w w' : World}

/-! ## The printer -/

/-- Moving the cursor leaves the printer. -/
theorem MovesCursor.printer (h : MovesCursor w w') : w'.printer = w.printer := by
  obtain ⟨_, _, _, _, _, rfl⟩ := h
  rfl

/-- So does the start of `R`. -/
theorem removeAdjust_printer (lines : ℤ) (w : World) :
    (removeAdjust lines w).printer = w.printer := by
  unfold removeAdjust; dsimp only; split_ifs <;> rfl

/-- Only the commands that print use the printer. -/
theorem body_printer {c : Command} (hc : ¬PrintsReceipt c) (h : c.body srv lines w = .ok () w') :
    w'.printer = w.printer := by
  cases c with
  | testReceipt => exact absurd (.inl rfl) hc
  | checkout => exact absurd (.inr rfl) hc
  | quit =>
    obtain ⟨-, key, keys, -, -, -, rfl⟩ := quitCommand_eq_ok h
    rfl
  | menu =>
    obtain ⟨settings, keys, rfl⟩ := menuCommand_eq_ok h
    rfl
  | remove =>
    obtain ⟨-, rfl⟩ | ⟨-, code, -, ⟨-, rfl⟩ | ⟨-, basket, -, rfl⟩⟩ := removeCommand_eq_ok h
    · rfl
    · exact removeAdjust_printer lines w
    · exact removeAdjust_printer lines w
  | addProduct =>
    obtain ⟨-, rfl⟩ | ⟨-, code, table, keys, -, -, rfl⟩ := addCommand_eq_ok h <;> rfl
  | modifyProduct =>
    obtain ⟨-, keys, rfl⟩ | ⟨-, code, table, keys, -, -, rfl⟩ := modifyCommand_eq_ok h <;> rfl
  | enter =>
    obtain ⟨-, rfl⟩ | ⟨-, code, p, -, -, rfl⟩ := enterCommand_eq_ok h
    · rfl
    · exact (movesCursor_showBasket _).printer
  | search =>
    obtain ⟨keys, -, rfl⟩ | ⟨word, key, keys, index, code, -, -, -, h⟩ := searchCommand_eq_ok h
    · rfl
    · obtain ⟨-, table, keys, -, rfl⟩ | ⟨-, p, -, rfl⟩ | ⟨-, -, rfl⟩ := searchAnswer_eq_ok h
      · rfl
      · exact (movesCursor_showBasket _).printer
      · rfl
  | scan =>
    obtain ⟨text, keys, code, -, -, ⟨-, rfl⟩ | ⟨-, -, keys', rfl⟩ | ⟨-, -, p, -, rfl⟩⟩ :=
      scanCommand_eq_ok h <;> exact (movesCursor_clampCursor _).printer
  | nextTab | stockTab | scrollUp | scrollDown | up | down =>
    exact (body_movesCursor (by decide) h).printer

/-- `print_receipt` returns true after a receipt was sent. -/
theorem printReceipt_sends {basket : List BasketProduct} {t : Table} {total : ℚ}
    {keys keys' : List Key} {printer printer' : Printer} (hb : basket ≠ [])
    (h : printReceipt basket t total keys printer = .ok true (keys', printer')) :
    printer.output.length < printer'.output.length := by
  induction keys generalizing printer with
  | nil =>
    obtain ⟨key, rest, attempt, results, hkeys, -⟩ := printReceipt_eq_ok hb h
    cases hkeys
  | cons key keys ih =>
    obtain ⟨_, _, attempt, results, hkeys, -, ⟨-, hfalse, -⟩ | ⟨-, items, -,
      ⟨-, hrec⟩ | ⟨-, -, rfl⟩⟩⟩ := printReceipt_eq_ok hb h
    · cases hfalse
    · obtain ⟨rfl, rfl⟩ := List.cons.inj hkeys
      refine lt_trans ?_ (ih hrec)
      simp [Printer.afterWrite]
    · simp [Printer.afterWrite]

/-- **What `print_receipt` sends** in a redrawn state is the bill of the cart, any number of
times; at least once when it returns true. -/
theorem printReceipt_bills {keys keys' : List Key} {printer : Printer}
    {printed : Bool} (hvalid : BasketValid w.basket) (hfresh : Fresh srv lines w)
    (h : printReceipt w.basket w.table w.total keys w.printer = .ok printed (keys', printer)) :
    (w.basket = [] ∧ printed = false ∧ printer = w.printer) ∨
    (shopOf w).Billable ∧ ∃ n : ℕ, (printed = true → 0 < n) ∧
      (printer.output.map fun r => billOf r.1) =
        (shopOf w).bills ++ List.replicate n ((shopOf w).bill Product.priceAfterDiscount) := by
  by_cases hb : w.basket = []
  · rw [hb] at h
    obtain ⟨hprinted, rfl⟩ := printReceipt_nil h
    exact .inl ⟨hb, hprinted, rfl⟩
  · have hcodes := fun code => @mem_cartOf w.basket code hvalid.pieces
    have hbillable : (shopOf w).Billable := by
      constructor
      · intro hempty
        obtain ⟨b, hmem⟩ := List.exists_mem_of_ne_nil _ hb
        have hin := (hcodes b.code).2 (List.mem_map_of_mem hmem)
        rw [show cartOf w.basket = 0 from hempty] at hin
        exact absurd hin (Multiset.notMem_zero _)
      · intro code hcode
        obtain ⟨b, hmem, rfl⟩ := List.mem_map.1 ((hcodes code).1 hcode)
        obtain ⟨p, hp⟩ := exists_getProductData (hfresh.basketRows b hmem)
        exact Option.isSome_iff_exists.2 ⟨p, known_of_getProductData hp⟩
    obtain ⟨sent, hout, hsent⟩ := printReceipt_output h
    have hbills : sent.map (fun r => billOf r.1) =
        List.replicate sent.length ((shopOf w).bill Product.priceAfterDiscount) := by
      refine List.eq_replicate_iff.2 ⟨List.length_map _, fun b hb => ?_⟩
      obtain ⟨r, hr, rfl⟩ := List.mem_map.1 hb
      obtain ⟨hlines, htotal⟩ := hsent r hr
      rw [← billOf_eq_bill hvalid hlines hfresh.total_eq, ← htotal]
    refine .inr ⟨hbillable, sent.length, ?_, ?_⟩
    · rintro rfl
      have hlonger := printReceipt_sends hb h
      rw [hout, List.length_append] at hlonger
      omega
    · rw [hout, List.map_append, hbills]
      rfl

/-! ## One command -/

/-- The code under the cursor, when `R` takes it out. -/
def RemovesCode (lines : ℤ) (c : Command) (w : World) (code : ℤ) : Prop :=
  c = .remove ∧ elementAt w.list (removeAdjust lines w).selection = some code

/-- What a command does for an event to happen in the shop: a bill is always that of the cart
and the table that the command started from. -/
inductive Happens (srv : Server) (lines : ℤ) (c : Command) (w : World) :
    Event ℤ Product ℚ → Prop
  /-- A form of the command ends with the product to save. -/
  | stocked (p : Product) (saves : Saves srv c w p) :
      Happens srv lines c w (.stocked p.code (productOf (rowOf p)))
  /-- `R` erases the code under the cursor. -/
  | dropped (code : ℤ) (removes : RemovesCode lines c w code) (tab : w.currentTab ≠ .basket) :
      Happens srv lines c w (.dropped code)
  /-- Enter, a search or a scan adds a product of the table. -/
  | taken (p : Product) (flag : ℤ) (adds : (p.code, flag) ∈ adds srv c w)
      (row : getProductData p.code w.table = .ok p) : Happens srv lines c w (.taken p.code)
  /-- `R` in the basket takes out the code under the cursor. -/
  | returned (code : ℤ) (removes : RemovesCode lines c w code) (tab : w.currentTab = .basket) :
      Happens srv lines c w (.returned code)
  /-- A receipt goes to the printer. -/
  | printed (prints : PrintsReceipt c) :
      Happens srv lines c w (.printed ((shopOf w).bill Product.priceAfterDiscount))
  /-- A checkout empties the basket behind it. -/
  | sold (checkout : c = .checkout) :
      Happens srv lines c w (.sold ((shopOf w).bill Product.priceAfterDiscount))

/-- The events of a command: each is one that the command makes happen, they lead from the
shop before it to the shop after it, and they say of the basket what the command added to its
history, but for a piece that was lost. -/
structure Tells (srv : Server) (lines : ℤ) (c : Command) (w : World)
    (es : List (Event ℤ Product ℚ)) (w' : World) : Prop where
  happens : ∀ e ∈ es, Happens srv lines c w e
  run : Run Product.priceAfterDiscount Written (shopOf w) es (shopOf w')
  history : ∃ added, w'.history = w.history ++ added ∧ (historyOf es).Sublist added ∧
    (FlagClear srv c w → historyOf es = added)

/-- Events that say all that was added to the history. -/
theorem tells_of_run {c : Command} {es : List (Event ℤ Product ℚ)}
    (happens : ∀ e ∈ es, Happens srv lines c w e)
    (hrun : Run Product.priceAfterDiscount Written (shopOf w) es (shopOf w'))
    (hhistory : w'.history = w.history ++ historyOf es) : Tells srv lines c w es w' :=
  ⟨happens, hrun, historyOf es, hhistory, List.Sublist.refl _, fun _ => rfl⟩

/-- A command of which there is nothing to tell. -/
theorem tells_nil {c : Command} (hshop : shopOf w' = shopOf w) (hhistory : w'.history = w.history) :
    Tells srv lines c w [] w' := by
  refine tells_of_run (by simp) ?_ (hhistory.trans (List.append_nil _).symm)
  rw [hshop]
  exact .nil _

/-- A command of one event. -/
theorem tells_single {c : Command} {e : Event ℤ Product ℚ} (happens : Happens srv lines c w e)
    (hstep : PointOfSale.Step Product.priceAfterDiscount Written (shopOf w) e (shopOf w'))
    (hhistory : w'.history = w.history ++ historyOf [e]) : Tells srv lines c w [e] w' := by
  refine tells_of_run (fun e' he' => ?_) (.single hstep) hhistory
  obtain rfl := List.mem_singleton.1 he'
  exact happens

/-- Bills printed leave no trace in the history. -/
@[simp] theorem historyOf_printed (n : ℕ) (b : Bill ℤ Product ℚ) :
    historyOf (List.replicate n (.printed b)) = [] := by
  simp [historyOf, basketEvent]

/-- Events one after another say one history after another. -/
theorem historyOf_append (es es' : List (Event ℤ Product ℚ)) :
    historyOf (es ++ es') = historyOf es ++ historyOf es' := List.filterMap_append

/-- Receipts that are not paid. -/
theorem tells_printed {c : Command} (hc : PrintsReceipt c) (hvalid : BasketValid w.basket)
    (hfresh : Fresh srv lines w) {keys keys' : List Key} {printer : Printer} {printed : Bool}
    (hprint : printReceipt w.basket w.table w.total keys w.printer =
      .ok printed (keys', printer)) :
    ∃ es, Tells srv lines c w es { w with keys := keys', printer := printer } := by
  obtain ⟨-, -, rfl⟩ | ⟨hbillable, n, -, hbills⟩ := printReceipt_bills hvalid hfresh hprint
  · exact ⟨[], tells_nil rfl rfl⟩
  · have hrun := @Run.printed _ _ _ _ _ Product.priceAfterDiscount Written _ hbillable n
    rw [← hbills] at hrun
    refine ⟨_, tells_of_run (fun e he => ?_) hrun ?_⟩
    · rw [(List.mem_replicate.1 he).2]
      exact .printed hc
    · rw [historyOf_printed, List.append_nil]

/-- Receipts the last of which is paid. -/
theorem tells_paid (hvalid : BasketValid w.basket) (hfresh : Fresh srv lines w)
    {keys keys' : List Key} {printer : Printer}
    (hprint : printReceipt w.basket w.table w.total keys w.printer = .ok true (keys', printer)) :
    ∃ es, Tells srv lines .checkout w es { w with
      keys := keys', printer := printer, basket := [], total := 0
      history := w.history ++ [.checkedOut] } := by
  obtain ⟨-, hfalse, -⟩ | ⟨hbillable, n, hpos, hbills⟩ := printReceipt_bills hvalid hfresh hprint
  · cases hfalse
  · obtain ⟨m, rfl⟩ : ∃ m, n = m + 1 := ⟨n - 1, by have := hpos rfl; omega⟩
    have hrun := @Run.paid _ _ _ _ _ Product.priceAfterDiscount Written _ hbillable m
    rw [← hbills] at hrun
    refine ⟨_, tells_of_run (fun e he => ?_) hrun ?_⟩
    · rcases List.mem_append.1 he with he | he
      · rw [(List.mem_replicate.1 he).2]
        exact .printed (.inr rfl)
      · rw [List.mem_singleton.1 he]
        exact .sold rfl
    · rw [historyOf_append, historyOf_printed]
      rfl

/-- The two commands that print. -/
theorem tells_print {c : Command} (hc : PrintsReceipt c) (hvalid : BasketValid w.basket)
    (hfresh : Fresh srv lines w) (hbody : c.body srv lines w = .ok () w') :
    ∃ es, Tells srv lines c w es w' := by
  rcases hc with rfl | rfl
  · obtain ⟨-, keys, printed, keys', printer, -, hprint, rfl⟩ := testReceiptCommand_eq_ok hbody
    exact tells_printed (.inl rfl) hvalid hfresh hprint
  · obtain ⟨-, keys, printed, keys', printer, -, hprint, rfl⟩ := checkoutCommand_eq_ok hbody
    cases printed with
    | false => exact tells_printed (.inr rfl) hvalid hfresh hprint
    | true => exact tells_paid hvalid hfresh hprint

/-- What a form of a run saves was written by the form. -/
theorem written_of_saves {c : Command} {p : Product} (husable : Usable w.settings)
    (hsaves : Saves srv c w p) : Written p.code (productOf (rowOf p)) := by
  obtain ⟨code, modify, keys, hform⟩ := hsaves.form
  exact ⟨rowOf p, ⟨_, code, modify, w.table, keys, p, husable.maxNameLength.1, hform, rfl⟩,
    rfl, rfl⟩

/-- **A command is a list of events** of the point of sale. -/
theorem shop_step {c : Command} (hvalid : BasketValid w.basket) (husable : Usable w.settings)
    (hquote : NoQuote srv c w) (hfresh : PrintsReceipt c → Fresh srv lines w)
    (hbody : c.body srv lines w = .ok () w') : ∃ es, Tells srv lines c w es w' := by
  by_cases hc : PrintsReceipt c
  · exact tells_print hc hvalid (hfresh hc) hbody
  have hprinter := body_printer hc hbody
  have hshop : ∀ {catalogue : ℤ → Option Product} {cart : Multiset ℤ},
      known w'.table = catalogue → cartOf w'.basket = cart →
        shopOf w' = { shopOf w with catalogue := catalogue, cart := cart } := by
    rintro _ _ rfl rfl
    rw [shopOf, hprinter]
    rfl
  cases body_store hbody with
  | quiet basket table history =>
    exact ⟨[], tells_nil (hshop (congrArg known table) (congrArg cartOf basket)) history⟩
  | erased code command tab selected basket table history =>
    have hdropped := hshop ((congrArg known table).trans (known_erase code w.table))
      (congrArg cartOf basket)
    refine ⟨[.dropped code], tells_single (.dropped code ⟨command, selected⟩ tab) ?_
      (history.trans (List.append_nil _).symm)⟩
    rw [hdropped]
    exact .dropped code
  | removed code basket' command tab selected taken basket table history =>
    have hcart := cartOf_remove hvalid taken
    have hmem : code ∈ cartOf w.basket := by
      rw [hcart]
      exact Multiset.mem_cons_self _ _
    have herase : cartOf w'.basket = (cartOf w.basket).erase code := by
      rw [basket, hcart, Multiset.erase_cons_head]
    refine ⟨[.returned code], tells_single (.returned code ⟨command, selected⟩ tab) ?_ history⟩
    rw [hshop (congrArg known table) herase]
    exact .returned code hmem
  | saved p saves basket table history =>
    have hstocked := hshop (known_updateStock (hquote p saves) table) (congrArg cartOf basket)
    refine ⟨[.stocked p.code (productOf (rowOf p))], tells_single (.stocked p saves) ?_
      (history.trans (List.append_nil _).symm)⟩
    rw [hstocked]
    exact .stocked p.code _ (written_of_saves husable saves)
  | added p flag adds row basket table history =>
    have hknown : (known w.table p.code).isSome := by
      rw [known_of_getProductData row]
      rfl
    by_cases hclear : w.basket ≠ [] ∨ decide (flag ≠ 0) = false
    · refine ⟨[.taken p.code], tells_single (.taken p flag adds row) ?_ history⟩
      rw [hshop (congrArg known table) ((congrArg cartOf basket).trans
        (cartOf_add hvalid hclear))]
      exact .taken p.code hknown
    · -- the first piece of a sale is lost: the flag happened to hold true
      rw [not_or, not_not, Bool.not_eq_false] at hclear
      obtain ⟨hempty, hraised⟩ := hclear
      have hlost : cartOf w'.basket = cartOf w.basket := by
        rw [basket, hempty, hraised, addProductToBasket_lost]
      refine ⟨[], by simp, ?_, _, history, List.nil_sublist _, fun hflag => ?_⟩
      · rw [hshop (congrArg known table) hlost]
        exact .nil _
      · obtain hne | hzero := hflag _ adds
        · exact absurd hempty hne
        · simp [show flag = 0 from hzero] at hraised
  | checkedOut command basket table history => exact absurd (.inr command) hc

/-! ## Runs -/

/-- `ShopFollows srv lines s cs ess s'`: the shop follows the commands of `cs`, each from the state
it is listed with.  The events of a command lead from the shop of its state to the shop it
leaves, and the next command finds that shop. -/
inductive ShopFollows (srv : Server) (lines : ℤ) : PointOfSale.Shop ℤ Product ℚ →
    List (Command × World) → List (List (Event ℤ Product ℚ)) →
      PointOfSale.Shop ℤ Product ℚ → Prop
  | nil (s : PointOfSale.Shop ℤ Product ℚ) : ShopFollows srv lines s [] [] s
  | cons {c : Command} {v v' : World} {es : List (Event ℤ Product ℚ)}
      {cs : List (Command × World)} {ess : List (List (Event ℤ Product ℚ))}
      {s' : PointOfSale.Shop ℤ Product ℚ} (hbody : c.body srv lines v = .ok () v')
      (told : Tells srv lines c v es v') (rest : ShopFollows srv lines (shopOf v') cs ess s') :
      ShopFollows srv lines (shopOf v) ((c, v) :: cs) (es :: ess) s'

/-- A shop that follows commands follows those behind them, too. -/
theorem ShopFollows.append {s s' s'' : PointOfSale.Shop ℤ Product ℚ}
    {cs cs' : List (Command × World)} {ess ess' : List (List (Event ℤ Product ℚ))}
    (h : ShopFollows srv lines s cs ess s') (h' : ShopFollows srv lines s' cs' ess' s'') :
    ShopFollows srv lines s (cs ++ cs') (ess ++ ess') s'' := by
  induction h with
  | nil s => exact h'
  | cons hbody told rest ih => exact .cons hbody told (ih h')

/-- The events one after another are a run of the point of sale. -/
theorem ShopFollows.run {s s' : PointOfSale.Shop ℤ Product ℚ} {cs : List (Command × World)}
    {ess : List (List (Event ℤ Product ℚ))} (h : ShopFollows srv lines s cs ess s') :
    Run Product.priceAfterDiscount Written s ess.flatten s' := by
  induction h with
  | nil s => exact .nil s
  | cons hbody told rest ih => exact told.run.append ih

/-- The commands of a run save no name with a quote, and find the flag of
`add_product_to_basket` clear where this is asked for. -/
def Sells (strict : Prop) (srv : Server) (c : Command) (w : World) : Prop :=
  NoQuote srv c w ∧ (strict → FlagClear srv c w)

/-- What commands do, one after another: they keep basket and settings valid, the shop follows
them, and the events say what is new in the history. -/
structure Told (strict : Prop) (srv : Server) (lines : ℤ) (w : World)
    (cs : List (Command × World)) (w' : World) : Prop where
  basket : BasketValid w'.basket
  settings : Usable w'.settings
  events : ∃ ess added, ShopFollows srv lines (shopOf w) cs ess (shopOf w') ∧
    w'.history = w.history ++ added ∧ (historyOf ess.flatten).Sublist added ∧
      (strict → historyOf ess.flatten = added)

variable {strict : Prop} {cs cs' : List (Command × World)}

/-- Of no command there is nothing to tell. -/
theorem Told.nil (hbasket : BasketValid w.basket) (hsettings : Usable w.settings) :
    Told strict srv lines w [] w :=
  ⟨hbasket, hsettings, [], [], .nil _, (List.append_nil _).symm, List.Sublist.refl _, fun _ => rfl⟩

/-- Commands one after another are told one after another. -/
theorem Told.append {w'' : World} (h : Told strict srv lines w cs w')
    (h' : Told strict srv lines w' cs' w'') : Told strict srv lines w (cs ++ cs') w'' where
  basket := h'.basket
  settings := h'.settings
  events := by
    obtain ⟨ess, added, hfollows, hhistory, hsub, hall⟩ := h.events
    obtain ⟨ess', added', hfollows', hhistory', hsub', hall'⟩ := h'.events
    refine ⟨ess ++ ess', added ++ added', hfollows.append hfollows', ?_, ?_, fun hstrict => ?_⟩
    · rw [hhistory', hhistory, List.append_assoc]
    · rw [List.flatten_append, historyOf_append]
      exact hsub.append hsub'
    · rw [List.flatten_append, historyOf_append, hall hstrict, hall' hstrict]

/-- One command. -/
theorem told_step {c : Command} (hbasket : BasketValid w.basket) (hsettings : Usable w.settings)
    (hsells : Sells strict srv c w) (hfresh : PrintsReceipt c → Fresh srv lines w)
    (hbody : c.body srv lines w = .ok () w') : Told strict srv lines w [(c, w)] w' where
  basket := basketValid_step hbasket (body_store hbody)
  settings := usable_step hsettings hbody
  events := by
    obtain ⟨es, htold⟩ := shop_step hbasket hsettings hsells.1 hfresh hbody
    obtain ⟨added, hhistory, hsub, hall⟩ := htold.history
    refine ⟨[es], added, .cons hbody htold (.nil _), hhistory, ?_, fun hstrict => ?_⟩
    · rwa [List.flatten_singleton]
    · rw [List.flatten_singleton, hall (hsells.2 hstrict)]

/-- The commands of an iteration. -/
theorem told_steps (hsteps : Chain.Steps (Command.body srv lines) w cs w')
    (hbasket : BasketValid w.basket) (hsettings : Usable w.settings)
    (hsells : ∀ e ∈ cs, Sells strict srv e.1 e.2)
    (hfresh : ∀ e ∈ cs, PrintsReceipt e.1 → Fresh srv lines e.2) :
    Told strict srv lines w cs w' := by
  induction hsteps with
  | nil w => exact .nil hbasket hsettings
  | @cons c w v w' cs hbody rest ih =>
    obtain ⟨hc, hcs⟩ := List.forall_mem_cons.1 hsells
    obtain ⟨hcfresh, hcsfresh⟩ := List.forall_mem_cons.1 hfresh
    have hfirst := told_step hbasket hsettings hc hcfresh hbody
    exact hfirst.append (ih hfirst.basket hfirst.settings hcs hcsfresh)

/-- **A run of the till is followed by its shop.**  A redraw changes nothing that the shop
shows. -/
theorem told_run (hrun : RunsThrough srv lines w cs w') (hbasket : BasketValid w.basket)
    (hsettings : Usable w.settings) (hsells : ∀ e ∈ cs, Sells strict srv e.1 e.2) :
    Told strict srv lines w cs w' := by
  induction hrun with
  | nil w => exact .nil hbasket hsettings
  | @cons w t w' cs hit rest ih =>
    obtain ⟨u, v, hr, hchain⟩ := bind_eq_ok.1 hit
    have htrace : iterationTrace srv lines w =
        Chain.trace Command.guard (Command.body srv lines) commands v := by
      rw [iterationTrace, hr]
    have hround : Told strict srv lines v (iterationTrace srv lines w) t := by
      have hv : BasketValid v.basket ∧ Usable v.settings := by
        obtain ⟨key, keys, total, -, -, -, rfl⟩ := redraw_eq_ok hr
        exact ⟨hbasket, hsettings⟩
      refine told_steps ?_ hv.1 hv.2 (fun e he => hsells e (List.mem_append_left _ he))
        fun e he hprints => ?_
      · rw [htrace]
        exact Chain.steps_of_run hchain
      · exact fresh_of_mem_trace he (by rcases hprints with h | h <;> simp [h])
    have hfirst : Told strict srv lines w (iterationTrace srv lines w) t := by
      obtain ⟨key, keys, total, -, -, -, rfl⟩ := redraw_eq_ok hr
      exact ⟨hround.basket, hround.settings, hround.events⟩
    exact hfirst.append (ih hfirst.basket hfirst.settings fun e he =>
      hsells e (List.mem_append_right _ he))

/-- **The till refines a point of sale.**  In every run that saves no name with a quote the
shop follows the commands: each is told as events of the point of sale, from the shop it
started from to the shop it left.  Products come in by the form and go by `R` only, pieces are
taken and returned one at a time, and a receipt that a command sends to the printer is the
bill of the cart and the table it started from, with the price of every piece in its total.
The events of the basket happened in the order of its history.  So every product known in the
end was there at the start or written by the form. -/
theorem till_refines_shop (srv : Server) (lines : ℤ) (table : Table) (keys : List Key)
    (printer : Printer) (uninit : List ℤ) (ran : List (Command × World)) (w : World)
    (hrun : RunsThrough srv lines (boot table keys printer uninit) ran w)
    (hquote : ∀ e ∈ ran, NoQuote srv e.1 e.2) :
    (∃ ess, ShopFollows srv lines (shopOf (boot table keys printer uninit)) ran ess (shopOf w) ∧
        Run Product.priceAfterDiscount Written (shopOf (boot table keys printer uninit))
          ess.flatten (shopOf w) ∧
        (historyOf ess.flatten).Sublist w.history) ∧
      ∀ code p, getProductData code w.table = .ok p →
        getProductData code table = .ok p ∨ Written code p := by
  have htold : Told False srv lines (boot table keys printer uninit) ran w :=
    told_run hrun basketValid_nil usable_defaultSettings fun e he => ⟨hquote e he, False.elim⟩
  obtain ⟨ess, added, hfollows, hhistory, hsub, -⟩ := htold.events
  obtain rfl : w.history = added := hhistory
  refine ⟨⟨ess, hfollows, hfollows.run, hsub⟩, fun code p hp => ?_⟩
  have hstart : ∀ c p, known table c = some p → getProductData c table = .ok p := by
    intro c p hknown
    unfold known at hknown
    cases hdata : getProductData c table with
    | error e => rw [hdata] at hknown; cases hknown
    | ok q =>
      rw [hdata] at hknown
      exact congrArg _ (Option.some.inj hknown)
  exact hfollows.run.catalogue_valid
    (Q := fun c p => getProductData c table = .ok p ∨ Written c p)
    (fun c p h => .inr h) (fun c p h => .inl (hstart c p h)) code p (known_of_getProductData hp)

/-- The keys of a sale: Enter, and a checkout. -/
def saleKeys : List Key := [keyEnter, charKey 'T', 0, 0]

/-- A sale: the bread is taken by Enter, and its bill is paid at the checkout. -/
theorem till_refines_shop_sale : ∃ ran w ess,
    ran.map Prod.fst = [.enter, .checkout] ∧ w.history = [.added 1, .checkedOut] ∧
      ShopFollows strictServer 11 (shopOf (boot [bread] saleKeys ⟨[⟨true, .full⟩], []⟩ [])) ran ess
        (shopOf w) := by
  have hrun : (collect (iterationTrace strictServer 11) (iteration strictServer 11) 2
      (boot [bread] saleKeys ⟨[⟨true, .full⟩], []⟩ [])).any
        fun r => r.1.map Prod.fst = [.enter, .checkout] ∧
          r.2.history = [.added 1, .checkedOut] := by
    decide +kernel
  obtain ⟨⟨ran, w⟩, hw, hcheck⟩ := (Option.any_eq_true _ _).1 hrun
  obtain ⟨hran, hhistory⟩ := of_decide_eq_true hcheck
  have hquote : ∀ e ∈ ran, NoQuote strictServer e.1 e.2 := by
    rintro ⟨c, v⟩ he
    have hc : c ∈ ran.map Prod.fst := List.mem_map_of_mem he
    rw [hran] at hc
    intro p hp
    rcases List.mem_pair.1 hc with rfl | rfl <;> exact hp.elim
  obtain ⟨⟨ess, hfollows, -⟩, -⟩ := till_refines_shop strictServer 11 [bread] saleKeys
    ⟨[⟨true, .full⟩], []⟩ [] ran w (trail_of_collect hw) hquote
  exact ⟨ran, w, ess, hran, hhistory, hfollows⟩

/-! ## The ledger -/

/-- The pieces of a code on a receipt. -/
def receiptPieces (code : ℤ) (r : Receipt) : ℕ :=
  ((r.lines.filter fun l => l.product.code = code).map fun l => pieceCount l.quantity).sum

/-- A bill has the pieces of the receipt that shows it. -/
theorem pieces_billOf (code : ℤ) (r : Receipt) :
    (billOf r).pieces code = receiptPieces code r := by
  have hfilter : (r.lines.map itemOf).filter (fun i => i.1 = code) =
      (r.lines.filter fun l => l.product.code = code).map itemOf := by
    rw [List.filter_map]
    rfl
  rw [Bill.pieces, billOf, Multiset.filter_coe, hfilter, Multiset.map_coe, List.map_map]
  rfl

/-- The history counts the events. -/
theorem count_historyOf (code : ℤ) (es : List (Event ℤ Product ℚ)) :
    (historyOf es).count (.added code) = (takenCodes es).count code ∧
      (historyOf es).count (.removed code) = (returnedCodes es).count code ∧
      (historyOf es).count .checkedOut = (salesOf es).length := by
  induction es with
  | nil => exact ⟨rfl, rfl, rfl⟩
  | cons e es ih =>
    obtain ⟨hadded, hremoved, hsold⟩ := ih
    cases e with
    | stocked | dropped | printed => exact ⟨hadded, hremoved, hsold⟩
    | taken c =>
      have hhistory : historyOf (.taken c :: es) = .added c :: historyOf es := rfl
      have hcodes : takenCodes (.taken c :: es) = c :: takenCodes es := rfl
      rw [hhistory, hcodes, List.count_cons, List.count_cons, hadded,
        List.count_cons_of_ne (by simp), List.count_cons_of_ne (by simp)]
      exact ⟨by simp, hremoved, hsold⟩
    | returned c =>
      have hhistory : historyOf (.returned c :: es) = .removed c :: historyOf es := rfl
      have hcodes : returnedCodes (.returned c :: es) = c :: returnedCodes es := rfl
      rw [hhistory, hcodes, List.count_cons_of_ne (by simp), List.count_cons, List.count_cons,
        hremoved, List.count_cons_of_ne (by simp)]
      exact ⟨hadded, by simp, hsold⟩
    | sold b =>
      have hhistory : historyOf (.sold b :: es) = .checkedOut :: historyOf es := rfl
      have hbills : salesOf (.sold b :: es) = b :: salesOf es := rfl
      rw [hhistory, hbills, List.count_cons_of_ne (by simp), List.count_cons_of_ne (by simp),
        List.count_cons_self, hsold]
      exact ⟨hadded, hremoved, rfl⟩

/-- **Every piece is accounted for.**  In every state of a run that saves no name with a
quote and loses no first piece, there is for each checkout a receipt of its own among those
sent to the printer, whatever `write` did with it, in order, and of every code the pieces added
are those removed, those on these receipts and those in the basket. -/
theorem pieces_accounted_for (srv : Server) (lines : ℤ) (table : Table) (keys : List Key)
    (printer : Printer) (uninit : List ℤ) (w : World)
    (hrun : RunsWhere srv lines (fun c w => NoQuote srv c w ∧ FlagClear srv c w)
      (boot table keys printer uninit) w) :
    ∃ sales : List Receipt,
      sales.Sublist ((w.printer.output.drop printer.output.length).map Prod.fst) ∧
      sales.length = w.history.count .checkedOut ∧
      ∀ code, (w.history.count (.added code) : ℚ) =
        w.history.count (.removed code) + (sales.map (receiptPieces code)).sum +
          quantityOf code w.basket := by
  obtain ⟨ran, hran, hok⟩ := Runs.exists_trail hrun
  have htold : Told True srv lines (boot table keys printer uninit) ran w :=
    told_run hran basketValid_nil usable_defaultSettings fun e he =>
      ⟨(hok e he).1, fun _ => (hok e he).2⟩
  obtain ⟨hbasket, -, ess, added, hfollows, hadds, -, hall⟩ := htold
  have hhistory : historyOf ess.flatten = w.history := (hall trivial).trans hadds.symm
  have hevents := hfollows.run
  generalize ess.flatten = es at hhistory hevents
  have hbills : billsOf es =
      ((w.printer.output.drop printer.output.length).map Prod.fst).map billOf := by
    have hall : (w.printer.output.map fun r => billOf r.1) =
        (printer.output.map fun r => billOf r.1) ++ billsOf es := hevents.bills_eq
    have hdrop := congrArg (List.drop printer.output.length) hall
    rw [List.drop_left' (List.length_map _), ← List.map_drop] at hdrop
    rw [← hdrop, List.map_map]
    rfl
  have hsub := salesOf_sublist es
  rw [hbills] at hsub
  obtain ⟨sales, hsales, hmap⟩ := List.sublist_map_iff.1 hsub
  refine ⟨sales, hsales, ?_, fun code => ?_⟩
  · rw [← hhistory, (count_historyOf 0 es).2.2, hmap, List.length_map]
  · have hpieces : (salesOf es).map (Bill.pieces code) = sales.map (receiptPieces code) := by
      rw [hmap, List.map_map]
      exact List.map_congr_left fun r _ => pieces_billOf code r
    have hledger := hevents.ledger code
    have hstart : (shopOf (boot table keys printer uninit)).cart.count code = 0 := rfl
    rw [hstart, Nat.zero_add, hpieces] at hledger
    obtain ⟨hadded, hremoved, -⟩ := count_historyOf code es
    rw [← hhistory, hadded, hremoved, hledger, ← count_cartOf hbasket.pieces code]
    push_cast
    rfl

/-- The bread of a sale is on its receipt. -/
theorem pieces_accounted_for_sale : ∃ (w : World) (sales : List Receipt),
    sales.Sublist (w.printer.output.map Prod.fst) ∧ sales.length = 1 ∧
      (sales.map (receiptPieces 1)).sum = 1 := by
  have hrun : (tryIterations strictServer 11
      (fun c v => (c = .enter ∨ c = .checkout) ∧ FlagClear strictServer c v) 2
      (boot [bread] saleKeys ⟨[⟨true, .full⟩], []⟩ [])).any
        fun w => w.history = [.added 1, .checkedOut] ∧ w.basket = [] := by
    decide +kernel
  obtain ⟨w, hw, hcheck⟩ := (Option.any_eq_true _ _).1 hrun
  obtain ⟨hhistory, hbasket⟩ := of_decide_eq_true hcheck
  have himp : ∀ c v, decide ((c = Command.enter ∨ c = .checkout) ∧
      FlagClear strictServer c v) = true →
        NoQuote strictServer c v ∧ FlagClear strictServer c v := by
    intro c v h
    obtain ⟨rfl | rfl, hflag⟩ := of_decide_eq_true h
    · exact ⟨fun p hp => hp.elim, hflag⟩
    · exact ⟨fun p hp => hp.elim, hflag⟩
  obtain ⟨sales, hsub, hlength, hledger⟩ := pieces_accounted_for strictServer 11 [bread] saleKeys
    ⟨[⟨true, .full⟩], []⟩ [] w (runsWhere_of_tryIterations himp hw)
  refine ⟨w, sales, by simpa using hsub, ?_, ?_⟩
  · rw [hlength, hhistory]
    decide
  · have hone := hledger 1
    have hadded : w.history.count (.added 1) = 1 := by rw [hhistory]; decide
    have hremoved : w.history.count (.removed 1) = 0 := by rw [hhistory]; decide
    rw [hadded, hremoved, hbasket, quantityOf_nil, Nat.cast_one, Nat.cast_zero, zero_add,
      add_zero] at hone
    exact_mod_cast hone.symm

end CliPos
