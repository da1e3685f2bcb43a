import CliPos.Analysis.MenuTexts
import CliPos.Analysis.Store
import CliPos.Analysis.Halts

/-!
# Where a conversion ends the program

The program handles no exception, so a text that a conversion rejects ends it, and so does
a value that is not there.  `Command.Converts` says of every command what its texts have
to be, and `haltsFor_body` that nothing else matters; `conversions_accept_iff` is the
statement about texts and whole runs.
-/

set_option autoImplicit false

namespace CliPos

open Decimal Halting

variable {srv : Server} {lines : ℤ} {w w' : World}

/-! ## The commands that convert nothing -/

/-- A halt that no text typed causes. -/
abbrev Unrelated (e : Halt) : Prop := ¬e.OfInput

/-- What halts for no text typed does not halt for one. -/
theorem not_haltsFor_of_unrelated {σ α : Type} {m : EStateM Halt σ α}
    (h : OnlyHalts Unrelated m) (s : σ) : ¬HaltsFor Halt.OfInput m s :=
  h.not_haltsFor (fun _ he => he) s

/-- Reading keys in a command halts where it halts by itself. -/
theorem haltsFor_withKeys {α : Type} {m : Input α} :
    HaltsFor Halt.OfInput (withKeys m) w ↔ HaltsFor Halt.OfInput m w.keys := by
  unfold HaltsFor withKeys
  cases m w.keys <;> simp

/-- Keys that are only waited for are converted to nothing. -/
theorem unrelated_withKeys {α : Type} {m : Input α} (hm : OnlyHalts (fun e => e = .waiting) m) :
    OnlyHalts Unrelated (withKeys m) := by
  intro w e w' h
  unfold withKeys at h
  cases hk : m w.keys with
  | ok a keys => simp [hk] at h
  | error d keys =>
    simp only [hk, EStateM.Result.error.injEq] at h
    have hd := hm _ _ _ hk
    rw [← h.1, hd]
    exact id

/-- A read outside a vector is no conversion. -/
theorem unrelated_readAt {α : Type} (site : Site) (xs : List α) (i : ℤ) :
    OnlyHalts Unrelated (readAt site xs i) := by
  intro w e w' h
  rw [(readAt_error h).1]
  exact id

/-- A code that has no row is no conversion. -/
theorem unrelated_getProductData (code : ℤ) (t : Table) :
    OnlyHalts Unrelated (orThrow (getProductData code t) : Main Product) := by
  intro w e w' h
  rw [(orThrow_getProductData_error h).1]
  exact id

/-- Adding a piece converts nothing. -/
theorem unrelated_addOne (p : Product) : OnlyHalts Unrelated (addOne p) := by
  intro w e w' h
  simp at h

/-- Neither does printing a receipt. -/
theorem unrelated_printFromLoop : OnlyHalts Unrelated printFromLoop := by
  intro w e w' h
  unfold printFromLoop at h
  cases hp : printReceipt w.basket w.table w.total w.keys w.printer with
  | ok printed s => simp [hp] at h
  | error d s =>
    simp only [hp, EStateM.Result.error.injEq] at h
    rw [← h.1]
    obtain rfl | ⟨rfl, -⟩ := printReceipt_error hp <;> exact id

/-- Neither does `q`. -/
theorem unrelated_quitCommand : OnlyHalts Unrelated quitCommand := by
  refine onlyHalts_bind onlyHalts_get fun w => ?_
  split_ifs
  · refine onlyHalts_bind (unrelated_withKeys onlyWaits_getch) fun key => ?_
    refine onlyHalts_bind (onlyHalts_modify _) fun _ => ?_
    split_ifs
    · exact onlyHalts_throw id
    · exact onlyHalts_pure _
  · exact onlyHalts_throw id

/-- Neither does `R`. -/
theorem unrelated_removeCommand : OnlyHalts Unrelated (removeCommand lines) := by
  refine onlyHalts_bind onlyHalts_get fun w => ?_
  split_ifs
  · refine onlyHalts_bind (onlyHalts_modify _) fun _ => ?_
    refine onlyHalts_bind onlyHalts_get fun v => ?_
    refine onlyHalts_bind (unrelated_readAt _ _ _) fun code => ?_
    cases v.currentTab with
    | products | stock => exact onlyHalts_modify _
    | basket =>
      simp only
      cases removeFromBasket code v.basket with
      | none => exact onlyHalts_throw id
      | some basket => exact onlyHalts_modify _
  · exact onlyHalts_pure _

/-- Neither does Enter. -/
theorem unrelated_enterCommand : OnlyHalts Unrelated enterCommand := by
  refine onlyHalts_bind onlyHalts_get fun w => ?_
  cases w.currentTab with
  | basket | stock => exact onlyHalts_pure _
  | products =>
    refine onlyHalts_bind (unrelated_readAt _ _ _) fun code => ?_
    refine onlyHalts_bind (unrelated_getProductData _ _) fun p => ?_
    exact onlyHalts_bind (unrelated_addOne p) fun _ => onlyHalts_modify _

/-- Neither does `t`. -/
theorem unrelated_testReceiptCommand : OnlyHalts Unrelated testReceiptCommand := by
  refine onlyHalts_bind (unrelated_withKeys onlyWaits_getch) fun _ => ?_
  exact onlyHalts_bind unrelated_printFromLoop fun _ => onlyHalts_pure _

/-- Neither does `T`. -/
theorem unrelated_checkoutCommand : OnlyHalts Unrelated checkoutCommand := by
  refine onlyHalts_bind (unrelated_withKeys onlyWaits_getch) fun _ => ?_
  refine onlyHalts_bind unrelated_printFromLoop fun printed => ?_
  split_ifs
  · exact onlyHalts_modify _
  · exact onlyHalts_pure _

/-- Reading the products of a list converts nothing that was typed. -/
theorem unrelated_readProducts (codes : List ℤ) (t : Table) :
    OnlyHalts Unrelated (orThrow (readProducts codes t) : Main Unit) := by
  intro w e w' h
  rw [(orThrow_readProducts_error h).1]
  exact id

/-- Neither does the redraw. -/
theorem unrelated_redraw : OnlyHalts Unrelated (redraw srv lines) := by
  refine onlyHalts_bind (onlyHalts_modify _) fun _ => ?_
  refine onlyHalts_bind ?_ fun list => ?_
  · intro w e w' h
    rw [calculateVisibleProductList_eq] at h
    split_ifs at h <;>
    · simp only [EStateM.Result.error.injEq] at h
      rw [← h.1]
      exact id
  refine onlyHalts_bind (onlyHalts_modify _) fun _ => ?_
  refine onlyHalts_bind onlyHalts_get fun w => ?_
  refine onlyHalts_bind (unrelated_readProducts _ _) fun _ => ?_
  refine onlyHalts_bind ?_ fun total => ?_
  · intro v e v' h
    obtain ⟨d, hd, rfl, -⟩ := orThrow_eq_error.1 h
    rw [(basketTotal_error hd).1]
    exact id
  refine onlyHalts_bind (onlyHalts_modify _) fun _ => ?_
  refine onlyHalts_bind (unrelated_readProducts _ _) fun _ => ?_
  exact onlyHalts_bind (unrelated_withKeys onlyWaits_getch) fun _ => onlyHalts_modify _

/-! ## The commands that convert -/

/-- What is typed during a command has values where values are asked for, and converts. -/
def Command.Converts (srv : Server) (c : Command) (w : World) : Prop :=
  match c with
  | .menu => ∀ p ∈ mainMenuPrompts (w.settings, w.keys), p.Accepted
  | .addProduct => w.currentTab ≠ .basket → ∀ code ∈ elementAt w.list w.selection,
      FormConverts w.settings.maxNameLength code false w.table w.keys
  | .modifyProduct => currentListSize w ≠ 0 → ∀ code ∈ elementAt w.list w.selection,
      FormConverts w.settings.maxNameLength code true w.table w.keys
  | .search => ∀ word keys, getString [] 0 w.keys = .ok (some word) (charKey 'm' :: keys) →
      ∀ code ∈ foundCode srv word w,
        FormConverts w.settings.maxNameLength code true w.table keys
  | .scan => ∀ text keys, getString [] 0 w.keys = .ok text keys →
      ∃ t ∈ text, IntegerText (2 ^ 63 - 1) t
  | _ => True

/-- The form ends the program where one of its texts does not convert. -/
theorem haltsFor_runForm {code : ℤ} {modifying : Bool} :
    HaltsFor Halt.OfInput (runForm srv code modifying) w ↔
      ¬FormConverts w.settings.maxNameLength code modifying w.table w.keys := by
  have hform := @haltsFor_addModifyProduct srv w.settings.maxNameLength code modifying w.table
    w.keys
  rw [runForm, haltsFor_bind_of_ok (get_apply w), haltsFor_bind, haltsFor_withKeys, hform]
  refine or_iff_left ?_
  rintro ⟨table, v, -, h⟩
  exact haltsFor_modify _ _ h

/-- The menus end it where a number item is given a text that does not convert. -/
theorem haltsFor_menuCommand :
    HaltsFor Halt.OfInput menuCommand w ↔ ¬Command.menu.Converts srv w := by
  have hmenu := haltsFor_startMainMenu (w.settings, w.keys)
  have hsame : HaltsFor Halt.OfInput menuCommand w ↔
      HaltsFor Halt.OfInput startMainMenu (w.settings, w.keys) := by
    unfold HaltsFor menuCommand
    cases startMainMenu (w.settings, w.keys) <;> simp
  rw [hsame, hmenu, Command.Converts]
  push Not
  rfl

/-- Running the form on the code under the cursor. -/
theorem haltsFor_formOnSelection {modifying : Bool} :
    HaltsFor Halt.OfInput (do
      let code ← readAt .listSelection w.list w.selection
      runForm srv code modifying) w ↔
      ¬∀ code ∈ elementAt w.list w.selection,
        FormConverts w.settings.maxNameLength code modifying w.table w.keys := by
  rw [haltsFor_bind, or_iff_right (not_haltsFor_of_unrelated (unrelated_readAt _ _ _) _)]
  push Not
  constructor
  · rintro ⟨code, v, hcode, h⟩
    obtain ⟨hcode, rfl⟩ := readAt_eq_ok.1 hcode
    exact ⟨code, hcode, haltsFor_runForm.1 h⟩
  · rintro ⟨code, hcode, h⟩
    exact ⟨code, w, readAt_eq_ok.2 ⟨hcode, rfl⟩, haltsFor_runForm.2 h⟩

/-- The form of `a`, where there is a product to start from. -/
theorem haltsFor_addCommand :
    HaltsFor Halt.OfInput (addCommand srv) w ↔ ¬Command.addProduct.Converts srv w := by
  rw [addCommand, haltsFor_bind_of_ok (get_apply w)]
  cases ht : w.currentTab with
  | basket => exact iff_of_false (haltsFor_pure _ _) (by simp [Command.Converts, ht])
  | products | stock =>
    refine haltsFor_formOnSelection.trans ?_
    simp [Command.Converts, ht]

/-- The form of `m`, where there is a product to modify. -/
theorem haltsFor_modifyCommand :
    HaltsFor Halt.OfInput (modifyCommand srv) w ↔ ¬Command.modifyProduct.Converts srv w := by
  rw [modifyCommand, haltsFor_bind_of_ok (get_apply w)]
  by_cases hsize : currentListSize w ≠ 0
  · rw [if_pos hsize]
    refine haltsFor_formOnSelection.trans ?_
    simp [Command.Converts, hsize]
  · rw [if_neg hsize]
    have hwait : OnlyHalts Unrelated (do
        let _ ← withKeys getch : Main Unit) :=
      onlyHalts_bind (unrelated_withKeys onlyWaits_getch) fun _ => onlyHalts_pure _
    exact iff_of_false (not_haltsFor_of_unrelated hwait _) (by simp [Command.Converts, hsize])

/-- The form behind a search that was answered with `m`. -/
theorem haltsFor_searchAnswer {code : ℤ} {key : Key} :
    HaltsFor Halt.OfInput (searchAnswer srv code key) w ↔
      key = charKey 'm' ∧ ¬FormConverts w.settings.maxNameLength code true w.table w.keys := by
  unfold searchAnswer
  by_cases hm : key = charKey 'm'
  · rw [if_pos hm, haltsFor_runForm]
    exact (and_iff_right hm).symm
  · rw [if_neg hm]
    refine iff_of_false (not_haltsFor_of_unrelated ?_ w) fun h => hm h.1
    split_ifs
    · refine onlyHalts_bind onlyHalts_get fun w => ?_
      refine onlyHalts_bind (unrelated_getProductData _ _) fun p => ?_
      exact onlyHalts_bind (unrelated_addOne p) fun _ => onlyHalts_modify _
    · exact onlyHalts_pure _

/-- The search itself converts nothing. -/
theorem unrelated_searchCode (searchWord : Str) :
    OnlyHalts Unrelated (searchCode srv searchWord) := by
  intro w e w' h
  rw [(searchCode_error h).1]
  exact id

/-- A code is found exactly when the search returns it. -/
theorem foundCode_eq_some {searchWord : Str} {code : ℤ} :
    foundCode srv searchWord w = some code ↔
      ∃ v, searchCode srv searchWord w = .ok code v := by
  unfold foundCode
  simp only [searchCode_eq_ok]
  cases hb : binarySearch (nameList srv w.table) searchWord (w.uninit.headD 0) with
  | error e => simp
  | ok i => simp

/-- A search ends the program only by the form behind it. -/
theorem haltsFor_searchCommand :
    HaltsFor Halt.OfInput (searchCommand srv) w ↔ ¬Command.search.Converts srv w := by
  have hread : ¬HaltsFor Halt.OfInput (withKeys (getString [] 0)) w :=
    not_haltsFor_of_unrelated (unrelated_withKeys (onlyWaits_getString _ _)) w
  rw [searchCommand, haltsFor_bind, or_iff_right hread, Command.Converts]
  push Not
  constructor
  · rintro ⟨word, v, htyped, h⟩
    obtain ⟨keys, hword, rfl⟩ := withKeys_eq_ok.1 htyped
    cases word with
    | none => exact absurd h (haltsFor_pure _ _)
    | some word =>
      rw [haltsFor_bind, or_iff_right (not_haltsFor_of_unrelated (unrelated_searchCode _) _)] at h
      obtain ⟨code, v, hcode, h⟩ := h
      obtain ⟨index, hindex, hmem, rfl⟩ := searchCode_eq_ok.1 hcode
      rw [haltsFor_bind_of_ok (get_apply _), haltsFor_bind,
        or_iff_right (not_haltsFor_of_unrelated (unrelated_readProducts _ _) _)] at h
      obtain ⟨_, v, hproducts, h⟩ := h
      obtain ⟨-, rfl⟩ := orThrow_eq_ok.1 hproducts
      rw [haltsFor_bind,
        or_iff_right (not_haltsFor_of_unrelated (unrelated_withKeys onlyWaits_getch) _)] at h
      obtain ⟨key, v, hkey, h⟩ := h
      obtain ⟨keys', hgetch, rfl⟩ := withKeys_eq_ok.1 hkey
      rw [haltsFor_bind_of_ok (modify_apply _ _), haltsFor_searchAnswer] at h
      obtain ⟨rfl, h⟩ := h
      obtain rfl := getch_eq_ok.1 hgetch
      have hfound := foundCode_eq_some.2 ⟨_, searchCode_eq_ok.2 ⟨index, hindex, hmem, rfl⟩⟩
      exact ⟨word, keys', hword, code, hfound, h⟩
  · rintro ⟨word, keys, hword, code, hcode, h⟩
    obtain ⟨v, hv⟩ := foundCode_eq_some.1 hcode
    obtain ⟨index, hindex, hmem, -⟩ := searchCode_eq_ok.1 hv
    have hsearch : searchCode srv word { w with keys := charKey 'm' :: keys } = .ok code _ :=
      searchCode_eq_ok.2 ⟨index, hindex, hmem, rfl⟩
    have hproducts : readProducts [code] w.table = .ok () := by
      unfold FormConverts at h
      push Not at h
      obtain ⟨q, hq, -⟩ := h
      rw [readProducts, hq]
      rfl
    refine ⟨some word, _, withKeys_eq_ok.2 ⟨_, hword, rfl⟩, ?_⟩
    rw [haltsFor_bind_of_ok hsearch, haltsFor_bind_of_ok (get_apply _),
      haltsFor_bind_of_ok (orThrow_eq_ok.2 ⟨hproducts, rfl⟩),
      haltsFor_bind_of_ok (withKeys_eq_ok.2 ⟨keys, rfl, rfl⟩),
      haltsFor_bind_of_ok (modify_apply _ _), haltsFor_searchAnswer]
    exact ⟨rfl, h⟩

/-- What follows the code of a scan converts nothing. -/
theorem unrelated_scanProduct (code : ℤ) : OnlyHalts Unrelated (scanProduct code) := by
  refine onlyHalts_bind onlyHalts_get fun w => ?_
  cases w.currentTab with
  | stock => exact onlyHalts_pure _
  | basket | products =>
    refine onlyHalts_bind ?_ fun found => ?_
    · intro v e v' h he
      exact not_haltsFor_productExists code w.table v ⟨e, v', h, he⟩
    · split_ifs
      · refine onlyHalts_bind (unrelated_getProductData _ _) fun p => ?_
        exact onlyHalts_bind (unrelated_addOne p) fun _ => onlyHalts_modify _
      · exact onlyHalts_bind (unrelated_withKeys onlyWaits_getch) fun _ => onlyHalts_pure _

/-- A scan ends it where its text is no `long`. -/
theorem haltsFor_scanCode :
    HaltsFor Halt.OfInput scanCode w ↔ ¬Command.scan.Converts srv w := by
  have hread : ¬HaltsFor Halt.OfInput (withKeys (getString [] 0)) w :=
    not_haltsFor_of_unrelated (unrelated_withKeys (onlyWaits_getString _ _)) w
  rw [scanCode, haltsFor_bind, or_iff_right hread, Command.Converts]
  push Not
  constructor
  · rintro ⟨text, v, htext, h⟩
    obtain ⟨keys, hread, rfl⟩ := withKeys_eq_ok.1 htext
    refine ⟨text, keys, hread, ?_⟩
    rintro t rfl
    exact (parseInteger_rejects_iff _ _).1 (haltsFor_orThrow.1 h)
  · rintro ⟨text, keys, htext, h⟩
    refine ⟨text, _, withKeys_eq_ok.2 ⟨keys, htext, rfl⟩, ?_⟩
    cases text with
    | none => exact (haltsFor_throw _ _).2 trivial
    | some t => exact haltsFor_orThrow.2 ((parseInteger_rejects_iff _ _).2 (h t rfl))

/-- So does the command. -/
theorem haltsFor_scanCommand :
    HaltsFor Halt.OfInput scanCommand w ↔ ¬Command.scan.Converts srv w := by
  rw [scanCommand, haltsFor_bind, @haltsFor_scanCode srv w]
  refine or_iff_left ?_
  rintro ⟨code, v, -, h⟩
  have hrest := onlyHalts_bind (unrelated_scanProduct code) fun _ => onlyHalts_modify
    (P := Unrelated) fun w => if w.selection ≥ currentListSize w then resetCursor w else w
  exact not_haltsFor_of_unrelated hrest v h

/-- **A command ends the program** for what is typed exactly when that does not
convert. -/
theorem haltsFor_body {c : Command} :
    HaltsFor Halt.OfInput (c.body srv lines) w ↔ ¬c.Converts srv w := by
  cases c with
  | menu => exact haltsFor_menuCommand
  | addProduct => exact haltsFor_addCommand
  | modifyProduct => exact haltsFor_modifyCommand
  | search => exact haltsFor_searchCommand
  | scan => exact haltsFor_scanCommand
  | quit =>
    exact iff_of_false (not_haltsFor_of_unrelated unrelated_quitCommand _) (not_not.2 trivial)
  | remove =>
    exact iff_of_false (not_haltsFor_of_unrelated unrelated_removeCommand _) (not_not.2 trivial)
  | enter =>
    exact iff_of_false (not_haltsFor_of_unrelated unrelated_enterCommand _) (not_not.2 trivial)
  | testReceipt =>
    exact iff_of_false (not_haltsFor_of_unrelated unrelated_testReceiptCommand _)
      (not_not.2 trivial)
  | checkout =>
    exact iff_of_false (not_haltsFor_of_unrelated unrelated_checkoutCommand _) (not_not.2 trivial)
  | nextTab | stockTab | scrollUp | scrollDown | up | down =>
    exact iff_of_false (haltsFor_modify _ _) (not_not.2 trivial)

/-! ## The loop -/

/-- **An iteration ends the program** for what is typed exactly when a command of it does
not convert. -/
theorem haltsFor_iteration :
    HaltsFor Halt.OfInput (iteration srv lines) w ↔
      ∃ c v, (c, v) ∈ iterationTrace srv lines w ∧ ¬c.Converts srv v := by
  constructor
  · rintro ⟨e, w', h, he⟩
    obtain hr | ⟨c, v, hmem, hb⟩ := iteration_error h
    · exact absurd he (unrelated_redraw _ _ _ hr)
    · exact ⟨c, v, hmem, haltsFor_body.1 ⟨e, w', hb, he⟩⟩
  · rintro ⟨c, v, hmem, hno⟩
    obtain ⟨e, v', hb, he⟩ := (@haltsFor_body srv lines v c).2 hno
    unfold iterationTrace at hmem
    cases hr : redraw srv lines w with
    | error d s => simp [hr] at hmem
    | ok u s =>
      simp only [hr] at hmem
      refine ⟨e, v', ?_, he⟩
      rw [iteration, bind_apply, hr]
      exact Chain.run_error_of_mem_trace hmem hb

/-- The program, run from `w`, is ended by a text that a conversion rejects or by a value
that is not there. -/
def EndsForInput (srv : Server) (lines : ℤ) (w : World) : Prop :=
  ∃ v, RunsWhere srv lines (fun _ _ => True) w v ∧ HaltsFor Halt.OfInput (iteration srv lines) v

/-- Every command of the run finds values where it asks for them, and texts that
convert. -/
def RunConverts (srv : Server) (lines : ℤ) (w : World) : Prop :=
  ∀ v, RunsWhere srv lines (fun _ _ => True) w v →
    ∀ c u, (c, u) ∈ iterationTrace srv lines v → c.Converts srv u

/-- A run that no text ends is one whose texts convert at every command. -/
theorem not_endsForInput_iff : ¬EndsForInput srv lines w ↔ RunConverts srv lines w := by
  unfold EndsForInput RunConverts
  simp only [haltsFor_iteration]
  push Not
  rfl

/-- ESC at the prompt of a scan ends the program. -/
theorem scan_cancelled_ends_run :
    ∃ keys, EndsForInput strictServer 11 (boot [bread] keys ⟨[], []⟩ []) := by
  have hhalt : haltOf (iteration strictServer 11
      (boot [bread] [charKey '#', keyEsc] ⟨[], []⟩ [])) = some (.thrown .badOptionalAccess) := by
    decide +kernel
  obtain ⟨w', hw'⟩ := haltOf_eq_some.1 hhalt
  exact ⟨[charKey '#', keyEsc], _, Relation.ReflTransGen.refl, _, w', hw', trivial⟩

/-- **No conversion ends the program** if and only if every text converted is accepted and
no value asked for is missing: for a text, `stol`, `stoi`, `stod` and `stof` accept what
the filter leaves exactly when it does not begin with a dot, or a dot without a digit, and
is in range; for a run, whatever is typed; and for a number item, in any menu. -/
theorem conversions_accept_iff (srv : Server) (lines : ℤ) (w : World) (text : Str) :
    (((∃ n, stol (removeNonNr text) = .ok n) ↔ IntegerText (2 ^ 63 - 1) text) ∧
      ((∃ n, stoi (removeNonNr text) = .ok n) ↔ IntegerText (2 ^ 31 - 1) text) ∧
      ((∃ x, stod (removeNonNr text) = .ok x) ↔ FloatText binary64 text) ∧
      ((∃ x, stof (removeNonNr text) = .ok x) ↔ FloatText binary32 text)) ∧
    (¬EndsForInput srv lines w ↔ RunConverts srv lines w) ∧
    (∀ (σ : Type) (get : σ → ℤ) (put : ℤ → σ → σ) (s : σ × List Key),
      ¬HaltsFor Halt.OfInput (runIntItem get put) s ↔
        ∀ text rest, getString (intText (get s.1)) 0 s.2 = .ok (some text) rest →
          IntegerText (2 ^ 31 - 1) text) ∧
    ∀ (σ : Type) (get : σ → ℚ) (put : ℚ → σ → σ) (s : σ × List Key),
      ¬HaltsFor Halt.OfInput (runFloatItem get put) s ↔
        ∀ text rest, getString (doubleText (get s.1)) 0 s.2 = .ok (some text) rest →
          FloatText binary32 text := by
  refine ⟨⟨?_, ?_, ?_, ?_⟩, not_endsForInput_iff, ?_, ?_⟩
  · exact parseInteger_accepts_iff _ text
  · exact parseInteger_accepts_iff _ text
  · exact parseFloat_accepts_iff _ text
  · exact parseFloat_accepts_iff _ text
  · intro σ get put s
    rw [haltsFor_runIntItem]
    push Not
    rfl
  · intro σ get put s
    rw [haltsFor_runFloatItem]
    push Not
    rfl

end CliPos
