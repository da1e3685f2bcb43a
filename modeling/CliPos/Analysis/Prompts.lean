import CliPos.Model.Form
import CliPos.Model.Menus

/-!
# What prompts, forms and menus can do

The parts of a command that only read keys: the line editor, the product form and the
menus.  Whatever is typed, they halt for want of keys or because a conversion or the
server refuses the text, never for an index or a missing row (`Halt.Internal`), the first
read of the form apart.  The form is cancelled or saves a product
(`addModifyProduct_eq_ok`), and the menus keep the barcode prefix printable
(`StorablePrefix`).
-/

set_option autoImplicit false

namespace CliPos

open Decimal Halting

/-- The halts of the program's own making: a vector is read out of its range, or a code
has no row. -/
def Halt.Internal : Halt → Prop
  | .undefined _ => True
  | .thrown .missingRow => True
  | _ => False

/-- A halt that only what is typed, or the server, can cause. -/
abbrev External (e : Halt) : Prop := ¬e.Internal

/-! ## The line editor -/

/-- The computation halts for want of keys only. -/
abbrev OnlyWaits {σ α : Type} (m : EStateM Halt σ α) : Prop := OnlyHalts (fun e => e = .waiting) m

/-- To wait for a key is a reason from outside. -/
theorem OnlyWaits.external {σ α : Type} {m : EStateM Halt σ α} (h : OnlyWaits m) :
    OnlyHalts External m :=
  h.mono (by rintro e rfl; exact id)

/-- `getch` waits. -/
theorem onlyWaits_getch : OnlyWaits getch := by
  intro keys e keys' h
  cases keys with
  | nil =>
    cases h
    rfl
  | cons key keys => cases h

/-- The editor halts only where it waits for a key. -/
theorem editLoop_error {maxLength : ℤ} {keys keys' : List Key} {s : Str} {e : Halt}
    (h : editLoop maxLength keys s = .error e keys') : e = .waiting := by
  induction keys generalizing maxLength s with
  | nil =>
    simp only [editLoop, EStateM.Result.error.injEq] at h
    exact h.1.symm
  | cons key keys ih =>
    simp only [editLoop] at h
    split_ifs at h <;> exact ih h

/-- So does `get_string`. -/
theorem getString_error {s : Str} {maxLength : ℤ} {keys keys' : List Key} {e : Halt}
    (h : getString s maxLength keys = .error e keys') : e = .waiting := by
  unfold getString at h
  by_cases hs : s ≠ []
  · rw [if_pos hs] at h
    cases keys with
    | nil =>
      simp only [EStateM.Result.error.injEq] at h
      exact h.1.symm
    | cons key keys =>
      by_cases hkey : key ≠ keyEnter
      · simp only [if_pos hkey] at h
        exact editLoop_error h
      · simp only [if_neg hkey] at h
        cases h
  · rw [if_neg hs] at h
    exact editLoop_error h

/-- The same, for every list of keys. -/
theorem onlyWaits_getString (s : Str) (maxLength : ℤ) : OnlyWaits (getString s maxLength) :=
  fun _ _ _ h => getString_error h

/-! ## Conversions -/

/-- A value that may be missing was there. -/
theorem orThrow_eq_ok {σ α : Type} {x : Except Exception α} {a : α} {s s' : σ} :
    orThrow x s = .ok a s' ↔ x = .ok a ∧ s' = s := by
  cases x <;> simp [orThrow, throwException, eq_comm]

/-- Where it is missing, its exception is thrown. -/
theorem orThrow_eq_error {σ α : Type} {x : Except Exception α} {e : Halt} {s s' : σ} :
    orThrow x s = .error e s' ↔ ∃ d, x = .error d ∧ e = .thrown d ∧ s' = s := by
  cases x <;> simp [orThrow, throwException, eq_comm]

/-- Every exception but that of a missing row is a reason from outside. -/
theorem onlyHalts_throwException {σ α : Type} {e : Exception} (h : e ≠ .missingRow) :
    OnlyHalts External (throwException e : EStateM Halt σ α) :=
  onlyHalts_throw fun hi => by cases e <;> first | exact hi | exact h rfl

/-- So is every failure of a value that needs no row. -/
theorem onlyHalts_orThrow {σ α : Type} {x : Except Exception α} (h : x ≠ .error .missingRow) :
    OnlyHalts External (orThrow x : EStateM Halt σ α) := by
  cases x with
  | ok a => exact onlyHalts_pure a
  | error e => exact onlyHalts_throwException fun he => h (by rw [he])

/-- A conversion to an integer looks up no row. -/
theorem parseInteger_ne_missingRow (largest : ℕ) (s : Str) :
    parseInteger largest s ≠ .error .missingRow := by
  unfold parseInteger
  split_ifs <;> simp

/-- Neither does one to a float. -/
theorem parseFloat_ne_missingRow (f : FloatFormat) (s : Str) :
    parseFloat f s ≠ .error .missingRow := by
  unfold parseFloat
  split
  · simp
  · split_ifs <;> simp

/-! ## The form -/

/-- The question for a shorter text waits for its key. -/
theorem onlyWaits_cutToSize (maxSize : ℤ) (s : Str) : OnlyWaits (cutToSize maxSize s) := by
  unfold cutToSize
  split_ifs
  · exact onlyHalts_bind onlyWaits_getch fun _ => onlyHalts_pure _
  · exact onlyHalts_pure _

/-- **A prompt halts** for want of keys, or because `value()` finds no text. -/
theorem addModifyCriteria_halts (placeholder : Str) (modify : Bool) (maxSize : ℤ) (fuel : ℕ) :
    OnlyHalts (fun e => e = .waiting ∨ e = .thrown .badOptionalAccess)
      (addModifyCriteria placeholder modify maxSize fuel) := by
  induction fuel generalizing placeholder with
  | zero => exact onlyHalts_throw (.inl rfl)
  | succ fuel ih =>
    rw [addModifyCriteria]
    refine onlyHalts_bind ((onlyWaits_getString _ _).mono fun _ => .inl) fun text => ?_
    cases text with
    | none => exact onlyHalts_pure _
    | some text =>
      refine onlyHalts_bind ?_ fun output => ?_
      · exact (onlyWaits_cutToSize _ _).mono fun _ => .inl
      · by_cases hcomma : comma ∈ output
        · rw [if_pos hcomma]
          refine onlyHalts_bind (onlyWaits_getch.mono fun _ => .inl) fun _ => ?_
          refine onlyHalts_bind (ih _) fun again => ?_
          cases again with
          | none => exact onlyHalts_throw (.inr rfl)
          | some again => exact onlyHalts_pure _
        · rw [if_neg hcomma]
          exact onlyHalts_pure _

/-- `add_modify_criteria` halts only for reasons from outside. -/
theorem onlyHalts_addModifyCriteria (placeholder : Str) (modify : Bool) (maxSize : ℤ)
    (fuel : ℕ) : OnlyHalts External (addModifyCriteria placeholder modify maxSize fuel) :=
  (addModifyCriteria_halts placeholder modify maxSize fuel).mono
    (by rintro e (rfl | rfl) <;> exact id)

/-- A prompt of the form: its answer goes to what follows, and ESC ends the form. -/
theorem ask_apply {α : Type} (placeholder : Str) (modify : Bool) (maxSize : ℤ)
    (next : Str → Input (Option α)) (keys : List Key) :
    ask placeholder modify maxSize next keys =
      match addModifyCriteria placeholder modify maxSize (keys.length + 1) keys with
      | .ok none keys' => .ok none keys'
      | .ok (some answer) keys' => next answer keys'
      | .error e keys' => .error e keys' := by
  unfold ask
  simp only [bind, EStateM.bind]
  cases addModifyCriteria placeholder modify maxSize (keys.length + 1) keys with
  | error e keys' => rfl
  | ok answer keys' => cases answer <;> rfl

/-- It halts only for reasons from outside when what follows does. -/
theorem onlyHalts_ask {α : Type} (placeholder : Str) (modify : Bool) (maxSize : ℤ)
    {next : Str → Input (Option α)} (h : ∀ answer, OnlyHalts External (next answer)) :
    OnlyHalts External (ask placeholder modify maxSize next) := by
  refine onlyHalts_bind ?_ fun answer => ?_
  · exact fun keys e keys' he => onlyHalts_addModifyCriteria _ _ _ _ keys e keys' he
  · cases answer with
    | none => exact onlyHalts_pure _
    | some answer => exact h answer

/-- Enter ends the choice of the measurement with the selection. -/
theorem soldByLoop_enter (keys : List Key) (selection : ℤ) :
    soldByLoop (keyEnter :: keys) selection = .ok (some selection) keys := rfl

/-- The choice waits for its keys. -/
theorem onlyWaits_soldByLoop (selection : ℤ) :
    OnlyWaits fun keys => soldByLoop keys selection := by
  intro keys
  induction keys generalizing selection with
  | nil =>
    rintro e keys' ⟨⟩
    rfl
  | cons key keys ih =>
    intro e keys' h
    simp only [soldByLoop] at h
    split_ifs at h <;> exact ih _ e keys' h

/-- The form's prompts halt only for reasons from outside. -/
theorem onlyHalts_formAnswers (maxNameLength : ℤ) (modify : Bool) (p : Product) :
    OnlyHalts External (formAnswers maxNameLength modify p) := by
  unfold formAnswers
  iterate 7 refine onlyHalts_ask _ _ _ fun _ => ?_
  refine onlyHalts_bind (onlyWaits_soldByLoop _).external fun selection => ?_
  cases selection <;> exact onlyHalts_pure _

/-- Reading the answers looks up no row. -/
theorem toProduct_ne_missingRow (p : Product) (answers : Answers) :
    answers.toProduct p ≠ .error .missingRow := by
  unfold Answers.toProduct
  refine except_bind_ne_error (parseInteger_ne_missingRow _ _) fun code => ?_
  iterate 4 refine except_bind_ne_error (parseFloat_ne_missingRow _ _) fun _ => ?_
  simp [pure, Except.pure]

/-- `product_exists` does not fail for want of one. -/
theorem productExists_ne_missingRow (code : ℤ) (t : Table) :
    productExists code t ≠ .error .missingRow := by
  unfold productExists
  split_ifs <;> simp

/-- Neither does `update_stock`. -/
theorem updateStock_ne_missingRow (srv : Server) (p : Product) (t : Table) :
    updateStock srv p t ≠ .error .missingRow := by
  unfold updateStock
  refine except_bind_ne_error (productExists_ne_missingRow _ _) fun update => ?_
  split
  · split <;> simp
  · split_ifs <;> simp

/-- **The form halts for a reason of its own only on a code without a row.** -/
theorem addModifyProduct_error {srv : Server} {maxNameLength code : ℤ} {modify : Bool}
    {t : Table} {keys keys' : List Key} {e : Halt}
    (h : addModifyProduct srv maxNameLength code modify t keys = .error e keys')
    (he : e.Internal) : e = .thrown .missingRow ∧ ∀ r ∈ t, r.code ≠ code := by
  unfold addModifyProduct at h
  rcases bind_eq_error.1 h with h | ⟨p, keys₁, -, h⟩
  · obtain ⟨d, hp, rfl, -⟩ := orThrow_eq_error.1 h
    obtain ⟨rfl, hnone⟩ := getProductData_eq_error.1 hp
    exact ⟨rfl, hnone⟩
  · rcases bind_eq_error.1 h with h | ⟨answers, keys₂, -, h⟩
    · exact absurd he (onlyHalts_formAnswers _ _ _ _ _ _ h)
    · cases answers with
      | none => cases h
      | some answers =>
        have hsave : OnlyHalts External
            (orThrow (answers.toProduct p) >>= fun p => orThrow (updateStock srv p t) :
              Input Table) := by
          apply onlyHalts_bind (onlyHalts_orThrow (toProduct_ne_missingRow _ _))
          intro q
          exact onlyHalts_orThrow (updateStock_ne_missingRow _ _ _)
        exact absurd he (hsave _ _ _ h)

/-- The form, run on a code with these keys, ends with the product `p` to save. -/
def FormSaves (maxNameLength code : ℤ) (modify : Bool) (t : Table) (keys : List Key)
    (p : Product) : Prop :=
  ∃ q answers keys', getProductData code t = .ok q ∧
    formAnswers maxNameLength modify q keys = .ok (some answers) keys' ∧
    answers.toProduct q = .ok p

/-- **A form that returned** was cancelled or saved a product. -/
theorem addModifyProduct_eq_ok {srv : Server} {maxNameLength code : ℤ} {modify : Bool}
    {t t' : Table} {keys keys' : List Key}
    (h : addModifyProduct srv maxNameLength code modify t keys = .ok t' keys') :
    t' = t ∨ ∃ p, FormSaves maxNameLength code modify t keys p ∧ updateStock srv p t = .ok t' := by
  simp only [addModifyProduct, bind_eq_ok, orThrow_eq_ok] at h
  obtain ⟨q, _, ⟨hq, rfl⟩, answers, keys₂, hanswers, h⟩ := h
  cases answers with
  | none =>
    simp only [pure_apply, EStateM.Result.ok.injEq] at h
    exact .inl h.1.symm
  | some answers =>
    simp only [bind_eq_ok, orThrow_eq_ok] at h
    obtain ⟨p, _, ⟨hp, rfl⟩, hup, rfl⟩ := h
    exact .inr ⟨p, ⟨q, answers, _, hq, hanswers, hp⟩, hup⟩

/-- Without a quote in the name, `update_stock` updates rows of the table or adds one under
a new code. -/
theorem updateStock_eq_ok {srv : Server} {p : Product} {t t' : Table} (hq : quote ∉ p.name)
    (h : updateStock srv p t = .ok t') :
    (productExists p.code t = .ok true ∧ t' = updateRows p t) ∨
      (productExists p.code t = .ok false ∧ t' = insertRow p t) := by
  unfold updateStock at h
  obtain ⟨update, hu, h⟩ := except_bind_eq_ok.1 h
  rw [if_neg hq] at h
  split_ifs at h with hlit hupd
  · cases h
    exact .inl ⟨by rw [hu, hupd], rfl⟩
  · cases h
    exact .inr ⟨by rw [hu, Bool.eq_false_iff.2 hupd], rfl⟩

/-! ## Menus -/

/-- The item chosen is one of the menu's. -/
theorem selectionList_range {size sel out : ℤ} {keys keys' : List Key} (h0 : 0 ≤ sel)
    (h1 : sel < size) (h : selectionList size keys sel = .ok (some out) keys') :
    0 ≤ out ∧ out < size := by
  induction keys generalizing sel with
  | nil => cases h
  | cons key keys ih =>
    simp only [selectionList] at h
    split_ifs at h with hup hsel hdown hlast henter
    · exact ih (by omega) (by omega) h
    · exact ih h0 h1 h
    · exact ih (by omega) (by omega) h
    · exact ih h0 h1 h
    · simp only [EStateM.Result.ok.injEq, Option.some.injEq] at h
      omega
    · simp at h
    · exact ih h0 h1 h

/-- The highlight waits for its keys. -/
theorem onlyWaits_selectionList (size sel : ℤ) :
    OnlyWaits fun keys => selectionList size keys sel := by
  intro keys
  induction keys generalizing sel with
  | nil =>
    rintro e keys' ⟨⟩
    rfl
  | cons key keys ih =>
    intro e keys' h
    simp only [selectionList] at h
    split_ifs at h <;> exact ih _ e keys' h

section MenuRule

variable {σ : Type} {M : Menu σ → Prop} {P : σ → Prop}

/-- A menu action keeps `P` and halts for external reasons only. -/
def KeepsStore {α : Type} (P : σ → Prop) (m : MenuM σ α) : Prop :=
  ∀ s, P s.1 → (∀ a s', m s = .ok a s' → P s'.1) ∧ ∀ e s', m s = .error e s' → External e

/-- What an item must satisfy for a menu to keep `P`: its submenu is one of `M`, or what
it sets keeps `P`. -/
def MenuItemData.Keeps (M : Menu σ → Prop) (P : σ → Prop) : MenuItemData σ → Prop
  | .submenu m => M m
  | .stringItem _ put => ∀ v s, P s → P (put v s)
  | .funct action => KeepsStore P action
  | .intItem _ put => ∀ v s, P s → P (put v s)
  | .floatItem _ put => ∀ v s, P s → P (put v s)
  | .boolItem _ put => ∀ v s, P s → P (put v s)
  | .exitItem => True

/-- Returning a value keeps the store. -/
theorem keepsStore_pure {α : Type} (a : α) : KeepsStore P (pure a) := by
  intro s hs
  constructor
  · rintro _ _ ⟨⟩
    exact hs
  · rintro _ _ ⟨⟩

/-- Sequencing, where what is known of the first value may be used for the second half. -/
theorem keepsStore_bind_of {α β : Type} {m : MenuM σ α} {f : α → MenuM σ β} {Q : α → Prop}
    (hm : KeepsStore P m) (hQ : ∀ s a s', m s = .ok a s' → Q a)
    (hf : ∀ a, Q a → KeepsStore P (f a)) : KeepsStore P (m >>= f) := by
  intro s hs
  constructor
  · intro b s' h
    obtain ⟨a, t, ha, hb⟩ := bind_eq_ok.1 h
    exact (hf a (hQ s a t ha) t ((hm s hs).1 a t ha)).1 b s' hb
  · intro e s' h
    rcases bind_eq_error.1 h with h | ⟨a, t, ha, hb⟩
    · exact (hm s hs).2 e s' h
    · exact (hf a (hQ s a t ha) t ((hm s hs).1 a t ha)).2 e s' hb

/-- A sequence keeps what its halves keep. -/
theorem keepsStore_bind {α β : Type} {m : MenuM σ α} {f : α → MenuM σ β}
    (hm : KeepsStore P m) (hf : ∀ a, KeepsStore P (f a)) : KeepsStore P (m >>= f) :=
  keepsStore_bind_of (Q := fun _ => True) hm (fun _ _ _ _ => trivial) fun a _ => hf a

/-- Looking at the store keeps it. -/
theorem keepsStore_get : KeepsStore P (get : MenuM σ (σ × List Key)) := by
  intro s hs
  constructor
  · rintro _ _ ⟨⟩
    exact hs
  · rintro _ _ ⟨⟩

/-- Setting a value keeps the property when the value does. -/
theorem keepsStore_setStore {f : σ → σ} (hf : ∀ s, P s → P (f s)) :
    KeepsStore P (setStore f) := by
  intro s hs
  constructor
  · rintro _ _ ⟨⟩
    exact hf _ hs
  · rintro _ _ ⟨⟩

/-- Reading keys keeps the store. -/
theorem keepsStore_readKeys {α : Type} {m : Input α} (hm : OnlyHalts External m) :
    KeepsStore P (readKeys m : MenuM σ α) := by
  intro s hs
  unfold readKeys
  cases h : m s.2 with
  | ok a keys =>
    constructor
    · rintro _ _ ⟨⟩
      exact hs
    · rintro _ _ ⟨⟩
  | error e keys =>
    constructor
    · rintro _ _ ⟨⟩
    · rintro _ _ ⟨⟩
      exact hm _ _ _ h

/-- So does a value that may be missing. -/
theorem keepsStore_orThrow {α : Type} {x : Except Exception α} (h : x ≠ .error .missingRow) :
    KeepsStore P (orThrow x : MenuM σ α) := by
  intro s hs
  refine ⟨fun a s' ha => ?_, fun e s' he => onlyHalts_orThrow h s e s' he⟩
  cases x with
  | ok b =>
    cases ha
    exact hs
  | error e => cases ha

/-- A text item keeps the property when every text does. -/
theorem keepsStore_runStringItem {get : σ → Str} {put : Str → σ → σ}
    (hput : ∀ v s, P s → P (put v s)) : KeepsStore P (runStringItem get put) := by
  refine keepsStore_bind keepsStore_get fun s => ?_
  refine keepsStore_bind (keepsStore_readKeys (onlyWaits_getString _ _).external) fun str => ?_
  cases str with
  | none => exact keepsStore_pure _
  | some str => exact keepsStore_setStore fun s => hput str s

/-- An integer item keeps it when every integer does. -/
theorem keepsStore_runIntItem {get : σ → ℤ} {put : ℤ → σ → σ}
    (hput : ∀ v s, P s → P (put v s)) : KeepsStore P (runIntItem get put) := by
  refine keepsStore_bind keepsStore_get fun s => ?_
  refine keepsStore_bind (keepsStore_readKeys (onlyWaits_getString _ _).external) fun str => ?_
  cases str with
  | none => exact keepsStore_pure _
  | some str =>
    refine keepsStore_bind (keepsStore_orThrow (parseInteger_ne_missingRow _ _)) fun n => ?_
    by_cases hn : n ≠ 0
    · rw [if_pos hn]
      exact keepsStore_setStore fun s => hput n s
    · rw [if_neg hn]
      exact keepsStore_pure _

/-- A float item keeps it when every float does. -/
theorem keepsStore_runFloatItem {get : σ → ℚ} {put : ℚ → σ → σ}
    (hput : ∀ v s, P s → P (put v s)) : KeepsStore P (runFloatItem get put) := by
  refine keepsStore_bind keepsStore_get fun s => ?_
  refine keepsStore_bind (keepsStore_readKeys (onlyWaits_getString _ _).external) fun str => ?_
  cases str with
  | none => exact keepsStore_pure _
  | some str =>
    refine keepsStore_bind (keepsStore_orThrow (parseFloat_ne_missingRow _ _)) fun x => ?_
    by_cases hx : x ≠ 0
    · rw [if_pos hx]
      exact keepsStore_setStore fun s => hput x s
    · rw [if_neg hx]
      exact keepsStore_pure _

/-- What choosing an item runs, apart from submenus and exits. -/
def MenuItemData.action : MenuItemData σ → MenuM σ Unit
  | .stringItem get put => runStringItem get put
  | .funct action => action
  | .intItem get put => runIntItem get put
  | .floatItem get put => runFloatItem get put
  | .boolItem get put => setStore fun s => put (!get s) s
  | .submenu _ => pure ()
  | .exitItem => pure ()

/-- **The menu rule.**  When the menus of a set have options, lead to menus of the set
only and what their items do keeps `P`, then running one of them keeps `P`, and it chooses
items inside the menus only. -/
theorem keepsStore_runMenu_of
    (hM : ∀ m, M m → m.options ≠ [] ∧
      ∀ o ∈ m.options, (∀ m', o.2 = .submenu m' → M m') ∧ KeepsStore P o.2.action) (fuel : ℕ)
    {menu : Menu σ} {menuLabels : List Str} {sel : ℤ} (hm : M menu) (h0 : 0 ≤ sel)
    (h1 : sel < menu.options.length) :
    KeepsStore P (runMenu fuel menu menuLabels sel) := by
  induction fuel generalizing menu menuLabels sel with
  | zero =>
    intro s hs
    constructor
    · rintro _ _ ⟨⟩
    · rintro _ _ ⟨⟩
      exact id
  | succ fuel ih =>
    rw [runMenu]
    have hrange : ∀ (s : σ × List Key) (out : Option ℤ) (s' : σ × List Key),
        readKeys (fun keys => selectionList menu.options.length keys sel) s = .ok out s' →
        ∀ i ∈ out, 0 ≤ i ∧ i < menu.options.length := by
      rintro s _ s' h i rfl
      unfold readKeys at h
      cases hsel : selectionList menu.options.length s.2 sel with
      | error e keys => simp [hsel] at h
      | ok out keys =>
        simp only [hsel, EStateM.Result.ok.injEq] at h
        obtain ⟨rfl, -⟩ := h
        exact selectionList_range h0 h1 hsel
    refine keepsStore_bind_of (keepsStore_readKeys (onlyWaits_selectionList _ _).external) hrange
      fun out hout => ?_
    cases out with
    | none => exact keepsStore_pure _
    | some output =>
      obtain ⟨hlo, hhi⟩ := hout output rfl
      have hagain : ∀ labels, KeepsStore P (runMenu fuel menu labels output) :=
        fun labels => ih hm hlo hhi
      cases hitem : elementAt menu.options output with
      | none =>
        have := (elementAt_isSome_iff menu.options output).2 ⟨hlo, hhi⟩
        rw [hitem] at this
        cases this
      | some item =>
        obtain ⟨name, item⟩ := item
        obtain ⟨hleads, hkeeps⟩ := (hM menu hm).2 (name, item) (elementAt_eq_some hitem)
        simp only [hitem]
        cases item with
        | submenu m =>
          have hm' := hleads m rfl
          have hne := List.length_pos_of_ne_nil (hM m hm').1
          refine keepsStore_bind (ih hm' le_rfl (by omega)) fun exit => ?_
          cases exit
          · exact hagain _
          · exact keepsStore_pure _
        | exitItem => exact keepsStore_pure _
        | funct action => exact keepsStore_bind hkeeps fun _ => hagain _
        | boolItem get put => exact keepsStore_bind hkeeps fun _ => hagain _
        | stringItem get put => exact keepsStore_bind hkeeps fun _ => hagain _
        | intItem get put => exact keepsStore_bind hkeeps fun _ => hagain _
        | floatItem get put => exact keepsStore_bind hkeeps fun _ => hagain _

/-- The same, from what the items may set. -/
theorem keepsStore_runMenu
    (hM : ∀ m, M m → m.options ≠ [] ∧ ∀ o ∈ m.options, o.2.Keeps M P) (fuel : ℕ)
    {menu : Menu σ} {menuLabels : List Str} {sel : ℤ} (hm : M menu) (h0 : 0 ≤ sel)
    (h1 : sel < menu.options.length) :
    KeepsStore P (runMenu fuel menu menuLabels sel) := by
  refine keepsStore_runMenu_of (fun m hm => ⟨(hM m hm).1, fun o ho => ?_⟩) fuel hm h0 h1
  obtain ⟨name, item⟩ := o
  have hkeeps := (hM m hm).2 _ ho
  cases item with
  | submenu m' =>
    refine ⟨?_, keepsStore_pure _⟩
    rintro _ ⟨⟩
    exact hkeeps
  | exitItem => exact ⟨by simp, keepsStore_pure _⟩
  | funct action => exact ⟨by simp, hkeeps⟩
  | boolItem get put => exact ⟨by simp, keepsStore_setStore fun s => hkeeps (!get s) s⟩
  | stringItem get put => exact ⟨by simp, keepsStore_runStringItem hkeeps⟩
  | intItem get put => exact ⟨by simp, keepsStore_runIntItem hkeeps⟩
  | floatItem get put => exact ⟨by simp, keepsStore_runFloatItem hkeeps⟩

end MenuRule

/-! ## The barcode prefix -/

/-- A prefix that `get_barcode_prefix` can store: a printable character, or 0. -/
def StorablePrefix (key : ℤ) : Prop := key = 0 ∨ 32 ≤ key ∧ key ≤ 126

/-- Whether a prefix can be stored can be tested. -/
instance (key : ℤ) : Decidable (StorablePrefix key) := by unfold StorablePrefix; infer_instance

/-- `get_string` without a placeholder returns printable characters. -/
theorem editLoop_isprint {maxLength : ℤ} {keys keys' : List Key} {s t : Str}
    (hs : ∀ b ∈ s, isprint b = true) (h : editLoop maxLength keys s = .ok (some t) keys') :
    ∀ b ∈ t, isprint b = true := by
  induction keys generalizing maxLength s with
  | nil => cases h
  | cons key keys ih =>
    have hback : ∀ b ∈ afterBackspace key s, isprint b = true := by
      intro b hb
      unfold afterBackspace at hb
      split_ifs at hb
      · exact hs b (List.dropLast_subset s hb)
      · exact hs b hb
    have hnext : ∀ m, ∀ b ∈ afterPrintable m key (afterBackspace key s), isprint b = true := by
      intro m b hb
      unfold afterPrintable at hb
      split_ifs at hb with hp
      · rcases List.mem_append.1 hb with hb | hb
        · exact hback b hb
        · exact (List.mem_singleton.1 hb) ▸ hp.1
      · exact hback b hb
    simp only [editLoop] at h
    split_ifs at h
    · simp only [EStateM.Result.ok.injEq, Option.some.injEq] at h
      exact h.1 ▸ hback
    · simp at h
    · exact ih (hnext _) h
    · exact ih (hnext _) h

/-- The first character of a printable text can be stored. -/
theorem storablePrefix_of_isprint {s : Str} (h : ∀ b ∈ s, isprint b = true) :
    StorablePrefix (signedChar (s.headD 0)) := by
  cases s with
  | nil => exact .inl rfl
  | cons b s =>
    have hb := h b (by simp)
    simp only [isprint, Bool.and_eq_true, decide_eq_true_eq] at hb
    unfold StorablePrefix
    rw [List.headD_cons, signedChar, if_pos (by omega)]
    omega

/-- `get_barcode_prefix` stores such a prefix only. -/
theorem keepsStore_getBarcodePrefix :
    KeepsStore (fun settings : Settings => StorablePrefix settings.barcodePrefix)
      getBarcodePrefix := by
  refine keepsStore_bind_of (Q := fun s => ∀ t ∈ s, ∀ b ∈ t, isprint b = true)
    (keepsStore_readKeys (onlyWaits_getString _ _).external) ?_ fun s hs => ?_
  · rintro s _ s' h t rfl
    unfold readKeys at h
    cases hread : getString [] 0 s.2 with
    | error e keys => simp [hread] at h
    | ok text keys =>
      simp only [hread, EStateM.Result.ok.injEq] at h
      obtain ⟨rfl, -⟩ := h
      exact editLoop_isprint (by simp) hread
  · cases s with
    | none => exact keepsStore_pure _
    | some s => exact keepsStore_setStore fun _ _ => storablePrefix_of_isprint (hs s rfl)

/-- Every storable prefix is stored by some text. -/
theorem exists_getBarcodePrefix {key : ℤ} (h : StorablePrefix key) (settings : Settings) :
    ∃ keys, getBarcodePrefix (settings, keys) =
      .ok () ({ settings with barcodePrefix := key }, []) := by
  obtain rfl | ⟨hlo, hhi⟩ := h
  · exact ⟨[keyEnter], rfl⟩
  · have hval : (charOfKey key).val = key.toNat := by
      have hmod : (key % 256).toNat = key.toNat := by omega
      have hlt : key.toNat < 256 := by omega
      simp [charOfKey, hmod, Fin.ofNat, Nat.mod_eq_of_lt hlt]
    have hprint : isprint (charOfKey key) = true := by
      simp only [isprint, hval, Bool.and_eq_true, decide_eq_true_eq]
      omega
    have hsigned : signedChar (charOfKey key) = key := by
      rw [signedChar, hval, if_pos (by omega)]
      omega
    have h1 : key ≠ keyEnter := by simp only [keyEnter]; omega
    have h2 : key ≠ keyEsc := by simp only [keyEsc]; omega
    have h3 : ¬(key = keyBackspace ∨ key = keyDelete) := by
      simp only [keyBackspace, keyDelete]
      omega
    refine ⟨[key, keyEnter], ?_⟩
    have hread : getString [] 0 [key, keyEnter] = .ok (some [charOfKey key]) [] := by
      change editLoop 0 [key, keyEnter] [] = _
      have hback : afterBackspace key [] = [] := by rw [afterBackspace, if_neg h3]
      have hnext : afterPrintable (-1) key [] = [charOfKey key] := by
        rw [afterPrintable, if_pos ⟨hprint, by decide⟩, List.nil_append]
      simp only [editLoop, h1, h2, hback, if_false, ne_eq, not_true_eq_false, hnext]
      rfl
    rw [getBarcodePrefix, bind_apply, readKeys, hread]
    simp only [setStore, modify_apply, List.headD_cons, hsigned]

/-- The menus of the program. -/
def ProgramMenu (m : Menu Settings) : Prop :=
  m = mainMenu ∨ m = settingsMenu ∨ m = peripherals ∨ m = barcodeScanner ∨
    m = printerSettings ∨ m = shopSettings ∨ m = submenu

/-- **The main menu** chooses items inside the menus only, and its only way to touch the
barcode prefix is `get_barcode_prefix`. -/
theorem startMainMenu_keeps {Q : ℤ → Prop}
    (hQ : KeepsStore (fun settings : Settings => Q settings.barcodePrefix) getBarcodePrefix) :
    KeepsStore (fun settings : Settings => Q settings.barcodePrefix) startMainMenu := by
  have hM : ∀ m, ProgramMenu m → m.options ≠ [] ∧ ∀ o ∈ m.options,
      o.2.Keeps ProgramMenu fun settings => Q settings.barcodePrefix := by
    rintro m (rfl | rfl | rfl | rfl | rfl | rfl | rfl) <;>
      simp [mainMenu, settingsMenu, peripherals, barcodeScanner, printerSettings, shopSettings,
        submenu, Menu.options, MenuItemData.Keeps, ProgramMenu, hQ]
  intro s hs
  have hrun : KeepsStore _ (runMenu (s.2.length + 1) mainMenu [label ""] 0) :=
    keepsStore_runMenu hM (s.2.length + 1) (.inl rfl) le_rfl (by simp [mainMenu, Menu.options])
  unfold startMainMenu
  cases h : runMenu (s.2.length + 1) mainMenu [label ""] 0 s with
  | ok exit s' =>
    constructor
    · rintro _ _ ⟨⟩
      exact (hrun s hs).1 exit s' h
    · rintro _ _ ⟨⟩
  | error e s' =>
    constructor
    · rintro _ _ ⟨⟩
    · rintro _ _ ⟨⟩
      exact (hrun s hs).2 e s' h

/-- The menus keep the barcode prefix storable. -/
theorem startMainMenu_storable {s s' : Settings × List Key}
    (hs : StorablePrefix s.1.barcodePrefix) (h : startMainMenu s = .ok () s') :
    StorablePrefix s'.1.barcodePrefix :=
  (startMainMenu_keeps keepsStore_getBarcodePrefix s hs).1 () s' h

/-- The menus halt only for reasons from outside. -/
theorem onlyHalts_startMainMenu : OnlyHalts External startMainMenu := by
  have htrue : KeepsStore (fun _ : Settings => True) getBarcodePrefix := by
    refine keepsStore_bind (keepsStore_readKeys (onlyWaits_getString _ _).external) fun s => ?_
    cases s with
    | none => exact keepsStore_pure _
    | some s => exact keepsStore_setStore fun _ _ => trivial
  intro s e s' h
  exact (startMainMenu_keeps (Q := fun _ => True) htrue s trivial).2 e s' h

end CliPos
