import CliPos.Analysis.FormTexts

/-!
# The texts of the menus

An item that sets a number converts the text typed, and ends the program when the text is
not accepted.  `menuPrompts` lists the numbers typed in a menu session, and
`haltsFor_runMenu` shows that the session ends the program exactly when one of them is
rejected.
-/

set_option autoImplicit false

namespace CliPos

open Decimal Halting

variable {σ : Type}

/-! ## One item -/

/-- A text typed at an item that sets a number. -/
inductive NumberPrompt where
  | int (text : Str)
  | float (text : Str)

/-- The item's conversion accepts the text. -/
def NumberPrompt.Accepted : NumberPrompt → Prop
  | .int text => IntegerText (2 ^ 31 - 1) text
  | .float text => FloatText binary32 text

/-- The number typed when an item is chosen. -/
def MenuItemData.typed (item : MenuItemData σ) (s : σ × List Key) : List NumberPrompt :=
  match item with
  | .intItem get _ =>
    match getString (intText (get s.1)) 0 s.2 with
    | .ok (some text) _ => [.int text]
    | _ => []
  | .floatItem get _ =>
    match getString (doubleText (get s.1)) 0 s.2 with
    | .ok (some text) _ => [.float text]
    | _ => []
  | _ => []

/-- Reading keys in a menu halts where it halts by itself. -/
theorem haltsFor_readKeys {α : Type} {m : Input α} {s : σ × List Key} :
    HaltsFor Halt.OfInput (readKeys m) s ↔ HaltsFor Halt.OfInput m s.2 := by
  unfold HaltsFor readKeys
  cases m s.2 <;> simp

/-- It changes the keys, and nothing else. -/
theorem readKeys_eq_ok {α : Type} {m : Input α} {s s' : σ × List Key} {a : α} :
    readKeys m s = .ok a s' ↔ ∃ keys, m s.2 = .ok a keys ∧ s' = (s.1, keys) := by
  unfold readKeys
  cases m s.2 <;> simp [eq_comm]

/-- Setting a value halts for no text. -/
theorem not_haltsFor_setStore (f : σ → σ) (s : σ × List Key) :
    ¬HaltsFor Halt.OfInput (setStore f) s := haltsFor_modify _ _

/-- An item that reads a text, converts it and sets a number that is not 0. -/
theorem haltsFor_numberItem {α : Type} {read : σ → Input (Option Str)}
    {convert : Str → Except Exception α} {finish : α → MenuM σ Unit}
    (hread : ∀ st, OnlyWaits (read st))
    (hfinish : ∀ a s, ¬HaltsFor Halt.OfInput (finish a) s) {s : σ × List Key} :
    HaltsFor Halt.OfInput (do
      let (st, _) ← (get : MenuM σ (σ × List Key))
      match ← readKeys (read st) with
      | none => return ()
      | some str =>
        let a ← orThrow (convert str)
        finish a : MenuM σ Unit) s ↔
      ∃ text rest, read s.1 s.2 = .ok (some text) rest ∧
        ∃ d, convert text = .error d ∧ (Halt.thrown d).OfInput := by
  rw [haltsFor_bind, or_iff_right (haltsFor_get _)]
  constructor
  · rintro ⟨_, _, ⟨⟩, h⟩
    rw [haltsFor_bind, haltsFor_readKeys, or_iff_right (not_haltsFor_of_waiting (hread _) _)] at h
    obtain ⟨text, t, htext, h⟩ := h
    obtain ⟨rest, hkeys, rfl⟩ := readKeys_eq_ok.1 htext
    cases text with
    | none => exact absurd h (haltsFor_pure _ _)
    | some text =>
      refine ⟨text, rest, hkeys, ?_⟩
      rw [haltsFor_bind, haltsFor_orThrow] at h
      rcases h with h | ⟨a, t, -, h⟩
      · exact h
      · exact absurd h (hfinish a t)
  · rintro ⟨text, rest, hkeys, h⟩
    refine ⟨s, s, rfl, haltsFor_bind.2 (.inr ⟨some text, (s.1, rest), ?_, ?_⟩)⟩
    · exact readKeys_eq_ok.2 ⟨rest, hkeys, rfl⟩
    · exact haltsFor_bind.2 (.inl (haltsFor_orThrow.2 h))

/-- Neither does setting one that is not zero. -/
theorem not_haltsFor_setNonzero {α : Type} [Zero α] [DecidableEq α] (put : α → σ → σ) (a : α)
    (s : σ × List Key) :
    ¬HaltsFor Halt.OfInput (if a ≠ 0 then setStore (put a) else pure () : MenuM σ Unit) s := by
  by_cases ha : a ≠ 0
  · rw [if_pos ha]
    exact not_haltsFor_setStore _ _
  · rw [if_neg ha]
    exact haltsFor_pure _ _

/-- **An `int_item` ends the program** exactly when a text is typed that `stoi` rejects. -/
theorem haltsFor_runIntItem {get : σ → ℤ} {put : ℤ → σ → σ} {s : σ × List Key} :
    HaltsFor Halt.OfInput (runIntItem get put) s ↔
      ∃ text rest, getString (intText (get s.1)) 0 s.2 = .ok (some text) rest ∧
        ¬IntegerText (2 ^ 31 - 1) text := by
  simp only [← parseInteger_rejects_iff]
  exact haltsFor_numberItem (fun _ => onlyWaits_getString _ _) (not_haltsFor_setNonzero put)

/-- **A `float_item` ends the program** exactly when a text is typed that `stof` rejects. -/
theorem haltsFor_runFloatItem {get : σ → ℚ} {put : ℚ → σ → σ} {s : σ × List Key} :
    HaltsFor Halt.OfInput (runFloatItem get put) s ↔
      ∃ text rest, getString (doubleText (get s.1)) 0 s.2 = .ok (some text) rest ∧
        ¬FloatText binary32 text := by
  simp only [← parseFloat_rejects_iff]
  exact haltsFor_numberItem (fun _ => onlyWaits_getString _ _) (not_haltsFor_setNonzero put)

/-! ## A menu session -/

/-- The numbers typed while a menu runs: those typed at the item chosen, and those typed
afterwards. -/
def menuPrompts : ℕ → Menu σ → List Str → ℤ → σ × List Key → List NumberPrompt
  | 0, _, _, _, _ => []
  | fuel + 1, menu, menuLabels, selection, s =>
    match readKeys (fun keys => selectionList menu.options.length keys selection) s with
    | .ok (some output) s =>
      match elementAt menu.options output with
      | none => []
      | some (_, .exitItem) => []
      | some (name, .submenu m) =>
        menuPrompts fuel m (menuLabels ++ [name]) 0 s ++
          match runMenu fuel m (menuLabels ++ [name]) 0 s with
          | .ok false s => menuPrompts fuel menu (menuLabels ++ [name]).dropLast output s
          | _ => []
      | some (_, item) =>
        item.typed s ++
          match item.action s with
          | .ok () s => menuPrompts fuel menu menuLabels output s
          | .error _ _ => []
    | _ => []

/-- The item's submenu is one of `M`, and its function converts nothing. -/
def MenuItemData.Quiet (M : Menu σ → Prop) : MenuItemData σ → Prop
  | .submenu m => M m
  | .funct action => ∀ s, ¬HaltsFor Halt.OfInput action s
  | _ => True

/-- **An item ends the program** exactly when the text typed there is not accepted. -/
theorem haltsFor_action {M : Menu σ → Prop} {item : MenuItemData σ} (hquiet : item.Quiet M)
    (s : σ × List Key) :
    HaltsFor Halt.OfInput item.action s ↔ ∃ p ∈ item.typed s, ¬p.Accepted := by
  cases item with
  | submenu m => exact iff_of_false (haltsFor_pure _ _) (by simp [MenuItemData.typed])
  | exitItem => exact iff_of_false (haltsFor_pure _ _) (by simp [MenuItemData.typed])
  | funct action => exact iff_of_false (hquiet s) (by simp [MenuItemData.typed])
  | boolItem get put =>
    exact iff_of_false (not_haltsFor_setStore _ _) (by simp [MenuItemData.typed])
  | stringItem get put =>
    refine iff_of_false ?_ (by simp [MenuItemData.typed])
    refine not_haltsFor_of_waiting (onlyHalts_bind onlyHalts_get fun st => ?_) s
    refine onlyHalts_bind ?_ fun str => ?_
    · intro t e t' h
      unfold readKeys at h
      cases hread : getString (get st.1) 0 t.2 with
      | ok text keys => simp [hread] at h
      | error d keys =>
        simp only [hread, EStateM.Result.error.injEq] at h
        exact h.1 ▸ getString_error hread
    · cases str with
      | none => exact onlyHalts_pure _
      | some str => exact onlyHalts_modify _
  | intItem get put =>
    rw [MenuItemData.action, haltsFor_runIntItem, MenuItemData.typed]
    cases getString (intText (get s.1)) 0 s.2 with
    | error e keys => simp
    | ok text keys => cases text <;> simp [NumberPrompt.Accepted]
  | floatItem get put =>
    rw [MenuItemData.action, haltsFor_runFloatItem, MenuItemData.typed]
    cases getString (doubleText (get s.1)) 0 s.2 with
    | error e keys => simp
    | ok text keys => cases text <;> simp [NumberPrompt.Accepted]

/-- An item and what the menu does afterwards. -/
theorem haltsFor_action_bind {M : Menu σ → Prop} {item : MenuItemData σ}
    (hquiet : item.Quiet M) {rest : MenuM σ Bool} {prompts : σ × List Key → List NumberPrompt}
    (hrest : ∀ t, HaltsFor Halt.OfInput rest t ↔ ∃ p ∈ prompts t, ¬p.Accepted)
    (s : σ × List Key) :
    HaltsFor Halt.OfInput (item.action >>= fun _ => rest) s ↔
      ∃ p ∈ item.typed s ++ (match item.action s with
        | .ok () t => prompts t
        | .error _ _ => []), ¬p.Accepted := by
  simp only [haltsFor_bind, haltsFor_action hquiet, List.mem_append, or_and_right, exists_or]
  refine or_congr_right ?_
  cases item.action s with
  | error e t => simp
  | ok u t =>
    constructor
    · rintro ⟨_, _, ⟨⟩, h⟩
      exact (hrest t).1 h
    · intro h
      exact ⟨(), t, rfl, (hrest t).2 h⟩

/-- **A menu session ends the program** exactly when one of the numbers typed is not
accepted. -/
theorem haltsFor_runMenu {M : Menu σ → Prop}
    (hM : ∀ m, M m → ∀ o ∈ m.options, o.2.Quiet M) (fuel : ℕ) {menu : Menu σ} (hm : M menu)
    (menuLabels : List Str) (sel : ℤ) (s : σ × List Key) :
    HaltsFor Halt.OfInput (runMenu fuel menu menuLabels sel) s ↔
      ∃ p ∈ menuPrompts fuel menu menuLabels sel s, ¬p.Accepted := by
  induction fuel generalizing menu menuLabels sel s with
  | zero =>
    refine iff_of_false ?_ (by simp [menuPrompts])
    exact fun h => (haltsFor_throw _ _).1 h
  | succ fuel ih =>
    have hselect : ¬HaltsFor Halt.OfInput
        (readKeys (fun keys => selectionList menu.options.length keys sel) : MenuM σ _) s :=
      fun h => not_haltsFor_of_waiting (onlyWaits_selectionList _ _) _ (haltsFor_readKeys.1 h)
    rw [runMenu, menuPrompts, haltsFor_bind, or_iff_right hselect]
    cases hsel : readKeys (fun keys => selectionList menu.options.length keys sel) s with
    | error e t => simp
    | ok out t =>
      cases out with
      | none =>
        refine iff_of_false ?_ (by simp)
        rintro ⟨_, _, ⟨⟩, h⟩
        exact haltsFor_pure _ _ h
      | some output =>
        have hagain := fun labels t => ih hm labels output t
        have hfirst : ∀ f : Option ℤ → MenuM σ Bool, (∃ a t', EStateM.Result.ok (some output) t =
            (.ok a t' : EStateM.Result Halt (σ × List Key) (Option ℤ)) ∧
            HaltsFor Halt.OfInput (f a) t') ↔ HaltsFor Halt.OfInput (f (some output)) t := by
          intro f
          constructor
          · rintro ⟨_, _, ⟨⟩, h⟩
            exact h
          · intro h
            exact ⟨_, _, rfl, h⟩
        rw [hfirst]
        simp only
        cases hitem : elementAt menu.options output with
        | none => exact iff_of_false (fun h => (haltsFor_throw _ _).1 h) (by simp)
        | some o =>
          obtain ⟨name, item⟩ := o
          have hquiet := hM menu hm (name, item) (elementAt_eq_some hitem)
          cases item with
          | exitItem => exact iff_of_false (haltsFor_pure _ _) (by simp)
          | submenu m =>
            simp only [haltsFor_bind, List.mem_append, or_and_right, exists_or]
            refine or_congr (ih hquiet _ _ _) ?_
            cases hrun : runMenu fuel m (menuLabels ++ [name]) 0 t with
            | error e t' => simp
            | ok exit t' =>
              cases exit with
              | true =>
                refine iff_of_false ?_ (by simp)
                rintro ⟨_, _, ⟨⟩, h⟩
                exact haltsFor_pure _ _ h
              | false =>
                constructor
                · rintro ⟨_, _, ⟨⟩, h⟩
                  exact (hagain _ t').1 h
                · intro h
                  exact ⟨false, t', rfl, (hagain _ t').2 h⟩
          | funct action => exact haltsFor_action_bind hquiet (hagain menuLabels) t
          | boolItem get put => exact haltsFor_action_bind hquiet (hagain menuLabels) t
          | stringItem get put => exact haltsFor_action_bind hquiet (hagain menuLabels) t
          | intItem get put => exact haltsFor_action_bind hquiet (hagain menuLabels) t
          | floatItem get put => exact haltsFor_action_bind hquiet (hagain menuLabels) t

/-! ## The main menu -/

/-- `get_barcode_prefix` converts nothing. -/
theorem quiet_getBarcodePrefix (s : Settings × List Key) :
    ¬HaltsFor Halt.OfInput getBarcodePrefix s := by
  unfold getBarcodePrefix
  rw [haltsFor_bind, haltsFor_readKeys,
    or_iff_right (not_haltsFor_of_waiting (onlyWaits_getString _ _) _)]
  rintro ⟨text, t, -, h⟩
  cases text with
  | none => exact haltsFor_pure _ _ h
  | some text => exact not_haltsFor_setStore _ _ h

/-- The numbers typed in the main menu. -/
def mainMenuPrompts (s : Settings × List Key) : List NumberPrompt :=
  menuPrompts (s.2.length + 1) mainMenu [label ""] 0 s

/-- **The main menu ends the program** exactly when a number typed there is not
accepted. -/
theorem haltsFor_startMainMenu (s : Settings × List Key) :
    HaltsFor Halt.OfInput startMainMenu s ↔ ∃ p ∈ mainMenuPrompts s, ¬p.Accepted := by
  have hM : ∀ m, ProgramMenu m → ∀ o ∈ m.options, o.2.Quiet ProgramMenu := by
    rintro m (rfl | rfl | rfl | rfl | rfl | rfl | rfl) <;>
      simp [mainMenu, settingsMenu, peripherals, barcodeScanner, printerSettings, shopSettings,
        submenu, Menu.options, MenuItemData.Quiet, ProgramMenu, quiet_getBarcodePrefix]
  rw [mainMenuPrompts, ← haltsFor_runMenu hM _ (.inl rfl)]
  unfold HaltsFor startMainMenu
  cases runMenu (s.2.length + 1) mainMenu [label ""] 0 s <;> simp

end CliPos
