import CliPos.Analysis.MenuTexts
import CliPos.Analysis.OneCommand
import CliPos.Analysis.ReceiptStream

/-!
# The settings stay usable

The results about drawing, printing and the form assume things of the settings: positive
widths that an `int` holds, printable texts, a barcode prefix that is no key.  Nothing
checks them.  They come out of the ways the menu can set a variable: a text is the one it
was or typed, a number is one that `stoi` read from digits and dots and that is not zero
(`usable_startMainMenu`).
-/

set_option autoImplicit false

namespace CliPos

open Decimal Halting

/-! ## What an item sets -/

/-- **A text returned** is the placeholder, or typed. -/
theorem getString_shown_or_typed {s t : Str} {maxLength : ℤ} {keys rest : List Key}
    (h : getString s maxLength keys = .ok (some t) rest) : t = s ∨ Printable t := by
  by_cases hs : s = []
  · subst hs
    exact .inr (editLoop_isprint (by simp) h)
  · cases keys with
    | nil => simp [getString, hs] at h
    | cons key keys =>
      by_cases henter : key = keyEnter
      · simp only [getString, ne_eq, hs, not_false_eq_true, if_true, henter, not_true_eq_false,
          if_false, EStateM.Result.ok.injEq, Option.some.injEq] at h
        exact .inl h.1.symm
      · simp only [getString, ne_eq, hs, henter, not_false_eq_true, if_true] at h
        refine .inr (editLoop_isprint ?_ h)
        split_ifs with hprint
        · intro b hb
          rwa [List.mem_singleton.1 hb]
        · simp

/-- **A number read** that is not zero is positive and fits an `int`. -/
theorem stoi_range {text : Str} {n : ℤ} (h : stoi text = .ok n) (h0 : n ≠ 0) :
    0 < n ∧ n < 2 ^ 31 := by
  unfold stoi parseInteger at h
  split_ifs at h with hempty hfits
  obtain rfl := Except.ok.inj h
  omega

section Items

variable {σ : Type} {P : σ → Prop} {s s' : σ × List Key}

/-- **A text item** sets the text it shows, or one that was typed. -/
theorem runStringItem_eq_ok {get : σ → Str} {put : Str → σ → σ}
    (h : runStringItem get put s = .ok () s') :
    s'.1 = s.1 ∨ ∃ v, (v = get s.1 ∨ Printable v) ∧ s'.1 = put v s.1 := by
  obtain ⟨_, _, hget, h⟩ := bind_eq_ok.1 h
  rw [get_apply] at hget
  cases hget
  obtain ⟨text, t, hread, h⟩ := bind_eq_ok.1 h
  obtain ⟨rest, htyped, rfl⟩ := readKeys_eq_ok.1 hread
  cases text with
  | none =>
    simp only [pure_apply, EStateM.Result.ok.injEq, true_and] at h
    exact .inl (h ▸ rfl)
  | some v =>
    simp only [setStore, modify_apply, EStateM.Result.ok.injEq, true_and] at h
    exact .inr ⟨v, getString_shown_or_typed htyped, by rw [← h]⟩

/-- **A number item** sets a positive number. -/
theorem runIntItem_eq_ok {get : σ → ℤ} {put : ℤ → σ → σ}
    (h : runIntItem get put s = .ok () s') :
    s'.1 = s.1 ∨ ∃ n, 0 < n ∧ n < 2 ^ 31 ∧ s'.1 = put n s.1 := by
  obtain ⟨_, _, hget, h⟩ := bind_eq_ok.1 h
  rw [get_apply] at hget
  cases hget
  obtain ⟨text, t, hread, h⟩ := bind_eq_ok.1 h
  obtain ⟨rest, -, rfl⟩ := readKeys_eq_ok.1 hread
  cases text with
  | none =>
    simp only [pure_apply, EStateM.Result.ok.injEq, true_and] at h
    exact .inl (h ▸ rfl)
  | some text =>
    simp only [bind_eq_ok, orThrow_eq_ok] at h
    obtain ⟨n, _, ⟨hn, rfl⟩, h⟩ := h
    by_cases h0 : n ≠ 0
    · simp only [if_pos h0, setStore, modify_apply, EStateM.Result.ok.injEq, true_and] at h
      obtain ⟨hpos, hlt⟩ := stoi_range hn h0
      exact .inr ⟨n, hpos, hlt, by rw [← h]⟩
    · simp only [if_neg h0, pure_apply, EStateM.Result.ok.injEq, true_and] at h
      exact .inl (h ▸ rfl)

/-- A text item keeps what its own text and every printable text keep. -/
theorem keepsStore_typed {get : σ → Str} {put : Str → σ → σ}
    (hput : ∀ v s, P s → (v = get s ∨ Printable v) → P (put v s)) :
    KeepsStore P (MenuItemData.stringItem get put).action := by
  intro s hs
  have hhalts := (@keepsStore_runStringItem σ (fun _ => True) get put (by simp) s trivial).2
  refine ⟨fun _ s' h => ?_, hhalts⟩
  obtain hsame | ⟨v, hv, hset⟩ := runStringItem_eq_ok h
  · rwa [hsame]
  · rw [hset]
    exact hput v s.1 hs hv

/-- An integer item keeps what every positive `int` keeps. -/
theorem keepsStore_positive {get : σ → ℤ} {put : ℤ → σ → σ}
    (hput : ∀ n s, P s → 0 < n → n < 2 ^ 31 → P (put n s)) :
    KeepsStore P (MenuItemData.intItem get put).action := by
  intro s hs
  have hhalts := (@keepsStore_runIntItem σ (fun _ => True) get put (by simp) s trivial).2
  refine ⟨fun _ s' h => ?_, hhalts⟩
  obtain hsame | ⟨n, hpos, hlt, hset⟩ := runIntItem_eq_ok h
  · rwa [hsame]
  · rw [hset]
    exact hput n s.1 hs hpos hlt

end Items

/-! ## The settings -/

/-- The widths are positive and fit an `int`, the texts are printable, and the barcode
prefix is a character or 0. -/
structure Usable (s : Settings) : Prop where
  maxNameLength : 0 < s.maxNameLength ∧ s.maxNameLength < 2 ^ 31
  nrOfNewlines : 0 < s.nrOfNewlines ∧ s.nrOfNewlines < 2 ^ 31
  shopName : Printable s.shopName
  shopCode : Printable s.shopCode
  shopAddres : Printable s.shopAddres
  printerDeviceFile : Printable s.printerDeviceFile
  barcodePrefix : StorablePrefix s.barcodePrefix

/-- The settings that the program starts with are usable. -/
theorem usable_defaultSettings : Usable defaultSettings where
  maxNameLength := by decide
  nrOfNewlines := by decide
  shopName := by decide
  shopCode := by decide
  shopAddres := by decide
  printerDeviceFile := by decide
  barcodePrefix := by decide

/-- `get_barcode_prefix` keeps the settings usable. -/
theorem keepsStore_prefix : KeepsStore Usable getBarcodePrefix := by
  intro s hs
  have hprefix := keepsStore_getBarcodePrefix s hs.barcodePrefix
  refine ⟨fun _ s' h => ?_, hprefix.2⟩
  have hstorable := hprefix.1 () s' h
  obtain ⟨text, t, hread, h⟩ := bind_eq_ok.1 h
  obtain ⟨rest, -, rfl⟩ := readKeys_eq_ok.1 hread
  cases text with
  | none =>
    simp only [pure_apply, EStateM.Result.ok.injEq, true_and] at h
    rwa [← h]
  | some text =>
    simp only [setStore, modify_apply, EStateM.Result.ok.injEq, true_and] at h
    subst h
    exact { hs with barcodePrefix := hstorable }

/-- What the menu rule asks of an item. -/
def ItemKeeps (item : MenuItemData Settings) : Prop :=
  (∀ m, item = .submenu m → ProgramMenu m) ∧ KeepsStore Usable item.action

/-- A submenu keeps what its items keep. -/
theorem itemKeeps_submenu {m : Menu Settings} (hm : ProgramMenu m) : ItemKeeps (.submenu m) := by
  refine ⟨?_, keepsStore_pure _⟩
  rintro _ ⟨⟩
  exact hm

/-- Any other item keeps what its action keeps. -/
theorem itemKeeps_of_action {item : MenuItemData Settings} (hitem : ∀ m, item ≠ .submenu m)
    (h : KeepsStore Usable item.action) : ItemKeeps item :=
  ⟨fun m hm => absurd hm (hitem m), h⟩

/-- A text item keeps the settings usable. -/
theorem itemKeeps_text {get : Settings → Str} {put : Str → Settings → Settings}
    (hget : ∀ s, Usable s → Printable (get s))
    (hput : ∀ v s, Usable s → Printable v → Usable (put v s)) :
    ItemKeeps (.stringItem get put) := by
  refine itemKeeps_of_action (by simp) (keepsStore_typed fun v s hs hv => hput v s hs ?_)
  rcases hv with rfl | hv
  · exact hget s hs
  · exact hv

/-- So does a number item. -/
theorem itemKeeps_number {get : Settings → ℤ} {put : ℤ → Settings → Settings}
    (hput : ∀ n s, Usable s → 0 < n → n < 2 ^ 31 → Usable (put n s)) :
    ItemKeeps (.intItem get put) :=
  itemKeeps_of_action (by simp) (keepsStore_positive hput)

/-- **Every item of the program's menus** keeps the settings usable. -/
theorem itemKeeps_of_programMenu {m : Menu Settings} (hm : ProgramMenu m) :
    ∀ o ∈ m.options, ItemKeeps o.2 := by
  have hexit : ItemKeeps .exitItem := itemKeeps_of_action (by simp) (keepsStore_pure _)
  have hsettings : ItemKeeps (.submenu settingsMenu) := itemKeeps_submenu (by simp [ProgramMenu])
  have hshop : ItemKeeps (.submenu shopSettings) := itemKeeps_submenu (by simp [ProgramMenu])
  have hperipherals : ItemKeeps (.submenu peripherals) :=
    itemKeeps_submenu (by simp [ProgramMenu])
  have hprinter : ItemKeeps (.submenu printerSettings) :=
    itemKeeps_submenu (by simp [ProgramMenu])
  have hscanner : ItemKeeps (.submenu barcodeScanner) :=
    itemKeeps_submenu (by simp [ProgramMenu])
  have hsub : ItemKeeps (.submenu submenu) := itemKeeps_submenu (by simp [ProgramMenu])
  rcases hm with rfl | rfl | rfl | rfl | rfl | rfl | rfl
  · exact List.forall_mem_cons.2 ⟨hexit, List.forall_mem_singleton.2 hsettings⟩
  · exact List.forall_mem_cons.2 ⟨hshop, List.forall_mem_cons.2 ⟨hperipherals,
      List.forall_mem_cons.2 ⟨hsub, List.forall_mem_singleton.2 hsub⟩⟩⟩
  · exact List.forall_mem_cons.2 ⟨hprinter, List.forall_mem_singleton.2 hscanner⟩
  · exact List.forall_mem_singleton.2 (itemKeeps_of_action (by simp) keepsStore_prefix)
  · refine List.forall_mem_cons.2 ⟨?_, List.forall_mem_cons.2 ⟨?_,
      List.forall_mem_singleton.2 ?_⟩⟩
    · exact itemKeeps_text (fun _ hs => hs.printerDeviceFile)
        fun _ _ hs hv => { hs with printerDeviceFile := hv }
    · exact itemKeeps_number fun _ _ hs hpos hlt => { hs with maxNameLength := ⟨hpos, hlt⟩ }
    · exact itemKeeps_number fun _ _ hs hpos hlt => { hs with nrOfNewlines := ⟨hpos, hlt⟩ }
  · refine List.forall_mem_cons.2 ⟨?_, List.forall_mem_cons.2 ⟨?_,
      List.forall_mem_singleton.2 ?_⟩⟩
    · exact itemKeeps_text (fun _ hs => hs.shopName) fun _ _ hs hv => { hs with shopName := hv }
    · exact itemKeeps_text (fun _ hs => hs.shopCode) fun _ _ hs hv => { hs with shopCode := hv }
    · exact itemKeeps_text (fun _ hs => hs.shopAddres)
        fun _ _ hs hv => { hs with shopAddres := hv }
  · exact List.forall_mem_singleton.2 hexit

/-- **The main menu keeps the settings usable**, whatever is typed in it. -/
theorem usable_startMainMenu {s s' : Settings × List Key} (hs : Usable s.1)
    (h : startMainMenu s = .ok () s') : Usable s'.1 := by
  have hoptions : ∀ m, ProgramMenu m → m.options ≠ [] := by
    rintro m (rfl | rfl | rfl | rfl | rfl | rfl | rfl) <;> exact List.cons_ne_nil _ _
  have hrun : KeepsStore Usable (runMenu (s.2.length + 1) mainMenu [label ""] 0) :=
    keepsStore_runMenu_of (fun m hm => ⟨hoptions m hm, itemKeeps_of_programMenu hm⟩)
      (s.2.length + 1) (.inl rfl) le_rfl (by simp [mainMenu, Menu.options])
  unfold startMainMenu at h
  cases hmenu : runMenu (s.2.length + 1) mainMenu [label ""] 0 s with
  | error e s₁ => simp [hmenu] at h
  | ok exit s₁ =>
    simp only [hmenu, EStateM.Result.ok.injEq, true_and] at h
    exact h ▸ (hrun s hs).1 exit s₁ hmenu

/-- **ESC** leaves what the menu left. -/
theorem menuCommand_startMainMenu {w w' : World} (h : menuCommand w = .ok () w') :
    ∃ settings keys, startMainMenu (w.settings, w.keys) = .ok () (settings, keys) ∧
      w' = { w with settings := settings, keys := keys } := by
  unfold menuCommand at h
  cases hm : startMainMenu (w.settings, w.keys) with
  | error e s => simp [hm] at h
  | ok u s =>
    obtain ⟨settings, keys⟩ := s
    simp only [hm, EStateM.Result.ok.injEq, true_and] at h
    exact ⟨settings, keys, rfl, h.symm⟩

/-- **Every command keeps the settings usable.** -/
theorem usable_step {srv : Server} {lines : ℤ} {w w' : World} {c : Command}
    (h : Usable w.settings) (hbody : c.body srv lines w = .ok () w') : Usable w'.settings := by
  by_cases hc : c = .menu
  · subst hc
    obtain ⟨settings, keys, hmenu, rfl⟩ := menuCommand_startMainMenu hbody
    exact usable_startMainMenu h hmenu
  · rwa [body_settings hc hbody]

end CliPos
