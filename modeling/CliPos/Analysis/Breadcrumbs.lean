import CliPos.Lib.Logging
import CliPos.Analysis.MenuTexts

/-!
# The breadcrumbs of the menus

`run_menu` hands `menu_labels` to the menu of a submenu with one label more, and drops that
label again with `menu_labels.erase(menu_labels.end())`.  The end of a vector is no element of
it, so the labels are right, and every `erase` is valid, exactly as long as no submenu is left
again (`breadcrumbs_iff`).  Where the library's `erase` takes the end for the last element, the
labels are right all the same (`labelled_dropLast`).
-/

set_option autoImplicit false

namespace CliPos

open Decimal Halting Halting.Logged

variable {σ : Type} {menu m : Menu σ} {selection output : ℤ} {name : Str}
  {item : MenuItemData σ} {s t u : σ × List Key} {exit : Bool} {fuel fuel' : ℕ}
  {path labels initial : List Str} {eraseEnd : List Str → List Str}

/-! ## The labels -/

/-- What `run_menu` does with `menu_labels`. -/
inductive LabelEvent where
  /-- The labels as a menu is drawn, behind the labels of the submenus on the way to it. -/
  | draw (path labels : List Str)
  /-- `erase` at a position of so many labels. -/
  | erase (position size : ℕ)

/-- The item chosen in a menu, with its index; nothing on ESC. -/
def pick (menu : Menu σ) (selection : ℤ) : MenuM σ (Option (ℤ × Str × MenuItemData σ)) := do
  match ← readKeys fun keys => selectionList menu.options.length keys selection with
  | none => return none
  | some output =>
    match elementAt menu.options output with
    | none => throw (.undefined .menuOption)
    | some o => return some (output, o)

/-- `run_menu` with a log of its labels; `path` are those of the submenus on the way from the
root.  The language does not say what `erase` at the end leaves: here it is `eraseEnd`. -/
def labelledMenu (eraseEnd : List Str → List Str) :
    ℕ → Menu σ → (path labels : List Str) → ℤ → Logged Halt (σ × List Key) LabelEvent Bool
  | 0, _, _, _, _ => liftM (throw .waiting : MenuM σ Bool)
  | fuel + 1, menu, path, labels, selection => do
    emit (.draw path labels)
    match ← (pick menu selection : MenuM σ _) with
    | none => return false
    | some (output, name, .submenu m) =>
      let exit ← labelledMenu eraseEnd fuel m (path ++ [name]) (labels ++ [name]) 0
      emit (.erase (labels ++ [name]).length (labels ++ [name]).length)
      if exit then return true
      else labelledMenu eraseEnd fuel menu path (eraseEnd (labels ++ [name])) output
    | some (_, _, .exitItem) => return true
    | some (output, _, item) =>
      item.action
      labelledMenu eraseEnd fuel menu path labels output

/-- An item that neither opens a menu nor leaves one. -/
def MenuItemData.Acts : MenuItemData σ → Prop
  | .submenu _ | .exitItem => False
  | _ => True

/-- What becomes of a choice: the menu halts before one is made, it is left by ESC, or an item
is chosen, which opens a submenu, leaves the menus, or acts. -/
inductive Picked (menu : Menu σ) (selection : ℤ) (s : σ × List Key) : Prop
  | halts {e : Halt} {t : σ × List Key} (hpick : pick menu selection s = .error e t)
  | esc {t : σ × List Key} (hpick : pick menu selection s = .ok none t)
  | submenu {output : ℤ} {name : Str} {m : Menu σ} {t : σ × List Key}
    (hpick : pick menu selection s = .ok (some (output, name, .submenu m)) t)
  | exit {output : ℤ} {name : Str} {t : σ × List Key}
    (hpick : pick menu selection s = .ok (some (output, name, .exitItem)) t)
  | acts {output : ℤ} {name : Str} {item : MenuItemData σ} {t : σ × List Key}
    (hpick : pick menu selection s = .ok (some (output, name, item)) t) (hacts : item.Acts)

/-- A round of a menu ends in one of these ways. -/
theorem picked (menu : Menu σ) (selection : ℤ) (s : σ × List Key) : Picked menu selection s := by
  cases hpick : pick menu selection s with
  | error e t => exact .halts hpick
  | ok choice t =>
    cases choice with
    | none => exact .esc hpick
    | some choice =>
      obtain ⟨output, name, item⟩ := choice
      cases item with
      | submenu m => exact .submenu hpick
      | exitItem => exact .exit hpick
      | _ => exact .acts hpick trivial

/-! ## One round of `run_menu` -/

/-- ESC leaves the menu. -/
theorem runMenu_none (hpick : pick menu selection s = .ok none t) :
    runMenu (fuel + 1) menu labels selection s = .ok false t := by
  simp only [pick, bind_eq_ok] at hpick
  obtain ⟨output, v, hread, hpick⟩ := hpick
  rw [runMenu, bind_apply, hread]
  cases output with
  | none =>
    cases hpick
    rfl
  | some output =>
    dsimp only at hpick
    cases helement : elementAt menu.options output <;> rw [helement] at hpick <;> cases hpick

/-- What is picked is an item of the menu, at the place highlighted. -/
theorem pick_eq_some (hpick : pick menu selection s = .ok (some (output, name, item)) t) :
    readKeys (fun keys => selectionList menu.options.length keys selection) s =
      .ok (some output) t ∧ elementAt menu.options output = some (name, item) := by
  simp only [pick, bind_eq_ok] at hpick
  obtain ⟨chosen, v, hread, hpick⟩ := hpick
  cases chosen with
  | none => cases hpick
  | some i =>
    dsimp only at hpick
    cases helement : elementAt menu.options i with
    | none =>
      rw [helement] at hpick
      cases hpick
    | some o =>
      rw [helement] at hpick
      cases hpick
      exact ⟨hread, helement⟩

/-- A submenu is run first, and the menu goes on unless an exit item was chosen in it. -/
theorem runMenu_submenu
    (hpick : pick menu selection s = .ok (some (output, name, .submenu m)) t) :
    runMenu (fuel + 1) menu labels selection s =
      (do
        let exit ← runMenu fuel m (labels ++ [name]) 0
        if exit then return true else runMenu fuel menu labels output : MenuM σ Bool) t := by
  obtain ⟨hread, helement⟩ := pick_eq_some hpick
  rw [runMenu, bind_apply, hread]
  dsimp only
  rw [helement]
  dsimp only
  rw [List.dropLast_concat]

/-- An exit item leaves the menu, and those above it. -/
theorem runMenu_exit (hpick : pick menu selection s = .ok (some (output, name, .exitItem)) t) :
    runMenu (fuel + 1) menu labels selection s = .ok true t := by
  obtain ⟨hread, helement⟩ := pick_eq_some hpick
  rw [runMenu, bind_apply, hread]
  dsimp only
  rw [helement]
  rfl

/-- An item that acts does so, and the menu goes on. -/
theorem runMenu_acts (hpick : pick menu selection s = .ok (some (output, name, item)) t)
    (hacts : item.Acts) : runMenu (fuel + 1) menu labels selection s =
      (do item.action; runMenu fuel menu labels output : MenuM σ Bool) t := by
  obtain ⟨hread, helement⟩ := pick_eq_some hpick
  rw [runMenu, bind_apply, hread]
  dsimp only
  rw [helement]
  cases item with
  | submenu m => exact hacts.elim
  | exitItem => exact hacts.elim
  | _ => rfl

/-- A round that halts ends the menu. -/
theorem runMenu_halts {e : Halt} (hpick : pick menu selection s = .error e t) :
    runMenu (fuel + 1) menu labels selection s = .error e t := by
  rw [pick, bind_apply] at hpick
  rw [runMenu, bind_apply]
  cases hread : readKeys (fun keys => selectionList menu.options.length keys selection) s with
  | error d v =>
    rw [hread] at hpick
    cases hpick
    rfl
  | ok output v =>
    rw [hread] at hpick
    cases output with
    | none => cases hpick
    | some output =>
      dsimp only at hpick ⊢
      cases helement : elementAt menu.options output with
      | none =>
        rw [helement] at hpick
        cases hpick
        rfl
      | some o =>
        rw [helement] at hpick
        cases hpick

/-- **Without its log** `labelledMenu` is `run_menu`, whatever the labels are. -/
theorem erased_labelledMenu (labels' : List Str) :
    erased (labelledMenu eraseEnd fuel menu path labels selection) =
      runMenu fuel menu labels' selection := by
  induction fuel generalizing menu path labels selection labels' with
  | zero => rfl
  | succ fuel ih =>
    funext s
    rw [labelledMenu, erased_bind, erased_emit, bind_apply, pure_apply]
    dsimp only
    rw [erased_bind, erased_lift, bind_apply]
    cases picked menu selection s with
    | halts hpick =>
      rw [hpick]
      exact (runMenu_halts hpick).symm
    | esc hpick =>
      rw [hpick]
      exact (runMenu_none hpick).symm
    | @submenu _ name _ _ hpick =>
      rw [hpick, runMenu_submenu hpick]
      dsimp only
      rw [erased_bind, ih (labels' ++ [name])]
      simp only [erased_bind, erased_emit, erased_ite, erased_pure, ih labels']
      rfl
    | exit hpick =>
      rw [hpick]
      exact (runMenu_exit hpick).symm
    | @acts _ _ item _ hpick hacts =>
      rw [hpick, runMenu_acts hpick hacts]
      dsimp only
      cases item with
      | submenu m => exact hacts.elim
      | exitItem => exact hacts.elim
      | _ =>
        dsimp only
        rw [erased_bind, erased_lift, ih labels']

/-! ## Leaving a menu -/

/-- A menu is left, with the exit flag: by ESC, or by an exit item of its own or of a submenu;
before that, submenus are left by ESC and other items act. -/
inductive Left : Menu σ → ℤ → σ × List Key → Bool → σ × List Key → Prop
  | esc {menu : Menu σ} {selection : ℤ} {s t : σ × List Key}
    (hpick : pick menu selection s = .ok none t) : Left menu selection s false t
  | exit {menu : Menu σ} {selection output : ℤ} {name : Str} {s t : σ × List Key}
    (hpick : pick menu selection s = .ok (some (output, name, .exitItem)) t) :
    Left menu selection s true t
  | through {menu m : Menu σ} {selection output : ℤ} {name : Str} {s t u : σ × List Key}
    (hpick : pick menu selection s = .ok (some (output, name, .submenu m)) t)
    (hleft : Left m 0 t true u) : Left menu selection s true u
  | back {menu m : Menu σ} {selection output : ℤ} {name : Str} {s t u v : σ × List Key}
    {exit : Bool} (hpick : pick menu selection s = .ok (some (output, name, .submenu m)) t)
    (hleft : Left m 0 t false u) (hagain : Left menu output u exit v) :
    Left menu selection s exit v
  | acts {menu : Menu σ} {selection output : ℤ} {name : Str} {item : MenuItemData σ}
    {s t u v : σ × List Key} {exit : Bool}
    (hpick : pick menu selection s = .ok (some (output, name, item)) t) (hacts : item.Acts)
    (haction : item.action t = .ok () u) (hagain : Left menu output u exit v) :
    Left menu selection s exit v

/-- **More fuel** changes nothing of a menu that was left. -/
theorem runMenu_mono (h : runMenu fuel menu labels selection s = .ok exit u)
    (hfuel : fuel ≤ fuel') (labels' : List Str) :
    runMenu fuel' menu labels' selection s = .ok exit u := by
  induction fuel generalizing fuel' menu labels selection s u labels' exit with
  | zero => cases h
  | succ fuel ih =>
    obtain ⟨n, rfl⟩ := Nat.exists_eq_add_of_le hfuel
    have hn : fuel + 1 + n = fuel + n + 1 := Nat.add_right_comm fuel 1 n
    have hle : fuel ≤ fuel + n := Nat.le_add_right fuel n
    rw [hn]
    cases picked menu selection s with
    | halts hpick =>
      rw [runMenu_halts hpick] at h
      cases h
    | esc hpick =>
      rw [runMenu_none hpick] at h ⊢
      exact h
    | submenu hpick =>
      rw [runMenu_submenu hpick] at h ⊢
      obtain ⟨left, v, hnested, h⟩ := bind_eq_ok.1 h
      refine bind_eq_ok.2 ⟨left, v, ih hnested hle _, ?_⟩
      cases left with
      | true => exact h
      | false => exact ih h hle _
    | exit hpick =>
      rw [runMenu_exit hpick] at h ⊢
      exact h
    | acts hpick hacts =>
      rw [runMenu_acts hpick hacts] at h ⊢
      obtain ⟨⟨⟩, v, haction, h⟩ := bind_eq_ok.1 h
      exact bind_eq_ok.2 ⟨(), v, haction, ih h hle _⟩

/-- **`run_menu` returns** exactly when the menu is left. -/
theorem left_iff (labels : List Str) :
    (∃ fuel, runMenu fuel menu labels selection s = .ok exit u) ↔ Left menu selection s exit u := by
  constructor
  · rintro ⟨fuel, h⟩
    induction fuel generalizing menu labels selection s u exit with
    | zero => cases h
    | succ fuel ih =>
      cases picked menu selection s with
      | halts hpick =>
        rw [runMenu_halts hpick] at h
        cases h
      | esc hpick =>
        rw [runMenu_none hpick] at h
        cases h
        exact .esc hpick
      | submenu hpick =>
        rw [runMenu_submenu hpick] at h
        obtain ⟨left, v, hnested, h⟩ := bind_eq_ok.1 h
        cases left with
        | true =>
          cases h
          exact .through hpick (ih _ hnested)
        | false => exact .back hpick (ih _ hnested) (ih _ h)
      | exit hpick =>
        rw [runMenu_exit hpick] at h
        cases h
        exact .exit hpick
      | acts hpick hacts =>
        rw [runMenu_acts hpick hacts] at h
        obtain ⟨⟨⟩, v, haction, h⟩ := bind_eq_ok.1 h
        exact .acts hpick hacts haction (ih _ h)
  · intro h
    induction h generalizing labels with
    | esc hpick => exact ⟨1, runMenu_none hpick⟩
    | exit hpick => exact ⟨1, runMenu_exit hpick⟩
    | @through _ _ _ _ name _ _ _ hpick _ ih =>
      obtain ⟨n, hn⟩ := ih (labels ++ [name])
      refine ⟨n + 1, ?_⟩
      rw [runMenu_submenu hpick]
      exact bind_eq_ok.2 ⟨true, _, hn, rfl⟩
    | @back _ _ _ _ name _ _ _ _ _ hpick _ _ ih ih' =>
      obtain ⟨n, hn⟩ := ih (labels ++ [name])
      obtain ⟨k, hk⟩ := ih' labels
      refine ⟨max n k + 1, ?_⟩
      rw [runMenu_submenu hpick]
      refine bind_eq_ok.2 ⟨false, _, runMenu_mono hn (le_max_left n k) _, ?_⟩
      exact runMenu_mono hk (le_max_right n k) _
    | acts hpick hacts haction _ ih =>
      obtain ⟨n, hn⟩ := ih labels
      refine ⟨n + 1, ?_⟩
      rw [runMenu_acts hpick hacts]
      exact bind_eq_ok.2 ⟨(), _, haction, hn⟩

/-- A submenu that was entered is left again. -/
inductive LeavesSubmenu : Menu σ → ℤ → σ × List Key → Prop
  | left {menu m : Menu σ} {selection output : ℤ} {name : Str} {s t u : σ × List Key}
    {exit : Bool} (hpick : pick menu selection s = .ok (some (output, name, .submenu m)) t)
    (hleft : Left m 0 t exit u) : LeavesSubmenu menu selection s
  | inside {menu m : Menu σ} {selection output : ℤ} {name : Str} {s t : σ × List Key}
    (hpick : pick menu selection s = .ok (some (output, name, .submenu m)) t)
    (hinside : LeavesSubmenu m 0 t) : LeavesSubmenu menu selection s
  | acts {menu : Menu σ} {selection output : ℤ} {name : Str} {item : MenuItemData σ}
    {s t u : σ × List Key}
    (hpick : pick menu selection s = .ok (some (output, name, item)) t) (hacts : item.Acts)
    (haction : item.action t = .ok () u) (hagain : LeavesSubmenu menu output u) :
    LeavesSubmenu menu selection s

/-! ## What is logged -/

/-- A menu is drawn behind the initial labels and those of the submenus on the way to it. -/
def LabelEvent.Labelled (initial : List Str) : LabelEvent → Prop
  | .draw path labels => labels = initial ++ path
  | .erase _ _ => True

/-- `erase` is given an iterator that can be dereferenced. -/
def LabelEvent.Valid : LabelEvent → Prop
  | .draw _ _ => True
  | .erase position size => position < size

section

variable {ok : LabelEvent → Prop}

/-- The log of a round that halts: the menu was drawn. -/
theorem allLogged_halts {e : Halt} (hpick : pick menu selection s = .error e t) :
    AllLogged ok (labelledMenu eraseEnd (fuel + 1) menu path labels selection) s ↔
      ok (.draw path labels) := by
  rw [labelledMenu, allLogged_bind_of_ok rfl, allLogged_emit, allLogged_bind,
    erased_lift, hpick]
  simp

/-- The log of a round that ESC ends: the menu was drawn. -/
theorem allLogged_none (hpick : pick menu selection s = .ok none t) :
    AllLogged ok (labelledMenu eraseEnd (fuel + 1) menu path labels selection) s ↔
      ok (.draw path labels) := by
  rw [labelledMenu, allLogged_bind_of_ok rfl, allLogged_emit, allLogged_lift_bind hpick]
  simp

/-- The log of a round that an exit item ends: the menu was drawn. -/
theorem allLogged_exit
    (hpick : pick menu selection s = .ok (some (output, name, .exitItem)) t) :
    AllLogged ok (labelledMenu eraseEnd (fuel + 1) menu path labels selection) s ↔
      ok (.draw path labels) := by
  rw [labelledMenu, allLogged_bind_of_ok rfl, allLogged_emit, allLogged_lift_bind hpick]
  simp

/-- The log of an item that acts: the menu was drawn, and it goes on with the same labels. -/
theorem allLogged_acts (hpick : pick menu selection s = .ok (some (output, name, item)) t)
    (hacts : item.Acts) :
    AllLogged ok (labelledMenu eraseEnd (fuel + 1) menu path labels selection) s ↔
      ok (.draw path labels) ∧ ∀ u, item.action t = .ok () u →
        AllLogged ok (labelledMenu eraseEnd fuel menu path labels output) u := by
  rw [labelledMenu, allLogged_bind_of_ok rfl, allLogged_emit, allLogged_lift_bind hpick]
  cases item with
  | submenu m => exact hacts.elim
  | exitItem => exact hacts.elim
  | _ =>
    dsimp only
    rw [allLogged_bind, erased_lift, and_iff_right allLogged_lift]
    exact and_congr_right fun _ => ⟨fun h u => h () u, fun h _ u => h u⟩

/-- **A submenu logs** its own events, then an `erase` at the end of the labels once it is
left, and then what the menu logs when it is drawn again. -/
theorem allLogged_submenu
    (hpick : pick menu selection s = .ok (some (output, name, .submenu m)) t) :
    AllLogged ok (labelledMenu eraseEnd (fuel + 1) menu path labels selection) s ↔
      ok (.draw path labels) ∧
      AllLogged ok (labelledMenu eraseEnd fuel m (path ++ [name]) (labels ++ [name]) 0) t ∧
      ∀ exit u, runMenu fuel m (labels ++ [name]) 0 t = .ok exit u →
        ok (.erase (labels ++ [name]).length (labels ++ [name]).length) ∧
        (exit = false →
          AllLogged ok
            (labelledMenu eraseEnd fuel menu path (eraseEnd (labels ++ [name])) output) u) := by
  rw [labelledMenu, allLogged_bind_of_ok rfl, allLogged_emit, allLogged_lift_bind hpick]
  dsimp only
  rw [allLogged_bind, erased_labelledMenu (labels ++ [name])]
  refine and_congr_right fun _ => ?_
  refine and_congr_right fun _ => forall_congr' fun exit => forall_congr' fun u =>
    imp_congr_right fun _ => ?_
  rw [allLogged_bind_of_ok rfl, allLogged_emit]
  cases exit <;> simp

end

/-! ## The labels of a session -/

/-- A submenu that is left again is followed by an `erase` at the end of the labels. -/
theorem erases_of_leaves (h : LeavesSubmenu menu selection s) (path labels : List Str) :
    ∃ fuel, ¬AllLogged LabelEvent.Valid
      (labelledMenu eraseEnd fuel menu path labels selection) s := by
  induction h generalizing path labels with
  | @left _ _ _ _ name _ _ _ _ hpick hleft =>
    obtain ⟨n, hn⟩ := (left_iff (labels ++ [name])).2 hleft
    refine ⟨n + 1, fun hall => ?_⟩
    rw [allLogged_submenu hpick] at hall
    exact lt_irrefl _ (hall.2.2 _ _ hn).1
  | @inside _ _ _ _ name _ _ hpick _ ih =>
    obtain ⟨n, hn⟩ := ih (path ++ [name]) (labels ++ [name])
    refine ⟨n + 1, fun hall => hn ?_⟩
    rw [allLogged_submenu hpick] at hall
    exact hall.2.1
  | acts hpick hacts haction _ ih =>
    obtain ⟨n, hn⟩ := ih path labels
    refine ⟨n + 1, fun hall => hn ?_⟩
    rw [allLogged_acts hpick hacts] at hall
    exact hall.2 _ haction

/-- As long as no submenu is left, `menu_labels` grows with the path and nothing is erased. -/
theorem labelled_of_not_leaves (h : ¬LeavesSubmenu menu selection s)
    (hlabels : labels = initial ++ path) :
    AllLogged (fun e => e.Labelled initial ∧ e.Valid)
      (labelledMenu eraseEnd fuel menu path labels selection) s := by
  induction fuel generalizing menu path labels selection s with
  | zero => exact fun _ h => absurd h List.not_mem_nil
  | succ fuel ih =>
    have hdraw : (LabelEvent.draw path labels).Labelled initial ∧
        (LabelEvent.draw path labels).Valid := ⟨hlabels, trivial⟩
    cases picked menu selection s with
    | halts hpick => exact (allLogged_halts hpick).2 hdraw
    | esc hpick => exact (allLogged_none hpick).2 hdraw
    | submenu hpick =>
      refine (allLogged_submenu hpick).2 ⟨hdraw, ih (fun hinside => h ?_) ?_, ?_⟩
      · exact .inside hpick hinside
      · rw [hlabels, List.append_assoc]
      · intro exit u hnested
        exact (h (.left hpick ((left_iff _).1 ⟨fuel, hnested⟩))).elim
    | exit hpick => exact (allLogged_exit hpick).2 hdraw
    | acts hpick hacts =>
      refine (allLogged_acts hpick hacts).2 ⟨hdraw, fun u haction => ih ?_ hlabels⟩
      exact fun hagain => h (.acts hpick hacts haction hagain)

/-- Where `erase` at the end drops the last label, every menu is drawn with its labels. -/
theorem labelled_dropLast (hlabels : labels = initial ++ path) :
    AllLogged (LabelEvent.Labelled initial)
      (labelledMenu List.dropLast fuel menu path labels selection) s := by
  induction fuel generalizing menu path labels selection s with
  | zero => exact fun _ h => absurd h List.not_mem_nil
  | succ fuel ih =>
    cases picked menu selection s with
    | halts hpick => exact (allLogged_halts hpick).2 hlabels
    | esc hpick => exact (allLogged_none hpick).2 hlabels
    | submenu hpick =>
      refine (allLogged_submenu hpick).2 ⟨hlabels, ih ?_, fun exit u _ => ⟨trivial, fun _ => ?_⟩⟩
      · rw [hlabels, List.append_assoc]
      · rw [List.dropLast_concat]
        exact ih hlabels
    | exit hpick => exact (allLogged_exit hpick).2 hlabels
    | acts hpick hacts => exact (allLogged_acts hpick hacts).2 ⟨hlabels, fun u _ => ih hlabels⟩

/-- The settings menu is opened, and left by ESC. -/
theorem settings_left_again : ¬∀ (root : Menu Settings) (initial : List Str)
    (eraseEnd : List Str → List Str) (s : Settings × List Key) (fuel : ℕ),
    AllLogged (fun e => e.Labelled initial ∧ e.Valid)
      (labelledMenu eraseEnd fuel root [] initial 0) s := by
  intro hall
  let s : Settings × List Key := (⟨[], [], [], [], 0, 0, 0⟩, [keyDown, keyEnter, keyEsc])
  have hopened : pick mainMenu 0 s =
    .ok (some (1, label "Settings", .submenu settingsMenu)) (s.1, [keyEsc]) := rfl
  have hleft : Left settingsMenu 0 (s.1, [keyEsc]) false (s.1, []) := .esc rfl
  obtain ⟨fuel, hfuel⟩ := erases_of_leaves (.left hopened hleft) [] [label ""]
  exact hfuel fun e he => (hall mainMenu [label ""] List.dropLast s fuel e he).2

/-- **The labels are right, and every `erase` is valid,** in all of a session exactly when no
submenu that was entered is left again; where `erase` at the end drops the last label, the
labels are right in every session. -/
theorem breadcrumbs_iff (root : Menu σ) (initial : List Str) (s : σ × List Key) :
    (∀ eraseEnd : List Str → List Str,
      (∀ fuel, AllLogged (fun e => e.Labelled initial ∧ e.Valid)
        (labelledMenu eraseEnd fuel root [] initial 0) s) ↔ ¬LeavesSubmenu root 0 s) ∧
    ∀ fuel, AllLogged (LabelEvent.Labelled initial)
      (labelledMenu List.dropLast fuel root [] initial 0) s := by
  have hlabels : initial = initial ++ [] := (List.append_nil initial).symm
  refine ⟨fun eraseEnd => ⟨fun hall hleaves => ?_, fun hleaves fuel => ?_⟩, fun fuel => ?_⟩
  · obtain ⟨fuel, hfuel⟩ := erases_of_leaves hleaves [] initial
    exact hfuel fun e he => (hall fuel e he).2
  · exact labelled_of_not_leaves hleaves hlabels
  · exact labelled_dropLast hlabels

end CliPos
